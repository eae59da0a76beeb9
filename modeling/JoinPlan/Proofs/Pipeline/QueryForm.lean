import JoinPlan.Filter.Token
import JoinPlan.Pipeline.Stage
import JoinPlan.Proofs.Filter.Pattern
import JoinPlan.Proofs.Scalar.Canonical

/-!
# Query documents lose nothing

A store takes conditions and stages as documents, in which fields, operators and operands
share one space of names. This file supplies `toDocument_loses_nothing`: nothing that differs
has one document, whatever the fields are called and however the parts are nested.

> `FromTokens`: every predicate in a condition was read from a token.

The operand of a predicate from a token has no parts (`Predicate.plain_of_ofToken`). So an
operand beside a field is not taken for an operator, and a field called like an operator is
not taken for one either (`same_field_parts`). A pattern is read off its regular
expression (`Pattern.source_inj`). The rest is an induction over the condition. Equality of
documents counts two zeros as one number, so each step is made twice, for equal documents and
for identical ones.
-/

namespace JoinPlan

/-! ## Equality of predicates, conditions and stages -/

/-- Equality of predicates, where operands are equal as documents are. -/
def Predicate.same : Predicate → Predicate → Bool
  | .compare comparison v, .compare comparison' w => comparison == comparison' && v.same w
  | .pattern kind text, .pattern kind' text' => kind == kind' && text == text'
  | .equals v, .equals w => v.same w
  | _, _ => false

mutual

/-- Equality of conditions, part by part. -/
def Condition.same : Condition → Condition → Bool
  | .always, .always => true
  | .field path predicate, .field path' predicate' =>
    path == path' && predicate.same predicate'
  | .allOf parts, .allOf parts' => Condition.sameParts parts parts'
  | .anyOf parts, .anyOf parts' => Condition.sameParts parts parts'
  | _, _ => false

/-- Equality of lists of conditions. -/
def Condition.sameParts : List Condition → List Condition → Bool
  | [], [] => true
  | part :: rest, part' :: rest' => part.same part' && Condition.sameParts rest rest'
  | _, _ => false

end

/-- Equality of stages. -/
def Stage.same : Stage → Stage → Bool
  | .filter c, .filter d => c.same d
  | .join j, .join k => j == k
  | .flatten f, .flatten g => f == g
  | .sort keys, .sort keys' => keys == keys'
  | .skip m, .skip n => m == n
  | .limit m, .limit n => m == n
  | _, _ => false

mutual

/-- Every predicate in the condition was read from a token. -/
def Condition.FromTokens : Condition → Prop
  | .always => True
  | .field _ predicate => ∃ token type, Predicate.ofToken token type = .ok predicate
  | .allOf parts => Condition.PartsFromTokens parts
  | .anyOf parts => Condition.PartsFromTokens parts

/-- Every predicate in the parts was read from a token. -/
def Condition.PartsFromTokens : List Condition → Prop
  | [] => True
  | part :: rest => part.FromTokens ∧ Condition.PartsFromTokens rest

end

/-! ## Operands -/

/-- A value without parts. -/
def Value.IsAtom : Value → Prop
  | .array _ | .object _ => False
  | _ => True

/-- The operand of a predicate has no parts. -/
def Predicate.Plain : Predicate → Prop
  | .compare _ operand | .equals operand => operand.IsAtom
  | .pattern _ _ => True

theorem ScalarType.isAtom_of_cast? {type : ScalarType} {text : String} {v : Value}
    (h : type.cast? text = some v) : v.IsAtom := by
  cases type with
  | any =>
    obtain rfl := Option.some.inj h
    trivial
  | string =>
    obtain ⟨-, rfl⟩ := cast?_string_eq_some_iff.mp h
    trivial
  | int =>
    obtain ⟨n, -, -, -, rfl⟩ := cast?_int_eq_some_iff.mp h
    trivial
  | float | bool | timestamp | uuid =>
    obtain ⟨x, -, rfl⟩ := Option.map_eq_some_iff.mp h
    trivial

theorem isAtom_of_castOr {type : Option ScalarType} {text : String} {v : Value}
    (h : castOr type text = .ok v) : v.IsAtom := by
  cases type with
  | none =>
    obtain rfl := Except.ok.inj h
    trivial
  | some type =>
    unfold castOr at h
    cases hcast : type.cast? text with
    | none => simp [hcast] at h
    | some w =>
      obtain rfl : w = v := by simpa [hcast] using h
      exact type.isAtom_of_cast? hcast

theorem Operator.plain_predicate (operator : Operator) {v : Value} (h : v.IsAtom) :
    (operator.predicate v).Plain := by
  cases operator <;> first | exact h | trivial

theorem Predicate.plain_of_ofToken {token : String} {type : Option ScalarType} {p : Predicate}
    (h : Predicate.ofToken token type = .ok p) : p.Plain := by
  rcases hparts : Operator.ofChars token.toList with ⟨operator, operand⟩
  unfold Predicate.ofToken at h
  rw [hparts] at h
  cases hcast : castOr type (String.ofList operand) with
  | error failure => simp [hcast, Except.map] at h
  | ok v =>
    obtain rfl : operator.predicate v = p := by simpa [hcast, Except.map] using h
    exact operator.plain_predicate (isAtom_of_castOr hcast)

/-! ## Reading documents apart -/

theorem Value.same_single (key key' : String) (v w : Value) :
    Value.same (.object [(key, v)]) (.object [(key', w)]) = (key == key' && v.same w) := by
  by_cases h : key' = key
  · simp [Value.same, Value.sameMembers, Members.get?, h]
  · have h' : (key == key') = false := by simpa using Ne.symm h
    simp [Value.same, Value.sameMembers, Members.get?, h, h']

theorem Predicate.operatorKey_inj {c d : Comparison} :
    operatorKey c = operatorKey d ↔ c = d := by
  refine ⟨fun h => ?_, congrArg operatorKey⟩
  cases c <;> cases d <;> first | rfl | exact absurd h (by decide)

namespace Predicate

variable {p q : Predicate}

/-- A plain predicate beside a field is not an array. -/
theorem toDocument_ne_array (hp : p.Plain) (items : List Value) :
    p.toDocument ≠ .array items ∧ p.toDocument.same (.array items) = false ∧
      (Value.array items).same p.toDocument = false := by
  cases p with
  | compare c v => exact ⟨Value.noConfusion, rfl, rfl⟩
  | pattern kind text => exact ⟨Value.noConfusion, rfl, rfl⟩
  | equals v => cases v <;> first | exact ⟨Value.noConfusion, rfl, rfl⟩ | exact hp.elim

/-- Predicates with plain operands are equal when their documents are. -/
theorem same_toDocument (hp : p.Plain) (hq : q.Plain) :
    p.toDocument.same q.toDocument = p.same q := by
  cases p with
  | compare c v =>
    cases q with
    | compare d w =>
      rw [toDocument, toDocument, Value.same_single, Predicate.same]
      congr 1
      rw [Bool.eq_iff_iff, beq_iff_eq, beq_iff_eq, operatorKey_inj]
    | pattern kind text => rfl
    | equals w => cases w <;> first | rfl | exact hq.elim
  | pattern kind text =>
    cases q with
    | compare d w => rfl
    | pattern kind' text' =>
      have hsource : (Pattern.source kind text == Pattern.source kind' text') =
          (kind == kind' && text == text') := by
        rw [Bool.eq_iff_iff, beq_iff_eq, Pattern.source_inj, Bool.and_eq_true, beq_iff_eq,
          beq_iff_eq]
      rw [Predicate.same, ← hsource]
      simp [toDocument, Value.same, Value.sameMembers, Members.get?]
    | equals w => cases w <;> first | rfl | exact hq.elim
  | equals v =>
    cases q with
    | compare d w => cases v <;> first | rfl | exact hp.elim
    | pattern kind text => cases v <;> first | rfl | exact hp.elim
    | equals w => rfl

/-- Predicates with plain operands are identical when their documents are. -/
theorem eq_of_toDocument_eq (hp : p.Plain) (hq : q.Plain) (h : p.toDocument = q.toDocument) :
    p = q := by
  cases p with
  | compare c v =>
    cases q with
    | compare d w =>
      simp only [toDocument, Value.object.injEq, List.cons.injEq, Prod.mk.injEq, and_true] at h
      rw [operatorKey_inj.mp h.1, h.2]
    | pattern kind text => simp [toDocument] at h
    | equals w => cases w <;> first | exact hq.elim | cases h
  | pattern kind text =>
    cases q with
    | compare d w => simp [toDocument] at h
    | pattern kind' text' =>
      simp only [toDocument, Value.object.injEq, List.cons.injEq, Prod.mk.injEq, true_and,
        Value.string.injEq, and_true] at h
      obtain ⟨hkind, htext⟩ := Pattern.source_inj.mp h
      rw [hkind, htext]
    | equals w => cases w <;> first | exact hq.elim | cases h
  | equals v =>
    cases q with
    | compare d w => cases v <;> first | exact hp.elim | cases h
    | pattern kind text => cases v <;> first | exact hp.elim | cases h
    | equals w => exact congrArg equals h

end Predicate

namespace Condition

section Parts

variable {p : Predicate} {token : String} {type : Option ScalarType}

/-- The document of a field is not that of parts, whatever the field is called. -/
theorem same_field_parts (h : Predicate.ofToken token type = .ok p) (path key : String)
    (parts : List Condition) :
    (field path p).toDocument.same (.object [(key, .array (toDocuments parts))]) = false ∧
      (Value.object [(key, .array (toDocuments parts))]).same (field path p).toDocument =
        false := by
  obtain ⟨-, hsame, hsame'⟩ :=
    p.toDocument_ne_array (Predicate.plain_of_ofToken h) (toDocuments parts)
  rw [toDocument, Value.same_single, Value.same_single, hsame, hsame', Bool.and_false,
    Bool.and_false]
  exact ⟨rfl, rfl⟩

theorem field_toDocument_ne_parts (h : Predicate.ofToken token type = .ok p) (path key : String)
    (parts : List Condition) :
    (field path p).toDocument ≠ .object [(key, .array (toDocuments parts))] := by
  have hne := (p.toDocument_ne_array (Predicate.plain_of_ofToken h) (toDocuments parts)).1
  simp [toDocument, hne]

end Parts

mutual

/-- Conditions from tokens are equal when their documents are. -/
theorem same_toDocument : ∀ {c d : Condition}, c.FromTokens → d.FromTokens →
    c.toDocument.same d.toDocument = c.same d
  | .always, d, _, _ => by cases d <;> rfl
  | .field path p, d, ⟨token, type, hp⟩, hd => by
    cases d with
    | always => rfl
    | field path' q =>
      obtain ⟨token', type', hq⟩ := hd
      rw [toDocument, toDocument, Value.same_single, same,
        Predicate.same_toDocument (Predicate.plain_of_ofToken hp) (Predicate.plain_of_ofToken hq)]
    | allOf parts | anyOf parts => exact (same_field_parts hp path _ parts).1
  | .allOf parts, d, hc, hd => by
    cases d with
    | always => rfl
    | field path q =>
      obtain ⟨token, type, hq⟩ := hd
      exact (same_field_parts hq path _ parts).2
    | allOf parts' =>
      rw [toDocument, toDocument, Value.same_single, same]
      exact same_toDocuments hc hd
    | anyOf parts' =>
      rw [toDocument, toDocument, Value.same_single]
      rfl
  | .anyOf parts, d, hc, hd => by
    cases d with
    | always => rfl
    | field path q =>
      obtain ⟨token, type, hq⟩ := hd
      exact (same_field_parts hq path _ parts).2
    | allOf parts' =>
      rw [toDocument, toDocument, Value.same_single]
      rfl
    | anyOf parts' =>
      rw [toDocument, toDocument, Value.same_single, same]
      exact same_toDocuments hc hd

/-- Lists of conditions from tokens are equal when their documents are. -/
theorem same_toDocuments : ∀ {cs ds : List Condition}, PartsFromTokens cs → PartsFromTokens ds →
    Value.sameItems (toDocuments cs) (toDocuments ds) = sameParts cs ds
  | [], ds, _, _ => by cases ds <;> rfl
  | c :: cs, [], _, _ => rfl
  | c :: cs, d :: ds, hc, hd => by
    rw [toDocuments, toDocuments, Value.sameItems, sameParts, same_toDocument hc.1 hd.1,
      same_toDocuments hc.2 hd.2]

end

mutual

/-- Conditions from tokens are identical when their documents are. -/
theorem eq_of_toDocument_eq : ∀ {c d : Condition}, c.FromTokens → d.FromTokens →
    c.toDocument = d.toDocument → c = d
  | .always, d, _, _, h => by
    cases d with
    | always => rfl
    | _ => simp [toDocument] at h
  | .field path p, d, ⟨token, type, hp⟩, hd, h => by
    cases d with
    | always => simp [toDocument] at h
    | field path' q =>
      obtain ⟨token', type', hq⟩ := hd
      simp only [toDocument, Value.object.injEq, List.cons.injEq, Prod.mk.injEq, and_true] at h
      rw [h.1, Predicate.eq_of_toDocument_eq (Predicate.plain_of_ofToken hp)
        (Predicate.plain_of_ofToken hq) h.2]
    | allOf parts | anyOf parts => exact absurd h (field_toDocument_ne_parts hp path _ parts)
  | .allOf parts, d, hc, hd, h => by
    cases d with
    | always => simp [toDocument] at h
    | field path q =>
      obtain ⟨token, type, hq⟩ := hd
      exact absurd h.symm (field_toDocument_ne_parts hq path _ parts)
    | allOf parts' =>
      simp only [toDocument, Value.object.injEq, List.cons.injEq, Prod.mk.injEq, and_true,
        Value.array.injEq, true_and] at h
      rw [eq_of_toDocuments_eq hc hd h]
    | anyOf parts' => simp [toDocument] at h
  | .anyOf parts, d, hc, hd, h => by
    cases d with
    | always => simp [toDocument] at h
    | field path q =>
      obtain ⟨token, type, hq⟩ := hd
      exact absurd h.symm (field_toDocument_ne_parts hq path _ parts)
    | allOf parts' => simp [toDocument] at h
    | anyOf parts' =>
      simp only [toDocument, Value.object.injEq, List.cons.injEq, Prod.mk.injEq, and_true,
        Value.array.injEq, true_and] at h
      rw [eq_of_toDocuments_eq hc hd h]

/-- Lists of conditions from tokens are identical when their documents are. -/
theorem eq_of_toDocuments_eq : ∀ {cs ds : List Condition}, PartsFromTokens cs →
    PartsFromTokens ds → toDocuments cs = toDocuments ds → cs = ds
  | [], [], _, _, _ => rfl
  | [], d :: ds, _, _, h => by simp [toDocuments] at h
  | c :: cs, [], _, _, h => by simp [toDocuments] at h
  | c :: cs, d :: ds, hc, hd, h => by
    obtain ⟨hhead, htail⟩ := List.cons.inj h
    rw [eq_of_toDocument_eq hc.1 hd.1 hhead, eq_of_toDocuments_eq hc.2 hd.2 htail]

end

end Condition

namespace Stage

/-- A stage whose conditions, if it filters, are from tokens. Sorting is left out, for its
document keeps a path once only. -/
def Faithful : Stage → Prop
  | .filter c => c.FromTokens
  | .sort _ => False
  | _ => True

theorem same_operand_join (j k : Join) :
    (Stage.join j).operand.same (Stage.join k).operand = (j == k) := by
  obtain ⟨source, localField, foreignField, asName⟩ := j
  obtain ⟨source', localField', foreignField', asName'⟩ := k
  rw [Bool.eq_iff_iff, beq_iff_eq, Join.mk.injEq]
  simp [operand, Value.same, Value.sameMembers, Members.get?]

theorem same_operand_flatten (f g : Flatten) :
    (Stage.flatten f).operand.same (Stage.flatten g).operand = (f == g) := by
  obtain ⟨asName, preserve, indexField⟩ := f
  obtain ⟨asName', preserve', indexField'⟩ := g
  rw [Bool.eq_iff_iff, beq_iff_eq, Flatten.mk.injEq]
  -- A field for positions is one member more.
  cases indexField <;> cases indexField' <;>
    simp [operand, Value.same, Value.sameMembers, Members.get?]

theorem same_count (m n : Nat) : (Value.ofInt m).same (.ofInt n) = (m == n) := by
  show ((m : Int) == (n : Int)) = (m == n)
  rw [Bool.eq_iff_iff, beq_iff_eq, beq_iff_eq, Int.ofNat_inj]

/-- Stages are equal when their documents are. -/
theorem same_toDocument {s t : Stage} (hs : s.Faithful) (ht : t.Faithful) :
    s.toDocument.same t.toDocument = s.same t := by
  rw [toDocument, toDocument, Value.same_single]
  cases s with
  | filter c =>
    cases t with
    | filter d => exact Condition.same_toDocument hs ht
    | _ => rfl
  | join j =>
    cases t with
    | join k => exact same_operand_join j k
    | _ => rfl
  | flatten f =>
    cases t with
    | flatten g => exact same_operand_flatten f g
    | _ => rfl
  | sort keys => exact hs.elim
  | skip m =>
    cases t with
    | skip n => exact same_count m n
    | _ => rfl
  | limit m =>
    cases t with
    | limit n => exact same_count m n
    | _ => rfl

/-- Stages are identical when their documents are. -/
theorem eq_of_toDocument_eq {s t : Stage} (hs : s.Faithful) (ht : t.Faithful)
    (h : s.toDocument = t.toDocument) : s = t := by
  -- Equality of stages without a condition is identity.
  have hsame : s.same t = s.same s := by rw [← same_toDocument hs ht, ← same_toDocument hs hs, h]
  cases s with
  | filter c =>
    simp only [toDocument, Value.object.injEq, List.cons.injEq, Prod.mk.injEq, and_true] at h
    cases t with
    | filter d => rw [Condition.eq_of_toDocument_eq hs ht h.2]
    | _ => simp [operation] at h
  | sort keys => exact hs.elim
  | join _ | flatten _ | skip _ | limit _ =>
    cases t <;> simp_all [Stage.same]

end Stage

/-- Query documents lose nothing. Of conditions whose predicates are from tokens, in any nesting
and at any paths, the documents are equal exactly when the conditions are, and so it is with
stages that filter by such conditions, join, flatten, skip or limit. Operands count as equal
when they are equal as documents, and where documents are identical so are the conditions and
the stages. -/
theorem toDocument_loses_nothing :
    (∀ c d : Condition, c.FromTokens → d.FromTokens →
      c.toDocument.same d.toDocument = c.same d ∧ (c.toDocument = d.toDocument → c = d)) ∧
    ∀ s t : Stage, s.Faithful → t.Faithful →
      s.toDocument.same t.toDocument = s.same t ∧ (s.toDocument = t.toDocument → s = t) :=
  ⟨fun _ _ hc hd => ⟨Condition.same_toDocument hc hd, Condition.eq_of_toDocument_eq hc hd⟩,
    fun _ _ hs ht => ⟨Stage.same_toDocument hs ht, Stage.eq_of_toDocument_eq hs ht⟩⟩

/-- Zero with a sign, or the text `$or.`, both at a field named like an operator. -/
def zeroOrText (negative : Bool) : Condition :=
  .anyOf [.field "$or" (.equals (.number (.float (.zero negative)))),
    .allOf [.always, .field "$or" (.pattern .exact "$or.")]]

/-- Both zeros are the same operand, so the conditions differ and are equal, and so are their
documents. -/
theorem toDocument_loses_nothing_zeroOrText :
    (zeroOrText false).FromTokens ∧ (zeroOrText true).FromTokens ∧
      (zeroOrText false).same (zeroOrText true) = true ∧
      (zeroOrText false).toDocument.same (zeroOrText true).toDocument = true := by
  have hplus : (zeroOrText false).FromTokens :=
    ⟨⟨"0", some .float, rfl⟩, ⟨trivial, ⟨"~$or.", none, rfl⟩, trivial⟩, trivial⟩
  have hminus : (zeroOrText true).FromTokens :=
    ⟨⟨"-0", some .float, rfl⟩, ⟨trivial, ⟨"~$or.", none, rfl⟩, trivial⟩, trivial⟩
  have hsame : (zeroOrText false).same (zeroOrText true) = true := rfl
  exact ⟨hplus, hminus, hsame, (toDocument_loses_nothing.1 _ _ hplus hminus).1.trans hsame⟩

end JoinPlan
