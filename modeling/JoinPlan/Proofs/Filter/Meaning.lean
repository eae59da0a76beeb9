import JoinPlan.Proofs.Filter.Criteria

/-!
# What criteria mean

Compiled criteria are simplified: a single alternative stands alone, what always holds is
dropped, and an empty list asks for nothing although no alternative of it holds. This file
supplies `meaning_ofFilter`: none of that shows in the documents that criteria match.

> `Asks`: the path and the type under which a key with its value asks for a token; a scalar
> is asked for at its own name, a relation without a traversal key at its identifier.

A key that asks for nothing leaves no part behind, and one that asks leaves the alternatives
of its tokens (`asks_of_ofEntry`), which never vanish as something that always holds
(`isAlways_ofTokens`). So criteria are trivial only when no key asks.
-/

namespace JoinPlan

namespace FilterValue

/-- The tokens of a filter value; an object has none. -/
def tokens (value : FilterValue) : List String := value.tokens?.getD []

theorem tokens?_eq_none_iff {value : FilterValue} :
    value.tokens? = none ↔ ∃ members, value = .nested members := by
  cases value <;> simp [tokens?]

theorem tokens?_eq_some_nil_iff {value : FilterValue} :
    value.tokens? = some [] ↔ value = .many [] := by
  cases value <;> simp [tokens?]

end FilterValue

/-- Some token, read under the type, holds of a value found at the path. -/
def Value.MeetsSome [PatternLimit] (document : Value) (path : String) (type : Option ScalarType)
    (tokens : List String) : Prop :=
  ∃ token ∈ tokens, ∃ predicate, Predicate.ofToken token type = .ok predicate ∧
    ∃ found ∈ document.lookup path, predicate.holds found = true

namespace Condition

/-- Where a key of a filter asks for a token, and under which type. -/
inductive Asks (schema : Schema) (key : String) (value : FilterValue) :
    String → Option ScalarType → Prop
  | scalar {type : ScalarType} {inherited : Option String} (hslash : '/' ∉ key.toList)
      (hvalue : value ≠ .many [])
      (hdeclared : schema.attribute? key = some ⟨.scalar type, inherited⟩) :
      Asks schema key value key (some type)
  | reference {relation : Relation} {inherited : Option String} (hslash : '/' ∉ key.toList)
      (hvalue : value ≠ .many [])
      (hdeclared : schema.attribute? key = some ⟨.relation relation, inherited⟩)
      (hplain : relation.traversalKey = none) (hflat : ∀ members, value ≠ .nested members) :
      Asks schema key value (key ++ "." ++ referenceKey) none

/-! ## Entries -/

section Entry

variable {schema : Schema} {key path : String} {value : FilterValue} {type : Option ScalarType}

/-- A key asks at its slot, if it asks. -/
theorem Asks.slot?_eq (h : Asks schema key value path type) :
    slot? schema key = some (path, type) := by
  refine slot?_eq_some_iff.mpr ?_
  cases h with
  | scalar hslash _ hdeclared => exact ⟨hslash, .inl ⟨_, _, hdeclared, rfl, rfl⟩⟩
  | reference hslash _ hdeclared hplain _ =>
    exact ⟨hslash, .inr ⟨_, _, hdeclared, hplain, rfl, rfl⟩⟩

/-- A key asks under one path and one type. -/
theorem Asks.unique {path' : String} {type' : Option ScalarType}
    (h : Asks schema key value path type) (h' : Asks schema key value path' type') :
    path' = path ∧ type' = type :=
  Prod.mk.inj (Option.some.inj (h'.slot?_eq.symm.trans h.slot?_eq))

theorem Asks.value_ne (h : Asks schema key value path type) : value ≠ .many [] := by
  cases h <;> assumption

/-- An object is asked of no reference. -/
theorem Asks.value_ne_nested (h : Asks schema key value path none) (members : Members) :
    value ≠ .nested members := by
  cases h with
  | reference _ _ _ _ hflat => exact hflat members

/-- A key with a slot asks there when its value has tokens. -/
theorem asks_of_slot? (h : slot? schema key = some (path, type)) {token : String}
    {tokens : List String} (htokens : value.tokens? = some (token :: tokens)) :
    Asks schema key value path type := by
  have hvalue : value ≠ .many [] := by
    rintro rfl
    cases htokens
  have hflat : ∀ members, value ≠ .nested members := by
    rintro members rfl
    cases htokens
  obtain ⟨hslash, ⟨_, _, hdeclared, rfl, rfl⟩ | ⟨_, _, hdeclared, hplain, rfl, rfl⟩⟩ :=
    slot?_eq_some_iff.mp h
  · exact .scalar hslash hvalue hdeclared
  · exact .reference hslash hvalue hdeclared hplain hflat

/-- An entry that compiles leaves no part, and then its key asks for nothing; or it leaves
the alternatives of its tokens where its key asks. -/
theorem asks_of_ofEntry {part : Option Condition} (h : ofEntry schema key value = .ok part) :
    (part = none ∧ ∀ path type, ¬Asks schema key value path type) ∨
      ∃ path type condition, Asks schema key value path type ∧
        ofTokens path value.tokens type = .ok condition ∧ part = some condition := by
  cases hslot : slot? schema key with
  | none =>
    rw [ofEntry_of_slot_none hslot] at h
    refine .inl ⟨(Except.ok.inj h).symm, fun path type hasks => ?_⟩
    rw [hasks.slot?_eq] at hslot
    cases hslot
  | some slot =>
    obtain ⟨path, type⟩ := slot
    rw [ofEntry_of_slot hslot] at h
    cases htokens : value.tokens? with
    | none =>
      obtain ⟨members, rfl⟩ := FilterValue.tokens?_eq_none_iff.mp htokens
      cases type with
      | some type => cases h
      | none =>
        refine .inl ⟨(Except.ok.inj h).symm, fun path type hasks => ?_⟩
        have hplace := hasks.slot?_eq.symm.trans hslot
        obtain ⟨rfl, rfl⟩ := Prod.mk.inj (Option.some.inj hplace)
        exact hasks.value_ne_nested members rfl
    | some tokens =>
      rw [htokens] at h
      cases tokens with
      | nil =>
        have hvalue := FilterValue.tokens?_eq_some_nil_iff.mp htokens
        exact .inl ⟨(Except.ok.inj h).symm, fun path type hasks => hasks.value_ne hvalue⟩
      | cons token rest =>
        simp only at h
        cases hcondition : ofTokens path (token :: rest) type with
        | error failure =>
          rw [hcondition] at h
          cases h
        | ok condition =>
          rw [hcondition] at h
          refine .inr ⟨path, type, condition, asks_of_slot? hslot htokens, ?_,
            (Except.ok.inj h).symm⟩
          rw [FilterValue.tokens, htokens]
          exact hcondition

/-- The alternatives of tokens hold of the documents that meet some token. -/
theorem holds_ofTokens_iff [PatternLimit] {tokens : List String} {condition : Condition}
    (h : ofTokens path tokens type = .ok condition) (document : Value) :
    condition.holds document = true ↔ document.MeetsSome path type tokens := by
  rw [holds_ofTokens h, List.any_eq_true]
  refine exists_congr fun token => and_congr_right fun _ => ?_
  unfold tokenHolds
  cases hpredicate : Predicate.ofToken token type with
  | error failure => simp
  | ok predicate => simp [List.any_eq_true]

/-- Alternatives of tokens are something to meet, even when there are none. -/
theorem isAlways_ofTokens {tokens : List String} {condition : Condition}
    (h : ofTokens path tokens type = .ok condition) : condition.isAlways = false := by
  obtain ⟨predicates, -, rfl⟩ := exists_predicates_of_ofTokens h
  have hfields : (predicates.map (field path)).any isAlways = false := by
    rw [List.any_map, List.any_eq_false]
    intro predicate _
    exact Bool.false_ne_true
  unfold disj
  rw [hfields, if_neg Bool.false_ne_true]
  split
  · next part hpart =>
    rw [hpart, List.any_cons, Bool.or_eq_false_iff] at hfields
    exact hfields.1
  · rfl

end Entry

/-! ## Criteria -/

/-- Parts together are trivial when each of them is. -/
theorem conj_eq_always_iff {parts : List Condition} :
    conj parts = .always ↔ ∀ part ∈ parts, part.isAlways = true := by
  have hnil : parts.filter (!·.isAlways) = [] ↔ ∀ part ∈ parts, part.isAlways = true := by
    simp [List.filter_eq_nil_iff]
  rw [← hnil]
  unfold conj
  split
  · next h => exact iff_of_true rfl h
  · next part h =>
    have hkept : part ∈ parts.filter (!·.isAlways) := h ▸ List.mem_cons_self
    refine iff_of_false ?_ (List.ne_nil_of_mem hkept)
    rintro rfl
    cases (List.mem_filter.mp hkept).2
  · next h _ => exact iff_of_false nofun h

/-- What an entry that compiles asks is what its part says. -/
theorem holds_part_iff_asks [PatternLimit] {schema : Schema} {key : String} {value : FilterValue}
    {part : Option Condition} (h : ofEntry schema key value = .ok part) (document : Value) :
    (∀ condition, part = some condition → condition.holds document = true) ↔
      ∀ path type, Asks schema key value path type →
        document.MeetsSome path type value.tokens := by
  rcases asks_of_ofEntry h with ⟨rfl, hnone⟩ | ⟨path, type, condition, hasks, hcondition, rfl⟩
  · exact iff_of_true nofun fun path type hasks => absurd hasks (hnone path type)
  · constructor
    · intro hholds path' type' hasks'
      obtain ⟨rfl, rfl⟩ := hasks.unique hasks'
      exact (holds_ofTokens_iff hcondition document).mp (hholds condition rfl)
    · intro hmeets condition' heq
      obtain rfl := Option.some.inj heq
      exact (holds_ofTokens_iff hcondition document).mpr (hmeets path type hasks)

/-- The part of an entry is trivial only when there is none. -/
theorem isAlways_part_iff_not_asks {schema : Schema} {key : String} {value : FilterValue}
    {part : Option Condition} (h : ofEntry schema key value = .ok part) :
    (∀ condition, part = some condition → condition.isAlways = true) ↔
      ∀ path type, ¬Asks schema key value path type := by
  rcases asks_of_ofEntry h with ⟨rfl, hnone⟩ | ⟨path, type, condition, hasks, hcondition, rfl⟩
  · exact iff_of_true nofun hnone
  · refine iff_of_false (fun halways => ?_) fun hnone => hnone path type hasks
    exact Bool.false_ne_true ((isAlways_ofTokens hcondition).symm.trans (halways condition rfl))

/-- What is true of every part is what is asked of every entry, when that is so of each
entry with its part. -/
theorem forall_mem_parts_iff {schema : Schema} {entries : List (String × FilterValue)}
    {parts : List (Option Condition)} {P : Condition → Prop} {Q : String → FilterValue → Prop}
    (hparts : List.Forall₂ (fun entry part => ofEntry schema entry.1 entry.2 = .ok part)
      entries parts)
    (hentry : ∀ {key value part}, ofEntry schema key value = .ok part →
      ((∀ condition, part = some condition → P condition) ↔ Q key value)) :
    (∀ condition ∈ parts.filterMap id, P condition) ↔
      ∀ key value, (key, value) ∈ entries → Q key value := by
  induction hparts with
  | nil => simp
  | @cons entry part entries parts hpart _ ih =>
    obtain ⟨key, value⟩ := entry
    have hmem : ∀ condition, condition ∈ (part :: parts).filterMap id ↔
        part = some condition ∨ condition ∈ parts.filterMap id := by simp [eq_comm]
    simp only [hmem, or_imp, forall_and, List.mem_cons, Prod.mk.injEq, ih, hentry hpart]
    simp

/-- The criteria of a filter hold of the documents that meet, for each key that asks, some
token of its value where it asks; and they are trivial when no key asks. -/
theorem meaning_ofFilter [PatternLimit] {schema : Schema} {filter : Filter} {criteria : Condition}
    (h : ofFilter schema filter = .ok criteria) :
    (∀ document, criteria.holds document = true ↔
      ∀ key value, filter.get? key = some value → ∀ path type,
        Asks schema key value path type → document.MeetsSome path type value.tokens) ∧
    (criteria = .always ↔
      ∀ key value, filter.get? key = some value → ∀ path type,
        ¬Asks schema key value path type) := by
  obtain ⟨parts, hparts, rfl⟩ := exists_parts_of_ofFilter h
  simp only [SortedMap.get?_eq_some_iff]
  constructor
  · intro document
    rw [holds_conj, List.all_eq_true]
    exact forall_mem_parts_iff hparts fun hpart => holds_part_iff_asks hpart document
  · rw [conj_eq_always_iff]
    exact forall_mem_parts_iff hparts isAlways_part_iff_not_asks

/-- Sales with a total, to a buyer known by identifier, of goods known by name. -/
def sales : Schema :=
  (((Schema.make "sale" "1").withAttribute "total" (.ofScalar .int)).withAttribute "buyer"
    (.ofTarget "user")).withAttribute "goods"
      ((Attribute.ofTarget "product").withTraversalKey "name")

/-- Keys of every kind, of which `buyer` and `total` ask. -/
def cheapOrDear : Filter :=
  .ofList [("buyer", .one "ada"), ("buyer/name", .one ":a"), ("colour", .one "red"),
    ("goods", .one "pen"), ("total", .many ["<3", ">8"])]

/-- A sale to Ada. -/
def saleToAda (total : Int) : Value :=
  .object [("buyer", .object [("id", .string "ada")]), ("total", .ofInt total)]

section

attribute [local instance] PatternLimit.unbounded

theorem meaning_ofFilter_cheapOrDear :
    ∃ criteria, ofFilter sales cheapOrDear = .ok criteria ∧
      (∀ document, criteria.holds document = true ↔
        ∀ key value, cheapOrDear.get? key = some value → ∀ path type,
          Asks sales key value path type → document.MeetsSome path type value.tokens) ∧
      criteria ≠ .always ∧
      criteria.holds (saleToAda 9) = true ∧ criteria.holds (saleToAda 5) = false := by
  obtain ⟨criteria, hcriteria⟩ : ∃ criteria, ofFilter sales cheapOrDear = .ok criteria :=
    ⟨_, rfl⟩
  obtain ⟨hholds, halways⟩ := meaning_ofFilter hcriteria
  refine ⟨criteria, hcriteria, hholds, ?_, ?_, ?_⟩
  · intro htrivial
    have hdeclared : sales.attribute? "total" = some (.ofScalar .int) := by decide +kernel
    exact halways.mp htrivial "total" (.many ["<3", ">8"]) rfl "total" (some .int)
      (.scalar (by decide) (by simp) hdeclared)
  · obtain rfl := Except.ok.inj hcriteria
    decide +kernel
  · obtain rfl := Except.ok.inj hcriteria
    decide +kernel

end

end Condition

end JoinPlan
