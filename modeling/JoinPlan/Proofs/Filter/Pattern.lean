import JoinPlan.Proofs.Filter.Predicate

/-!
# Patterns are literal

A pattern goes to the matcher as a regular expression, and the text of it may hold any of the
marks that expressions are made of. This file reads the expression as a matcher does and shows
that nothing but the text is left in it.

> `Items`: what an expression without operators asks for, one anchor or character after another.
>
> `pattern_literal`: within the limit, an exact pattern meets the texts that are like its own,
> position by position up to case, and a substring pattern those with such a part.

An escaped text is read as its characters and nothing else, whatever follows it
(`items?_escape_append`). So the anchors around an exact pattern are the only ones in it, and a
pattern can be read off its expression (`source_inj`).
-/

namespace JoinPlan

/-! ## Texts up to case -/

/-- Two texts of one length in which the characters at each position fold alike. -/
structure Text.Alike (a b : List Char) : Prop where
  length_eq : a.length = b.length
  fold_eq : ∀ (i : Nat) (ha : i < a.length) (hb : i < b.length),
    Text.fold a[i] = Text.fold b[i]

theorem Text.alike_iff_map_fold {a b : List Char} :
    Text.Alike a b ↔ a.map Text.fold = b.map Text.fold := by
  constructor
  · rintro ⟨hlength, hfold⟩
    refine List.ext_getElem (by rw [List.length_map, List.length_map, hlength]) fun i ha hb => ?_
    rw [List.length_map] at ha hb
    rw [List.getElem_map, List.getElem_map]
    exact hfold i ha hb
  · intro h
    have hlength := congrArg List.length h
    rw [List.length_map, List.length_map] at hlength
    refine ⟨hlength, fun i ha hb => ?_⟩
    have hi := congrArg (·[i]?) h
    simpa [ha, hb] using hi

namespace Pattern

/-! ## Regular expressions -/

/-- What an expression without operators asks for at one place of a text. -/
inductive Item where
  | textStart
  | textEnd
  | letter (c : Char)

/-- Whether a character that is not escaped makes more of an expression than a row of items. -/
def isOperator (c : Char) : Bool := ".*+?()|[\x7b".toList.contains c

/-- Whether a backslash makes a character stand for itself: one in front of a letter, a digit or
an angle stands for something else, and there is none in front of other alphabets. -/
def standsEscaped (c : Char) : Bool :=
  c.toNat < 0x80 && !c.isAlphanum && c != '<' && c != '>'

/-- The items of an expression without operators. -/
def items? : List Char → Option (List Item)
  | [] => some []
  | '^' :: rest => (items? rest).map (.textStart :: ·)
  | '$' :: rest => (items? rest).map (.textEnd :: ·)
  | ['\\'] => none
  | '\\' :: c :: rest => if standsEscaped c then (items? rest).map (.letter c :: ·) else none
  | c :: rest => if isOperator c then none else (items? rest).map (.letter c :: ·)

/-- The items meet a text from a place in it on, where `before` stands in front of the place and
`rest` behind it. Anchors meet the two ends of the text and no ends of lines. -/
def MetAt : List Item → List Char → List Char → Prop
  | [], _, _ => True
  | .textStart :: items, before, rest => before = [] ∧ MetAt items before rest
  | .textEnd :: items, before, rest => rest = [] ∧ MetAt items before rest
  | .letter _ :: _, _, [] => False
  | .letter c :: items, before, d :: rest =>
    Text.fold c = Text.fold d ∧ MetAt items (before ++ [d]) rest

/-- The expression has no operators and meets the text at some place. -/
def Finds (expression found : String) : Prop :=
  ∃ items, items? expression.toList = some items ∧
    ∃ before rest, found.toList = before ++ rest ∧ MetAt items before rest

/-! ## Escaped texts -/

theorem escape_cons (c : Char) (cs : List Char) :
    escape (c :: cs) = if isMark c then '\\' :: c :: escape cs else c :: escape cs := by
  unfold escape
  rw [List.flatMap_cons]
  split <;> rfl

theorem standsEscaped_of_isMark {c : Char} (h : isMark c = true) : standsEscaped c = true := by
  have hall : "\\.+*?()|[]\x7b\x7d^$#&-~".toList.all standsEscaped = true := by decide
  exact List.all_eq_true.mp hall c (List.contains_iff_mem.mp h)

/-- A character without a mark is read as itself. -/
theorem items?_cons_of_not_isMark {c : Char} (h : ¬isMark c = true) (rest : List Char) :
    items? (c :: rest) = (items? rest).map (.letter c :: ·) := by
  have hall : ".*+?()|[\x7b".toList.all isMark = true := by decide
  have hnot : isOperator c = false :=
    Bool.eq_false_iff.mpr fun hc => h (List.all_eq_true.mp hall c (List.contains_iff_mem.mp hc))
  rw [items?]
  · rw [hnot]; rfl
  all_goals
    intros
    subst_vars
    exact h (by decide)

/-- An escaped text is read as its characters, whatever follows. -/
theorem items?_escape_append (text rest : List Char) :
    items? (escape text ++ rest) = (items? rest).map (text.map .letter ++ ·) := by
  induction text with
  | nil => simp [escape]
  | cons c text ih =>
    rw [escape_cons]
    split
    · next hmark =>
      rw [List.cons_append, List.cons_append, items?, if_pos (standsEscaped_of_isMark hmark), ih,
        Option.map_map]
      rfl
    · next hmark =>
      rw [List.cons_append, items?_cons_of_not_isMark hmark, ih, Option.map_map]
      rfl

/-- The items of a pattern: its characters, between anchors if all of a text must be met. -/
def itemsOf (kind : PatternKind) (text : String) : List Item :=
  match kind with
  | .exact => .textStart :: text.toList.map .letter ++ [.textEnd]
  | .substring => text.toList.map .letter

theorem items?_source (kind : PatternKind) (text : String) :
    items? (source kind text).toList = some (itemsOf kind text) := by
  cases kind with
  | exact =>
    rw [source, String.toList_ofList, List.cons_append, items?, items?_escape_append]
    rfl
  | substring =>
    rw [source, String.toList_ofList, ← List.append_nil (escape _), items?_escape_append]
    simp [items?, itemsOf]

/-- The kind and the text of a pattern can be read off its regular expression. -/
theorem source_inj {kind kind' : PatternKind} {text text' : String} :
    source kind text = source kind' text' ↔ kind = kind' ∧ text = text' := by
  refine ⟨fun h => ?_, fun ⟨hkind, htext⟩ => by rw [hkind, htext]⟩
  have hitems : itemsOf kind text = itemsOf kind' text' := by
    rw [← Option.some_inj, ← items?_source, ← items?_source, h]
  have hletters : Function.Injective Item.letter := fun _ _ => Item.letter.inj
  -- No text begins with an anchor.
  have hanchor : ∀ (a b : List Char), Item.textStart :: a.map .letter ++ [.textEnd] ≠
      b.map .letter := by
    intro a b h
    cases b <;> cases h
  cases kind <;> cases kind' <;> simp only [itemsOf] at hitems
  · have hbody := List.append_cancel_right (List.cons.inj hitems).2
    exact ⟨rfl, String.toList_inj.mp (List.map_injective_iff.mpr hletters hbody)⟩
  · exact absurd hitems (hanchor _ _)
  · exact absurd hitems.symm (hanchor _ _)
  · exact ⟨rfl, String.toList_inj.mp (List.map_injective_iff.mpr hletters hitems)⟩

/-! ## Matching -/

/-- Letters meet a text like them, and the items behind them meet what follows it. -/
theorem metAt_letters_append {text : List Char} {items : List Item} {before rest : List Char} :
    MetAt (text.map .letter ++ items) before rest ↔
      ∃ part after, rest = part ++ after ∧ text.map Text.fold = part.map Text.fold ∧
        MetAt items (before ++ part) after := by
  induction text generalizing before rest with
  | nil => simp
  | cons c text ih =>
    cases rest with
    | nil => simp [MetAt]
    | cons d rest =>
      rw [List.map_cons, List.cons_append, MetAt, ih]
      constructor
      · rintro ⟨hc, part, after, rfl, htext, hmet⟩
        refine ⟨d :: part, after, rfl, ?_, ?_⟩
        · rw [List.map_cons, List.map_cons, hc, htext]
        · rwa [List.append_assoc] at hmet
      · rintro ⟨part, after, hrest, htext, hmet⟩
        cases part with
        | nil => cases htext
        | cons first part =>
          obtain ⟨rfl, rfl⟩ := List.cons.inj hrest
          obtain ⟨hc, htext⟩ := List.cons.inj htext
          refine ⟨hc, part, after, rfl, htext, ?_⟩
          rwa [List.append_assoc]

theorem finds_source_iff {kind : PatternKind} {text found : String} :
    Finds (source kind text) found ↔ ∃ before rest, found.toList = before ++ rest ∧
      MetAt (itemsOf kind text) before rest := by
  unfold Finds
  rw [items?_source]
  simp

/-- The expression of an exact pattern finds the texts like its own. -/
theorem finds_exact_iff {text found : String} :
    Finds (source .exact text) found ↔ Text.folded text = Text.folded found := by
  rw [finds_source_iff]
  simp only [itemsOf, List.cons_append, MetAt, metAt_letters_append]
  constructor
  · rintro ⟨before, rest, hfound, rfl, part, after, rfl, htext, rfl, -⟩
    rw [List.nil_append, List.append_nil] at hfound
    rwa [Text.folded, Text.folded, hfound]
  · intro h
    exact ⟨[], found.toList, rfl, rfl, found.toList, [], (List.append_nil _).symm, h, rfl, trivial⟩

/-- The expression of a substring pattern finds the texts with a part like its own. -/
theorem finds_substring_iff {text found : String} : Finds (source .substring text) found ↔
    ∃ part, part <:+: found.toList ∧ Text.folded text = part.map Text.fold := by
  have hmet : ∀ before rest, MetAt (itemsOf .substring text) before rest ↔
      ∃ part after, rest = part ++ after ∧ Text.folded text = part.map Text.fold := by
    intro before rest
    rw [itemsOf, ← List.append_nil (text.toList.map Item.letter), metAt_letters_append]
    simp only [MetAt, and_true, Text.folded]
  rw [finds_source_iff]
  simp only [hmet]
  constructor
  · rintro ⟨before, rest, hfound, part, after, rfl, htext⟩
    exact ⟨part, ⟨before, after, by rw [hfound, List.append_assoc]⟩, htext⟩
  · rintro ⟨part, ⟨before, after, hfound⟩, htext⟩
    exact ⟨before, part ++ after, by rw [← hfound, List.append_assoc], part, after, rfl, htext⟩

theorem occursIn_iff {part cs : List Char} : occursIn part cs = true ↔ part <:+: cs := by
  induction cs with
  | nil => simp [occursIn]
  | cons c cs ih =>
    rw [occursIn, Bool.or_eq_true, ih, List.isPrefixOf_iff_prefix, List.infix_cons_iff]

/-- A pattern meets what its regular expression finds, if that is within the limit. -/
theorem meets_iff [PatternLimit] {kind : PatternKind} {text found : String} :
    meets kind text found = true ↔
      PatternLimit.admits (source kind text) = true ∧ Finds (source kind text) found := by
  rw [meets, Bool.and_eq_true]
  refine and_congr_right fun _ => ?_
  cases kind with
  | exact => rw [finds_exact_iff, meetsFolded, beq_iff_eq]
  | substring =>
    rw [finds_substring_iff, meetsFolded, occursIn_iff, Text.folded, Text.folded,
      List.infix_map_iff]

end Pattern

namespace Predicate

theorem holds_pattern_string_iff [PatternLimit] {kind : PatternKind} {text found : String} :
    (Predicate.pattern kind text).holds (.string found) = true ↔
      PatternLimit.admits (Pattern.source kind text) = true ∧
        Pattern.Finds (Pattern.source kind text) found :=
  Pattern.meets_iff

variable {kind : PatternKind} {text : String} {v : Value}

/-- A pattern holds of no value but a text or an array. -/
theorem holds_pattern_eq_false [PatternLimit] (hstring : ∀ found, v ≠ .string found)
    (harray : ∀ items, v ≠ .array items) : (Predicate.pattern kind text).holds v = false := by
  rw [holds, Value.someElement_eq harray]
  cases v with
  | string found => exact absurd rfl (hstring found)
  | _ => rfl

/-- A pattern holds of a value when it holds of a text among its elements. -/
theorem holds_pattern_iff [PatternLimit] : (Predicate.pattern kind text).holds v = true ↔
    ∃ found, v.HasElement (.string found) ∧
      (Predicate.pattern kind text).holds (.string found) = true := by
  rw [holds_iff]
  constructor
  · rintro ⟨element, helement, hholds⟩
    cases element with
    | string found => exact ⟨found, helement, hholds⟩
    | _ => cases hholds
  · rintro ⟨found, helement, hholds⟩
    exact ⟨_, helement, hholds⟩

/-- A predicate holds of an array when it holds of an item. -/
theorem holds_array_iff [PatternLimit] {p : Predicate} {items : List Value} :
    p.holds (.array items) = true ↔ ∃ item ∈ items, p.holds item = true := by
  simp only [holds_iff, Value.hasElement_array_iff]
  constructor
  · rintro ⟨element, ⟨item, hitem, helement⟩, hholds⟩
    exact ⟨item, hitem, element, helement, hholds⟩
  · rintro ⟨item, hitem, element, helement, hholds⟩
    exact ⟨element, ⟨item, hitem, helement⟩, hholds⟩

/-- Patterns are literal, whatever limit the matcher sets. Of a text whose expressions stay within
the limit, whatever marks it holds, the expression has no operators and no anchors but its own. An
exact pattern holds of the texts with as many characters that agree with it position by position up
to case, and a substring pattern of those with a part of which the exact one holds; so both hold of
the text itself. No pattern holds of a value that is neither a text nor an array, and it holds of an
array when it holds of an item, which means of a text among its elements. -/
theorem pattern_literal [PatternLimit] (text : String)
    (hadmits : ∀ kind, PatternLimit.admits (Pattern.source kind text) = true) :
    (∀ found : String, (Predicate.pattern .exact text).holds (.string found) = true ↔
      Text.Alike text.toList found.toList) ∧
    (∀ found : String, (Predicate.pattern .substring text).holds (.string found) = true ↔
      ∃ part : String, part.toList <:+: found.toList ∧
        (Predicate.pattern .exact text).holds (.string part) = true) ∧
    ∀ kind : PatternKind,
      (∀ found : String, (Predicate.pattern kind text).holds (.string found) = true ↔
        Pattern.Finds (Pattern.source kind text) found) ∧
      (Predicate.pattern kind text).holds (.string text) = true ∧
      (∀ v : Value, (∀ found, v ≠ .string found) → (∀ items, v ≠ .array items) →
        (Predicate.pattern kind text).holds v = false) ∧
      (∀ items : List Value, (Predicate.pattern kind text).holds (.array items) = true ↔
        ∃ item ∈ items, (Predicate.pattern kind text).holds item = true) ∧
      ∀ v : Value, (Predicate.pattern kind text).holds v = true ↔
        ∃ found, v.HasElement (.string found) ∧
          (Predicate.pattern kind text).holds (.string found) = true := by
  have hfinds : ∀ kind found, (Predicate.pattern kind text).holds (.string found) = true ↔
      Pattern.Finds (Pattern.source kind text) found := fun kind found =>
    holds_pattern_string_iff.trans (and_iff_right (hadmits kind))
  have hexact : ∀ found : String, (Predicate.pattern .exact text).holds (.string found) = true ↔
      Text.folded text = Text.folded found := fun found =>
    (hfinds .exact found).trans Pattern.finds_exact_iff
  refine ⟨fun found => (hexact found).trans Text.alike_iff_map_fold.symm, fun found => ?_,
    fun kind => ⟨hfinds kind, ?_, fun _ => holds_pattern_eq_false, fun _ => holds_array_iff,
      fun _ => holds_pattern_iff⟩⟩
  · rw [hfinds, Pattern.finds_substring_iff]
    constructor
    · rintro ⟨part, hpart, htext⟩
      refine ⟨.ofList part, by rwa [String.toList_ofList], (hexact _).mpr ?_⟩
      rwa [Text.folded, Text.folded, String.toList_ofList]
    · rintro ⟨part, hpart, hmeets⟩
      exact ⟨part.toList, hpart, (hexact part).mp hmeets⟩
  · cases kind with
    | exact => exact (hexact text).mpr rfl
    | substring => exact (hfinds _ _).mpr (Pattern.finds_substring_iff.mpr
        ⟨text.toList, List.infix_rfl, rfl⟩)

section

/-- The limit of expressions with at most sixteen characters. -/
@[reducible]
def sixteenCharacters : PatternLimit := ⟨fun expression => expression.length ≤ 16⟩

attribute [local instance] sixteenCharacters

/-- Anchors, a class, a point and a line break in a text are only characters of it, where the
limit admits its expressions. -/
theorem pattern_literal_marks :
    (∀ kind, PatternLimit.admits (Pattern.source kind "^\\d.É\n$") = true) ∧
      (Predicate.pattern .exact "^\\d.É\n$").holds (.array [.null, .array [.string "^\\D.é\n$"]])
        = true ∧
      (Predicate.pattern .substring "^\\d.É\n$").holds (.string "a^\\d.é\n$b") = true ∧
      (Predicate.pattern .exact "^\\d.É\n$").holds (.string "7xé") = false := by
  have hadmits : ∀ kind, PatternLimit.admits (Pattern.source kind "^\\d.É\n$") = true := by
    intro kind
    cases kind <;> decide +kernel
  obtain ⟨hexact, hpart, hkind⟩ := pattern_literal _ hadmits
  obtain ⟨-, -, -, harray, -⟩ := hkind .exact
  have hself : (Predicate.pattern .exact "^\\d.É\n$").holds (.string "^\\D.é\n$") = true :=
    (hexact _).mpr (Text.alike_iff_map_fold.mpr (by decide +kernel))
  have hinner := (harray [.string "^\\D.é\n$"]).mpr ⟨_, List.mem_singleton_self _, hself⟩
  refine ⟨hadmits,
    (harray _).mpr ⟨_, List.mem_cons_of_mem _ (List.mem_singleton_self _), hinner⟩, ?_, ?_⟩
  · exact (hpart _).mpr ⟨"^\\d.é\n$", ⟨['a'], ['b'], by decide⟩,
      (hexact _).mpr (Text.alike_iff_map_fold.mpr (by decide +kernel))⟩
  · exact Bool.eq_false_iff.mpr fun h => absurd ((hexact _).mp h).length_eq (by decide)

end

end Predicate

end JoinPlan
