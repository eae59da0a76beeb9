import JoinPlan.Proofs.Filter.Trichotomy
import JoinPlan.Proofs.Store.OuterJoin

/-!
# A join against the filters for its values

A join looks for its local values in another collection, and so does a filter that asks for one
of them at the foreign field. The join compares as documents, the filter by value and inside
arrays. This file supplies what that leaves of their agreement.

> `Value.Overlooked`: a filter for a scalar finds it, as an element of an array or as a number
> that is written otherwise, where a join does not.

Of one found value and one wanted scalar, the filter says what the join says, or the join
overlooks the value (`holds_equals_iff`). So every document that a join attaches is selected by a
filter, and the two select alike exactly when nothing is overlooked that is not found elsewhere.
-/

namespace JoinPlan

/-! ## Numbers -/

namespace Number

/-- Numbers that are the same document are equal by value. -/
theorem rank_eq_of_same {a b : Number} (h : a.same b = true) : a.rank = b.rank := by
  cases a with
  | int m =>
    cases b with
    | int n => rw [show m = n from beq_iff_eq.mp h]
    | float y => cases h
  | float x =>
    cases b with
    | int n => cases h
    | float y => exact beq_iff_eq.mp h

/-- Integers that a double holds exactly are equal by value only where they are equal. -/
theorem rank_int_eq_iff {m n : Int} (hm : m.natAbs ≤ 2 ^ 53) (hn : n.natAbs ≤ 2 ^ 53) :
    (Number.int m).rank = (Number.int n).rank ↔ m = n := by
  rw [← compare_eq_iff_eq, compare_rank_eq, compare_eq_iff_eq, roundInteger_of_natAbs_le hm,
    roundInteger_of_natAbs_le hn]

end Number

/-! ## One value -/

namespace Value

variable {found wanted : Value}

/-- A filter for a value finds it, but a join does not: it is an element of an array, or a number
that is equal by value and another document. -/
inductive Overlooked : Value → Value → Prop
  | element {items : List Value} {element wanted : Value} :
      (Value.array items).HasElement element → element.equalTo wanted = true →
      Overlooked (.array items) wanted
  | number {a b : Number} : a.rank = b.rank → a.same b = false →
      Overlooked (.number a) (.number b)

/-- Equality in filters is that of documents, but for numbers that are equal by value. -/
theorem equalTo_iff_beq_or : found.equalTo wanted = true ↔ (found == wanted) = true ∨
    ∃ a b : Number,
      found = .number a ∧ wanted = .number b ∧ a.rank = b.rank ∧ a.same b = false := by
  by_cases hnumbers : ∃ a b : Number, found = .number a ∧ wanted = .number b
  · obtain ⟨a, b, rfl, rfl⟩ := hnumbers
    show (a.rank == b.rank) = true ↔ a.same b = true ∨ _
    rw [beq_iff_eq]
    constructor
    · intro hrank
      cases hsame : a.same b with
      | true => exact .inl rfl
      | false => exact .inr ⟨a, b, rfl, rfl, hrank, hsame⟩
    · rintro (hsame | ⟨_, _, ⟨⟩, ⟨⟩, hrank, -⟩)
      · exact Number.rank_eq_of_same hsame
      · exact hrank
  · have hequal : found.equalTo wanted = (found == wanted) := by
      cases found with
      | number a =>
        cases wanted with
        | number b => exact absurd ⟨a, b, rfl, rfl⟩ hnumbers
        | _ => rfl
      | _ => rfl
    rw [hequal]
    refine ⟨.inl, ?_⟩
    rintro (hsame | ⟨a, b, hfound, hwanted, -⟩)
    · exact hsame
    · exact absurd ⟨a, b, hfound, hwanted⟩ hnumbers

/-- A filter for a scalar finds it where a join does, and where a join overlooks it. -/
theorem holds_equals_iff [PatternLimit] (h : wanted.IsOrdered) :
    (Predicate.equals wanted).holds found = true ↔
      (found == wanted) = true ∨ found.Overlooked wanted := by
  by_cases harray : ∃ items, found = .array items
  · obtain ⟨items, rfl⟩ := harray
    have hdifferent : ¬(Value.array items == wanted) = true := by
      cases wanted with
      | bool _ | number _ | string _ => exact Bool.false_ne_true
      | _ => exact h.elim
    rw [Predicate.holds_iff]
    constructor
    · rintro ⟨element, helement, hequal⟩
      exact .inr (.element helement hequal)
    · rintro (hsame | hoverlooked)
      · exact absurd hsame hdifferent
      · cases hoverlooked with
        | element helement hequal => exact ⟨_, helement, hequal⟩
  · have hsingle : ∀ items, found ≠ .array items := not_exists.mp harray
    rw [Predicate.holds, someElement_eq hsingle, Predicate.holdsOf, equalTo_iff_beq_or]
    refine or_congr_right ?_
    constructor
    · rintro ⟨a, b, rfl, rfl, hrank, hsame⟩
      exact .number hrank hsame
    · intro hoverlooked
      cases hoverlooked with
      | element => exact absurd rfl (hsingle _)
      | number hrank hsame => exact ⟨_, _, rfl, rfl, hrank, hsame⟩

/-- A value that is written in one way only: no array, and if it is a number, then an integer
that a double holds exactly. -/
structure IsPlain (v : Value) : Prop where
  single : ∀ items, v ≠ .array items
  integer : ∀ number, v = .number number → ∃ n : Int, number = .int n ∧ n.natAbs ≤ 2 ^ 53

theorem IsPlain.not_overlooked (hfound : found.IsPlain) (hwanted : wanted.IsPlain) :
    ¬found.Overlooked wanted := by
  intro h
  cases h with
  | element => exact hfound.single _ rfl
  | number hrank hsame =>
    obtain ⟨m, rfl, hm⟩ := hfound.integer _ rfl
    obtain ⟨n, rfl, hn⟩ := hwanted.integer _ rfl
    exact beq_eq_false_iff_ne.mp hsame ((Number.rank_int_eq_iff hm hn).mp hrank)

end Value

/-! ## Documents -/

/-- Filters keep the same elements of a list when they agree on all of them. -/
theorem filter_eq_filter_iff {α : Type} {p q : α → Bool} {xs : List α} :
    xs.filter p = xs.filter q ↔ ∀ x ∈ xs, p x = q x := by
  constructor
  · intro h x hx
    have hmem : x ∈ xs.filter p ↔ x ∈ xs.filter q := by rw [h]
    rw [List.mem_filter, List.mem_filter, and_iff_right hx, and_iff_right hx] at hmem
    exact Bool.eq_iff_iff.mpr hmem
  · exact List.filter_congr

namespace Join

variable {join : Join} {document partner : Value}

/-- The filter for some local value of a document holds of another document. -/
def selects [PatternLimit] (join : Join) (document partner : Value) : Bool :=
  (join.localValues document).any fun wanted =>
    (Condition.field join.foreignField (.equals wanted)).holds partner

/-- The other document has a local value of this one that the join does not take for it. -/
def Overlooks (join : Join) (document partner : Value) : Prop :=
  ∃ found ∈ partner.lookup join.foreignField, ∃ wanted ∈ join.localValues document,
    found.Overlooked wanted

/-- What the filters for scalars select is what the join matches, and what it overlooks. -/
theorem selects_iff [PatternLimit] (h : ∀ wanted ∈ join.localValues document, wanted.IsOrdered) :
    join.selects document partner = true ↔
      join.Matches document partner ∨ join.Overlooks document partner := by
  rw [← accepts_localValues_iff]
  unfold selects accepts Overlooks
  simp only [Condition.holds, List.any_eq_true, List.contains_iff_exists_mem_beq]
  constructor
  · rintro ⟨wanted, hwanted, found, hfound, hholds⟩
    rcases (Value.holds_equals_iff (h wanted hwanted)).mp hholds with hsame | hoverlooked
    · exact .inl ⟨found, hfound, wanted, hwanted, hsame⟩
    · exact .inr ⟨found, hfound, wanted, hwanted, hoverlooked⟩
  · rintro (⟨found, hfound, wanted, hwanted, hsame⟩ | ⟨found, hfound, wanted, hwanted, hoverlooked⟩)
    · exact ⟨wanted, hwanted, found, hfound,
        (Value.holds_equals_iff (h wanted hwanted)).mpr (.inl hsame)⟩
    · exact ⟨wanted, hwanted, found, hfound,
        (Value.holds_equals_iff (h wanted hwanted)).mpr (.inr hoverlooked)⟩

/-- What a join attaches to a document, against what the filters for its local values select. -/
structure ComparesWithFilters [PatternLimit] (join : Join) (others : List Value)
    (document : Value) : Prop where
  /-- The documents that match stand under the alias, in their order. -/
  attached : (join.attach others document).get? join.asName =
    some (.array (others.filter fun partner => join.Matches document partner))
  /-- The filters select these, and those with a value that the join overlooks. -/
  selects : ∀ partner, join.selects document partner = true ↔
    join.Matches document partner ∨ join.Overlooks document partner
  sublist : (others.filter fun partner => join.Matches document partner).Sublist
    (others.filter (join.selects document))
  /-- They select alike when every document with such a value matches by another one, -/
  same : (others.filter fun partner => join.Matches document partner) =
      others.filter (join.selects document) ↔
    ∀ partner ∈ others, join.Overlooks document partner → join.Matches document partner
  /-- as they do where all values are written in one way only. -/
  plain : (∀ wanted ∈ join.localValues document, wanted.IsPlain) →
    (∀ partner ∈ others, ∀ found ∈ partner.lookup join.foreignField, found.IsPlain) →
    (others.filter fun partner => join.Matches document partner) =
      others.filter (join.selects document)
  /-- For a single reference, that is the collection filtered by the identifier. -/
  reference : ∀ collection wanted, join.localValues document = [wanted] →
    runStages collection others [.filter (.field join.foreignField (.equals wanted))] =
      others.filter (join.selects document)

/-- A join attaches documents that the filters for its local values select. It attaches all of
them exactly when it matches the ones that have a value it overlooks, and so where all values are
written in one way only. -/
theorem comparesWithFilters [PatternLimit] (join : Join) (others : List Value) (document : Value)
    (hobject : document.isObject) (h : ∀ wanted ∈ join.localValues document, wanted.IsOrdered) :
    join.ComparesWithFilters others document := by
  have hselects : ∀ partner, join.selects document partner = true ↔
      join.Matches document partner ∨ join.Overlooks document partner := fun _ => selects_iff h
  have hsame : (others.filter fun partner => join.Matches document partner) =
      others.filter (join.selects document) ↔
      ∀ partner ∈ others, join.Overlooks document partner → join.Matches document partner := by
    rw [filter_eq_filter_iff]
    refine forall₂_congr fun partner _ => ?_
    rw [Bool.eq_iff_iff, decide_eq_true_iff, hselects]
    tauto
  refine ⟨?_, hselects, ?_, hsame, ?_, ?_⟩
  · rw [← partners_eq_filter]
    cases document with
    | object members => exact Members.get?_insert_self _ _ _
    | _ => cases hobject
  · refine List.monotone_filter_right others fun partner hmatch => ?_
    exact (hselects partner).mpr (.inl (of_decide_eq_true hmatch))
  · intro hlocal hforeign
    refine hsame.mpr fun partner hpartner hoverlooks => ?_
    obtain ⟨found, hfound, wanted, hwanted, hoverlooked⟩ := hoverlooks
    exact absurd hoverlooked
      ((hforeign partner hpartner found hfound).not_overlooked (hlocal wanted hwanted))
  · intro collection wanted hlocal
    show others.filter _ = _
    refine List.filter_congr fun partner _ => ?_
    rw [selects, hlocal, List.any_cons, List.any_nil, Bool.or_false]

/-- Orders with their owners, by number. -/
def numberJoin : Join := ⟨"person", "owner", "id", "__owner"⟩

/-- An order of two owners. -/
def numberedOrder : Value := .object [("owner", .array [.ofInt 1, .ofInt 2])]

/-- Persons, two of whom are the owners. -/
def numberedPersons : List Value :=
  [.object [("id", .ofInt 2)], .object [("id", .ofInt 3)], .object [("id", .ofInt 1)]]

section

attribute [local instance] PatternLimit.unbounded

/-- The owners are attached, and the filters for their numbers select them. -/
theorem comparesWithFilters_numberedOrder :
    numberedOrder.isObject ∧
      (∀ wanted ∈ numberJoin.localValues numberedOrder, wanted.IsOrdered) ∧
      (numberJoin.attach numberedPersons numberedOrder).get? "__owner" =
        some (.array (numberedPersons.filter (numberJoin.selects numberedOrder))) ∧
      (numberedPersons.filter (numberJoin.selects numberedOrder)).length = 2 := by
  have hlocal : numberJoin.localValues numberedOrder = [.ofInt 1, .ofInt 2] := by rfl
  have hordered : ∀ wanted ∈ numberJoin.localValues numberedOrder, wanted.IsOrdered := by
    simp [hlocal, Value.ofInt, Value.IsOrdered]
  have hplain : ∀ n : Int, n.natAbs ≤ 2 ^ 53 → (Value.ofInt n).IsPlain := by
    intro n hn
    refine ⟨nofun, ?_⟩
    rintro number ⟨⟩
    exact ⟨n, rfl, hn⟩
  have hforeign : ∀ partner ∈ numberedPersons,
      ∀ found ∈ partner.lookup numberJoin.foreignField, found.IsPlain := by
    intro partner hpartner found hfound
    have hmem : found ∈ numberedPersons.flatMap (·.lookup numberJoin.foreignField) :=
      List.mem_flatMap.mpr ⟨partner, hpartner, hfound⟩
    rw [show numberedPersons.flatMap (·.lookup numberJoin.foreignField) =
      [.ofInt 2, .ofInt 3, .ofInt 1] from rfl] at hmem
    simp only [List.mem_cons, List.not_mem_nil, or_false] at hmem
    rcases hmem with rfl | rfl | rfl <;> exact hplain _ (by decide)
  have hcompares := comparesWithFilters numberJoin numberedPersons numberedOrder rfl hordered
  refine ⟨rfl, hordered, ?_, by decide +kernel⟩
  rw [← hcompares.plain ?_ hforeign]
  · exact hcompares.attached
  intro wanted hwanted
  rw [hlocal] at hwanted
  simp only [List.mem_cons, List.not_mem_nil, or_false] at hwanted
  rcases hwanted with rfl | rfl <;> exact hplain _ (by decide)

end

/-- A person whose number is written as a double. -/
def doublePerson : Value :=
  .object [("id", .number (.float ⟨false, 0x3FF0000000000000, by decide⟩))]

/-- A person with a list of numbers. -/
def listedPerson : Value := .object [("id", .array [.ofInt 1])]

section

attribute [local instance] PatternLimit.unbounded

/-- The filters select the first owner with a double for its number, or with a list of it; the
join attaches neither. -/
theorem selects_not_matches_numberedOrder :
    numberedOrder.isObject ∧
      (∀ wanted ∈ numberJoin.localValues numberedOrder, wanted.IsOrdered) ∧
      ∀ partner ∈ [doublePerson, listedPerson], numberJoin.selects numberedOrder partner = true ∧
        ¬numberJoin.Matches numberedOrder partner := by
  have hlocal : numberJoin.localValues numberedOrder = [.ofInt 1, .ofInt 2] := by rfl
  refine ⟨rfl, ?_, by decide +kernel⟩
  simp [hlocal, Value.ofInt, Value.IsOrdered]

end

end Join

end JoinPlan
