import Mathlib.Data.String.Basic
import JoinPlan.Filter.Token
import JoinPlan.Proofs.Binary64.Integers

/-!
# What predicates say of values

A predicate is asked of the elements of a value, where an array stands for the elements of its
items (`Predicate.holds_iff`). Of two values of one kind it says what the order of the kind says,
and so does the order of values. This file supplies what that means for texts and for integers.

> `Value.ComparesAs`: the four comparisons, equality and the order of values say of two values
> what the order of integers says of two integers.

Texts compare as integers that are in their order (`Value.comparesAs_string`). Numbers compare as
doubles, so integers compare as what is left of them in 53 significant bits
(`comparesAs_roundInteger`). That is their own order exactly when they are equal or rounding keeps
them apart.
-/

namespace JoinPlan

/-! ## Elements -/

/-- The elements of a value: those of the items of an array, at any depth, and otherwise the
value itself. -/
inductive Value.HasElement : Value → Value → Prop
  | self {v : Value} : (∀ items, v ≠ .array items) → HasElement v v
  | item {items : List Value} {item element : Value} :
      item ∈ items → HasElement item element → HasElement (.array items) element

namespace Value

variable {p : Value → Bool}

theorem hasElement_array_iff {items : List Value} {element : Value} :
    (Value.array items).HasElement element ↔ ∃ item ∈ items, item.HasElement element := by
  constructor
  · intro helement
    cases helement with
    | self h => exact absurd rfl (h items)
    | item hitem helement => exact ⟨_, hitem, helement⟩
  · rintro ⟨item, hitem, helement⟩
    exact .item hitem helement

mutual

/-- A property holds of an element, as it is asked of a value, when some element has it. -/
theorem someElement_iff : ∀ v : Value,
    v.someElement p = true ↔ ∃ element, v.HasElement element ∧ p element = true
  | .array items => by
    rw [someElement, someItem_iff items]
    constructor
    · rintro ⟨item, hitem, element, helement, hp⟩
      exact ⟨element, .item hitem helement, hp⟩
    · rintro ⟨element, helement, hp⟩
      obtain ⟨item, hitem, helement⟩ := hasElement_array_iff.mp helement
      exact ⟨item, hitem, element, helement, hp⟩
  | .null | .bool _ | .number _ | .string _ | .object _ => by
    refine ⟨fun hp => ⟨_, .self nofun, hp⟩, ?_⟩
    rintro ⟨element, helement, hp⟩
    cases helement
    exact hp

theorem someItem_iff : ∀ items : List Value, someItem p items = true ↔
    ∃ item ∈ items, ∃ element, item.HasElement element ∧ p element = true
  | [] => by simp [someItem]
  | item :: rest => by
    rw [someItem, Bool.or_eq_true, someElement_iff item, someItem_iff rest]
    simp only [List.mem_cons, exists_eq_or_imp]

end

end Value

namespace Predicate

/-- A predicate holds of a value when it holds of an element. -/
theorem holds_iff [PatternLimit] {p : Predicate} {v : Value} :
    p.holds v = true ↔ ∃ element, v.HasElement element ∧ p.holdsOf element = true :=
  Value.someElement_iff v

/-- A text is equal to an element that is this text. -/
theorem holds_equals_string_iff [PatternLimit] {text : String} {v : Value} :
    (Predicate.equals (.string text)).holds v = true ↔ v.HasElement (.string text) := by
  rw [holds_iff]
  constructor
  · rintro ⟨element, helement, hequal⟩
    cases element with
    | string found =>
      obtain rfl : found = text := beq_iff_eq.mp hequal
      exact helement
    | _ => cases hequal
  · intro helement
    exact ⟨_, helement, beq_self_eq_true text⟩

end Predicate

/-! ## Comparisons -/

namespace Value

/-- A value against a bound: what each comparison, equality and the order of values say is what
the order of two integers says. -/
structure ComparesAs [PatternLimit] (v bound : Value) (m n : Int) : Prop where
  less : (Predicate.compare .less bound).holds v = true ↔ m < n
  lessOrEqual : (Predicate.compare .lessOrEqual bound).holds v = true ↔ m ≤ n
  greater : (Predicate.compare .greater bound).holds v = true ↔ n < m
  greaterOrEqual : (Predicate.compare .greaterOrEqual bound).holds v = true ↔ n ≤ m
  equals : (Predicate.equals bound).holds v = true ↔ m = n
  order : compareFound (some v) (some bound) = compare m n

/-- What is no array is its only element. -/
theorem someElement_eq {p : Value → Bool} {v : Value} (h : ∀ items, v ≠ .array items) :
    v.someElement p = p v := by
  cases v with
  | array items => exact absurd rfl (h items)
  | _ => rfl

/-- Values of one kind compare in the order of the kind. -/
theorem compareFound_of_compareSame {a b : Value} {o : Ordering} (h : compareSame? a b = some o) :
    compareFound (some a) (some b) = o := by
  have hkind : a.kindRank = b.kindRank := by
    cases a <;> cases b <;> first | rfl | cases h
  show (compare a.kindRank b.kindRank).then ((compareSame? a b).getD .eq) = o
  rw [hkind, compare_eq_iff_eq.mpr rfl, h]
  rfl

/-- Values of one kind compare as two integers do when the order of the kind says so. -/
theorem comparesAs_iff [PatternLimit] {a b : Value} {o : Ordering} {m n : Int}
    (ha : ∀ items, a ≠ .array items)
    (hsame : compareSame? a b = some o) (hequal : a.equalTo b = true ↔ o = .eq) :
    a.ComparesAs b m n ↔ o = compare m n := by
  rw [← compareFound_of_compareSame hsame]
  refine ⟨fun h => h.order, fun h => ?_⟩
  have ho : o = compare m n := (compareFound_of_compareSame hsame).symm.trans h
  have hholds : ∀ comparison : Comparison,
      (Predicate.compare comparison b).holds a = comparison.accepts (compare m n) := by
    intro comparison
    rw [Predicate.holds, someElement_eq ha, Predicate.holdsOf, hsame, ho]
    rfl
  refine ⟨?_, ?_, ?_, ?_, ?_, h⟩
  · rw [hholds, Comparison.accepts, beq_iff_eq, compare_lt_iff_lt]
  · rw [hholds, Comparison.accepts, bne_iff_ne, compare_le_iff_le]
  · rw [hholds, Comparison.accepts, beq_iff_eq, compare_gt_iff_gt]
  · rw [hholds, Comparison.accepts, bne_iff_ne, compare_ge_iff_ge]
  · rw [Predicate.holds, someElement_eq ha, Predicate.holdsOf, hequal, ho, compare_eq_iff_eq]

end Value

/-! ## Texts -/

namespace Value

theorem compareFound_string {a b : String} :
    compareFound (some (.string a)) (some (.string b)) = compare a b :=
  compareFound_of_compareSame rfl

/-- A text is at most a bound, for filters and for sorting, when it is in the order of texts. -/
theorem string_le_iff [PatternLimit] {a b : String} :
    ((Predicate.compare .lessOrEqual (.string b)).holds (.string a) = true ↔ a ≤ b) ∧
      (compareFound (some (.string a)) (some (.string b)) ≠ .gt ↔ a ≤ b) := by
  have hle : compare a b ≠ .gt ↔ a ≤ b := compare_le_iff_le
  refine ⟨?_, compareFound_string ▸ hle⟩
  show (compare a b != .gt) = true ↔ a ≤ b
  rw [bne_iff_ne, hle]

/-- Texts compare as two integers do when they are in the order of the integers. -/
theorem comparesAs_string [PatternLimit] {a b : String} {m n : Int} (hlt : a < b ↔ m < n)
    (hgt : b < a ↔ n < m) : (Value.string a).ComparesAs (.string b) m n := by
  have hequal : (Value.string a).equalTo (.string b) = true ↔ compare a b = .eq :=
    beq_iff_eq.trans compare_eq_iff_eq.symm
  refine (comparesAs_iff (fun _ => Value.noConfusion) rfl hequal).mpr ?_
  rcases lt_trichotomy m n with hmn | rfl | hmn
  · rw [compare_lt_iff_lt.mpr hmn]
    exact compare_lt_iff_lt.mpr (hlt.mpr hmn)
  · have hsame : a = b := by
      refine le_antisymm (not_lt.mp fun h => ?_) (not_lt.mp fun h => ?_)
      · exact lt_irrefl m (hgt.mp h)
      · exact lt_irrefl m (hlt.mp h)
    rw [compare_eq_iff_eq.mpr rfl]
    exact compare_eq_iff_eq.mpr hsame
  · rw [compare_gt_iff_gt.mpr hmn]
    exact compare_gt_iff_gt.mpr (hgt.mpr hmn)

end Value

/-! ## Integers -/

/-- An integer cut to 53 significant bits, as a natural number is. -/
def roundInteger (n : Int) : Int :=
  if n < 0 then -(Binary64.roundNatural n.natAbs : Int) else Binary64.roundNatural n.natAbs

theorem roundInteger_mono {a b : Int} (hab : a ≤ b) : roundInteger a ≤ roundInteger b := by
  have habs : ∀ {m n : Nat}, m ≤ n → Binary64.roundNatural m ≤ Binary64.roundNatural n :=
    fun h => Binary64.roundNatural_mono h
  unfold roundInteger
  split <;> split
  · have h := habs (show b.natAbs ≤ a.natAbs by omega)
    omega
  · omega
  · omega
  · have h := habs (show a.natAbs ≤ b.natAbs by omega)
    omega

theorem roundInteger_of_natAbs_le {n : Int} (h : n.natAbs ≤ 2 ^ 53) : roundInteger n = n := by
  unfold roundInteger
  rw [Binary64.roundNatural_of_le h]
  omega

/-- Numbers made of integers rank as the rounded integers do. -/
theorem Number.rank_le_rank_iff {a b : Int} :
    (Number.int a).rank ≤ (Number.int b).rank ↔ roundInteger a ≤ roundInteger b := by
  have hnear : ∀ m n : Nat, Binary64.nearest m 1 ≤ Binary64.nearest n 1 ↔
      Binary64.roundNatural m ≤ Binary64.roundNatural n := fun _ _ =>
    Binary64.nearest_le_nearest_iff
  -- Against zero, whose bits are zero, the two sides tell whether a number is zero.
  have hzero : ∀ m, Binary64.nearest m 1 ≤ 0 ↔ Binary64.roundNatural m ≤ 0 := by
    intro m
    have hm := hnear m 0
    rwa [Binary64.nearest_zero, show Binary64.roundNatural 0 = 0 from rfl] at hm
  have hab := hnear a.natAbs b.natAbs
  have hba := hnear b.natAbs a.natAbs
  have ha := hzero a.natAbs
  have hb := hzero b.natAbs
  unfold Number.rank roundInteger
  dsimp only
  split <;> split <;> omega

theorem compare_rank_eq (a b : Int) :
    compare (Number.int a).rank (Number.int b).rank =
      compare (roundInteger a) (roundInteger b) := by
  rcases lt_trichotomy (roundInteger a) (roundInteger b) with hlt | heq | hgt
  · rw [compare_lt_iff_lt.mpr hlt, compare_lt_iff_lt]
    exact not_le.mp (mt Number.rank_le_rank_iff.mp (not_le.mpr hlt))
  · rw [compare_eq_iff_eq.mpr heq, compare_eq_iff_eq]
    exact le_antisymm (Number.rank_le_rank_iff.mpr heq.le) (Number.rank_le_rank_iff.mpr heq.ge)
  · rw [compare_gt_iff_gt.mpr hgt, compare_gt_iff_gt]
    exact not_le.mp (mt Number.rank_le_rank_iff.mp (not_le.mpr hgt))

/-- Integers compare as two others do when their ranks do. -/
theorem Value.comparesAs_ofInt_iff [PatternLimit] {a b m n : Int} :
    (ofInt a).ComparesAs (ofInt b) m n ↔
      compare (roundInteger a) (roundInteger b) = compare m n := by
  rw [← compare_rank_eq]
  exact comparesAs_iff nofun rfl (beq_iff_eq.trans compare_eq_iff_eq.symm)

/-- How integers compare. As document values and as bounds of predicates, they compare as the
integers that are left in 53 significant bits. That is their own order exactly when they are
equal or differ in those bits, as any two up to `2 ^ 53` do. -/
theorem comparesAs_roundInteger [PatternLimit] (a b : Int) :
    (Value.ofInt a).ComparesAs (.ofInt b) (roundInteger a) (roundInteger b) ∧
      ((Value.ofInt a).ComparesAs (.ofInt b) a b ↔ a = b ∨ roundInteger a ≠ roundInteger b) ∧
      (a.natAbs ≤ 2 ^ 53 ∧ b.natAbs ≤ 2 ^ 53 → (Value.ofInt a).ComparesAs (.ofInt b) a b) := by
  refine ⟨Value.comparesAs_ofInt_iff.mpr rfl, ?_, ?_⟩
  · rw [Value.comparesAs_ofInt_iff]
    constructor
    · intro horder
      by_contra hnot
      obtain ⟨hne, heq⟩ := not_or.mp hnot
      rw [not_not.mp heq, compare_eq_iff_eq.mpr rfl] at horder
      exact hne (compare_eq_iff_eq.mp horder.symm)
    · rintro (rfl | hne)
      · rw [compare_eq_iff_eq.mpr rfl, compare_eq_iff_eq.mpr rfl]
      · rcases lt_trichotomy a b with hlt | rfl | hgt
        · rw [compare_lt_iff_lt.mpr hlt, compare_lt_iff_lt]
          exact lt_of_le_of_ne (roundInteger_mono hlt.le) hne
        · exact absurd rfl hne
        · rw [compare_gt_iff_gt.mpr hgt, compare_gt_iff_gt]
          exact lt_of_le_of_ne (roundInteger_mono hgt.le) hne.symm
  · rintro ⟨ha, hb⟩
    rw [Value.comparesAs_ofInt_iff, roundInteger_of_natAbs_le ha, roundInteger_of_natAbs_le hb]

section

attribute [local instance] PatternLimit.unbounded

/-- The first integer that a double cannot hold is read from a token, and does not compare with
its predecessor as the integers do. -/
theorem not_comparesAs_pred :
    ScalarType.int.cast? "9007199254740993" = some (.ofInt 9007199254740993) ∧
      ¬(Value.ofInt 9007199254740992).ComparesAs (.ofInt 9007199254740993)
        9007199254740992 9007199254740993 := by
  have hread : Text.integer? "9007199254740993".toList = some 9007199254740993 := by
    decide +kernel
  refine ⟨?_, fun h => ?_⟩
  · rw [ScalarType.cast?, hread, Option.bind_some, if_pos (by decide)]
  · have hequal : roundInteger 9007199254740992 = roundInteger 9007199254740993 := by
      decide +kernel
    rw [Value.comparesAs_ofInt_iff, hequal, compare_eq_iff_eq.mpr rfl] at h
    exact absurd (compare_eq_iff_eq.mp h.symm) (by decide)

end

end JoinPlan
