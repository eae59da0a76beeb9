import Mathlib.Order.Monotone.Basic
import Mathlib.Tactic.Ring
import JoinPlan.Binary64.Round

/-!
# Integers as doubles

An integer that becomes a double keeps 53 significant bits. This file supplies what is left of
it and how that compares.

> `roundNatural`: the number cut to 53 significant bits, to the nearest, a half to the even
> neighbour.

The double nearest to a number has just this value (`unitsOf_nearest`), and magnitude bits
order as the values they stand for (`strictMono_unitsOf`). So doubles made of numbers compare as
the rounded numbers do (`nearest_le_nearest_iff`). Rounding is monotone (`roundNatural_mono`),
and leaves alone every number up to `2 ^ 53` (`roundNatural_of_le`).
-/

namespace JoinPlan.Binary64

/-! ## Rounding a ratio -/

section Ratio

variable {num den : Nat}

/-- Rounding is to one of the two neighbours. -/
theorem roundHalfEven_bounds (num den : Nat) :
    num / den ≤ roundHalfEven num den ∧ roundHalfEven num den ≤ num / den + 1 := by
  unfold roundHalfEven
  dsimp only
  split
  · omega
  · omega

/-- A whole ratio stays. -/
theorem roundHalfEven_mul_self (hden : 0 < den) (n : Nat) : roundHalfEven (n * den) den = n := by
  unfold roundHalfEven
  rw [Nat.mul_div_cancel n hden, Nat.mul_mod_left]
  have hden' : ¬den = 0 := by omega
  simp [Ne.symm hden']

theorem roundHalfEven_mono {num' : Nat} (h : num ≤ num') :
    roundHalfEven num den ≤ roundHalfEven num' den := by
  have hbounds := roundHalfEven_bounds num den
  have hbounds' := roundHalfEven_bounds num' den
  have hquotient : num / den ≤ num' / den := Nat.div_le_div_right h
  rcases Nat.lt_or_ge (num / den) (num' / den) with hlt | hge
  · omega
  · -- Between the same neighbours, the larger remainder is rounded up first.
    have heq : num / den = num' / den := Nat.le_antisymm hquotient hge
    have hremainder : num % den ≤ num' % den := by
      have hnum := Nat.div_add_mod num den
      have hnum' := Nat.div_add_mod num' den
      rw [heq] at hnum
      omega
    unfold roundHalfEven
    rw [heq]
    dsimp only
    split
    · next hup =>
      simp only [Bool.or_eq_true, decide_eq_true_eq, Bool.and_eq_true, beq_iff_eq] at hup
      rw [if_pos]
      simp only [Bool.or_eq_true, decide_eq_true_eq, Bool.and_eq_true, beq_iff_eq]
      omega
    · split
      · omega
      · omega

/-- A number between two multiples of the denominator is rounded between them. -/
theorem le_roundHalfEven (hden : 0 < den) {n : Nat} (h : n * den ≤ num) :
    n ≤ roundHalfEven num den := by
  have hmono : roundHalfEven (n * den) den ≤ roundHalfEven num den := roundHalfEven_mono h
  rwa [roundHalfEven_mul_self hden] at hmono

theorem roundHalfEven_le (hden : 0 < den) {n : Nat} (h : num ≤ n * den) :
    roundHalfEven num den ≤ n := by
  have hmono : roundHalfEven num den ≤ roundHalfEven (n * den) den := roundHalfEven_mono h
  rwa [roundHalfEven_mul_self hden] at hmono

/-- A ratio in lower terms is rounded alike. -/
theorem roundHalfEven_mul_mul (num den : Nat) {k : Nat} (hk : 0 < k) :
    roundHalfEven (num * k) (den * k) = roundHalfEven num den := by
  unfold roundHalfEven
  rw [Nat.mul_div_mul_right num den hk, Nat.mul_mod_mul_right, ← Nat.mul_assoc]
  have hlt : den * k < 2 * (num % den) * k ↔ den < 2 * (num % den) := Nat.mul_lt_mul_right hk
  have heq : 2 * (num % den) * k = den * k ↔ 2 * (num % den) = den := Nat.mul_left_inj hk.ne'
  dsimp only
  rw [show decide (den * k < 2 * (num % den) * k) = decide (den < 2 * (num % den)) from
      decide_eq_decide.mpr hlt,
    show (2 * (num % den) * k == den * k) = (2 * (num % den) == den) by
      rw [Bool.eq_iff_iff, beq_iff_eq, beq_iff_eq]
      exact heq]

end Ratio

/-! ## Values of magnitude bits -/

/-- The value of bits by their exponent and fraction. -/
theorem unitsOf_mul_add {exponent fraction : Nat} (h : fraction < exponentStep) :
    unitsOf (exponent * exponentStep + fraction) =
      if exponent = 0 then fraction else (exponentStep + fraction) * 2 ^ (exponent - 1) := by
  have hstep : 0 < exponentStep := by decide
  unfold unitsOf
  rw [Nat.mul_comm exponent, Nat.mul_add_div hstep, Nat.div_eq_of_lt h, Nat.mul_add_mod,
    Nat.mod_eq_of_lt h]
  rfl

/-- Bits that count a mantissa in steps of a size have its value, carry or not. -/
theorem unitsOf_steps {steps mantissa : Nat} (hlow : exponentStep ≤ mantissa)
    (hhigh : mantissa ≤ 2 * exponentStep) :
    unitsOf (steps * exponentStep + mantissa) = mantissa * 2 ^ steps := by
  rcases Nat.lt_or_ge mantissa (2 * exponentStep) with hlt | hge
  · obtain ⟨fraction, rfl⟩ := Nat.exists_eq_add_of_le hlow
    have hfraction : fraction < exponentStep := by omega
    have hsplit : steps * exponentStep + (exponentStep + fraction) =
        (steps + 1) * exponentStep + fraction := by ring
    rw [hsplit, unitsOf_mul_add hfraction, if_neg (Nat.succ_ne_zero steps), Nat.add_sub_cancel]
  · -- A carry out of the fraction is the next exponent.
    obtain rfl : mantissa = 2 * exponentStep := Nat.le_antisymm hhigh hge
    have hsplit : steps * exponentStep + 2 * exponentStep = (steps + 2) * exponentStep + 0 := by
      ring
    rw [hsplit, unitsOf_mul_add (by decide), if_neg (by omega), Nat.add_zero,
      show steps + 2 - 1 = steps + 1 by omega]
    ring

/-- What the bits of one exponent stand for. -/
theorem unitsOf_bounds {exponent fraction : Nat} (h : fraction < exponentStep) :
    unitsOf (exponent * exponentStep + fraction) < exponentStep * 2 ^ exponent ∧
      (exponent ≠ 0 → exponentStep * 2 ^ (exponent - 1) ≤
        unitsOf (exponent * exponentStep + fraction)) := by
  rw [unitsOf_mul_add h]
  cases exponent with
  | zero => simpa using h
  | succ exponent =>
    rw [if_neg (Nat.succ_ne_zero exponent), Nat.add_sub_cancel]
    refine ⟨?_, fun _ => Nat.mul_le_mul_right _ (Nat.le_add_right _ _)⟩
    calc (exponentStep + fraction) * 2 ^ exponent
        < 2 * exponentStep * 2 ^ exponent :=
          Nat.mul_lt_mul_of_pos_right (by omega) (Nat.two_pow_pos exponent)
      _ = exponentStep * 2 ^ (exponent + 1) := by ring

/-- The larger bits stand for the larger number. -/
theorem strictMono_unitsOf : StrictMono unitsOf := by
  have hstep : 0 < exponentStep := by decide
  have hparts : ∀ bits, ∃ exponent fraction, fraction < exponentStep ∧
      bits = exponent * exponentStep + fraction := fun bits =>
    ⟨bits / exponentStep, bits % exponentStep, Nat.mod_lt bits hstep,
      (Nat.div_add_mod' bits exponentStep).symm⟩
  intro a b hab
  obtain ⟨exponent, fraction, hfraction, rfl⟩ := hparts a
  obtain ⟨exponent', fraction', hfraction', rfl⟩ := hparts b
  rcases Nat.lt_trichotomy exponent exponent' with hlt | rfl | hgt
  · -- The values of one exponent stay below those of the next.
    calc unitsOf (exponent * exponentStep + fraction)
        < exponentStep * 2 ^ exponent := (unitsOf_bounds hfraction).1
      _ ≤ exponentStep * 2 ^ (exponent' - 1) :=
        Nat.mul_le_mul_left _ (Nat.pow_le_pow_right (by decide) (by omega))
      _ ≤ unitsOf (exponent' * exponentStep + fraction') :=
        (unitsOf_bounds hfraction').2 (by omega)
  · have hfractions : fraction < fraction' := by omega
    rw [unitsOf_mul_add hfraction, unitsOf_mul_add hfraction']
    split
    · exact hfractions
    · exact Nat.mul_lt_mul_of_pos_right (by omega) (Nat.two_pow_pos _)
  · have hle : (exponent' + 1) * exponentStep ≤ exponent * exponentStep :=
      Nat.mul_le_mul_right _ hgt
    rw [Nat.add_mul] at hle
    omega

/-! ## Natural numbers -/

/-- A number cut to 53 significant bits, to the nearest; a half goes to the even neighbour. -/
def roundNatural (n : Nat) : Nat :=
  let steps := n.log2 - 52
  roundHalfEven n (2 ^ steps) * 2 ^ steps

theorem roundNatural_of_log2_le {n : Nat} (h : n.log2 ≤ 52) : roundNatural n = n := by
  have hone := roundHalfEven_mul_self Nat.one_pos n
  rw [Nat.mul_one] at hone
  unfold roundNatural
  dsimp only
  rw [Nat.sub_eq_zero_of_le h, Nat.pow_zero, hone, Nat.mul_one]

/-- Rounding to steps of `2 ^ steps` stays within the powers of two around a number. -/
theorem roundHalfEven_log2_bounds {n steps : Nat} (hn : n ≠ 0) (hsteps : n.log2 = steps + 52) :
    2 ^ 52 ≤ roundHalfEven n (2 ^ steps) ∧ roundHalfEven n (2 ^ steps) ≤ 2 ^ 53 := by
  have hpos : 0 < 2 ^ steps := Nat.two_pow_pos steps
  refine ⟨le_roundHalfEven hpos ?_, roundHalfEven_le hpos ?_⟩
  · rw [← Nat.pow_add, Nat.add_comm, ← hsteps]
    exact Nat.log2_self_le hn
  · rw [← Nat.pow_add, show 53 + steps = n.log2 + 1 by omega]
    exact Nat.le_of_lt Nat.lt_log2_self

theorem roundNatural_bounds {n : Nat} (hn : n ≠ 0) :
    2 ^ n.log2 ≤ roundNatural n ∧ roundNatural n ≤ 2 ^ (n.log2 + 1) := by
  rcases Nat.lt_or_ge 52 n.log2 with hlt | hge
  · obtain ⟨steps, hsteps⟩ : ∃ steps, n.log2 = steps + 52 := ⟨n.log2 - 52, by omega⟩
    obtain ⟨hlow, hhigh⟩ := roundHalfEven_log2_bounds hn hsteps
    unfold roundNatural
    rw [hsteps, Nat.add_sub_cancel]
    dsimp only
    rw [show steps + 52 + 1 = 53 + steps by omega, show steps + 52 = 52 + steps by omega,
      Nat.pow_add, Nat.pow_add]
    exact ⟨Nat.mul_le_mul_right _ hlow, Nat.mul_le_mul_right _ hhigh⟩
  · rw [roundNatural_of_log2_le hge]
    exact ⟨Nat.log2_self_le hn, Nat.le_of_lt Nat.lt_log2_self⟩

theorem roundNatural_mono : Monotone roundNatural := by
  intro a b hab
  by_cases ha : a = 0
  · subst ha
    exact Nat.zero_le _
  · have hb : b ≠ 0 := by omega
    have hlog : a.log2 ≤ b.log2 := (Nat.le_log2 hb).mpr (Nat.le_trans (Nat.log2_self_le ha) hab)
    rcases Nat.lt_or_ge a.log2 b.log2 with hlt | hge
    · -- A power of two stands between the two numbers, and rounding does not cross it.
      calc roundNatural a ≤ 2 ^ (a.log2 + 1) := (roundNatural_bounds ha).2
        _ ≤ 2 ^ b.log2 := Nat.pow_le_pow_right (by decide) hlt
        _ ≤ roundNatural b := (roundNatural_bounds hb).1
    · have heq : a.log2 = b.log2 := Nat.le_antisymm hlog hge
      unfold roundNatural
      rw [heq]
      exact Nat.mul_le_mul_right _ (roundHalfEven_mono hab)

theorem roundNatural_of_le {n : Nat} (h : n ≤ 2 ^ 53) : roundNatural n = n := by
  rcases Nat.lt_or_eq_of_le h with hlt | rfl
  · by_cases hn : n = 0
    · subst hn
      rfl
    · have hlog := (Nat.log2_lt hn).mpr hlt
      exact roundNatural_of_log2_le (by omega)
  · decide

/-! ## The nearest double -/

/-- The value of the double nearest to a number, for any unit below it. -/
theorem unitsOf_nearestUnits {n unit : Nat} (hn : n ≠ 0) (hunit : 52 ≤ unit) :
    unitsOf (nearestUnits (n * 2 ^ unit) 1) = roundNatural n * 2 ^ unit := by
  have hlog : (n * 2 ^ unit).log2 = n.log2 + unit := by
    refine (Nat.log2_eq_iff (Nat.mul_ne_zero hn (Nat.two_pow_pos unit).ne')).mpr ⟨?_, ?_⟩
    · rw [Nat.pow_add]
      exact Nat.mul_le_mul_right _ (Nat.log2_self_le hn)
    · rw [show n.log2 + unit + 1 = n.log2 + 1 + unit by omega, Nat.pow_add 2 _ unit]
      exact Nat.mul_lt_mul_of_pos_right Nat.lt_log2_self (Nat.two_pow_pos unit)
  obtain ⟨steps, hsteps⟩ : ∃ steps, n.log2 + unit = steps + 52 := ⟨n.log2 + unit - 52, by omega⟩
  have hvalue : unitsOf (nearestUnits (n * 2 ^ unit) 1) =
      roundHalfEven (n * 2 ^ unit) (2 ^ steps) * 2 ^ steps := by
    have hbounds := roundHalfEven_log2_bounds (Nat.mul_ne_zero hn (Nat.two_pow_pos unit).ne')
      (hlog.trans hsteps)
    unfold nearestUnits
    dsimp only
    rw [Nat.div_one, hlog, hsteps, Nat.add_sub_cancel, Nat.one_mul]
    exact unitsOf_steps hbounds.1 hbounds.2
  rw [hvalue]
  rcases Nat.lt_or_ge 52 n.log2 with hlt | hge
  · -- The number has bits to lose, and they are lost before the unit is counted.
    obtain ⟨lost, hlost⟩ : ∃ lost, n.log2 = lost + 52 := ⟨n.log2 - 52, by omega⟩
    have hshift : steps = lost + unit := by omega
    unfold roundNatural
    rw [hlost, Nat.add_sub_cancel, hshift, Nat.pow_add,
      roundHalfEven_mul_mul _ _ (Nat.two_pow_pos unit)]
    exact (Nat.mul_assoc _ _ _).symm
  · obtain ⟨spare, hspare⟩ : ∃ spare, unit = spare + steps := ⟨52 - n.log2, by omega⟩
    rw [roundNatural_of_log2_le hge, hspare, Nat.pow_add, ← Nat.mul_assoc,
      roundHalfEven_mul_self (Nat.two_pow_pos steps)]

theorem unitsOfOne_eq : unitsOfOne = 2 ^ 1074 := by decide +kernel

theorem nearest_zero : nearest 0 1 = 0 := by
  unfold nearest
  rw [Nat.zero_mul]
  rfl

/-- The double nearest to a number has the value of the number rounded to 53 bits. -/
theorem unitsOf_nearest (n : Nat) : unitsOf (nearest n 1) = roundNatural n * unitsOfOne := by
  by_cases hn : n = 0
  · subst hn
    rw [nearest_zero, show roundNatural 0 = 0 from rfl, Nat.zero_mul]
    rfl
  · unfold nearest
    rw [unitsOfOne_eq]
    exact unitsOf_nearestUnits hn (by decide)

/-- Doubles nearest to numbers compare as the rounded numbers. -/
theorem nearest_le_nearest_iff {a b : Nat} :
    nearest a 1 ≤ nearest b 1 ↔ roundNatural a ≤ roundNatural b := by
  have hone : 0 < unitsOfOne := by decide +kernel
  rw [← strictMono_unitsOf.le_iff_le, unitsOf_nearest, unitsOf_nearest]
  exact Nat.mul_le_mul_right_iff hone

end JoinPlan.Binary64
