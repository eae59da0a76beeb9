import Mathlib.Algebra.Ring.Nat
import Mathlib.Tactic.Tauto
import JoinPlan.Text.Digits

/-!
# The order of digits

Texts compare character by character, so numbers that are written one behind the other compare
before anything is read. This file supplies when that is the order of the numbers.

> `padded_append_lt_iff`: of numbers within a width, padded to it, the smaller comes first,
> whatever follows; of equal ones, what follows decides.

A number may also be longer than its width, and then the mark behind it counts: if the mark comes
before all digits, the shorter of two prefixes comes first (`cons_digits_append_lt_iff`). Both
rest on the value of digits, which is their order at one length (`lt_iff_ofDigitChars_lt`).
-/

namespace JoinPlan.Text

/-! ## The value of digits -/

theorem lt_iff_toNat_lt {c d : Char} : c < d ↔ c.toNat < d.toNat := Iff.rfl

theorem lt_of_lt_of_isDigit {mark c : Char} (hmark : mark < '0') (hc : c.isDigit) : mark < c :=
  lt_iff_toNat_lt.mpr
    (Nat.lt_of_lt_of_le (lt_iff_toNat_lt.mp hmark) (Char.isDigit_iff_toNat.mp hc).1)

/-- The first digit counts for as many tens as digits follow it. -/
theorem ofDigitChars_cons (c : Char) (cs : List Char) :
    Nat.ofDigitChars 10 (c :: cs) 0 =
      10 ^ cs.length * (c.toNat - '0'.toNat) + Nat.ofDigitChars 10 cs 0 := by
  rw [Nat.ofDigitChars_cons, Nat.mul_zero, Nat.zero_add, Nat.ofDigitChars_eq_ofDigitChars_zero]

theorem ofDigitChars_lt {cs : List Char} (h : ∀ c ∈ cs, c.isDigit) :
    Nat.ofDigitChars 10 cs 0 < 10 ^ cs.length := by
  induction cs with
  | nil => exact Nat.one_pos
  | cons c cs ih =>
    obtain ⟨hc, hcs⟩ := List.forall_mem_cons.mp h
    have hdigit : c.toNat - '0'.toNat + 1 ≤ 10 := by
      have hle := (Char.isDigit_iff_toNat.mp hc).2
      have hnine : '9'.toNat = '0'.toNat + 9 := rfl
      omega
    calc Nat.ofDigitChars 10 (c :: cs) 0
        < 10 ^ cs.length * (c.toNat - '0'.toNat) + 10 ^ cs.length := by
          rw [ofDigitChars_cons]
          exact Nat.add_lt_add_left (ih hcs) _
      _ = 10 ^ cs.length * (c.toNat - '0'.toNat + 1) := by rw [Nat.mul_succ]
      _ ≤ 10 ^ cs.length * 10 := Nat.mul_le_mul_left _ hdigit
      _ = 10 ^ (c :: cs).length := (Nat.pow_succ ..).symm

/-- A smaller leading part decides, if the rest stays below one of its units. -/
theorem mul_add_lt_iff {unit i j x y : Nat} (hx : x < unit) (hy : y < unit) :
    unit * i + x < unit * j + y ↔ i < j ∨ i = j ∧ x < y := by
  rcases Nat.lt_trichotomy i j with hlt | rfl | hgt
  · have hunit : unit * i + unit ≤ unit * j := Nat.mul_succ unit i ▸ Nat.mul_le_mul_left unit hlt
    omega
  · omega
  · have hunit : unit * j + unit ≤ unit * i := Nat.mul_succ unit j ▸ Nat.mul_le_mul_left unit hgt
    omega

/-- Digits of one length compare as the numbers that they stand for. -/
theorem lt_iff_ofDigitChars_lt : ∀ {a b : List Char}, a.length = b.length →
    (∀ c ∈ a, c.isDigit) → (∀ c ∈ b, c.isDigit) →
    (a < b ↔ Nat.ofDigitChars 10 a 0 < Nat.ofDigitChars 10 b 0)
  | [], [], _, _, _ => iff_of_false (List.lt_irrefl []) (Nat.lt_irrefl _)
  | c :: a, d :: b, hlength, ha, hb => by
    obtain ⟨hc, ha⟩ := List.forall_mem_cons.mp ha
    obtain ⟨hd, hb⟩ := List.forall_mem_cons.mp hb
    have hrest : a.length = b.length := Nat.succ.inj hlength
    have hdigits : c.toNat - '0'.toNat < d.toNat - '0'.toNat ↔ c < d := by
      have hc := (Char.isDigit_iff_toNat.mp hc).1
      have hd := (Char.isDigit_iff_toNat.mp hd).1
      rw [lt_iff_toNat_lt]
      omega
    have hsame : c.toNat - '0'.toNat = d.toNat - '0'.toNat ↔ c = d := by
      have hc := (Char.isDigit_iff_toNat.mp hc).1
      have hd := (Char.isDigit_iff_toNat.mp hd).1
      rw [← Char.toNat_inj]
      omega
    rw [ofDigitChars_cons, ofDigitChars_cons, hrest,
      mul_add_lt_iff (hrest ▸ ofDigitChars_lt ha) (ofDigitChars_lt hb), hdigits, hsame,
      List.cons_lt_cons_iff, lt_iff_ofDigitChars_lt hrest ha hb]

/-! ## Numbers in decimal -/

theorem isDigit_of_mem_padded {width n : Nat} {c : Char} (hc : c ∈ padded width n) :
    c.isDigit := by
  rcases List.mem_append.mp hc with hzero | hdigit
  · rw [List.eq_of_mem_replicate hzero]
    rfl
  · exact Nat.isDigit_of_mem_toDigits (by decide) (by decide) hdigit

theorem padded_ne_nil (width n : Nat) : padded width n ≠ [] :=
  List.append_ne_nil_of_right_ne_nil _ Nat.toDigits_ne_nil

/-- Zeros in front do not count. -/
theorem ofDigitChars_padded (width n : Nat) : Nat.ofDigitChars 10 (padded width n) 0 = n := by
  unfold padded
  rw [Nat.ofDigitChars_append, Nat.ofDigitChars_replicate_zero, Nat.mul_zero,
    Nat.ofDigitChars_ten_toDigits]

theorem natural?_eq_some_iff {cs : List Char} {n : Nat} : natural? cs = some n ↔
    cs ≠ [] ∧ (∀ c ∈ cs, c.isDigit) ∧ Nat.ofDigitChars 10 cs 0 = n := by
  simp [natural?, and_assoc]

/-- A padded number is read back. -/
theorem natural?_padded (width n : Nat) : natural? (padded width n) = some n :=
  natural?_eq_some_iff.mpr
    ⟨padded_ne_nil width n, fun _ => isDigit_of_mem_padded, ofDigitChars_padded width n⟩

/-- Digits and nothing else are read. -/
theorem natural?_eq_none {cs : List Char} {c : Char} (hc : c ∈ cs) (h : ¬c.isDigit) :
    natural? cs = none := by
  have hall : cs.all Char.isDigit = false :=
    List.all_eq_false.mpr ⟨c, hc, h⟩
  unfold natural?
  rw [hall, Bool.and_false]
  rfl

theorem integer?_eq (cs : List Char) : integer? cs =
    (natural? (takeSign cs).2).map fun n : Nat => if (takeSign cs).1 then -(n : Int) else n := by
  unfold integer?
  dsimp only
  cases natural? (takeSign cs).2 <;> rfl

/-- Digits begin with no sign. -/
theorem takeSign_padded (width n : Nat) : takeSign (padded width n) = (false, padded width n) := by
  have hdigit : ∀ c ∈ padded width n, c.isDigit := fun _ => isDigit_of_mem_padded
  unfold takeSign
  split
  · next heq =>
    rw [heq] at hdigit
    exact absurd (hdigit _ List.mem_cons_self) (by decide)
  · next heq =>
    rw [heq] at hdigit
    exact absurd (hdigit _ List.mem_cons_self) (by decide)
  · rfl

theorem padded_inj {width m n : Nat} : padded width m = padded width n ↔ m = n := by
  refine ⟨fun h => ?_, fun h => h ▸ rfl⟩
  rw [← ofDigitChars_padded width m, h, ofDigitChars_padded]

/-- A number below `10 ^ width` fills the width. -/
theorem length_padded {width n : Nat} (hwidth : 0 < width) (h : n < 10 ^ width) :
    (padded width n).length = width := by
  have hle := (Nat.length_toDigits_le_iff (by decide : 1 < 10) hwidth).mpr h
  unfold padded
  rw [List.length_append, List.length_replicate]
  omega

/-! ## Digits in front of a text -/

/-- Of texts with fronts of one length, the fronts decide where they differ. -/
theorem append_lt_append_iff : ∀ {a b xs ys : List Char}, a.length = b.length →
    (a ++ xs < b ++ ys ↔ a < b ∨ a = b ∧ xs < ys)
  | [], [], _, _, _ => by simp
  | c :: a, d :: b, xs, ys, hlength => by
    rw [List.cons_append, List.cons_append, List.cons_lt_cons_iff,
      append_lt_append_iff (Nat.succ.inj hlength), List.cons_lt_cons_iff, List.cons.injEq]
    tauto

/-- Numbers of one width decide in front of a text. -/
theorem padded_append_lt_iff {width m n : Nat} (hwidth : 0 < width) (hm : m < 10 ^ width)
    (hn : n < 10 ^ width) {xs ys : List Char} :
    padded width m ++ xs < padded width n ++ ys ↔ m < n ∨ m = n ∧ xs < ys := by
  have hlength : (padded width m).length = (padded width n).length := by
    rw [length_padded hwidth hm, length_padded hwidth hn]
  rw [append_lt_append_iff hlength, padded_inj, lt_iff_ofDigitChars_lt hlength
    (fun _ => isDigit_of_mem_padded) (fun _ => isDigit_of_mem_padded), ofDigitChars_padded,
    ofDigitChars_padded]

/-- Numbers of one width decide in front of a mark. -/
theorem padded_mark_lt_iff {width m n : Nat} {mark : Char} (hwidth : 0 < width)
    (hm : m < 10 ^ width) (hn : n < 10 ^ width) {xs ys : List Char} :
    padded width m ++ mark :: xs < padded width n ++ mark :: ys ↔ m < n ∨ m = n ∧ xs < ys := by
  rw [padded_append_lt_iff hwidth hm hn, List.cons_lt_cons_self]

/-- Digits of any length decide in front of a mark that comes before all digits. -/
theorem digits_append_lt_iff {mark : Char} (hmark : mark < '0') {xs ys : List Char} :
    ∀ {a b : List Char}, (∀ c ∈ a, c.isDigit) → (∀ c ∈ b, c.isDigit) →
      (a ++ mark :: xs < b ++ mark :: ys ↔ a < b ∨ a = b ∧ xs < ys)
  | [], [], _, _ => by simp
  | [], d :: b, _, hb => by
    have hd : mark < d := lt_of_lt_of_isDigit hmark (hb d List.mem_cons_self)
    exact iff_of_true (List.cons_lt_cons_iff.mpr (.inl hd)) (.inl (List.nil_lt_cons d b))
  | c :: a, [], ha, _ => by
    have hc : mark < c := lt_of_lt_of_isDigit hmark (ha c List.mem_cons_self)
    have hnot : ¬(c < mark ∨ c = mark ∧ a ++ mark :: xs < ys) := by
      rintro (h | ⟨rfl, -⟩)
      · exact Char.lt_asymm h hc
      · exact Char.lt_irrefl _ hc
    refine iff_of_false (mt List.cons_lt_cons_iff.mp hnot) ?_
    rintro (h | ⟨h, -⟩)
    · exact List.not_lt_nil _ h
    · cases h
  | c :: a, d :: b, ha, hb => by
    rw [List.cons_append, List.cons_append, List.cons_lt_cons_iff,
      digits_append_lt_iff hmark (List.forall_mem_cons.mp ha).2 (List.forall_mem_cons.mp hb).2,
      List.cons_lt_cons_iff, List.cons.injEq]
    tauto

/-- The same with one character more in front, a sign or a digit. -/
theorem cons_digits_append_lt_iff {mark c d : Char} (hmark : mark < '0') {a b xs ys : List Char}
    (ha : ∀ c ∈ a, c.isDigit) (hb : ∀ c ∈ b, c.isDigit) :
    c :: a ++ mark :: xs < d :: b ++ mark :: ys ↔ c :: a < d :: b ∨ c :: a = d :: b ∧ xs < ys := by
  rw [List.cons_append, List.cons_append, List.cons_lt_cons_iff, digits_append_lt_iff hmark ha hb,
    List.cons_lt_cons_iff, List.cons.injEq]
  tauto

end JoinPlan.Text
