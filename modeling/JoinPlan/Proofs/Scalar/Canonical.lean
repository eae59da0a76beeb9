import JoinPlan.Filter.Token
import JoinPlan.Proofs.Scalar.Uuid
import JoinPlan.Proofs.Text.Digits

/-!
# Canonical values

Stored values and the operands of filters come from texts of many forms, and a pattern goes back
to the text of a value. This file shows that a value is the same whichever way it was reached.

> `cast_canonical`: the text of a cast value is cast to that value; integers are the texts of an
> optional sign and digits, within 64 bits; identifiers of one number are one value.

Whatever is read can be written and read again (`integer?_toString`, `Uuid.WellFormed.read_text`),
so a cast only has to return what reading gave. What texts are read is said by their spellings
(`SpellsInt`, `Uuid.Spells`).
-/

namespace JoinPlan

/-! ## Integers -/

namespace Text

/-- Decimal digits, at least one, that stand for the number. -/
structure Numeral (cs : List Char) (n : Nat) : Prop where
  ne_nil : cs ≠ []
  digit : ∀ c ∈ cs, c.isDigit
  value : Nat.ofDigitChars 10 cs 0 = n

/-- A numeral behind a sign or none. -/
inductive SpellsInt : List Char → Int → Prop
  | bare {cs : List Char} {n : Nat} : Numeral cs n → SpellsInt cs n
  | plus {cs : List Char} {n : Nat} : Numeral cs n → SpellsInt ('+' :: cs) n
  | minus {cs : List Char} {n : Nat} : Numeral cs n → SpellsInt ('-' :: cs) (-n)

theorem natural?_eq_some_iff_numeral {cs : List Char} {n : Nat} :
    natural? cs = some n ↔ Numeral cs n :=
  natural?_eq_some_iff.trans ⟨fun ⟨h, hdigits, hvalue⟩ => ⟨h, hdigits, hvalue⟩,
    fun ⟨h, hdigits, hvalue⟩ => ⟨h, hdigits, hvalue⟩⟩

theorem not_numeral_cons {c : Char} {cs : List Char} {n : Nat} (hc : ¬c.isDigit) :
    ¬Numeral (c :: cs) n :=
  fun h => hc (h.digit c List.mem_cons_self)

/-- A text is read as the integer that it spells. -/
theorem integer?_eq_some_iff {cs : List Char} {z : Int} :
    integer? cs = some z ↔ SpellsInt cs z := by
  simp only [integer?_eq, Option.map_eq_some_iff, natural?_eq_some_iff_numeral]
  fun_cases takeSign cs with
  | case1 rest =>
    constructor
    · rintro ⟨n, hn, rfl⟩
      exact .minus hn
    · intro h
      cases h with
      | bare h => exact absurd h (not_numeral_cons (by decide))
      | minus h => exact ⟨_, h, rfl⟩
  | case2 rest =>
    constructor
    · rintro ⟨n, hn, rfl⟩
      exact .plus hn
    · intro h
      cases h with
      | bare h => exact absurd h (not_numeral_cons (by decide))
      | plus h => exact ⟨_, h, rfl⟩
  | case3 rest hminus hplus =>
    constructor
    · rintro ⟨n, hn, rfl⟩
      exact .bare hn
    · intro h
      cases h with
      | bare h => exact ⟨_, h, rfl⟩
      | plus h => exact absurd rfl (hplus _)
      | minus h => exact absurd rfl (hminus _)

theorem numeral_repr (n : Nat) : Numeral n.repr.toList n := by
  rw [Nat.toList_repr]
  exact ⟨Nat.toDigits_ne_nil, fun _ => Nat.isDigit_of_mem_toDigits (by decide) (by decide),
    Nat.ofDigitChars_ten_toDigits⟩

/-- An integer is read from its text. -/
theorem integer?_toString (z : Int) : integer? (toString z).toList = some z := by
  rw [integer?_eq_some_iff, Int.toString_eq_repr, Int.repr_eq_if]
  split
  · next hz =>
    have h := SpellsInt.bare (numeral_repr z.toNat)
    rwa [Int.toNat_of_nonneg hz] at h
  · next hz =>
    have h := SpellsInt.minus (numeral_repr (-z).toNat)
    rw [Int.toNat_of_nonneg (by omega), Int.neg_neg] at h
    rw [String.toList_append]
    exact h

end Text

namespace ScalarType

variable {text : String} {v : Value}

theorem inIntRange_iff {n : Int} : inIntRange n = true ↔ -2 ^ 63 ≤ n ∧ n < 2 ^ 63 := by
  simp [inIntRange]

theorem cast?_int_eq_some_iff : ScalarType.int.cast? text = some v ↔
    ∃ n : Int, Text.SpellsInt text.toList n ∧ -2 ^ 63 ≤ n ∧ n < 2 ^ 63 ∧ v = .ofInt n := by
  have hguard : ∀ n : Int, (if inIntRange n then some (Value.ofInt n) else none) = some v ↔
      -2 ^ 63 ≤ n ∧ n < 2 ^ 63 ∧ v = .ofInt n := by
    intro n
    rw [Option.ite_none_right_eq_some, inIntRange_iff, and_assoc, Option.some_inj,
      eq_comm (a := v)]
  unfold cast?
  simp only [Option.bind_eq_some_iff, Text.integer?_eq_some_iff, hguard]

theorem cast?_string_eq_some_iff : ScalarType.string.cast? text = some v ↔
    text ≠ "" ∧ v = .string text := by
  simp [cast?, eq_comm (a := v)]

theorem cast?_uuid_eq_some_iff : ScalarType.uuid.cast? text = some v ↔
    ∃ u : Uuid, u.WellFormed ∧ Uuid.Spells text.toList u.value ∧ v = .string u.text := by
  unfold cast?
  simp only [Option.map_eq_some_iff, Uuid.read_eq_some_iff, and_assoc, eq_comm (a := v)]

theorem cast?_bool_eq_some_iff : ScalarType.bool.cast? text = some v ↔
    ∃ b, truth? text = some b ∧ v = .bool b := by
  unfold cast?
  simp only [Option.map_eq_some_iff, eq_comm (a := v)]

theorem truth?_compact (b : Bool) : truth? (Value.bool b).compact = some b := by
  cases b <;> decide

/-- What spells a number is cast to the text of the identifier with this number. -/
theorem exists_cast?_of_spells {n : Nat} (h : Uuid.Spells text.toList n) :
    ∃ u : Uuid, u.WellFormed ∧ u.value = n ∧
      ScalarType.uuid.cast? text = some (.string u.text) := by
  obtain ⟨u, hu, rfl⟩ := h.exists_wellFormed
  exact ⟨u, hu, rfl, cast?_uuid_eq_some_iff.mpr ⟨u, hu, h, rfl⟩⟩

/-- The text of a value is cast to this value, if it is not a double or an instant. -/
theorem cast?_patternText {type : ScalarType}
    (htype : type ∈ [ScalarType.string, .int, .bool, .uuid, .any])
    (h : type.cast? text = some v) : type.cast? (Operator.patternText v) = some v := by
  simp only [List.mem_cons, List.not_mem_nil, or_false] at htype
  obtain rfl | rfl | rfl | rfl | rfl := htype
  · obtain ⟨-, rfl⟩ := cast?_string_eq_some_iff.mp h
    exact h
  · obtain ⟨n, -, hlow, hhigh, rfl⟩ := cast?_int_eq_some_iff.mp h
    have hread := Text.integer?_eq_some_iff.mp (Text.integer?_toString n)
    exact cast?_int_eq_some_iff.mpr ⟨n, hread, hlow, hhigh, rfl⟩
  · obtain ⟨b, -, rfl⟩ := cast?_bool_eq_some_iff.mp h
    exact cast?_bool_eq_some_iff.mpr ⟨b, truth?_compact b, rfl⟩
  · obtain ⟨u, hu, -, rfl⟩ := cast?_uuid_eq_some_iff.mp h
    exact cast?_uuid_eq_some_iff.mpr ⟨u, hu, hu.spells_text, rfl⟩
  · obtain rfl := Option.some.inj h
    rfl

/-- Casting is canonical. A text, an integer, a truth value or an identifier that a text is cast
to is what its own text is cast to, under the same type. A text is cast to an integer when it is
a sign or none and at least one digit that spell it, and the integer has 64 bits. It is cast to an
identifier when it spells a number of 128 bits in one of the four forms, and spellings are cast to
one value exactly when they spell one number. -/
theorem cast_canonical :
    (∀ type ∈ [ScalarType.string, .int, .bool, .uuid, .any], ∀ (text : String) (v : Value),
      type.cast? text = some v → type.cast? (Operator.patternText v) = some v) ∧
    (∀ (text : String) (v : Value), ScalarType.int.cast? text = some v ↔
      ∃ n : Int, Text.SpellsInt text.toList n ∧ -2 ^ 63 ≤ n ∧ n < 2 ^ 63 ∧ v = .ofInt n) ∧
    (∀ text : String, (∃ v, ScalarType.uuid.cast? text = some v) ↔
      ∃ n < 2 ^ 128, Uuid.Spells text.toList n) ∧
    ∀ (a b : String) (m n : Nat), Uuid.Spells a.toList m → Uuid.Spells b.toList n →
      ∃ v w, ScalarType.uuid.cast? a = some v ∧ ScalarType.uuid.cast? b = some w ∧
        (v = w ↔ m = n) := by
  refine ⟨fun type htype text v => cast?_patternText htype,
    fun text v => cast?_int_eq_some_iff, fun text => ⟨?_, ?_⟩, ?_⟩
  · rintro ⟨v, hv⟩
    obtain ⟨u, hu, hspells, -⟩ := cast?_uuid_eq_some_iff.mp hv
    exact ⟨u.value, hu.value_lt, hspells⟩
  · rintro ⟨n, -, hspells⟩
    obtain ⟨u, -, -, hcast⟩ := exists_cast?_of_spells hspells
    exact ⟨_, hcast⟩
  · intro a b m n ha hb
    obtain ⟨u, hu, rfl, hcast⟩ := exists_cast?_of_spells ha
    obtain ⟨w, hw, rfl, hcast'⟩ := exists_cast?_of_spells hb
    refine ⟨_, _, hcast, hcast', fun h => ?_, fun h => ?_⟩
    · rw [hu.text_inj hw (Value.string.inj h)]
    · rw [Uuid.eq_of_value_eq hu hw h]

/-- The least integer with zeros in front, and one identifier in two spellings, with large and
small digits. -/
theorem cast_canonical_forms :
    ScalarType.int.cast? "-009223372036854775808" = some (.ofInt (-2 ^ 63)) ∧
      ScalarType.int.cast? (Operator.patternText (.ofInt (-2 ^ 63))) =
        some (.ofInt (-2 ^ 63)) ∧
      ∃ v, ScalarType.uuid.cast? "6BA7B8109DAD11D180B400C04FD430C8" = some v ∧
        ScalarType.uuid.cast? "urn:uuid:6ba7b810-9DAD-11D1-80b4-00c04fd430c8" = some v := by
  obtain ⟨hform, hint, -, huuid⟩ := cast_canonical
  have hleast : Text.SpellsInt "-009223372036854775808".toList (-2 ^ 63) :=
    .minus ⟨by decide, List.all_eq_true.mp (by decide), by decide +kernel⟩
  have hcast := (hint _ _).mpr ⟨-2 ^ 63, hleast, by decide, by decide, rfl⟩
  have hplain : Uuid.Spells "6BA7B8109DAD11D180B400C04FD430C8".toList
      0x6ba7b8109dad11d180b400c04fd430c8 :=
    .plain ⟨by decide, _, rfl, by decide +kernel⟩
  have hparts : Uuid.Hyphenated "6ba7b810-9DAD-11D1-80b4-00c04fd430c8".toList
      0x6ba7b8109dad11d180b400c04fd430c8 :=
    ⟨["6ba7b810".toList, "9DAD".toList, "11D1".toList, "80b4".toList, "00c04fd430c8".toList],
      by decide, by decide, by decide, _, rfl, by decide +kernel⟩
  have hurn : "urn:uuid:".toList.map Char.toLower = "urn:uuid:".toList := by decide
  obtain ⟨v, w, hv, hw, hsame⟩ := huuid _ "urn:uuid:6ba7b810-9DAD-11D1-80b4-00c04fd430c8" _ _
    hplain (.urn hurn hparts)
  exact ⟨hcast, hform .int (by decide) _ _ hcast, v, hv, hsame.mpr rfl ▸ hw⟩

end ScalarType

end JoinPlan
