import Mathlib.Data.List.Forall2
import Mathlib.Data.Nat.Digits.Lemmas
import JoinPlan.Scalar.Uuid
import JoinPlan.Proofs.Json.Nodes

/-!
# Spellings of an identifier

An identifier can be spelled in four forms, with letters in either case. Stored and filtered
values are compared as texts, so each identifier must come to one text. This file supplies it.

> `Spells`: the text is thirty-two hexadecimal digits, or five groups of them with hyphens, the
> latter alone, in braces or behind `urn:uuid:`, and the digits stand for the number.
>
> `read_eq_some_iff`: a text is read as an identifier when it spells the identifier's number.

Reading tries the forms by how a text begins, and no hexadecimal digit begins as braces and the
prefix do. The number determines the digits, since there are thirty-two of them below sixteen
(`eq_of_value_eq`), and the text of an identifier is one of its spellings (`spells_text`).
-/

namespace JoinPlan

/-! ## Hexadecimal digits -/

namespace Text

theorem hexDigit?_digitChar {d : Nat} (h : d < 16) : hexDigit? (Nat.digitChar d) = some d := by
  have hall : ∀ d < 16, hexDigit? (Nat.digitChar d) = some d := by decide
  exact hall d h

theorem hexDigit?_lt {c : Char} {d : Nat} (h : hexDigit? c = some d) : d < 16 := by
  have hrange : ∀ {low high : Char}, low ≤ c ∧ c ≤ high →
      low.toNat ≤ c.toNat ∧ c.toNat ≤ high.toNat := fun h => h
  have h9 : '9'.toNat = '0'.toNat + 9 := rfl
  have hf : 'f'.toNat = 'a'.toNat + 5 := rfl
  have hF : 'F'.toNat = 'A'.toNat + 5 := rfl
  unfold hexDigit? at h
  split at h
  · next hc =>
    have hc := hrange hc
    obtain rfl := Option.some.inj h
    omega
  · split at h
    · next hc =>
      have hc := hrange hc
      obtain rfl := Option.some.inj h
      omega
    · split at h
      · next hc =>
        have hc := hrange hc
        obtain rfl := Option.some.inj h
        omega
      · cases h

end Text

namespace Uuid

/-- There are thirty-two digits. -/
structure WellFormed (u : Uuid) : Prop where
  length : u.digits.length = 32
  digit : ∀ d ∈ u.digits, d < 16

theorem value_eq_ofDigits (u : Uuid) : u.value = Nat.ofDigits 16 u.digits.reverse := by
  rw [Nat.ofDigits_eq_foldr, List.foldr_reverse, value]
  congr 1
  funext acc d
  exact Nat.add_comm _ _

/-- Identifiers of one value are the same. -/
theorem eq_of_value_eq {u w : Uuid} (hu : u.WellFormed) (hw : w.WellFormed)
    (h : u.value = w.value) : u = w := by
  rw [value_eq_ofDigits, value_eq_ofDigits] at h
  have hreverse : u.digits.reverse = w.digits.reverse := by
    refine Nat.ofDigits_inj_of_len_eq (by decide) ?_ ?_ ?_ h
    · rw [List.length_reverse, List.length_reverse, hu.length, hw.length]
    · exact fun d hd => hu.digit d (List.mem_reverse.mp hd)
    · exact fun d hd => hw.digit d (List.mem_reverse.mp hd)
  cases u
  cases w
  exact congrArg Uuid.mk (List.reverse_inj.mp hreverse)

/-- The value has 128 bits. -/
theorem WellFormed.value_lt {u : Uuid} (h : u.WellFormed) : u.value < 2 ^ 128 := by
  have hlt : Nat.ofDigits 16 u.digits.reverse < 16 ^ u.digits.reverse.length :=
    Nat.ofDigits_lt_base_pow_length (by decide) fun d hd => h.digit d (List.mem_reverse.mp hd)
  rw [List.length_reverse, h.length] at hlt
  rw [value_eq_ofDigits]
  exact hlt

/-! ## Forms -/

/-- Thirty-two hexadecimal digits that stand for the number. -/
def Plain (cs : List Char) (n : Nat) : Prop :=
  cs.length = 32 ∧ ∃ digits, cs.mapM Text.hexDigit? = some digits ∧ value ⟨digits⟩ = n

/-- Digits that stand for the number, in groups with hyphens between them. -/
def Hyphenated (cs : List Char) (n : Nat) : Prop :=
  ∃ parts, parts.map List.length = groups ∧ cs = ['-'].intercalate parts ∧ Plain parts.flatten n

/-- The text is a form of the identifier with this number. -/
inductive Spells : List Char → Nat → Prop
  | plain {cs : List Char} {n : Nat} : Plain cs n → Spells cs n
  | hyphenated {cs : List Char} {n : Nat} : Hyphenated cs n → Spells cs n
  | braced {inner : List Char} {n : Nat} :
      Hyphenated inner n → Spells ('\x7b' :: inner ++ ['\x7d']) n
  | urn {start rest : List Char} {n : Nat} :
      start.map Char.toLower = "urn:uuid:".toList → Hyphenated rest n → Spells (start ++ rest) n

theorem wellFormed_of_mapM {cs : List Char} {digits : List Nat} (hlength : cs.length = 32)
    (h : cs.mapM Text.hexDigit? = some digits) : (⟨digits⟩ : Uuid).WellFormed where
  length := (forall₂_of_mapM_eq_some h).length_eq.symm.trans hlength
  digit d hd := by
    obtain ⟨c, -, hc⟩ := exists_of_mem_mapM h hd
    exact Text.hexDigit?_lt hc

theorem ofPlain?_eq_some_iff {cs : List Char} {u : Uuid} :
    ofPlain? cs = some u ↔ u.WellFormed ∧ Plain cs u.value := by
  unfold ofPlain? Plain
  constructor
  · intro h
    split at h
    · next hlength =>
      obtain ⟨digits, hdigits, rfl⟩ := Option.map_eq_some_iff.mp h
      exact ⟨wellFormed_of_mapM hlength hdigits, hlength, digits, hdigits, rfl⟩
    · cases h
  · rintro ⟨hu, hlength, digits, hdigits, hvalue⟩
    rw [if_pos hlength, hdigits, ← eq_of_value_eq (wellFormed_of_mapM hlength hdigits) hu hvalue]
    rfl

/-- Every character of digits is one. -/
theorem Plain.isSome_hexDigit? {cs : List Char} {n : Nat} (h : Plain cs n) {c : Char}
    (hc : c ∈ cs) : (Text.hexDigit? c).isSome := by
  obtain ⟨-, digits, hdigits, -⟩ := h
  have hall : List.Forall₂ (fun c d => (Text.hexDigit? c).isSome ∧ Text.hexDigit? c = some d)
      cs digits :=
    (forall₂_of_mapM_eq_some hdigits).imp fun _ d h => ⟨Option.isSome_iff_exists.mpr ⟨d, h⟩, h⟩
  exact ((List.forall₂_and_left cs digits).mp hall).1 c hc

theorem ofHyphenated?_eq_some_iff {cs : List Char} {u : Uuid} :
    ofHyphenated? cs = some u ↔ u.WellFormed ∧ Hyphenated cs u.value := by
  unfold ofHyphenated?
  simp only
  constructor
  · intro h
    split at h
    · next hgroups =>
      obtain ⟨hu, hplain⟩ := ofPlain?_eq_some_iff.mp h
      exact ⟨hu, Text.pieces '-' cs, hgroups, (Text.intercalate_pieces '-' cs).symm, hplain⟩
    · cases h
  · rintro ⟨hu, parts, hgroups, rfl, hplain⟩
    have hpieces : Text.pieces '-' (['-'].intercalate parts) = parts := by
      refine Text.pieces_intercalate (fun hnil => ?_) fun part hpart hhyphen => ?_
      · rw [hnil] at hgroups
        cases hgroups
      · have hdigit := hplain.isSome_hexDigit? (List.mem_flatten.mpr ⟨part, hpart, hhyphen⟩)
        exact absurd hdigit (by decide)
    rw [hpieces, if_pos hgroups]
    exact ofPlain?_eq_some_iff.mpr ⟨hu, hplain⟩

/-! ## Reading -/

theorem unbrace?_eq_some_iff {cs inner : List Char} :
    unbrace? cs = some inner ↔ cs = '\x7b' :: inner ++ ['\x7d'] := by
  constructor
  · intro h
    unfold unbrace? at h
    split at h
    · next rest =>
      split at h
      · next hlast =>
        obtain ⟨front, rfl⟩ := List.getLast?_eq_some_iff.mp hlast
        rw [List.dropLast_concat] at h
        obtain rfl := Option.some.inj h
        rfl
      · cases h
    · cases h
  · rintro rfl
    show (if (inner ++ ['\x7d']).getLast? = some '\x7d' then some (inner ++ ['\x7d']).dropLast
      else none) = some inner
    rw [if_pos List.getLast?_concat, List.dropLast_concat]

theorem afterUrn?_eq_some_iff {cs rest : List Char} : afterUrn? cs = some rest ↔
    ∃ start : List Char, start.map Char.toLower = "urn:uuid:".toList ∧ cs = start ++ rest := by
  unfold afterUrn?
  constructor
  · intro h
    split at h
    · next hstart =>
      obtain rfl := Option.some.inj h
      exact ⟨cs.take 9, hstart, (List.take_append_drop 9 cs).symm⟩
    · cases h
  · rintro ⟨start, hstart, rfl⟩
    have hlength : start.length = 9 := by
      rw [← List.length_map Char.toLower, hstart]
      rfl
    rw [List.take_left' hlength, List.drop_left' hlength, if_pos hstart]

theorem eq_of_toLower_eq_u {c : Char} (h : c.toLower = 'u') : c = 'u' ∨ c = 'U' := by
  unfold Char.toLower at h
  split at h
  · have hval : c.val + ('a'.val - 'A'.val) = 'U'.val + ('a'.val - 'A'.val) := congrArg Char.val h
    exact .inr (Char.ext ((UInt32.add_left_inj _).mp hval))
  · exact .inl h

theorem hexDigit?_eq_none_of_toLower {c : Char} (h : c.toLower = 'u') :
    Text.hexDigit? c = none := by
  rcases eq_of_toLower_eq_u h with rfl | rfl <;> decide

/-- What begins with a hexadecimal digit is neither in braces nor behind the prefix. -/
theorem read_of_digit {text : String} {c : Char} {rest : List Char}
    (htext : text.toList = c :: rest) (hc : (Text.hexDigit? c).isSome) :
    read text = (ofPlain? text.toList).or (ofHyphenated? text.toList) := by
  have hbrace : unbrace? text.toList = none := by
    refine Option.eq_none_iff_forall_ne_some.mpr fun inner hinner => ?_
    rw [unbrace?_eq_some_iff.mp hinner] at htext
    obtain ⟨rfl, -⟩ := List.cons.inj htext
    exact absurd hc (by decide)
  have hurn : afterUrn? text.toList = none := by
    refine Option.eq_none_iff_forall_ne_some.mpr fun after hafter => ?_
    obtain ⟨start, hstart, happend⟩ := afterUrn?_eq_some_iff.mp hafter
    cases start with
    | nil => cases hstart
    | cons first start =>
      rw [happend] at htext
      obtain ⟨rfl, -⟩ := List.cons.inj htext
      rw [hexDigit?_eq_none_of_toLower (List.cons.inj hstart).1] at hc
      cases hc
  unfold read
  simp only [hbrace, hurn]
  cases ofPlain? text.toList <;> rfl

theorem Plain.exists_digit {cs : List Char} {n : Nat} (h : Plain cs n) :
    ∃ c rest, cs = c :: rest ∧ (Text.hexDigit? c).isSome := by
  cases cs with
  | nil => cases h.1
  | cons c rest => exact ⟨c, rest, rfl, h.isSome_hexDigit? List.mem_cons_self⟩

/-- Digits with hyphens begin with a digit too, and are four characters longer. -/
theorem Hyphenated.exists_digit {cs : List Char} {n : Nat} (h : Hyphenated cs n) :
    cs.length = 36 ∧ ∃ c rest, cs = c :: rest ∧ (Text.hexDigit? c).isSome := by
  obtain ⟨parts, hgroups, rfl, hplain⟩ := h
  cases parts with
  | nil => cases hgroups
  | cons first others =>
    obtain ⟨hfirst, hothers⟩ := List.cons.inj hgroups
    have hfour : others.length = 4 := by rw [← List.length_map List.length, hothers]; rfl
    obtain ⟨second, third, fourth, fifth, rfl⟩ := List.length_eq_four.mp hfour
    constructor
    · simp only [List.map_cons, List.map_nil, List.cons.injEq, and_true] at hothers
      obtain ⟨hsecond, hthird, hfourth, hfifth⟩ := hothers
      simp [List.intercalate, hfirst, hsecond, hthird, hfourth, hfifth]
    · cases first with
      | nil => cases hfirst
      | cons c rest => exact ⟨c, _, rfl, hplain.isSome_hexDigit? (by simp)⟩

/-- A text is read as the identifier whose number it spells. -/
theorem read_eq_some_iff {text : String} {u : Uuid} :
    read text = some u ↔ u.WellFormed ∧ Spells text.toList u.value := by
  constructor
  · intro h
    unfold read at h
    simp only at h
    split at h
    · next inner _ hbrace =>
      obtain ⟨hu, hhyphens⟩ := ofHyphenated?_eq_some_iff.mp h
      rw [unbrace?_eq_some_iff.mp hbrace]
      exact ⟨hu, .braced hhyphens⟩
    · next rest _ hurn =>
      obtain ⟨hu, hhyphens⟩ := ofHyphenated?_eq_some_iff.mp h
      obtain ⟨start, hstart, happend⟩ := afterUrn?_eq_some_iff.mp hurn
      rw [happend]
      exact ⟨hu, .urn hstart hhyphens⟩
    · cases hplain : ofPlain? text.toList with
      | some w =>
        rw [hplain] at h
        obtain rfl := Option.some.inj h
        obtain ⟨hu, hdigits⟩ := ofPlain?_eq_some_iff.mp hplain
        exact ⟨hu, .plain hdigits⟩
      | none =>
        rw [hplain] at h
        obtain ⟨hu, hhyphens⟩ := ofHyphenated?_eq_some_iff.mp h
        exact ⟨hu, .hyphenated hhyphens⟩
  · rintro ⟨hu, hspells⟩
    generalize hcs : text.toList = cs at hspells
    generalize hn : u.value = n at hspells
    cases hspells with
    | plain hplain =>
      obtain ⟨c, rest, hform, hc⟩ := hplain.exists_digit
      rw [read_of_digit (hcs.trans hform) hc, hcs, ofPlain?_eq_some_iff.mpr ⟨hu, hn ▸ hplain⟩]
      rfl
    | hyphenated hhyphens =>
      obtain ⟨hlength, c, rest, hform, hc⟩ := hhyphens.exists_digit
      have hplain : ofPlain? cs = none := if_neg (by rw [hlength]; decide)
      rw [read_of_digit (hcs.trans hform) hc, hcs, hplain, Option.none_or,
        ofHyphenated?_eq_some_iff.mpr ⟨hu, hn ▸ hhyphens⟩]
    | braced hhyphens =>
      have hbrace := unbrace?_eq_some_iff.mpr hcs
      unfold read
      simp only [hbrace]
      exact ofHyphenated?_eq_some_iff.mpr ⟨hu, hn ▸ hhyphens⟩
    | @urn start _ _ hstart hhyphens =>
      have hurn := afterUrn?_eq_some_iff.mpr ⟨_, hstart, hcs⟩
      have hbrace : unbrace? text.toList = none := by
        refine Option.eq_none_iff_forall_ne_some.mpr fun inner hinner => ?_
        rw [unbrace?_eq_some_iff.mp hinner] at hcs
        cases start with
        | nil => cases hstart
        | cons first start =>
          obtain ⟨rfl, -⟩ := List.cons.inj hcs
          exact absurd (List.cons.inj hstart).1 (by decide)
      unfold read
      simp only [hbrace, hurn]
      exact ofHyphenated?_eq_some_iff.mpr ⟨hu, hn ▸ hhyphens⟩

/-! ## Writing -/

/-- Hyphens are written between groups of the given lengths. -/
theorem exists_parts_hyphenate {lengths : List Nat} (hne : lengths ≠ []) {cs : List Char}
    (h : cs.length = lengths.sum) : ∃ parts, parts.map List.length = lengths ∧
      hyphenate lengths cs = ['-'].intercalate parts ∧ parts.flatten = cs := by
  fun_induction hyphenate lengths cs with
  | case1 cs => exact absurd rfl hne
  | case2 n cs =>
    rw [List.sum_singleton] at h
    exact ⟨[cs], by rw [List.map_singleton, h], (List.intercalate_singleton ..).symm, by simp⟩
  | case3 n rest cs hrest ih =>
    rw [List.sum_cons] at h
    have hdrop : (cs.drop n).length = rest.sum := by
      rw [List.length_drop]
      omega
    obtain ⟨parts, hlengths, htext, hflatten⟩ := ih hrest hdrop
    refine ⟨cs.take n :: parts, ?_, ?_, ?_⟩
    · rw [List.map_cons, hlengths, List.length_take_of_le (by omega)]
    · cases parts with
      | nil => exact absurd hlengths.symm hrest
      | cons part parts => rw [htext, List.intercalate_cons_cons]; simp
    · rw [List.flatten_cons, hflatten, List.take_append_drop]

/-- The text of an identifier spells its number. -/
theorem WellFormed.spells_text {u : Uuid} (h : u.WellFormed) : Spells u.text.toList u.value := by
  have hdigits : (u.digits.map Nat.digitChar).mapM Text.hexDigit? = some u.digits := by
    rw [List.mapM_map]
    exact mapM_eq_some_self fun d hd => Text.hexDigit?_digitChar (h.digit d hd)
  have hlength : (u.digits.map Nat.digitChar).length = 32 := by rw [List.length_map, h.length]
  obtain ⟨parts, hgroups, htext, hflatten⟩ :=
    exists_parts_hyphenate (show groups ≠ [] by decide) hlength
  rw [text, String.toList_ofList]
  exact .hyphenated ⟨parts, hgroups, htext, by rw [hflatten]; exact ⟨hlength, _, hdigits, rfl⟩⟩

/-- An identifier is read from its text. -/
theorem WellFormed.read_text {u : Uuid} (h : u.WellFormed) : read u.text = some u :=
  read_eq_some_iff.mpr ⟨h, h.spells_text⟩

/-- The text shows the identifier. -/
theorem WellFormed.text_inj {u w : Uuid} (hu : u.WellFormed) (hw : w.WellFormed)
    (h : u.text = w.text) : u = w := by
  have hread := hu.read_text
  rw [h, hw.read_text] at hread
  exact (Option.some.inj hread).symm

/-- What is spelled is the number of an identifier. -/
theorem Spells.exists_wellFormed {cs : List Char} {n : Nat} (h : Spells cs n) :
    ∃ u : Uuid, u.WellFormed ∧ u.value = n := by
  have hplain : ∀ {digits : List Char}, Plain digits n → ∃ u : Uuid, u.WellFormed ∧ u.value = n :=
    fun ⟨hlength, digits, hdigits, hvalue⟩ => ⟨⟨digits⟩, wellFormed_of_mapM hlength hdigits, hvalue⟩
  cases h with
  | plain h => exact hplain h
  | hyphenated h | braced h | urn _ h =>
    obtain ⟨parts, -, -, h⟩ := h
    exact hplain h

end Uuid

end JoinPlan
