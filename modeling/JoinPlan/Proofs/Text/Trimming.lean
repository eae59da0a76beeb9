import Mathlib.Data.List.DropRight
import JoinPlan.Text.Blank
import JoinPlan.Text.Split

/-!
# Trimmed texts, and texts cut in two

Names and paths are read from parts of a text that were trimmed and cut at a separator. This file
supplies that reading such a part again gives the same.

> `trim_trim`: a trimmed text has no blanks left to cut.
>
> `trim_joined`: trimmed texts joined at a separator are trimmed.
>
> `eq_append_of_cutAtFirst`: a text that was cut is its two parts with the separator between
> them, and the first part has no separator.

Trimming drops blanks in front and then behind. What it leaves starts as the text without its
blanks in front does, so there are none in front, and behind there are none at all. Hence a text
is trimmed when its first and its last character are not blank (`trimChars_eq_self_iff`).
-/

namespace JoinPlan.Text

/-! ## Trimming -/

theorem trimChars_eq_rdropWhile (cs : List Char) :
    trimChars cs = (cs.dropWhile isBlank).rdropWhile isBlank := rfl

/-- What is trimmed starts with no blank. -/
theorem dropWhile_trimChars (cs : List Char) :
    (trimChars cs).dropWhile isBlank = trimChars cs := by
  obtain ⟨cut, hcut⟩ := List.rdropWhile_prefix isBlank (l := cs.dropWhile isBlank)
  rw [← trimChars_eq_rdropWhile] at hcut
  cases htrim : trimChars cs with
  | nil => rfl
  | cons c rest =>
    -- The text without its blanks in front starts with the same character.
    have hfirst := List.head?_dropWhile_not isBlank cs
    rw [← hcut, htrim, List.cons_append, List.head?_cons] at hfirst
    exact List.dropWhile_cons_of_neg (Bool.eq_false_iff.mp hfirst)

/-- A trimmed text has no blanks left to cut. -/
theorem trim_trim (s : String) : trim (trim s) = trim s := by
  unfold trim
  rw [String.toList_ofList, trimChars_eq_rdropWhile (trimChars _), dropWhile_trimChars,
    trimChars_eq_rdropWhile, List.rdropWhile_idempotent]

/-- A text is blank when trimming leaves nothing of it. -/
theorem isBlankText_eq_true_iff {s : String} : isBlankText s = true ↔ trim s = "" := by
  rw [trim, String.ofList_eq_empty_iff, trimChars_eq_rdropWhile, List.rdropWhile_eq_nil_iff,
    isBlankText, List.all_eq_true]
  constructor
  · intro h c hc
    exact h c ((List.dropWhile_sublist isBlank).subset hc)
  · intro h
    have hnone : s.toList.dropWhile isBlank = [] := by
      cases hrest : s.toList.dropWhile isBlank with
      | nil => rfl
      | cons c rest =>
        -- The first character that is kept is not blank.
        have hfirst := List.head?_dropWhile_not isBlank s.toList
        rw [hrest] at hfirst h
        exact absurd (h c List.mem_cons_self) (Bool.eq_false_iff.mp hfirst)
    exact List.dropWhile_eq_nil_iff.mp hnone

/-- Trimming adds no character. -/
theorem mem_of_mem_trim {c : Char} {s : String} (h : c ∈ (trim s).toList) : c ∈ s.toList := by
  rw [trim, String.toList_ofList, trimChars_eq_rdropWhile] at h
  exact (List.dropWhile_sublist isBlank).subset ((List.rdropWhile_prefix isBlank _).subset h)

/-- A text is trimmed when it neither begins nor ends with a blank. -/
theorem trimChars_eq_self_iff {cs : List Char} : trimChars cs = cs ↔
    (∀ c, cs.head? = some c → isBlank c = false) ∧
      ∀ c, cs.getLast? = some c → isBlank c = false := by
  have hfront : cs.dropWhile isBlank = cs ↔ ∀ c, cs.head? = some c → isBlank c = false := by
    cases cs with
    | nil => simp
    | cons first rest => simp [List.dropWhile_eq_self_iff]
  have hback : cs.rdropWhile isBlank = cs ↔ ∀ c, cs.getLast? = some c → isBlank c = false := by
    rw [List.rdropWhile_eq_self_iff]
    constructor
    · intro h c hc
      obtain ⟨front, rfl⟩ := List.getLast?_eq_some_iff.mp hc
      have hlast := h (List.append_ne_nil_of_right_ne_nil front (List.cons_ne_nil c []))
      rw [List.getLast_concat] at hlast
      exact Bool.eq_false_iff.mpr hlast
    · intro h hne
      exact Bool.eq_false_iff.mp (h _ (List.getLast?_eq_some_getLast hne))
  rw [← hfront, ← hback, trimChars_eq_rdropWhile]
  constructor
  · intro h
    have hdrop := dropWhile_trimChars cs
    rw [trimChars_eq_rdropWhile, h] at hdrop
    rw [hdrop] at h
    exact ⟨hdrop, h⟩
  · rintro ⟨hdrop, hrdrop⟩
    rw [hdrop, hrdrop]

theorem trim_eq_self_iff {s : String} : trim s = s ↔ trimChars s.toList = s.toList := by
  rw [trim, ← String.toList_inj, String.toList_ofList]

/-- Trimmed texts joined at a separator are trimmed. -/
theorem trim_joined {sep : Char} (hsep : isBlank sep = false) {s t : String} (hs : trim s = s)
    (ht : trim t = t) :
    trim (s ++ String.singleton sep ++ t) = s ++ String.singleton sep ++ t := by
  rw [trim_eq_self_iff, trimChars_eq_self_iff] at hs ht ⊢
  rw [String.toList_append, String.toList_append, String.toList_singleton]
  constructor
  · intro c hc
    rw [List.append_assoc, List.head?_append, Option.or_eq_some_iff] at hc
    rcases hc with hc | ⟨-, hc⟩
    · exact hs.1 c hc
    · obtain rfl := Option.some.inj hc
      exact hsep
  · intro c hc
    rw [List.getLast?_append, List.getLast?_append, Option.or_eq_some_iff] at hc
    rcases hc with hc | ⟨-, hc⟩
    · exact ht.2 c hc
    · obtain rfl := Option.some.inj hc
      exact hsep

/-- Trimmed texts with a separator between them are trimmed. -/
theorem trim_intercalate {sep : Char} (hsep : isBlank sep = false) {texts : List String}
    (h : ∀ s ∈ texts, trim s = s) :
    trim ((String.singleton sep).intercalate texts) = (String.singleton sep).intercalate texts := by
  induction texts with
  | nil => rfl
  | cons s rest ih =>
    obtain ⟨hs, hrest⟩ := List.forall_mem_cons.mp h
    cases rest with
    | nil => rw [String.intercalate_singleton, hs]
    | cons t rest => rw [String.intercalate_cons_cons, trim_joined hsep hs (ih hrest)]

/-! ## Cutting -/

theorem eq_append_of_cutChars {sep : Char} {cs before after : List Char}
    (h : cutChars sep cs = some (before, after)) : cs = before ++ sep :: after := by
  induction cs generalizing before with
  | nil => cases h
  | cons c cs ih =>
    rw [cutChars] at h
    by_cases hc : c = sep
    · rw [if_pos hc] at h
      cases h
      rw [hc, List.nil_append]
    · rw [if_neg hc, Option.map_eq_some_iff] at h
      obtain ⟨⟨front, back⟩, hcut, hparts⟩ := h
      cases hparts
      rw [ih hcut, List.cons_append]

/-- What stands before the first separator has none. -/
theorem notMem_of_cutChars {sep : Char} {cs before after : List Char}
    (h : cutChars sep cs = some (before, after)) : sep ∉ before := by
  induction cs generalizing before with
  | nil => cases h
  | cons c cs ih =>
    rw [cutChars] at h
    by_cases hc : c = sep
    · rw [if_pos hc] at h
      cases h
      exact List.not_mem_nil
    · rw [if_neg hc, Option.map_eq_some_iff] at h
      obtain ⟨⟨front, back⟩, hcut, hparts⟩ := h
      cases hparts
      exact mt List.mem_cons.mp (not_or.mpr ⟨Ne.symm hc, ih hcut⟩)

/-- A text that was cut is its two parts with the separator between them. -/
theorem eq_append_of_cutAtFirst {sep : Char} {s before after : String}
    (h : cutAtFirst sep s = some (before, after)) :
    s = before ++ String.singleton sep ++ after := by
  obtain ⟨⟨front, back⟩, hcut, hparts⟩ := Option.map_eq_some_iff.mp h
  cases hparts
  have hchars := eq_append_of_cutChars hcut
  rw [← String.toList_inj, hchars]
  simp

theorem notMem_of_cutAtFirst {sep : Char} {s before after : String}
    (h : cutAtFirst sep s = some (before, after)) : sep ∉ before.toList := by
  obtain ⟨⟨front, back⟩, hcut, hparts⟩ := Option.map_eq_some_iff.mp h
  cases hparts
  rw [String.toList_ofList]
  exact notMem_of_cutChars hcut

/-- A text is not cut when it has no separator. -/
theorem cutAtFirst_eq_none_iff {sep : Char} {s : String} :
    cutAtFirst sep s = none ↔ sep ∉ s.toList := by
  unfold cutAtFirst
  rw [Option.map_eq_none_iff]
  induction s.toList with
  | nil => simp [cutChars]
  | cons c cs ih =>
    by_cases hc : c = sep
    · simp [cutChars, hc]
    · simp [cutChars, hc, Ne.symm hc, ih]

theorem mem_of_mem_pieces {sep c : Char} {cs piece : List Char} (hpiece : piece ∈ pieces sep cs)
    (hc : c ∈ piece) : c ∈ cs := by
  induction cs generalizing piece with
  | nil =>
    rw [pieces] at hpiece
    rwa [List.mem_singleton.mp hpiece] at hc
  | cons first cs ih =>
    obtain ⟨next, rest, hpieces⟩ := List.exists_cons_of_ne_nil (pieces_ne_nil sep cs)
    simp only [pieces, hpieces] at hpiece ih
    split at hpiece
    · rcases List.mem_cons.mp hpiece with rfl | hpiece
      · cases hc
      · exact List.mem_cons_of_mem _ (ih hpiece hc)
    · rcases List.mem_cons.mp hpiece with rfl | hpiece
      · rcases List.mem_cons.mp hc with rfl | hc
        · exact List.mem_cons_self
        · exact List.mem_cons_of_mem _ (ih List.mem_cons_self hc)
      · exact List.mem_cons_of_mem _ (ih (List.mem_cons_of_mem _ hpiece) hc)

/-- The pieces of a text have its characters only. -/
theorem mem_of_mem_split {sep c : Char} {s piece : String} (hpiece : piece ∈ split sep s)
    (hc : c ∈ piece.toList) : c ∈ s.toList := by
  obtain ⟨cs, hcs, rfl⟩ := List.mem_map.mp hpiece
  rw [String.toList_ofList] at hc
  exact mem_of_mem_pieces hcs hc

end JoinPlan.Text
