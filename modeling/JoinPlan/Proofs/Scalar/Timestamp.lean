import JoinPlan.Proofs.Filter.Predicate
import JoinPlan.Proofs.Scalar.Calendar
import JoinPlan.Proofs.Text.Digits

/-!
# The text of an instant

A timestamp is kept as a text, and texts are what filters and sorting compare. The text of an
instant is its date and time in UTC, field behind field from the year down to the millisecond,
and all but the year have a width. This file supplies when such texts can be read back and when
they are in the order of time.

> `text_lt_iff`: the years decide as texts, and in one year the milliseconds decide.

What is read has at most one second more than its minute (`IsClock`), which is all that the order
of the later fields rests on. In the years of four digits a text is read as the instant that it
was written for (`ofDateTime?_text`) and the order is that of time (`text_lt_iff_tick_lt`); other
years have a sign, which is not read and which comes before the digits
(`timestamp_text_canonical_iff`).
-/

namespace JoinPlan

namespace Timestamp

/-! ## Instants -/

/-- An instant has at most one second more than its minute, which is a leap second. -/
structure IsClock (t : Timestamp) : Prop where
  nanos_lt : t.nanos < 2 * nanosPerSecond
  leap : nanosPerSecond ≤ t.nanos → t.seconds % 60 = 59

/-- Earlier in time. -/
def IsBefore (t u : Timestamp) : Prop :=
  t.seconds < u.seconds ∨ t.seconds = u.seconds ∧ t.nanos < u.nanos

instance (t u : Timestamp) : Decidable (t.IsBefore u) :=
  inferInstanceAs (Decidable (_ ∨ _))

/-- The place of the instant's millisecond among all, where each second has room for a leap
second behind it. -/
def tick (t : Timestamp) : Int := t.seconds * 2000 + (t.nanos / nanosPerMilli : Nat)

/-- The instant without what is below its millisecond. -/
def cut (t : Timestamp) : Timestamp := ⟨t.seconds, t.nanos / nanosPerMilli * nanosPerMilli⟩

/-- The year of the instant in UTC. -/
def year (t : Timestamp) : Int := (Date.ofDays (t.seconds / 86400)).year

/-- The year is written with four digits. -/
def HasPlainYear (t : Timestamp) : Prop := 0 ≤ t.year ∧ t.year ≤ 9999

instance (t : Timestamp) : Decidable t.HasPlainYear := inferInstanceAs (Decidable (_ ∧ _))

variable {t u : Timestamp}

theorem tick_le_tick (ht : t.IsClock) (hu : u.IsClock) (h : ¬u.IsBefore t) : t.tick ≤ u.tick := by
  have ht := ht.nanos_lt
  have hu := hu.nanos_lt
  unfold IsBefore at h
  unfold tick nanosPerMilli
  unfold nanosPerSecond at ht hu
  omega

/-! ## The fields of a text -/

/-- The hour, the minute, the second and the millisecond, as they are written. -/
def clockText (t : Timestamp) : List Char :=
  let time := (t.seconds % 86400).toNat
  Text.padded 2 (time / 3600) ++ ':' :: (Text.padded 2 (time / 60 % 60) ++
    ':' :: (Text.padded 2 (time % 60 + t.nanos / nanosPerSecond) ++
      '.' :: (Text.padded 3 (t.nanos % nanosPerSecond / nanosPerMilli) ++ ['Z'])))

/-- A month, a day and the clock, as they are written. -/
def tailText (t : Timestamp) : List Char :=
  let date := Date.ofDays (t.seconds / 86400)
  Text.padded 2 date.month ++ '-' :: (Text.padded 2 date.day ++ 'T' :: t.clockText)

theorem toList_text (t : Timestamp) : t.text.toList = yearText t.year ++ '-' :: t.tailText := by
  simp [text, tailText, clockText, year]

/-- Hours and minutes compare as minutes. -/
theorem minutes_lt_iff {m n : Nat} {p : Prop} :
    (m / 60 < n / 60 ∨ m / 60 = n / 60 ∧ (m % 60 < n % 60 ∨ m % 60 = n % 60 ∧ p)) ↔
      m < n ∨ m = n ∧ p := by
  by_cases hp : p
  · simp only [hp, and_true]
    omega
  · simp only [hp, and_false, or_false]
    omega

/-- Minutes, seconds and milliseconds compare as milliseconds, where a leap second comes after
the last second of its minute. -/
theorem millis_lt_iff {time time' leap leap' millis millis' : Nat}
    (hleap : leap = 0 ∨ leap = 1 ∧ time % 60 = 59)
    (hleap' : leap' = 0 ∨ leap' = 1 ∧ time' % 60 = 59)
    (hmillis : millis < 1000) (hmillis' : millis' < 1000) :
    (time / 60 < time' / 60 ∨ time / 60 = time' / 60 ∧
      (time % 60 + leap < time' % 60 + leap' ∨
        time % 60 + leap = time' % 60 + leap' ∧ millis < millis')) ↔
      time * 2000 + (leap * 1000 + millis) < time' * 2000 + (leap' * 1000 + millis') := by
  omega

/-- The second of an instant, its leap second and its milliseconds. -/
theorem IsClock.exists_split (ht : t.IsClock) : ∃ time leap millis : Nat,
    (t.seconds % 86400).toNat = time ∧ t.nanos / nanosPerSecond = leap ∧
      t.nanos % nanosPerSecond / nanosPerMilli = millis ∧ time < 86400 ∧
      (leap = 0 ∨ leap = 1 ∧ time % 60 = 59) ∧ millis < 1000 ∧
      t.tick = t.seconds / 86400 * 172800000 + (time * 2000 + (leap * 1000 + millis) : Nat) := by
  have hnanos := ht.nanos_lt
  have hleap := ht.leap
  unfold tick nanosPerMilli
  unfold nanosPerSecond at hnanos hleap ⊢
  refine ⟨_, _, _, rfl, rfl, rfl, ?_⟩
  omega

theorem clockText_lt_iff (ht : t.IsClock) (hu : u.IsClock)
    (hday : t.seconds / 86400 = u.seconds / 86400) :
    t.clockText < u.clockText ↔ t.tick < u.tick := by
  obtain ⟨time, leap, millis, htime, hleap, hmillis, hlt, hclock, hmillis_lt, htick⟩ :=
    ht.exists_split
  obtain ⟨time', leap', millis', htime', hleap', hmillis', hlt', hclock', hmillis_lt', htick'⟩ :=
    hu.exists_split
  have hsecond : time % 60 + leap < 10 ^ 2 := by omega
  have hsecond' : time' % 60 + leap' < 10 ^ 2 := by omega
  unfold clockText
  rw [htime, hleap, hmillis, htime', hleap', hmillis',
    Text.padded_mark_lt_iff (by decide) (by omega) (by omega),
    Text.padded_mark_lt_iff (by decide) (by omega) (by omega),
    Text.padded_mark_lt_iff (by decide) hsecond hsecond',
    Text.padded_append_lt_iff (by decide) (by omega) (by omega),
    ← Nat.div_div_eq_div_mul time 60 60, ← Nat.div_div_eq_div_mul time' 60 60, minutes_lt_iff]
  simp only [List.lt_irrefl, and_false, or_false]
  rw [millis_lt_iff hclock hclock' hmillis_lt hmillis_lt', htick, htick', hday]
  omega

/-- An instant on an earlier day has an earlier millisecond. -/
theorem tick_lt_of_day_lt (ht : t.IsClock) (hu : u.IsClock)
    (hday : t.seconds / 86400 < u.seconds / 86400) : t.tick < u.tick := by
  obtain ⟨time, leap, millis, -, -, -, hlt, hclock, hmillis_lt, htick⟩ := ht.exists_split
  obtain ⟨time', leap', millis', -, -, -, hlt', hclock', hmillis_lt', htick'⟩ := hu.exists_split
  rw [htick, htick']
  omega

/-- In one year, the month, the day and the clock are in the order of the instants. -/
theorem tailText_lt_iff (ht : t.IsClock) (hu : u.IsClock) (hyear : t.year = u.year) :
    t.tailText < u.tailText ↔ t.tick < u.tick := by
  obtain ⟨hmonth, hday⟩ := Date.le_of_isValid (Date.isValid_ofDays (t.seconds / 86400))
  obtain ⟨hmonth', hday'⟩ := Date.le_of_isValid (Date.isValid_ofDays (u.seconds / 86400))
  unfold tailText
  dsimp only
  rw [Text.padded_mark_lt_iff (by decide) (by omega) (by omega),
    Text.padded_mark_lt_iff (by decide) (by omega) (by omega)]
  unfold year at hyear
  rcases Int.lt_trichotomy (t.seconds / 86400) (u.seconds / 86400) with hlt | heq | hgt
  · have hbefore := Date.ofDays_before hlt
    have htick := tick_lt_of_day_lt ht hu hlt
    unfold Date.Before at hbefore
    refine iff_of_true ?_ htick
    omega
  · rw [heq, ← clockText_lt_iff ht hu heq]
    simp only [Nat.lt_irrefl, false_or, true_and]
  · have hbefore := Date.ofDays_before hgt
    have htick := tick_lt_of_day_lt hu ht hgt
    unfold Date.Before at hbefore
    refine iff_of_false ?_ (Int.lt_asymm htick)
    omega

/-! ## Years -/

/-- A year is written as digits behind one character, a digit or a sign. -/
theorem exists_yearText_eq (year : Int) :
    ∃ c digits, yearText year = c :: digits ∧ ∀ d ∈ digits, d.isDigit := by
  unfold yearText
  split
  · obtain ⟨c, digits, h⟩ := List.exists_cons_of_ne_nil (Text.padded_ne_nil 4 year.toNat)
    refine ⟨c, digits, h, fun d hd => Text.isDigit_of_mem_padded (h ▸ List.mem_cons_of_mem c hd)⟩
  · exact ⟨_, _, rfl, fun d hd => Text.isDigit_of_mem_padded hd⟩

/-- A year is read back as an integer. -/
theorem integer?_yearText (year : Int) : Text.integer? (yearText year) = some year := by
  unfold yearText
  split
  · rw [Text.integer?_eq, Text.takeSign_padded, Text.natural?_padded, Option.map_some]
    exact congrArg some (Int.toNat_of_nonneg (by omega))
  · split
    · rw [Text.integer?_eq, Text.takeSign, Text.natural?_padded, Option.map_some]
      exact congrArg some (show -(year.natAbs : Int) = year by omega)
    · rw [Text.integer?_eq, Text.takeSign, Text.natural?_padded, Option.map_some]
      exact congrArg some (show (year.natAbs : Int) = year by omega)

theorem yearText_inj {year year' : Int} : yearText year = yearText year' ↔ year = year' := by
  refine ⟨fun h => ?_, fun h => h ▸ rfl⟩
  have hread := integer?_yearText year
  rw [h, integer?_yearText] at hread
  exact (Option.some.inj hread).symm

/-- Years of four digits are in the order of their texts. -/
theorem yearText_lt_iff {year year' : Int} (h : 0 ≤ year ∧ year ≤ 9999)
    (h' : 0 ≤ year' ∧ year' ≤ 9999) : yearText year < yearText year' ↔ year < year' := by
  unfold yearText
  rw [if_pos h, if_pos h', ← List.append_nil (Text.padded 4 year.toNat),
    ← List.append_nil (Text.padded 4 year'.toNat),
    Text.padded_append_lt_iff (by decide) (by omega) (by omega)]
  simp only [List.lt_irrefl, and_false, or_false]
  omega

/-- Years after `9999` are written with a plus, which comes before all that other years begin
with. -/
theorem yearText_lt_of_le {year year' : Int} (h : year ≤ 9999) (h' : 9999 < year') :
    yearText year' < yearText year := by
  have hlong : yearText year' = '+' :: Text.padded 4 year'.natAbs := by
    rw [yearText, if_neg (by omega), if_neg (by omega)]
  obtain ⟨c, digits, hyear, hplus⟩ : ∃ c digits, yearText year = c :: digits ∧ '+' < c := by
    unfold yearText
    split
    · obtain ⟨c, digits, hpadded⟩ := List.exists_cons_of_ne_nil (Text.padded_ne_nil 4 year.toNat)
      have hdigit : c.isDigit := Text.isDigit_of_mem_padded (hpadded ▸ List.mem_cons_self)
      exact ⟨c, digits, hpadded, Text.lt_of_lt_of_isDigit (by decide) hdigit⟩
    · rw [if_pos (by omega)]
      exact ⟨'-', _, rfl, by decide⟩
  rw [hlong, hyear]
  exact List.cons_lt_cons_iff.mpr (.inl hplus)

/-- An instant in an earlier year has an earlier millisecond. -/
theorem tick_lt_of_year_lt (ht : t.IsClock) (hu : u.IsClock) (hyear : t.year < u.year) :
    t.tick < u.tick := by
  refine tick_lt_of_day_lt ht hu (Int.not_le.mp fun hle => ?_)
  unfold year at hyear
  rcases Int.lt_or_eq_of_le hle with hlt | heq
  · have hbefore := Date.ofDays_before hlt
    unfold Date.Before at hbefore
    omega
  · rw [heq] at hyear
    exact Int.lt_irrefl _ hyear

/-! ## The order of texts -/

/-- The years decide as texts, and in one year the milliseconds decide. -/
theorem text_lt_iff (ht : t.IsClock) (hu : u.IsClock) :
    t.text < u.text ↔
      yearText t.year < yearText u.year ∨ t.year = u.year ∧ t.tick < u.tick := by
  obtain ⟨c, digits, hyear, hdigits⟩ := exists_yearText_eq t.year
  obtain ⟨c', digits', hyear', hdigits'⟩ := exists_yearText_eq u.year
  rw [String.lt_iff, toList_text, toList_text, hyear, hyear',
    Text.cons_digits_append_lt_iff (by decide) hdigits hdigits', ← hyear, ← hyear', yearText_inj]
  exact or_congr_right (and_congr_right fun heq => tailText_lt_iff ht hu heq)

/-- In years of four digits, the texts are in the order of the milliseconds. -/
theorem text_lt_iff_tick_lt (ht : t.IsClock) (hu : u.IsClock) (hyear : t.HasPlainYear)
    (hyear' : u.HasPlainYear) : t.text < u.text ↔ t.tick < u.tick := by
  rw [text_lt_iff ht hu, yearText_lt_iff hyear hyear']
  constructor
  · rintro (hlt | ⟨-, hlt⟩)
    · exact tick_lt_of_year_lt ht hu hlt
    · exact hlt
  · intro hlt
    rcases Int.lt_trichotomy t.year u.year with hyears | heq | hyears
    · exact .inl hyears
    · exact .inr ⟨heq, hlt⟩
    · exact absurd (tick_lt_of_year_lt hu ht hyears) (Int.lt_asymm hlt)

/-! ## Reading a text back -/

theorem readFixed_padded_append {width n : Nat} (hwidth : 0 < width) (h : n < 10 ^ width)
    (rest : List Char) : readFixed width (Text.padded width n ++ rest) = some (n, rest) := by
  have hlength := Text.length_padded hwidth h
  unfold readFixed
  rw [List.take_left' hlength, List.drop_left' hlength, if_pos hlength, Text.natural?_padded]
  rfl

theorem readFixed_yearText {year : Int} (h : 0 ≤ year ∧ year ≤ 9999) (rest : List Char) :
    readFixed 4 (yearText year ++ rest) = some (year.toNat, rest) := by
  rw [yearText, if_pos h]
  exact readFixed_padded_append (by decide) (by omega) rest

theorem expect_cons (c : Char) (rest : List Char) : expect [c] (c :: rest) = some rest := by
  simp [expect]

theorem readNanos_padded {millis : Nat} (h : millis < 1000) :
    readNanos ('.' :: (Text.padded 3 millis ++ ['Z'])) = some (millis * nanosPerMilli, ['Z']) := by
  have hdigits : ∀ c ∈ Text.padded 3 millis, c.isDigit := fun _ => Text.isDigit_of_mem_padded
  have htake : (Text.padded 3 millis ++ ['Z']).takeWhile Char.isDigit = Text.padded 3 millis := by
    rw [List.takeWhile_append_of_pos hdigits]
    exact List.append_nil _
  have hdrop : (Text.padded 3 millis ++ ['Z']).dropWhile Char.isDigit = ['Z'] := by
    rw [List.dropWhile_append_of_pos hdigits]
    rfl
  have hlength : (Text.padded 3 millis).length = 3 := Text.length_padded (by decide) h
  have hkept : (Text.padded 3 millis).take 9 = Text.padded 3 millis :=
    List.take_of_length_le (by omega)
  rw [readNanos, htake, hdrop]
  split
  · next hnil => exact absurd hnil (Text.padded_ne_nil 3 millis)
  · rw [hkept]
    dsimp only
    rw [Text.ofDigitChars_padded, hlength]
    rfl

/-- What is written in a year of four digits is read as the instant, cut to the millisecond. -/
theorem ofDateTime?_text (ht : t.IsClock) (hyear : t.HasPlainYear) :
    ofDateTime? t.text = some t.cut := by
  obtain ⟨time, leap, millis, htime, hleap, hmillis, hlt, hclock, hmillis_lt, -⟩ :=
    ht.exists_split
  have hvalid := Date.isValid_ofDays (t.seconds / 86400)
  have hmonth : (Date.ofDays (t.seconds / 86400)).month < 10 ^ 2 := by
    have := (Date.le_of_isValid hvalid).1
    omega
  have hday : (Date.ofDays (t.seconds / 86400)).day < 10 ^ 2 := by
    have := (Date.le_of_isValid hvalid).2
    omega
  have hhour : (t.seconds % 86400).toNat / 3600 < 10 ^ 2 := by omega
  have hminute : (t.seconds % 86400).toNat / 60 % 60 < 10 ^ 2 := by omega
  have hsecond : (t.seconds % 86400).toNat % 60 + t.nanos / nanosPerSecond < 10 ^ 2 := by omega
  have htwo : 0 < 2 := by decide
  unfold ofDateTime?
  rw [toList_text]
  -- The fields and their marks are read one behind the other, as they stand in the text.
  refine Option.bind_eq_some_iff.mpr ⟨_, readFixed_yearText hyear _, ?_⟩
  refine Option.bind_eq_some_iff.mpr ⟨_, expect_cons '-' _, ?_⟩
  refine Option.bind_eq_some_iff.mpr ⟨_, readFixed_padded_append htwo hmonth _, ?_⟩
  refine Option.bind_eq_some_iff.mpr ⟨_, expect_cons '-' _, ?_⟩
  refine Option.bind_eq_some_iff.mpr ⟨_, readFixed_padded_append htwo hday _, ?_⟩
  refine Option.bind_eq_some_iff.mpr ⟨_, rfl, ?_⟩
  refine Option.bind_eq_some_iff.mpr ⟨_, readFixed_padded_append htwo hhour _, ?_⟩
  refine Option.bind_eq_some_iff.mpr ⟨_, expect_cons ':' _, ?_⟩
  refine Option.bind_eq_some_iff.mpr ⟨_, readFixed_padded_append htwo hminute _, ?_⟩
  refine Option.bind_eq_some_iff.mpr ⟨_, expect_cons ':' _, ?_⟩
  refine Option.bind_eq_some_iff.mpr ⟨_, readFixed_padded_append htwo hsecond _, ?_⟩
  refine Option.bind_eq_some_iff.mpr ⟨_, readNanos_padded (hmillis ▸ hmillis_lt), ?_⟩
  refine Option.bind_eq_some_iff.mpr ⟨_, rfl, ?_⟩
  have hdate : (⟨t.year.toNat, (Date.ofDays (t.seconds / 86400)).month,
      (Date.ofDays (t.seconds / 86400)).day⟩ : Date) = Date.ofDays (t.seconds / 86400) := by
    rw [Int.toNat_of_nonneg hyear.1]
    rfl
  -- The second `60` is read as the leap second that it was written for.
  have hsixty : (if time % 60 + leap = 60 then 1 else 0) = leap := by
    split <;> omega
  dsimp only
  rw [hdate, Date.toDays_ofDays, htime, hleap, hmillis,
    if_pos ⟨hvalid, by omega, by omega, by omega⟩, hsixty]
  show some _ = some _
  unfold cut
  simp only [Option.some.injEq, mk.injEq]
  unfold nanosPerMilli
  unfold nanosPerSecond nanosPerMilli at *
  omega

/-- What is cut off is not written. -/
theorem text_cut (t : Timestamp) : t.cut.text = t.text := by
  have hsecond : t.nanos / nanosPerMilli * nanosPerMilli / nanosPerSecond =
      t.nanos / nanosPerSecond := by
    unfold nanosPerMilli nanosPerSecond
    omega
  have hmillis : t.nanos / nanosPerMilli * nanosPerMilli % nanosPerSecond / nanosPerMilli =
      t.nanos % nanosPerSecond / nanosPerMilli := by
    unfold nanosPerMilli nanosPerSecond
    omega
  unfold text cut
  dsimp only
  rw [hsecond, hmillis]

theorem exists_sign_of_not_plain (h : ¬t.HasPlainYear) :
    ∃ sign cs, t.text.toList = sign :: cs ∧ (sign = '-' ∨ sign = '+') ∧ '-' ∈ cs := by
  rw [toList_text, yearText, if_neg (show ¬(0 ≤ t.year ∧ t.year ≤ 9999) from h)]
  refine ⟨_, _, rfl, ?_, List.mem_append_right _ List.mem_cons_self⟩
  split
  · exact .inl rfl
  · exact .inr rfl

/-- Outside the years of four digits, what is written is not read. -/
theorem ofDateTime?_text_of_not_plain (h : ¬t.HasPlainYear) : ofDateTime? t.text = none := by
  obtain ⟨sign, cs, htext, hsign, -⟩ := exists_sign_of_not_plain h
  have hdigit : ¬sign.isDigit := by
    rcases hsign with rfl | rfl <;> decide
  have hyear : readFixed 4 t.text.toList = none := by
    unfold readFixed
    rw [htext, List.take_succ_cons]
    dsimp only
    rw [Text.natural?_eq_none List.mem_cons_self hdigit]
    split <;> rfl
  unfold ofDateTime?
  rw [hyear]
  rfl

theorem integer?_text_of_not_plain (h : ¬t.HasPlainYear) : Text.integer? t.text.toList = none := by
  obtain ⟨sign, cs, htext, hsign, hdash⟩ := exists_sign_of_not_plain h
  have hrest : (Text.takeSign (sign :: cs)).2 = cs := by
    rcases hsign with rfl | rfl <;> rfl
  rw [htext, Text.integer?_eq, hrest, Text.natural?_eq_none hdash (by decide)]
  rfl

/-! ## What is read -/

/-- A fraction is below a second. -/
theorem fraction_lt {digits : List Char} (h : ∀ c ∈ digits, c.isDigit)
    (hlength : digits.length ≤ 9) :
    Nat.ofDigitChars 10 digits 0 * Nat.pow 10 (9 - digits.length) < nanosPerSecond :=
  calc Nat.ofDigitChars 10 digits 0 * 10 ^ (9 - digits.length)
      < 10 ^ digits.length * 10 ^ (9 - digits.length) :=
        Nat.mul_lt_mul_of_pos_right (Text.ofDigitChars_lt h) (Nat.pow_pos (by decide))
    _ = 10 ^ 9 := by rw [← Nat.pow_add, Nat.add_sub_cancel' hlength]

theorem readNanos_lt {cs rest : List Char} {nanos : Nat} (h : readNanos cs = some (nanos, rest)) :
    nanos < nanosPerSecond := by
  unfold readNanos at h
  split at h
  · next after =>
    split at h
    · cases h
    · obtain ⟨rfl, -⟩ := Prod.mk.inj (Option.some.inj h)
      refine fraction_lt (fun c hc => ?_) (List.length_take_le ..)
      exact List.all_eq_true.mp List.all_takeWhile c (List.mem_of_mem_take hc)
  · obtain ⟨rfl, -⟩ := Prod.mk.inj (Option.some.inj h)
    decide

theorem isClock_of_ofDateTime? {text : String} (h : ofDateTime? text = some t) : t.IsClock := by
  unfold ofDateTime? at h
  obtain ⟨⟨year, cs⟩, -, h⟩ := Option.bind_eq_some_iff.mp h
  obtain ⟨cs, -, h⟩ := Option.bind_eq_some_iff.mp h
  obtain ⟨⟨month, cs⟩, -, h⟩ := Option.bind_eq_some_iff.mp h
  obtain ⟨cs, -, h⟩ := Option.bind_eq_some_iff.mp h
  obtain ⟨⟨day, cs⟩, -, h⟩ := Option.bind_eq_some_iff.mp h
  obtain ⟨cs, -, h⟩ := Option.bind_eq_some_iff.mp h
  obtain ⟨⟨hour, cs⟩, -, h⟩ := Option.bind_eq_some_iff.mp h
  obtain ⟨cs, -, h⟩ := Option.bind_eq_some_iff.mp h
  obtain ⟨⟨minute, cs⟩, -, h⟩ := Option.bind_eq_some_iff.mp h
  obtain ⟨cs, -, h⟩ := Option.bind_eq_some_iff.mp h
  obtain ⟨⟨second, cs⟩, -, h⟩ := Option.bind_eq_some_iff.mp h
  obtain ⟨⟨nanos, cs⟩, hnanos, h⟩ := Option.bind_eq_some_iff.mp h
  obtain ⟨offset, -, h⟩ := Option.bind_eq_some_iff.mp h
  have hnanos := readNanos_lt hnanos
  dsimp only at h
  split at h
  · next hfields =>
    obtain rfl := Option.some.inj h
    obtain ⟨-, -, -, hsecond⟩ := hfields
    unfold nanosPerSecond at hnanos
    -- A leap second is the last of its minute, and an offset has no seconds.
    by_cases hleap : second = 60
    · rw [if_pos hleap, hleap]
      constructor <;> dsimp only <;> unfold nanosPerSecond <;> omega
    · rw [if_neg hleap]
      constructor <;> dsimp only <;> unfold nanosPerSecond <;> omega
  · cases h

theorem isClock_of_ofMillis? {millis : Int} (h : ofMillis? millis = some t) : t.IsClock := by
  unfold ofMillis? at h
  dsimp only at h
  split at h
  · obtain rfl := Option.some.inj h
    constructor <;> dsimp only <;> unfold nanosPerMilli nanosPerSecond <;> omega
  · cases h

end Timestamp

namespace ScalarType

open Timestamp

variable {t u : Timestamp} {raw : String}

theorem isClock_of_instant? (h : instant? raw = some t) : t.IsClock := by
  unfold instant? at h
  split at h
  · next hread =>
    obtain rfl := Option.some.inj h
    exact isClock_of_ofDateTime? hread
  · obtain ⟨millis, -, h⟩ := Option.bind_eq_some_iff.mp h
    split at h
    · exact isClock_of_ofMillis? h
    · cases h

theorem cast?_timestamp_of_instant? (h : instant? raw = some t) :
    ScalarType.timestamp.cast? raw = some (.string t.text) := by
  unfold cast?
  rw [h]
  rfl

/-- The text of an instant stands for itself in a year of four digits, and for nothing in
another. -/
theorem cast?_timestamp_text (ht : t.IsClock) : ScalarType.timestamp.cast? t.text =
    if t.HasPlainYear then some (.string t.text) else none := by
  by_cases hyear : t.HasPlainYear
  · have hread : instant? t.text = some t.cut := by
      unfold instant?
      rw [ofDateTime?_text ht hyear]
    rw [if_pos hyear, cast?_timestamp_of_instant? hread, text_cut]
  · have hread : instant? t.text = none := by
      unfold instant?
      rw [ofDateTime?_text_of_not_plain hyear, integer?_text_of_not_plain hyear]
      rfl
    unfold cast?
    rw [if_neg hyear, hread]
    rfl

/-- Of two instants the one not earlier has a text not before the other's, unless its year is
written with one. -/
theorem text_le_text_iff (ht : t.IsClock) (hu : u.IsClock) (h : ¬u.IsBefore t) :
    t.text ≤ u.text ↔ ¬yearText u.year < yearText t.year := by
  have hticks := tick_le_tick ht hu h
  rw [← String.not_lt, text_lt_iff hu ht]
  refine not_congr ⟨?_, .inl⟩
  rintro (hyears | ⟨-, hlt⟩)
  · exact hyears
  · exact absurd hlt (Int.not_lt.mpr hticks)

end ScalarType

open Timestamp in
/-- When the texts of instants are canonical and in order. What a text stands for, a date and
time or milliseconds, is cast to the text of its instant. That text is cast to itself exactly in
the years of four digits, and is refused in others. For filters and for sorting, the text of an
instant is at most that of one not earlier exactly when their years are so as texts. In the
years of four digits all comparisons are those of the milliseconds, which are in the order of
time; an instant after them has a text before all of theirs. -/
theorem timestamp_text_canonical_iff [PatternLimit] (raw₁ raw₂ : String) (t₁ t₂ : Timestamp)
    (h₁ : ScalarType.instant? raw₁ = some t₁) (h₂ : ScalarType.instant? raw₂ = some t₂) :
    ScalarType.timestamp.cast? raw₁ = some (.string t₁.text) ∧
      ScalarType.timestamp.cast? raw₂ = some (.string t₂.text) ∧
      ScalarType.timestamp.cast? t₁.text =
        (if t₁.HasPlainYear then some (.string t₁.text) else none) ∧
      (¬t₂.IsBefore t₁ →
        ((Predicate.compare .lessOrEqual (.string t₂.text)).holds (.string t₁.text) = true ↔
          ¬yearText t₂.year < yearText t₁.year) ∧
        (compareFound (some (.string t₁.text)) (some (.string t₂.text)) ≠ .gt ↔
          ¬yearText t₂.year < yearText t₁.year)) ∧
      (t₁.HasPlainYear ∧ t₂.HasPlainYear →
        (Value.string t₁.text).ComparesAs (.string t₂.text) t₁.tick t₂.tick ∧
        (¬t₂.IsBefore t₁ → t₁.tick ≤ t₂.tick)) ∧
      (t₁.year ≤ 9999 ∧ 9999 < t₂.year → t₂.text < t₁.text) := by
  have hclock₁ := ScalarType.isClock_of_instant? h₁
  have hclock₂ := ScalarType.isClock_of_instant? h₂
  refine ⟨ScalarType.cast?_timestamp_of_instant? h₁, ScalarType.cast?_timestamp_of_instant? h₂,
    ScalarType.cast?_timestamp_text hclock₁, fun horder => ?_, ?_, ?_⟩
  · rw [← ScalarType.text_le_text_iff hclock₁ hclock₂ horder]
    exact Value.string_le_iff
  · rintro ⟨hyear₁, hyear₂⟩
    exact ⟨Value.comparesAs_string (text_lt_iff_tick_lt hclock₁ hclock₂ hyear₁ hyear₂)
      (text_lt_iff_tick_lt hclock₂ hclock₁ hyear₂ hyear₁), tick_le_tick hclock₁ hclock₂⟩
  · rintro ⟨hyear₁, hyear₂⟩
    exact (text_lt_iff hclock₂ hclock₁).mpr (.inl (yearText_lt_of_le hyear₁ hyear₂))

section

attribute [local instance] PatternLimit.unbounded

/-- A date and time with an offset and a number of milliseconds, an hour apart. -/
theorem timestamp_text_canonical_iff_hour :
    ∃ t₁ t₂, ScalarType.instant? "2024-03-01T10:00:00+02:00" = some t₁ ∧
      ScalarType.instant? "1709283600000" = some t₂ ∧
      ScalarType.timestamp.cast? t₁.text = some (.string t₁.text) ∧
      (Predicate.compare .lessOrEqual (.string t₂.text)).holds (.string t₁.text) = true := by
  have h₁ : ScalarType.instant? "2024-03-01T10:00:00+02:00" = some ⟨1709280000, 0⟩ := by
    decide +kernel
  have h₂ : ScalarType.instant? "1709283600000" = some ⟨1709283600, 0⟩ := by decide +kernel
  obtain ⟨-, -, hcast, -, hplain, -⟩ := timestamp_text_canonical_iff _ _ _ _ h₁ h₂
  have hyear₁ : (⟨1709280000, 0⟩ : Timestamp).HasPlainYear := by decide +kernel
  have hyear₂ : (⟨1709283600, 0⟩ : Timestamp).HasPlainYear := by decide +kernel
  obtain ⟨hcompares, hticks⟩ := hplain ⟨hyear₁, hyear₂⟩
  rw [if_pos hyear₁] at hcast
  exact ⟨_, _, h₁, h₂, hcast, hcompares.lessOrEqual.mpr (hticks (by decide))⟩

end

section

attribute [local instance] PatternLimit.unbounded

/-- The first instant of the year `10000` has a text that is not read again and that comes
before the text of the instant before it. -/
theorem not_timestamp_text_canonical :
    ∃ t₁ t₂, ScalarType.instant? "9999-12-31T23:59:59.999Z" = some t₁ ∧
      ScalarType.instant? "253402300800000" = some t₂ ∧ t₁.IsBefore t₂ ∧
      t₁.text = "9999-12-31T23:59:59.999Z" ∧ t₂.text = "+10000-01-01T00:00:00.000Z" ∧
      ScalarType.instant? t₂.text = none ∧
      (Predicate.compare .lessOrEqual (.string t₂.text)).holds (.string t₁.text) = false := by
  refine ⟨⟨253402300799, 999000000⟩, ⟨253402300800, 0⟩, ?_⟩
  decide +kernel

end

end JoinPlan
