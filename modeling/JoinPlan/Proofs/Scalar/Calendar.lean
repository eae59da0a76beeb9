import Mathlib.Tactic.IntervalCases
import Mathlib.Tactic.Linarith
import JoinPlan.Scalar.Timestamp

/-!
# Days and dates

The date of a day is found by dividing by the lengths of the cycles of the calendar, of which
all but the longest are too long by a day now and then. This file supplies that the division
comes out right, for every day before and after 1970.

> `Date.IsDayOf`: a number counts a day of the year that begins in March of a year; it is below
> 366, and the last one is there only where the next February has 29 days.

A day is one of one such year (`exists_ofDays_eq`). Its date is in the calendar and is that of
the day (`isValid_ofDays`, `toDays_ofDays`), and later days have later dates (`ofDays_before`).
-/

namespace JoinPlan.Timestamp

theorem isLeapYear_iff {year : Int} :
    isLeapYear year = true ↔ year % 4 = 0 ∧ (year % 100 ≠ 0 ∨ year % 400 = 0) := by
  simp [isLeapYear]

namespace Date

/-- The days from the first of March of the year `0` to the first of March of a year. -/
def daysBefore (year : Int) : Int := 365 * year + year / 4 - year / 100 + year / 400

/-- The number counts a day, from `0`, of the year from March to February that begins in this
year. -/
structure IsDayOf (year day : Int) : Prop where
  nonneg : 0 ≤ day
  le : day ≤ 365
  leap : day = 365 → isLeapYear (year + 1)

/-- The date a number of days after the first of March of a year. -/
def ofDayOf (year day : Int) : Date :=
  let month := (5 * day + 2) / 153
  let civilMonth := if month < 10 then month + 3 else month - 9
  ⟨year + (if civilMonth ≤ 2 then 1 else 0), civilMonth.toNat,
    (day - (153 * month + 2) / 5 + 1).toNat⟩

/-! ## The year of a day -/

/-- The calendar comes round in 400 years. -/
theorem daysBefore_add_cycles (year cycles : Int) :
    daysBefore (year + cycles * 400) = daysBefore year + cycles * 146097 := by
  unfold daysBefore
  omega

/-- In the first cycle, a century has a day less than its 25 fours of years. -/
theorem daysBefore_of_cycle {century four year : Int} (hcentury : 0 ≤ century ∧ century ≤ 3)
    (hfour : 0 ≤ four ∧ four ≤ 24) (hyear : 0 ≤ year ∧ year ≤ 3) :
    daysBefore (100 * century + 4 * four + year) =
      36524 * century + 1461 * four + 365 * year := by
  unfold daysBefore
  omega

/-- The last year of four ends with a leap day, at the end of a century only in the last one. -/
theorem isLeapYear_of_cycle {century four cycles : Int} (hfour : 0 ≤ four ∧ four ≤ 24)
    (hcentury : four = 24 → century = 3) :
    isLeapYear (100 * century + 4 * four + 3 + cycles * 400 + 1) = true := by
  rw [isLeapYear_iff]
  by_cases hlast : four = 24
  · have := hcentury hlast
    omega
  · omega

/-- A day of a cycle of 400 years, counted in centuries, in fours of years and in years, the
last of which takes the day that the division leaves over. -/
theorem exists_dayOfCycle {n : Int} (hlow : 0 ≤ n) (hhigh : n < 146097) :
    ∃ century four year day : Int, n = 36524 * century + 1461 * four + 365 * year + day ∧
      (0 ≤ century ∧ century ≤ 3) ∧ (0 ≤ four ∧ four ≤ 24) ∧ (0 ≤ year ∧ year ≤ 3) ∧
      (0 ≤ day ∧ day ≤ 365) ∧ (day = 365 → year = 3 ∧ (four = 24 → century = 3)) := by
  obtain ⟨century, hcentury⟩ : ∃ century, century = min (n / 36524) 3 := ⟨_, rfl⟩
  obtain ⟨four, hfour⟩ : ∃ four, four = (n - 36524 * century) / 1461 := ⟨_, rfl⟩
  obtain ⟨year, hyear⟩ : ∃ year, year = min ((n - 36524 * century - 1461 * four) / 365) 3 :=
    ⟨_, rfl⟩
  refine ⟨century, four, year, n - 36524 * century - 1461 * four - 365 * year, ?_⟩
  omega

/-- Taking off the days that the cycles have too many, the years of a cycle have 365 days. -/
theorem yearOfCycle_eq {n century four year day : Int}
    (hn : n = 36524 * century + 1461 * four + 365 * year + day)
    (hcentury : 0 ≤ century ∧ century ≤ 3) (hfour : 0 ≤ four ∧ four ≤ 24)
    (hyear : 0 ≤ year ∧ year ≤ 3) (hday : 0 ≤ day ∧ day ≤ 365)
    (hleap : day = 365 → year = 3 ∧ (four = 24 → century = 3)) :
    (n - n / 1460 + n / 36524 - n / 146096) / 365 = 100 * century + 4 * four + year := by
  -- The fours are one too many only in the last year of four, which is long enough to spare a day.
  obtain ⟨extra, hextra⟩ : ∃ extra, n / 1460 = 25 * century + four + extra :=
    ⟨n / 1460 - (25 * century + four), by omega⟩
  have hbounds : 0 ≤ extra ∧ extra ≤ 1 := by omega
  have hspare : 0 ≤ day - extra ∧ day - extra ≤ 364 := by omega
  have hcenturies : n / 36524 - n / 146096 = century := by
    by_cases hlast : n = 146096
    · omega
    · have hrest : 0 ≤ n - 36524 * century ∧ n - 36524 * century ≤ 36523 := by omega
      have hbelow : n / 36524 = century := by omega
      have hnone : n / 146096 = 0 := by omega
      omega
  have hyears : n - n / 1460 + n / 36524 - n / 146096 =
      day - extra + 365 * (100 * century + 4 * four + year) := by linarith
  rw [hyears, Int.add_mul_ediv_left _ _ (by decide),
    Int.ediv_eq_zero_of_lt hspare.1 (Int.lt_of_le_of_lt hspare.2 (by decide)), Int.zero_add]

/-- A day is one of a year that begins in March, and its date is found in that year. -/
theorem exists_ofDays_eq (days : Int) : ∃ year day, IsDayOf year day ∧
    days = daysBefore year + day - 719468 ∧ ofDays days = ofDayOf year day := by
  obtain ⟨cycles, hcycles⟩ : ∃ cycles, cycles = (days + 719468) / 146097 := ⟨_, rfl⟩
  obtain ⟨n, hn⟩ : ∃ n, n = days + 719468 - cycles * 146097 := ⟨_, rfl⟩
  obtain ⟨century, four, year, day, hsplit, hcentury, hfour, hyear, hday, hleap⟩ :=
    exists_dayOfCycle (n := n) (by omega) (by omega)
  have hbefore := daysBefore_of_cycle hcentury hfour hyear
  have hyearOfCycle := yearOfCycle_eq hsplit hcentury hfour hyear hday hleap
  obtain ⟨years, hyears⟩ : ∃ years, years = 100 * century + 4 * four + year := ⟨_, rfl⟩
  refine ⟨years + cycles * 400, day, ⟨hday.1, hday.2, fun hlast => ?_⟩, ?_, ?_⟩
  · obtain ⟨rfl, hlastCentury⟩ := hleap hlast
    rw [hyears]
    exact isLeapYear_of_cycle hfour hlastCentury
  · rw [daysBefore_add_cycles, hyears, hbefore]
    linarith
  · have hdayOfYear : n - (365 * years + years / 4 - years / 100) = day := by
      have hcycle : years / 400 = 0 := by clear hyearOfCycle; omega
      rw [← hyears, daysBefore, hcycle] at hbefore
      linarith
    unfold ofDays ofDayOf
    dsimp only
    rw [← hcycles, ← hn, hyearOfCycle, ← hyears, hdayOfYear]

/-! ## The date of a day -/

/-- The date of a day of the year: its month, counted from March as `0`, has begun, and the next
one has not. -/
theorem exists_ofDayOf_eq {year n : Int} (h : IsDayOf year n) : ∃ month day : Nat,
    (month : Int) = (5 * n + 2) / 153 ∧ n = (153 * month + 2) / 5 + day - 1 ∧ month ≤ 11 ∧
      (1 ≤ day ∧ day ≤ 31) ∧
      ofDayOf year n =
        if month < 10 then ⟨year, month + 3, day⟩ else ⟨year + 1, month - 9, day⟩ := by
  have hlow := h.nonneg
  have hhigh := h.le
  obtain ⟨month, hmonth⟩ : ∃ month : Nat, (month : Int) = (5 * n + 2) / 153 :=
    ⟨((5 * n + 2) / 153).toNat, by omega⟩
  obtain ⟨day, hday⟩ : ∃ day : Nat, (day : Int) = n - (153 * month + 2) / 5 + 1 :=
    ⟨(n - (153 * month + 2) / 5 + 1).toNat, by omega⟩
  refine ⟨month, day, hmonth, by omega, by omega, by omega, ?_⟩
  unfold ofDayOf
  dsimp only
  rw [← hmonth, ← hday]
  by_cases hyear : month < 10
  · have hcast : (month : Int) < 10 := by omega
    rw [if_pos hyear, if_pos hcast, if_neg (by omega)]
    simp only [mk.injEq]
    omega
  · have hcast : ¬(month : Int) < 10 := by omega
    rw [if_neg hyear, if_neg hcast, if_pos (by omega)]
    simp only [mk.injEq, true_and]
    omega

/-- The calendar has the date of a day of the year. -/
theorem isValid_ofDayOf {year n : Int} (h : IsDayOf year n) : (ofDayOf year n).isValid := by
  obtain ⟨month, day, hmonth, hn, hle, hday, hdate⟩ := exists_ofDayOf_eq h
  have hhigh := h.le
  rw [hdate, isValid, Bool.and_eq_true, decide_eq_true_iff, decide_eq_true_iff]
  refine ⟨by split <;> exact hday.1, ?_⟩
  by_cases hlast : month = 11
  · subst hlast
    show day ≤ if isLeapYear (year + 1) then 29 else 28
    by_cases hleap : isLeapYear (year + 1) = true
    · rw [if_pos hleap]
      omega
    · have hshort : n ≠ 365 := mt h.leap hleap
      rw [if_neg hleap]
      omega
  · have hbefore : month ≤ 10 := by omega
    clear hdate hle hlast
    interval_cases month <;> simp only [daysInMonth, Nat.reduceLT, if_true, if_false] <;> omega

theorem toDays_eq (date : Date) : date.toDays =
    daysBefore (if date.month ≤ 2 then date.year - 1 else date.year) +
      (153 * ((date.month + 9) % 12 : Nat) + 2) / 5 + date.day - 1 - 719468 := by
  unfold toDays
  dsimp only
  generalize (if date.month ≤ 2 then date.year - 1 else date.year) = year
  have hcycle := daysBefore_add_cycles (year - year / 400 * 400) (year / 400)
  have hfirst : (year - year / 400 * 400) / 400 = 0 := by omega
  rw [Int.sub_add_cancel] at hcycle
  rw [hcycle, daysBefore, hfirst]
  linarith

theorem toDays_ofDayOf {year n : Int} (h : IsDayOf year n) :
    (ofDayOf year n).toDays = daysBefore year + n - 719468 := by
  obtain ⟨month, day, -, hn, hle, hday, hdate⟩ := exists_ofDayOf_eq h
  rw [hdate, toDays_eq]
  by_cases hyear : month < 10
  · have hmonth : (month + 3 + 9) % 12 = month := by omega
    rw [if_pos hyear]
    dsimp only
    rw [if_neg (by omega), hmonth]
    omega
  · have hmonth : (month - 9 + 9) % 12 = month := by omega
    rw [if_neg hyear]
    dsimp only
    rw [if_pos (by omega), hmonth, Int.add_sub_cancel]
    omega

theorem isValid_ofDays (days : Int) : (ofDays days).isValid := by
  obtain ⟨year, n, h, -, hdate⟩ := exists_ofDays_eq days
  rw [hdate]
  exact isValid_ofDayOf h

/-- The date of a day is that of no other. -/
theorem toDays_ofDays (days : Int) : (ofDays days).toDays = days := by
  obtain ⟨year, n, h, hdays, hdate⟩ := exists_ofDays_eq days
  rw [hdate, toDays_ofDayOf h, ← hdays]

theorem le_of_isValid {date : Date} (h : date.isValid) : date.month ≤ 12 ∧ date.day ≤ 31 := by
  obtain ⟨hlow, hhigh⟩ := (Bool.and_eq_true _ _).mp h
  have hlow := of_decide_eq_true hlow
  have hhigh := of_decide_eq_true hhigh
  unfold daysInMonth at hhigh
  split at hhigh
  · split at hhigh <;> omega
  all_goals omega

/-! ## The order of dates -/

/-- A date comes before another: by its year, then by its month, then by its day. -/
def Before (a b : Date) : Prop :=
  a.year < b.year ∨
    a.year = b.year ∧ (a.month < b.month ∨ a.month = b.month ∧ a.day < b.day)

theorem daysBefore_mono {year year' : Int} (h : year ≤ year') :
    daysBefore year ≤ daysBefore year' := by
  unfold daysBefore
  omega

/-- The days of a year come before the next year. -/
theorem daysBefore_add_lt {year year' n : Int} (h : IsDayOf year n) (hyear : year < year') :
    daysBefore year + n < daysBefore year' := by
  have hnext : daysBefore year + n < daysBefore (year + 1) := by
    have hle := h.le
    have hleap := h.leap
    rw [isLeapYear_iff] at hleap
    unfold daysBefore
    omega
  exact Int.lt_of_lt_of_le hnext (daysBefore_mono hyear)

theorem ofDayOf_before_of_lt_year {year year' n n' : Int} (h : IsDayOf year n)
    (h' : IsDayOf year' n') (hyear : year < year') :
    (ofDayOf year n).Before (ofDayOf year' n') := by
  obtain ⟨month, day, -, -, hle, -, hdate⟩ := exists_ofDayOf_eq h
  obtain ⟨month', day', -, -, hle', -, hdate'⟩ := exists_ofDayOf_eq h'
  rw [hdate, hdate']
  unfold Before
  split <;> split <;> dsimp only <;> omega

theorem ofDayOf_before_of_lt {year n n' : Int} (h : IsDayOf year n) (h' : IsDayOf year n')
    (hlt : n < n') : (ofDayOf year n).Before (ofDayOf year n') := by
  obtain ⟨month, day, hmonth, hn, hle, -, hdate⟩ := exists_ofDayOf_eq h
  obtain ⟨month', day', hmonth', hn', hle', -, hdate'⟩ := exists_ofDayOf_eq h'
  have hmonths : month < month' ∨ month = month' ∧ day < day' := by
    have hle : month ≤ month' := by omega
    rcases Nat.lt_or_eq_of_le hle with hmonth | rfl
    · exact .inl hmonth
    · exact .inr ⟨rfl, by omega⟩
  clear hmonth hn hmonth' hn' h h'
  rw [hdate, hdate']
  unfold Before
  split <;> split <;> dsimp only <;> omega

/-- A later day has a later date. -/
theorem ofDays_before {days days' : Int} (hlt : days < days') :
    (ofDays days).Before (ofDays days') := by
  obtain ⟨year, n, h, hdays, hdate⟩ := exists_ofDays_eq days
  obtain ⟨year', n', h', hdays', hdate'⟩ := exists_ofDays_eq days'
  rw [hdate, hdate']
  rcases Int.lt_trichotomy year year' with hyear | rfl | hyear
  · exact ofDayOf_before_of_lt_year h h' hyear
  · exact ofDayOf_before_of_lt h h' (by omega)
  · have hbefore := daysBefore_add_lt h' hyear
    have := h.nonneg
    omega

end Date

end JoinPlan.Timestamp
