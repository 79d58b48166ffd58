import Mathlib.Tactic.IntervalCases

/-! The proleptic Gregorian calendar, day by day: the leap rule and the date that follows a
date. Years counted from March end with the leap day, so that the day of such a year alone
tells month and day, and a number of days is added by adding numbers. -/
namespace Gregorian

def IsLeap (year : Nat) : Prop := year % 4 = 0 ∧ (year % 100 ≠ 0 ∨ year % 400 = 0)

instance : DecidablePred IsLeap := fun year =>
  inferInstanceAs (Decidable (year % 4 = 0 ∧ (year % 100 ≠ 0 ∨ year % 400 = 0)))

def daysInMonth (year month : Nat) : Nat :=
  if month = 2 then if IsLeap year then 29 else 28
  else if month = 4 ∨ month = 6 ∨ month = 9 ∨ month = 11 then 30
  else 31

theorem daysInMonth_pos (year month : Nat) : 1 ≤ daysInMonth year month := by
  unfold daysInMonth
  split
  · split <;> decide
  · split <;> decide

@[ext]
structure Date where
  year : Nat
  month : Nat
  day : Nat
  monthInside : 1 ≤ month ∧ month ≤ 12
  dayInside : 1 ≤ day ∧ day ≤ daysInMonth year month

namespace Date

theorem day_before {date : Date} (more : date.day < daysInMonth date.year date.month) :
    1 ≤ date.day + 1 ∧ date.day + 1 ≤ daysInMonth date.year date.month :=
  ⟨Nat.succ_pos _, more⟩

theorem month_before {date : Date} (more : date.month < 12) :
    1 ≤ date.month + 1 ∧ date.month + 1 ≤ 12 :=
  ⟨Nat.succ_pos _, more⟩

theorem january_inside : 1 ≤ 1 ∧ 1 ≤ 12 := ⟨Nat.le_refl 1, by decide⟩

def next (date : Date) : Date :=
  if more : date.day < daysInMonth date.year date.month then
    { date with day := date.day + 1, dayInside := day_before more }
  else if later : date.month < 12 then
    { year := date.year, month := date.month + 1, day := 1, monthInside := month_before later,
      dayInside := ⟨Nat.le_refl 1, daysInMonth_pos _ _⟩ }
  else
    { year := date.year + 1, month := 1, day := 1, monthInside := january_inside,
      dayInside := ⟨Nat.le_refl 1, daysInMonth_pos _ _⟩ }

theorem next_within {date later : Date} (year : later.year = date.year)
    (month : later.month = date.month) (day : later.day = date.day + 1) : date.next = later := by
  have inside := later.dayInside.2
  rw [year, month, day] at inside
  rw [next, dif_pos (show date.day < daysInMonth date.year date.month from inside)]
  exact Date.ext year.symm month.symm day.symm

theorem next_month {date later : Date} (last : date.day = daysInMonth date.year date.month)
    (day : later.day = 1) (turn : later.year = date.year ∧ later.month = date.month + 1 ∨
      date.month = 12 ∧ later.year = date.year + 1 ∧ later.month = 1) : date.next = later := by
  rw [next, dif_neg (by omega)]
  rcases turn with ⟨year, month⟩ | ⟨december, year, month⟩
  · have more : date.month < 12 := by
      have inside := later.monthInside
      omega
    rw [dif_pos more]
    exact Date.ext year.symm month.symm day.symm
  · rw [dif_neg (by omega)]
    exact Date.ext year.symm month.symm day.symm

/-- The date a number of days later. -/
def after (date : Date) : Nat → Date
  | 0 => date
  | days + 1 => (date.after days).next

end Date

/-! ## Years from March -/

/-- Days from March of one year to March of the next. -/
def marchLength (year : Nat) : Nat := if IsLeap (year + 1) then 366 else 365

/-- Days from March of year 0. -/
def marchStart (year : Nat) : Nat := 365 * year + year / 4 + year / 400 - year / 100

theorem marchLength_cases (year : Nat) : marchLength year = 365 ∨ marchLength year = 366 := by
  unfold marchLength
  split
  · exact Or.inr rfl
  · exact Or.inl rfl

theorem marchLength_pos (year : Nat) : 0 < marchLength year := by
  rcases marchLength_cases year with length | length <;> omega

theorem marchStart_succ (year : Nat) :
    marchStart (year + 1) = marchStart year + marchLength year := by
  have below : year / 100 ≤ 365 * year := by omega
  have fourth : (year + 1) / 4 = year / 4 + if (year + 1) % 4 = 0 then 1 else 0 := by
    split <;> omega
  have century : (year + 1) / 100 = year / 100 + if (year + 1) % 100 = 0 then 1 else 0 := by
    split <;> omega
  have era : (year + 1) / 400 = year / 400 + if (year + 1) % 400 = 0 then 1 else 0 := by
    split <;> omega
  have centuryFourth : (year + 1) % 100 = 0 → (year + 1) % 4 = 0 := by omega
  have eraCentury : (year + 1) % 400 = 0 → (year + 1) % 100 = 0 := by omega
  unfold marchStart marchLength
  rw [fourth, century, era]
  clear fourth century era
  generalize year / 4 = fourths
  generalize year / 400 = eras
  generalize year / 100 = centuries at below ⊢
  by_cases byFour : (year + 1) % 4 = 0
  · by_cases byHundred : (year + 1) % 100 = 0
    · by_cases byEra : (year + 1) % 400 = 0
      · have leap : IsLeap (year + 1) := ⟨byFour, Or.inr byEra⟩
        rw [if_pos byFour, if_pos byHundred, if_pos byEra, if_pos leap]
        omega
      · have common : ¬ IsLeap (year + 1) := fun leap => leap.2.elim (absurd byHundred) byEra
        rw [if_pos byFour, if_pos byHundred, if_neg byEra, if_neg common]
        omega
    · have leap : IsLeap (year + 1) := ⟨byFour, Or.inl byHundred⟩
      rw [if_pos byFour, if_neg byHundred, if_neg (mt eraCentury byHundred), if_pos leap]
      omega
  · have common : ¬ IsLeap (year + 1) := fun leap => byFour leap.1
    have notHundred := mt centuryFourth byFour
    rw [if_neg byFour, if_neg notHundred, if_neg (mt eraCentury notHundred), if_neg common]
    omega

theorem marchStart_lt {first second : Nat} (order : first < second) :
    marchStart first + marchLength first ≤ marchStart second := by
  induction second with
  | zero => omega
  | succ second ih =>
    rw [marchStart_succ]
    rcases Nat.lt_succ_iff_lt_or_eq.mp order with earlier | rfl
    · have before := ih earlier
      omega
    · exact Nat.le_refl _

/-- A day of a year from March. -/
@[ext]
structure MarchDay where
  year : Nat
  day : Nat
  inside : day < marchLength year

namespace MarchDay

variable (d : MarchDay)

/-- Days since March of year 0. -/
def count : Nat := marchStart d.year + d.day

/-- Months since March. -/
def shift : Nat := (5 * d.day + 2) / 153

def civilYear : Nat := d.year + d.shift / 10
def civilMonth : Nat := d.shift + 3 - 12 * (d.shift / 10)
def civilDay : Nat := d.day + 1 - (153 * d.shift + 2) / 5

theorem day_lt : d.day < 366 := by
  have inside := d.inside
  have length := marchLength_cases d.year
  omega

theorem shift_lt : d.shift < 12 := by
  have inside := d.day_lt
  unfold shift
  omega

theorem month_inside : 1 ≤ d.civilMonth ∧ d.civilMonth ≤ 12 := by
  have small := d.shift_lt
  unfold civilMonth
  omega

/-- The length of a month before February is the gap to the start of the next. -/
theorem month_length (early : d.shift < 11) : daysInMonth d.civilYear d.civilMonth =
    (153 * (d.shift + 1) + 2) / 5 - (153 * d.shift + 2) / 5 := by
  unfold civilMonth
  generalize d.shift = m at early
  interval_cases m <;> simp [daysInMonth]

theorem february_length (last : d.shift = 11) :
    daysInMonth d.civilYear d.civilMonth = marchLength d.year - 337 := by
  unfold civilMonth civilYear marchLength daysInMonth
  rw [last]
  by_cases leap : IsLeap (d.year + 1)
  · simp [leap]
  · simp [leap]

theorem day_inside : 1 ≤ d.civilDay ∧ d.civilDay ≤ daysInMonth d.civilYear d.civilMonth := by
  have inside := d.inside
  have small := d.shift_lt
  have place : d.shift = (5 * d.day + 2) / 153 := rfl
  unfold civilDay
  by_cases early : d.shift < 11
  · rw [d.month_length early]
    omega
  · have last : d.shift = 11 := by omega
    rw [d.february_length last]
    omega

def toDate : Date where
  year := d.civilYear
  month := d.civilMonth
  day := d.civilDay
  monthInside := d.month_inside
  dayInside := d.day_inside

theorem count_injective {d e : MarchDay} (same : d.count = e.count) : d = e := by
  have inside := d.inside
  have inside' := e.inside
  unfold count at same
  rcases Nat.lt_trichotomy d.year e.year with before | year | after
  · have order := marchStart_lt before
    omega
  · rw [year] at same
    exact MarchDay.ext year (Nat.add_left_cancel same)
  · have order := marchStart_lt after
    omega

def succ : MarchDay :=
  if more : d.day + 1 < marchLength d.year then { year := d.year, day := d.day + 1, inside := more }
  else { year := d.year + 1, day := 0, inside := marchLength_pos _ }

theorem count_succ : d.succ.count = d.count + 1 := by
  have inside := d.inside
  unfold succ
  split
  · rfl
  · rw [count, count, marchStart_succ]
    change _ + 0 = _
    omega

theorem toDate_within {e : MarchDay} (year : e.year = d.year) (day : e.day = d.day + 1) :
    d.toDate.next = e.toDate := by
  have place : d.shift = (5 * d.day + 2) / 153 := rfl
  have placeNext : e.shift = (5 * e.day + 2) / 153 := rfl
  by_cases same : e.shift = d.shift
  · apply Date.next_within
    · simp only [toDate, civilYear, same, year]
    · simp only [toDate, civilMonth, same]
    · simp only [toDate, civilDay, same]
      omega
  · have turned : e.shift = d.shift + 1 := by omega
    have small := e.shift_lt
    apply Date.next_month
    · change d.civilDay = daysInMonth d.civilYear d.civilMonth
      rw [d.month_length (by omega), civilDay]
      omega
    · simp only [toDate, civilDay]
      omega
    · simp only [toDate, civilYear, civilMonth]
      omega

theorem toDate_turn {e : MarchDay} (year : e.year = d.year + 1) (first : e.day = 0)
    (last : d.day + 1 = marchLength d.year) : d.toDate.next = e.toDate := by
  have length := marchLength_cases d.year
  have february : d.shift = 11 := by
    unfold shift
    omega
  have march : e.shift = 0 := by rw [shift, first]
  apply Date.next_month
  · change d.civilDay = daysInMonth d.civilYear d.civilMonth
    rw [d.february_length february, civilDay, february]
    omega
  · simp only [toDate, civilDay, march, first]
  · refine Or.inl ⟨?_, ?_⟩
    · simp only [toDate, civilYear, march, february, year]
    · simp only [toDate, civilMonth, march, february]

theorem toDate_succ : d.toDate.next = d.succ.toDate := by
  unfold succ
  split
  · exact d.toDate_within rfl rfl
  · rename_i last
    have inside := d.inside
    exact d.toDate_turn rfl rfl (by omega)

theorem exists_after (days : Nat) :
    ∃ e : MarchDay, e.count = d.count + days ∧ d.toDate.after days = e.toDate := by
  induction days with
  | zero => exact ⟨d, rfl, rfl⟩
  | succ days ih =>
    obtain ⟨e, later, date⟩ := ih
    refine ⟨e.succ, by rw [e.count_succ, later, Nat.add_assoc], ?_⟩
    rw [Date.after, date, e.toDate_succ]

/-- Going on by days is adding to the count. -/
theorem toDate_after {e : MarchDay} (days : Nat) (later : e.count = d.count + days) :
    d.toDate.after days = e.toDate := by
  obtain ⟨e', count, date⟩ := d.exists_after days
  rw [date, count_injective (count.trans later.symm)]

end MarchDay

end Gregorian
