import Obstack.Lib.Gregorian

/-! common::localtime. Its date arithmetic counts years from March, 4800 years back, and takes
the century, the year in it and the month off the number of days one after the other. -/
namespace Obstack
open Gregorian

/-- The fields of struct tm that localtime sets. -/
structure Tm where
  tmSec : Int
  tmMin : Int
  tmHour : Int
  tmMday : Int
  tmMon : Int
  tmYear : Int
  deriving DecidableEq, Repr

/-- static_cast to a type of 32 bits. -/
def castInt (x : Int) : Int := (BitVec.ofInt 32 x).toInt

/-- The result of an int operation; none is an overflow. -/
def int (x : Int) : Option Int := if -2 ^ 31 ≤ x ∧ x < 2 ^ 31 then some x else none

def hoursInDay : Int := 24
def minutesInHour : Int := 60
def daysFromUnixTime : Int := 2472632
def daysFromYear : Int := 153
def magicUnkonwnFirst : Int := 146097
def magicUnkonwnSec : Int := 1461

/-- The statements from tmp_a on: tm_mday, tm_mon and tm_year. -/
def tmDate (tmMday : Int) : Option (Int × Int × Int) := do
  let tmpA ← int (tmMday + daysFromUnixTime)
  let tmpB := (← int ((← int (tmpA * 4)) + 3)).tdiv magicUnkonwnFirst
  let tmpC ← int (tmpA - (← int (tmpB * magicUnkonwnFirst)).tdiv 4)
  let tmpD := (← int ((← int (tmpC * 4)) + 3)).tdiv magicUnkonwnSec
  let tmpE ← int (tmpC - (← int (tmpD * magicUnkonwnSec)).tdiv 4)
  let tmpM := (← int ((← int (5 * tmpE)) + 2)).tdiv daysFromYear
  let tmMday ← int ((← int (tmpE + 1)) - (← int ((← int (daysFromYear * tmpM)) + 2)).tdiv 5)
  let tmMon ← int ((← int (tmpM + 2)) - (← int (tmpM.tdiv 10 * 12)))
  let tmYear ← int ((← int ((← int ((← int (tmpB * 100)) + tmpD)) - 6700)) + tmpM.tdiv 10)
  return (tmMday, tmMon, tmYear)

/-- timezone is __timezone, in seconds west; a null pointer is none, and so is an overflow. -/
def localtime (timezone : Int) (unixSec : Option Int) (result : Option Tm) : Option (Option Tm) :=
  let tzMinutes := castInt (timezone.tdiv 60)
  match result, unixSec with
  | some result, some unixSec =>
    if unixSec > 0 then do
      let tmSec := castInt (unixSec.tmod minutesInHour)
      let tmpI ← int (castInt (unixSec.tdiv minutesInHour) - tzMinutes)
      let tmMin := tmpI.tmod minutesInHour
      let tmpI := tmpI.tdiv minutesInHour
      let tmHour := tmpI.tmod hoursInDay
      let (tmMday, tmMon, tmYear) ← tmDate (tmpI.tdiv hoursInDay)
      return some { tmSec, tmMin, tmHour, tmMday, tmMon, tmYear }
    else some result
  | result, _ => some result

theorem int_some {x : Int} (low : -2 ^ 31 ≤ x) (high : x < 2 ^ 31) : int x = some x :=
  if_pos ⟨low, high⟩

theorem castInt_eq {x : Int} (low : -2 ^ 31 ≤ x) (high : x < 2 ^ 31) : castInt x = x := by
  rw [castInt, BitVec.toInt_ofInt]
  exact Int.bmod_eq_of_le (by omega) (by omega)

/-! ## The date -/

theorem int_bind {α : Type} {x v : Int} {f : Int → Option α} (value : x = v)
    (low : -20000000 ≤ v) (high : v ≤ 20000000) : (int x >>= f) = f v := by
  rw [value, int_some (by omega) (by omega)]
  rfl

/-! One lemma for each line of tmDate, with the sizes that keep its operations in range. -/

section Lines

variable {α : Type} {f : Int → Option α}

/-- What tmp_b and tmp_d divide. -/
theorem dividend_bind {x : Int} (low : 0 ≤ x) (high : x ≤ 4000000) :
    (do f (← int ((← int (x * 4)) + 3))) = f (x * 4 + 3) := by
  apply (int_bind rfl (by omega) (by omega)).trans
  exact int_bind rfl (by omega) (by omega)

/-- The rest that tmp_c and tmp_e are. -/
theorem rest_bind {x q m r : Int} (rest : x - q * m / 4 = r)
    (product : 0 ≤ q * m ∧ q * m ≤ 20000000) (low : 0 ≤ r) (high : r ≤ 4000000) :
    (do f (← int (x - (← int (q * m)).tdiv 4))) = f r := by
  have fourth : (q * m).tdiv 4 = q * m / 4 := Int.tdiv_eq_ediv_of_nonneg product.1
  apply (int_bind rfl (by omega) product.2).trans
  exact int_bind (by rw [fourth, rest]) (by omega) (by omega)

/-- What tmp_m divides. -/
theorem monthDividend_bind {e : Int} (low : 0 ≤ e) (high : e ≤ 365) :
    (do f (← int ((← int (5 * e)) + 2))) = f (5 * e + 2) := by
  apply (int_bind rfl (by omega) (by omega)).trans
  exact int_bind rfl (by omega) (by omega)

theorem tmMday_bind {e m : Int} (day : 0 ≤ e ∧ e ≤ 365) (month : 0 ≤ m ∧ m ≤ 12) :
    (do f (← int ((← int (e + 1)) - (← int ((← int (153 * m)) + 2)).tdiv 5))) =
      f (e + 1 - (153 * m + 2) / 5) := by
  have fifth : (153 * m + 2).tdiv 5 = (153 * m + 2) / 5 := Int.tdiv_eq_ediv_of_nonneg (by omega)
  apply (int_bind rfl (by omega) (by omega)).trans
  apply (int_bind rfl (by omega) (by omega)).trans
  apply (int_bind rfl (by omega) (by omega)).trans
  exact int_bind (congrArg (e + 1 - ·) fifth) (by omega) (by omega)

theorem tmMon_bind {m : Int} (low : 0 ≤ m) (high : m ≤ 12) :
    (do f (← int ((← int (m + 2)) - (← int (m.tdiv 10 * 12))))) = f (m + 2 - m / 10 * 12) := by
  have tenth : m.tdiv 10 = m / 10 := Int.tdiv_eq_ediv_of_nonneg low
  apply (int_bind rfl (by omega) (by omega)).trans
  apply (int_bind (congrArg (· * 12) tenth) (by omega) (by omega)).trans
  exact int_bind rfl (by omega) (by omega)

theorem tmYear_bind {b d m : Int} (century : 0 ≤ b ∧ b ≤ 110) (year : 0 ≤ d ∧ d ≤ 100)
    (month : 0 ≤ m ∧ m ≤ 12) :
    (do f (← int ((← int ((← int ((← int (b * 100)) + d)) - 6700)) + m.tdiv 10))) =
      f (b * 100 + d - 6700 + m / 10) := by
  have tenth : m.tdiv 10 = m / 10 := Int.tdiv_eq_ediv_of_nonneg month.1
  apply (int_bind rfl (by omega) (by omega)).trans
  apply (int_bind rfl (by omega) (by omega)).trans
  apply (int_bind rfl (by omega) (by omega)).trans
  exact int_bind (congrArg (b * 100 + d - 6700 + ·) tenth) (by omega) (by omega)

end Lines

/-- Dividing off one part after the other, where all parts are in range. -/
theorem tmDate_parts {days a b c d e m : Int} (first : days + 2472632 = a)
    (century : (a * 4 + 3) / 146097 = b) (within : a - b * 146097 / 4 = c)
    (year : (c * 4 + 3) / 1461 = d) (day : c - d * 1461 / 4 = e) (month : (5 * e + 2) / 153 = m)
    (sizes : 0 ≤ a ∧ a ≤ 4000000 ∧ 0 ≤ c ∧ c ≤ 36524 ∧ 0 ≤ e ∧ e ≤ 365) :
    tmDate days =
      some (e + 1 - (153 * m + 2) / 5, m + 2 - m / 10 * 12, b * 100 + d - 6700 + m / 10) := by
  obtain ⟨aLow, aHigh, cLow, cHigh, eLow, eHigh⟩ := sizes
  have bSize : 0 ≤ b ∧ b ≤ 110 := by omega
  have dSize : 0 ≤ d ∧ d ≤ 100 := by omega
  have mSize : 0 ≤ m ∧ m ≤ 12 := by omega
  have tmpB : (a * 4 + 3).tdiv 146097 = b :=
    (Int.tdiv_eq_ediv_of_nonneg (by omega)).trans century
  have tmpD : (c * 4 + 3).tdiv 1461 = d := (Int.tdiv_eq_ediv_of_nonneg (by omega)).trans year
  have tmpM : (5 * e + 2).tdiv 153 = m := (Int.tdiv_eq_ediv_of_nonneg (by omega)).trans month
  unfold tmDate daysFromUnixTime magicUnkonwnFirst magicUnkonwnSec daysFromYear
  apply (int_bind first (by omega) (by omega)).trans
  apply (dividend_bind aLow aHigh).trans
  rw [tmpB]
  apply (rest_bind within (by omega) cLow (by omega)).trans
  apply (dividend_bind cLow (by omega)).trans
  rw [tmpD]
  apply (rest_bind day (by omega) eLow (by omega)).trans
  apply (monthDividend_bind eLow eHigh).trans
  rw [tmpM]
  apply (tmMday_bind ⟨eLow, eHigh⟩ mSize).trans
  apply (tmMon_bind mSize.1 mSize.2).trans
  exact tmYear_bind bSize dSize mSize

/-- Only the last day of a long year has number 365. -/
theorem leap_day (d : MarchDay) {h k : Nat} (split : d.year + 4800 = 100 * h + k) :
    d.day ≤ 364 ∨ d.day = 365 ∧ k % 4 = 3 ∧ (k ≠ 99 ∨ h % 4 = 3) := by
  have inside := d.inside
  unfold marchLength at inside
  by_cases leap : IsLeap (d.year + 1)
  · rw [if_pos leap] at inside
    obtain ⟨byFour, others⟩ := leap
    omega
  · rw [if_neg leap] at inside
    omega

/-- The count since March of the year -4800, in centuries, years and days. -/
theorem count_parts (d : MarchDay) {h k : Nat} (split : d.year + 4800 = 100 * h + k)
    (small : k < 100) :
    d.count + 1753164 = 36524 * h + h / 4 + (365 * k + k / 4 + d.day) := by
  have fourths : d.year / 4 + 1200 = 25 * h + k / 4 := by omega
  have hundreds : d.year / 100 + 48 = h := by omega
  have eras : d.year / 400 + 12 = h / 4 := by omega
  unfold MarchDay.count marchStart
  omega

theorem tmDate_eq {days : Nat} (small : days ≤ 1491308) (d : MarchDay)
    (count : d.count = days + 719468) :
    tmDate days =
      some ((d.civilDay : Int), (d.civilMonth : Int) - 1, (d.civilYear : Int) - 1900) := by
  obtain ⟨h, k, split, within⟩ : ∃ h k, d.year + 4800 = 100 * h + k ∧ k < 100 :=
    ⟨(d.year + 4800) / 100, (d.year + 4800) % 100, by omega, by omega⟩
  have leap := leap_day d split
  have parts := count_parts d split within
  have dayLow := d.day_lt
  have place : d.shift = (5 * d.day + 2) / 153 := rfl
  have century : ((days + 2472632 : Int) * 4 + 3) / 146097 = h := by omega
  have rest : (days + 2472632 : Int) - h * 146097 / 4 =
      ((365 * k + k / 4 + d.day : Nat) : Int) := by
    omega
  have year : (((365 * k + k / 4 + d.day : Nat) : Int) * 4 + 3) / 1461 = k := by omega
  have day : ((365 * k + k / 4 + d.day : Nat) : Int) - k * 1461 / 4 = d.day := by omega
  have month : (5 * (d.day : Int) + 2) / 153 = d.shift := by omega
  rw [tmDate_parts rfl century rest year day month (by omega)]
  have mday : (d.day : Int) + 1 - (153 * d.shift + 2) / 5 = d.civilDay := by
    rw [MarchDay.civilDay]
    omega
  have mon : (d.shift : Int) + 2 - d.shift / 10 * 12 = d.civilMonth - 1 := by
    rw [MarchDay.civilMonth]
    omega
  have full : (h * 100 + k - 6700 + d.shift / 10 : Int) = d.civilYear - 1900 := by
    rw [MarchDay.civilYear]
    omega
  rw [mday, mon, full]

/-! ## The whole conversion -/

/-- 1970-01-01. -/
def epoch : Date where
  year := 1970
  month := 1
  day := 1
  monthInside := Date.january_inside
  dayInside := by decide

/-- 1970-01-01 from March 1969 on. -/
def epochMarch : MarchDay where
  year := 1969
  day := 306
  inside := by decide

theorem epoch_eq : epochMarch.toDate = epoch := by
  apply Date.ext
  · decide
  · decide
  · decide

theorem tmDate_gregorian (days : Nat) (small : days ≤ 1491308) :
    tmDate days = some (((epoch.after days).day : Int), ((epoch.after days).month : Int) - 1,
      ((epoch.after days).year : Int) - 1900) := by
  obtain ⟨d, count, date⟩ := epochMarch.exists_after days
  rw [← epoch_eq, date]
  apply tmDate_eq small d
  rw [count, Nat.add_comm]
  rfl

/-- Whole minutes east or west of Greenwich: the date of the Gregorian calendar, the time of day
that is left, and no overflow on the way. -/
theorem localtime_gregorian (tzMinutes unixSec : Int) (tm : Tm) (positive : 0 < unixSec)
    (range : unixSec / 60 < 2 ^ 31)
    (localRange : 0 ≤ unixSec / 60 - tzMinutes ∧ unixSec / 60 - tzMinutes < 2 ^ 31) :
    let minutes := unixSec / 60 - tzMinutes
    let date := epoch.after (minutes / 1440).toNat
    localtime (60 * tzMinutes) (some unixSec) (some tm) = some (some {
      tmYear := date.year - 1900
      tmMon := date.month - 1
      tmMday := date.day
      tmHour := minutes % 1440 / 60
      tmMin := minutes % 1440 % 60
      tmSec := unixSec % 60 }) := by
  intro minutes date
  obtain ⟨low, high⟩ : 0 ≤ minutes ∧ minutes < 2 ^ 31 := localRange
  have away : minutes = unixSec / 60 - tzMinutes := rfl
  have zone : castInt ((60 * tzMinutes).tdiv 60) = tzMinutes := by
    rw [Int.mul_tdiv_cancel_left _ (by decide)]
    exact castInt_eq (by omega) (by omega)
  have sec : castInt (unixSec.tmod 60) = unixSec % 60 := by
    rw [Int.tmod_eq_emod_of_nonneg (by omega)]
    exact castInt_eq (by omega) (by omega)
  have whole : castInt (unixSec.tdiv 60) = unixSec / 60 := by
    rw [Int.tdiv_eq_ediv_of_nonneg (by omega)]
    exact castInt_eq (by omega) (by omega)
  have min : minutes.tmod 60 = minutes % 1440 % 60 := by
    rw [Int.tmod_eq_emod_of_nonneg low]
    omega
  have hour : (minutes.tdiv 60).tmod 24 = minutes % 1440 / 60 := by
    rw [Int.tdiv_eq_ediv_of_nonneg low, Int.tmod_eq_emod_of_nonneg (by omega)]
    omega
  have days : (minutes.tdiv 60).tdiv 24 = (minutes / 1440).toNat := by
    rw [Int.tdiv_eq_ediv_of_nonneg low, Int.tdiv_eq_ediv_of_nonneg (by omega)]
    omega
  have civil := tmDate_gregorian (minutes / 1440).toNat (by omega)
  unfold localtime minutesInHour hoursInDay
  simp only [positive, if_true, zone, sec, whole, ← away]
  rw [int_some (by omega) (by omega)]
  simp only [Option.bind_eq_bind, Option.bind_some, min, hour, days, civil]
  rfl

/-- Noon of a leap day, eight hours east. -/
theorem localtime_gregorian_leap_day :
    localtime (60 * -480) (some 1709179200) (some ⟨0, 0, 0, 0, 0, 0⟩) = some (some {
      tmYear := 124, tmMon := 1, tmMday := 29, tmHour := 12, tmMin := 0, tmSec := 0 }) := by
  have march : epochMarch.toDate.after 19782 = (⟨2023, 365, by decide⟩ : MarchDay).toDate :=
    epochMarch.toDate_after 19782 rfl
  have run := localtime_gregorian (-480) 1709179200 ⟨0, 0, 0, 0, 0, 0⟩ (by decide) (by decide)
    (by decide)
  have days : ((1709179200 / 60 - -480 : Int) / 1440).toNat = 19782 := by decide
  simp only [days, ← epoch_eq, march] at run
  exact run

end Obstack
