import Mathlib.Order.Lattice

/-!
# Instants and calendar arithmetic

The part of Go's `time` package that billing uses: instants, their order, and `AddDate`. An instant
is a date and a time of day in one zone without changes of the clock (the services run in UTC). A day
past the end of its month runs over into the next one: a month after 31 January is 3 March, or 2 March
in a leap year.
-/

namespace OpenFireblocks.Go

def isLeap (year : Nat) : Bool := year % 4 = 0 && (year % 100 ≠ 0 || year % 400 = 0)

/-- The number of days of a month, counted from January of the year 0. -/
def daysIn (months : Nat) : Nat :=
  match months % 12 with
  | 1 => if isLeap (months / 12) then 29 else 28
  | 3 => 30
  | 5 => 30
  | 8 => 30
  | 10 => 30
  | _ => 31

def nanosPerDay : Nat := 86400000000000

/-- An instant: the month, counted from January of the year 0, the day of the month, and the time of
day. -/
structure Time where
  months : Nat
  day : Nat
  nanos : Nat
  day_range : 1 ≤ day ∧ day ≤ daysIn months
  nanos_lt : nanos < nanosPerDay
deriving DecidableEq

theorem daysIn_range (months : Nat) : 28 ≤ daysIn months ∧ daysIn months ≤ 31 := by
  unfold daysIn
  split
  · split <;> decide
  all_goals decide

/-! ## Order -/

/-- A number that orders instants. -/
def Time.key (t : Time) : Nat := (t.months * 31 + (t.day - 1)) * nanosPerDay + t.nanos

theorem key_div (t : Time) : t.key / nanosPerDay = t.months * 31 + (t.day - 1) := by
  unfold Time.key
  rw [Nat.mul_comm, Nat.mul_add_div (by decide), Nat.div_eq_of_lt t.nanos_lt, Nat.add_zero]

theorem key_mod (t : Time) : t.key % nanosPerDay = t.nanos := by
  unfold Time.key
  rw [Nat.mul_add_mod_self_right, Nat.mod_eq_of_lt t.nanos_lt]

theorem key_injective : Function.Injective Time.key := by
  intro s t h
  have hday := congrArg (· / nanosPerDay) h
  have hnanos := congrArg (· % nanosPerDay) h
  simp only [key_div, key_mod] at hday hnanos
  have hs := s.day_range
  have ht := t.day_range
  have hs' := (daysIn_range s.months).2
  have ht' := (daysIn_range t.months).2
  have hmonths : s.months = t.months := by omega
  have hdays : s.day = t.day := by omega
  cases s
  simp_all

instance : LinearOrder Time := LinearOrder.lift' Time.key key_injective

theorem lt_iff {s t : Time} : s < t ↔ s.key < t.key := Iff.rfl

theorem lt_of_months_lt {s t : Time} (h : s.months < t.months) : s < t := by
  have hs := s.day_range
  have hs' := (daysIn_range s.months).2
  have hdays : s.months * 31 + (s.day - 1) + 1 ≤ t.months * 31 + (t.day - 1) := by omega
  have hmul := Nat.mul_le_mul_right nanosPerDay hdays
  have hnanos := s.nanos_lt
  rw [lt_iff]
  unfold Time.key
  rw [Nat.add_mul] at hmul
  omega

/-! ## AddDate -/

def runOver : Nat → Nat → Nat → Nat × Nat
  | 0, months, day => (months, day)
  | fuel + 1, months, day =>
    if day ≤ daysIn months then (months, day)
    else runOver fuel (months + 1) (day - daysIn months)

theorem runOver_spec {fuel months day : Nat} (hfuel : day ≤ fuel) (hday : 1 ≤ day) :
    months ≤ (runOver fuel months day).1 ∧ 1 ≤ (runOver fuel months day).2 ∧
      (runOver fuel months day).2 ≤ daysIn (runOver fuel months day).1 := by
  induction fuel generalizing months day with
  | zero => omega
  | succ fuel ih =>
    rw [runOver]
    by_cases hle : day ≤ daysIn months
    · rw [if_pos hle]
      exact ⟨Nat.le_refl _, hday, hle⟩
    · rw [if_neg hle]
      have hdays := (daysIn_range months).1
      obtain ⟨hmonths, hrest⟩ := @ih (months + 1) (day - daysIn months) (by omega) (by omega)
      exact ⟨by omega, hrest⟩

/-- `t.AddDate(years, months, days)`, for amounts that are not negative. -/
def Time.addDate (t : Time) (years months days : Nat) : Time where
  months := (runOver (t.day + days) (t.months + years * 12 + months) (t.day + days)).1
  day := (runOver (t.day + days) (t.months + years * 12 + months) (t.day + days)).2
  nanos := t.nanos
  day_range := (runOver_spec (Nat.le_refl _) (by have hday := t.day_range.1; omega)).2
  nanos_lt := t.nanos_lt

theorem lt_addDate {t : Time} {years months days : Nat} (h : 0 < years * 12 + months) :
    t < t.addDate years months days := by
  have hspec := @runOver_spec (t.day + days) (t.months + years * 12 + months) _ (Nat.le_refl _)
    (by have hday := t.day_range.1; omega)
  refine lt_of_months_lt ?_
  show t.months < (runOver (t.day + days) (t.months + years * 12 + months) (t.day + days)).1
  omega

def date (year month day : Nat) (h : 1 ≤ day ∧ day ≤ daysIn (year * 12 + (month - 1))) : Time where
  months := year * 12 + (month - 1)
  day := day
  nanos := 0
  day_range := h
  nanos_lt := by decide

-- 31 January runs over, 29 February of a leap year does so after a year
example : (date 2025 1 31 (by decide)).addDate 0 1 0 = date 2025 3 3 (by decide) := by decide
example : (date 2024 2 29 (by decide)).addDate 1 0 0 = date 2025 3 1 (by decide) := by decide

end OpenFireblocks.Go
