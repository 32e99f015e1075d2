import Mathlib

/-!
# The Gregorian calendar

Days are counted from the start of year 0 of the Gregorian calendar, continued backwards. `ofDays`
finds the date of a day and `toDays` the day of a date; they are inverse and keep the order.
-/

namespace Gregorian

@[ext]
structure Date where
  year : ℤ
  month : ℕ
  day : ℕ
  deriving DecidableEq

def isLeap (year : ℤ) : Bool := year % 4 = 0 && (year % 100 ≠ 0 || year % 400 = 0)

/-- Leap years from year 0 to the year before. -/
def leapsBefore (year : ℤ) : ℤ := (year + 3) / 4 - (year + 99) / 100 + (year + 399) / 400

def daysBeforeYear (year : ℤ) : ℤ := 365 * year + leapsBefore year

def monthLengths (year : ℤ) : List ℕ :=
  [31, if isLeap year then 29 else 28, 31, 30, 31, 30, 31, 31, 30, 31, 30, 31]

/-- Days in a cycle of 400 years. -/
def daysPerCycle : ℤ := 146097

/-- The year and the day in it, from 0, of a day in a cycle. -/
def cycleToYearOrdinal (day : ℤ) : ℤ × ℤ :=
  let year := day / 365
  let ordinal := day % 365
  if ordinal < leapsBefore year then
    (year - 1, ordinal + 365 - leapsBefore (year - 1))
  else (year, ordinal - leapsBefore year)

/-- The month, from 1, and the day in it, of a day counted from the start of the first of some
months. -/
def monthDay : List ℕ → ℕ → ℕ × ℕ
  | [], ordinal => (1, ordinal + 1)
  | len :: lens, ordinal =>
    if ordinal < len then (1, ordinal + 1)
    else
      let md := monthDay lens (ordinal - len)
      (md.1 + 1, md.2)

namespace Date

def ofDays (days : ℤ) : Date :=
  let yo := cycleToYearOrdinal (days % daysPerCycle)
  let year := 400 * (days / daysPerCycle) + yo.1
  let md := monthDay (monthLengths year) yo.2.toNat
  ⟨year, md.1, md.2⟩

def toDays (d : Date) : ℤ :=
  daysBeforeYear d.year + ((monthLengths d.year).take (d.month - 1)).sum + d.day - 1

/-- A date there is. -/
def Ok (d : Date) : Prop :=
  1 ≤ d.month ∧ 1 ≤ d.day ∧ d.day ≤ (monthLengths d.year).getD (d.month - 1) 0

instance (d : Date) : Decidable d.Ok := inferInstanceAs (Decidable (_ ∧ _ ∧ _))

/-- The order of years, months and days. -/
def Before (d e : Date) : Prop :=
  d.year < e.year ∨ d.year = e.year ∧ (d.month < e.month ∨ d.month = e.month ∧ d.day < e.day)

end Date

/-! ## Years -/

theorem leapsBefore_succ (y : ℤ) :
    leapsBefore (y + 1) = leapsBefore y + if isLeap y then 1 else 0 := by
  unfold leapsBefore isLeap
  by_cases h4 : y % 4 = 0
  · by_cases h100 : y % 100 = 0
    · by_cases h400 : y % 400 = 0
      · simp [h4, h400]
        omega
      · simp [h4, h100, h400]
        omega
    · simp [h4, h100]
      omega
  · simp [h4]
    omega

theorem daysBeforeYear_succ (y : ℤ) :
    daysBeforeYear (y + 1) = daysBeforeYear y + 365 + if isLeap y then 1 else 0 := by
  unfold daysBeforeYear
  rw [leapsBefore_succ]
  ring

theorem sum_monthLengths (y : ℤ) :
    ((monthLengths y).sum : ℤ) = 365 + if isLeap y then 1 else 0 := by
  unfold monthLengths
  split_ifs <;> rfl

theorem daysBeforeYear_cycle (q y : ℤ) :
    daysBeforeYear (400 * q + y) = daysPerCycle * q + daysBeforeYear y := by
  unfold daysBeforeYear leapsBefore daysPerCycle
  omega

theorem daysBeforeYear_mono {y z : ℤ} (h : y ≤ z) : daysBeforeYear y ≤ daysBeforeYear z := by
  unfold daysBeforeYear leapsBefore
  omega

theorem cycleToYearOrdinal_spec {c : ℤ} (h0 : 0 ≤ c) (h : c < daysPerCycle) :
    0 ≤ (cycleToYearOrdinal c).2 ∧
    daysBeforeYear (cycleToYearOrdinal c).1 + (cycleToYearOrdinal c).2 = c ∧
    c < daysBeforeYear ((cycleToYearOrdinal c).1 + 1) := by
  unfold daysPerCycle at h
  unfold cycleToYearOrdinal daysBeforeYear leapsBefore
  dsimp only
  split_ifs with hlt
  · simp only [sub_add_cancel]
    omega
  · dsimp only
    omega

/-! ## Months -/

theorem monthDay_spec : ∀ (lens : List ℕ) {o : ℕ}, o < lens.sum →
    1 ≤ (monthDay lens o).1 ∧ 1 ≤ (monthDay lens o).2 ∧
    (monthDay lens o).2 ≤ lens.getD ((monthDay lens o).1 - 1) 0 ∧
    (lens.take ((monthDay lens o).1 - 1)).sum + (monthDay lens o).2 = o + 1
  | [], o, h => by simp at h
  | len :: lens, o, h => by
    unfold monthDay
    split_ifs with hlt
    · simpa using hlt
    · rw [List.sum_cons] at h
      obtain ⟨hm, hd, hle, hsum⟩ := monthDay_spec lens (o := o - len) (by omega)
      obtain ⟨k, hk⟩ := Nat.exists_eq_add_of_le hm
      rw [hk] at hle hsum
      simp only [hk, Nat.add_sub_cancel_left, Nat.add_sub_cancel] at hle hsum ⊢
      rw [Nat.add_comm 1 k, List.getD_cons_succ, List.take_succ_cons, List.sum_cons]
      exact ⟨by omega, hd, hle, by omega⟩

theorem take_sum_add_le (lens : List ℕ) {i j : ℕ} (h : i < j) :
    (lens.take i).sum + lens.getD i 0 ≤ (lens.take j).sum := by
  induction lens generalizing i j with
  | nil => simp
  | cons len lens ih =>
    obtain ⟨j, rfl⟩ := Nat.exists_eq_succ_of_ne_zero (by omega : j ≠ 0)
    rcases i with _ | i
    · simp
    · have := ih (show i < j by omega)
      simp only [List.take_succ_cons, List.sum_cons, List.getD_cons_succ]
      omega

theorem take_sum_add_le_sum (lens : List ℕ) (i : ℕ) :
    (lens.take i).sum + lens.getD i 0 ≤ lens.sum := by
  induction lens generalizing i with
  | nil => simp
  | cons len lens ih =>
    rcases i with _ | i
    · simp
    · have := ih i
      simp only [List.take_succ_cons, List.sum_cons, List.getD_cons_succ]
      omega

/-! ## Dates -/

namespace Date

theorem Ok.month_le {d : Date} (h : d.Ok) : d.month ≤ 12 := by
  obtain ⟨hm, hd, hle⟩ := h
  by_contra hn
  rw [List.getD_eq_default _ _ (by simp [monthLengths]; omega)] at hle
  omega

theorem Ok.day_le {d : Date} (h : d.Ok) : d.day ≤ 31 := by
  obtain ⟨-, -, hle⟩ := h
  have hlens : ∀ len ∈ monthLengths d.year, len ≤ 31 := by
    unfold monthLengths
    split_ifs <;> decide
  refine hle.trans ?_
  rw [List.getD_eq_getElem?_getD]
  rcases hlen : (monthLengths d.year)[d.month - 1]? with _ | len
  · simp
  · exact hlens len (List.mem_of_getElem? hlen)

theorem ofDays_spec (d : ℤ) : (ofDays d).Ok ∧ (ofDays d).toDays = d := by
  have hc0 := Int.emod_nonneg d (show daysPerCycle ≠ 0 by decide)
  have hc := Int.emod_lt_of_pos d (show 0 < daysPerCycle by decide)
  have hdiv := Int.mul_ediv_add_emod d daysPerCycle
  obtain ⟨ho, hyear, hnext⟩ := cycleToYearOrdinal_spec hc0 hc
  set q := d / daysPerCycle
  set c := d % daysPerCycle
  set y := (cycleToYearOrdinal c).1 with hy
  set o := (cycleToYearOrdinal c).2 with hoe
  have hsum := sum_monthLengths (400 * q + y)
  have hleap : isLeap (400 * q + y) = isLeap y := by
    unfold isLeap
    congr 2 <;> simp <;> omega
  rw [daysBeforeYear_succ] at hnext
  rw [hleap] at hsum
  obtain ⟨hm, hd, hle, htake⟩ := monthDay_spec (monthLengths (400 * q + y)) (o := o.toNat)
    (by omega)
  refine ⟨⟨hm, hd, hle⟩, ?_⟩
  show daysBeforeYear (400 * q + y) + _ + _ - 1 = d
  rw [daysBeforeYear_cycle]
  show _ + (((monthLengths (400 * q + y)).take
    ((monthDay (monthLengths (400 * q + y)) o.toNat).1 - 1)).sum : ℤ) +
      ((monthDay (monthLengths (400 * q + y)) o.toNat).2 : ℤ) - 1 = d
  omega

theorem toDays_lt {d e : Date} (hd : d.Ok) (he : e.Ok) (h : d.Before e) :
    d.toDays < e.toDays := by
  obtain ⟨hdm, hdd, hdle⟩ := hd
  obtain ⟨hem, hed, hele⟩ := he
  unfold toDays
  rcases h with hy | ⟨hy, hm | ⟨hm, hlt⟩⟩
  · have hnext := daysBeforeYear_succ d.year
    have hmono := daysBeforeYear_mono (show d.year + 1 ≤ e.year by omega)
    have hsum := sum_monthLengths d.year
    have hle := take_sum_add_le_sum (monthLengths d.year) (d.month - 1)
    omega
  · have hle := take_sum_add_le (monthLengths d.year) (show d.month - 1 < e.month - 1 by omega)
    rw [← hy]
    omega
  · rw [← hy, ← hm]
    omega

theorem before_or (d e : Date) : d.Before e ∨ d = e ∨ e.Before d := by
  unfold Before
  rcases lt_trichotomy d.year e.year with h | h | h
  · exact .inl (.inl h)
  · rcases lt_trichotomy d.month e.month with hm | hm | hm
    · exact .inl (.inr ⟨h, .inl hm⟩)
    · rcases lt_trichotomy d.day e.day with hd | hd | hd
      · exact .inl (.inr ⟨h, .inr ⟨hm, hd⟩⟩)
      · exact .inr (.inl (Date.ext h hm hd))
      · exact .inr (.inr (.inr ⟨h.symm, .inr ⟨hm.symm, hd⟩⟩))
    · exact .inr (.inr (.inr ⟨h.symm, .inl hm⟩))
  · exact .inr (.inr (.inl h))

/-- A later day has a later date. -/
theorem ofDays_before {d e : ℤ} (h : d < e) : (ofDays d).Before (ofDays e) := by
  obtain ⟨hd, hdd⟩ := ofDays_spec d
  obtain ⟨he, hee⟩ := ofDays_spec e
  rcases before_or (ofDays d) (ofDays e) with hb | heq | hb
  · exact hb
  · rw [← hdd, ← hee, heq] at h
    exact absurd h (lt_irrefl _)
  · have := toDays_lt he hd hb
    omega

end Date

end Gregorian
