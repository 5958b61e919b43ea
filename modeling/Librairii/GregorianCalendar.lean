import Mathlib

/-!
# Proleptic Gregorian calendar

Valid dates of any year, their day numbers, and the neighbouring dates. The day
number is strictly increasing in year, month and day, so it names one date.
-/

namespace Librairii.GregorianCalendar

def isLeapYear (year : ℤ) : Bool := year%4=0 ∧ (year%100≠0 ∨ year%400=0)

def daysInMonth (year : ℤ) : ℕ → ℕ
  | 1 | 3 | 5 | 7 | 8 | 10 | 12 => 31
  | 4 | 6 | 9 | 11 => 30
  | 2 => if isLeapYear year then 29 else 28
  | _ => 0

/-- A date of the calendar; an impossible day cannot be built. -/
@[ext] structure Date where
  year : ℤ
  month : ℕ
  day : ℕ
  month_pos : 1 ≤ month
  month_le : month≤12
  day_pos : 1≤day
  day_le : day≤daysInMonth year month
  deriving DecidableEq

def daysBeforeYear (year : ℤ) : ℤ := 365*year+(year+3)/4-(year+99)/100+(year+399)/400

def daysBeforeMonth (year : ℤ) : ℕ → ℕ
  | 0 => 0
  | month+1 => daysBeforeMonth year month+daysInMonth year month

/-- Days from the first of January of the year zero. -/
def Date.number (date : Date) : ℤ :=
  daysBeforeYear date.year+daysBeforeMonth date.year date.month+(date.day-1)

def yearLength (year : ℤ) : ℕ := daysBeforeMonth year 13

theorem yearLength_eq (year : ℤ) : yearLength year=if isLeapYear year then 366 else 365 := by
  simp only [yearLength,daysBeforeMonth,daysInMonth]
  split <;> rfl

theorem daysInMonth_pos (year : ℤ) {month : ℕ} (hlow : 1 ≤ month) (hhigh : month≤12) :
    1≤daysInMonth year month := by
  interval_cases month <;> simp only [daysInMonth] <;> first | omega | (split <;> omega)

theorem daysInMonth_le (year : ℤ) (month : ℕ) : daysInMonth year month≤31 := by
  unfold daysInMonth
  split <;> first | omega | (split <;> omega)

theorem Date.day_le_31 (date : Date) : date.day≤31 :=
  le_trans date.day_le (daysInMonth_le date.year date.month)

theorem daysBeforeYear_succ (year : ℤ) :
    daysBeforeYear (year+1)=daysBeforeYear year+yearLength year := by
  rw [yearLength_eq]
  by_cases hleap : isLeapYear year=true
  · rw [if_pos hleap]
    simp only [isLeapYear,decide_eq_true_eq] at hleap
    simp only [daysBeforeYear]
    omega
  · rw [if_neg hleap]
    simp only [isLeapYear,decide_eq_true_eq] at hleap
    simp only [daysBeforeYear]
    omega

theorem daysBeforeMonth_mono (year : ℤ) : Monotone (daysBeforeMonth year) := by
  refine monotone_nat_of_le_succ fun month => ?_
  simp only [daysBeforeMonth]
  omega

theorem daysBeforeYear_mono : Monotone daysBeforeYear := by
  refine monotone_int_of_le_succ fun year => ?_
  rw [daysBeforeYear_succ]
  omega

theorem Date.number_lt_month (date : Date) :
    date.number<daysBeforeYear date.year+daysBeforeMonth date.year (date.month+1) := by
  have hday := date.day_le
  simp only [Date.number,daysBeforeMonth]
  omega

theorem Date.number_lt_year (date : Date) : date.number<daysBeforeYear (date.year+1) := by
  have hmonth := date.number_lt_month
  have hle := daysBeforeMonth_mono date.year (show date.month+1≤13 by have := date.month_le; omega)
  rw [daysBeforeYear_succ,yearLength]
  omega

theorem Date.month_le_number (date : Date) :
    daysBeforeYear date.year+daysBeforeMonth date.year date.month≤date.number := by
  have hday := date.day_pos
  simp only [Date.number]
  omega

theorem Date.year_le_number (date : Date) : daysBeforeYear date.year≤date.number := by
  have hmonth := date.month_le_number
  omega

/-- Calendar order: year, then month, then day. -/
def Date.Before (a b : Date) : Prop :=
  a.year<b.year ∨ a.year=b.year ∧ (a.month<b.month ∨ a.month=b.month ∧ a.day<b.day)

theorem Date.number_lt_of_before {a b : Date} (h : a.Before b) : a.number<b.number := by
  rcases h with hyear | ⟨hyear,hmonth | ⟨hmonth,hday⟩⟩
  · have hle := daysBeforeYear_mono (show a.year+1≤b.year by omega)
    have ha := a.number_lt_year
    have hb := b.year_le_number
    omega
  · have hle := daysBeforeMonth_mono a.year (show a.month+1≤b.month by omega)
    have ha := a.number_lt_month
    have hb := b.month_le_number
    rw [←hyear] at hb
    omega
  · simp only [Date.number,hyear,hmonth]
    omega

/-- Two dates are one or lie in calendar order. -/
theorem Date.before_trichotomy (a b : Date) : a.Before b ∨ a=b ∨ b.Before a := by
  by_cases hyear : a.year=b.year
  · by_cases hmonth : a.month=b.month
    · by_cases hday : a.day=b.day
      · exact .inr (.inl (Date.ext hyear hmonth hday))
      · simp only [Date.Before]
        omega
    · simp only [Date.Before]
      omega
  · simp only [Date.Before]
    omega

theorem Date.number_lt_iff {a b : Date} : a.number<b.number ↔ a.Before b := by
  constructor
  · intro h
    rcases Date.before_trichotomy a b with hab | hab | hba
    · exact hab
    · subst hab
      omega
    · have hlt := Date.number_lt_of_before hba
      omega
  · exact Date.number_lt_of_before

theorem Date.number_injective : Function.Injective Date.number := by
  intro a b h
  rcases Date.before_trichotomy a b with hab | hab | hba
  · have hlt := Date.number_lt_of_before hab
    omega
  · exact hab
  · have hlt := Date.number_lt_of_before hba
    omega

def Date.ofCalendar (year : ℤ) (month day : ℕ) : Option Date :=
  if h : (1 ≤ month ∧ month≤12) ∧ 1≤day ∧ day≤daysInMonth year month then
    some ⟨year,month,day,h.1.1,h.1.2,h.2.1,h.2.2⟩
  else none

@[simp] theorem Date.ofCalendar_parts (date : Date) :
    Date.ofCalendar date.year date.month date.day=some date := by
  unfold Date.ofCalendar
  rw [dif_pos ⟨⟨date.month_pos,date.month_le⟩,date.day_pos,date.day_le⟩]

theorem Date.ofCalendar_year {year : ℤ} {month day : ℕ} {date : Date}
    (h : Date.ofCalendar year month day=some date) : date.year=year := by
  unfold Date.ofCalendar at h
  split at h
  · simp only [Option.some.injEq] at h
    rw [←h]
  · exact absurd h (by simp)

def Date.first (year : ℤ) (month : ℕ) (hlow : 1 ≤ month) (hhigh : month≤12) : Date :=
  ⟨year,month,1,hlow,hhigh,le_rfl,daysInMonth_pos year hlow hhigh⟩

def Date.last (year : ℤ) (month : ℕ) (hlow : 1 ≤ month) (hhigh : month≤12) : Date :=
  ⟨year,month,daysInMonth year month,hlow,hhigh,daysInMonth_pos year hlow hhigh,le_rfl⟩

def Date.next (date : Date) : Date :=
  if hday : date.day+1≤daysInMonth date.year date.month then
    ⟨date.year,date.month,date.day+1,date.month_pos,date.month_le,by omega,hday⟩
  else if hmonth : date.month+1≤12 then Date.first date.year (date.month+1) (by omega) hmonth
  else Date.first (date.year+1) 1 (by omega) (by omega)

def Date.previous (date : Date) : Date :=
  if hday : 2≤date.day then
    ⟨date.year,date.month,date.day-1,date.month_pos,date.month_le,by omega,
      by have := date.day_le; omega⟩
  else if hmonth : 2≤date.month then
    Date.last date.year (date.month-1) (by omega) (by have := date.month_le; omega)
  else Date.last (date.year-1) 12 (by omega) (by omega)

@[simp] theorem Date.number_next (date : Date) : date.next.number=date.number+1 := by
  have hday := date.day_le
  have hpos := date.day_pos
  have hmonth := date.month_le
  by_cases h₁ : date.day+1≤daysInMonth date.year date.month
  · rw [Date.next,dif_pos h₁]
    simp only [Date.number]
    omega
  · rw [Date.next,dif_neg h₁]
    have hlast : date.day=daysInMonth date.year date.month := by omega
    by_cases h₂ : date.month+1≤12
    · rw [dif_pos h₂]
      simp only [Date.number,Date.first,daysBeforeMonth,hlast]
      omega
    · rw [dif_neg h₂]
      have htwelve : date.month=12 := by omega
      have hyear : yearLength date.year=daysBeforeMonth date.year 12+daysInMonth date.year 12 := rfl
      have hjanuary : daysBeforeMonth (date.year+1) 1=0 := rfl
      rw [htwelve] at hlast
      simp only [Date.number,Date.first,daysBeforeYear_succ,hjanuary,htwelve,hlast,hyear]
      omega

@[simp] theorem Date.number_previous (date : Date) : date.previous.number=date.number-1 := by
  have hday := date.day_le
  have hpos := date.day_pos
  have hmonth := date.month_pos
  by_cases h₁ : 2≤date.day
  · rw [Date.previous,dif_pos h₁]
    simp only [Date.number]
    omega
  · rw [Date.previous,dif_neg h₁]
    have hfirst : date.day=1 := by omega
    by_cases h₂ : 2≤date.month
    · rw [dif_pos h₂]
      obtain ⟨month,hsucc⟩ : ∃ month, date.month=month+1 := ⟨date.month-1,by omega⟩
      simp only [Date.number,Date.last,hsucc,Nat.add_sub_cancel,daysBeforeMonth,hfirst]
      omega
    · rw [dif_neg h₂]
      have hone : date.month=1 := by omega
      have hsucc := daysBeforeYear_succ (date.year-1)
      have hyear : yearLength (date.year-1)=
          daysBeforeMonth (date.year-1) 12+daysInMonth (date.year-1) 12 := rfl
      have hjanuary : daysBeforeMonth date.year 1=0 := rfl
      rw [Int.sub_add_cancel,hyear] at hsucc
      simp only [Date.number,Date.last,hsucc,hone,hjanuary,hfirst]
      omega

/-- A date some days later, or earlier for a negative count, while every date on
the way has a year the caller supports. -/
def Date.shift (supported : ℤ → Bool) (date : Date) : ℤ → Option Date
  | .ofNat n => (fun d => d.bind (supportedOf Date.next))^[n] (some date)
  | .negSucc n => (fun d => d.bind (supportedOf Date.previous))^[n+1] (some date)
where
  /-- One step to a neighbouring date with a supported year. -/
  supportedOf (step : Date → Date) (date : Date) : Option Date :=
    if supported (step date).year then some (step date) else none

theorem Date.iterate_number (supported : ℤ → Bool) (step : Date → Date) (c : ℤ)
    (hstep : ∀ date, (step date).number=date.number+c) (n : ℕ) :
    ∀ {date result : Date},
      (fun d : Option Date => d.bind (Date.shift.supportedOf supported step))^[n] (some date)=
        some result → result.number=date.number+n*c := by
  induction n with
  | zero =>
      intro date result h
      simp only [Function.iterate_zero,id_eq,Option.some.injEq] at h
      rw [h]
      simp
  | succ n ih =>
      intro date result h
      rw [Function.iterate_succ_apply'] at h
      obtain ⟨middle,hmiddle,hlast⟩ := Option.bind_eq_some_iff.mp h
      have hnumber := ih hmiddle
      simp only [Date.shift.supportedOf] at hlast
      split at hlast
      · simp only [Option.some.injEq] at hlast
        rw [←hlast,hstep,hnumber]
        push_cast
        linarith
      · exact absurd hlast (by simp)

theorem Date.shift_number {supported : ℤ → Bool} {date result : Date} {days : ℤ}
    (h : date.shift supported days=some result) : result.number=date.number+days := by
  cases days with
  | ofNat n =>
      have hnumber := Date.iterate_number supported Date.next 1 Date.number_next n h
      rw [hnumber]
      simp
  | negSucc n =>
      have hprevious : ∀ date : Date, date.previous.number=date.number+(-1) := by
        intro date
        rw [Date.number_previous]
        rfl
      have hnumber := Date.iterate_number supported Date.previous (-1) hprevious (n+1) h
      rw [hnumber,Int.negSucc_eq]
      push_cast
      linarith

theorem Date.iterate_supported (supported : ℤ → Bool) (step : Date → Date) (n : ℕ) :
    ∀ {date result : Date}, supported date.year=true →
      (fun d : Option Date => d.bind (Date.shift.supportedOf supported step))^[n] (some date)=
        some result → supported result.year=true := by
  induction n with
  | zero =>
      intro date result hdate h
      simp only [Function.iterate_zero,id_eq,Option.some.injEq] at h
      rw [←h]
      exact hdate
  | succ n ih =>
      intro date result hdate h
      rw [Function.iterate_succ_apply'] at h
      obtain ⟨middle,hmiddle,hlast⟩ := Option.bind_eq_some_iff.mp h
      simp only [Date.shift.supportedOf] at hlast
      split at hlast
      · rename_i hyear
        simp only [Option.some.injEq] at hlast
        rw [←hlast]
        exact hyear
      · exact absurd hlast (by simp)

theorem Date.shift_supported {supported : ℤ → Bool} {date result : Date} {days : ℤ}
    (hdate : supported date.year=true) (h : date.shift supported days=some result) :
    supported result.year=true := by
  cases days with
  | ofNat n => exact Date.iterate_supported supported Date.next n hdate h
  | negSucc n => exact Date.iterate_supported supported Date.previous (n+1) hdate h

end Librairii.GregorianCalendar
