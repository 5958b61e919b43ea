import Librairii.GregorianCalendar

/-!
# Canonical UTC timestamps

`utc_time` reads the accepted RFC 3339 spellings and writes the moment they name
in UTC, without the trailing zeros of its fraction. The text is compared with the
instant it stands for, and read again.
-/

namespace Librairii.UtcTimestamps

open GregorianCalendar

/-- A time of day; an impossible clock reading cannot be built. -/
@[ext] structure Time where
  hour : ℕ
  minute : ℕ
  second : ℕ
  nanosecond : ℕ
  /-- A day has twenty four hours. -/
  hour_lt : hour<24
  /-- An hour has sixty minutes. -/
  minute_lt : minute<60
  second_lt : second<60
  /-- Nanoseconds make less than a second. -/
  nanosecond_lt : nanosecond<10^9
  deriving DecidableEq

/-- A time from its parts, refused outside the clock. -/
def Time.fromHmsNano (hour minute second nanosecond : ℕ) : Option Time :=
  if h : (hour<24 ∧ minute<60) ∧ second<60 ∧ nanosecond<10^9 then
    some ⟨hour,minute,second,nanosecond,h.1.1,h.1.2,h.2.1,h.2.2⟩
  else none

/-- Whole seconds since midnight. -/
def Time.seconds (time : Time) : ℤ := time.hour*3600+time.minute*60+time.second

/-- A date and a time of day, without an offset. -/
@[ext] structure PrimitiveDateTime where
  date : Date
  time : Time
  deriving DecidableEq

def storedYear (year : ℤ) : Bool := -9999≤year ∧ year≤9999

def fromCalendarDate (year : ℤ) (month day : ℕ) : Option Date :=
  if storedYear year then Date.ofCalendar year month day else none

/-- Whole seconds from the first midnight of the year zero. -/
def PrimitiveDateTime.seconds (moment : PrimitiveDateTime) : ℤ :=
  moment.date.number*86400+moment.time.seconds

def Time.ofSeconds (seconds : ℤ) (nanosecond : ℕ) (hlow : 0 ≤ seconds) (hhigh : seconds<86400)
    (hnano : nanosecond<10^9) : Time :=
  ⟨(seconds/3600).toNat,(seconds/60%60).toNat,(seconds%60).toNat,nanosecond,
    by omega,by omega,by omega,hnano⟩

/-- Subtraction of whole seconds; refused when the date leaves the stored years. -/
def PrimitiveDateTime.checkedSub (moment : PrimitiveDateTime) (seconds : ℤ) :
    Option PrimitiveDateTime :=
  let total := moment.time.seconds-seconds
  (moment.date.shift storedYear (total/86400)).map fun date =>
    ⟨date,Time.ofSeconds (total%86400) moment.time.nanosecond (by omega) (by omega)
      moment.time.nanosecond_lt⟩

def isAsciiDigit (c : Char) : Bool := '0'≤c ∧ c≤ '9'

def digitsValue (s : List Char) : ℕ := s.foldl (fun n c => n*10+(c.toNat-48)) 0

/-- A text of digits that fits the machine word; an empty text is refused. -/
def number (s : List Char) : Option ℕ :=
  if s=[] ∨ ¬s.all isAsciiDigit ∨ 2^32≤digitsValue s then none else some (digitsValue s)

/-- The characters from one place up to another; for ASCII texts these are the
bytes. A short text gives a short slice, so comparing with a character fails. -/
def slice (s : List Char) (start stop : ℕ) : List Char := (s.take stop).drop start

def readFraction : List Char → Option (ℕ × List Char)
  | '.'::rest => digits rest
  | ','::rest => digits rest
  | rest => some (0,rest)
where
  /-- The digits after the separator. -/
  digits (rest : List Char) : Option (ℕ × List Char) :=
    let read := rest.takeWhile isAsciiDigit
    if read=[] then none
    else (number (read.take 9)).map fun value =>
      (value*10^(9-(read.take 9).length),rest.drop read.length)

/-- Offset in seconds: `Z`, or a sign with hours and minutes. -/
def readOffset (rest : List Char) : Option ℤ :=
  if rest=['Z'] then some 0
  else if rest.length≠6 ∨ ¬(rest.take 1=['+'] ∨ rest.take 1=['-']) ∨ slice rest 3 4≠[':'] then none
  else (number (slice rest 1 3)).bind fun h => (number (slice rest 4 6)).bind fun m =>
    if 24<h ∨ 60 < m then none
    else some (if rest.take 1=['-'] then -((h*3600+m*60 : ℕ) : ℤ) else ((h*3600+m*60 : ℕ) : ℤ))

/-- Parts of the clock: hour of one or two digits, minute, second, nanoseconds
and what follows them. -/
def readClock (rest : List Char) : Option (ℕ × ℕ × ℕ × ℕ × List Char) :=
  let colon := rest.idxOf ':'
  if colon=rest.length ∨ ¬(1≤colon ∧ colon≤2) then none
  else (number (rest.take colon)).bind fun hour =>
    let rest := rest.drop (colon+1)
    if rest.length<6 ∨ slice rest 2 3≠[':'] then none
    else (number (rest.take 2)).bind fun minute => (number (slice rest 3 5)).bind fun second =>
      (readFraction (rest.drop 5)).map fun tail => (hour,minute,second,tail.1,tail.2)

/-- The local moment and the offset of an accepted text. -/
def utcParts (s : List Char) : Option (PrimitiveDateTime × ℤ) :=
  if ¬s.all (·.toNat<128) ∨ s.length<19 ∨ slice s 4 5≠['-'] ∨ slice s 7 8≠['-'] ∨
      slice s 10 11≠['T'] then none
  else (number (s.take 4)).bind fun year => (number (slice s 5 7)).bind fun month =>
    (number (slice s 8 10)).bind fun day => (readClock (s.drop 11)).bind fun clock =>
    (readOffset clock.2.2.2.2).bind fun offset => (fromCalendarDate year month day).bind fun date =>
    (Time.fromHmsNano clock.1 clock.2.1 clock.2.2.1 clock.2.2.2.1).map fun time =>
      (⟨date,time⟩,offset)

/-- Decimal digits of fixed width; the numbers written here fit their width. -/
def padded : ℕ → ℕ → List Char
  | 0,_ => []
  | width+1,n => padded width (n/10)++[Char.ofNat (48+n%10)]

/-- The fraction without trailing zeros, empty for a whole second. -/
def fractionText (nanosecond : ℕ) : List Char :=
  if nanosecond=0 then []
  else ('.'::padded 9 nanosecond).rdropWhile (·== '0')

def yearText (year : ℤ) : List Char :=
  if year<0 then '-'::padded 4 (-year).toNat else padded 4 year.toNat

def utcText (utc : PrimitiveDateTime) : List Char :=
  yearText utc.date.year++('-'::padded 2 utc.date.month++('-'::padded 2 utc.date.day++
    ('T'::padded 2 utc.time.hour++(':'::padded 2 utc.time.minute++
      (':'::padded 2 utc.time.second++(fractionText utc.time.nanosecond++['Z']))))))

/-- Canonical UTC spelling of an accepted timestamp. -/
def utcTime (s : String) : Option String :=
  (utcParts s.toList).bind fun parts => (parts.1.checkedSub parts.2).map fun utc =>
    String.ofList (utcText utc)

/-- Nanoseconds from the first midnight of the year zero, UTC, to the instant a
text names; digits of a fraction after the ninth are dropped. -/
def instant (s : String) : Option ℤ :=
  (utcParts s.toList).map fun parts =>
    (parts.1.seconds-parts.2)*10^9+parts.1.time.nanosecond

theorem digit_toNat : ∀ k<10, (Char.ofNat (48+k)).toNat=48+k := by decide

theorem digit_isAsciiDigit : ∀ k<10, isAsciiDigit (Char.ofNat (48+k))=true := by decide

theorem digit_lt : ∀ m<10, ∀ n<10, m<n → Char.ofNat (48+m)<Char.ofNat (48+n) := by decide

/-- Digits fill the width. -/
@[simp] theorem padded_length (width n : ℕ) : (padded width n).length=width := by
  induction width generalizing n with
  | zero => rfl
  | succ width ih => simp [padded,ih]

theorem isAsciiDigit_of_mem_padded {width n : ℕ} {c : Char} (h : c ∈ padded width n) :
    isAsciiDigit c=true := by
  induction width generalizing n with
  | zero => exact absurd h (by simp [padded])
  | succ width ih =>
      simp only [padded,List.mem_append,List.mem_singleton] at h
      cases h with
      | inl h => exact ih h
      | inr h =>
          rw [h]
          exact digit_isAsciiDigit _ (Nat.mod_lt _ (by omega))

theorem digitsValue_concat (s : List Char) (c : Char) :
    digitsValue (s++[c])=digitsValue s*10+(c.toNat-48) := by
  simp [digitsValue]

variable {n : ℕ}

theorem digitsValue_padded {width : ℕ} (h : n<10^width) : digitsValue (padded width n)=n := by
  induction width generalizing n with
  | zero =>
      have hzero : n=0 := by simpa using h
      rw [hzero]
      rfl
  | succ width ih =>
      have hlow : n/10<10^width := by
        rw [pow_succ] at h
        omega
      rw [padded,digitsValue_concat,ih hlow,digit_toNat _ (Nat.mod_lt _ (by omega))]
      omega

theorem append_lt_append {a b : List Char} (hlength : a.length=b.length) (h : a<b)
    (c d : List Char) : a++c<b++d := by
  induction a generalizing b with
  | nil =>
      rw [List.eq_nil_of_length_eq_zero hlength.symm] at h
      exact absurd h (List.lt_irrefl [])
  | cons x a ih =>
      cases b with
      | nil => exact absurd hlength (by simp)
      | cons y b =>
          rw [List.cons_lt_cons_iff] at h
          rw [List.cons_append,List.cons_append,List.cons_lt_cons_iff]
          cases h with
          | inl h => exact .inl h
          | inr h => exact .inr ⟨h.1,ih (by simpa using hlength) h.2⟩

/-- Smaller numbers are written before larger ones of the same width. -/
theorem padded_lt {width m n : ℕ} (hn : n<10^width) (h : m<n) : padded width m<padded width n := by
  induction width generalizing m n with
  | zero =>
      have hzero : n=0 := by simpa using hn
      omega
  | succ width ih =>
      have hlow : n/10<10^width := by
        rw [pow_succ] at hn
        omega
      by_cases hhigh : m/10<n/10
      · exact append_lt_append (by simp) (ih hlow hhigh) _ _
      · have heq : m/10=n/10 := by omega
        rw [padded,padded,heq]
        refine List.append_left_lt ?_
        rw [List.cons_lt_cons_iff]
        exact .inl (digit_lt _ (Nat.mod_lt _ (by omega)) _ (Nat.mod_lt _ (by omega)) (by omega))

variable {m : ℕ}

theorem field_lt {width : ℕ} (hn : n<10^width) (h : m<n) (c : Char) (a b : List Char) :
    c::padded width m++a<c::padded width n++b := by
  rw [List.cons_append,List.cons_append,List.cons_lt_cons_iff]
  exact .inr ⟨rfl,append_lt_append (by simp) (padded_lt hn h) _ _⟩

theorem yearText_lt {x y : ℤ} (hx : -1≤x) (h : x<y) (hy : y≤9999) (a b : List Char) :
    yearText x++a<yearText y++b := by
  have hpositive : ¬y<0 := by omega
  by_cases hnegative : x<0
  · rw [yearText,yearText,if_pos hnegative,if_neg hpositive]
    have hdigits := @isAsciiDigit_of_mem_padded 4 y.toNat
    have hlength := padded_length 4 y.toNat
    cases hpadded : padded 4 y.toNat with
    | nil => exact absurd (hpadded ▸ hlength) (by simp)
    | cons c rest =>
        have hc := hdigits (hpadded ▸ List.mem_cons_self)
        simp only [isAsciiDigit,decide_eq_true_eq] at hc
        rw [List.cons_append,List.cons_append,List.cons_lt_cons_iff]
        exact .inl (lt_of_lt_of_le (show '-'< '0' by decide) hc.1)
  · rw [yearText,yearText,if_neg hnegative,if_neg hpositive]
    exact append_lt_append (by simp) (padded_lt (by omega) (by omega)) _ _

/-- A clock reading stays in its day. -/
theorem Time.seconds_bounds (time : Time) : 0≤time.seconds ∧ time.seconds<86400 := by
  have hhour := time.hour_lt
  have hminute := time.minute_lt
  have hsecond := time.second_lt
  simp only [Time.seconds]
  omega

/-- Clock readings are written in their order. -/
theorem time_lt {s t : Time} (h : s.seconds<t.seconds) (a b : List Char) :
    'T'::padded 2 s.hour++(':'::padded 2 s.minute++(':'::padded 2 s.second++a))<
      'T'::padded 2 t.hour++(':'::padded 2 t.minute++(':'::padded 2 t.second++b)) := by
  have hs := s.minute_lt
  have hs' := s.second_lt
  have ht := t.hour_lt
  have ht' := t.minute_lt
  have ht'' := t.second_lt
  simp only [Time.seconds] at h
  by_cases hhour : s.hour<t.hour
  · exact field_lt (by omega) hhour _ _ _
  · have hhour' : s.hour=t.hour := by omega
    rw [hhour']
    refine List.append_left_lt ?_
    by_cases hminute : s.minute<t.minute
    · exact field_lt (by omega) hminute _ _ _
    · have hminute' : s.minute=t.minute := by omega
      rw [hminute']
      refine List.append_left_lt ?_
      exact field_lt (by omega) (by omega) _ _ _

theorem Time.fields_of_seconds {s t : Time} (h : s.seconds=t.seconds) :
    s.hour=t.hour ∧ s.minute=t.minute ∧ s.second=t.second := by
  have hs := s.minute_lt
  have hs' := s.second_lt
  have ht := t.minute_lt
  have ht' := t.second_lt
  simp only [Time.seconds] at h
  omega

/-- Earlier dates are written before later ones. -/
theorem date_lt {x y : Date} (h : x.Before y) (hlow : -1≤x.year) (hhigh : y.year≤9999)
    (a b : List Char) :
    yearText x.year++('-'::padded 2 x.month++('-'::padded 2 x.day++a))<
      yearText y.year++('-'::padded 2 y.month++('-'::padded 2 y.day++b)) := by
  rcases h with hyear | ⟨hyear,hmonth | ⟨hmonth,hday⟩⟩
  · exact yearText_lt hlow hyear hhigh _ _
  · rw [hyear]
    refine List.append_left_lt ?_
    have hle := y.month_le
    exact field_lt (by omega) hmonth _ _ _
  · rw [hyear,hmonth]
    refine List.append_left_lt (List.append_left_lt ?_)
    have hle := y.day_le_31
    exact field_lt (by omega) hday _ _ _

variable {u v : PrimitiveDateTime}

/-- Earlier seconds are written before later ones. -/
theorem utcText_lt (h : u.seconds<v.seconds) (hlow : -1≤u.date.year) (hhigh : v.date.year≤9999) :
    utcText u<utcText v := by
  have hu := u.time.seconds_bounds
  have hv := v.time.seconds_bounds
  simp only [PrimitiveDateTime.seconds] at h
  by_cases hdate : u.date.number<v.date.number
  · exact date_lt (Date.number_lt_iff.mp hdate) hlow hhigh _ _
  · have hsame : u.date=v.date := Date.number_injective (by omega)
    rw [utcText,utcText,hsame]
    refine List.append_left_lt (List.append_left_lt (List.append_left_lt ?_))
    rw [hsame] at h
    exact time_lt (by omega) _ _

theorem utcText_of_seconds (h : u.seconds=v.seconds) :
    ∃ same : List Char, utcText u=same++(fractionText u.time.nanosecond++['Z']) ∧
      utcText v=same++(fractionText v.time.nanosecond++['Z']) := by
  have hu := u.time.seconds_bounds
  have hv := v.time.seconds_bounds
  simp only [PrimitiveDateTime.seconds] at h
  have hdate : u.date=v.date := Date.number_injective (by omega)
  have hclock : u.time.seconds=v.time.seconds := by
    rw [hdate] at h
    omega
  have htime := Time.fields_of_seconds hclock
  refine ⟨yearText u.date.year++('-'::padded 2 u.date.month++('-'::padded 2 u.date.day++
    ('T'::padded 2 u.time.hour++(':'::padded 2 u.time.minute++(':'::padded 2 u.time.second))))),
    ?_,?_⟩
  · simp only [utcText,List.append_assoc,List.cons_append]
  · rw [hdate,htime.1,htime.2.1,htime.2.2]
    simp only [utcText,List.append_assoc,List.cons_append]

theorem not_lt_zeros {s : List Char} (h : ∀ c ∈ s, '0'≤c) (n : ℕ) (hn : n ≤ s.length) :
    ¬s<List.replicate n '0' := by
  induction s generalizing n with
  | nil =>
      have hzero : n=0 := by simpa using hn
      rw [hzero]
      exact List.not_lt_nil []
  | cons c s ih =>
      cases n with
      | zero => exact List.not_lt_nil _
      | succ n =>
          rw [List.replicate_succ,List.cons_lt_cons_iff]
          intro hlt
          cases hlt with
          | inl hlt => exact absurd (h c List.mem_cons_self) (not_le.mpr hlt)
          | inr hlt =>
              exact ih (fun x hx => h x (List.mem_cons_of_mem _ hx)) n (by simpa using hn) hlt.2

/-- Digits that come first once filled with zeros come first with anything behind
them, unless the other digits continue them. -/
theorem lt_of_lt_filled {a b : List Char} (ha : ∀ c ∈ a, '0'≤c) {k l : ℕ}
    (hlength : a.length+k=b.length+l) (h : a++List.replicate k '0'<b++List.replicate l '0')
    (hnot : ¬a<+:b) (c d : List Char) : a++c<b++d := by
  induction a generalizing b with
  | nil => exact absurd List.nil_prefix hnot
  | cons x a ih =>
      cases b with
      | nil =>
          refine absurd h (not_lt_zeros ?_ l (by
            rw [List.length_append,List.length_replicate,hlength]
            simp))
          intro y hy
          rcases List.mem_append.mp hy with hy | hy
          · exact ha y hy
          · exact (List.eq_of_mem_replicate hy).ge
      | cons y b =>
          rw [List.cons_append,List.cons_append,List.cons_lt_cons_iff] at h ⊢
          cases h with
          | inl h => exact .inl h
          | inr h =>
              refine .inr ⟨h.1,ih (fun z hz => ha z (List.mem_cons_of_mem _ hz)) ?_ h.2 ?_⟩
              · simpa [Nat.add_right_comm] using hlength
              · intro hpre
                exact hnot (by rw [h.1]; exact (List.prefix_cons_inj y).mpr hpre)

def fractionDigits (nanosecond : ℕ) : List Char := (padded 9 nanosecond).rdropWhile (·== '0')

theorem fractionDigits_fill (nanosecond : ℕ) :
    ∃ k, (fractionDigits nanosecond).length+k=9 ∧
      fractionDigits nanosecond++List.replicate k '0'=padded 9 nanosecond := by
  have hsplit := List.rdropWhile_append_rtakeWhile (p:=(·== '0')) (l:=padded 9 nanosecond)
  have hzeros : ∀ c ∈ (padded 9 nanosecond).rtakeWhile (·== '0'), c= '0' := by
    intro c hc
    simpa using List.mem_rtakeWhile_imp hc
  refine ⟨((padded 9 nanosecond).rtakeWhile (·== '0')).length,?_,?_⟩
  · have hlength := congrArg List.length hsplit
    rw [List.length_append,padded_length] at hlength
    exact hlength
  · rw [←List.eq_replicate_of_mem hzeros]
    exact hsplit

variable {nanosecond : ℕ}

theorem isAsciiDigit_of_mem_fractionDigits {c : Char} (h : c ∈ fractionDigits nanosecond) :
    isAsciiDigit c=true :=
  isAsciiDigit_of_mem_padded ((List.rdropWhile_prefix _ _).subset h)

theorem fractionDigits_ne_nil (hpos : 0<nanosecond) (hlt : nanosecond<10^9) :
    fractionDigits nanosecond≠[] := by
  intro hnil
  obtain ⟨k,hk,hfill⟩ := fractionDigits_fill nanosecond
  rw [hnil,List.nil_append] at hfill
  rw [hnil,List.length_nil,Nat.zero_add] at hk
  have hvalue := digitsValue_padded hlt
  rw [←hfill,hk] at hvalue
  have hzero : digitsValue (List.replicate 9 '0')=0 := by decide
  omega

theorem fractionText_eq (hpos : 0<nanosecond) :
    fractionText nanosecond= '.'::fractionDigits nanosecond := by
  have hne : ¬nanosecond=0 := by omega
  rw [fractionText,if_neg hne,fractionDigits,List.rdropWhile,List.rdropWhile,List.reverse_cons,
    List.dropWhile_append]
  by_cases hempty : ((padded 9 nanosecond).reverse.dropWhile (·== '0')).isEmpty=true
  · rw [if_pos hempty,List.isEmpty_iff.mp hempty]
    rfl
  · rw [if_neg hempty]
    simp

/-- Written fractions name their nanoseconds. -/
theorem fractionText_injective (hm : m<10^9) (hn : n<10^9) (h : fractionText m=fractionText n) :
    m=n := by
  have hwhole : ∀ k, 0<k → fractionText k≠fractionText 0 := by
    intro k hpos
    rw [fractionText_eq hpos]
    exact List.cons_ne_nil _ _
  by_cases hzero : m=0
  · subst hzero
    by_contra hne
    exact hwhole n (by omega) h.symm
  · by_cases hzero' : n=0
    · subst hzero'
      exact absurd h (hwhole m (by omega))
    · rw [fractionText_eq (by omega),fractionText_eq (by omega),List.cons.injEq] at h
      obtain ⟨k,hk,hfill⟩ := fractionDigits_fill m
      obtain ⟨l,hl,hfill'⟩ := fractionDigits_fill n
      have hlength := congrArg List.length h.2
      have hkl : k=l := by omega
      rw [h.2,hkl,hfill'] at hfill
      rw [←digitsValue_padded hm,←hfill,digitsValue_padded hn]

theorem fraction_lt (h : m<n) (hn : n<10^9) (hnot : ¬fractionText m<+:fractionText n) :
    fractionText m++['Z']<fractionText n++['Z'] := by
  have hpos : 0 < m := by
    by_contra hzero
    have hm : m=0 := by omega
    rw [hm] at hnot
    exact hnot List.nil_prefix
  rw [fractionText_eq hpos,fractionText_eq (by omega),List.prefix_cons_inj] at hnot
  rw [fractionText_eq hpos,fractionText_eq (by omega),List.cons_append,List.cons_append,
    List.cons_lt_cons_iff]
  obtain ⟨k,hk,hfill⟩ := fractionDigits_fill m
  obtain ⟨l,hl,hfill'⟩ := fractionDigits_fill n
  have hfilled := padded_lt hn h
  rw [←hfill,←hfill'] at hfilled
  refine .inr ⟨rfl,lt_of_lt_filled ?_ (hk.trans hl.symm) hfilled hnot _ _⟩
  intro c hc
  have hdigit := isAsciiDigit_of_mem_fractionDigits hc
  simp only [isAsciiDigit,decide_eq_true_eq] at hdigit
  exact hdigit.1

theorem lt_zone_of_mem_fractionText {c : Char} (h : c ∈ fractionText n) : c< 'Z' := by
  by_cases hzero : n=0
  · rw [hzero] at h
    exact absurd h List.not_mem_nil
  · rw [fractionText_eq (by omega),List.mem_cons] at h
    cases h with
    | inl h => exact h ▸ (show '.'< 'Z' by decide)
    | inr h =>
        have hdigit := isAsciiDigit_of_mem_fractionDigits h
        simp only [isAsciiDigit,decide_eq_true_eq] at hdigit
        exact lt_of_le_of_lt hdigit.2 (show '9'< 'Z' by decide)

/-- A later fraction that continues the earlier one is written before it: the
closing letter of the shorter text meets a point or a digit. -/
theorem fraction_gt (h : m<n) (hn : n<10^9) (hpre : fractionText m<+:fractionText n) :
    fractionText n++['Z']<fractionText m++['Z'] := by
  obtain ⟨rest,hrest⟩ := hpre
  cases rest with
  | nil =>
      rw [List.append_nil] at hrest
      have heq := fractionText_injective (by omega) hn hrest
      omega
  | cons c rest =>
      have hc : c ∈ fractionText n := by
        rw [←hrest]
        simp
      rw [←hrest,List.append_assoc]
      refine List.append_left_lt ?_
      rw [List.cons_append,List.cons_lt_cons_iff]
      exact .inl (lt_zone_of_mem_fractionText hc)

/-- Nanoseconds from the first midnight of the year zero to a moment in UTC. -/
def PrimitiveDateTime.instant (utc : PrimitiveDateTime) : ℤ :=
  utc.seconds*10^9+utc.time.nanosecond

/-- Two instants of one second, the written fraction of the earlier one being a
beginning of the written fraction of the later one. -/
def Nested (i j : ℤ) : Prop :=
  i<j ∧ i/10^9=j/10^9 ∧ fractionText (i%10^9).toNat<+:fractionText (j%10^9).toNat

instance (i j : ℤ) : Decidable (Nested i j) := inferInstanceAs (Decidable (_ ∧ _ ∧ _))

theorem PrimitiveDateTime.instant_parts (utc : PrimitiveDateTime) :
    utc.instant/10^9=utc.seconds ∧ (utc.instant%10^9).toNat=utc.time.nanosecond := by
  have hnano := utc.time.nanosecond_lt
  simp only [PrimitiveDateTime.instant]
  omega

/-- An earlier moment is written first, unless its fraction is nested in that of
the later one; then it is written last. -/
theorem utcText_order (h : u.instant<v.instant) (hlow : -1≤u.date.year) (hhigh : v.date.year≤9999) :
    if Nested u.instant v.instant then utcText v<utcText u else utcText u<utcText v := by
  have hu := u.instant_parts
  have hv := v.instant_parts
  have hnano := u.time.nanosecond_lt
  have hnano' := v.time.nanosecond_lt
  by_cases hseconds : u.seconds=v.seconds
  · obtain ⟨same,hsame,hsame'⟩ := utcText_of_seconds hseconds
    have hlt : u.time.nanosecond<v.time.nanosecond := by omega
    by_cases hnested : Nested u.instant v.instant
    · rw [if_pos hnested,hsame,hsame']
      have hpre := hnested.2.2
      rw [hu.2,hv.2] at hpre
      exact List.append_left_lt (fraction_gt hlt hnano' hpre)
    · rw [if_neg hnested,hsame,hsame']
      refine List.append_left_lt (fraction_lt hlt hnano' ?_)
      intro hpre
      refine hnested ⟨h,by rw [hu.1,hv.1,hseconds],?_⟩
      rw [hu.2,hv.2]
      exact hpre
  · have hnot : ¬Nested u.instant v.instant := by
      intro hnested
      rw [Nested,hu.1,hv.1] at hnested
      exact hseconds hnested.2.1
    rw [if_neg hnot]
    exact utcText_lt (by omega) hlow hhigh

theorem utcText_of_instant (h : u.instant=v.instant) : utcText u=utcText v := by
  have hu := u.instant_parts
  have hv := v.instant_parts
  rw [h] at hu
  obtain ⟨same,hsame,hsame'⟩ := utcText_of_seconds (hu.1.symm.trans hv.1)
  rw [hsame,hsame',←hu.2,←hv.2]

variable {moment utc : PrimitiveDateTime}

theorem PrimitiveDateTime.checkedSub_seconds {seconds : ℤ} (h : moment.checkedSub seconds=some utc)
    :
    utc.seconds=moment.seconds-seconds ∧ utc.time.nanosecond=moment.time.nanosecond := by
  obtain ⟨date,hdate,hutc⟩ := Option.map_eq_some_iff.mp h
  have hnumber := Date.shift_number hdate
  rw [←hutc]
  refine ⟨?_,rfl⟩
  simp only [PrimitiveDateTime.seconds,hnumber,Time.ofSeconds,Time.seconds]
  omega

theorem PrimitiveDateTime.checkedSub_stored {seconds : ℤ}
    (hmoment : storedYear moment.date.year=true) (h : moment.checkedSub seconds=some utc) :
    storedYear utc.date.year=true := by
  obtain ⟨date,hdate,hutc⟩ := Option.map_eq_some_iff.mp h
  rw [←hutc]
  exact Date.shift_supported hmoment hdate

theorem PrimitiveDateTime.checkedSub_zero (moment : PrimitiveDateTime) :
    moment.checkedSub 0=some moment := by
  have hbounds := moment.time.seconds_bounds
  have hdays : (moment.time.seconds-0)/86400=0 := by omega
  simp only [PrimitiveDateTime.checkedSub,hdays]
  have hshift : moment.date.shift storedYear 0=some moment.date := rfl
  rw [hshift,Option.map_some,Option.some.injEq]
  have hminute := moment.time.minute_lt
  have hsecond := moment.time.second_lt
  refine PrimitiveDateTime.ext rfl (Time.ext ?_ ?_ ?_ rfl)
  all_goals
    simp only [Time.seconds] at hbounds
    simp only [Time.ofSeconds,Time.seconds]
    omega

theorem readOffset_bounds {rest : List Char} {offset : ℤ} (h : readOffset rest=some offset) :
    -90000≤offset ∧ offset≤90000 := by
  unfold readOffset at h
  split at h
  · simp only [Option.some.injEq] at h
    omega
  · split at h
    · exact absurd h (by simp)
    · obtain ⟨hours,_,h⟩ := Option.bind_eq_some_iff.mp h
      obtain ⟨minutes,_,h⟩ := Option.bind_eq_some_iff.mp h
      by_cases hlarge : 24<hours ∨ 60 < minutes
      · rw [if_pos hlarge] at h
        exact absurd h (by simp)
      · rw [if_neg hlarge,Option.some.injEq] at h
        rw [←h]
        split <;> omega

theorem utcParts_bounds {s : List Char} {offset : ℤ} (h : utcParts s=some (moment,offset)) :
    0 ≤ moment.date.year ∧ storedYear moment.date.year=true ∧ -90000≤offset ∧ offset≤90000 := by
  unfold utcParts at h
  split at h
  · exact absurd h (by simp)
  · obtain ⟨year,_,h⟩ := Option.bind_eq_some_iff.mp h
    obtain ⟨month,_,h⟩ := Option.bind_eq_some_iff.mp h
    obtain ⟨day,_,h⟩ := Option.bind_eq_some_iff.mp h
    obtain ⟨clock,_,h⟩ := Option.bind_eq_some_iff.mp h
    obtain ⟨zone,hzone,h⟩ := Option.bind_eq_some_iff.mp h
    obtain ⟨date,hdate,h⟩ := Option.bind_eq_some_iff.mp h
    obtain ⟨time,_,h⟩ := Option.map_eq_some_iff.mp h
    simp only [Prod.mk.injEq] at h
    unfold fromCalendarDate at hdate
    split at hdate
    · rename_i hstored
      have hyear := Date.ofCalendar_year hdate
      rw [←h.1,←h.2]
      dsimp only
      rw [hyear]
      exact ⟨Int.natCast_nonneg year,hstored,readOffset_bounds hzone⟩
    · exact absurd hdate (by simp)

/-- The instant of a text is that of its moment in UTC, whose year is at least
minus one and stored, and not negative exactly from the instant zero on. -/
theorem utcTime_moment {s a : String} (h : utcTime s=some a) :
    ∃ utc : PrimitiveDateTime, a=String.ofList (utcText utc) ∧ instant s=some utc.instant ∧
      -1≤utc.date.year ∧ utc.date.year≤9999 ∧ (0≤utc.date.year ↔ 0≤utc.instant) := by
  obtain ⟨⟨moment,offset⟩,hparts,h⟩ := Option.bind_eq_some_iff.mp h
  obtain ⟨utc,hutc,htext⟩ := Option.map_eq_some_iff.mp h
  obtain ⟨hyear,hstored,hoffset⟩ := utcParts_bounds hparts
  have hseconds := PrimitiveDateTime.checkedSub_seconds hutc
  have hstored' := PrimitiveDateTime.checkedSub_stored hstored hutc
  have htime := utc.time.seconds_bounds
  have hlocal := moment.time.seconds_bounds
  have hstart : daysBeforeYear 0=0 := rfl
  have hfirst := daysBeforeYear_mono hyear
  have hnumber := moment.date.year_le_number
  have hlow := utc.date.year_le_number
  have hhigh := utc.date.number_lt_year
  have hlast : daysBeforeYear (-1)= -365 := rfl
  simp only [storedYear,decide_eq_true_eq] at hstored'
  have hdays : utc.date.number*86400+utc.time.seconds=
      moment.date.number*86400+moment.time.seconds-offset := hseconds.1
  refine ⟨utc,htext.symm,?_,?_,hstored'.2,?_⟩
  · rw [instant,hparts,Option.map_some,Option.some.injEq]
    simp only [PrimitiveDateTime.instant]
    rw [hseconds.1,hseconds.2]
  · by_contra hbefore
    have hmono := daysBeforeYear_mono (show utc.date.year+1≤ -1 by omega)
    omega
  · have hnano := utc.time.nanosecond_lt
    simp only [PrimitiveDateTime.instant,PrimitiveDateTime.seconds]
    by_cases hnegative : 0≤utc.date.year
    · have hmono := daysBeforeYear_mono hnegative
      omega
    · have hmono := daysBeforeYear_mono (show utc.date.year+1≤0 by omega)
      omega

theorem number_padded {width n : ℕ} (hpos : 0<width) (hwidth : width≤9) (h : n<10^width) :
    number (padded width n)=some n := by
  have hne : padded width n≠[] := by
    intro hnil
    have hlength := padded_length width n
    rw [hnil,List.length_nil] at hlength
    omega
  have hdigits : (padded width n).all isAsciiDigit=true :=
    List.all_eq_true.mpr fun c hc => isAsciiDigit_of_mem_padded hc
  have hsmall : n<2^32 := lt_of_lt_of_le h
    (le_trans (Nat.pow_le_pow_right (by omega) hwidth) (by decide))
  rw [number,digitsValue_padded h,if_neg]
  rintro (hnil | hall | hlarge)
  · exact hne hnil
  · exact hall hdigits
  · omega

theorem digitsValue_zeros (s : List Char) (k : ℕ) :
    digitsValue (s++List.replicate k '0')=digitsValue s*10^k := by
  induction k with
  | zero => simp
  | succ k ih =>
      rw [List.replicate_succ',←List.append_assoc,digitsValue_concat,ih,pow_succ]
      simp [mul_assoc]

theorem readFraction_fractionText {n : ℕ} (h : n<10^9) :
    readFraction (fractionText n++['Z'])=some (n,['Z']) := by
  by_cases hzero : n=0
  · rw [hzero]
    rfl
  · have hpos : 0<n := by omega
    have hdigits := fun c => @isAsciiDigit_of_mem_fractionDigits n c
    have hne := fractionDigits_ne_nil hpos h
    obtain ⟨k,hk,hfill⟩ := fractionDigits_fill n
    have hread : (fractionDigits n++['Z']).takeWhile isAsciiDigit=fractionDigits n := by
      rw [List.takeWhile_append_of_pos hdigits]
      exact List.append_nil _
    have hnine : (fractionDigits n).take 9=fractionDigits n := List.take_of_length_le (by omega)
    have hvalue : digitsValue (fractionDigits n)*10^(9-(fractionDigits n).length)=n := by
      rw [show 9-(fractionDigits n).length=k by omega,←digitsValue_zeros,hfill,
        digitsValue_padded h]
    have hsmall : digitsValue (fractionDigits n)<2^32 := by
      have hle := Nat.le_mul_of_pos_right (digitsValue (fractionDigits n))
        (show 0<10^(9-(fractionDigits n).length) by positivity)
      omega
    have hnumber : number (fractionDigits n)=some (digitsValue (fractionDigits n)) := by
      rw [number,if_neg]
      rintro (hnil | hall | hlarge)
      · exact hne hnil
      · exact hall (List.all_eq_true.mpr hdigits)
      · omega
    rw [fractionText_eq hpos,List.cons_append,readFraction,readFraction.digits]
    simp only [hread,hne,hnine,hnumber,if_false,Option.map_some,hvalue,List.drop_left]

theorem padded_two (n : ℕ) : ∃ a b, padded 2 n=[a,b] := ⟨_,_,rfl⟩

theorem padded_four (n : ℕ) : ∃ a b c d, padded 4 n=[a,b,c,d] := ⟨_,_,_,_,rfl⟩

theorem readClock_text (time : Time) :
    readClock (padded 2 time.hour++(':'::padded 2 time.minute++(':'::padded 2 time.second++
      (fractionText time.nanosecond++['Z']))))=
        some (time.hour,time.minute,time.second,time.nanosecond,['Z']) := by
  have hhour := @number_padded 2 time.hour (by omega) (by omega)
    (lt_trans time.hour_lt (by decide : 24<10^2))
  have hminute := @number_padded 2 time.minute (by omega) (by omega)
    (lt_trans time.minute_lt (by decide : 60<10^2))
  have hsecond := @number_padded 2 time.second (by omega) (by omega)
    (lt_trans time.second_lt (by decide : 60<10^2))
  have hfraction := readFraction_fractionText time.nanosecond_lt
  have hcolon : ∀ c, isAsciiDigit c=true → c≠ ':' := by
    intro c hc hcolon
    rw [hcolon] at hc
    exact absurd hc (by decide)
  have hdigits := fun c => @isAsciiDigit_of_mem_padded 2 time.hour c
  obtain ⟨a,b,hab⟩ := padded_two time.hour
  obtain ⟨c,d,hcd⟩ := padded_two time.minute
  obtain ⟨e,f,hef⟩ := padded_two time.second
  rw [hab] at hhour hdigits ⊢
  rw [hcd] at hminute ⊢
  rw [hef] at hsecond ⊢
  have ha := hcolon a (hdigits a (by simp))
  have hb := hcolon b (hdigits b (by simp))
  simp [readClock,slice,ha,hb,hhour,hminute,hsecond,hfraction]

theorem utcText_ascii : (utcText utc).all (·.toNat<128)=true := by
  have hdigit : ∀ {width n : ℕ} {c : Char}, c ∈ padded width n → c.toNat<128 := by
    intro width n c hc
    have hd := isAsciiDigit_of_mem_padded hc
    simp only [isAsciiDigit,decide_eq_true_eq] at hd
    exact lt_of_le_of_lt (show c.toNat≤('9').toNat from hd.2) (by decide)
  have hfraction : ∀ {n : ℕ} {c : Char}, c ∈ fractionText n → c.toNat<128 := by
    intro n c hc
    exact lt_trans (show c.toNat<('Z').toNat from lt_zone_of_mem_fractionText hc) (by decide)
  rw [List.all_eq_true]
  intro c hc
  rw [decide_eq_true_eq]
  have hyear : c ∈ yearText utc.date.year → c.toNat<128 := by
    intro hmem
    unfold yearText at hmem
    split at hmem
    · cases List.mem_cons.mp hmem with
      | inl h => exact h ▸ (by decide)
      | inr h => exact hdigit h
    · exact hdigit hmem
  simp only [utcText,List.mem_append,List.mem_cons,List.not_mem_nil,or_false,or_assoc] at hc
  rcases hc with h | h | h | h | h | h | h | h | h | h | h | h | h
  · exact hyear h
  all_goals first | exact hdigit h | exact hfraction h | exact h ▸ (by decide)

theorem utcParts_utcText {utc : PrimitiveDateTime} (hlow : 0≤utc.date.year)
    (hhigh : utc.date.year≤9999) : utcParts (utcText utc)=some (utc,0) := by
  have hascii := @utcText_ascii utc
  have hclock := readClock_text utc.time
  have hle := utc.date.day_le_31
  have hmonth := @number_padded 2 utc.date.month (by omega) (by omega)
    (lt_of_le_of_lt utc.date.month_le (by decide : 12<10^2))
  have hday := @number_padded 2 utc.date.day (by omega) (by omega)
    (lt_of_le_of_lt hle (by decide : 31<10^2))
  have hyear := @number_padded 4 utc.date.year.toNat (by omega) (by omega) (by omega)
  have hdate : fromCalendarDate utc.date.year.toNat utc.date.month utc.date.day=some utc.date := by
    have hcast : (utc.date.year.toNat : ℤ)=utc.date.year := Int.toNat_of_nonneg hlow
    have hstored : storedYear utc.date.year=true := by
      rw [storedYear,decide_eq_true_eq]
      omega
    rw [fromCalendarDate,hcast,if_pos hstored,Date.ofCalendar_parts]
  have htime : Time.fromHmsNano utc.time.hour utc.time.minute utc.time.second utc.time.nanosecond=
      some utc.time := by
    rw [Time.fromHmsNano,dif_pos ⟨⟨utc.time.hour_lt,utc.time.minute_lt⟩,utc.time.second_lt,
      utc.time.nanosecond_lt⟩]
  rw [utcParts,hascii]
  simp only [utcText,yearText,if_neg (show ¬utc.date.year<0 by omega)]
  obtain ⟨a,b,c,d,habcd⟩ := padded_four utc.date.year.toNat
  obtain ⟨e,f,hef⟩ := padded_two utc.date.month
  obtain ⟨g,h,hgh⟩ := padded_two utc.date.day
  rw [habcd] at hyear ⊢
  rw [hef] at hmonth ⊢
  rw [hgh] at hday ⊢
  rw [if_neg (by simp [slice]; omega)]
  change (number [a,b,c,d]).bind (fun year => (number [e,f]).bind fun month =>
    (number [g,h]).bind fun day => (readClock _).bind fun clock =>
    (readOffset clock.2.2.2.2).bind fun offset => (fromCalendarDate year month day).bind fun date =>
    (Time.fromHmsNano clock.1 clock.2.1 clock.2.2.1 clock.2.2.2.1).map fun time =>
      ((⟨date,time⟩ : PrimitiveDateTime),offset))=_
  rw [hyear,Option.bind_some,hmonth,Option.bind_some,hday,Option.bind_some]
  erw [hclock]
  rw [Option.bind_some]
  change (fromCalendarDate utc.date.year.toNat utc.date.month utc.date.day).bind _=_
  rw [hdate,Option.bind_some,htime]
  rfl

theorem utcParts_negative {utc : PrimitiveDateTime} (h : utc.date.year<0) :
    utcParts (utcText utc)=none := by
  obtain ⟨a,b,c,d,habcd⟩ := padded_four (-utc.date.year).toNat
  have hd := @isAsciiDigit_of_mem_padded 4 (-utc.date.year).toNat d
  rw [habcd] at hd
  have hdigit := hd (by simp)
  have hne : d≠ '-' := by
    intro hdash
    rw [hdash] at hdigit
    exact absurd hdigit (by decide)
  rw [utcParts,if_pos]
  refine .inr (.inr (.inl ?_))
  simp only [utcText,yearText,if_pos h,habcd]
  simpa [slice] using hne

/-- Canonical texts of accepted timestamps are ordered like their instants except
within one second, when the trimmed fraction of the earlier instant begins that of
the later one: then the order is reversed. A canonical text is its own canonical
text from the year zero on, and is refused when an offset moved it before. -/
theorem utcTime_order {s t a b : String} (hs : utcTime s=some a) (ht : utcTime t=some b) :
    ∃ i j, instant s=some i ∧ instant t=some j ∧
      (a≤b ↔ if Nested i j ∨ Nested j i then j ≤ i else i≤j) ∧
      utcTime a=if 0 ≤ i then some a else none := by
  obtain ⟨u,ha,hi,hulow,huhigh,hyear⟩ := utcTime_moment hs
  obtain ⟨v,hb,hj,hvlow,hvhigh,_⟩ := utcTime_moment ht
  refine ⟨u.instant,v.instant,hi,hj,?_,?_⟩
  · have hle : a≤b ↔ ¬utcText v<utcText u := by
      rw [ha,hb]
      change ¬(String.ofList (utcText v)).toList<(String.ofList (utcText u)).toList ↔ _
      rw [String.toList_ofList,String.toList_ofList]
    rw [hle]
    by_cases hlt : u.instant<v.instant
    · have horder := utcText_order hlt hulow hvhigh
      have hnot : ¬Nested v.instant u.instant := fun h => absurd h.1 (by omega)
      by_cases hnested : Nested u.instant v.instant
      · rw [if_pos hnested] at horder
        rw [if_pos (.inl hnested)]
        exact iff_of_false (not_not.mpr horder) (by omega)
      · rw [if_neg hnested] at horder
        rw [if_neg (not_or.mpr ⟨hnested,hnot⟩)]
        exact iff_of_true (List.lt_asymm horder) hlt.le
    · have hnot : ¬Nested u.instant v.instant := fun h => hlt h.1
      by_cases hgt : v.instant<u.instant
      · have horder := utcText_order hgt hvlow huhigh
        by_cases hnested : Nested v.instant u.instant
        · rw [if_pos hnested] at horder
          rw [if_pos (.inr hnested)]
          exact iff_of_true (List.lt_asymm horder) hgt.le
        · rw [if_neg hnested] at horder
          rw [if_neg (not_or.mpr ⟨hnot,hnested⟩)]
          exact iff_of_false (not_not.mpr horder) (by omega)
      · have heq : u.instant=v.instant := by omega
        rw [utcText_of_instant heq,heq,ite_self]
        exact iff_of_true (List.lt_irrefl _) le_rfl
  · rw [utcTime,ha,String.toList_ofList]
    by_cases hlow : 0≤u.instant
    · rw [if_pos hlow,utcParts_utcText (hyear.mpr hlow) huhigh,Option.bind_some,
        PrimitiveDateTime.checkedSub_zero]
      rfl
    · rw [if_neg hlow,utcParts_negative (by omega)]
      rfl

/-- A whole second and the half second after it, and a first midnight that an
offset moves before the year zero. -/
theorem utcTime_order_half : ∃ i j, instant "2024-05-01T12:00:00Z"=some i ∧
    instant "2024-05-01T12:00:00.5Z"=some j ∧
      ("2024-05-01T12:00:00Z"≤"2024-05-01T12:00:00.5Z" ↔
        if Nested i j ∨ Nested j i then j ≤ i else i≤j) ∧
      utcTime "2024-05-01T12:00:00Z"=if 0 ≤ i then some "2024-05-01T12:00:00Z" else none :=
  utcTime_order (by decide +kernel) (by decide +kernel)

/-- The half second is written before its whole second, and the canonical text of
a moment in the year minus one is not accepted again. -/
theorem utcTime_not_ordered :
    ¬(∀ s t a b i j, utcTime s=some a → utcTime t=some b → instant s=some i →
        instant t=some j → (a≤b ↔ i≤j)) ∧
      ¬∀ s a, utcTime s=some a → utcTime a=some a := by
  constructor
  · intro h
    have horder := h "2024-05-01T12:00:00Z" "2024-05-01T12:00:00.5Z" "2024-05-01T12:00:00Z"
      "2024-05-01T12:00:00.5Z" 63881784000000000000 63881784000500000000 (by decide +kernel)
      (by decide +kernel) (by decide +kernel) (by decide +kernel)
    exact absurd (horder.mpr (by decide)) (by decide +kernel)
  · intro h
    have hagain := h "0000-01-01T00:00:00+01:00" "-0001-12-31T23:00:00Z" (by decide +kernel)
    exact absurd hagain (by decide +kernel)

end Librairii.UtcTimestamps
