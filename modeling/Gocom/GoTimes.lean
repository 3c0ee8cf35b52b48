import Gocom.NumberTexts
import Mathlib.Algebra.GroupWithZero.Nat

/-!
# Points in time

A point in time is known by the seconds since the first day of the year 1, a signed number of 64
bits, and the nanoseconds in the second. The library also counts the seconds from the epoch, of the
proleptic Gregorian calendar, and reads texts of dates.
-/

namespace Gocom

@[ext] structure Time where
  sec : ℤ
  nsec : ℕ
  sec_inRange : NumKind.int64.InRange sec
  nsec_lt : nsec < 10 ^ 9
  deriving DecidableEq

namespace NumKind

theorem int64_inRange_iff {n : ℤ} : int64.InRange n ↔ -2 ^ 63 ≤ n ∧ n < 2 ^ 63 := Iff.rfl

theorem int64_wrap (n : ℤ) : int64.wrap n = n.bmod (2 ^ 64) := rfl

theorem int64_wrap_eq_self {n : ℤ} (h : -2 ^ 63 ≤ n ∧ n < 2 ^ 63) : int64.wrap n = n :=
  (int64.wrap_eq_self_iff n).mpr h

theorem int64_inRange_wrap (n : ℤ) : int64.InRange (int64.wrap n) := by
  rw [int64_inRange_iff, int64_wrap, Int.bmod]
  omega

end NumKind

/-- The seconds from the zero time to the epoch. -/
def unixToInternal : ℤ := 62135596800

namespace Time

def isZero (t : Time) : Prop := t.sec = 0 ∧ t.nsec = 0

instance (t : Time) : Decidable t.isZero := inferInstanceAs (Decidable (_ ∧ _))

/-- `t.Unix()`. -/
def unix (t : Time) : ℤ := NumKind.int64.wrap (t.sec - unixToInternal)

def Before (t u : Time) : Prop := t.sec < u.sec ∨ t.sec = u.sec ∧ t.nsec < u.nsec

instance (t u : Time) : Decidable (t.Before u) := inferInstanceAs (Decidable (_ ∨ _))

/-- The seconds and nanoseconds of a time, where there are more nanoseconds than in a second or
fewer than none. -/
def carry (sec nsec : ℤ) : ℤ × ℤ :=
  if nsec < 0 ∨ 10 ^ 9 ≤ nsec then
    let n := nsec.tdiv (10 ^ 9)
    let rest := nsec - n * 10 ^ 9
    if rest < 0 then (sec + n - 1, rest + 10 ^ 9) else (sec + n, rest)
  else (sec, nsec)

theorem carry_eq (sec nsec : ℤ) : carry sec nsec = (sec + nsec / 10 ^ 9, nsec % 10 ^ 9) := by
  have hsign : Int.sign (10 ^ 9) = 1 := rfl
  rw [carry, Int.tdiv_eq_ediv, hsign]
  dsimp only
  split_ifs <;> ext <;> dsimp only <;> omega

/-- `time.Unix(sec, nsec)`. -/
def ofUnix (sec nsec : ℤ) : Time where
  sec := NumKind.int64.wrap ((carry sec nsec).1 + unixToInternal)
  nsec := (carry sec nsec).2.toNat
  sec_inRange := NumKind.int64_inRange_wrap _
  nsec_lt := by
    rw [carry_eq]
    dsimp only
    omega

@[simp] theorem ofUnix_sec (sec nsec : ℤ) :
    (ofUnix sec nsec).sec = NumKind.int64.wrap (sec + nsec / 10 ^ 9 + unixToInternal) :=
  congrArg (fun c : ℤ × ℤ => NumKind.int64.wrap (c.1 + unixToInternal)) (carry_eq sec nsec)

@[simp] theorem ofUnix_nsec (sec nsec : ℤ) : (ofUnix sec nsec).nsec = (nsec % 10 ^ 9).toNat :=
  congrArg (fun c : ℤ × ℤ => c.2.toNat) (carry_eq sec nsec)

/-- A sum of seconds that overflows stays at the end of the range. -/
def saturate (n : ℤ) : ℤ := if 2 ^ 63 ≤ n then 2 ^ 63 - 1 else if n < -2 ^ 63 then -(2 ^ 63 - 1) else n

theorem saturate_eq_self {n : ℤ} (h : -2 ^ 63 ≤ n ∧ n < 2 ^ 63) : saturate n = n := by
  unfold saturate
  rw [if_neg (by omega), if_neg (by omega)]

/-- `t.Add(d)`, a duration being a number of nanoseconds. -/
def add (t : Time) (d : ℤ) : Time where
  sec := saturate (t.sec + (t.nsec + d) / 10 ^ 9)
  nsec := ((t.nsec + d) % 10 ^ 9).toNat
  sec_inRange := by
    rw [NumKind.int64_inRange_iff, saturate]
    split_ifs <;> omega
  nsec_lt := by omega

/-- The nanoseconds from the zero time. -/
def nanos (t : Time) : ℤ := t.sec * 10 ^ 9 + t.nsec

theorem before_iff (t u : Time) : t.Before u ↔ t.nanos < u.nanos := by
  have ht := t.nsec_lt
  have hu := u.nsec_lt
  unfold Before nanos
  omega

theorem nanos_add {t : Time} {d : ℤ} (h : NumKind.int64.InRange (t.sec + (t.nsec + d) / 10 ^ 9)) :
    (t.add d).nanos = t.nanos + d := by
  rw [NumKind.int64_inRange_iff] at h
  have hsec : (t.add d).sec = t.sec + (t.nsec + d) / 10 ^ 9 := saturate_eq_self h
  have hnsec : (t.add d).nsec = ((t.nsec + d) % 10 ^ 9).toNat := rfl
  rw [nanos, nanos, hsec, hnsec]
  omega

/-- The same time with the nanoseconds of whole milliseconds only. -/
def truncateMilli (t : Time) : Time where
  sec := t.sec
  nsec := t.nsec / 10 ^ 6 * 10 ^ 6
  sec_inRange := t.sec_inRange
  nsec_lt := (Nat.div_mul_le_self _ _).trans_lt t.nsec_lt

end Time

/-! ## Dates -/

structure Date where
  year : ℕ
  month : ℕ
  day : ℕ
  deriving DecidableEq

namespace Date

def isLeap (year : ℕ) : Bool := year % 4 = 0 ∧ (year % 100 ≠ 0 ∨ year % 400 = 0)

def daysIn (month year : ℕ) : ℕ :=
  match month with
  | 2 => if isLeap year then 29 else 28
  | 4 | 6 | 9 | 11 => 30
  | _ => 31

/-- The days of a year before a month. -/
def daysBefore (month year : ℕ) : ℕ := ((List.range' 1 (month - 1)).map fun m => daysIn m year).sum

/-- The days from the first day of the year 1. -/
def days (d : Date) : ℤ :=
  let y : ℤ := d.year - 1
  365 * y + y / 4 - y / 100 + y / 400 + daysBefore d.month d.year + (d.day - 1)

example : (Date.mk 1970 1 1).days * 86400 = unixToInternal := by decide

end Date

theorem second_pos : 0 < 10 ^ 9 := by decide

/-- `time.Date` in UTC, given the seconds of the day. -/
def Time.ofDate (d : Date) (second nsec : ℕ) (h : nsec < 10 ^ 9) : Time where
  sec := NumKind.int64.wrap (d.days * 86400 + second)
  nsec := nsec
  sec_inRange := NumKind.int64_inRange_wrap _
  nsec_lt := h

/-! ## Texts of dates -/

def digitValue (b : UInt8) : ℕ := b.toNat - 48

def numberOf (s : Bytes) : ℕ := s.foldl (fun n b => n * 10 + digitValue b) 0

/-- One or two digits from the front of a text; `fixed` asks for two. -/
def getnum (fixed : Bool) : Bytes → Option (ℕ × Bytes)
  | [] => none
  | [b] => if isDigit b && !fixed then some (digitValue b, []) else none
  | b :: c :: rest =>
    if !isDigit b then none
    else if isDigit c then some (numberOf [b, c], rest)
    else if fixed then none
    else some (digitValue b, c :: rest)

/-- `skip` of a sign that is no space. -/
def skipSign (sign : UInt8) : Bytes → Option Bytes
  | [] => none
  | b :: rest => if b = sign then some rest else none

def getYear (s : Bytes) : Option (ℕ × Bytes) :=
  if (s.take 4).length = 4 ∧ (s.take 4).all isDigit then some (numberOf (s.take 4), s.drop 4) else none

/-- A number of two digits below a limit, behind a sign. -/
def getField (sign : UInt8) (fixed : Bool) (limit : ℕ) (s : Bytes) : Option (ℕ × Bytes) := do
  let s ← skipSign sign s
  let (n, s) ← getnum fixed s
  if n < limit then some (n, s) else none

/-- The elements `2006-01-02` of a layout. -/
def getDate (s : Bytes) : Option (Date × Bytes) := do
  let (year, s) ← getYear s
  let (month, s) ← getField 45 true 13 s
  let (day, s) ← getField 45 true 100 s
  if month = 0 then none else some (⟨year, month, day⟩, s)

/-- A day that the month does not have is found last. -/
def Date.checked (d : Date) : Option Date :=
  if 1 ≤ d.day ∧ d.day ≤ daysIn d.month d.year then some d else none

/-- `time.Parse("2006-01-02", s)`. -/
def parseDate (s : Bytes) : Option Time := do
  let (d, s) ← getDate s
  if s ≠ [] then none
  else do
    let d ← d.checked
    some (Time.ofDate d 0 0 second_pos)

/-- A fraction of the second, which no layout asks for. -/
def getFraction : Bytes → ℕ × Bytes
  | sign :: b :: rest =>
    if (sign = 46 ∨ sign = 44) ∧ isDigit b then
      let digits := (b :: rest).takeWhile isDigit
      (numberOf (digits.take 9) * 10 ^ (9 - (digits.take 9).length), (b :: rest).dropWhile isDigit)
    else (0, sign :: b :: rest)
  | s => (0, s)

/-- The elements ` 15:04:05`: the seconds of the day, and the nanoseconds. -/
def getClock (s : Bytes) : Option (ℕ × ℕ × Bytes) := do
  let s ← if s = [] ∨ s.head? = some 32 then some (s.dropWhile (· = 32)) else none
  let (hour, s) ← getnum false s
  if 24 ≤ hour then none
  else do
    let (minute, s) ← getField 58 true 60 s
    let (second, s) ← getField 58 true 60 s
    let (nsec, s) := getFraction s
    some (hour * 3600 + minute * 60 + second, nsec, s)

/-- `time.Parse("2006-01-02 15:04:05", s)`. -/
def parseDateTime (s : Bytes) : Option Time := do
  let (d, s) ← getDate s
  let (second, nsec, s) ← getClock s
  if s ≠ [] then none
  else do
    let d ← d.checked
    if h : nsec < 10 ^ 9 then some (Time.ofDate d second nsec h) else none

example : (parseDateTime (asciiBytes "1970-01-01 00:01:02.5")).map (fun t => (t.unix, t.nsec)) =
    some (62, 500000000) := by decide

end Gocom
