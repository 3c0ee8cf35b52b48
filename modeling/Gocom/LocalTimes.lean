import Gocom.GoTimes

/-!
# Stored times

A local time is stored as a number of milliseconds since the epoch and read back from it, or from a
text. A timestamp is such a number itself.
-/

namespace Gocom

/-- What a driver delivers or takes; of a value of another type only the type counts. -/
inductive DriverValue where
  | int64 (n : ℤ)
  | string (s : Bytes)
  | bytes (s : Bytes)
  | time (t : Time)
  | nil
  | other (typeName : String)
  deriving DecidableEq

inductive ConvertError where
  | parse (s : Bytes)
  | unsupported (text : String)
  deriving DecidableEq

namespace LocalTime

/-- The milliseconds of a time, in 64 bits. -/
def millis (t : Time) : ℤ :=
  NumKind.int64.wrap (NumKind.int64.wrap (t.unix * 1000) + (t.nsec / 1000000 : ℕ))

def value (lt : Time) : DriverValue := if lt.isZero then .nil else .int64 (millis lt)

end LocalTime

/-- What `dest` is afterwards. -/
def convertTime (dest : Time) : DriverValue → Except ConvertError Time
  | .int64 s => .ok (.ofUnix (s.tdiv 1000) (s.tmod 1000))
  | .string s | .bytes s => (parseDateTime s).elim (.error (.parse s)) .ok
  | .time s => .ok s
  | .nil => .ok dest
  | .other typeName =>
    .error (.unsupported ("unsupported driver -> Scan pair: " ++ typeName ++ " -> *behaviors.LocalTime"))

namespace LocalTime

def scan (lt : Time) (value : DriverValue) : Except ConvertError Time :=
  if value = .nil then .ok lt else convertTime lt value

end LocalTime

/-- `Timestamp.Time`. -/
def timestampTime (t : ℤ) : Time := .ofUnix (t.tdiv 1000) (t.tmod 1000 * 1000000)

/-! ## Reading back -/

theorem NumKind.int64_wrap_wrap_add (m n : ℤ) : int64.wrap (int64.wrap m + n) = int64.wrap (m + n) := by
  rw [int64_wrap, int64_wrap, int64_wrap, Int.bmod_add_bmod]

theorem LocalTime.inRange_millis (t : Time) : NumKind.int64.InRange (millis t) :=
  NumKind.int64_inRange_wrap _

theorem exists_quotient_thousand (v : ℤ) :
    ∃ q r, v.tdiv 1000 = q ∧ v.tmod 1000 = r ∧ v = 1000 * q + r ∧ -1000 < r ∧ r < 1000 :=
  ⟨_, _, rfl, rfl, (Int.mul_tdiv_add_tmod v 1000).symm, Int.lt_tmod_of_pos v (by decide),
    Int.tmod_lt_of_pos v (by decide)⟩

/-- Whole seconds only are read back. -/
theorem ofUnix_millis_eq_iff {v : ℤ} (hv : NumKind.int64.InRange v) (t : Time) :
    Time.ofUnix (v.tdiv 1000) (v.tmod 1000) = t.truncateMilli ↔
      t.nsec < 10 ^ 6 ∧ v = 1000 * (t.sec - unixToInternal) := by
  have hnsec := t.nsec_lt
  rw [NumKind.int64_inRange_iff] at hv
  obtain ⟨q, r, hq, hr, hsplit, hlow, hhigh⟩ := exists_quotient_thousand v
  have hwrap : NumKind.int64.wrap (q + r / 10 ^ 9 + unixToInternal) = q + r / 10 ^ 9 + unixToInternal :=
    NumKind.int64_wrap_eq_self (by unfold unixToInternal; omega)
  rw [Time.ext_iff, Time.ofUnix_sec, Time.ofUnix_nsec, hq, hr, hwrap]
  simp only [Time.truncateMilli]
  constructor
  · rintro ⟨hsec, hrest⟩
    omega
  · rintro ⟨hsmall, hv'⟩
    omega

theorem millis_eq_iff {t : Time} (ht : t.nsec < 10 ^ 6) :
    LocalTime.millis t = 1000 * (t.sec - unixToInternal) ↔
      -9223372036854775 ≤ t.sec - unixToInternal ∧ t.sec - unixToInternal ≤ 9223372036854775 := by
  have hzero : t.nsec / 1000000 = 0 := Nat.div_eq_of_lt ht
  have hmillis : LocalTime.millis t = NumKind.int64.wrap (t.unix * 1000) := by
    rw [LocalTime.millis, hzero, Int.natCast_zero, Int.add_zero,
      NumKind.int64_wrap_eq_self (NumKind.int64_inRange_wrap _)]
  rw [hmillis]
  constructor
  · intro h
    have hrange := NumKind.int64_inRange_wrap (t.unix * 1000)
    rw [h, NumKind.int64_inRange_iff] at hrange
    omega
  · intro h
    have hunix : t.unix = t.sec - unixToInternal := NumKind.int64_wrap_eq_self (by omega)
    rw [hunix, NumKind.int64_wrap_eq_self (by omega), Int.mul_comm]

theorem localTime_roundTrip_iff (t dest : Time) (h : ¬ t.isZero) :
    (∃ v, LocalTime.value t = .int64 v ∧ convertTime dest (.int64 v) = .ok t.truncateMilli) ↔
      t.nsec < 10 ^ 6 ∧
        -9223372036854775 ≤ t.sec - unixToInternal ∧ t.sec - unixToInternal ≤ 9223372036854775 := by
  have hvalue : LocalTime.value t = .int64 (LocalTime.millis t) := if_neg h
  have hconvert : (∃ v, LocalTime.value t = .int64 v ∧ convertTime dest (.int64 v) = .ok t.truncateMilli) ↔
      Time.ofUnix ((LocalTime.millis t).tdiv 1000) ((LocalTime.millis t).tmod 1000) = t.truncateMilli := by
    rw [hvalue]
    simp [convertTime]
  rw [hconvert, ofUnix_millis_eq_iff (LocalTime.inRange_millis t)]
  exact and_congr_right fun ht => millis_eq_iff ht

theorem localTime_roundTrip_iff_epoch :
    ¬ (Time.ofUnix 0 999999).isZero ∧
      ∃ v, LocalTime.value (.ofUnix 0 999999) = .int64 v ∧
        convertTime (.ofUnix 5 0) (.int64 v) = .ok (Time.ofUnix 0 999999).truncateMilli :=
  ⟨by decide, (localTime_roundTrip_iff (.ofUnix 0 999999) (.ofUnix 5 0) (by decide)).mpr (by decide)⟩

/-- Half a second after the epoch is read back as half a microsecond. -/
theorem localTime_roundTrip_loses :
    LocalTime.value (.ofUnix 0 500000000) = .int64 500 ∧
      convertTime (.ofUnix 5 0) (.int64 500) = .ok (.ofUnix 0 500) ∧
      Time.ofUnix 0 500 ≠ (Time.ofUnix 0 500000000).truncateMilli := by
  decide

/-- A timestamp keeps the milliseconds of the number that a local time is stored as. -/
theorem timestampTime_millis {t : Time}
    (h : -2 ^ 63 ≤ (t.sec - unixToInternal) * 1000 + (t.nsec / 1000000 : ℕ) ∧
      (t.sec - unixToInternal) * 1000 + (t.nsec / 1000000 : ℕ) < 2 ^ 63) :
    timestampTime (LocalTime.millis t) = t.truncateMilli := by
  have hnsec := t.nsec_lt
  have hsec := NumKind.int64_inRange_iff.mp t.sec_inRange
  have hunix : t.unix = t.sec - unixToInternal :=
    NumKind.int64_wrap_eq_self (by unfold unixToInternal at h ⊢; omega)
  have hmillis : LocalTime.millis t = (t.sec - unixToInternal) * 1000 + (t.nsec / 1000000 : ℕ) := by
    rw [LocalTime.millis, hunix, NumKind.int64_wrap_wrap_add, NumKind.int64_wrap_eq_self h]
  obtain ⟨q, r, hq, hr, hsplit, hlow, hhigh⟩ :=
    exists_quotient_thousand ((t.sec - unixToInternal) * 1000 + (t.nsec / 1000000 : ℕ))
  have hwrap : NumKind.int64.wrap (q + r * 1000000 / 10 ^ 9 + unixToInternal) =
      q + r * 1000000 / 10 ^ 9 + unixToInternal :=
    NumKind.int64_wrap_eq_self (by unfold unixToInternal at *; omega)
  rw [timestampTime, hmillis, hq, hr, Time.ext_iff, Time.ofUnix_sec, Time.ofUnix_nsec, hwrap]
  simp only [Time.truncateMilli]
  constructor <;> omega

end Gocom
