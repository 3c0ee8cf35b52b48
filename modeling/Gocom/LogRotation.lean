import Gocom.LogCleanup

/-!
# Rotated log files

The rotation opens a file whose name carries the date of the clock on the wall, in front of the extension.
The cleanup reads the date back, and takes it for a date in UTC.
-/

namespace Gocom

open PathNames TextCuts

/-- A number with leading zeros. -/
def padded : ℕ → ℕ → Bytes
  | 0, _ => []
  | width + 1, n => padded width (n / 10) ++ [UInt8.ofNat (48 + n % 10)]

structure WallClock where
  date : Date
  hour : ℕ
  minute : ℕ
  second : ℕ

def logRotatorCronDaily : String := "0 0 0 * * ?"

def logRotatorCronWeekly : String := "0 0 0 ? * 1"

def logRotatorCronMonthly : String := "0 0 0 1 * ?"

/-- The layout `2006-01`. -/
def formatMonth (d : Date) : Bytes := padded 4 d.year ++ dash :: padded 2 d.month

/-- The layout `2006-01-02`. -/
def formatDate (d : Date) : Bytes := formatMonth d ++ dash :: padded 2 d.day

def endfix (crontab : String) (now : WallClock) : Bytes :=
  if crontab = logRotatorCronDaily then formatDate now.date
  else if crontab = logRotatorCronMonthly then formatMonth now.date
  else if crontab = logRotatorCronWeekly then formatDate now.date
  else formatDate now.date ++ dash :: (padded 2 now.hour ++ padded 2 now.minute ++ padded 2 now.second)

/-- The name under which `generateLogFile` opens a file. -/
def logFileName (crontab : String) (now : WallClock) (logPath : Bytes) : Option Bytes :=
  (splitFirst logPath (pathExt logPath)).map fun logBaseName =>
    logBaseName ++ dash :: endfix crontab now ++ pathExt logPath

/-! ## Numbers in dates -/

theorem length_padded (width n : ℕ) : (padded width n).length = width := by
  induction width generalizing n with
  | zero => rfl
  | succ width ih => rw [padded, List.length_append, ih, List.length_singleton]

theorem digit_toNat (n : ℕ) : (UInt8.ofNat (48 + n % 10)).toNat = 48 + n % 10 := by
  have hlt : 48 + n % 10 < 256 := by omega
  exact UInt8.toNat_ofNat_of_lt' hlt

theorem isDigit_padded {width n : ℕ} {b : UInt8} (hb : b ∈ padded width n) : isDigit b := by
  induction width generalizing n with
  | zero => cases hb
  | succ width ih =>
    rcases List.mem_append.mp hb with hb | hb
    · exact ih hb
    · rw [List.mem_singleton.mp hb, isDigit, digit_toNat]
      simp only [decide_eq_true_eq]
      omega

theorem numberOf_padded {width n : ℕ} (h : n < 10 ^ width) : numberOf (padded width n) = n := by
  induction width generalizing n with
  | zero => exact (Nat.lt_one_iff.mp h).symm
  | succ width ih =>
    have hn : n / 10 < 10 ^ width := Nat.div_lt_of_lt_mul (by rwa [Nat.pow_succ'] at h)
    have hfold : numberOf (padded (width + 1) n) = numberOf (padded width (n / 10)) * 10 + n % 10 := by
      rw [padded, numberOf, List.foldl_append, List.foldl_cons, List.foldl_nil, digitValue, digit_toNat,
        Nat.add_sub_cancel_left]
      rfl
    rw [hfold, ih hn]
    omega

theorem areDigits_padded (width n : ℕ) : areDigits width (padded width n) := by
  rw [areDigits, length_padded, decide_eq_true rfl, Bool.true_and, List.all_eq_true]
  exact fun b hb => isDigit_padded hb

theorem notMem_padded {b : UInt8} (h : isDigit b = false) (width n : ℕ) : b ∉ padded width n :=
  fun hb => Bool.false_ne_true (h.symm.trans (isDigit_padded hb))

/-! ## Dates that are read back -/

/-- The date exists, and its year has four digits. -/
def Date.Valid (d : Date) : Prop :=
  d.year < 10000 ∧ (1 ≤ d.month ∧ d.month ≤ 12) ∧ 1 ≤ d.day ∧ d.day ≤ Date.daysIn d.month d.year

/-- The date that stands for a rotation. -/
def stampDate (crontab : String) (now : WallClock) : Date :=
  if crontab = logRotatorCronMonthly then { now.date with day := 1 } else now.date

theorem getnum_padded {n : ℕ} (h : n < 100) (s : Bytes) : getnum true (padded 2 n ++ s) = some (n, s) := by
  have hnumber : numberOf (padded 2 n) = n := numberOf_padded h
  have hdigits : ∀ b ∈ padded 2 n, isDigit b := fun b hb => isDigit_padded hb
  obtain ⟨b, c, hpadded⟩ : ∃ b c, padded 2 n = [b, c] := ⟨_, _, rfl⟩
  rw [hpadded] at hnumber hdigits ⊢
  simp only [List.forall_mem_cons] at hdigits
  rw [List.cons_append, List.cons_append, List.nil_append, getnum, hdigits.1, hdigits.2.1, hnumber]
  rfl

theorem getField_padded {limit n : ℕ} (hn : n < limit) (h : n < 100) (s : Bytes) :
    getField 45 true limit (dash :: (padded 2 n ++ s)) = some (n, s) := by
  have hskip : skipSign 45 (dash :: (padded 2 n ++ s)) = some (padded 2 n ++ s) := by
    rw [skipSign]
    exact if_pos rfl
  rw [getField, hskip]
  simp only [bind, Option.bind_some, getnum_padded h, hn, if_true]

theorem getYear_padded {n : ℕ} (h : n < 10000) (s : Bytes) : getYear (padded 4 n ++ s) = some (n, s) := by
  have htake : (padded 4 n ++ s).take 4 = padded 4 n := List.take_left' (length_padded 4 n)
  have hdrop : (padded 4 n ++ s).drop 4 = s := List.drop_left' (length_padded 4 n)
  have hdigits : (padded 4 n).all isDigit := List.all_eq_true.mpr fun b hb => isDigit_padded hb
  rw [getYear, htake, hdrop, if_pos ⟨length_padded 4 n, hdigits⟩, numberOf_padded h]

theorem daysIn_le (month year : ℕ) : Date.daysIn month year ≤ 31 := by
  unfold Date.daysIn
  split <;> try split
  all_goals omega

theorem getDate_format {d : Date} (hd : d.Valid) : getDate (formatDate d) = some (d, []) := by
  obtain ⟨hyear, ⟨hmonth, hmonth'⟩, hday, hday'⟩ := hd
  have hdays := daysIn_le d.month d.year
  have hformat : formatDate d = padded 4 d.year ++ dash :: (padded 2 d.month ++ dash :: (padded 2 d.day ++ [])) := by
    rw [formatDate, formatMonth, List.append_assoc, List.cons_append, List.append_nil]
  have hy := getYear_padded hyear (dash :: (padded 2 d.month ++ dash :: (padded 2 d.day ++ [])))
  have hm : getField 45 true 13 (dash :: (padded 2 d.month ++ dash :: (padded 2 d.day ++ []))) =
    some (d.month, dash :: (padded 2 d.day ++ [])) := getField_padded (by omega) (by omega) _
  have hdd : getField 45 true 100 (dash :: (padded 2 d.day ++ [])) = some (d.day, []) :=
    getField_padded (by omega) (by omega) []
  rw [getDate, hformat, hy]
  simp only [bind, Option.bind_some, hm, hdd]
  exact if_neg (by omega)

theorem parseDate_format {d : Date} (hd : d.Valid) :
    parseDate (formatDate d) = some (Time.ofDate d 0 0 second_pos) := by
  have hchecked : d.checked = some d := if_pos hd.2.2
  rw [parseDate, getDate_format hd]
  simp only [bind, Option.bind_some, ne_eq, not_true_eq_false, if_false, hchecked]

/-! ## Dates in the names of rotated files -/

theorem notMem_dash (width n : ℕ) : dash ∉ padded width n := notMem_padded (by decide) width n

theorem splitOn_padded (width n : ℕ) (s : Bytes) :
    (padded width n ++ dash :: s).splitOn dash = padded width n :: s.splitOn dash := by
  rw [List.splitOn_append_cons_self, List.splitOn_eq_singleton (notMem_dash width n)]
  rfl

theorem dateSuffix_month (d : Date) : dateSuffix (dash :: formatMonth d) = some (formatMonth d) := by
  rw [dateSuffix, splitOn_dash, formatMonth, splitOn_padded, List.splitOn_eq_singleton (notMem_dash 2 d.month),
    dateOfParts, areDigits_padded, areDigits_padded]
  rfl

theorem isCounter_of_digits {s : Bytes} (hne : s ≠ []) (h : ∀ b ∈ s, isDigit b) : isCounter s := by
  rw [isCounter, decide_eq_true hne, Bool.true_and, List.all_eq_true]
  exact h

theorem isCounter_padded (n : ℕ) : isCounter (padded 2 n) :=
  isCounter_of_digits (List.concat_ne_nil _ _) fun _ hb => isDigit_padded hb

theorem splitOn_formatDate (d : Date) (s : Bytes) : (formatDate d ++ dash :: s).splitOn dash =
    padded 4 d.year :: padded 2 d.month :: padded 2 d.day :: s.splitOn dash := by
  rw [formatDate, formatMonth, List.append_assoc, List.append_assoc, List.cons_append, List.cons_append,
    splitOn_padded, splitOn_padded, splitOn_padded]

theorem dateSuffix_date (d : Date) : dateSuffix (dash :: formatDate d) = some (formatDate d) := by
  have hsplit : (formatDate d).splitOn dash = [padded 4 d.year, padded 2 d.month, padded 2 d.day] := by
    rw [formatDate, formatMonth, List.append_assoc, List.cons_append, splitOn_padded, splitOn_padded,
      List.splitOn_eq_singleton (notMem_dash 2 d.day)]
  rw [dateSuffix, splitOn_dash, hsplit, dateOfParts, areDigits_padded, areDigits_padded, isCounter_padded,
    length_padded]
  rfl

/-- A clock behind the date is passed over. -/
theorem dateSuffix_clock (d : Date) {clock : Bytes} (hne : clock ≠ []) (h : ∀ b ∈ clock, isDigit b) :
    dateSuffix (dash :: (formatDate d ++ dash :: clock)) = some (formatDate d) := by
  have hdash : dash ∉ clock := fun hb => absurd (h dash hb) (by decide)
  rw [dateSuffix, splitOn_dash, splitOn_formatDate, List.splitOn_eq_singleton hdash, dateOfParts,
    areDigits_padded, areDigits_padded, areDigits_padded, isCounter_of_digits hne h]
  rfl

theorem length_formatMonth (d : Date) : (formatMonth d).length = 7 := by
  rw [formatMonth, List.length_append, List.length_cons, length_padded, length_padded]

theorem createDate_month (d : Date) : createDate (formatMonth d) = parseDate (formatDate { d with day := 1 }) := by
  have hshort : (formatMonth d).length < 8 := (length_formatMonth d).trans_lt (by decide)
  have hfirst : asciiBytes "-01" = dash :: padded 2 1 := by decide
  rw [createDate, if_pos hshort, hfirst]
  rfl

theorem createDate_date (d : Date) : createDate (formatDate d) = parseDate (formatDate d) := by
  have hlong : (formatDate d).length = 10 := by
    rw [formatDate, List.length_append, List.length_cons, length_formatMonth, length_padded]
  rw [createDate, if_neg (by omega)]

/-- The date is read back from what the rotation puts into a name. -/
theorem dateSuffix_endfix (crontab : String) (now : WallClock) :
    ∃ datestr, dateSuffix (dash :: endfix crontab now) = some datestr ∧
      createDate datestr = parseDate (formatDate (stampDate crontab now)) := by
  rw [endfix, stampDate]
  by_cases hdaily : crontab = logRotatorCronDaily
  · have hmonthly : crontab ≠ logRotatorCronMonthly := by rw [hdaily]; decide
    rw [if_pos hdaily, if_neg hmonthly]
    exact ⟨_, dateSuffix_date now.date, createDate_date now.date⟩
  by_cases hmonthly : crontab = logRotatorCronMonthly
  · rw [if_neg hdaily, if_pos hmonthly, if_pos hmonthly]
    exact ⟨_, dateSuffix_month now.date, createDate_month now.date⟩
  rw [if_neg hdaily, if_neg hmonthly, if_neg hmonthly]
  by_cases hweekly : crontab = logRotatorCronWeekly
  · rw [if_pos hweekly]
    exact ⟨_, dateSuffix_date now.date, createDate_date now.date⟩
  · rw [if_neg hweekly]
    refine ⟨_, dateSuffix_clock now.date ?_ fun b hb => ?_, createDate_date now.date⟩
    · exact List.append_ne_nil_of_right_ne_nil _ (List.concat_ne_nil _ _)
    · simp only [List.mem_append] at hb
      rcases hb with (hb | hb) | hb <;> exact isDigit_padded hb

/-! ## Names of rotated files -/

theorem rtakeWhile_append {p : UInt8 → Bool} (s : Bytes) {t : Bytes} (ht : ∀ b ∈ t, p b) :
    (s ++ t).rtakeWhile p = s.rtakeWhile p ++ t := by
  rw [List.rtakeWhile, List.reverse_append, List.takeWhile_append_of_pos (by simpa using ht), List.reverse_append,
    List.reverse_reverse]
  rfl

theorem pathExt_append {front e : Bytes} (he : dot ∉ e ∧ slash ∉ e) : pathExt (front ++ dot :: e) = dot :: e := by
  have hslash : ∀ b ∈ dot :: e, decide (b ≠ slash) = true := by
    intro b hb
    rcases List.mem_cons.mp hb with rfl | hb
    · decide
    · exact decide_eq_true (ne_of_mem_of_not_mem hb he.2)
  have hdot : ∀ b ∈ e, decide (b ≠ dot) = true := fun b hb => decide_eq_true (ne_of_mem_of_not_mem hb he.1)
  have hend : ((front.rtakeWhile (· ≠ slash)) ++ dot :: e).rtakeWhile (· ≠ dot) = e := by
    rw [List.append_cons, rtakeWhile_append _ hdot, List.rtakeWhile_concat_neg]
    · rfl
    · simp
  rw [pathExt, rtakeWhile_append front hslash, if_pos (List.mem_append_right _ List.mem_cons_self), hend]

theorem pathBase_append {front e : Bytes} (he : slash ∉ e) :
    pathBase (front ++ dot :: e) = front.rtakeWhile (· ≠ slash) ++ dot :: e := by
  have hslash : ∀ b ∈ dot :: e, b ≠ slash := by
    intro b hb
    rcases List.mem_cons.mp hb with rfl | hb
    · decide
    · exact ne_of_mem_of_not_mem hb he
  have hne : front ++ dot :: e ≠ [] := List.append_ne_nil_of_right_ne_nil _ (List.cons_ne_nil _ _)
  have hdrop : (front ++ dot :: e).rdropWhile (· = slash) = front ++ dot :: e := by
    refine List.rdropWhile_eq_self_iff.mpr fun hl => ?_
    rw [List.getLast_append_of_ne_nil _ (List.cons_ne_nil dot e)]
    simpa using hslash _ (List.getLast_mem _)
  rw [pathBase, if_neg hne, hdrop, if_neg hne, rtakeWhile_append front fun b hb => decide_eq_true (hslash b hb)]

theorem splitFirst_append {front e : Bytes} (h : dot ∉ front) :
    splitFirst (front ++ dot :: e) (dot :: e) = some front := by
  have hcut := cutAt_first h (t := e) []
  rw [List.append_nil] at hcut
  unfold splitFirst
  rw [if_neg (List.cons_ne_nil dot e), hcut]

theorem notMem_endfix {b : UInt8} (hb : isDigit b = false) (hdash : b ≠ dash) (crontab : String) (now : WallClock) :
    b ∉ dash :: endfix crontab now := by
  have hno : ∀ width n, b ∉ padded width n := notMem_padded hb
  simp only [endfix, formatDate, formatMonth]
  split_ifs <;> simp [hno, hdash]

theorem logFileName_append (crontab : String) (now : WallClock) {base e : Bytes} (hbase : dot ∉ base)
    (he : dot ∉ e ∧ slash ∉ e) : logFileName crontab now (base ++ dot :: e) =
      some (base ++ dash :: endfix crontab now ++ dot :: e) := by
  rw [logFileName, pathExt_append he, splitFirst_append hbase]
  rfl

section Rotated

variable (crontab : String) (t : WallClock) {base e : Bytes} (hbase : dot ∉ base) (he : dot ∉ e ∧ slash ∉ e)
  {f : FileInfo} (hdir : f.isDir = false)
  (hname : f.name = pathBase (base ++ dash :: endfix crontab t ++ dot :: e))

include hbase he hname in
theorem cut_rotated : f.cut = base.rtakeWhile (· ≠ slash) ++ dash :: endfix crontab t := by
  have hslash : ∀ b ∈ dash :: endfix crontab t, decide (b ≠ slash) = true := fun b hb =>
    decide_eq_true (ne_of_mem_of_not_mem hb (notMem_endfix (by decide) (by decide) crontab t))
  have hdot : dot ∉ base.rtakeWhile (· ≠ slash) ++ dash :: endfix crontab t := by
    rw [List.mem_append, not_or]
    exact ⟨fun hb => hbase ((List.rtakeWhile_suffix _ base).subset hb),
      notMem_endfix (by decide) (by decide) crontab t⟩
  rw [FileInfo.cut, hname, pathBase_append he.2, pathExt_append he, rtakeWhile_append base hslash,
    splitFirst_append hdot, Option.getD_some]

include hbase he hdir hname in
theorem cleaned_rotated_iff (now : Time) (expiresDays : ℤ) : Cleaned now expiresDays f ↔
    ∃ u, parseDate (formatDate (stampDate crontab t)) = some u ∧ u.Before (expiresDate now expiresDays) := by
  obtain ⟨datestr, hdate, hcreate⟩ := dateSuffix_endfix crontab t
  rw [cleaned_iff hdir (cut_rotated crontab t hbase he hname) hdate, isExpired, hcreate, Option.any_eq_true]
  simp only [decide_eq_true_eq]

end Rotated

/-! ## When a rotated file is removed -/

theorem stampDate_valid {t : WallClock} (ht : t.date.Valid) (crontab : String) : (stampDate crontab t).Valid := by
  rw [stampDate]
  split_ifs
  · exact ⟨ht.1, ht.2.1, Nat.le_refl 1, ht.2.2.1.trans ht.2.2.2⟩
  · exact ht

/-- The nanoseconds from the zero time to the beginning of a date. -/
def Date.nanos (d : Date) : ℤ := d.days * 86400 * 10 ^ 9

theorem sum_daysIn_le (year : ℕ) (months : List ℕ) :
    (months.map fun m => Date.daysIn m year).sum ≤ 31 * months.length := by
  induction months with
  | nil => exact Nat.le_refl 0
  | cons m months ih =>
    have hm := daysIn_le m year
    rw [List.map_cons, List.sum_cons, List.length_cons]
    omega

theorem daysBefore_le (month year : ℕ) : Date.daysBefore month year ≤ 31 * (month - 1) := by
  have hsum := sum_daysIn_le year (List.range' 1 (month - 1))
  rwa [List.length_range'] at hsum

theorem ofDate_nanos {d : Date} (hd : d.Valid) : (Time.ofDate d 0 0 second_pos).nanos = d.nanos := by
  obtain ⟨hyear, ⟨hmonth, hmonth'⟩, hday, hday'⟩ := hd
  have hdays := daysIn_le d.month d.year
  have hbefore := daysBefore_le d.month d.year
  have hrange : -2 ^ 63 ≤ d.days * 86400 + (0 : ℕ) ∧ d.days * 86400 + (0 : ℕ) < 2 ^ 63 := by
    rw [Date.days]
    omega
  rw [Time.nanos, Time.ofDate, Date.nanos]
  dsimp only
  rw [NumKind.int64_wrap_eq_self hrange]
  omega

theorem expiresDate_nanos {now : Time} (hnow : 0 ≤ now.sec) {expiresDays : ℤ}
    (hdays : 0 ≤ expiresDays ∧ expiresDays ≤ 106751) :
    (expiresDate now expiresDays).nanos = now.nanos - expiresDays * 86400 * 10 ^ 9 := by
  have hsec := NumKind.int64_inRange_iff.mp now.sec_inRange
  have hnsec := now.nsec_lt
  have hinner : NumKind.int64.wrap (86400 * 10 ^ 9 * expiresDays) = 86400 * 10 ^ 9 * expiresDays :=
    NumKind.int64_wrap_eq_self (by omega)
  have houter : NumKind.int64.wrap (-(86400 * 10 ^ 9 * expiresDays)) = -(86400 * 10 ^ 9 * expiresDays) :=
    NumKind.int64_wrap_eq_self (by omega)
  rw [expiresDate, hinner, houter, Time.nanos_add (NumKind.int64_inRange_iff.mpr (by omega))]
  omega

/-- A file that the rotation opened for a path whose only dot begins the extension is removed by a later
cleanup of its directory exactly when the time since its date, which for the monthly rotation is the first
of the month, is longer than the retention. -/
theorem cleans_rotated_iff (crontab : String) {t : WallClock} (ht : t.date.Valid) {base e : Bytes}
    (hbase : dot ∉ base) (he : dot ∉ e ∧ slash ∉ e) {path : Bytes}
    (hpath : logFileName crontab t (base ++ dot :: e) = some path)
    {readDir : Bytes → Option (List FileInfo)} {files : List FileInfo}
    (hfiles : readDir (pathDir (base ++ dot :: e)) = some files) {f : FileInfo} (hf : f ∈ files)
    (hdir : f.isDir = false) (hname : f.name = pathBase path) {now : Time} (hnow : 0 ≤ now.sec)
    {expiresDays : ℤ} (hdays : 0 ≤ expiresDays ∧ expiresDays ≤ 106751) :
    ∃ removed, cleanExpiredLogFiles readDir now expiresDays (base ++ dot :: e) = some removed ∧
      (pathJoin [pathDir (base ++ dot :: e), f.name] ∈ removed ↔
        expiresDays * 86400 * 10 ^ 9 < now.nanos - (stampDate crontab t).nanos) := by
  obtain rfl := Option.some.inj ((logFileName_append crontab t hbase he).symm.trans hpath)
  refine ⟨_, cleanExpiredLogFiles_eq hfiles now expiresDays, ?_⟩
  have hcleaned : pathJoin [pathDir (base ++ dot :: e), f.name] ∈ (files.filter fun f => Cleaned now expiresDays f).map
      (fun f => pathJoin [pathDir (base ++ dot :: e), f.name]) ↔ Cleaned now expiresDays f := by
    constructor
    · intro h
      obtain ⟨g, hg, heq⟩ := List.mem_map.mp h
      have hclean : Cleaned now expiresDays g := of_decide_eq_true (List.mem_filter.mp hg).2
      have hgf : g = f := FileInfo.ext (pathJoin_injective g.isName f.isName heq) (hclean.1.trans hdir.symm)
      exact hgf ▸ hclean
    · exact fun h => List.mem_map_of_mem (List.mem_filter.mpr ⟨hf, decide_eq_true h⟩)
  have hstamp := stampDate_valid ht crontab
  rw [hcleaned, cleaned_rotated_iff crontab t hbase he hdir hname now expiresDays, parseDate_format hstamp]
  simp only [Option.some.injEq, exists_eq_left', Time.before_iff, ofDate_nanos hstamp, expiresDate_nanos hnow hdays]
  omega

/-- A process that begins on the last day of January removes the log of the month it has just opened. -/
theorem cleans_rotated_iff_january : ∃ removed, cleanExpiredLogFiles
      (fun _ => some [datedFile "app-2020-01.log" (by decide)]) (.ofDate ⟨2020, 1, 31⟩ 1 0 second_pos) 30
      (asciiBytes "/var/log/app" ++ dot :: asciiBytes "log") = some removed ∧
    pathJoin [pathDir (asciiBytes "/var/log/app" ++ dot :: asciiBytes "log"), asciiBytes "app-2020-01.log"] ∈ removed := by
  have hdate : (Date.mk 2020 1 31).Valid := by unfold Date.Valid; decide
  obtain ⟨removed, hremoved, hiff⟩ := @cleans_rotated_iff logRotatorCronMonthly ⟨⟨2020, 1, 31⟩, 0, 0, 1⟩ hdate
    (asciiBytes "/var/log/app") (asciiBytes "log") (by decide) (by decide) _ rfl
    (fun _ => some [datedFile "app-2020-01.log" (by decide)]) _ rfl _ List.mem_cons_self rfl (by decide)
    (.ofDate ⟨2020, 1, 31⟩ 1 0 second_pos) (by decide) 30 (by decide)
  exact ⟨removed, hremoved, hiff.mpr (by decide)⟩

end Gocom
