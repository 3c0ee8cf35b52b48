import Gocom.GoTimes
import Gocom.PathNames
import Gocom.TextCuts
import Gocom.Utf8Runes

/-!
# Expired log files

A rotated log is named after the logger, with a date in front of the extension. The cleanup reads
the directory of the logger and removes what ends with a date that is too old.
-/

namespace Gocom

open PathNames TextCuts Utf8Texts

@[ext] structure FileInfo where
  name : Bytes
  isDir : Bool
  isName : IsName name
  deriving DecidableEq

/-- `strings.Split(s, sep)[0]`; without a separator a text is split into its characters. -/
def splitFirst (s sep : Bytes) : Option Bytes :=
  if sep = [] then
    match s with
    | [] => none
    | b :: rest => some (b :: rest.take (nextRune b rest).2)
  else some (cutAt sep s).1

/-! ## Dates in names -/

def dash : UInt8 := 45

def areDigits (n : ℕ) (s : Bytes) : Bool := s.length = n && s.all isDigit

def isCounter (s : Bytes) : Bool := s ≠ [] && s.all isDigit

/-- What the group of the expression captures, given the parts of a text between dashes. -/
def dateOfParts : List Bytes → Option Bytes
  | [[], y, m] => if areDigits 4 y && areDigits 2 m then some (y ++ dash :: m) else none
  | [[], y, m, d] =>
    if areDigits 4 y && areDigits 2 m && isCounter d then
      some (if d.length = 2 then y ++ dash :: m ++ dash :: d else y ++ dash :: m)
    else none
  | [[], y, m, d, c] =>
    if areDigits 4 y && areDigits 2 m && areDigits 2 d && isCounter c then
      some (y ++ dash :: m ++ dash :: d)
    else none
  | _ => none

/-- `-(\d{4}-\d{2}(?:-\d{2})?)(?:-\d+)?$`, matched with a whole text. -/
def dateSuffix (s : Bytes) : Option Bytes := dateOfParts (s.splitOn dash)

/-- The first match in a text, and its group. -/
def findDate : Bytes → Option (Bytes × Bytes)
  | [] => none
  | b :: s =>
    match dateSuffix (b :: s) with
    | some datestr => some (b :: s, datestr)
    | none => findDate s

example : findDate (asciiBytes "app-2020-01-150405") =
    some (asciiBytes "-2020-01-150405", asciiBytes "2020-01") := by decide

/-- A month stands for its first day. -/
def createDate (datestr : Bytes) : Option Time :=
  parseDate (if datestr.length < 8 then datestr ++ asciiBytes "-01" else datestr)

/-! ## The cleanup -/

/-- The name of the log file up to its extension, without a date. -/
def fbasename (logPath : Bytes) : Option Bytes := do
  let name ← splitFirst (pathBase logPath) (pathExt (pathBase logPath))
  match findDate name with
  | some (suffix, _) => splitFirst name suffix
  | none => some name

def expiresDate (now : Time) (expiresDays : ℤ) : Time :=
  now.add (NumKind.int64.wrap (-NumKind.int64.wrap (86400 * 10 ^ 9 * expiresDays)))

def isExpired (now : Time) (expiresDays : ℤ) (datestr : Bytes) : Bool :=
  (createDate datestr).any fun t => t.Before (expiresDate now expiresDays)

/-- Whether an entry of the directory is removed. -/
def cleansFile (now : Time) (expiresDays : ℤ) (f : FileInfo) : Option Bool :=
  if f.isDir then some false
  else do
    let fname ← splitFirst (pathBase f.name) (pathExt (pathBase f.name))
    some ((findDate fname).any fun r => isExpired now expiresDays r.2)

/-- The loop over the entries, with those that are removed. -/
def cleanFiles (now : Time) (expiresDays : ℤ) : List FileInfo → Option (List FileInfo)
  | [] => some []
  | f :: files => do
    let cleans ← cleansFile now expiresDays f
    let removed ← cleanFiles now expiresDays files
    some (if cleans then f :: removed else removed)

/-- The paths that are removed. The base name is computed and not used again. -/
def cleanExpiredLogFiles (readDir : Bytes → Option (List FileInfo)) (now : Time) (expiresDays : ℤ)
    (logPath : Bytes) : Option (List Bytes) := do
  let logdir := pathDir logPath
  let _ ← fbasename logPath
  match readDir logdir with
  | none => some []
  | some files =>
    let removed ← cleanFiles now expiresDays files
    some (removed.map fun f => pathJoin [logdir, f.name])

/-! ## One date in a name -/

theorem dateOfParts_shape {ps : List Bytes} {datestr : Bytes} (h : dateOfParts ps = some datestr) :
    ∃ y m rest, ps = [] :: y :: m :: rest ∧ y.length = 4 ∧ m.length = 2 ∧
      (rest.length ≤ 1 ∨ ∃ d c, rest = [d, c] ∧ d.length = 2) := by
  fun_cases dateOfParts ps with
  | case1 y m hdigits =>
    simp only [areDigits, Bool.and_eq_true, decide_eq_true_eq] at hdigits
    exact ⟨y, m, [], rfl, hdigits.1.1, hdigits.2.1, .inl (Nat.zero_le 1)⟩
  | case3 y m d hdigits =>
    simp only [areDigits, Bool.and_eq_true, decide_eq_true_eq] at hdigits
    exact ⟨y, m, [d], rfl, hdigits.1.1.1, hdigits.1.2.1, .inl (Nat.le_refl 1)⟩
  | case5 y m d c hdigits =>
    simp only [areDigits, Bool.and_eq_true, decide_eq_true_eq] at hdigits
    exact ⟨y, m, [d, c], rfl, hdigits.1.1.1.1, hdigits.1.1.2.1, .inr ⟨d, c, rfl, hdigits.1.2.1⟩⟩
  | case2 | case4 | case6 | case7 => simp_all [dateOfParts]

/-- A date begins with four digits between dashes, which do not come again in it. -/
theorem dateOfParts_unique {xs ys : List Bytes} {d e : Bytes} (hxs : xs ≠ [])
    (hd : dateOfParts ([] :: (xs ++ ys)) = some d) : dateOfParts ([] :: ys) ≠ some e := by
  intro he
  obtain ⟨y, m, rest, heq, -, hm, hrest⟩ := dateOfParts_shape hd
  obtain ⟨y', m', rest', heq', hy', -⟩ := dateOfParts_shape he
  obtain rfl := (List.cons.inj heq').2
  obtain ⟨-, heq⟩ := List.cons.inj heq
  match xs, hxs, heq with
  | [x], _, heq =>
    obtain ⟨-, rfl, -⟩ : x = y ∧ y' = m ∧ m' :: rest' = rest := by simpa using heq
    omega
  | [x, x'], _, heq =>
    obtain ⟨-, -, rfl⟩ : x = y ∧ x' = m ∧ y' :: m' :: rest' = rest := by simpa using heq
    rcases hrest with hrest | ⟨d, c, hrest, hd⟩
    · simp at hrest
    · obtain ⟨rfl, -⟩ := List.cons.inj hrest
      omega
  | x :: x' :: x'' :: xs, _, heq =>
    obtain ⟨-, -, rfl⟩ : x = y ∧ x' = m ∧ x'' :: (xs ++ y' :: m' :: rest') = rest := by simpa using heq
    rcases hrest with hrest | ⟨d, c, hrest, -⟩
    · simp at hrest
    · have hlength := congrArg List.length hrest
      simp only [List.length_cons, List.length_append, List.length_nil] at hlength
      omega

theorem splitOn_dash (s : Bytes) : (dash :: s).splitOn dash = [] :: s.splitOn dash :=
  List.splitOn_append_cons_self [] s

theorem dateSuffix_cons {s : Bytes} {datestr : Bytes} (h : dateSuffix s = some datestr) :
    ∃ rest, s = dash :: rest := by
  obtain ⟨y, m, rest, heq, -⟩ := dateOfParts_shape h
  cases s with
  | nil => simp at heq
  | cons b s =>
    rw [List.splitOn_cons_eq_if_modifyHead] at heq
    split_ifs at heq with hb
    · exact ⟨s, by rw [eq_of_beq hb]⟩
    · obtain ⟨first, parts, hparts⟩ := List.exists_cons_of_ne_nil (List.splitOn_ne_nil dash s)
      rw [hparts] at heq
      cases heq

/-- A text ends with one date only. -/
theorem dateSuffix_unique {m n : Bytes} {d e : Bytes} (hm : dateSuffix m = some d)
    (hn : dateSuffix n = some e) (hsuffix : n <:+ m) : n = m := by
  obtain ⟨front, rfl⟩ := hsuffix
  obtain ⟨n, rfl⟩ := dateSuffix_cons hn
  cases front with
  | nil => rfl
  | cons b front =>
    obtain ⟨rest, hrest⟩ := dateSuffix_cons hm
    obtain ⟨rfl, -⟩ := List.cons.inj hrest
    rw [dateSuffix, List.splitOn_append_cons_self, splitOn_dash, List.cons_append] at hm
    rw [dateSuffix, splitOn_dash] at hn
    exact absurd hn (dateOfParts_unique (List.splitOn_ne_nil dash front) hm)

theorem findDate_eq_some_iff {s m datestr : Bytes} :
    findDate s = some (m, datestr) ↔ m <:+ s ∧ dateSuffix m = some datestr := by
  induction s with
  | nil =>
    refine iff_of_false (Option.some_ne_none _).symm ?_
    rintro ⟨hsuffix, hdate⟩
    obtain ⟨rest, rfl⟩ := dateSuffix_cons hdate
    exact absurd (List.suffix_nil.mp hsuffix) (List.cons_ne_nil _ _)
  | cons b s ih =>
    rw [findDate]
    cases hdate : dateSuffix (b :: s) with
    | some e =>
      constructor
      · rintro ⟨⟩
        exact ⟨List.suffix_rfl, hdate⟩
      · rintro ⟨hsuffix, hm⟩
        obtain rfl := dateSuffix_unique hdate hm hsuffix
        obtain rfl := Option.some.inj (hdate.symm.trans hm)
        rfl
    | none =>
      rw [ih, List.suffix_cons_iff, or_and_right]
      refine (or_iff_right ?_).symm
      rintro ⟨rfl, hm⟩
      rw [hdate] at hm
      cases hm

/-! ## What is removed -/

theorem splitFirst_isSome {s : Bytes} (h : s ≠ []) (sep : Bytes) : (splitFirst s sep).isSome := by
  obtain ⟨b, rest, rfl⟩ := List.exists_cons_of_ne_nil h
  rw [splitFirst]
  split_ifs <;> rfl

theorem pathBase_ne_nil (s : Bytes) : pathBase s ≠ [] := by
  rw [pathBase]
  split_ifs with hs ht
  · exact List.cons_ne_nil _ _
  · exact List.cons_ne_nil _ _
  · have hlast := List.rdropWhile_last_not _ s ht
    intro h
    exact List.rtakeWhile_eq_nil_iff.mp h ht (by simpa using hlast)

theorem fbasename_isSome (logPath : Bytes) : (fbasename logPath).isSome := by
  obtain ⟨name, hname⟩ := Option.isSome_iff_exists.mp
    (splitFirst_isSome (pathBase_ne_nil logPath) (pathExt (pathBase logPath)))
  rw [fbasename, hname]
  simp only [bind, Option.bind_some]
  cases hdate : findDate name with
  | none => rfl
  | some r =>
    refine splitFirst_isSome ?_ r.1
    rintro rfl
    cases hdate

/-- A name without its extension. -/
def stemOf (name : Bytes) : Bytes := name.take (name.length - (pathExt name).length)

/-- The base name that a logger's files share: the name of its log file, without the extension and
without a date in front of it. -/
def ownBase (logPath : Bytes) : Bytes :=
  let stem := stemOf (pathBase logPath)
  match findDate stem with
  | some (suffix, _) => stem.take (stem.length - suffix.length)
  | none => stem

example : ownBase (asciiBytes "/var/log/app") = asciiBytes "app" ∧
    ownBase (asciiBytes "/var/log/app.v2-2020-01.log") = asciiBytes "app.v2" := by decide

namespace FileInfo

def stem (f : FileInfo) : Bytes := stemOf f.name

/-- The name up to the first occurrence of its extension. -/
def cut (f : FileInfo) : Bytes := (splitFirst f.name (pathExt f.name)).getD []

theorem splitFirst_eq (f : FileInfo) :
    splitFirst (pathBase f.name) (pathExt (pathBase f.name)) = some f.cut := by
  obtain ⟨name, hname⟩ := Option.isSome_iff_exists.mp (splitFirst_isSome f.isName.nonempty (pathExt f.name))
  rw [pathBase_eq_self f.isName, cut, hname, Option.getD_some]

end FileInfo

/-- The day is longer ago than the retention. -/
def OlderThan (now : Time) (expiresDays : ℤ) (datestr : Bytes) : Prop :=
  ∃ t, createDate datestr = some t ∧ t.nanos + expiresDays * 86400 * 10 ^ 9 < now.nanos

/-- A text ends with a date, of a kind that may depend on what stands before it. -/
def EndsWithDate (P : Bytes → Bytes → Prop) (s : Bytes) : Prop :=
  ∃ front suffix datestr, s = front ++ suffix ∧ dateSuffix suffix = some datestr ∧ P front datestr

theorem endsWithDate_iff_findDate {P : Bytes → Bytes → Prop} {s : Bytes} :
    EndsWithDate P s ↔ ∃ r ∈ findDate s, P (s.take (s.length - r.1.length)) r.2 := by
  constructor
  · rintro ⟨front, suffix, datestr, rfl, hdate, hP⟩
    refine ⟨(suffix, datestr), findDate_eq_some_iff.mpr ⟨List.suffix_append front suffix, hdate⟩, ?_⟩
    simpa using hP
  · rintro ⟨⟨suffix, datestr⟩, hfind, hP⟩
    obtain ⟨⟨front, rfl⟩, hdate⟩ := findDate_eq_some_iff.mp hfind
    exact ⟨front, suffix, datestr, rfl, hdate, by simpa using hP⟩

instance (P : Bytes → Bytes → Prop) [∀ front datestr, Decidable (P front datestr)] (s : Bytes) :
    Decidable (EndsWithDate P s) :=
  decidable_of_iff _ endsWithDate_iff_findDate.symm

theorem endsWithDate_append {P : Bytes → Bytes → Prop} {front suffix datestr : Bytes}
    (h : dateSuffix suffix = some datestr) : EndsWithDate P (front ++ suffix) ↔ P front datestr := by
  have hfind : findDate (front ++ suffix) = some (suffix, datestr) :=
    findDate_eq_some_iff.mpr ⟨List.suffix_append front suffix, h⟩
  rw [endsWithDate_iff_findDate, hfind]
  simp

/-- A file of the logger that has expired. -/
def OwnExpired (own : Bytes) (now : Time) (expiresDays : ℤ) (f : FileInfo) : Prop :=
  f.isDir = false ∧ EndsWithDate (fun front datestr => front = own ∧ OlderThan now expiresDays datestr) f.stem

/-- A file that the cleanup takes for expired. -/
def Cleaned (now : Time) (expiresDays : ℤ) (f : FileInfo) : Prop :=
  f.isDir = false ∧ EndsWithDate (fun _ datestr => isExpired now expiresDays datestr) f.cut

instance (now : Time) (expiresDays : ℤ) (datestr : Bytes) : Decidable (OlderThan now expiresDays datestr) :=
  decidable_of_iff (∃ t ∈ createDate datestr, t.nanos + expiresDays * 86400 * 10 ^ 9 < now.nanos) Iff.rfl

instance (own : Bytes) (now : Time) (expiresDays : ℤ) (f : FileInfo) :
    Decidable (OwnExpired own now expiresDays f) := inferInstanceAs (Decidable (_ ∧ _))

instance (now : Time) (expiresDays : ℤ) (f : FileInfo) : Decidable (Cleaned now expiresDays f) :=
  inferInstanceAs (Decidable (_ ∧ _))

theorem cleansFile_eq (now : Time) (expiresDays : ℤ) (f : FileInfo) :
    cleansFile now expiresDays f = some (decide (Cleaned now expiresDays f)) := by
  rw [cleansFile, f.splitFirst_eq]
  split_ifs with hdir
  · simp [Cleaned, hdir]
  · simp only [bind, Option.bind_some, Cleaned, endsWithDate_iff_findDate, hdir, true_and]
    cases findDate f.cut <;> simp

theorem cleanFiles_eq (now : Time) (expiresDays : ℤ) (files : List FileInfo) :
    cleanFiles now expiresDays files = some (files.filter fun f => Cleaned now expiresDays f) := by
  induction files with
  | nil => rfl
  | cons f files ih =>
    rw [cleanFiles, cleansFile_eq, ih]
    simp only [bind, Option.bind_some, List.filter_cons]

theorem cleanExpiredLogFiles_eq {readDir : Bytes → Option (List FileInfo)} {logPath : Bytes}
    {files : List FileInfo} (h : readDir (pathDir logPath) = some files) (now : Time) (expiresDays : ℤ) :
    cleanExpiredLogFiles readDir now expiresDays logPath =
      some ((files.filter fun f => Cleaned now expiresDays f).map fun f => pathJoin [pathDir logPath, f.name]) := by
  obtain ⟨name, hname⟩ := Option.isSome_iff_exists.mp (fbasename_isSome logPath)
  simp only [cleanExpiredLogFiles, hname, h, cleanFiles_eq, bind, Option.bind_some]

/-! ## Whose files they are -/

theorem length_dateSuffix {s datestr : Bytes} (h : dateSuffix s = some datestr) : 8 ≤ s.length := by
  obtain ⟨y, m, rest, heq, hy, hm, -⟩ := dateOfParts_shape h
  have hs : [dash].intercalate (s.splitOn dash) = s := List.intercalate_splitOn dash
  have htail : m.length ≤ ([dash].intercalate (m :: rest)).length := by
    cases rest with
    | nil => rw [List.intercalate_singleton]
    | cons c rest =>
      rw [List.intercalate_cons_cons, List.append_assoc, List.length_append]
      omega
  rw [heq, List.intercalate_cons_cons, List.intercalate_cons_cons] at hs
  have hlength := congrArg List.length hs
  simp only [List.length_append, List.length_cons, List.length_nil] at hlength
  omega

/-- The first character of a name is no date. -/
theorem not_cleaned_of_bare {f : FileInfo} (h : pathExt f.name = []) (now : Time) (expiresDays : ℤ) :
    ¬ Cleaned now expiresDays f := by
  rintro ⟨-, front, suffix, datestr, hcut, hdate, -⟩
  have hlong := length_dateSuffix hdate
  obtain ⟨b, rest, hname⟩ := List.exists_cons_of_ne_nil f.isName.nonempty
  have htails : (nextRune b rest).2 ≤ 3 := by
    unfold nextRune tails
    split_ifs <;> simp
  have hlength := congrArg List.length hcut
  rw [FileInfo.cut, h, hname] at hlength
  simp only [splitFirst, if_true, Option.getD_some, List.length_cons, List.length_take,
    List.length_append] at hlength
  omega

/-- What an entry of the directory must be like for the cleanup to be right about it. -/
structure Cleanable (own : Bytes) (now : Time) (expiresDays : ℤ) (f : FileInfo) : Prop where
  /-- It is no expired file of the logger without an extension. -/
  bare : pathExt f.name = [] → ¬ OwnExpired own now expiresDays f
  /-- It is no file of another base name with a date that is taken for expired. -/
  others : pathExt f.name ≠ [] → f.cut = f.stem → ∀ front suffix datestr, f.stem = front ++ suffix →
    dateSuffix suffix = some datestr → front ≠ own → ¬ isExpired now expiresDays datestr
  /-- The retention does not overflow in a way that counts for the date. -/
  dated : pathExt f.name ≠ [] → f.cut = f.stem → ∀ suffix datestr, f.stem = own ++ suffix →
    dateSuffix suffix = some datestr →
      (isExpired now expiresDays datestr ↔ OlderThan now expiresDays datestr)
  /-- Where the extension occurs in the name before, a date that is taken for expired stands in front of
  its first occurrence exactly if one that is older stands behind the base name, in front of its last. -/
  twice : pathExt f.name ≠ [] → f.cut ≠ f.stem →
    ((∃ front suffix datestr, f.cut = front ++ suffix ∧ dateSuffix suffix = some datestr ∧
        isExpired now expiresDays datestr) ↔
      ∃ suffix datestr, f.stem = own ++ suffix ∧ dateSuffix suffix = some datestr ∧
        OlderThan now expiresDays datestr)

section Entries

variable {own front suffix datestr : Bytes} {now : Time} {expiresDays : ℤ} {f : FileInfo}

theorem ownExpired_iff (hdir : f.isDir = false) (hstem : f.stem = front ++ suffix)
    (hdate : dateSuffix suffix = some datestr) :
    OwnExpired own now expiresDays f ↔ front = own ∧ OlderThan now expiresDays datestr := by
  rw [OwnExpired, hstem, endsWithDate_append hdate, and_iff_right hdir]

theorem cleaned_iff (hdir : f.isDir = false) (hcut : f.cut = front ++ suffix)
    (hdate : dateSuffix suffix = some datestr) :
    Cleaned now expiresDays f ↔ isExpired now expiresDays datestr := by
  rw [Cleaned, hcut, endsWithDate_append hdate, and_iff_right hdir]

theorem ownExpired_iff_exists (hdir : f.isDir = false) : OwnExpired own now expiresDays f ↔
    ∃ suffix datestr, f.stem = own ++ suffix ∧ dateSuffix suffix = some datestr ∧
      OlderThan now expiresDays datestr := by
  rw [OwnExpired, and_iff_right hdir]
  constructor
  · rintro ⟨front, suffix, datestr, hstem, hdate, rfl, holder⟩
    exact ⟨suffix, datestr, hstem, hdate, holder⟩
  · rintro ⟨suffix, datestr, hstem, hdate, holder⟩
    exact ⟨own, suffix, datestr, hstem, hdate, rfl, holder⟩

theorem Cleanable.of_iff (hdir : f.isDir = false)
    (h : Cleaned now expiresDays f ↔ OwnExpired own now expiresDays f) :
    Cleanable own now expiresDays f where
  bare hbare hown := not_cleaned_of_bare hbare now expiresDays (h.mpr hown)
  others _ honce front suffix datestr hstem hdate hfront hexpired := by
    have hcleaned := (cleaned_iff hdir (honce.trans hstem) hdate).mpr hexpired
    exact hfront ((ownExpired_iff hdir hstem hdate).mp (h.mp hcleaned)).1
  dated _ honce suffix datestr hstem hdate := by
    rw [← cleaned_iff hdir (honce.trans hstem) hdate, h, ownExpired_iff hdir hstem hdate, and_iff_right rfl]
  twice _ _ := by
    rw [← ownExpired_iff_exists hdir, ← h, Cleaned, and_iff_right hdir]
    rfl

theorem Cleanable.iff (hdir : f.isDir = false) (h : Cleanable own now expiresDays f) :
    Cleaned now expiresDays f ↔ OwnExpired own now expiresDays f := by
  by_cases hbare : pathExt f.name = []
  · exact iff_of_false (not_cleaned_of_bare hbare now expiresDays) (h.bare hbare)
  by_cases honce : f.cut = f.stem
  · constructor
    · rintro ⟨-, front, suffix, datestr, hcut, hdate, hexpired⟩
      have hstem := honce.symm.trans hcut
      have hfront : front = own := by
        by_contra hne
        exact h.others hbare honce front suffix datestr hstem hdate hne hexpired
      subst hfront
      exact (ownExpired_iff hdir hstem hdate).mpr
        ⟨rfl, (h.dated hbare honce suffix datestr hstem hdate).mp hexpired⟩
    · rintro ⟨-, front, suffix, datestr, hstem, hdate, rfl, holder⟩
      exact (cleaned_iff hdir (honce.trans hstem) hdate).mpr
        ((h.dated hbare honce suffix datestr hstem hdate).mpr holder)
  · rw [ownExpired_iff_exists hdir, ← h.twice hbare honce, Cleaned, and_iff_right hdir]
    rfl

end Entries

/-- Files are told apart by their paths. -/
theorem map_path_filter_eq_iff {d : Bytes} {files : List FileInfo} {P Q : FileInfo → Prop} [DecidablePred P]
    [DecidablePred Q] (hP : ∀ f, P f → f.isDir = false) (hQ : ∀ f, Q f → f.isDir = false) :
    ((files.filter fun f => P f).map fun f => pathJoin [d, f.name]) =
        ((files.filter fun f => Q f).map fun f => pathJoin [d, f.name]) ↔
      ∀ f ∈ files, P f ↔ Q f := by
  have hpath : ∀ {f g : FileInfo}, f.isDir = false → g.isDir = false →
      pathJoin [d, f.name] = pathJoin [d, g.name] → f = g := fun {f g} hf hg h =>
    FileInfo.ext (pathJoin_injective f.isName g.isName h) (hf.trans hg.symm)
  have hsub : ∀ {P Q : FileInfo → Prop} [DecidablePred P] [DecidablePred Q], (∀ f, P f → f.isDir = false) →
      (∀ f, Q f → f.isDir = false) → ((files.filter fun f => P f).map fun f => pathJoin [d, f.name]) =
        ((files.filter fun f => Q f).map fun f => pathJoin [d, f.name]) → ∀ f ∈ files, P f → Q f := by
    intro P Q _ _ hP hQ h f hf hPf
    have hmem : pathJoin [d, f.name] ∈ (files.filter fun f => Q f).map fun f => pathJoin [d, f.name] :=
      h ▸ List.mem_map_of_mem (List.mem_filter.mpr ⟨hf, decide_eq_true hPf⟩)
    obtain ⟨g, hg, heq⟩ := List.mem_map.mp hmem
    have hQg : Q g := of_decide_eq_true (List.mem_filter.mp hg).2
    exact hpath (hQ g hQg) (hP f hPf) heq ▸ hQg
  constructor
  · exact fun h f hf => ⟨hsub hP hQ h f hf, hsub hQ hP h.symm f hf⟩
  · intro h
    rw [List.filter_congr fun f hf => decide_eq_decide.mpr (h f hf)]

theorem cleanExpiredLogFiles_own_iff (readDir : Bytes → Option (List FileInfo)) (now : Time)
    (expiresDays : ℤ) (logPath : Bytes) (files : List FileInfo) (h : readDir (pathDir logPath) = some files) :
    cleanExpiredLogFiles readDir now expiresDays logPath =
        some ((files.filter fun f => OwnExpired (ownBase logPath) now expiresDays f).map
          fun f => pathJoin [pathDir logPath, f.name]) ↔
      ∀ f ∈ files, f.isDir = false → Cleanable (ownBase logPath) now expiresDays f := by
  rw [cleanExpiredLogFiles_eq h, Option.some.injEq, map_path_filter_eq_iff (fun f h => h.1) (fun f h => h.1)]
  refine forall₂_congr fun f _ => ?_
  cases hdir : f.isDir with
  | false => exact ⟨fun h _ => .of_iff hdir h, fun h => (h rfl).iff hdir⟩
  | true => simp [Cleaned, OwnExpired, hdir]

def datedFile (name : String) (h : IsName (asciiBytes name)) : FileInfo := ⟨asciiBytes name, false, h⟩

def appLogs : List FileInfo :=
  [datedFile "app-2019-11-30.log" (by decide), datedFile "app-2019-12.log" (by decide)]

def newYear : Time := .ofDate ⟨2020, 1, 1⟩ 0 0 second_pos

theorem cleanExpiredLogFiles_own_iff_app :
    cleanExpiredLogFiles (fun _ => some appLogs) newYear 31 (asciiBytes "/var/log/app.log") =
      some ((appLogs.filter fun f => OwnExpired (ownBase (asciiBytes "/var/log/app.log")) newYear 31 f).map
        fun f => pathJoin [pathDir (asciiBytes "/var/log/app.log"), f.name]) :=
  (cleanExpiredLogFiles_own_iff _ newYear 31 (asciiBytes "/var/log/app.log") appLogs rfl).mpr
    fun f hf hdir => Cleanable.of_iff hdir (by rcases List.mem_pair.mp hf with rfl | rfl <;> decide)

/-- The log of another program in the same directory is removed. -/
theorem cleanExpiredLogFiles_removes_other :
    cleanExpiredLogFiles (fun _ => some [datedFile "other-2019-11-30.log" (by decide)]) newYear 31
        (asciiBytes "/var/log/app.log") = some [asciiBytes "/var/log/other-2019-11-30.log"] ∧
      ¬ OwnExpired (ownBase (asciiBytes "/var/log/app.log")) newYear 31
        (datedFile "other-2019-11-30.log" (by decide)) := by
  decide

/-- Up to 106751 days, a retention fits in a duration. -/
theorem isExpired_iff_olderThan {now : Time} {expiresDays : ℤ} (hdays : 0 ≤ expiresDays ∧ expiresDays ≤ 106751)
    (hnow : -2 ^ 62 ≤ now.sec) (datestr : Bytes) :
    isExpired now expiresDays datestr ↔ OlderThan now expiresDays datestr := by
  have hnsec := now.nsec_lt
  have hsec := NumKind.int64_inRange_iff.mp now.sec_inRange
  have hdate : (expiresDate now expiresDays).nanos = now.nanos - expiresDays * 86400 * 10 ^ 9 := by
    rw [expiresDate, NumKind.int64_wrap_eq_self (n := 86400 * 10 ^ 9 * expiresDays) (by omega),
      NumKind.int64_wrap_eq_self (by omega), Time.nanos_add (NumKind.int64_inRange_iff.mpr (by omega))]
    omega
  rw [isExpired, Option.any_eq_true, OlderThan]
  refine exists_congr fun t => and_congr_right fun _ => ?_
  rw [decide_eq_true_eq, Time.before_iff, hdate]
  omega

end Gocom
