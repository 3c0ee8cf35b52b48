import Gocom.GuardedRuns
import Gocom.MessageEnvelopes
import Mathlib.Algebra.Ring.Int.Defs
import Mathlib.Data.List.Nodup
import Mathlib.Data.List.TakeDrop

/-!
# The access log

Every five minutes at most the size of the access log is looked at. When it is too large the log is
archived, in place of the archive before, and a new log is begun. A file is the list of the lines
written to it, an archive the list of those that can be read from it; lines are numbered as they come.
Times are in nanoseconds.
-/

namespace Gocom

open Runs

structure AccessLine where
  number : ℕ
  text : Bytes
  deriving DecidableEq

/-- Which operations on files fail. -/
structure FileFaults where
  stat : Bool := false
  zipCreate : Bool := false
  read : Bool := false
  zipWrite : Bool := false
  zipClose : Bool := false
  openArchive : Bool := false
  writeArchive : Bool := false
  remove : Bool := false
  reopen : Bool := false
  /-- How much of a line is written where not all is. -/
  written : Option ℕ := none

/-- The files, and what the process knows; `opened` says whether `accessLogFile` is set, and `asked` is
what was to be logged. -/
structure AccessLog where
  file : List AccessLine := []
  archive : Option (List AccessLine) := none
  opened : Bool := false
  lastAccessLogStatTime : ℤ := 0
  asked : List AccessLine := []

namespace AccessLog

def size (s : AccessLog) : ℕ := (s.file.flatMap AccessLine.text).length

/-- What the archive is made of; `none` means that it cannot be read. -/
def zipped (f : FileFaults) (file : List AccessLine) : Option (List AccessLine) :=
  if f.read then some [] else if f.zipWrite then none else some file

/-- The archive, which is left alone when none can be made. -/
def archived (f : FileFaults) (s : AccessLog) : Option (List AccessLine) :=
  if f.zipCreate ∨ f.zipClose ∨ f.openArchive then s.archive
  else if f.writeArchive then none
  else zipped f s.file

def archiveAndNewLogFile (f : FileFaults) (s : AccessLog) : AccessLog :=
  { s with archive := archived f s, file := if f.remove then s.file else [], opened := !f.reopen }

def checkAccessLogRotate (maxBytes now : ℤ) (f : FileFaults) (s : AccessLog) : AccessLog :=
  if maxBytes > 0 ∧ now - s.lastAccessLogStatTime > 300 * 10 ^ 9 then
    let s := { s with lastAccessLogStatTime := now }
    if s.opened ∧ f.stat = false ∧ s.size > maxBytes then archiveAndNewLogFile f s else s
  else s

/-- A process begins with the log there is. -/
def newAccessLogger (maxBytes now : ℤ) (f : FileFaults) (s : AccessLog) : AccessLog :=
  checkAccessLogRotate maxBytes now f { s with opened := true, lastAccessLogStatTime := 0 }

def writeString (f : FileFaults) (line : AccessLine) (s : AccessLog) : AccessLog :=
  let text := match f.written with
    | none => line.text
    | some n => line.text.take n
  { s with file := s.file ++ [{ line with text }] }

def logFunc (maxBytes now : ℤ) (output : Bytes) (f : FileFaults) (s : AccessLog) : AccessLog :=
  let line : AccessLine := ⟨s.asked.length, output⟩
  let s := checkAccessLogRotate maxBytes now f { s with asked := s.asked ++ [line] }
  if s.opened then writeString f line s else s

inductive Event where
  /-- A process begins. -/
  | start (now : ℤ) (f : FileFaults)
  /-- A request was answered. -/
  | log (now : ℤ) (output : Bytes) (f : FileFaults)

def step (maxBytes : ℤ) : AccessLog → Event → Option AccessLog :=
  total fun s e =>
    match e with
    | .start now f => newAccessLogger maxBytes now f s
    | .log now output f => logFunc maxBytes now output f s

/-! ## What is kept -/

/-- The lines of the archive and of the log. -/
def contents (s : AccessLog) : List AccessLine := s.archive.getD [] ++ s.file

/-- The size is looked at, and too large. -/
def Rotates (maxBytes now : ℤ) (f : FileFaults) (s : AccessLog) : Prop :=
  (maxBytes > 0 ∧ now - s.lastAccessLogStatTime > 300 * 10 ^ 9) ∧ s.opened ∧ f.stat = false ∧ s.size > maxBytes

instance (maxBytes now : ℤ) (f : FileFaults) (s : AccessLog) : Decidable (Rotates maxBytes now f s) :=
  inferInstanceAs (Decidable (_ ∧ _))

/-- Archiving keeps all lines: either the log was archived and removed, and there was no archive before, or
both files stay as they are. -/
def Keeps (f : FileFaults) (s : AccessLog) : Prop :=
  if f.zipCreate ∨ f.zipClose ∨ f.openArchive then f.remove = true
  else s.archive.getD [] = [] ∧ (f.remove ↔ f.writeArchive ∨ f.read ∨ f.zipWrite)

instance (f : FileFaults) (s : AccessLog) : Decidable (Keeps f s) := by
  unfold Keeps
  infer_instance

/-- The event loses no line and doubles none. -/
def Preserves (maxBytes : ℤ) (s : AccessLog) : Event → Prop
  | .start now f => Rotates maxBytes now f { s with opened := true, lastAccessLogStatTime := 0 } → Keeps f s
  | .log now output f => s.opened ∧ (Rotates maxBytes now f s → Keeps f s ∧ f.reopen = false) ∧
      ∀ n, f.written = some n → output.length ≤ n

/-- What is left of a log whose archive cannot be read. -/
theorem left_eq_iff {arch file : List AccessLine} (hfile : file ≠ []) (remove : Bool) :
    (if remove then file else []) = arch ++ file ↔ arch = [] ∧ remove := by
  cases remove with
  | true => simp
  | false =>
    refine iff_of_false (fun h => hfile ?_) fun h => nomatch h.2
    exact (List.append_eq_nil_iff.mp h.symm).2

/-- What is left of a log and its archive. -/
theorem archived_eq_iff {arch file : List AccessLine} (hfile : file ≠ []) (hnodup : (arch ++ file).Nodup)
    (remove : Bool) : (file ++ if remove then file else []) = arch ++ file ↔ arch = [] ∧ ¬ remove := by
  cases remove with
  | true =>
    refine iff_of_false (fun h => hfile ?_) fun h => h.2 rfl
    have harch : file = arch := List.append_cancel_right h
    subst harch
    exact List.eq_nil_iff_forall_not_mem.mpr fun l hl => List.disjoint_of_nodup_append hnodup hl hl
  | false => simp

theorem archiveAndNewLogFile_keeps {f : FileFaults} {s : AccessLog} (hfile : s.file ≠ [])
    (hnodup : s.contents.Nodup) : (archiveAndNewLogFile f s).contents = s.contents ↔ Keeps f s := by
  have hcontents : (archiveAndNewLogFile f s).contents =
    (archived f s).getD [] ++ if f.remove then s.file else [] := rfl
  rw [hcontents, Keeps, archived, zipped, contents]
  by_cases hskip : f.zipCreate ∨ f.zipClose ∨ f.openArchive
  · have hleft : (if f.remove then s.file else []) = [] ++ s.file ↔ _ := left_eq_iff hfile f.remove
    rw [if_pos hskip, if_pos hskip, List.append_cancel_left_eq]
    exact hleft.trans (and_iff_right rfl)
  · rw [if_neg hskip, if_neg hskip]
    by_cases hunread : f.writeArchive ∨ f.read ∨ f.zipWrite
    · have hnone : (if f.writeArchive then none else if f.read then some [] else
          if f.zipWrite then none else some s.file).getD [] = [] := by
        split_ifs with hwrite hread hzip
        · rfl
        · rfl
        · rfl
        · exact absurd hunread (by simp [hwrite, hread, hzip])
      rw [hnone, List.nil_append, iff_true_right hunread]
      exact left_eq_iff hfile f.remove
    · obtain ⟨hwrite, hread, hzip⟩ : ¬ f.writeArchive ∧ ¬ f.read ∧ ¬ f.zipWrite := by
        simpa only [not_or] using hunread
      rw [if_neg hwrite, if_neg hread, if_neg hzip, Option.getD_some, iff_false_right hunread]
      exact archived_eq_iff hfile hnodup f.remove

/-- What is looked at of the time and the size changes nothing in the files. -/
theorem checkAccessLogRotate_of_not_rotates {maxBytes now : ℤ} {f : FileFaults} {s : AccessLog}
    (h : ¬ Rotates maxBytes now f s) : ∃ t, checkAccessLogRotate maxBytes now f s =
      { s with lastAccessLogStatTime := t } := by
  rw [checkAccessLogRotate]
  by_cases htime : maxBytes > 0 ∧ now - s.lastAccessLogStatTime > 300 * 10 ^ 9
  · rw [if_pos htime]
    exact ⟨now, if_neg fun hsize => h ⟨htime, hsize⟩⟩
  · exact ⟨s.lastAccessLogStatTime, if_neg htime⟩

theorem checkAccessLogRotate_of_rotates {maxBytes now : ℤ} {f : FileFaults} {s : AccessLog}
    (h : Rotates maxBytes now f s) : checkAccessLogRotate maxBytes now f s =
      archiveAndNewLogFile f { s with lastAccessLogStatTime := now } := by
  rw [checkAccessLogRotate, if_pos h.1]
  exact if_pos h.2

theorem Rotates.file_ne {maxBytes now : ℤ} {f : FileFaults} {s : AccessLog} (h : Rotates maxBytes now f s) :
    s.file ≠ [] := by
  intro hfile
  have hsize : s.size = 0 := by rw [size, hfile]; rfl
  have hlarge := h.2.2.2
  have hmax := h.1.1
  omega

theorem checkAccessLogRotate_contents_iff {maxBytes now : ℤ} {f : FileFaults} {s : AccessLog}
    (hnodup : s.contents.Nodup) : (checkAccessLogRotate maxBytes now f s).contents = s.contents ↔
      (Rotates maxBytes now f s → Keeps f s) := by
  by_cases h : Rotates maxBytes now f s
  · rw [checkAccessLogRotate_of_rotates h, forall_prop_of_true h]
    exact archiveAndNewLogFile_keeps h.file_ne hnodup
  · obtain ⟨t, ht⟩ := checkAccessLogRotate_of_not_rotates h
    rw [ht]
    exact iff_of_true rfl fun h' => absurd h' h

theorem checkAccessLogRotate_opened_iff {maxBytes now : ℤ} {f : FileFaults} {s : AccessLog} :
    (checkAccessLogRotate maxBytes now f s).opened ↔ s.opened ∧ (Rotates maxBytes now f s → f.reopen = false) := by
  by_cases h : Rotates maxBytes now f s
  · rw [checkAccessLogRotate_of_rotates h, forall_prop_of_true h, and_iff_right h.2.1]
    exact iff_of_eq (Bool.not_eq_true' f.reopen)
  · obtain ⟨t, ht⟩ := checkAccessLogRotate_of_not_rotates h
    rw [ht]
    exact (and_iff_left fun h' => absurd h' h).symm

theorem checkAccessLogRotate_asked (maxBytes now : ℤ) (f : FileFaults) (s : AccessLog) :
    (checkAccessLogRotate maxBytes now f s).asked = s.asked := by
  by_cases h : Rotates maxBytes now f s
  · rw [checkAccessLogRotate_of_rotates h]
    rfl
  · obtain ⟨t, ht⟩ := checkAccessLogRotate_of_not_rotates h
    rw [ht]

/-- No line comes from elsewhere. -/
theorem archived_subset (f : FileFaults) (s : AccessLog) : (archived f s).getD [] ⊆ s.contents := by
  rw [archived, zipped, contents]
  split_ifs
  · exact List.subset_append_left _ _
  · exact List.nil_subset _
  · exact List.nil_subset _
  · exact List.nil_subset _
  · exact List.subset_append_right _ _

theorem checkAccessLogRotate_subset (maxBytes now : ℤ) (f : FileFaults) (s : AccessLog) :
    (checkAccessLogRotate maxBytes now f s).contents ⊆ s.contents := by
  by_cases h : Rotates maxBytes now f s
  · rw [checkAccessLogRotate_of_rotates h]
    refine List.append_subset.mpr ⟨archived_subset f _, ?_⟩
    rw [archiveAndNewLogFile]
    dsimp only
    split_ifs
    · exact List.subset_append_right _ _
    · exact List.nil_subset _
  · obtain ⟨t, ht⟩ := checkAccessLogRotate_of_not_rotates h
    rw [ht]
    exact List.Subset.refl _

/-- Lines are numbered as they come. -/
def Numbered (s : AccessLog) : Prop := s.asked.map AccessLine.number = List.range s.asked.length

/-- Every line is there, once, in order. -/
def Complete (s : AccessLog) : Prop := s.contents = s.asked

theorem Numbered.nodup {s : AccessLog} (h : Numbered s) : s.asked.Nodup := by
  refine List.Nodup.of_map AccessLine.number ?_
  rw [h]
  exact List.nodup_range

theorem Numbered.notMem {s : AccessLog} (h : Numbered s) (text : Bytes) : ⟨s.asked.length, text⟩ ∉ s.asked := by
  intro hmem
  have hnumber := List.mem_map_of_mem (f := AccessLine.number) hmem
  rw [h] at hnumber
  exact absurd (List.mem_range.mp hnumber) (Nat.lt_irrefl _)

theorem logFunc_asked (maxBytes now : ℤ) (output : Bytes) (f : FileFaults) (s : AccessLog) :
    (logFunc maxBytes now output f s).asked = s.asked ++ [⟨s.asked.length, output⟩] := by
  rw [logFunc]
  split_ifs <;> exact checkAccessLogRotate_asked maxBytes now f _

theorem newAccessLogger_asked (maxBytes now : ℤ) (f : FileFaults) (s : AccessLog) :
    (newAccessLogger maxBytes now f s).asked = s.asked := checkAccessLogRotate_asked maxBytes now f _

theorem step_numbered {maxBytes : ℤ} {s t : AccessLog} {e : Event} (hs : Numbered s)
    (h : step maxBytes s e = some t) : Numbered t := by
  cases e with
  | start now f =>
    obtain rfl : newAccessLogger maxBytes now f s = t := Option.some.inj h
    rw [Numbered, newAccessLogger_asked]
    exact hs
  | log now output f =>
    obtain rfl : logFunc maxBytes now output f s = t := Option.some.inj h
    rw [Numbered, logFunc_asked, List.map_append, hs, List.length_append, List.length_singleton, List.range_succ]
    rfl

theorem writeString_contents (f : FileFaults) (line : AccessLine) (s : AccessLog) :
    ∃ text, (writeString f line s).contents = s.contents ++ [{ line with text }] ∧
      (text = line.text ↔ ∀ n, f.written = some n → line.text.length ≤ n) := by
  refine ⟨_, (List.append_assoc _ _ _).symm, ?_⟩
  cases f.written with
  | none => exact iff_of_true rfl fun n h => nomatch h
  | some n =>
    refine (List.take_eq_self_iff _).trans ⟨fun hn k hk => ?_, fun h => h n rfl⟩
    obtain rfl := Option.some.inj hk
    exact hn

/-- An event keeps the lines complete exactly when it preserves them. -/
theorem step_complete_iff {maxBytes : ℤ} {s t : AccessLog} {e : Event} (hs : Numbered s) (hc : Complete s)
    (h : step maxBytes s e = some t) : Preserves maxBytes s e ↔ Complete t := by
  have hnodup : s.contents.Nodup := hc ▸ hs.nodup
  cases e with
  | start now f =>
    obtain rfl : newAccessLogger maxBytes now f s = t := Option.some.inj h
    rw [Complete, newAccessLogger_asked, ← hc]
    exact (checkAccessLogRotate_contents_iff (s := { s with opened := true, lastAccessLogStatTime := 0 }) hnodup).symm
  | log now output f =>
    obtain rfl : logFunc maxBytes now output f s = t := Option.some.inj h
    let line : AccessLine := ⟨s.asked.length, output⟩
    let s₁ : AccessLog := { s with asked := s.asked ++ [line] }
    have hcontents : (checkAccessLogRotate maxBytes now f s₁).contents = s.contents ↔
      (Rotates maxBytes now f s → Keeps f s) := checkAccessLogRotate_contents_iff (s := s₁) hnodup
    have hopened : (checkAccessLogRotate maxBytes now f s₁).opened ↔
      s.opened ∧ (Rotates maxBytes now f s → f.reopen = false) := checkAccessLogRotate_opened_iff
    obtain ⟨text, htext, hwritten⟩ := writeString_contents f line (checkAccessLogRotate maxBytes now f s₁)
    have hlog : logFunc maxBytes now output f s = if (checkAccessLogRotate maxBytes now f s₁).opened then
      writeString f line (checkAccessLogRotate maxBytes now f s₁) else checkAccessLogRotate maxBytes now f s₁ := rfl
    rw [Complete, logFunc_asked, hlog, Preserves]
    by_cases ho : (checkAccessLogRotate maxBytes now f s₁).opened
    · obtain ⟨hs₀, hreopen⟩ := hopened.mp ho
      rw [if_pos ho, htext]
      constructor
      · rintro ⟨-, hkeeps, hwrites⟩
        rw [hcontents.mpr fun hr => (hkeeps hr).1, hc, hwritten.mpr hwrites]
      · intro h
        obtain ⟨hleft, hright⟩ := List.append_inj' h rfl
        have houtput : text = output := congrArg AccessLine.text (List.singleton_inj.mp hright)
        exact ⟨hs₀, fun hr => ⟨hcontents.mp (hleft.trans hc.symm) hr, hreopen hr⟩, hwritten.mp houtput⟩
    · rw [if_neg ho]
      refine iff_of_false (fun h => ho (hopened.mpr ⟨h.1, fun hr => (h.2.1 hr).2⟩)) fun h => ?_
      have hsubset := checkAccessLogRotate_subset maxBytes now f s₁
      rw [h] at hsubset
      have hline : line ∈ s.contents := hsubset (List.mem_append_right _ (List.mem_singleton_self line))
      rw [hc] at hline
      exact hs.notMem output hline

/-- Through any run, with any failures, each line that was to be logged is in the archive or the log, once
and in order, exactly when every event finds the log opened and writes its whole line, and a log is only
archived where there was no archive and either all went well or nothing was done. -/
theorem run_complete_iff (maxBytes : ℤ) (es : List Event) :
    Throughout (step maxBytes) (Preserves maxBytes) {} es ↔
      ∀ past rest t, es = past ++ rest → run (step maxBytes) {} past = some t → t.contents = t.asked :=
  throughout_iff_always (fun _ _ _ h ht => step_numbered h ht) (fun _ _ _ h hc ht => step_complete_iff h hc ht)
    (rfl : Numbered {}) rfl (run_total _ _ es)

instance (maxBytes : ℤ) (s : AccessLog) : ∀ e, Decidable (Preserves maxBytes s e)
  | .start _ _ => inferInstanceAs (Decidable (_ → _))
  | .log _ output f =>
    have : Decidable (∀ n, f.written = some n → output.length ≤ n) :=
      match f.written with
      | none => .isTrue fun _ h => nomatch h
      | some n => decidable_of_iff (output.length ≤ n) ⟨fun h _ hk => Option.some.inj hk ▸ h, fun h => h n rfl⟩
    inferInstanceAs (Decidable (_ ∧ _ ∧ _))

/-- The second archive takes the place of the first. -/
example : ¬ Throughout (step 1) (Preserves 1) {} [.start (10 ^ 15) {}, .log (10 ^ 15) [97, 98] {},
    .log (2 * 10 ^ 15) [99, 100] {}, .log (3 * 10 ^ 15) [101] {}] := by decide

end AccessLog
end Gocom
