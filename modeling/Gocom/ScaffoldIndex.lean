import Gocom.GoMaps
import Gocom.GuardedRuns
import Gocom.ScaffoldModels
import Gocom.TextCuts

/-!
# The index of generated models

Models are written to files of their own, and each folder has an index that names its models. A file
that exists is left alone, but the index is written again.
-/

namespace Gocom

open PathNames Runs TextCuts

inductive ScaffoldError where
  | modelFolderMissing (folder : Bytes)
  | openFile (path : Bytes)
  | readFile (path : Bytes)
  deriving DecidableEq

/-- The files of a project. Which folders there are does not change. -/
structure SourceTree where
  isDir : Bytes → Bool
  files : GoMap Bytes Bytes := .empty

/-- The settings of `ProjectScaffolds` that models depend on. -/
structure ProjectScaffolds where
  modelsFolder : Bytes
  /-- The value of `creatingDirs` for the folder of the models. -/
  creatingDir : Bytes := []

namespace SourceTree

def isPathExists (t : SourceTree) (p : Bytes) : Bool := t.isDir p || (t.files p).isSome

/-- A file in a folder that exists can be opened and is written from the front; what was longer stays. -/
def writeFileContents (t : SourceTree) (filePath contents : Bytes) (forceOverride : Bool) :
    SourceTree × Option ScaffoldError :=
  if forceOverride = false ∧ t.isPathExists filePath then (t, none)
  else if t.isDir filePath ∨ t.isDir (pathDir filePath) = false then (t, some (.openFile filePath))
  else
    ({ t with files := t.files.store filePath (contents ++ ((t.files filePath).getD []).drop contents.length) }, none)

def endModelsComment : Bytes := asciiBytes "\x7d // ends of models array. NOTE: do not remove or change this comment!"

/-- `strings.Replace(s, old, new, 1)` -/
def replaceFirst (s old new : Bytes) : Bytes :=
  match cutAt old s with
  | (before, none) => before
  | (before, some rest) => before ++ new ++ rest

def indexPath (folderPath : Bytes) : Bytes := pathJoin [folderPath, asciiBytes "index.go"]

/-- The index without models. -/
def emptyIndex (filePath : Bytes) : Bytes :=
  join [asciiBytes "package " ++ getGoSourcePackageName filePath (asciiBytes "models"), [],
    asciiBytes "// AllModelStructures get all model structures",
    asciiBytes "func AllModelStructures() []interface\x7b\x7d \x7b", asciiBytes "\tdefs := []interface\x7b\x7d\x7b",
    9 :: endModelsComment, asciiBytes "\treturn defs", asciiBytes "\x7d", []] "\n"

def addModel (contents modelName : Bytes) : Bytes :=
  replaceFirst contents endModelsComment
    (asciiBytes "\t&" ++ modelName ++ asciiBytes "\x7b\x7d,\n\t" ++ endModelsComment)

def updateModelsIndexFile (t : SourceTree) (folderPath modelName : Bytes) : SourceTree × Option ScaffoldError :=
  let filePath := indexPath folderPath
  let (t, err) := if t.isPathExists filePath then (t, none)
    else t.writeFileContents filePath (emptyIndex filePath) false
  if err.isSome then (t, err)
  else if modelName = [] then (t, none)
  else
    match t.files filePath with
    | none => (t, some (.readFile filePath))
    | some contents => t.writeFileContents filePath (addModel contents modelName) true

def filePath (s : ProjectScaffolds) (model : ModelScaffolds) : Bytes := pathJoin [s.creatingDir, model.path]

/-- `none` is a panic while the model is written. -/
def generateModel (l : UnicodeLower) (s : ProjectScaffolds) (t : SourceTree) (model : ModelScaffolds) :
    Option (SourceTree × Option ScaffoldError) :=
  let modelFolder := if s.creatingDir = [] then s.modelsFolder else s.creatingDir
  if t.isPathExists modelFolder = false then some (t, some (.modelFolderMissing modelFolder))
  else do
    let contents ← model.encode l
    let (t, err) := t.writeFileContents (filePath s model) contents false
    some (if err.isSome then (t, err)
      else t.updateModelsIndexFile (pathDir (filePath s model)) model.getStructName)

/-! ## The text of an index -/

def indexHead (filePath : Bytes) : Bytes :=
  join [asciiBytes "package " ++ getGoSourcePackageName filePath (asciiBytes "models"), [],
    asciiBytes "// AllModelStructures get all model structures",
    asciiBytes "func AllModelStructures() []interface\x7b\x7d \x7b", asciiBytes "\tdefs := []interface\x7b\x7d\x7b",
    [9]] "\n"

def indexTail : Bytes := asciiBytes "\n\treturn defs\n\x7d\n"

def entry (modelName : Bytes) : Bytes := asciiBytes "\t&" ++ modelName ++ asciiBytes "\x7b\x7d,\n\t"

/-- The index with models. -/
def indexText (filePath : Bytes) (modelNames : List Bytes) : Bytes :=
  indexHead filePath ++ modelNames.flatMap entry ++ (endModelsComment ++ indexTail)

theorem emptyIndex_eq (filePath : Bytes) : emptyIndex filePath = indexText filePath [] := by
  have htail : indexTail = asciiBytes "\n" ++ (asciiBytes "\treturn defs" ++ (asciiBytes "\n" ++
    (asciiBytes "\x7d" ++ (asciiBytes "\n" ++ [])))) := by decide
  simp only [emptyIndex, indexText, indexHead, htail, join, List.intercalate_cons_cons, List.intercalate_singleton,
    List.flatMap_nil, List.append_assoc, List.append_nil, List.nil_append, List.cons_append]

theorem notMem_indexHead {filePath : Bytes} (h : 33 ∉ getGoSourcePackageName filePath (asciiBytes "models")) :
    33 ∉ indexHead filePath := by
  have hconst : 33 ∉ asciiBytes "package " ∧ 33 ∉ asciiBytes "// AllModelStructures get all model structures" ∧
      33 ∉ asciiBytes "func AllModelStructures() []interface\x7b\x7d \x7b" ∧
      33 ∉ asciiBytes "\tdefs := []interface\x7b\x7d\x7b" ∧ 33 ∉ asciiBytes "\n" := by decide
  simp [indexHead, join, List.intercalate_cons_cons, hconst, h]

/-- A name that can stand in an index. -/
theorem addModel_indexText {filePath : Bytes} {modelNames : List Bytes} {modelName : Bytes}
    (hpkg : 33 ∉ getGoSourcePackageName filePath (asciiBytes "models")) (hnames : ∀ n ∈ modelNames, 33 ∉ n) :
    addModel (indexText filePath modelNames) modelName = indexText filePath (modelNames ++ [modelName]) := by
  obtain ⟨init, hinit, hcomment⟩ : ∃ init, 33 ∉ init ∧ endModelsComment = init ++ [33] :=
    ⟨endModelsComment.dropLast, by decide, by decide⟩
  have hconst : 33 ∉ asciiBytes "\t&" ∧ 33 ∉ asciiBytes "\x7b\x7d,\n\t" := by decide
  have hw : 33 ∉ indexHead filePath ++ modelNames.flatMap entry := by
    rw [List.mem_append, not_or]
    refine ⟨notMem_indexHead hpkg, fun hmem => ?_⟩
    obtain ⟨n, hn, hentry⟩ := List.mem_flatMap.mp hmem
    simp only [entry, List.mem_append] at hentry
    rcases hentry with (hentry | hentry) | hentry
    · exact hconst.1 hentry
    · exact hnames n hn hentry
    · exact hconst.2 hentry
  rw [addModel, replaceFirst, indexText, hcomment, cutAt_of_last hinit hw indexTail]
  simp only [indexText, hcomment, entry, List.flatMap_append, List.flatMap_cons, List.flatMap_nil,
    List.append_assoc, List.append_nil]

/-! ## Writing -/

/-- A file that can be opened. -/
def Opens (t : SourceTree) (p : Bytes) : Prop := t.isDir p = false ∧ t.isDir (pathDir p) = true

theorem Opens.exists_iff {t : SourceTree} {p : Bytes} (h : t.Opens p) : t.isPathExists p = (t.files p).isSome := by
  rw [isPathExists, h.1, Bool.false_or]

theorem Opens.write {t : SourceTree} {p : Bytes} (h : t.Opens p) (contents : Bytes) (forceOverride : Bool) :
    t.writeFileContents p contents forceOverride =
      ({ t with files := if forceOverride = false ∧ (t.files p).isSome then t.files else
          t.files.store p (contents ++ ((t.files p).getD []).drop contents.length) }, none) := by
  have hopen : ¬ (t.isDir p ∨ t.isDir (pathDir p) = false) := by simp [h.1, h.2]
  rw [writeFileContents, h.exists_iff, if_neg hopen]
  split_ifs <;> rfl

/-- A file that is not there is written as it is. -/
theorem Opens.write_new {t : SourceTree} {p : Bytes} (h : t.Opens p) (contents : Bytes) {q : Bytes} :
    (t.writeFileContents p contents false).1.files q =
      if q = p then (t.files p).or (some contents) else t.files q := by
  rw [h.write]
  dsimp only
  cases hp : t.files p with
  | none =>
    rw [if_neg (fun h => nomatch h.2), GoMap.store_apply, Option.getD_none, List.drop_nil, List.append_nil]
    rfl
  | some old =>
    rw [if_pos ⟨rfl, rfl⟩, Option.some_or]
    split_ifs with hq
    · rw [hq, hp]
    · rfl

/-- Nothing is left of a shorter text. -/
theorem Opens.write_over {t : SourceTree} {p old contents : Bytes} (h : t.Opens p) (hp : t.files p = some old)
    (hlength : old.length ≤ contents.length) :
    t.writeFileContents p contents true = ({ t with files := t.files.store p contents }, none) := by
  rw [h.write, if_neg (fun h => nomatch h.1), hp, Option.getD_some, List.drop_eq_nil_of_le hlength, List.append_nil]

theorem length_indexText_le (p : Bytes) (names : List Bytes) (n : Bytes) :
    (indexText p names).length ≤ (indexText p (names ++ [n])).length := by
  simp only [indexText, List.flatMap_append, List.length_append]
  omega

/-- The index names these models; it is written with the first of them, if not before. -/
def Indexes (t : SourceTree) (p : Bytes) (names : List Bytes) : Prop :=
  t.files p = some (indexText p names) ∨ names = [] ∧ t.files p = none

theorem Indexes.of_files_eq {t t' : SourceTree} {p : Bytes} {names : List Bytes} (h : t.Indexes p names)
    (heq : t'.files p = t.files p) : t'.Indexes p names := by rwa [Indexes, heq]

/-- An index that has to be there is made without models. -/
theorem Indexes.ensured {t : SourceTree} {folder : Bytes} {names : List Bytes}
    (h : t.Indexes (indexPath folder) names) (hopens : t.Opens (indexPath folder)) :
    ∃ files, (if t.isPathExists (indexPath folder) then (t, none)
        else t.writeFileContents (indexPath folder) (emptyIndex (indexPath folder)) false) =
          ({ t with files }, none) ∧
      ∀ q, files q = if q = indexPath folder then some (indexText q names) else t.files q := by
  rw [hopens.exists_iff]
  rcases h with hold | ⟨rfl, hnone⟩
  · refine ⟨t.files, by rw [hold]; rfl, fun q => ?_⟩
    split_ifs with hq
    · rw [hq, hold]
    · rfl
  · refine ⟨t.files.store (indexPath folder) (indexText (indexPath folder) []), ?_, fun q => ?_⟩
    · rw [hopens.write, hnone, if_neg (fun h => nomatch h), if_neg (fun h => nomatch h.2), Option.getD_none,
        List.drop_nil, List.append_nil, emptyIndex_eq]
    · rw [GoMap.store_apply]
      split_ifs with hq
      · rw [hq]
      · rfl

/-- Without a name the index is only made. -/
theorem Indexes.generated {t : SourceTree} {folder : Bytes} {names : List Bytes}
    (h : t.Indexes (indexPath folder) names) (hopens : t.Opens (indexPath folder)) :
    (t.updateModelsIndexFile folder []).1.Indexes (indexPath folder) names := by
  obtain ⟨files, hensured, hfiles⟩ := h.ensured hopens
  refine .inl ?_
  rw [updateModelsIndexFile]
  simp only [hensured, Option.isSome_none, Bool.false_eq_true, if_false, if_true]
  exact (hfiles _).trans (if_pos rfl)

theorem Indexes.updated {t : SourceTree} {folder modelName : Bytes} {names : List Bytes}
    (h : t.Indexes (indexPath folder) names) (hopens : t.Opens (indexPath folder))
    (hpkg : 33 ∉ getGoSourcePackageName (indexPath folder) (asciiBytes "models")) (hnames : ∀ n ∈ names, 33 ∉ n)
    (hname : modelName ≠ []) :
    ∃ files, t.updateModelsIndexFile folder modelName = ({ t with files }, none) ∧
      ∀ q, files q = if q = indexPath folder then some (indexText q (names ++ [modelName])) else t.files q := by
  obtain ⟨files, hensured, hfiles⟩ := h.ensured hopens
  have hold : files (indexPath folder) = some (indexText (indexPath folder) names) :=
    (hfiles _).trans (if_pos rfl)
  have hopens' : Opens { t with files } (indexPath folder) := hopens
  refine ⟨files.store (indexPath folder) (indexText (indexPath folder) (names ++ [modelName])), ?_, fun q => ?_⟩
  · rw [updateModelsIndexFile]
    simp only [hensured, Option.isSome_none, Bool.false_eq_true, if_false, hname, hold,
      addModel_indexText hpkg hnames]
    exact hopens'.write_over hold (length_indexText_le _ names modelName)
  · rw [GoMap.store_apply, hfiles]
    split_ifs with hq
    · rw [hq]
    · rfl

/-! ## Runs -/

variable (l : UnicodeLower) (s : ProjectScaffolds)

def step (t : SourceTree) (model : ModelScaffolds) : Option SourceTree := (generateModel l s t model).map Prod.fst

/-- The index that names a model. -/
def indexFor (model : ModelScaffolds) : Bytes := indexPath (pathDir (filePath s model))

/-- The models can be written, each to a file that is no index, and their names and packages can stand in an
index, as can the models that an index names already. -/
structure Regular (t : SourceTree) (earlier : Bytes → List Bytes) (models : List ModelScaffolds) : Prop where
  folder : t.isDir (if s.creatingDir = [] then s.modelsFolder else s.creatingDir) = true
  encodes : ∀ m ∈ models, m.encode l ≠ none
  opens : ∀ m ∈ models, t.Opens (filePath s m) ∧ t.Opens (indexFor s m)
  indexed : ∀ m ∈ models, t.Indexes (indexFor s m) (earlier (indexFor s m))
  apart : ∀ m ∈ models, ∀ m' ∈ models, filePath s m ≠ indexFor s m'
  named : ∀ m ∈ models, m.getStructName ≠ [] ∧ 33 ∉ m.getStructName
  namedEarlier : ∀ m ∈ models, ∀ n ∈ earlier (indexFor s m), 33 ∉ n
  package : ∀ m ∈ models, 33 ∉ getGoSourcePackageName (indexFor s m) (asciiBytes "models")

/-- The names of the models in the folder of an index, in order. -/
def namesAt (models : List ModelScaffolds) (p : Bytes) : List Bytes :=
  (models.filter fun m => indexFor s m = p).map ModelScaffolds.getStructName

/-- What the first model for a file is written as. -/
def firstAt (models : List ModelScaffolds) (p : Bytes) : Option Bytes :=
  (models.find? fun m => filePath s m = p).bind (ModelScaffolds.encode l)

/-- What the files are after some of the models. -/
structure Holds (start : SourceTree) (earlier : Bytes → List Bytes) (models past : List ModelScaffolds)
    (t : SourceTree) : Prop where
  isDir : t.isDir = start.isDir
  indices : ∀ m ∈ models, t.Indexes (indexFor s m) (earlier (indexFor s m) ++ namesAt s past (indexFor s m))
  others : ∀ p, (∀ m ∈ models, p ≠ indexFor s m) → t.files p = (start.files p).or (firstAt l s past p)

theorem namesAt_concat (past : List ModelScaffolds) (m : ModelScaffolds) (p : Bytes) : namesAt s (past ++ [m]) p =
    namesAt s past p ++ if indexFor s m = p then [m.getStructName] else [] := by
  rw [namesAt, List.filter_append, List.map_append, namesAt]
  split_ifs with h <;> simp [h]

theorem firstAt_concat {past : List ModelScaffolds} (hencode : ∀ m ∈ past, m.encode l ≠ none)
    {m : ModelScaffolds} {contents : Bytes} (hm : m.encode l = some contents) (p : Bytes) :
    firstAt l s (past ++ [m]) p = (firstAt l s past p).or (if p = filePath s m then some contents else none) := by
  rw [firstAt, List.find?_append, firstAt]
  cases hfound : past.find? fun m => filePath s m = p with
  | none =>
    rw [Option.none_or, Option.bind_none, Option.none_or]
    by_cases hp : p = filePath s m
    · rw [if_pos hp, List.find?_cons_of_pos (by simp [hp]), Option.bind_some, hm]
    · rw [if_neg hp, List.find?_cons_of_neg (by simpa using Ne.symm hp), List.find?_nil, Option.bind_none]
  | some first =>
    obtain ⟨c, hc⟩ := Option.ne_none_iff_exists'.mp (hencode first (List.mem_of_find?_eq_some hfound))
    rw [Option.some_or, Option.bind_some, hc, Option.some_or]

theorem generateModel_eq {t : SourceTree} {m : ModelScaffolds} {contents : Bytes}
    (hfolder : t.isDir (if s.creatingDir = [] then s.modelsFolder else s.creatingDir) = true)
    (hm : m.encode l = some contents) (hopens : t.Opens (filePath s m)) :
    generateModel l s t m = some (updateModelsIndexFile (t.writeFileContents (filePath s m) contents false).1
      (pathDir (filePath s m)) m.getStructName) := by
  have hexists : t.isPathExists (if s.creatingDir = [] then s.modelsFolder else s.creatingDir) = true := by
    rw [isPathExists, hfolder, Bool.true_or]
  have hwrite := congrArg Prod.snd (hopens.write contents false)
  rw [generateModel]
  simp only [hexists, Bool.true_eq_false, if_false, hm, bind, Option.bind_some]
  rw [hwrite]
  rfl

section Runs

variable {l s} {start : SourceTree} {earlier : Bytes → List Bytes} {models : List ModelScaffolds}

theorem Regular.notMem_names (hr : Regular l s start earlier models) {past : List ModelScaffolds}
    (hpast : past ⊆ models) {m : ModelScaffolds} (hm : m ∈ models) :
    ∀ n ∈ earlier (indexFor s m) ++ namesAt s past (indexFor s m), 33 ∉ n := by
  intro n hn
  rcases List.mem_append.mp hn with hn | hn
  · exact hr.namedEarlier m hm n hn
  · obtain ⟨m', hm', rfl⟩ := List.mem_map.mp hn
    exact (hr.named m' (hpast (List.mem_of_mem_filter hm'))).2

theorem step_holds {t : SourceTree} {past : List ModelScaffolds} (hr : Regular l s start earlier models)
    (hpast : past ⊆ models) (h : Holds l s start earlier models past t) {m : ModelScaffolds} (hm : m ∈ models) :
    ∃ t', step l s t m = some t' ∧ Holds l s start earlier models (past ++ [m]) t' := by
  obtain ⟨contents, hcontents⟩ := Option.ne_none_iff_exists'.mp (hr.encodes m hm)
  have hopens : ∀ p, start.Opens p → t.Opens p := fun p hp => by rwa [Opens, h.isDir]
  obtain ⟨hfile, hindex⟩ := hr.opens m hm
  have hnew : ∀ q, (t.writeFileContents (filePath s m) contents false).1.files q =
      if q = filePath s m then (t.files (filePath s m)).or (some contents) else t.files q :=
    fun q => (hopens _ hfile).write_new contents
  have hdir : (t.writeFileContents (filePath s m) contents false).1.isDir = t.isDir := by
    rw [(hopens _ hfile).write]
  generalize ht₁ : (t.writeFileContents (filePath s m) contents false).1 = t₁ at hnew hdir
  have hkept : ∀ m' ∈ models, t₁.files (indexFor s m') = t.files (indexFor s m') := fun m' hm' =>
    (hnew _).trans (if_neg (hr.apart m hm m' hm').symm)
  have hopens₁ : t₁.Opens (indexFor s m) := by
    rw [Opens, hdir]
    exact hopens _ hindex
  have hindices := (h.indices m hm).of_files_eq (hkept m hm)
  obtain ⟨files, hupdate, hfiles⟩ :=
    hindices.updated hopens₁ (hr.package m hm) (hr.notMem_names hpast hm) (hr.named m hm).1
  refine ⟨{ t₁ with files }, ?_, hdir.trans h.isDir, fun m' hm' => ?_, fun p hp => ?_⟩
  · have hgenerate := generateModel_eq l s (h.isDir ▸ hr.folder) hcontents (hopens _ hfile)
    rw [step, hgenerate, ht₁, hupdate]
    rfl
  · rw [namesAt_concat]
    by_cases heq : indexFor s m' = indexFor s m
    · rw [heq, if_pos rfl, ← List.append_assoc]
      exact .inl ((hfiles _).trans (if_pos rfl))
    · rw [if_neg (Ne.symm heq), List.append_nil]
      exact (h.indices m' hm').of_files_eq (((hfiles _).trans (if_neg heq)).trans (hkept m' hm'))
  · have hold := h.others p hp
    refine (hfiles p).trans ?_
    rw [firstAt_concat l s (fun m' hm' => hr.encodes m' (hpast hm')) hcontents, ← Option.or_assoc, ← hold]
    have hne : p ≠ indexPath (pathDir (filePath s m)) := hp m hm
    rw [if_neg hne, hnew]
    split_ifs with hp'
    · rw [hp']
    · rw [Option.or_none]

theorem run_holds (hr : Regular l s start earlier models) {rest past : List ModelScaffolds} {t : SourceTree}
    (hsub : past ++ rest ⊆ models) (h : Holds l s start earlier models past t) :
    ∃ t', run (step l s) t rest = some t' ∧ Holds l s start earlier models (past ++ rest) t' := by
  induction rest generalizing past t with
  | nil => exact ⟨t, rfl, by rwa [List.append_nil]⟩
  | cons m rest ih =>
    obtain ⟨hpast, hrest⟩ := List.append_subset.mp hsub
    obtain ⟨t₁, ht₁, h₁⟩ := step_holds hr hpast h (hrest List.mem_cons_self)
    have hsub' : past ++ [m] ++ rest ⊆ models := by rwa [List.append_assoc]
    obtain ⟨t', ht', h'⟩ := ih hsub' h₁
    refine ⟨t', run_cons_eq_some.mpr ⟨t₁, ht₁, ht'⟩, ?_⟩
    rwa [List.append_assoc] at h'

/-- After any number of models the index of each folder names, after the models that it named before, those
written to the folder, in order and each as often as it was written, and each file holds what was first
written to it. -/
theorem run_generates (hr : Regular l s start earlier models) :
    ∃ t', run (step l s) start models = some t' ∧
      (∀ m ∈ models, t'.files (indexFor s m) = some (indexText (indexFor s m)
        (earlier (indexFor s m) ++ namesAt s models (indexFor s m)))) ∧
      ∀ p, (∀ m ∈ models, p ≠ indexFor s m) → t'.files p = (start.files p).or (firstAt l s models p) := by
  have hstart : Holds l s start earlier models [] start :=
    ⟨rfl, fun m hm => (List.append_nil (earlier (indexFor s m))).symm ▸ hr.indexed m hm,
      fun p _ => (Option.or_none).symm⟩
  obtain ⟨t', hrun, h⟩ := run_holds hr (List.Subset.refl _) hstart
  refine ⟨t', hrun, fun m hm => ?_, h.others⟩
  refine (h.indices m hm).resolve_right fun hempty => ?_
  have hmem : m.getStructName ∈ namesAt s models (indexFor s m) :=
    List.mem_map_of_mem (List.mem_filter.mpr ⟨hm, decide_eq_true rfl⟩)
  have hnone : namesAt s models (indexFor s m) = [] := (List.append_eq_nil_iff.mp hempty.1).2
  rw [hnone] at hmem
  exact absurd hmem List.not_mem_nil

end Runs

def modelsProject : ProjectScaffolds := { modelsFolder := asciiBytes "models", creatingDir := asciiBytes "models" }

def userModel : ModelScaffolds := { path := asciiBytes "user.go", name := asciiBytes "user" }

def roleModel : ModelScaffolds := { path := asciiBytes "role.go", name := asciiBytes "role" }

/-- A folder of models as the project's own generation leaves it. -/
def generatedTree : SourceTree :=
  (updateModelsIndexFile { isDir := fun p => p = asciiBytes "models" } (asciiBytes "models") []).1

theorem regular_models : Regular asciiLower modelsProject generatedTree (fun _ => [])
    [userModel, roleModel, userModel] where
  folder := by decide
  encodes m hm := mt (ModelScaffolds.encode_eq_none_iff asciiLower m).mp (by
    revert m
    decide)
  opens := by unfold Opens; decide
  indexed := by
    have hindexed : generatedTree.Indexes (indexPath (asciiBytes "models")) [] :=
      Indexes.generated (.inr ⟨rfl, rfl⟩) (by unfold Opens; decide)
    have hfor : ∀ m ∈ [userModel, roleModel, userModel],
        indexFor modelsProject m = indexPath (asciiBytes "models") := by decide
    intro m hm
    rw [hfor m hm]
    exact hindexed
  apart := by decide
  named := by decide
  namedEarlier _ _ _ hn := absurd hn List.not_mem_nil
  package := by decide

/-- A model that is generated twice is named twice. -/
theorem run_generates_twice : ∃ t', run (step asciiLower modelsProject) generatedTree
      [userModel, roleModel, userModel] = some t' ∧
    t'.files (asciiBytes "models/index.go") =
      some (indexText (asciiBytes "models/index.go") [asciiBytes "User", asciiBytes "Role", asciiBytes "User"]) := by
  obtain ⟨t', hrun, hindex, -⟩ := run_generates regular_models
  exact ⟨t', hrun, hindex userModel List.mem_cons_self⟩

end SourceTree
end Gocom
