import Gocom.GoMaps
import Gocom.GuardedRuns
import Mathlib.Data.Nat.Notation
import Mathlib.Logic.Basic

/-!
# The datasource of a bean

A struct bean names its datasource by the tag of a field or by one of three methods. The lookup
goes round until it meets a tag or a method, so that it never ends for a bean without either. The
name it finds is kept under the name of the struct type and answers the later lookups.
-/

namespace Gocom

/-- What the lookup sees of a struct bean: the tag of its `Datasource` field, if it has the field,
and the answers of the methods it has. -/
structure DatasourceBean where
  pkgPath : String := ""
  name : String := ""
  fieldTag : Option String := none
  datasource : Option String := none
  datasourceName : Option String := none
  getDatasource : Option String := none

inductive BeanOrTableName where
  | bean (b : DatasourceBean)
  | tableName (name : String)
  | other

namespace DatasourceBean

def structureName (b : DatasourceBean) : String := b.pkgPath ++ "." ++ b.name

/-- The answer of the first method that the bean has. -/
def firstMethod (b : DatasourceBean) : Option String :=
  b.datasource.or (b.datasourceName.or b.getDatasource)

/-- One round of the loop, left with a name or gone through. -/
def lookup (b : DatasourceBean) : Option String :=
  (b.fieldTag.filter fun tagName => "" ≠ tagName).or b.firstMethod

def loop (b : DatasourceBean) : ℕ → String → Option String
  | 0, _ => none
  | fuel + 1, dataSourceName =>
    if "" = dataSourceName then
      match b.lookup with
      | some dataSourceName => some dataSourceName
      | none => loop b fuel dataSourceName
    else some dataSourceName

end DatasourceBean

/-- The names kept by struct type, the structure name and the datasource; `none` when the loop
does not end within the fuel. -/
def getDatasourceName (fuel : ℕ) (datasourceNamesByTableBeanName : GoMap String String)
    (beanOrTableName : BeanOrTableName) (defaultDatasourceName : String) :
    Option (GoMap String String × String × String) :=
  match beanOrTableName with
  | .bean b =>
    (b.loop fuel ((datasourceNamesByTableBeanName b.structureName).getD "")).map
      fun dataSourceName =>
        if "" ≠ dataSourceName then
          (datasourceNamesByTableBeanName.store b.structureName dataSourceName, b.structureName,
            dataSourceName)
        else (datasourceNamesByTableBeanName, "", defaultDatasourceName)
  | .tableName _ | .other => some (datasourceNamesByTableBeanName, "", defaultDatasourceName)

namespace DatasourceBean

/-! ## The loop -/

theorem loop_of_ne {b : DatasourceBean} {name : String} (h : "" ≠ name) (fuel : ℕ) :
    b.loop (fuel + 1) name = some name := if_neg h

/-- The first round decides: what it does not find is never found. -/
theorem loop_empty (b : DatasourceBean) (fuel : ℕ) : b.loop (fuel + 1) "" = b.lookup := by
  induction fuel with
  | zero =>
    rw [loop, if_pos rfl]
    cases b.lookup <;> rfl
  | succ fuel ih =>
    rw [loop, if_pos rfl]
    cases hl : b.lookup with
    | none => exact ih.trans hl
    | some name => rfl

/-- The loop ends exactly for a kept name, a tag, or a method. -/
theorem loop_ends_iff (b : DatasourceBean) (kept : String) :
    (∃ fuel name, b.loop fuel kept = some name) ↔ kept ≠ "" ∨ b.lookup.isSome = true := by
  constructor
  · rintro ⟨fuel, name, hl⟩
    cases fuel with
    | zero => cases hl
    | succ fuel =>
      refine or_iff_not_imp_left.mpr fun hkept => ?_
      rw [not_not.mp hkept, loop_empty] at hl
      exact Option.isSome_iff_exists.mpr ⟨name, hl⟩
  · rintro (hkept | hsome)
    · exact ⟨1, kept, loop_of_ne hkept.symm 0⟩
    · obtain ⟨name, hl⟩ := Option.isSome_iff_exists.mp hsome
      by_cases hkept : "" = kept
      · exact ⟨1, name, hkept ▸ (b.loop_empty 0).trans hl⟩
      · exact ⟨1, kept, loop_of_ne hkept 0⟩

/-! ## The answer -/

/-- The name, unless it is empty. -/
def named (name : Option String) : Option String := name.filter fun name => "" ≠ name

/-- The datasource that the bean names: by the tag, or by the first method that names one. -/
def own (b : DatasourceBean) : Option String :=
  (named b.fieldTag).or
    ((named b.datasource).or ((named b.datasourceName).or (named b.getDatasource)))

/-- The lookup ends, with the bean's own datasource or else the default one. -/
def Answered (names : GoMap String String) (b : DatasourceBean) (defaultDatasourceName : String) :
    Prop :=
  ∃ fuel names' structureName, getDatasourceName fuel names (.bean b) defaultDatasourceName =
    some (names', structureName, b.own.getD defaultDatasourceName)

/-- The tag names a datasource, or there is a method, the first of which names the bean's own. -/
def Declares (b : DatasourceBean) (defaultDatasourceName : String) : Prop :=
  (∃ tagName, b.fieldTag = some tagName ∧ tagName ≠ "") ∨
    ∃ name, b.firstMethod = some name ∧
      (name = "" → b.own.getD defaultDatasourceName = defaultDatasourceName)

theorem named_of_ne {name : String} (h : name ≠ "") : named (some name) = some name := by
  simpa [named] using h

theorem named_eq_some {x : Option String} {name : String} (h : named x = some name) :
    x = some name ∧ name ≠ "" := by
  obtain ⟨hx, hne⟩ := Option.filter_eq_some_iff.mp h
  exact ⟨hx, (of_decide_eq_true hne).symm⟩

/-- The first method speaks for all when it names a datasource. -/
theorem own_of_firstMethod {b : DatasourceBean} {name : String} (htag : named b.fieldTag = none)
    (h : b.firstMethod = some name) (hne : name ≠ "") : b.own = some name := by
  rw [own, htag, Option.none_or]
  rw [firstMethod] at h
  cases hd : b.datasource with
  | some d =>
    rw [hd] at h
    cases h
    rw [named_of_ne hne]
    rfl
  | none =>
    rw [hd, Option.none_or] at h
    cases hn : b.datasourceName with
    | some d =>
      rw [hn] at h
      cases h
      rw [named_of_ne hne]
      rfl
    | none =>
      rw [hn, Option.none_or] at h
      rw [h, named_of_ne hne]
      rfl

/-- What the first round leaves the lookup with, where it leaves it. -/
theorem lookup_declares_iff (b : DatasourceBean) (defaultDatasourceName : String) :
    (∃ name, b.lookup = some name ∧
        (if "" ≠ name then name else defaultDatasourceName) = b.own.getD defaultDatasourceName) ↔
      Declares b defaultDatasourceName := by
  cases htag : named b.fieldTag with
  | some tagName =>
    obtain ⟨hfield, hne⟩ := named_eq_some htag
    have hlookup : b.lookup = some tagName := by
      rw [lookup, ← named, htag]
      rfl
    have hown : b.own = some tagName := by
      rw [own, htag]
      rfl
    refine iff_of_true ⟨tagName, hlookup, ?_⟩ (.inl ⟨tagName, hfield, hne⟩)
    rw [if_pos hne.symm, hown]
    rfl
  | none =>
    have hlookup : b.lookup = b.firstMethod := by
      rw [lookup, ← named, htag]
      rfl
    have hno : ¬ ∃ tagName, b.fieldTag = some tagName ∧ tagName ≠ "" := by
      rintro ⟨tagName, hfield, hne⟩
      rw [hfield, named_of_ne hne] at htag
      cases htag
    rw [hlookup, Declares, or_iff_right hno]
    refine exists_congr fun name => and_congr_right fun hmethod => ?_
    by_cases hne : name = ""
    · rw [if_neg (not_not.mpr hne.symm)]
      exact ⟨fun h _ => h.symm, fun h => (h hne).symm⟩
    · rw [if_pos (Ne.symm hne), own_of_firstMethod htag hmethod hne]
      exact iff_of_true rfl fun h => absurd h hne

theorem getDatasourceName_bean (fuel : ℕ) (names : GoMap String String) (b : DatasourceBean)
    (defaultDatasourceName : String) (r : String) :
    (∃ names' structureName, getDatasourceName fuel names (.bean b) defaultDatasourceName =
        some (names', structureName, r)) ↔
      ∃ name, b.loop fuel ((names b.structureName).getD "") = some name ∧
        (if "" ≠ name then name else defaultDatasourceName) = r := by
  rw [getDatasourceName]
  cases b.loop fuel ((names b.structureName).getD "") with
  | none => simp
  | some name => by_cases hne : name = "" <;> simp [hne]

/-- A bean gets its datasource where the kept name is the right one, or where none is kept and
it declares something. -/
theorem getDatasourceName_answered_iff (names : GoMap String String) (b : DatasourceBean)
    (defaultDatasourceName : String) :
    Answered names b defaultDatasourceName ↔
      ((names b.structureName).getD "" ≠ "" ∧
        (names b.structureName).getD "" = b.own.getD defaultDatasourceName) ∨
      ((names b.structureName).getD "" = "" ∧ Declares b defaultDatasourceName) := by
  rw [Answered]
  simp only [getDatasourceName_bean]
  generalize (names b.structureName).getD "" = kept
  by_cases hkept : kept = ""
  · subst hkept
    rw [← lookup_declares_iff]
    constructor
    · rintro ⟨fuel, name, hloop, hr⟩
      cases fuel with
      | zero => cases hloop
      | succ fuel => exact .inr ⟨rfl, name, (b.loop_empty fuel) ▸ hloop, hr⟩
    · rintro (⟨hne, -⟩ | ⟨-, name, hlookup, hr⟩)
      · exact absurd rfl hne
      · exact ⟨1, name, (b.loop_empty 0).trans hlookup, hr⟩
  · constructor
    · rintro ⟨fuel, name, hloop, hr⟩
      cases fuel with
      | zero => cases hloop
      | succ fuel =>
        obtain rfl := Option.some.inj ((loop_of_ne (Ne.symm hkept) fuel).symm.trans hloop)
        exact .inl ⟨hkept, by rwa [if_pos (Ne.symm hkept)] at hr⟩
    · rintro (⟨-, hr⟩ | ⟨heq, -⟩)
      · exact ⟨1, kept, loop_of_ne (Ne.symm hkept) 0, by rwa [if_pos (Ne.symm hkept)]⟩
      · exact absurd heq hkept

/-- The lookup of a bean that declares nothing does not end. -/
theorem plainBean_not_answered : ¬ Answered GoMap.empty { name := "Plain" } "default" := by
  rintro ⟨fuel, names', structureName, h⟩
  have hloop : ∀ fuel, loop { name := "Plain" } fuel "" = none := by
    intro fuel
    cases fuel with
    | zero => rfl
    | succ fuel => exact loop_empty _ fuel
  rw [getDatasourceName, GoMap.empty_apply, Option.getD_none, hloop] at h
  cases h

/-! ## The names kept -/

def call (names : GoMap String String) (p : DatasourceBean × String) :
    Option (GoMap String String) :=
  (getDatasourceName 1 names (.bean p.1) p.2).map Prod.fst

/-- A call stores the name its lookup found, or nothing that is not kept already. -/
theorem call_cases {names names' : GoMap String String} {p : DatasourceBean × String}
    (hc : call names p = some names') :
    (∃ name, names' = names.store p.1.structureName name ∧
        (p.1.lookup = some name ∨ names p.1.structureName = some name)) ∨ names' = names := by
  rw [call, getDatasourceName] at hc
  obtain ⟨r, hr, rfl⟩ := Option.map_eq_some_iff.mp hc
  obtain ⟨name, hloop, rfl⟩ := Option.map_eq_some_iff.mp hr
  by_cases hne : "" = name
  · exact .inr (by simp [hne])
  · refine .inl ⟨name, by simp [hne], ?_⟩
    by_cases hkept : (names p.1.structureName).getD "" = ""
    · rw [hkept, loop_empty] at hloop
      exact .inl hloop
    · rw [loop_of_ne (Ne.symm hkept)] at hloop
      obtain rfl := Option.some.inj hloop
      cases hn : names p.1.structureName with
      | none => exact absurd (by rw [hn]; rfl) hkept
      | some kept => exact .inr rfl

/-- Whatever beans were looked up, a kept name is one that a bean of its structure name gave. -/
theorem kept_of_run {names names' : GoMap String String} {calls : List (DatasourceBean × String)}
    (hr : Runs.run call names calls = some names') {structureName name : String}
    (hname : names' structureName = some name) :
    names structureName = some name ∨
      ∃ p ∈ calls, p.1.structureName = structureName ∧ p.1.lookup = some name := by
  induction calls generalizing names with
  | nil => exact .inl (Option.some.inj hr ▸ hname)
  | cons p calls ih =>
    obtain ⟨mid, hc, hr⟩ := Runs.run_cons_eq_some.mp hr
    rcases ih hr with hmid | ⟨q, hq, hsn, hl⟩
    · rcases call_cases hc with ⟨found, rfl, hfound⟩ | rfl
      · rcases GoMap.of_store_eq_some hmid with ⟨rfl, rfl⟩ | ⟨-, hold⟩
        · rcases hfound with hl | hold
          · exact .inr ⟨p, List.mem_cons_self, rfl, hl⟩
          · exact .inl hold
        · exact .inl hold
      · exact .inl hmid
    · exact .inr ⟨q, List.mem_cons_of_mem p hq, hsn, hl⟩

end DatasourceBean
end Gocom
