import Gocom.GoMaps
import Gocom.GuardedRuns
import Mathlib.Data.List.Infix
import Mathlib.Data.List.Nodup

/-!
# Widgets by strategy

A wrapper keeps widgets by name and, for each loaded strategy, the names of the widgets that
apply to it. Adding and removing a widget and loading strategies each update a part of this
index. The index is kept in step with the registered widgets; but the test that decides
whether a widget enters a carrier applies the widget's pattern to the pattern itself, and not
to the strategy.
-/

namespace Gocom

class PatternWidget (ω : Type*) where
  getName : ω → String
  matchPattern : ω → String

open PatternWidget (getName matchPattern)

/-- `strategies` is a nil map until strategies are loaded for the first time. -/
structure WidgetsStrategyWrapper (ω : Type*) where
  widgetsByName : GoMap String ω := GoMap.empty
  strategies : Option (GoMap String (List String)) := none

namespace WidgetsStrategyWrapper

variable {ω : Type*} [PatternWidget ω]

/-- `regexp.Compile` with `MatchString` of its result; a pattern with an error has none. -/
abbrev Compile := String → Option (String → Bool)

variable (compile : Compile)

/-- The test of the loops in `loadStrategy` and `removeStrategy`. Both match `p` against `p`. -/
def matched (p : String) : Bool :=
  if "*" = p ∨ "#" = p then true
  else
    match compile p with
    | none => false
    | some r => r p

/-- A loop over the strategies that replaces each carrier; none over a nil map. -/
def updateCarriers (f : List String → List String)
    (strategies : Option (GoMap String (List String))) : Option (GoMap String (List String)) :=
  strategies.map fun strategies strategy => (strategies strategy).map f

/-- What `loadStrategy` does to the carrier of one strategy. -/
def loadCarrier (widget : ω) (carrier : List String) : List String :=
  if matched compile (matchPattern widget) then
    if getName widget ∈ carrier then carrier else carrier ++ [getName widget]
  else carrier

def loadStrategy (w : WidgetsStrategyWrapper ω) (widget : ω) : WidgetsStrategyWrapper ω :=
  { w with strategies := updateCarriers (loadCarrier compile widget) w.strategies }

/-- What `removeStrategy` does to the carrier of one strategy. -/
def removeCarrier (widget : ω) (carrier : List String) : List String :=
  if matched compile (matchPattern widget) then carrier.erase (getName widget) else carrier

def removeStrategy (w : WidgetsStrategyWrapper ω) (widget : ω) : WidgetsStrategyWrapper ω :=
  { w with strategies := updateCarriers (removeCarrier compile widget) w.strategies }

/-- A name that is taken is left to the widget that has it. -/
def add (w : WidgetsStrategyWrapper ω) (widget : ω) : WidgetsStrategyWrapper ω :=
  match w.widgetsByName (getName widget) with
  | some _ => w
  | none =>
    loadStrategy compile
      { w with widgetsByName := w.widgetsByName.store (getName widget) widget } widget

def get (w : WidgetsStrategyWrapper ω) (name : String) : Option ω := w.widgetsByName name

def remove (w : WidgetsStrategyWrapper ω) (name : String) : WidgetsStrategyWrapper ω × Bool :=
  match w.widgetsByName name with
  | none => (w, false)
  | some removedWidget =>
    (removeStrategy compile { w with widgetsByName := w.widgetsByName.delete name } removedWidget,
      true)

/-- An empty carrier for a pattern that has no widgets yet. -/
def openCarrier (strategies : GoMap String (List String)) (p : String) :
    GoMap String (List String) :=
  if (strategies p).any fun v => v.length > 0 then strategies else strategies.store p []

/-- Load strategies, visiting the registered widgets in the order `widgets`. A nil slice of
patterns is `none`. -/
def loadStrategies (w : WidgetsStrategyWrapper ω) (patterns : Option (List String))
    (widgets : List ω) : WidgetsStrategyWrapper ω :=
  match patterns with
  | none => w
  | some patterns =>
    widgets.foldl (loadStrategy compile)
      { w with strategies := some (patterns.foldl openCarrier (w.strategies.getD GoMap.empty)) }

def getWidgetsByStrategy (w : WidgetsStrategyWrapper ω) (strategy : String) : List ω :=
  match w.strategies.bind fun strategies => strategies strategy with
  | none => []
  | some carrier => carrier.filterMap w.widgetsByName

def Registered (w : WidgetsStrategyWrapper ω) (widget : ω) : Prop :=
  ∃ name, w.widgetsByName name = some widget

def Loaded (w : WidgetsStrategyWrapper ω) (strategy : String) : Prop :=
  ∃ strategies carrier, w.strategies = some strategies ∧ strategies strategy = some carrier

/-! ## Operations -/

inductive Op (ω : Type*) where
  | add (widget : ω)
  | remove (name : String)
  | loadStrategies (patterns : Option (List String)) (widgets : List ω)

def apply (w : WidgetsStrategyWrapper ω) : Op ω → WidgetsStrategyWrapper ω
  | .add widget => w.add compile widget
  | .remove name => (w.remove compile name).1
  | .loadStrategies patterns widgets => w.loadStrategies compile patterns widgets

/-- Ranging over a map visits each of its entries once, in any order. -/
def Ranges (w : WidgetsStrategyWrapper ω) : Op ω → Prop
  | .loadStrategies _ widgets =>
    (widgets.map getName).Nodup ∧ ∀ widget, widget ∈ widgets ↔ w.Registered widget
  | _ => True

/-! ## One carrier -/

variable {compile}

theorem mem_loadCarrier {widget : ω} {carrier : List String} {name : String} :
    name ∈ loadCarrier compile widget carrier ↔
      name ∈ carrier ∨ matched compile (matchPattern widget) = true ∧ getName widget = name := by
  rw [loadCarrier]
  split_ifs with hm hin
  · refine ⟨.inl, ?_⟩
    rintro (h | ⟨-, rfl⟩)
    · exact h
    · exact hin
  · simp [hm, eq_comm]
  · simp [hm]

theorem nodup_loadCarrier {carrier : List String} (h : carrier.Nodup) (widget : ω) :
    (loadCarrier compile widget carrier).Nodup := by
  rw [loadCarrier]
  split_ifs with hm hin
  · exact h
  · exact h.append (List.nodup_singleton _) (by simpa using hin)
  · exact h

theorem mem_foldl_loadCarrier {widgets : List ω} {carrier : List String} {name : String} :
    name ∈ widgets.foldl (fun carrier widget => loadCarrier compile widget carrier) carrier ↔
      name ∈ carrier ∨ ∃ widget ∈ widgets,
        matched compile (matchPattern widget) = true ∧ getName widget = name := by
  induction widgets generalizing carrier with
  | nil => simp
  | cons widget widgets ih =>
    rw [List.foldl_cons, ih, mem_loadCarrier, or_assoc]
    simp

theorem nodup_foldl_loadCarrier {widgets : List ω} {carrier : List String} (h : carrier.Nodup) :
    (widgets.foldl (fun carrier widget => loadCarrier compile widget carrier) carrier).Nodup := by
  induction widgets generalizing carrier with
  | nil => exact h
  | cons widget widgets ih => exact ih (nodup_loadCarrier h widget)

/-- Loading widgets one after the other works carrier by carrier. -/
theorem foldl_loadStrategy (w : WidgetsStrategyWrapper ω) (widgets : List ω) :
    widgets.foldl (loadStrategy compile) w =
      { w with
        strategies := updateCarriers
          (fun carrier => widgets.foldl (fun c widget => loadCarrier compile widget c) carrier)
          w.strategies } := by
  induction widgets generalizing w with
  | nil =>
    have hid : updateCarriers (fun carrier => carrier) w.strategies = w.strategies := by
      cases w.strategies <;> simp [updateCarriers]
    simp [hid]
  | cons widget widgets ih =>
    rw [List.foldl_cons, ih]
    cases hs : w.strategies <;> simp [loadStrategy, updateCarriers, hs, Function.comp_def]

theorem openCarrier_eq_some {strategies : GoMap String (List String)} {p strategy : String}
    {carrier : List String} (h : openCarrier strategies p strategy = some carrier) :
    strategies strategy = some carrier ∨ carrier = [] := by
  rw [openCarrier] at h
  split_ifs at h
  · exact .inl h
  · rcases GoMap.of_store_eq_some h with ⟨-, hv⟩ | ⟨-, hm⟩
    · exact .inr hv.symm
    · exact .inl hm

theorem foldl_openCarrier_eq_some {strategies : GoMap String (List String)}
    {patterns : List String} {strategy : String} {carrier : List String}
    (h : patterns.foldl openCarrier strategies strategy = some carrier) :
    strategies strategy = some carrier ∨ carrier = [] := by
  induction patterns generalizing strategies with
  | nil => exact .inl h
  | cons p patterns ih =>
    rcases ih h with h | h
    · exact openCarrier_eq_some h
    · exact .inr h

/-! ## The index -/

/-- Widgets stand under their own names, and the carrier of every loaded strategy holds, once
each, the names of the registered widgets that the test selects. -/
structure Indexed (compile : Compile) (w : WidgetsStrategyWrapper ω) : Prop where
  named : ∀ {name widget}, w.widgetsByName name = some widget → getName widget = name
  nodup : ∀ {strategies strategy carrier}, w.strategies = some strategies →
    strategies strategy = some carrier → carrier.Nodup
  mem : ∀ {strategies strategy carrier}, w.strategies = some strategies →
    strategies strategy = some carrier → ∀ name, name ∈ carrier ↔
      ∃ widget, w.widgetsByName name = some widget ∧
        matched compile (matchPattern widget) = true

theorem Indexed.empty : Indexed compile ({} : WidgetsStrategyWrapper ω) :=
  ⟨by simp, by simp, by simp⟩

/-- Updating every carrier by one function. -/
theorem Indexed.of_carriers {w : WidgetsStrategyWrapper ω} {byName : GoMap String ω}
    {f : List String → List String}
    (hnamed : ∀ {name widget}, byName name = some widget → getName widget = name)
    (hf : ∀ {strategies strategy carrier}, w.strategies = some strategies →
      strategies strategy = some carrier → (f carrier).Nodup ∧
        ∀ name, name ∈ f carrier ↔ ∃ widget, byName name = some widget ∧
          matched compile (matchPattern widget) = true) :
    Indexed compile
      { widgetsByName := byName, strategies := updateCarriers f w.strategies } := by
  have hcarrier : ∀ {strategies : GoMap String (List String)} {strategy carrier},
      updateCarriers f w.strategies = some strategies →
      strategies strategy = some carrier → carrier.Nodup ∧
        ∀ name, name ∈ carrier ↔ ∃ widget, byName name = some widget ∧
          matched compile (matchPattern widget) = true := by
    intro strategies strategy carrier hs hc
    obtain ⟨strategies', hs', rfl⟩ := Option.map_eq_some_iff.mp hs
    obtain ⟨carrier', hc', rfl⟩ := Option.map_eq_some_iff.mp hc
    exact hf hs' hc'
  exact ⟨hnamed, fun hs hc => (hcarrier hs hc).1, fun hs hc => (hcarrier hs hc).2⟩

theorem Indexed.add {w : WidgetsStrategyWrapper ω} (h : Indexed compile w) (widget : ω) :
    Indexed compile (w.add compile widget) := by
  rw [WidgetsStrategyWrapper.add]
  cases hw : w.widgetsByName (getName widget) with
  | some existing => exact h
  | none =>
    refine Indexed.of_carriers (w := w) ?_ fun hs hc => ⟨nodup_loadCarrier (h.nodup hs hc) widget,
      fun name => ?_⟩
    · intro name x hx
      rcases GoMap.of_store_eq_some hx with ⟨rfl, rfl⟩ | ⟨-, hx⟩
      · rfl
      · exact h.named hx
    · dsimp only
      rw [mem_loadCarrier, h.mem hs hc, GoMap.store_apply]
      split_ifs with hn
      · subst hn
        simp [hw]
      · simp [Ne.symm hn]

theorem Indexed.remove {w : WidgetsStrategyWrapper ω} (h : Indexed compile w) (name : String) :
    Indexed compile (w.remove compile name).1 := by
  rw [WidgetsStrategyWrapper.remove]
  cases hw : w.widgetsByName name with
  | none => exact h
  | some removed =>
    have hname : getName removed = name := h.named hw
    refine Indexed.of_carriers (w := w) (fun hx => h.named (GoMap.of_delete_eq_some hx).2)
      fun hs hc => ?_
    have hnodup := h.nodup hs hc
    rw [removeCarrier, hname]
    split_ifs with hm
    · refine ⟨hnodup.erase _, fun n => ?_⟩
      dsimp only
      rw [hnodup.mem_erase_iff, h.mem hs hc, GoMap.delete_apply]
      split_ifs with hn <;> simp [hn]
    · refine ⟨hnodup, fun n => ?_⟩
      dsimp only
      rw [h.mem hs hc, GoMap.delete_apply]
      split_ifs with hn
      · subst hn
        simp [hw, hm]
      · rfl

theorem Indexed.loadStrategies {w : WidgetsStrategyWrapper ω} (h : Indexed compile w)
    {widgets : List ω} (hw : ∀ widget, widget ∈ widgets ↔ w.Registered widget)
    (patterns : Option (List String)) : Indexed compile (w.loadStrategies compile patterns widgets) := by
  cases patterns with
  | none => exact h
  | some patterns =>
    rw [WidgetsStrategyWrapper.loadStrategies, foldl_loadStrategy]
    refine Indexed.of_carriers 
      (w := { w with strategies := some (patterns.foldl openCarrier _) }) h.named fun hs hc => ?_
    rename_i strategies strategy carrier
    obtain rfl := Option.some.inj hs
    -- the carrier has been there before, or it is opened empty
    have hold : (w.strategies.getD GoMap.empty) strategy = some carrier ∨ carrier = [] :=
      foldl_openCarrier_eq_some hc
    have hsel : ∀ name, (∃ widget ∈ widgets, matched compile (matchPattern widget) = true ∧
        getName widget = name) ↔ ∃ widget, w.widgetsByName name = some widget ∧
          matched compile (matchPattern widget) = true := by
      intro name
      constructor
      · rintro ⟨widget, hin, hm, rfl⟩
        obtain ⟨n, hn⟩ := (hw widget).mp hin
        exact ⟨widget, h.named hn ▸ hn, hm⟩
      · rintro ⟨widget, hn, hm⟩
        exact ⟨widget, (hw widget).mpr ⟨name, hn⟩, hm, h.named hn⟩
    rcases hold with hold | rfl
    · cases hs : w.strategies with
      | none => simp [hs] at hold
      | some strategies =>
        rw [hs, Option.getD_some] at hold
        refine ⟨nodup_foldl_loadCarrier (h.nodup hs hold), fun name => ?_⟩
        rw [mem_foldl_loadCarrier, h.mem hs hold, hsel, or_self]
    · refine ⟨nodup_foldl_loadCarrier List.nodup_nil, fun name => ?_⟩
      rw [mem_foldl_loadCarrier, hsel]
      simp

theorem Indexed.apply {w : WidgetsStrategyWrapper ω} (h : Indexed compile w) {op : Op ω}
    (hr : w.Ranges op) : Indexed compile (w.apply compile op) := by
  cases op with
  | add widget => exact h.add widget
  | remove name => exact h.remove name
  | loadStrategies patterns widgets => exact h.loadStrategies hr.2 patterns

theorem run_indexed {ops : List (Op ω)}
    (h : Runs.Throughout (Runs.total (apply compile)) Ranges {} ops) :
    Indexed compile (ops.foldl (apply compile) {}) :=
  h.invariant (fun _ _ _ hw hr ht => Option.some.inj ht ▸ hw.apply hr) Indexed.empty
    (Runs.run_total _ _ _)

/-! ## What a strategy resolves to -/

/-- The pattern applies to the strategy. -/
def Matches (compile : Compile) (p strategy : String) : Prop :=
  p = "*" ∨ p = "#" ∨ ∃ r, compile p = some r ∧ r strategy = true

theorem matched_iff {p : String} : matched compile p = true ↔ Matches compile p p := by
  rw [matched, Matches]
  split_ifs with h
  · refine iff_of_true rfl ?_
    rcases h with rfl | rfl
    · exact .inl rfl
    · exact .inr (.inl rfl)
  · have hstar : p ≠ "*" := fun hp => h (.inl hp.symm)
    have hhash : p ≠ "#" := fun hp => h (.inr hp.symm)
    cases hc : compile p <;> simp [hstar, hhash]

/-- The strategy resolves to exactly the registered widgets whose pattern applies to it, each
of them once. -/
def Resolves (compile : Compile) (w : WidgetsStrategyWrapper ω) (strategy : String) : Prop :=
  (w.getWidgetsByStrategy strategy).Nodup ∧ ∀ widget,
    widget ∈ w.getWidgetsByStrategy strategy ↔
      w.Registered widget ∧ Matches compile (matchPattern widget) strategy

/-- What the code resolves a loaded strategy to. -/
theorem Indexed.getWidgetsByStrategy {w : WidgetsStrategyWrapper ω} (h : Indexed compile w)
    {strategy : String} (hl : w.Loaded strategy) :
    (w.getWidgetsByStrategy strategy).Nodup ∧ ∀ widget,
      widget ∈ w.getWidgetsByStrategy strategy ↔
        w.Registered widget ∧ Matches compile (matchPattern widget) (matchPattern widget) := by
  obtain ⟨strategies, carrier, hs, hc⟩ := hl
  have hget : w.getWidgetsByStrategy strategy = carrier.filterMap w.widgetsByName := by
    rw [WidgetsStrategyWrapper.getWidgetsByStrategy, hs, Option.bind_some, hc]
  rw [hget]
  refine ⟨(h.nodup hs hc).filterMap fun n n' x hx hx' => (h.named hx).symm.trans (h.named hx'),
    fun widget => ?_⟩
  rw [List.mem_filterMap, ← matched_iff]
  constructor
  · rintro ⟨name, hn, hx⟩
    obtain ⟨x, hx', hm⟩ := (h.mem hs hc name).mp hn
    obtain rfl := Option.some.inj (hx.symm.trans hx')
    exact ⟨⟨name, hx⟩, hm⟩
  · rintro ⟨⟨name, hx⟩, hm⟩
    exact ⟨name, (h.mem hs hc name).mpr ⟨widget, hx, hm⟩, hx⟩

/-- After any sequence of operations a loaded strategy resolves to the widgets whose pattern
applies to it exactly when no registered widget's pattern tells the strategy from itself. -/
theorem run_resolves_iff {ops : List (Op ω)}
    (h : Runs.Throughout (Runs.total (apply compile)) Ranges {} ops) {strategy : String}
    (hl : (ops.foldl (apply compile) {}).Loaded strategy) :
    Resolves compile (ops.foldl (apply compile) {}) strategy ↔
      ∀ widget, (ops.foldl (apply compile) {}).Registered widget →
        (Matches compile (matchPattern widget) (matchPattern widget) ↔
          Matches compile (matchPattern widget) strategy) := by
  obtain ⟨hnodup, hmem⟩ := (run_indexed h).getWidgetsByStrategy hl
  constructor
  · intro hres widget hreg
    have hiff := (hmem widget).symm.trans (hres.2 widget)
    simpa [hreg] using hiff
  · intro hall
    refine ⟨hnodup, fun widget => (hmem widget).trans ?_⟩
    exact and_congr_right (hall widget)

end WidgetsStrategyWrapper

/-- The component the widgets of the repository are built from. -/
structure AbstractStrategyWidget where
  name : String
  matchPattern : String
  deriving DecidableEq

instance : PatternWidget AbstractStrategyWidget where
  getName := AbstractStrategyWidget.name
  matchPattern := AbstractStrategyWidget.matchPattern

namespace WidgetsStrategyWrapper

/-- Regular expressions without special characters match where they occur. -/
def literal : Compile := fun p => some fun s => decide (p.toList <:+: s.toList)

/-- A widget for the handler `add`, on a controller whose only handler is `remove`. -/
def auditAdd : List (Op AbstractStrategyWidget) :=
  [.add ⟨"audit", "add"⟩, .loadStrategies (some ["remove"]) [⟨"audit", "add"⟩]]

theorem auditAdd_ranges :
    Runs.Throughout (Runs.total (apply literal)) Ranges {} auditAdd := by
  have hadd : (add literal {} (⟨"audit", "add"⟩ : AbstractStrategyWidget)).widgetsByName =
      GoMap.empty.store "audit" ⟨"audit", "add"⟩ := rfl
  have hreg : ∀ widget, widget ∈ [(⟨"audit", "add"⟩ : AbstractStrategyWidget)] ↔
      (add literal {} (⟨"audit", "add"⟩ : AbstractStrategyWidget)).Registered widget := by
    intro widget
    rw [Registered, hadd, List.mem_singleton]
    constructor
    · rintro rfl
      exact ⟨"audit", rfl⟩
    · rintro ⟨name, hn⟩
      rcases GoMap.of_store_eq_some hn with ⟨-, rfl⟩ | ⟨-, hn⟩
      · rfl
      · cases hn
  exact Runs.throughout_total_cons.mpr ⟨trivial,
    Runs.throughout_total_cons.mpr ⟨⟨List.nodup_singleton _, hreg⟩, trivial⟩⟩

theorem auditAdd_loaded :
    (auditAdd.foldl (apply literal) {}).Loaded "remove" :=
  ⟨_, ["audit"], rfl, rfl⟩

theorem run_resolves_iff_auditAdd :
    Resolves literal (auditAdd.foldl (apply literal) {}) "remove" ↔
      ∀ widget, (auditAdd.foldl (apply literal) {}).Registered widget →
        (Matches literal (matchPattern widget) (matchPattern widget) ↔
          Matches literal (matchPattern widget) "remove") :=
  run_resolves_iff auditAdd_ranges auditAdd_loaded

/-- The widget for `add` is returned for `remove`. -/
theorem auditAdd_not_resolves :
    Runs.Throughout (Runs.total (apply literal)) Ranges {} auditAdd ∧
      (auditAdd.foldl (apply literal) {}).Loaded "remove" ∧
      ¬ Resolves literal (auditAdd.foldl (apply literal) {}) "remove" := by
  refine ⟨auditAdd_ranges, auditAdd_loaded, fun h => ?_⟩
  have hmem : (⟨"audit", "add"⟩ : AbstractStrategyWidget) ∈
      (auditAdd.foldl (apply literal) {}).getWidgetsByStrategy "remove" := List.mem_singleton_self _
  obtain ⟨-, hm⟩ := (h.2 _).mp hmem
  have hno : ¬ Matches literal "add" "remove" := by
    rintro (h | h | ⟨r, hr, hs⟩)
    · exact absurd h (by decide)
    · exact absurd h (by decide)
    · obtain rfl := Option.some.inj hr
      exact absurd hs (by decide)
  exact hno hm

end WidgetsStrategyWrapper
end Gocom
