import Gocom.HandlerExecution
import Mathlib.Tactic.ByContra
import Mathlib.Tactic.SplitIfs

/-!
# Filters before calls

The filters see the events of a message, and a message has one event per payload argument. A
call that follows the filters follows the acceptance of all of them; a handler without
payload arguments is called without any filter having run.
-/

namespace Gocom

namespace Act

/-- The acts that run the handler method or a delegate in its place. -/
def runsHandler : Act → Bool
  | .call | .delegate _ | .spawnDelegate _ => true
  | _ => false

def isFilter : Act → Bool
  | .filter _ _ _ => true
  | _ => false

end Act

namespace Filter

variable {σ π : Type*}

mutual

/-- A filter that accepts ran every filter it consists of, and each accepted. -/
theorem filter_accepted (f : Filter σ π) (i : ℕ) (w : σ) (ev : Event π)
    (h : (filter f i w ev).1.ok = true) :
    (filter f i w ev).2 = (addresses f).map fun a => .filter a i true := by
  cases f with
  | single address run =>
    rw [filter] at h ⊢
    have hok : (run w ev).ok = true := h
    simp [addresses, hok]
  | chain filters =>
    cases filters with
    | none => rw [filter, addresses, List.map_nil]
    | some filters =>
      rw [filter] at h ⊢
      rw [addresses]
      exact filterAll_accepted filters i _ h

theorem filterAll_accepted (filters : List (Filter σ π)) (i : ℕ) (last : Verdict σ π)
    (h : (filterAll filters i last).1.ok = true) :
    (filterAll filters i last).2 = (addressesAll filters).map fun a => .filter a i true := by
  cases filters with
  | nil => rw [filterAll, addressesAll, List.map_nil]
  | cons f filters =>
    have hfilter := filter_accepted f i last.world last.event
    rw [filterAll] at h ⊢
    cases hf : filter f i last.world last.event with
    | mk v acts =>
      simp only [hf] at h hfilter ⊢
      split_ifs at h ⊢ with hrej
      · exact absurd h (by rw [hrej]; simp)
      · rw [addressesAll, List.map_append, ← hfilter (eq_true_of_ne_false hrej),
          ← filterAll_accepted filters i v h]

end

mutual

theorem filter_isFilter (f : Filter σ π) (i : ℕ) (w : σ) (ev : Event π) :
    ∀ a ∈ (filter f i w ev).2, a.isFilter = true := by
  cases f with
  | single address run => rw [filter]; simp [Act.isFilter]
  | chain filters =>
    cases filters with
    | none => rw [filter]; simp
    | some filters => rw [filter]; exact filterAll_isFilter filters i _

theorem filterAll_isFilter (filters : List (Filter σ π)) (i : ℕ) (last : Verdict σ π) :
    ∀ a ∈ (filterAll filters i last).2, a.isFilter = true := by
  cases filters with
  | nil => rw [filterAll]; simp
  | cons f filters =>
    have hfilter := filter_isFilter f i last.world last.event
    rw [filterAll]
    cases hf : filter f i last.world last.event with
    | mk v acts =>
      rw [hf] at hfilter
      dsimp only
      split_ifs
      · exact hfilter
      · intro a ha
        rcases List.mem_append.mp ha with ha | ha
        · exact hfilter a ha
        · exact filterAll_isFilter filters i v a ha

end

end Filter

namespace MqHandler

variable {σ π : Type*}

theorem watchAll_acts (act : ℕ → ℕ → Act) (i : ℕ) (vs : List (Watcher σ π)) (w : σ)
    (ev : Event π) : (watchAll act i vs w ev).2.2 = vs.map fun v => act v.address i := by
  induction vs generalizing w ev with
  | nil => rfl
  | cons v vs ih => rw [watchAll, List.map_cons, ← ih]

/-- The first event is rejected by the filters, or accepted and shown to the visitors before
the other events follow. -/
theorem preExecute_cons (h : MqHandler σ π) (i : ℕ) (ev : Event π) (evs : List (Event π)) (w : σ) :
    (∃ v filtered, h.controller.filters.filter i w ev = (v, filtered) ∧
      preExecute h i (ev :: evs) w = (v.world, filtered, .rejected v.err)) ∨
    ∃ w' ev' w'' rest outcome, preExecute h (i + 1) evs w' = (w'', rest, outcome) ∧
      preExecute h i (ev :: evs) w = (w'',
        (h.controller.filters.addresses.map fun a => .filter a i true) ++
          ((h.controller.visitors h.name).map fun v => .visit v.address i) ++ rest,
        match outcome with
        | .rejected err => .rejected err
        | .passed evs => .passed (ev' :: evs)) := by
  have hfilter := h.controller.filters.filter_accepted i w ev
  rw [preExecute]
  cases hf : h.controller.filters.filter i w ev with
  | mk v filtered =>
    rw [hf] at hfilter
    dsimp only
    split_ifs with hrej
    · exact .inl ⟨v, filtered, rfl, rfl⟩
    · rw [← hfilter (eq_true_of_ne_false hrej)]
      have hvisit := watchAll_acts .visit i (h.controller.visitors h.name) v.world v.event
      cases hw : watchAll .visit i (h.controller.visitors h.name) v.world v.event with
      | mk w' watched =>
        obtain ⟨ev', visited⟩ := watched
        rw [hw] at hvisit
        obtain rfl : visited = _ := hvisit
        cases hp : preExecute h (i + 1) evs w' with
        | mk w'' after =>
          obtain ⟨rest, outcome⟩ := after
          refine .inr ⟨w', ev', w'', rest, outcome, hp, ?_⟩
          cases outcome <;> simp

/-- Before the call only filters and visitors run. -/
theorem preExecute_noHandler (h : MqHandler σ π) (i : ℕ) (evs : List (Event π)) (w : σ) :
    ∀ a ∈ (preExecute h i evs w).2.1, a.runsHandler = false := by
  induction evs generalizing i w with
  | nil => rw [preExecute]; simp
  | cons ev evs ih =>
    rcases preExecute_cons h i ev evs w with
      ⟨v, filtered, hf, hp⟩ | ⟨w', ev', w'', rest, outcome, hrest, hp⟩
    · have hfilter := h.controller.filters.filter_isFilter i w ev
      rw [hf] at hfilter
      rw [hp]
      intro a ha
      have := hfilter a ha
      cases a <;> simp_all [Act.isFilter, Act.runsHandler]
    · have hno := ih (i + 1) w'
      rw [hrest] at hno
      rw [hp]
      intro a ha
      simp only [List.mem_append, List.mem_map] at ha
      rcases ha with (⟨f, -, rfl⟩ | ⟨v, -, rfl⟩) | ha
      · rfl
      · rfl
      · exact hno a ha

/-- When the events pass, no filter rejected one, and every filter accepted each. -/
theorem preExecute_passed (h : MqHandler σ π) {i : ℕ} {evs evs' : List (Event π)} {w w' : σ}
    {acts : List Act} (hp : preExecute h i evs w = (w', acts, .passed evs')) :
    (∀ address event, .filter address event false ∉ acts) ∧
      ∀ address ∈ h.controller.filters.addresses, ∀ k < evs.length,
        .filter address (i + k) true ∈ acts := by
  induction evs generalizing i w w' acts evs' with
  | nil =>
    rw [preExecute] at hp
    cases hp
    simp
  | cons ev evs ih =>
    rcases preExecute_cons h i ev evs w with
      ⟨v, filtered, -, hr⟩ | ⟨u, ev', w'', rest, outcome, hrest, hr⟩
    · rw [hr] at hp
      cases hp
    · rw [hr] at hp
      cases outcome with
      | rejected err => cases hp
      | passed evs'' =>
        cases hp
        obtain ⟨hno, hall⟩ := ih hrest
        refine ⟨fun address event hmem => ?_, fun address hmem k hk => ?_⟩
        · simp only [List.mem_append, List.mem_map] at hmem
          rcases hmem with (⟨f, -, hf⟩ | ⟨v, -, hv⟩) | hmem
          · simp at hf
          · cases hv
          · exact hno address event hmem
        · cases k with
          | zero =>
            refine List.mem_append_left _ (List.mem_append_left _ ?_)
            exact List.mem_map.mpr ⟨address, hmem, rfl⟩
          | succ k =>
            have hlt : k < evs.length := Nat.lt_of_succ_lt_succ hk
            have hk' := hall address hmem k hlt
            rw [Nat.add_right_comm] at hk'
            exact List.mem_append_right _ hk'

theorem runDelegates_acts (i : ℕ) (ds : List (Delegate σ π)) (w : σ) (ev : Event π)
    (resp : Option MQPublishMessage) :
    ∀ a ∈ (runDelegates i ds w ev resp).2.1, a.runsHandler = true := by
  induction ds generalizing i w ev resp with
  | nil => rw [runDelegates]; simp
  | cons d ds ih =>
    rw [runDelegates]
    intro a ha
    rcases List.mem_append.mp ha with ha | ha
    · split_ifs at ha
      · simp only [List.mem_cons, List.not_mem_nil, or_false] at ha
        rcases ha with rfl | rfl <;> rfl
      · exact (List.mem_singleton.mp ha) ▸ rfl
    · exact ih _ _ _ _ a ha

theorem postExecute_acts (h : MqHandler σ π) (i : ℕ) (evs : List (Event π)) (w : σ) :
    ∀ a ∈ (postExecute h i evs w).2, a.isFilter = false := by
  induction evs generalizing i w with
  | nil => rw [postExecute]; simp
  | cons ev evs ih =>
    have hwatch := watchAll_acts .observe i (h.controller.observers h.name) w ev
    rw [postExecute]
    intro a ha
    rcases List.mem_append.mp ha with ha | ha
    · rw [hwatch] at ha
      obtain ⟨v, -, rfl⟩ := List.mem_map.mp ha
      rfl
    · exact ih _ _ a ha

variable (s : Serializers π)

/-- The method or a delegate runs first; no filter runs any more. -/
theorem doExecute_trace (h : MqHandler σ π) (msg : MQConsumerMessage) (inParams : List (InParam π))
    (evs : List (Event π)) (w : σ) :
    ∃ a rest, (doExecute s h msg inParams evs w).trace = a :: rest ∧ a.runsHandler = true ∧
      ∀ b ∈ rest, b.isFilter = false := by
  rw [doExecute]
  cases hd : h.controller.delegates h.name with
  | nil =>
    dsimp only
    cases (parseCallOutputs s h msg (h.caller w inParams).2).2 with
    | some e => exact ⟨.call, [], rfl, rfl, by simp⟩
    | none => exact ⟨.call, _, rfl, rfl, postExecute_acts h 0 evs _⟩
  | cons d ds =>
    dsimp only
    generalize evs.head?.getD (createEventFromConsumerMessage s h.group h.name msg) = ev
    have hacts := runDelegates_acts 1 ds (d.execute w ev).1
    rw [runDelegates]
    refine ⟨.delegate d.address, _, rfl, rfl, fun b hb => ?_⟩
    rcases List.mem_append.mp hb with hb | hb
    · have := hacts _ _ b hb
      cases b <;> simp_all [Act.runsHandler, Act.isFilter]
    · exact postExecute_acts h 0 _ _ b hb

/-- Either nothing was called, or the events passed and the first call came right after. -/
theorem execute_trace (h : MqHandler σ π) (msg : MQConsumerMessage) (w : σ) :
    (∀ a ∈ (execute s h msg w).trace, a.runsHandler = false) ∨
    ∃ inParams u pre evs a rest, formatInputs s msg h.inTypes none = (inParams, none) ∧
      preExecute h 0 (payloadEvents s h msg inParams) w = (u, pre, .passed evs) ∧
      a.runsHandler = true ∧ (∀ b ∈ rest, b.isFilter = false) ∧
      (execute s h msg w).trace = pre ++ a :: rest := by
  rw [execute]
  cases hin : formatInputs s msg h.inTypes none with
  | mk inParams err =>
    cases err with
    | some err => exact .inl (by simp)
    | none =>
      have hno := preExecute_noHandler h 0 (payloadEvents s h msg inParams) w
      dsimp only
      cases hp : preExecute h 0 (payloadEvents s h msg inParams) w with
      | mk u after =>
        obtain ⟨pre, outcome⟩ := after
        rw [hp] at hno
        cases outcome with
        | rejected err => exact .inl hno
        | passed evs =>
          obtain ⟨a, rest, htrace, ha, hrest⟩ := doExecute_trace s h msg inParams evs u
          exact .inr ⟨inParams, u, pre, evs, a, rest, rfl, hp, ha, hrest, congrArg (pre ++ ·) htrace⟩

/-! ## The gate -/

/-- The method or a delegate runs only after every filter of the controller accepted and
none rejected. -/
def FilterGate (h : MqHandler σ π) (trace : List Act) : Prop :=
  ∀ before a after, trace = before ++ a :: after → a.runsHandler = true →
    (∀ address ∈ h.controller.filters.addresses, ∃ event, .filter address event true ∈ before) ∧
      ∀ address event, .filter address event false ∉ before

def HasPayload (h : MqHandler σ π) : Prop := ∃ iw ∈ h.inTypes, iw.isMQParameter = false

theorem payloadEvents_ne_nil {h : MqHandler σ π} (hpay : h.HasPayload) {msg : MQConsumerMessage}
    {inParams : List (InParam π)} {err err' : Option String}
    (hin : formatInputs s msg h.inTypes err = (inParams, err')) :
    payloadEvents s h msg inParams ≠ [] := by
  obtain ⟨iw, hiw, hpayload⟩ := hpay
  obtain ⟨v, hv⟩ : ∃ v, .payload v ∈ inParams := by
    generalize h.inTypes = inTypes at hiw hin
    induction inTypes generalizing inParams err err' with
    | nil => simp at hiw
    | cons t ts ih =>
      rw [formatInputs] at hin
      rcases List.mem_cons.mp hiw with rfl | hiw
      · rw [if_neg (by simp [hpayload])] at hin
        cases hin
        exact ⟨_, List.mem_cons_self⟩
      · split_ifs at hin with hmq
        · cases hin
          obtain ⟨v, hv⟩ := ih hiw rfl
          exact ⟨v, List.mem_cons_of_mem _ hv⟩
        · cases hin
          exact ⟨_, List.mem_cons_self⟩
  intro hnil
  rw [payloadEvents, List.filterMap_eq_nil_iff] at hnil
  cases hnil _ hv

/-- Without payload arguments the inputs are fine and there is no event. -/
theorem formatInputs_of_no_payload {h : MqHandler σ π} (hpay : ¬ h.HasPayload)
    (msg : MQConsumerMessage) :
    ∃ inParams, formatInputs s msg h.inTypes none = (inParams, none) ∧
      payloadEvents s h msg inParams = [] := by
  have hall : ∀ iw ∈ h.inTypes, iw.isMQParameter = true := by
    intro iw hiw
    by_contra hne
    exact hpay ⟨iw, hiw, by simpa using hne⟩
  obtain ⟨inParams, hin, hmsg⟩ : ∃ inParams, formatInputs s msg h.inTypes none = (inParams, none) ∧
      ∀ p ∈ inParams, ∃ isPtr, p = .message isPtr msg := by
    generalize h.inTypes = inTypes at hall
    induction inTypes with
    | nil => exact ⟨[], rfl, by simp⟩
    | cons t ts ih =>
      obtain ⟨inParams, hin, hmsg⟩ := ih fun iw hiw => hall iw (List.mem_cons_of_mem t hiw)
      refine ⟨.message t.isPtr msg :: inParams, ?_, ?_⟩
      · rw [formatInputs, if_pos (hall t List.mem_cons_self), hin]
      · intro p hp
        rcases List.mem_cons.mp hp with rfl | hp
        · exact ⟨_, rfl⟩
        · exact hmsg p hp
  refine ⟨inParams, hin, ?_⟩
  rw [payloadEvents, List.filterMap_eq_nil_iff]
  intro p hp
  obtain ⟨isPtr, rfl⟩ := hmsg p hp
  rfl

/-- The gate holds exactly for the handlers that take a payload, or have no filter to pass. -/
theorem execute_filterGate_iff (h : MqHandler σ π) (msg : MQConsumerMessage) (w : σ) :
    FilterGate h (execute s h msg w).trace ↔
      h.HasPayload ∨ h.controller.filters.addresses = [] := by
  constructor
  · intro hgate
    by_contra hcond
    obtain ⟨hpay, hne⟩ := not_or.mp hcond
    obtain ⟨inParams, hin, hnil⟩ := formatInputs_of_no_payload s hpay msg
    obtain ⟨a, rest, htrace, ha, -⟩ := doExecute_trace s h msg inParams [] w
    have hexec : (execute s h msg w).trace = [] ++ a :: rest := by
      simp only [execute, hin, hnil, preExecute, htrace]
    obtain ⟨address, haddr⟩ := List.exists_mem_of_ne_nil _ hne
    obtain ⟨event, hmem⟩ := (hgate [] a rest hexec ha).1 address haddr
    simp at hmem
  · intro hcond before a after htrace ha
    rcases execute_trace s h msg w with hno | ⟨inParams, u, pre, evs, b, rest, hin, hp, hb, hrest, ht⟩
    · have := hno a (htrace ▸ List.mem_append_right _ List.mem_cons_self)
      rw [this] at ha
      simp at ha
    · -- `a` is not among the acts before the first call
      have hpre := preExecute_noHandler h 0 (payloadEvents s h msg inParams) w
      rw [hp] at hpre
      obtain ⟨hnone, hall⟩ := preExecute_passed h hp
      have hsub : ∀ x ∈ pre, x ∈ before := by
        rcases List.append_eq_append_iff.mp (ht.symm.trans htrace) with
          ⟨l, rfl, -⟩ | ⟨l, hl, htail⟩
        · exact fun x hx => List.mem_append_left l hx
        · cases l with
          | nil =>
            rw [List.append_nil] at hl
            exact fun x hx => hl ▸ hx
          | cons c l =>
            cases htail
            have := hpre a (hl ▸ by simp)
            rw [this] at ha
            simp at ha
      refine ⟨fun address hmem => ?_, fun address event hmem => ?_⟩
      · rcases hcond with hpay | hnil
        · have hlen := List.length_pos_iff.mpr (payloadEvents_ne_nil s hpay hin)
          exact ⟨0 + 0, hsub _ (hall address hmem 0 hlen)⟩
        · rw [hnil] at hmem
          simp at hmem
      · have htr : Act.filter address event false ∈ pre ++ b :: rest := by
          rw [← ht, htrace]
          exact List.mem_append_left _ hmem
        rcases List.mem_append.mp htr with hin' | hin'
        · exact hnone address event hin'
        · rcases List.mem_cons.mp hin' with rfl | hin'
          · simp [Act.runsHandler] at hb
          · cases hrest _ hin'

def plainSerializers : Serializers Unit where
  getSerializer _ := false
  parseFrom _ _ _ := ((), none)
  parseSerializable _ _ := ((), none)
  emptyValue _ := ()
  serialize _ _ := (none, none)
  serializable _ := none
  encode _ := []
  toLower name := name

/-- A handler of whole messages behind a filter that rejects everything. -/
def messageHandler : MqHandler Unit Unit where
  caller w _ := (w, [])
  inTypes := [{ isMQParameter := true }]
  controller := { filters := .chain (some [.single 0 fun w ev => ⟨w, ev, false, some "rejected"⟩]) }

/-- It is called all the same. -/
theorem messageHandler_not_filterGate :
    ¬ FilterGate messageHandler (execute plainSerializers messageHandler {} ()).trace := by
  intro hgate
  obtain ⟨event, hmem⟩ := (hgate [] .call [] rfl rfl).1 0 List.mem_cons_self
  cases hmem

end MqHandler
end Gocom
