import Gocom.HandlerExecution
import Gocom.WidgetStrategies

/-!
# External widgets

A controller keeps three chains of widgets. Systems outside the process register MQ widgets in
them by requests that carry a name. The name of the request is not passed on when a widget is
added: every MQ widget of one kind carries the same fixed name, under which a chain has room for
one. Removal does look up the name of the request.
-/

namespace Gocom

open PatternWidget (getName matchPattern)

/-! ## MQ widgets -/

structure MqVisitor extends AbstractStrategyWidget where
  topicCategory : String
  visitorTopic : String
  visitorRoutingKey : String

structure MqObserver extends AbstractStrategyWidget where
  topicCategory : String
  observerTopic : String
  observerRoutingKey : String
  payloadFrom : String

structure MqDelegate extends AbstractStrategyWidget where
  topicCategory : String
  delegateTopic : String
  delegateRoutingKey : String

/-- A widget of a chain: one of the application's own, or an MQ widget. -/
inductive Widget where
  | application (w : AbstractStrategyWidget)
  | mqVisitor (w : MqVisitor)
  | mqObserver (w : MqObserver)
  | mqDelegate (w : MqDelegate)

namespace Widget

def base : Widget → AbstractStrategyWidget
  | .application w => w
  | .mqVisitor w => w.toAbstractStrategyWidget
  | .mqObserver w => w.toAbstractStrategyWidget
  | .mqDelegate w => w.toAbstractStrategyWidget

instance : PatternWidget Widget where
  getName w := w.base.name
  matchPattern w := w.base.matchPattern

def External : Widget → Prop
  | .application _ => False
  | _ => True

end Widget

def newStdMQVisitor (topicCategory visitorTopic visitorRoutingKey matchPattern : String) : Widget :=
  .mqVisitor { name := "MQVisitor", matchPattern, topicCategory, visitorTopic, visitorRoutingKey }

def newStdMQObserver (payloadFrom topicCategory observerTopic observerRoutingKey
    matchPattern : String) : Widget :=
  .mqObserver
    { name := "MQObserver", matchPattern, topicCategory, observerTopic, observerRoutingKey,
      payloadFrom }

def newStdMQDelegate (topicCategory delegateTopic delegateRoutingKey matchPattern : String) :
    Widget :=
  .mqDelegate
    { name := "MQDelegate", matchPattern, topicCategory, delegateTopic, delegateRoutingKey }

/-! ## Chains and controllers -/

/-- The three chains of a controller. -/
inductive Kind where
  | visitor
  | observer
  | delegate
  deriving DecidableEq

/-- The name given to the MQ widgets of a kind. -/
def Kind.mqName : Kind → String
  | .visitor => "MQVisitor"
  | .observer => "MQObserver"
  | .delegate => "MQDelegate"

abbrev Chain := WidgetsStrategyWrapper Widget

namespace Chain

variable (compile : WidgetsStrategyWrapper.Compile)

/-- `AttachVisitor`, `AttachObserver`, `AttachDelegate`. -/
def attach (c : Chain) (widget : Widget) : Chain × Bool :=
  match c.get (getName widget) with
  | some _ => (c, false)
  | none => (c.add compile widget, true)

/-- `RemoveVisitor`, `RemoveObserver`, `RemoveDelegate`: the answer of the wrapper is dropped. -/
def removeWidget (c : Chain) (name : String) : Chain × Bool := ((c.remove compile name).1, true)

end Chain

/-- The chains of a controller, by kind. -/
abbrev ControllerChains := Kind → Chain

/-- The controllers by name, as far as they hold widgets. -/
abbrev Controllers := GoMap String ControllerChains

def Results.notFound : Int := 404

/-! ## The register controller -/

structure RegisterBase where
  group : String
  topic : String
  routingKey : String
  matchPattern : String

structure RegisterVisitor extends RegisterBase where
  name : String

structure RegisterObserver extends RegisterBase where
  name : String
  payloadFrom : String

structure RegisterDelegate extends RegisterBase where
  name : String

structure RegisterResult where
  group : String
  deriving DecidableEq

structure MqRegisterController where
  topicCategory : String

namespace MqRegisterController

variable (compile : WidgetsStrategyWrapper.Compile)

def getControllerForRegister (controllers : Controllers) (controllerName : String) :
    Except HandlerError ControllerChains :=
  match controllers controllerName with
  | none => .error ⟨Results.notFound, "Controller by " ++ controllerName ++ " not found"⟩
  | some controller => .ok controller

/-- A handler that changes the chain of one kind in the controller of the group. -/
def updateChain (controllers : Controllers) (group : String) (kind : Kind)
    (f : Chain → Chain × Bool) : Controllers × Except HandlerError RegisterResult :=
  match getControllerForRegister controllers group with
  | .error err => (controllers, .error err)
  | .ok controller =>
    (controllers.store group fun k => if k = kind then (f (controller k)).1 else controller k,
      .ok ⟨group⟩)

def handleAddVisitor (c : MqRegisterController) (controllers : Controllers)
    (param : RegisterVisitor) : Controllers × Except HandlerError RegisterResult :=
  updateChain controllers param.group .visitor fun chain => Chain.attach compile chain
    (newStdMQVisitor c.topicCategory param.topic param.routingKey param.matchPattern)

def handleAddObserver (c : MqRegisterController) (controllers : Controllers)
    (param : RegisterObserver) : Controllers × Except HandlerError RegisterResult :=
  updateChain controllers param.group .observer fun chain => Chain.attach compile chain
    (newStdMQObserver param.payloadFrom c.topicCategory param.topic param.routingKey
      param.matchPattern)

def handleAddDelegate (c : MqRegisterController) (controllers : Controllers)
    (param : RegisterDelegate) : Controllers × Except HandlerError RegisterResult :=
  updateChain controllers param.group .delegate fun chain => Chain.attach compile chain
    (newStdMQDelegate c.topicCategory param.topic param.routingKey param.matchPattern)

def handleRemoveVisitor (controllers : Controllers) (param : RegisterVisitor) :
    Controllers × Except HandlerError RegisterResult :=
  updateChain controllers param.group .visitor fun chain =>
    Chain.removeWidget compile chain param.name

def handleRemoveObserver (controllers : Controllers) (param : RegisterObserver) :
    Controllers × Except HandlerError RegisterResult :=
  updateChain controllers param.group .observer fun chain =>
    Chain.removeWidget compile chain param.name

def handleRemoveDelegate (controllers : Controllers) (param : RegisterDelegate) :
    Controllers × Except HandlerError RegisterResult :=
  updateChain controllers param.group .delegate fun chain =>
    Chain.removeWidget compile chain param.name

inductive Request where
  | addVisitor (param : RegisterVisitor)
  | addObserver (param : RegisterObserver)
  | addDelegate (param : RegisterDelegate)
  | removeVisitor (param : RegisterVisitor)
  | removeObserver (param : RegisterObserver)
  | removeDelegate (param : RegisterDelegate)

def serve (c : MqRegisterController) (controllers : Controllers) :
    Request → Controllers × Except HandlerError RegisterResult
  | .addVisitor param => c.handleAddVisitor compile controllers param
  | .addObserver param => c.handleAddObserver compile controllers param
  | .addDelegate param => c.handleAddDelegate compile controllers param
  | .removeVisitor param => handleRemoveVisitor compile controllers param
  | .removeObserver param => handleRemoveObserver compile controllers param
  | .removeDelegate param => handleRemoveDelegate compile controllers param

/-! ## What a request is about -/

namespace Request

def kind : Request → Kind
  | .addVisitor _ | .removeVisitor _ => .visitor
  | .addObserver _ | .removeObserver _ => .observer
  | .addDelegate _ | .removeDelegate _ => .delegate

def group : Request → String
  | .addVisitor param | .removeVisitor param => param.group
  | .addObserver param | .removeObserver param => param.group
  | .addDelegate param | .removeDelegate param => param.group

def name : Request → String
  | .addVisitor param | .removeVisitor param => param.name
  | .addObserver param | .removeObserver param => param.name
  | .addDelegate param | .removeDelegate param => param.name

/-- The widget a request asks to add; `none` for a removal. -/
def widget (c : MqRegisterController) : Request → Option Widget
  | .addVisitor param =>
    some (newStdMQVisitor c.topicCategory param.topic param.routingKey param.matchPattern)
  | .addObserver param =>
    some (newStdMQObserver param.payloadFrom c.topicCategory param.topic param.routingKey
      param.matchPattern)
  | .addDelegate param =>
    some (newStdMQDelegate c.topicCategory param.topic param.routingKey param.matchPattern)
  | _ => none

/-- What a request does to the chain it is about. -/
def onChain (c : MqRegisterController) (r : Request) (chain : Chain) : Chain × Bool :=
  match r.widget c with
  | some widget => Chain.attach compile chain widget
  | none => Chain.removeWidget compile chain r.name

end Request

theorem serve_eq (c : MqRegisterController) (controllers : Controllers) (r : Request) :
    c.serve compile controllers r =
      updateChain controllers r.group r.kind (r.onChain compile c) := by
  cases r <;> rfl

/-- The widgets a kind of request adds carry the fixed name of the kind. -/
theorem Request.widget_eq_some {c : MqRegisterController} {r : Request} {widget : Widget}
    (h : r.widget c = some widget) : widget.External ∧ getName widget = r.kind.mqName := by
  cases r <;> first | (obtain rfl := Option.some.inj h; exact ⟨trivial, rfl⟩) | cases h

end MqRegisterController

/-! ## One chain -/

namespace Chain

variable {compile : WidgetsStrategyWrapper.Compile} {kind : Kind} {chain : Chain}
  {requested : String → List Widget}

theorem get_attach (widget : Widget) (name : String) :
    (attach compile chain widget).1.get name =
      (chain.get name).or (if name = getName widget then some widget else none) := by
  rw [attach]
  cases h : chain.get (getName widget) with
  | some existing =>
    dsimp only
    split_ifs with hn
    · rw [hn, h, Option.some_or]
    · rw [Option.or_none]
  | none =>
    have hbyName : chain.widgetsByName (getName widget) = none := h
    dsimp only
    rw [WidgetsStrategyWrapper.add, hbyName]
    change (chain.widgetsByName.store (getName widget) widget) name = _
    rw [GoMap.store_apply]
    split_ifs with hn
    · rw [hn, h, Option.none_or]
    · exact (Option.or_none (o := chain.get name)).symm

theorem get_removeWidget (name k : String) :
    (removeWidget compile chain name).1.get k = if k = name then none else chain.get k := by
  rw [removeWidget, WidgetsStrategyWrapper.remove]
  cases h : chain.widgetsByName name with
  | none =>
    split_ifs with hk
    · rw [hk]
      exact h
    · rfl
  | some removed => exact GoMap.delete_apply chain.widgetsByName name k

/-- The external widgets of a chain are one for each name in use, and that one was requested
under the name. A name is in use when widgets were requested under it since its last removal;
`key` says where the chain keeps them. -/
def Agrees (chain : Chain) (requested : String → List Widget) : Prop :=
  ∃ key : String → String,
    (∀ name, requested name ≠ [] → ∃ widget ∈ requested name, chain.get (key name) = some widget) ∧
    (∀ name name', requested name ≠ [] → requested name' ≠ [] → key name = key name' →
      name = name') ∧
    ∀ k widget, chain.get k = some widget → widget.External →
      ∃ name, requested name ≠ [] ∧ key name = k

/-- What holds of every chain of a kind: external widgets stand under the fixed name. -/
structure Fixed (kind : Kind) (chain : Chain) (requested : String → List Widget) : Prop where
  chain : ∀ k widget, chain.get k = some widget → widget.External → k = kind.mqName
  requested : ∀ name, ∀ widget ∈ requested name, widget.External

/-- Without an external widget in the chain no name may be in use. -/
theorem Fixed.agrees_of_none (h : Fixed kind chain requested)
    (hnone : ∀ widget, chain.get kind.mqName = some widget → ¬ widget.External) :
    Agrees chain requested ↔ ∀ name, requested name = [] := by
  constructor
  · rintro ⟨key, hin, -, -⟩ name
    by_contra hne
    obtain ⟨widget, hmem, hget⟩ := hin name hne
    have hext := h.requested name widget hmem
    exact hnone widget (h.chain _ widget hget hext ▸ hget) hext
  · intro hnil
    refine ⟨id, fun name hne => absurd (hnil name) hne, fun name _ hne => absurd (hnil name) hne,
      fun k widget hget hext => ?_⟩
    exact absurd hext (hnone widget (h.chain k widget hget hext ▸ hget))

/-- With an external widget in the chain exactly one name may be in use, its own. -/
theorem Fixed.agrees_of_some (h : Fixed kind chain requested) {widget : Widget}
    (hget : chain.get kind.mqName = some widget) (hext : widget.External) :
    Agrees chain requested ↔
      ∃ name, widget ∈ requested name ∧ ∀ name', requested name' ≠ [] → name' = name := by
  constructor
  · rintro ⟨key, hin, hinj, hall⟩
    have hkey : ∀ name', requested name' ≠ [] → key name' = kind.mqName := by
      intro name' hne
      obtain ⟨x, hmem, hx⟩ := hin name' hne
      exact h.chain _ x hx (h.requested name' x hmem)
    obtain ⟨name, hne, hk⟩ := hall _ widget hget hext
    obtain ⟨x, hmem, hx⟩ := hin name hne
    obtain rfl := Option.some.inj (hx.symm.trans (hk ▸ hget))
    exact ⟨name, hmem, fun name' hne' => hinj _ _ hne' hne ((hkey name' hne').trans hk.symm)⟩
  · rintro ⟨name, hmem, huniq⟩
    have hne : requested name ≠ [] := List.ne_nil_of_mem hmem
    refine ⟨fun _ => kind.mqName, fun name' hne' => ?_, fun n n' hn hn' _ => ?_,
      fun k x hx hxe => ?_⟩
    · obtain rfl := huniq name' hne'
      exact ⟨widget, hmem, hget⟩
    · exact (huniq n hn).trans (huniq n' hn').symm
    · exact ⟨name, hne, (h.chain k x hx hxe).symm⟩

theorem Fixed.attach (h : Fixed kind chain requested) {widget : Widget} (hext : widget.External)
    (hname : getName widget = kind.mqName) (name : String) :
    Fixed kind (Chain.attach compile chain widget).1
      (Function.update requested name (requested name ++ [widget])) where
  chain k x hx hxe := by
    rw [get_attach] at hx
    rcases Option.or_eq_some_iff.mp hx with hx | ⟨-, hx⟩
    · exact h.chain k x hx hxe
    · split_ifs at hx with hk
      exact hk.trans hname
  requested n x hx := by
    rw [Function.update_apply] at hx
    split_ifs at hx with hn
    · rcases List.mem_append.mp hx with hx | hx
      · exact h.requested name x hx
      · exact List.mem_singleton.mp hx ▸ hext
    · exact h.requested n x hx

/-- Adding a widget under a name works out when the fixed name is free or held by an MQ widget,
and no other name is in use. -/
theorem Fixed.agrees_attach (h : Fixed kind chain requested) (ha : Agrees chain requested)
    {widget : Widget} (hext : widget.External) (hname : getName widget = kind.mqName)
    (name : String) :
    Agrees (Chain.attach compile chain widget).1
        (Function.update requested name (requested name ++ [widget])) ↔
      (∀ x, chain.get kind.mqName = some x → x.External) ∧
        ∀ name', requested name' ≠ [] → name' = name := by
  have hfix : Fixed kind (Chain.attach compile chain widget).1
      (Function.update requested name (requested name ++ [widget])) := h.attach hext hname name
  have hget : (Chain.attach compile chain widget).1.get kind.mqName =
      (chain.get kind.mqName).or (some widget) := by
    rw [get_attach, if_pos hname.symm]
  have hne : ∀ name', requested name' ≠ [] →
      Function.update requested name (requested name ++ [widget]) name' ≠ [] := by
    intro name' hne'
    rw [Function.update_apply]
    split_ifs
    · simp
    · exact hne'
  cases hc : chain.get kind.mqName with
  | none =>
    rw [hc, Option.none_or] at hget
    have hnil := (h.agrees_of_none (by simp [hc])).mp ha
    refine iff_of_true ((hfix.agrees_of_some hget hext).mpr ⟨name, ?_, fun name' hne' => ?_⟩)
      ⟨by simp, fun name' hne' => absurd (hnil name') hne'⟩
    · simp
    · by_contra hn
      exact hne' (by rw [Function.update_of_ne hn, hnil])
  | some x =>
    rw [hc, Option.some_or] at hget
    by_cases hx : x.External
    · obtain ⟨m, hmem, huniq⟩ := (h.agrees_of_some hc hx).mp ha
      have hm : requested m ≠ [] := List.ne_nil_of_mem hmem
      rw [hfix.agrees_of_some hget hx]
      constructor
      · rintro ⟨n, -, hall⟩
        have hname' : name = n := hall name (by simp)
        refine ⟨fun y hy => Option.some.inj hy ▸ hx, fun name' hne' => ?_⟩
        exact (hall name' (hne name' hne')).trans hname'.symm
      · rintro ⟨-, hall⟩
        obtain rfl := hall m hm
        refine ⟨m, by simp [hmem], fun name' hne' => ?_⟩
        by_contra hn
        rw [Function.update_of_ne hn] at hne'
        exact hn (hall name' hne')
    · refine iff_of_false (fun hag => ?_) fun hall => hx (hall.1 x rfl)
      have hnone := (hfix.agrees_of_none fun y hy => by
        rw [hget] at hy
        exact Option.some.inj hy ▸ hx).mp hag name
      simp at hnone

theorem Fixed.removeWidget (h : Fixed kind chain requested) (name : String) :
    Fixed kind (Chain.removeWidget compile chain name).1 (Function.update requested name []) where
  chain k x hx hxe := by
    rw [get_removeWidget] at hx
    split_ifs at hx
    exact h.chain k x hx hxe
  requested n x hx := by
    rw [Function.update_apply] at hx
    split_ifs at hx
    · simp at hx
    · exact h.requested n x hx

/-- When no widgets are left after those of a name are gone. -/
theorem forall_update_nil {requested : String → List Widget} {name : String} :
    (∀ name', Function.update requested name [] name' = []) ↔
      ∀ name', requested name' ≠ [] → name' = name := by
  constructor
  · intro hnil name' hne'
    by_contra hne
    have hkept := hnil name'
    rw [Function.update_of_ne hne] at hkept
    exact hne' hkept
  · intro hall name'
    by_cases hne : name' = name
    · rw [hne, Function.update_self]
    · rw [Function.update_of_ne hne]
      by_contra hne'
      exact hne (hall name' hne')

/-- Removing by a name works out when a name in use is the fixed name, and the fixed name is
removed only when no other name is in use. -/
theorem Fixed.agrees_removeWidget (h : Fixed kind chain requested) (ha : Agrees chain requested)
    (name : String) :
    Agrees (Chain.removeWidget compile chain name).1 (Function.update requested name []) ↔
      (requested name ≠ [] → name = kind.mqName) ∧
        (name = kind.mqName → ∀ name', requested name' ≠ [] → name' = name) := by
  have hfix : Fixed kind (Chain.removeWidget compile chain name).1
      (Function.update requested name []) := h.removeWidget name
  by_cases hn : name = kind.mqName
  · subst hn
    have hgone : (Chain.removeWidget compile chain kind.mqName).1.get kind.mqName = none := by
      rw [get_removeWidget, if_pos rfl]
    rw [hfix.agrees_of_none (by simp [hgone]), forall_update_nil]
    exact ⟨fun hall => ⟨fun _ => rfl, fun _ => hall⟩, fun hboth => hboth.2 rfl⟩
  · have hkept : (Chain.removeWidget compile chain name).1.get kind.mqName =
        chain.get kind.mqName := by
      rw [get_removeWidget, if_neg (Ne.symm hn)]
    by_cases hnil : requested name = []
    · have hsame : Function.update requested name [] = requested := by
        rw [← hnil, Function.update_eq_self]
      refine iff_of_true ?_ ⟨fun hne => absurd hnil hne, fun heq => absurd heq hn⟩
      rw [hsame] at hfix ⊢
      by_cases hex : ∃ x, chain.get kind.mqName = some x ∧ x.External
      · obtain ⟨x, hx, hxe⟩ := hex
        exact (hfix.agrees_of_some (hkept.trans hx) hxe).mpr ((h.agrees_of_some hx hxe).mp ha)
      · have hno : ∀ x, chain.get kind.mqName = some x → ¬ x.External :=
          fun x hx hxe => hex ⟨x, hx, hxe⟩
        exact (hfix.agrees_of_none fun x hx => hno x (hkept ▸ hx)).mpr
          ((h.agrees_of_none hno).mp ha)
    · refine iff_of_false (fun hag => ?_) fun hall => hn (hall.1 hnil)
      obtain ⟨x, hx, hxe⟩ : ∃ x, chain.get kind.mqName = some x ∧ x.External := by
        by_contra hno
        exact hnil ((h.agrees_of_none fun x hx hxe => hno ⟨x, hx, hxe⟩).mp ha name)
      obtain ⟨m, hmem, huniq⟩ := (h.agrees_of_some hx hxe).mp ha
      obtain ⟨m', hmem', -⟩ := (hfix.agrees_of_some (hkept.trans hx) hxe).mp hag
      -- the name removed is the only one in use, and none is left for the widget
      rw [Function.update_apply] at hmem'
      split_ifs at hmem' with hm'
      · simp at hmem'
      · exact hm' ((huniq m' (List.ne_nil_of_mem hmem')).trans (huniq name hnil).symm)

end Chain

/-! ## Sequences of requests -/

namespace MqRegisterController

variable (compile : WidgetsStrategyWrapper.Compile)

/-- The controllers, and for each kind, group and name the widgets whose addition was requested
under the name since its last removal. -/
structure Registration where
  controllers : Controllers
  requested : Kind → String → String → List Widget := fun _ _ _ => []

def note (c : MqRegisterController) (requested : Kind → String → String → List Widget)
    (r : Request) : Kind → String → String → List Widget := fun kind group =>
  if kind = r.kind ∧ group = r.group then
    Function.update (requested kind group) r.name
      (match r.widget c with
      | some widget => requested kind group r.name ++ [widget]
      | none => [])
  else requested kind group

def step (c : MqRegisterController) (s : Registration) (r : Request) : Registration :=
  ⟨(c.serve compile s.controllers r).1, c.note s.requested r⟩

/-- In every chain the external widgets active are those added and not since removed. -/
def Faithful (s : Registration) : Prop :=
  ∀ group chains kind, s.controllers group = some chains →
    Chain.Agrees (chains kind) (s.requested kind group)

/-- An addition meets a chain whose fixed name the application does not use itself, and where no
other name is in use. A removal of a name in use is by the fixed name, and the fixed name is
removed only while no other name is in use. Requests for unknown groups are free. -/
def Allowed (c : MqRegisterController) (s : Registration) (r : Request) : Prop :=
  ∀ chains, s.controllers r.group = some chains →
    match r.widget c with
    | some _ =>
      (∀ x, (chains r.kind).get r.kind.mqName = some x → x.External) ∧
        ∀ name, s.requested r.kind r.group name ≠ [] → name = r.name
    | none =>
      (s.requested r.kind r.group r.name ≠ [] → r.name = r.kind.mqName) ∧
        (r.name = r.kind.mqName →
          ∀ name, s.requested r.kind r.group name ≠ [] → name = r.name)

/-- External widgets stand under the fixed names only, whatever is requested. -/
def Named (s : Registration) : Prop :=
  ∀ group chains kind, s.controllers group = some chains →
    Chain.Fixed kind (chains kind) (s.requested kind group)

variable {compile} {c : MqRegisterController} {s : Registration} {r : Request}

/-- What a request does to one chain of one controller. -/
theorem step_chain {group : String} {chains' : ControllerChains} (kind : Kind)
    (h : (step compile c s r).controllers group = some chains') :
    ∃ chains, s.controllers group = some chains ∧
      chains' kind = if kind = r.kind ∧ group = r.group then (r.onChain compile c (chains kind)).1
        else chains kind := by
  rw [step, serve_eq, updateChain, getControllerForRegister] at h
  cases hg : s.controllers r.group with
  | none =>
    rw [hg] at h
    have hne : ¬ (kind = r.kind ∧ group = r.group) := fun hk => by
      rw [hk.2] at h
      exact absurd (hg.symm.trans h) (by simp)
    exact ⟨chains', h, (if_neg hne).symm⟩
  | some chains =>
    rw [hg] at h
    rcases GoMap.of_store_eq_some h with ⟨rfl, rfl⟩ | ⟨hne, h⟩
    · refine ⟨chains, hg, ?_⟩
      by_cases hk : kind = r.kind <;> simp [hk]
    · exact ⟨chains', h, (if_neg fun hk => hne hk.2).symm⟩

/-- What a request does to the chain it is about. -/
theorem step_chain_self {chains : ControllerChains} (h : s.controllers r.group = some chains) :
    ∃ chains', (step compile c s r).controllers r.group = some chains' ∧
      chains' r.kind = (r.onChain compile c (chains r.kind)).1 := by
  rw [step, serve_eq, updateChain, getControllerForRegister, h]
  exact ⟨_, GoMap.store_self _ _ _, if_pos rfl⟩

theorem note_apply (requested : Kind → String → String → List Widget) {kind : Kind} {group : String}
    (h : ¬ (kind = r.kind ∧ group = r.group)) :
    c.note requested r kind group = requested kind group := if_neg h

theorem onChain_fixed {chain : Chain} {requested : Kind → String → String → List Widget}
    (h : Chain.Fixed r.kind chain (requested r.kind r.group)) :
    Chain.Fixed r.kind (r.onChain compile c chain).1 (c.note requested r r.kind r.group) := by
  rw [Request.onChain, note, if_pos ⟨rfl, rfl⟩]
  cases hw : r.widget c with
  | some widget =>
    obtain ⟨hext, hname⟩ := Request.widget_eq_some hw
    exact h.attach hext hname r.name
  | none => exact h.removeWidget r.name

theorem Named.step (h : Named s) : Named (step compile c s r) := by
  intro group chains' kind hc
  obtain ⟨chains, hg, hk⟩ := step_chain kind hc
  have hfix := h group chains kind hg
  split_ifs at hk with hself
  · obtain ⟨rfl, rfl⟩ := hself
    rw [hk]
    exact onChain_fixed hfix
  · have hkept : (MqRegisterController.step compile c s r).requested kind group =
        s.requested kind group := note_apply s.requested hself
    rw [hk, hkept]
    exact hfix

theorem onChain_agrees_iff {chains : ControllerChains} (h : Named s) (hf : Faithful s)
    (hg : s.controllers r.group = some chains) :
    Chain.Agrees (r.onChain compile c (chains r.kind)).1 (c.note s.requested r r.kind r.group) ↔
      Allowed c s r := by
  have hfix := h r.group chains r.kind hg
  have hag := hf r.group chains r.kind hg
  have hallowed : Allowed c s r ↔ _ :=
    ⟨fun hall => hall chains hg, fun hall chains' hg' => by
      obtain rfl := Option.some.inj (hg.symm.trans hg')
      exact hall⟩
  rw [hallowed, Request.onChain, note, if_pos ⟨rfl, rfl⟩]
  cases hw : r.widget c with
  | some widget =>
    obtain ⟨hext, hname⟩ := Request.widget_eq_some hw
    exact hfix.agrees_attach hag hext hname r.name
  | none => exact hfix.agrees_removeWidget hag r.name

/-- One request keeps the chains faithful exactly when it is allowed. -/
theorem faithful_step_iff (h : Named s) (hf : Faithful s) :
    Allowed c s r ↔ Faithful (step compile c s r) := by
  constructor
  · intro hall group chains' kind hc
    obtain ⟨chains, hg, hk⟩ := step_chain kind hc
    split_ifs at hk with hself
    · obtain ⟨rfl, rfl⟩ := hself
      rw [hk]
      exact (onChain_agrees_iff h hf hg).mpr hall
    · have hkept : (step compile c s r).requested kind group = s.requested kind group :=
        note_apply s.requested hself
      rw [hk, hkept]
      exact hf group chains kind hg
  · intro hf' chains hg
    obtain ⟨chains', hg', hk⟩ : ∃ chains', (step compile c s r).controllers r.group = some chains' ∧
        chains' r.kind = (r.onChain compile c (chains r.kind)).1 := step_chain_self hg
    have hag := hf' r.group chains' r.kind hg'
    rw [hk] at hag
    exact (onChain_agrees_iff h hf hg).mp hag chains hg

/-- From controllers that hold widgets of the application only, the external widgets active are
those added and not since removed after each of a sequence of requests, exactly when every
request of the sequence is allowed where it comes. -/
theorem run_faithful_iff {controllers : Controllers}
    (hown : ∀ group chains kind k x, controllers group = some chains →
      (chains kind).get k = some x → ¬ x.External) (requests : List Request) :
    (∀ past rest, requests = past ++ rest →
        Faithful (past.foldl (step compile c) { controllers := controllers })) ↔
      Runs.Throughout (Runs.total (step compile c)) (Allowed c) { controllers := controllers }
        requests := by
  have hnamed : Named { controllers := controllers } := fun group chains kind hg =>
    ⟨fun k x hx hxe => absurd hxe (hown group chains kind k x hg hx), by simp⟩
  have hfaithful : Faithful { controllers := controllers } := fun group chains kind hg =>
    ((hnamed group chains kind hg).agrees_of_none
      fun x hx => hown group chains kind _ x hg hx).mpr fun _ => rfl
  have hstep : ∀ s r t, Named s → Runs.total (step compile c) s r = some t → Named t :=
    fun s r t h ht => Option.some.inj ht ▸ h.step
  have hallowed : ∀ s r t, Named s → Faithful s → Runs.total (step compile c) s r = some t →
      (Allowed c s r ↔ Faithful t) :=
    fun s r t h hf ht => Option.some.inj ht ▸ faithful_step_iff h hf
  rw [Runs.throughout_iff_always hstep hallowed hnamed hfaithful (Runs.run_total _ _ requests)]
  constructor
  · intro h past rest t hreq ht
    rw [Runs.run_total] at ht
    exact Option.some.inj ht ▸ h past rest hreq
  · intro h past rest hreq
    exact h past rest _ hreq (Runs.run_total _ _ _)

/-- A controller `orders`, in whose chains the application has a widget. -/
def orders : Controllers :=
  GoMap.empty.store "orders" fun _ =>
    (Chain.attach WidgetsStrategyWrapper.literal {} (.application ⟨"audit", "*"⟩)).1

def visitorParam (name : String) : RegisterVisitor :=
  { group := "orders", topic := "t", routingKey := "k", matchPattern := "*", name }

theorem orders_application : ∀ group chains kind k x, orders group = some chains →
    (chains kind).get k = some x → ¬ x.External := by
  intro group chains kind k x hg hx
  rcases GoMap.of_store_eq_some hg with ⟨-, rfl⟩ | ⟨-, hg⟩
  · rcases GoMap.of_store_eq_some hx with ⟨-, rfl⟩ | ⟨-, hx⟩
    · exact id
    · cases hx
  · cases hg

/-- A visitor is added under the fixed name and removed, and another is added then. -/
def visitorInTurn : List Request :=
  [.addVisitor (visitorParam "MQVisitor"), .removeVisitor (visitorParam "MQVisitor"),
    .addVisitor (visitorParam "b")]

theorem run_faithful_iff_orders :
    Faithful ((visitorInTurn.take 1).foldl (step WidgetsStrategyWrapper.literal ⟨"mq"⟩) { controllers := orders }) ∧
    Faithful ((visitorInTurn.take 2).foldl (step WidgetsStrategyWrapper.literal ⟨"mq"⟩) { controllers := orders }) ∧
    Faithful (visitorInTurn.foldl (step WidgetsStrategyWrapper.literal ⟨"mq"⟩) { controllers := orders }) := by
  have hruns : ∀ past rest, visitorInTurn = past ++ rest →
      Faithful (past.foldl (step WidgetsStrategyWrapper.literal ⟨"mq"⟩) { controllers := orders }) := by
    refine (run_faithful_iff orders_application visitorInTurn).mpr
      (.cons ?_ rfl (.cons ?_ rfl (.cons ?_ rfl trivial)))
    · intro chains hg
      obtain rfl := Option.some.inj hg
      refine ⟨fun x hx => ?_, fun name hne => absurd rfl hne⟩
      have hnone : (none : Option Widget) = some x := hx
      cases hnone
    · intro chains _
      refine ⟨fun _ => rfl, fun _ name hne => ?_⟩
      by_contra hname
      exact hne (Function.update_of_ne hname _ _)
    · intro chains hg
      obtain rfl := Option.some.inj hg
      refine ⟨fun x hx => ?_, fun name hne => ?_⟩
      · have hnone : (none : Option Widget) = some x := hx
        cases hnone
      · by_cases hname : name = "MQVisitor"
        · subst hname
          exact absurd rfl hne
        · exact absurd ((Function.update_of_ne hname _ _).trans (Function.update_of_ne hname _ _)) hne
  exact ⟨hruns _ (visitorInTurn.drop 1) rfl, hruns _ (visitorInTurn.drop 2) rfl, hruns visitorInTurn [] rfl⟩

/-- Of two visitors added under different names only the first is active. -/
theorem twoVisitors_not_faithful :
    ¬ Faithful ([Request.addVisitor (visitorParam "a"), .addVisitor (visitorParam "b")].foldl
      (step WidgetsStrategyWrapper.literal ⟨"mq"⟩) { controllers := orders }) := by
  intro h
  obtain ⟨key, hin, hinj, -⟩ := h "orders" _ .visitor rfl
  have hkey : ∀ name, name = "a" ∨ name = "b" → key name = "MQVisitor" := by
    intro name hname
    obtain ⟨widget, hmem, hget⟩ := hin name (by rcases hname with rfl | rfl <;> decide)
    rcases GoMap.of_store_eq_some hget with ⟨hk, -⟩ | ⟨-, hget⟩
    · exact hk
    · rcases GoMap.of_store_eq_some hget with ⟨-, rfl⟩ | ⟨-, hget⟩
      · rcases hname with rfl | rfl <;> cases List.mem_singleton.mp hmem
      · cases hget
  have hab : "a" = "b" := hinj "a" "b" (by decide) (by decide)
    ((hkey "a" (.inl rfl)).trans (hkey "b" (.inr rfl)).symm)
  exact absurd hab (by decide)

end MqRegisterController
end Gocom
