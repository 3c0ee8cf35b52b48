import Gocom.GraphqlDelete
import Gocom.NumberTexts

/-!
# Condition beans

The arguments of a query are named after the fields that a schema exposes. They are set by the Go
names of these fields, which reflection may resolve otherwise, and with the types of the arguments,
which the fields may not have.
-/

namespace Gocom

namespace Fields

/-! ## Values without pointers -/

/-- No pointer is set. -/
def Unlinked : Fields → Prop
  | nil => True
  | scalar _ _ rest => rest.Unlinked
  | struct _ inner rest => inner.Unlinked ∧ rest.Unlinked
  | pointer _ isNil _ rest => isNil = true ∧ rest.Unlinked

theorem unlinked_zero (fields : Fields) : fields.zero.Unlinked := by
  induction fields with
  | nil => exact trivial
  | scalar d v rest ih => exact ih
  | struct d inner rest ihInner ih => exact ⟨ihInner, ih⟩
  | pointer d isNil inner rest _ ih => exact ⟨rfl, ih⟩

end Fields

/-- The same for one field. -/
def Reflected.Unlinked : Reflected → Prop
  | scalar _ => True
  | struct fields => fields.Unlinked
  | pointer isNil _ => isNil = true

namespace Fields

theorem unlinked_cons {d : FieldDecl} {x : Reflected} {rest : Fields} :
    (cons d x rest).Unlinked ↔ x.Unlinked ∧ rest.Unlinked := by
  cases x with
  | scalar v => exact (and_iff_right trivial).symm
  | struct inner => exact Iff.rfl
  | pointer isNil inner => exact Iff.rfl

theorem Unlinked.field {fields : Fields} (h : fields.Unlinked) {n : Bytes} {d : FieldDecl} {x : Reflected}
    (hfield : fields.field n = some (d, x)) : x.Unlinked := by
  induction fields using rowInduction with
  | nil => cases hfield
  | cons e y rest ih =>
    obtain ⟨hy, hrest⟩ := unlinked_cons.mp h
    rw [field_cons] at hfield
    split_ifs at hfield
    · obtain ⟨-, rfl⟩ := Prod.mk.inj (Option.some.inj hfield)
      exact hy
    · exact ih hrest hfield

theorem Unlinked.setField {fields : Fields} (h : fields.Unlinked) (n : Bytes) {x : Reflected}
    (hx : x.Unlinked) : (fields.setField n x).Unlinked := by
  induction fields using rowInduction with
  | nil => exact trivial
  | cons e y rest ih =>
    obtain ⟨hy, hrest⟩ := unlinked_cons.mp h
    rw [setField_cons]
    split_ifs
    · exact unlinked_cons.mpr ⟨hx, hrest⟩
    · exact unlinked_cons.mpr ⟨hy, ih hrest⟩

theorem Unlinked.setAt {path : List Bytes} {fields : Fields} (h : fields.Unlinked) (c : Value) :
    (fields.setAt path (.scalar c)).Unlinked := by
  induction path generalizing fields with
  | nil => exact h
  | cons n path ih =>
    rw [Fields.setAt]
    split_ifs
    · exact h.setField n (x := .scalar c) trivial
    · cases hfield : fields.field n with
      | none => exact h
      | some p =>
        obtain ⟨d, x⟩ := p
        have hx := h.field hfield
        cases x with
        | scalar v => exact h
        | struct inner => exact h.setField n (x := .struct _) (ih hx)
        | pointer isNil inner =>
          obtain rfl : isNil = true := hx
          exact h

end Fields

/-! ## Exposed fields -/

def expose (outer : List Bytes) (d : FieldDecl) (type : Option GraphScalar) :
    List (Bytes × (List Bytes × GraphScalar)) :=
  (type.map fun t => (graphName d, (outer ++ [d.name], t))).toList

/-- The fields that `enumerateGraphQLFields` exposes, by their names in the schema, with the paths to
them. -/
def exposures (outer : List Bytes) : Fields → List (Bytes × (List Bytes × GraphScalar))
  | .nil => []
  | .scalar d v rest =>
    (if isHidden d then [] else expose outer d (graphType d v)) ++ exposures outer rest
  | .struct d inner rest =>
    (if isHidden d then []
      else if hasPkTag d then expose outer d (some .id)
      else if d.tag "xorm" = asciiBytes "extends" then exposures (outer ++ [d.name]) inner
      else []) ++ exposures outer rest
  | .pointer d _ _ rest =>
    (if isHidden d then [] else expose outer d (if hasPkTag d then some .id else none)) ++
      exposures outer rest

/-- Of several fields with one name the last counts. -/
def exposed (bean : Fields) : GoMap Bytes (List Bytes × GraphScalar) :=
  GoMap.empty.storePairs (exposures [] bean)

/-- What the schema keeps of a field. -/
def fieldInfos (m : GoMap Bytes (List Bytes × GraphScalar)) : GoMap Bytes GraphFieldInfo := fun k =>
  (m k).map fun e => ⟨e.1.getLastD [], e.2⟩

theorem mapField_fieldInfos (outer : List Bytes) (d : FieldDecl) (type : Option GraphScalar)
    (m : GoMap Bytes (List Bytes × GraphScalar)) :
    mapField d type (fieldInfos m) = fieldInfos (m.storePairs (expose outer d type)) := by
  cases type with
  | none => rfl
  | some t =>
    funext k
    have hlast : (outer ++ [d.name]).getLastD [] = d.name := by simp
    simp only [mapField, expose, Option.map_some, Option.toList_some, GoMap.storePairs, List.foldl_cons,
      List.foldl_nil, fieldInfos, GoMap.store_apply]
    split_ifs
    · rw [Option.map_some, hlast]
    · rfl

theorem enumerateGraphQLFields_fieldInfos (fields : Fields) (outer : List Bytes)
    (m : GoMap Bytes (List Bytes × GraphScalar)) :
    enumerateGraphQLFields fields (fieldInfos m) = fieldInfos (m.storePairs (exposures outer fields)) := by
  induction fields generalizing outer m with
  | nil => rfl
  | scalar d v rest ih =>
    rw [enumerateGraphQLFields, exposures, GoMap.storePairs_append, ← ih outer]
    split_ifs
    · rfl
    · rw [mapField_fieldInfos outer]
  | struct d inner rest ihInner ih =>
    rw [enumerateGraphQLFields, exposures, GoMap.storePairs_append, ← ih outer]
    split_ifs
    · rfl
    · rw [mapField_fieldInfos outer]
    · rw [ihInner (outer ++ [d.name])]
    · rfl
  | pointer d isNil inner rest _ ih =>
    rw [enumerateGraphQLFields, exposures, GoMap.storePairs_append, ← ih outer]
    split_ifs
    · rfl
    · rw [mapField_fieldInfos outer]
    · rw [mapField_fieldInfos outer]

/-- The schema knows of an exposed field its name and its type. -/
theorem fieldsMapping_eq (bean : Fields) :
    (getGraphQLSchemaInfo bean).fieldsMapping = fieldInfos (exposed bean) :=
  enumerateGraphQLFields_fieldInfos bean [] .empty

/-! ## Arguments -/

/-- The Go values that the type of an argument delivers. -/
def GraphScalar.Delivers : GraphScalar → Value → Prop
  | .id, .string _ | .string, .string _ | .float, .float .float64 _ | .int, .int .int _
  | .dateTime, .time _ | .boolean, .bool _ => True
  | _, _ => False

/-- The value of a field is the argument. -/
def Holds : Value → Value → Prop
  | .int .int n, .int _ m => m = n
  | .int .int n, .string s => s = decimal n
  | .float _ x, .float _ y => y = x
  | .string s, v => Spells s v
  | .time t, .time u => u = t
  | .bool b, .bool c => c = b
  | _, _ => False

/-- A field takes an argument of its own type as it is; a text takes a number in writing, and a field
of kind `int` takes the number of a text. -/
inductive Takes (d : FieldDecl) : Value → Value → Value → Prop
  | number (s : Bytes) (n : ℤ) : Takes d (.string s) (.int .int n) (.string (asciiBytes (toString n)))
  | text (m : ℤ) (s : Bytes) : Takes d (.int .int m) (.string s) (.int .int (parseInt s).1)
  | same (x arg : Value) : d.typeName = argTypeName arg → arg.zero = x.zero → Takes d x arg arg

theorem Takes.zero_eq {d : FieldDecl} {x arg c : Value} (h : Takes d x arg c) : c.zero = x.zero := by
  cases h with
  | number s n => rfl
  | text m s => rfl
  | same _ _ _ hzero => exact hzero

/-- What is taken depends on the type of the field only. -/
theorem Takes.of_zero_eq {d : FieldDecl} {x y arg c : Value} (h : Takes d x arg c)
    (hzero : x.zero = y.zero) : Takes d y arg c := by
  cases h with
  | number s n =>
    cases y <;> simp only [Value.zero, reduceCtorEq] at hzero
    exact .number _ n
  | text m s =>
    cases y <;> simp only [Value.zero, Value.int.injEq, reduceCtorEq, and_true] at hzero
    subst hzero
    exact .text _ s
  | same _ _ hname harg => exact .same y arg hname (harg.trans hzero)

theorem convertArg_eq_some_iff {d : FieldDecl} {x arg c : Value} :
    convertArg d x arg = some c ↔ Takes d x arg c := by
  fun_cases convertArg d x arg with
  | case1 n s =>
    constructor
    · rintro ⟨⟩
      exact .number s n
    · rintro (_ | _ | ⟨_, _, _, hzero⟩)
      · rfl
      · cases hzero
  | case2 s m =>
    constructor
    · rintro ⟨⟩
      exact .text m s
    · rintro (_ | _ | ⟨_, _, _, hzero⟩)
      · rfl
      · cases hzero
  | case3 _ _ hnumber htext hsame =>
    constructor
    · rintro ⟨⟩
      exact .same x arg hsame.1 hsame.2
    · rintro (⟨s, n⟩ | ⟨m, s⟩ | -)
      · exact (hnumber n s rfl rfl).elim
      · exact (htext s m rfl rfl).elim
      · rfl
  | case4 _ _ hnumber htext hsame =>
    refine iff_of_false (Option.some_ne_none c).symm ?_
    rintro (⟨s, n⟩ | ⟨m, s⟩ | ⟨_, _, hname, hzero⟩)
    · exact hnumber n s rfl rfl
    · exact htext s m rfl rfl
    · exact hsame ⟨hname, hzero⟩

/-- No argument is delivered that a pointer to a text or a number takes. -/
theorem Takes.ne_nil {d : FieldDecl} {x arg c : Value} (h : Takes d x arg c) {t : GraphScalar}
    (harg : t.Delivers arg) : x.zero ≠ .nil := by
  cases h with
  | number s n => exact Value.noConfusion
  | text m s => exact Value.noConfusion
  | same _ _ _ hzero =>
    rw [← hzero]
    cases arg <;> first | exact Value.noConfusion | exact (by cases t <;> exact harg.elim)

theorem setArg_scalar {bean : Fields} {n : Bytes} {r : List Bytes} {d : FieldDecl} {v : Value}
    (hname : bean.fieldByName n = some r) (hat : bean.fieldAt r = some (d, .scalar v)) (hv : v.zero ≠ .nil)
    (arg : Value) :
    setArg bean n arg = (convertArg d v arg).bind fun c =>
      if d.exported then some (bean.setAt r (.scalar c)) else none := by
  rw [setArg, hname]
  simp only [bind, Option.bind_some, hat]
  cases v with
  | nil => exact absurd rfl hv
  | ptr v => exact absurd rfl hv
  | bool b => rfl
  | int kind m => rfl
  | float kind bits => rfl
  | string s => rfl
  | slice s => rfl
  | array s => rfl
  | time u => rfl

theorem setArg_other {bean : Fields} {n : Bytes} {arg : Value}
    (h : ∀ r d v, bean.fieldByName n = some r → bean.fieldAt r = some (d, .scalar v) → v.zero = .nil) :
    setArg bean n arg = none := by
  rw [setArg]
  cases hname : bean.fieldByName n with
  | none => rfl
  | some r =>
    simp only [bind, Option.bind_some]
    cases hat : bean.fieldAt r with
    | none => rfl
    | some field =>
      obtain ⟨d, x⟩ := field
      cases x with
      | struct inner => rfl
      | pointer isNil inner => rfl
      | scalar v =>
        have hv := h r d v hname hat
        cases v <;> first | rfl | cases hv

/-- An argument is set in an exported field that takes it. -/
theorem setArg_eq_some_iff {bean b : Fields} {n : Bytes} {t : GraphScalar} {arg : Value}
    (harg : t.Delivers arg) :
    setArg bean n arg = some b ↔ ∃ r d x c, bean.fieldByName n = some r ∧
      bean.fieldAt r = some (d, .scalar x) ∧ d.exported = true ∧ Takes d x arg c ∧
        b = bean.setAt r (.scalar c) := by
  constructor
  · intro h
    by_cases hscalar : ∀ r d v, bean.fieldByName n = some r → bean.fieldAt r = some (d, .scalar v) →
        v.zero = .nil
    · rw [setArg_other hscalar] at h
      cases h
    · simp only [not_forall] at hscalar
      obtain ⟨r, d, v, hname, hat, hv⟩ := hscalar
      rw [setArg_scalar hname hat hv, Option.bind_eq_some_iff] at h
      obtain ⟨c, hc, h⟩ := h
      rw [Option.ite_none_right_eq_some] at h
      exact ⟨r, d, v, c, hname, hat, h.1, convertArg_eq_some_iff.mp hc, (Option.some.inj h.2).symm⟩
  · rintro ⟨r, d, v, c, hname, hat, hexported, htakes, rfl⟩
    rw [setArg_scalar hname hat (htakes.ne_nil harg), convertArg_eq_some_iff.mpr htakes, Option.bind_some,
      if_pos hexported]

/-! ## Beans that are filled -/

/-- What has been stored in the scalar fields of a fresh bean. -/
structure Filled (fresh : Fields) (m : GoMap (List Bytes) Value) (bean : Fields) : Prop where
  type : bean.zero = fresh.zero
  unlinked : bean.Unlinked
  typed : ∀ p c d x, m p = some c → fresh.fieldAt p = some (d, .scalar x) → c.zero = x.zero
  kept : ∀ p d x, fresh.fieldAt p = some (d, .scalar x) → bean.fieldAt p = some (d, .scalar ((m p).getD x))
  scalar : ∀ p d w, bean.fieldAt p = some (d, .scalar w) → ∃ x, fresh.fieldAt p = some (d, .scalar x)

theorem filled_zero (fields : Fields) : Filled fields.zero .empty fields.zero where
  type := rfl
  unlinked := fields.unlinked_zero
  typed _ _ _ _ h := nomatch h
  kept _ _ _ h := h
  scalar _ _ w h := ⟨w, h⟩

section Filling

variable {fresh bean : Fields} {m : GoMap (List Bytes) Value}

theorem Filled.zero_eq (h : Filled fresh m bean) {p : List Bytes} {d : FieldDecl} {x : Value}
    (hx : fresh.fieldAt p = some (d, .scalar x)) : ((m p).getD x).zero = x.zero := by
  cases hm : m p with
  | none => rfl
  | some c => exact h.typed p c d x hm hx

theorem Filled.value (h : Filled fresh m bean) {p : List Bytes} {d : FieldDecl} {w : Value}
    (hw : bean.fieldAt p = some (d, .scalar w)) :
    ∃ x, fresh.fieldAt p = some (d, .scalar x) ∧ w = (m p).getD x := by
  obtain ⟨x, hx⟩ := h.scalar p d w hw
  have hkept := hw.symm.trans (h.kept p d x hx)
  exact ⟨x, hx, by simpa using hkept⟩

/-- One more field is stored, and the others stay. -/
theorem Filled.setAt (h : Filled fresh m bean) {r : List Bytes} {d : FieldDecl} {x c : Value}
    (hr : fresh.fieldAt r = some (d, .scalar x)) (hc : c.zero = x.zero) :
    Filled fresh (m.store r c) (bean.setAt r (.scalar c)) := by
  have hat := h.kept r d x hr
  have hself := Fields.fieldAt_setAt_self hat (.scalar c)
  have hsame : (Reflected.scalar c).zero = (Reflected.scalar ((m r).getD x)).zero :=
    congrArg Reflected.scalar (hc.trans (h.zero_eq hr).symm)
  refine ⟨(Fields.zero_setAt hat hsame).trans h.type, h.unlinked.setAt c, ?_, ?_, ?_⟩
  · intro p c' e z hm hz
    rcases GoMap.of_store_eq_some hm with ⟨rfl, rfl⟩ | ⟨-, hm⟩
    · have hzx : z = x := by simpa using congrArg (Option.map Prod.snd) (hz.symm.trans hr)
      rw [hc, hzx]
    · exact h.typed p c' e z hm hz
  · intro p e z hz
    by_cases hp : p = r
    · subst hp
      obtain ⟨rfl, -⟩ := Prod.mk.inj (Option.some.inj (hz.symm.trans hr))
      rw [GoMap.store_self]
      exact hself
    · have hapart := Fields.apart_of_scalars (Fields.typeAt_of_fieldAt hr) (Fields.typeAt_of_fieldAt hz)
        (Ne.symm hp)
      rw [GoMap.store_of_ne hp, Fields.fieldAt_setAt_of_apart hapart]
      exact h.kept p e z hz
  · intro p e w hw
    by_cases hp : p = r
    · subst hp
      obtain ⟨rfl, -⟩ := Prod.mk.inj (Option.some.inj (hw.symm.trans hself))
      exact ⟨x, hr⟩
    · have hapart := Fields.apart_of_scalars (Fields.typeAt_of_fieldAt hself)
        (Fields.typeAt_of_fieldAt hw) (Ne.symm hp)
      rw [Fields.fieldAt_setAt_of_apart hapart] at hw
      exact h.scalar p e w hw

end Filling

/-! ## Where arguments arrive -/

/-- The argument names the exposed field at the path. -/
def Names (bean : Fields) (a : Bytes × Value) (p : List Bytes) : Prop :=
  ∃ t, exposed bean a.1 = some (p, t)

/-- The Go name of the field that the argument names leads to an exported field, which takes the
argument. -/
def Arrives (bean : Fields) (a : Bytes × Value) (r : List Bytes) (c : Value) : Prop :=
  ∃ p t, exposed bean a.1 = some (p, t) ∧ bean.fieldByName (p.getLastD []) = some r ∧
    ∃ d x, bean.zero.fieldAt r = some (d, .scalar x) ∧ d.exported = true ∧ Takes d x a.2 c

/-- The arguments of a query, of the types that the schema gives them. -/
structure QueryArgs (bean : Fields) where
  entries : List (Bytes × Value)
  nodup : (entries.map Prod.fst).Nodup
  delivered : ∀ a ∈ entries, ∀ p t, exposed bean a.1 = some (p, t) → t.Delivers a.2

section Runs

variable {model bean : Fields} {m : GoMap (List Bytes) Value} {a : Bytes × Value}

/-- An argument is set where it arrives. -/
theorem Filled.setArg_iff (h : Filled model.zero m bean) {p : List Bytes} {t : GraphScalar}
    (ha : exposed model a.1 = some (p, t)) (hdelivers : t.Delivers a.2) {b : Fields} :
    setArg bean (p.getLastD []) a.2 = some b ↔
      ∃ r c, Arrives model a r c ∧ b = bean.setAt r (.scalar c) := by
  have hname : bean.fieldByName (p.getLastD []) = model.fieldByName (p.getLastD []) :=
    Fields.fieldByName_of_zero_eq (h.type.trans model.zero_zero) _
  rw [setArg_eq_some_iff hdelivers, hname]
  constructor
  · rintro ⟨r, d, w, c, hr, hw, hexported, htakes, hb⟩
    obtain ⟨x, hx, rfl⟩ := h.value hw
    exact ⟨r, c, ⟨p, t, ha, hr, d, x, hx, hexported, htakes.of_zero_eq (h.zero_eq hx)⟩, hb⟩
  · rintro ⟨r, c, ⟨q, u, hq, hr, d, x, hx, hexported, htakes⟩, hb⟩
    obtain ⟨rfl, -⟩ := Prod.mk.inj (Option.some.inj (ha.symm.trans hq))
    exact ⟨r, d, _, c, hr, h.kept r d x hx, hexported, htakes.of_zero_eq (h.zero_eq hx).symm, hb⟩

theorem Arrives.path_eq {r q : List Bytes} {c c' : Value} (h : Arrives model a r c)
    (h' : Arrives model a q c') : r = q := by
  obtain ⟨p, t, hp, hr, -⟩ := h
  obtain ⟨p', t', hp', hq, -⟩ := h'
  obtain ⟨rfl, -⟩ := Prod.mk.inj (Option.some.inj (hp.symm.trans hp'))
  exact Option.some.inj (hr.symm.trans hq)

/-- The field where an argument arrives is there in a fresh bean, with a value of the same type. -/
theorem Arrives.field {r : List Bytes} {c : Value} (h : Arrives model a r c) :
    ∃ d x, model.zero.fieldAt r = some (d, .scalar x) ∧ c.zero = x.zero := by
  obtain ⟨-, -, -, -, d, x, hx, -, htakes⟩ := h
  exact ⟨d, x, hx, htakes.zero_eq⟩

variable (model) in
/-- The arguments are set one after the other. -/
def setExposed (args : List (Bytes × Value)) (s : Fields × ℕ) : Option (Fields × ℕ) :=
  setArgs (fieldInfos (exposed model)) args s

theorem setExposed_cons_none (h : exposed model a.1 = none) (args : List (Bytes × Value))
    (s : Fields × ℕ) : setExposed model (a :: args) s = setExposed model args s := by
  simp only [setExposed, setArgs, fieldInfos, h, Option.map_none]

theorem setExposed_cons_some {p : List Bytes} {t : GraphScalar} (h : exposed model a.1 = some (p, t))
    (args : List (Bytes × Value)) (s : Fields × ℕ) :
    setExposed model (a :: args) s =
      (setArg s.1 (p.getLastD []) a.2).bind fun b => setExposed model args (b, s.2 + 1) := by
  simp only [setExposed, setArgs, fieldInfos, h, Option.map_some, bind]

theorem setExposed_append (args args' : List (Bytes × Value)) (s : Fields × ℕ) :
    setExposed model (args ++ args') s = (setExposed model args s).bind (setExposed model args') := by
  induction args generalizing s with
  | nil => rfl
  | cons a args ih =>
    rw [List.cons_append]
    cases h : exposed model a.1 with
    | none => rw [setExposed_cons_none h, setExposed_cons_none h, ih]
    | some e =>
      rw [setExposed_cons_some h, setExposed_cons_some h, Option.bind_assoc]
      exact congrArg _ (funext fun b => ih _)

variable {args : List (Bytes × Value)}

/-- If every argument arrives, there is a bean, which holds in a field the argument that arrived there
last. -/
theorem Filled.run (h : Filled model.zero m bean)
    (hdelivered : ∀ a ∈ args, ∀ p t, exposed model a.1 = some (p, t) → t.Delivers a.2)
    (harrives : ∀ a ∈ args, ∀ p, Names model a p → ∃ r c, Arrives model a r c) (n : ℕ) :
    ∃ b n' m', setExposed model args (bean, n) = some (b, n') ∧ Filled model.zero m' b ∧
      (∀ p c, m' p = some c → m p = some c ∨ ∃ a ∈ args, Arrives model a p c) ∧
      ∀ p, m' p = none → m p = none ∧ ∀ a ∈ args, ∀ c, ¬ Arrives model a p c := by
  induction args generalizing bean m n with
  | nil =>
    exact ⟨bean, n, m, rfl, h, fun p c hm => .inl hm, fun p hm => ⟨hm, fun a ha => nomatch ha⟩⟩
  | cons a args ih =>
    obtain ⟨hdelivers, hdelivered⟩ := List.forall_mem_cons.mp hdelivered
    obtain ⟨hfirst, harrives⟩ := List.forall_mem_cons.mp harrives
    cases ha : exposed model a.1 with
    | none =>
      have hnot : ∀ p c, ¬ Arrives model a p c := by
        rintro p c ⟨q, t, hq, -⟩
        exact absurd (ha.symm.trans hq) (Option.some_ne_none _).symm
      obtain ⟨b, n', m', hrun, hfilled, hsome, hnone⟩ := ih h hdelivered harrives n
      rw [setExposed_cons_none ha]
      refine ⟨b, n', m', hrun, hfilled, fun p c hm => ?_, fun p hm => ?_⟩
      · exact (hsome p c hm).imp_right fun ⟨e, he, harr⟩ => ⟨e, List.mem_cons_of_mem a he, harr⟩
      · exact ⟨(hnone p hm).1, List.forall_mem_cons.mpr ⟨hnot p, (hnone p hm).2⟩⟩
    | some e =>
      obtain ⟨p, t⟩ := e
      obtain ⟨r, c, hac⟩ := hfirst p ⟨t, ha⟩
      obtain ⟨d, x, hx, hzero⟩ := hac.field
      have hset := (h.setArg_iff ha (hdelivers p t ha)).mpr ⟨r, c, hac, rfl⟩
      obtain ⟨b, n', m', hrun, hfilled, hsome, hnone⟩ :=
        ih (h.setAt hx hzero) hdelivered harrives (n + 1)
      rw [setExposed_cons_some ha, hset, Option.bind_some]
      refine ⟨b, n', m', hrun, hfilled, fun q c' hm => ?_, fun q hm => ?_⟩
      · rcases hsome q c' hm with hm | ⟨e, he, harr⟩
        · rcases GoMap.of_store_eq_some hm with ⟨rfl, rfl⟩ | ⟨-, hm⟩
          · exact .inr ⟨a, List.mem_cons_self, hac⟩
          · exact .inl hm
        · exact .inr ⟨e, List.mem_cons_of_mem a he, harr⟩
      · obtain ⟨hm, hrest⟩ := hnone q hm
        have hq : q ≠ r := fun hq => by simp [hq] at hm
        rw [GoMap.store_of_ne hq] at hm
        refine ⟨hm, List.forall_mem_cons.mpr ⟨fun c' harr => ?_, hrest⟩⟩
        exact hq (harr.path_eq hac)

/-- Where a bean is returned, every argument has arrived. -/
theorem Filled.arrives (h : Filled model.zero m bean)
    (hdelivered : ∀ a ∈ args, ∀ p t, exposed model a.1 = some (p, t) → t.Delivers a.2) {n : ℕ}
    {r : Fields × ℕ} (hset : setExposed model args (bean, n) = some r) :
    ∀ a ∈ args, ∀ p, Names model a p → ∃ r c, Arrives model a r c := by
  induction args generalizing bean m n with
  | nil => exact fun a ha => nomatch ha
  | cons a args ih =>
    obtain ⟨hdelivers, hdelivered⟩ := List.forall_mem_cons.mp hdelivered
    cases ha : exposed model a.1 with
    | none =>
      rw [setExposed_cons_none ha] at hset
      refine List.forall_mem_cons.mpr ⟨?_, ih h hdelivered hset⟩
      rintro p ⟨t, hp⟩
      exact absurd (ha.symm.trans hp) (Option.some_ne_none _).symm
    | some e =>
      obtain ⟨p, t⟩ := e
      rw [setExposed_cons_some ha, Option.bind_eq_some_iff] at hset
      obtain ⟨b, hb, hset⟩ := hset
      obtain ⟨r, c, hac, rfl⟩ := (h.setArg_iff ha (hdelivers p t ha)).mp hb
      obtain ⟨d, x, hx, hzero⟩ := hac.field
      exact List.forall_mem_cons.mpr ⟨fun _ _ => ⟨r, c, hac⟩, ih (h.setAt hx hzero) hdelivered hset⟩

end Runs

/-! ## Round trips -/

/-- A bean of the type holds each argument in the field that it names, and nothing else. -/
structure Fills (model : Fields) (args : List (Bytes × Value)) (condiBean : Fields) : Prop where
  type : condiBean.zero = model.zero
  unlinked : condiBean.Unlinked
  named : ∀ a ∈ args, ∀ p, Names model a p →
    ∃ d w, condiBean.fieldAt p = some (d, .scalar w) ∧ Holds a.2 w
  others : ∀ p d w, condiBean.fieldAt p = some (d, .scalar w) → (∀ a ∈ args, ¬ Names model a p) →
    w = w.zero

/-- Every argument arrives in the field that it names, which holds it. Where one arrives elsewhere,
both are zero. -/
structure Fitting (model : Fields) (args : List (Bytes × Value)) : Prop where
  arrives : ∀ a ∈ args, ∀ p, Names model a p → ∃ r c, Arrives model a r c
  held : ∀ a ∈ args, ∀ b ∈ args, ∀ p c, Arrives model a p c → Names model b p → Holds b.2 c
  missed : ∀ b ∈ args, ∀ p, Names model b p → (∀ a ∈ args, ∀ c, ¬ Arrives model a p c) →
    ∃ d x, model.zero.fieldAt p = some (d, .scalar x) ∧ Holds b.2 x
  stray : ∀ a ∈ args, ∀ p c, Arrives model a p c → (∀ b ∈ args, ¬ Names model b p) → c = c.zero

theorem Value.eq_zero_of_fieldAt_zero {fields : Fields} {p : List Bytes} {d : FieldDecl} {x : Value}
    (h : fields.zero.fieldAt p = some (d, .scalar x)) : x = x.zero := by
  have htype := Fields.typeAt_zero p fields.zero
  rw [Fields.zero_zero, Fields.typeAt_of_fieldAt h] at htype
  exact Reflected.scalar.inj (Option.some.inj htype)

section RoundTrips

variable {model : Fields} {args : List (Bytes × Value)}

theorem Fitting.fills (h : Fitting model args) {m : GoMap (List Bytes) Value} {bean : Fields}
    (hfilled : Filled model.zero m bean) (hsome : ∀ p c, m p = some c → ∃ a ∈ args, Arrives model a p c)
    (hnone : ∀ p, m p = none → ∀ a ∈ args, ∀ c, ¬ Arrives model a p c) : Fills model args bean where
  type := hfilled.type.trans model.zero_zero
  unlinked := hfilled.unlinked
  named b hb p hp := by
    cases hm : m p with
    | none =>
      obtain ⟨d, x, hx, hholds⟩ := h.missed b hb p hp (hnone p hm)
      have hkept := hfilled.kept p d x hx
      rw [hm] at hkept
      exact ⟨d, x, hkept, hholds⟩
    | some c =>
      obtain ⟨a, ha, harrives⟩ := hsome p c hm
      obtain ⟨d, x, hx, -⟩ := harrives.field
      have hkept := hfilled.kept p d x hx
      rw [hm] at hkept
      exact ⟨d, c, hkept, h.held a ha b hb p c harrives hp⟩
  others p d w hw hnot := by
    obtain ⟨x, hx, rfl⟩ := hfilled.value hw
    cases hm : m p with
    | none => exact Value.eq_zero_of_fieldAt_zero hx
    | some c =>
      obtain ⟨a, ha, harrives⟩ := hsome p c hm
      exact h.stray a ha p c harrives hnot

/-- Arguments that arrive in the fields that they name, each in another one, are fitting. -/
theorem fitting_of_own (harrives : ∀ a ∈ args, ∀ p, Names model a p → ∃ c, Arrives model a p c)
    (hholds : ∀ a ∈ args, ∀ p c, Arrives model a p c → Holds a.2 c)
    (hdistinct : ∀ a ∈ args, ∀ b ∈ args, ∀ p, Names model a p → Names model b p → a = b) :
    Fitting model args := by
  have hnames : ∀ a ∈ args, ∀ p c, Arrives model a p c → Names model a p := by
    intro a ha p c hac
    obtain ⟨q, t, hq, -⟩ := id hac
    obtain ⟨e, hae⟩ := harrives a ha q ⟨t, hq⟩
    exact hac.path_eq hae ▸ ⟨t, hq⟩
  refine ⟨fun a ha p hp => ⟨p, harrives a ha p hp⟩, fun a ha b hb p c hac hp => ?_,
    fun b hb p hp hnone => ?_, fun a ha p c hac hnot => absurd (hnames a ha p c hac) (hnot a ha)⟩
  · exact hdistinct a ha b hb p (hnames a ha p c hac) hp ▸ hholds a ha p c hac
  · obtain ⟨c, hbc⟩ := harrives b hb p hp
    exact absurd hbc (hnone b hb c)

/-- An argument that is set last stays where it arrives. -/
theorem fieldAt_of_last
    (hdelivered : ∀ a ∈ args, ∀ p t, exposed model a.1 = some (p, t) → t.Delivers a.2)
    (harrives : ∀ a ∈ args, ∀ p, Names model a p → ∃ r c, Arrives model a r c) {a : Bytes × Value}
    (ha : a ∈ args) {r : List Bytes} {c : Value} (hac : Arrives model a r c) :
    ∃ order, order.Perm args ∧ ∃ b n d, setExposed model order (model.zero, 0) = some (b, n) ∧
      b.fieldAt r = some (d, .scalar c) := by
  have hsub : ∀ e ∈ args.erase a, e ∈ args := fun e he => List.mem_of_mem_erase he
  obtain ⟨b, n, m, hrun, hfilled, -⟩ := (filled_zero model).run (fun e he => hdelivered e (hsub e he))
    (fun e he => harrives e (hsub e he)) 0
  obtain ⟨p, t, hp, -⟩ := id hac
  obtain ⟨d, x, hx, -⟩ := hac.field
  have hset := (hfilled.setArg_iff hp (hdelivered a ha p t hp)).mpr ⟨r, c, hac, rfl⟩
  refine ⟨args.erase a ++ [a],
    (List.perm_append_singleton a _).trans (List.perm_cons_erase ha).symm,
    b.setAt r (.scalar c), n + 1, d, ?_, Fields.fieldAt_setAt_self (hfilled.kept r d x hx) _⟩
  rw [setExposed_append, hrun, Option.bind_some, setExposed_cons_some hp, hset]
  rfl

/-- Where every order of the arguments fills a bean, they are fitting. -/
theorem fitting_of_fills
    (hdelivered : ∀ a ∈ args, ∀ p t, exposed model a.1 = some (p, t) → t.Delivers a.2)
    (h : ∀ order, order.Perm args → ∃ b n, setExposed model order (model.zero, 0) = some (b, n) ∧
      Fills model args b) : Fitting model args := by
  have hfills : ∀ order, order.Perm args → ∀ b n, setExposed model order (model.zero, 0) = some (b, n) →
      Fills model args b := by
    intro order horder b n hset
    obtain ⟨b', n', hset', hfills⟩ := h order horder
    obtain ⟨rfl, -⟩ := Prod.mk.inj (Option.some.inj (hset.symm.trans hset'))
    exact hfills
  have harrives : ∀ a ∈ args, ∀ p, Names model a p → ∃ r c, Arrives model a r c := by
    obtain ⟨b, n, hset, -⟩ := h args (List.Perm.refl _)
    exact (filled_zero model).arrives hdelivered hset
  refine ⟨harrives, fun a ha b hb p c hac hp => ?_, fun b hb p hp hnone => ?_,
    fun a ha p c hac hnot => ?_⟩
  · obtain ⟨order, horder, bean, n, d, hset, hat⟩ := fieldAt_of_last hdelivered harrives ha hac
    obtain ⟨e, w, hw, hholds⟩ := (hfills order horder bean n hset).named b hb p hp
    have hwc : w = c := by simpa using congrArg (Option.map Prod.snd) (hw.symm.trans hat)
    exact hwc ▸ hholds
  · obtain ⟨bean, n, m, hrun, hfilled, hsome, -⟩ := (filled_zero model).run hdelivered harrives 0
    obtain ⟨d, w, hw, hholds⟩ := (hfills _ (List.Perm.refl _) bean n hrun).named b hb p hp
    obtain ⟨x, hx, hwx⟩ := hfilled.value hw
    cases hm : m p with
    | none =>
      rw [hm, Option.getD_none] at hwx
      exact ⟨d, x, hx, hwx ▸ hholds⟩
    | some c =>
      rcases hsome p c hm with hempty | ⟨a, ha, hac⟩
      · cases hempty
      · exact absurd hac (hnone a ha c)
  · obtain ⟨order, horder, bean, n, d, hset, hat⟩ := fieldAt_of_last hdelivered harrives ha hac
    exact (hfills order horder bean n hset).others p d c hat hnot

theorem generateConditionBean_eq (order : List (Bytes × Value)) :
    generateConditionBean (getGraphQLSchemaInfo model) order =
      (setExposed model order (model.zero, 0)).map fun s => (s.1, decide (0 < s.2)) := by
  rw [generateConditionBean, fieldsMapping_eq]
  exact Option.map_eq_bind.symm

/-- A bean is returned for every order of the arguments and holds them exactly if they are fitting:
their fields are found by their Go names, are exported, and have the types of the arguments, `int`,
`float64`, `bool`, `string` or `time.Time`, or the kind `int` for a text that is a number. -/
theorem generateConditionBean_fills_iff (model : Fields) (args : QueryArgs model) :
    (∀ order, order.Perm args.entries → ∃ condiBean set,
      generateConditionBean (getGraphQLSchemaInfo model) order = some (condiBean, set) ∧
        Fills model args.entries condiBean) ↔ Fitting model args.entries := by
  constructor
  · intro h
    refine fitting_of_fills args.delivered fun order horder => ?_
    obtain ⟨condiBean, set, hcondi, hfills⟩ := h order horder
    rw [generateConditionBean_eq, Option.map_eq_some_iff] at hcondi
    obtain ⟨⟨b, n⟩, hset, hb⟩ := hcondi
    obtain ⟨rfl, -⟩ := Prod.mk.inj hb
    exact ⟨b, n, hset, hfills⟩
  · intro h order horder
    have hmem : ∀ a, a ∈ order ↔ a ∈ args.entries := fun a => horder.mem_iff
    obtain ⟨bean, n, m, hrun, hfilled, hsome, hnone⟩ := (filled_zero model).run
      (fun a ha => args.delivered a ((hmem a).mp ha)) (fun a ha => h.arrives a ((hmem a).mp ha)) 0
    refine ⟨bean, decide (0 < n), by rw [generateConditionBean_eq, hrun]; rfl,
      h.fills hfilled (fun p c hm => ?_) fun p hm a ha => (hnone p hm).2 a ((hmem a).mpr ha)⟩
    rcases hsome p c hm with hempty | ⟨a, ha, hac⟩
    · cases hempty
    · exact ⟨a, (hmem a).mp ha, hac⟩

end RoundTrips

/-- The arguments of a query for a record by its name and its key. -/
def exampleArgs : QueryArgs (exampleModel 0 "") where
  entries := [(asciiBytes "name", .string (asciiBytes "b")), (asciiBytes "id", .string (asciiBytes "2"))]
  nodup := by decide
  delivered a ha p t hp := by
    rcases List.mem_cons.mp ha with rfl | ha
    · obtain ⟨-, rfl⟩ : [asciiBytes "Name"] = p ∧ .string = t := Prod.mk.inj (Option.some.inj hp)
      trivial
    · obtain rfl := List.mem_singleton.mp ha
      obtain ⟨-, rfl⟩ : [asciiBytes "ID"] = p ∧ .id = t := Prod.mk.inj (Option.some.inj hp)
      trivial

theorem exampleArgs_fills : ∃ condiBean set,
    generateConditionBean (getGraphQLSchemaInfo (exampleModel 0 "")) exampleArgs.entries =
      some (condiBean, set) ∧ Fills (exampleModel 0 "") exampleArgs.entries condiBean := by
  have hname : ∀ p, Names (exampleModel 0 "") (asciiBytes "name", .string (asciiBytes "b")) p →
      p = [asciiBytes "Name"] := fun p ⟨t, hp⟩ => (Prod.mk.inj (Option.some.inj hp)).1.symm
  have hid : ∀ p, Names (exampleModel 0 "") (asciiBytes "id", .string (asciiBytes "2")) p →
      p = [asciiBytes "ID"] := fun p ⟨t, hp⟩ => (Prod.mk.inj (Option.some.inj hp)).1.symm
  refine (generateConditionBean_fills_iff _ exampleArgs).mpr (fitting_of_own ?_ ?_ ?_) _ (List.Perm.refl _)
  · intro a ha p hp
    rcases List.mem_cons.mp ha with rfl | ha
    · obtain rfl := hname p hp
      exact ⟨_, _, .string, rfl, rfl, _, _, rfl, rfl, .same _ _ rfl rfl⟩
    · obtain rfl := List.mem_singleton.mp ha
      obtain rfl := hid p hp
      exact ⟨_, _, .id, rfl, rfl, _, _, rfl, rfl, .text 0 _⟩
  · rintro a ha p c ⟨q, t, hq, hp, d, x, hx, -, htakes⟩
    rcases List.mem_cons.mp ha with rfl | ha
    · obtain rfl := hname q ⟨t, hq⟩
      obtain rfl : [asciiBytes "Name"] = p := Option.some.inj hp
      obtain rfl : .string [] = x := Reflected.scalar.inj (Prod.mk.inj (Option.some.inj hx)).2
      cases htakes
      rfl
    · obtain rfl := List.mem_singleton.mp ha
      obtain rfl := hid q ⟨t, hq⟩
      obtain rfl : [asciiBytes "ID"] = p := Option.some.inj hp
      obtain rfl : .int .int 0 = x := Reflected.scalar.inj (Prod.mk.inj (Option.some.inj hx)).2
      cases htakes with
      | text m s => rfl
      | same _ _ hname hzero => cases hzero
  · intro a ha b hb p hp hp'
    rcases List.mem_cons.mp ha with rfl | ha
    · rcases List.mem_cons.mp hb with rfl | hb
      · rfl
      · obtain rfl := List.mem_singleton.mp hb
        exact absurd ((hname p hp).symm.trans (hid p hp')) (by decide)
    · obtain rfl := List.mem_singleton.mp ha
      rcases List.mem_cons.mp hb with rfl | hb
      · exact absurd ((hid p hp).symm.trans (hname p hp')) (by decide)
      · exact (List.mem_singleton.mp hb).symm

/-- A model with a key of type `int64`. -/
def wideModel (id : ℤ) : Fields :=
  .scalar ⟨asciiBytes "ID", "int64", true, false,
    [("xorm", asciiBytes "'id' BigInt pk"), ("json", asciiBytes "id")]⟩ (.int64 id) .nil

/-- A query for a record by that key. -/
def wideArgs : QueryArgs (wideModel 0) where
  entries := [(asciiBytes "id", .string (asciiBytes "7"))]
  nodup := by decide
  delivered a ha p t hp := by
    obtain rfl := List.mem_singleton.mp ha
    obtain ⟨-, rfl⟩ : [asciiBytes "ID"] = p ∧ .id = t := Prod.mk.inj (Option.some.inj hp)
    trivial

/-- The schema exposes a key of type `int64`, but its argument panics. -/
theorem generateConditionBean_wide :
    exposed (wideModel 0) (asciiBytes "id") = some ([asciiBytes "ID"], .id) ∧
      ¬ ∀ order, order.Perm wideArgs.entries → ∃ condiBean set,
        generateConditionBean (getGraphQLSchemaInfo (wideModel 0)) order = some (condiBean, set) ∧
          Fills (wideModel 0) wideArgs.entries condiBean := by
  have hpanics : generateConditionBean (getGraphQLSchemaInfo (wideModel 0)) wideArgs.entries = none := by
    decide
  refine ⟨by decide, fun h => ?_⟩
  obtain ⟨condiBean, set, hcondi, -⟩ := h wideArgs.entries (List.Perm.refl _)
  rw [hpanics] at hcondi
  cases hcondi

end Gocom
