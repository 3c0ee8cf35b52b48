import Gocom.SignatureContent
import Mathlib.Algebra.Order.Group.Multiset
import Mathlib.Data.List.Nodup
import Mathlib.Tactic.Abel

/-!
# The content of structured payloads

A payload is turned into nested maps, the maps are flattened into one, and the result is signed as
parameters are. A name that is met again while flattening is passed over, and maps are listed in
the order in which they happen to be iterated.
-/

namespace Gocom

structure StructField where
  name : Bytes
  exported : Bool := true
  tagged : Bool := false
  json : Bytes := []
  xml : Bytes := []

/-- A value, with what `ToString` makes of it where that is asked for. Field values of interface
type are boxed. -/
inductive GoValue where
  | nil
  | nilPointer
  | string (s rendered : Bytes)
  | scalar (rendered : Bytes)
  | pointer (pointee : GoValue) (rendered : Bytes)
  | struct (fields : List (StructField × GoValue)) (rendered : Bytes)
  | boxed (v : GoValue)
  | map (entries : List (Bytes × GoValue))

abbrev Entries := List (Bytes × GoValue)

def Entries.store (m : Entries) (k : Bytes) (v : GoValue) : Entries :=
  m.filter (fun e => e.1 ≠ k) ++ [(k, v)]

namespace GoValue

/-- The text of a value that is no map; there is none where reading its type panics. -/
def rendered : GoValue → Option Bytes
  | .string _ rendered => some rendered
  | .scalar rendered => some rendered
  | .pointer _ rendered => some rendered
  | .struct _ rendered => some rendered
  | _ => none

end GoValue

def StructField.tagName (field : StructField) : Bytes :=
  if field.tagged then
    let tagName := if field.json ≠ [] then field.json else field.xml
    if tagName = asciiBytes "-" then [] else tagName
  else
    match field.name with
    | [] => []
    | b :: rest => if isUpper b then lowerByte b ++ rest else []

/-- `result[tagName] = f.Interface()`, which panics below an unexported field. -/
def storeField (readOnly : Bool) (field : StructField) (v : GoValue) (result : Entries) :
    Option Entries :=
  if field.tagName = [] then some result
  else if readOnly || !field.exported then none
  else some (result.store field.tagName v)

mutual

def generateFields (readOnly : Bool) : List (StructField × GoValue) → Entries → Option Entries
  | [], result => some result
  | f :: fields, result => (generateField readOnly f result).bind (generateFields readOnly fields)
termination_by structural fields => fields

def generateField (readOnly : Bool) : StructField × GoValue → Entries → Option Entries
  | (field, v), result => generateFieldValue readOnly field v result
termination_by structural f => f

def generateFieldValue (readOnly : Bool) (field : StructField) : GoValue → Entries → Option Entries
  | .nilPointer, result => some result
  | .pointer (.struct fields _) _, result | .struct fields _, result =>
    if field.tagName = [] then some result
    else (generateFields (readOnly || !field.exported) fields []).map fun inner =>
      result.store field.tagName (.map inner)
  | .pointer v _, result => storeField readOnly field v result
  | .boxed v, result => storeField readOnly field v result
  | v, result => storeField readOnly field v result
termination_by structural v => v

end

def generatePayloadMappingData (parentTagName : Bytes) : GoValue → Option Entries
  | .nil | .nilPointer => none
  | .pointer (.struct fields _) _ | .struct fields _ => generateFields false fields []
  | .pointer v _ => some [(parentTagName, v)]
  | v => some [(parentTagName, v)]

mutual

/-- Flattening the entries of a map into `result`, as they are iterated. Keys that are no strings
have one name; of their entries the last is left when the map is copied. -/
def orgnizeSignaturingMappingData : Entries → List (Bytes × Bytes) → Option (List (Bytes × Bytes))
  | [], result => some result
  | e :: rest, result =>
    if rest.any (fun e' => e'.1 = e.1) then orgnizeSignaturingMappingData rest result
    else (orgnizeEntry e result).bind (orgnizeSignaturingMappingData rest)
termination_by structural es => es

def orgnizeEntry : Bytes × GoValue → List (Bytes × Bytes) → Option (List (Bytes × Bytes))
  | (k, v), result => if (result.lookup k).isSome then some result else orgnizeValue k v result
termination_by structural e => e

def orgnizeValue (k : Bytes) : GoValue → List (Bytes × Bytes) → Option (List (Bytes × Bytes))
  | .map entries, result => orgnizeSignaturingMappingData entries result
  | v, result => v.rendered.map fun text => result ++ [(k, text)]
termination_by structural v => v

end

/-! ## Orders of iteration -/

mutual

/-- The same value, its maps iterated in another order. -/
inductive GoValue.Reordered : GoValue → GoValue → Prop
  | refl (v : GoValue) : GoValue.Reordered v v
  | map {entries entries' : Entries} (h : EntriesReordered entries entries') :
      GoValue.Reordered (.map entries) (.map entries')

inductive EntriesReordered : Entries → Entries → Prop
  | nil : EntriesReordered [] []
  | cons (k : Bytes) {v v' : GoValue} {rest rest' : Entries} (hv : GoValue.Reordered v v')
      (hrest : EntriesReordered rest rest') : EntriesReordered ((k, v) :: rest) ((k, v') :: rest')
  | swap (e e' : Bytes × GoValue) (rest : Entries) :
      EntriesReordered (e :: e' :: rest) (e' :: e :: rest)
  | trans {a b c : Entries} (hab : EntriesReordered a b) (hbc : EntriesReordered b c) :
      EntriesReordered a c

end

/-- What becomes of the maps of a payload, none being a panic: in some order of these maps and of
the map into which they are flattened. -/
def FormatsMappings (mappings : Entries) (opts : SignatureOption) (out : Option Bytes) : Prop :=
  ∃ mappings', EntriesReordered mappings mappings' ∧
    match orgnizeSignaturingMappingData mappings' [] with
    | none => out = none
    | some fieldValues => ∃ params, params.Perm fieldValues ∧
        out = some (formatSignatureContent params opts)

/-- `FormatSignatureContentEx` can return this, or panic. -/
def FormatSignatureContentEx (payload : GoValue) (opts : SignatureOption)
    (out : Option Bytes) : Prop :=
  match payload with
  | .string s _ => out = some s
  | payload =>
    match generatePayloadMappingData (asciiBytes "data") payload with
    | none => out = none
    | some mappings => FormatsMappings mappings opts out

/-! ## What is in nested maps -/

inductive Item where
  | leaf (text : Bytes)
  | nested (inside : ℕ)
  | invalid
  | repeated
  deriving DecidableEq

/-- The item is a leaf of this name. -/
def isLeaf (k : Bytes) (i : Bytes × Item) : Bool :=
  match i.2 with
  | .leaf _ => i.1 = k
  | _ => false

/-- The mark of a name that comes up again. -/
def repeatMark (k : Bytes) (rest : Entries) : List (Bytes × Item) :=
  if rest.any (fun e => e.1 = k) then [(k, .repeated)] else []

mutual

/-- Everything in a map, at any depth, by its name: the text of a leaf; how many leaves of its own
name a nested map holds; values that panic; and names that come up again in their map. -/
def itemsOf : Entries → List (Bytes × Item)
  | [] => []
  | e :: rest => repeatMark e.1 rest ++ itemsOfEntry e ++ itemsOf rest
termination_by structural es => es

def itemsOfEntry : Bytes × GoValue → List (Bytes × Item)
  | (k, v) => itemsOfValue k v
termination_by structural e => e

def itemsOfValue (k : Bytes) : GoValue → List (Bytes × Item)
  | .map entries => (k, .nested ((itemsOf entries).countP (isLeaf k))) :: itemsOf entries
  | v =>
    match v.rendered with
    | none => [(k, .invalid)]
    | some text => [(k, .leaf text)]
termination_by structural v => v

end

/-- The condition on the items of a payload under which the order of iteration does not matter. -/
structure OrderFree (items : List (Bytes × Item)) : Prop where
  valid : ∀ k, (k, Item.invalid) ∉ items
  distinct : ∀ k, (k, Item.repeated) ∉ items
  agree : ∀ k t t', (k, Item.leaf t) ∈ items → (k, Item.leaf t') ∈ items → t = t'
  inside : ∀ k n, (k, Item.nested n) ∈ items → items.countP (isLeaf k) ≤ n

/-- Names that occur once leave nothing to the order. -/
theorem OrderFree.of_nodup {items : List (Bytes × Item)} (h : (items.map Prod.fst).Nodup)
    (hvalid : ∀ i ∈ items, i.2 ≠ .invalid ∧ i.2 ≠ .repeated) : OrderFree items where
  valid _ hk := (hvalid _ hk).1 rfl
  distinct _ hk := (hvalid _ hk).2 rfl
  agree k t t' ht ht' := by
    have heq := List.inj_on_of_nodup_map h ht ht' rfl
    exact Item.leaf.inj (congrArg Prod.snd heq)
  inside k n hk := by
    have hnone : items.countP (isLeaf k) = 0 := by
      refine List.countP_eq_zero.mpr ?_
      rintro ⟨k', item⟩ hi hleaf
      cases item with
      | leaf t =>
        obtain rfl : k' = k := of_decide_eq_true hleaf
        exact absurd (List.inj_on_of_nodup_map h hi hk rfl) (by simp)
      | _ => exact Bool.false_ne_true hleaf
    exact hnone ▸ Nat.zero_le n

theorem OrderFree.perm {items items' : List (Bytes × Item)} (h : OrderFree items)
    (hperm : items.Perm items') : OrderFree items' where
  valid k hk := h.valid k (hperm.mem_iff.mpr hk)
  distinct k hk := h.distinct k (hperm.mem_iff.mpr hk)
  agree k t t' ht ht' := h.agree k t t' (hperm.mem_iff.mpr ht) (hperm.mem_iff.mpr ht')
  inside k n hk := hperm.countP_eq (isLeaf k) ▸ h.inside k n (hperm.mem_iff.mpr hk)

theorem any_key {k : Bytes} {es : Entries} :
    es.any (fun e => e.1 = k) = true ↔ k ∈ es.map Prod.fst := by
  simp [List.any_eq_true, List.mem_map]

theorem reordered_keys {es es' : Entries} (h : EntriesReordered es es') :
    (es.map Prod.fst).Perm (es'.map Prod.fst) :=
  match h with
  | .nil => .refl _
  | .cons k _ hrest => (reordered_keys hrest).cons k
  | .swap _ _ _ => .swap _ _ _
  | .trans hab hbc => (reordered_keys hab).trans (reordered_keys hbc)

theorem itemsOf_cons (e : Bytes × GoValue) (rest : Entries) :
    itemsOf (e :: rest) = repeatMark e.1 rest ++ itemsOfValue e.1 e.2 ++ itemsOf rest := by
  cases e
  rfl

theorem repeatMark_congr (k : Bytes) {rest rest' : Entries}
    (h : k ∈ rest.map Prod.fst ↔ k ∈ rest'.map Prod.fst) :
    repeatMark k rest = repeatMark k rest' := by
  rw [repeatMark, repeatMark]
  congr 1
  rw [any_key, any_key]
  exact propext h

theorem repeatMark_swap (e e' : Bytes × GoValue) (rest : Entries) :
    (repeatMark e.1 (e' :: rest) ++ repeatMark e'.1 rest).Perm
      (repeatMark e'.1 (e :: rest) ++ repeatMark e.1 rest) := by
  by_cases hkey : e.1 = e'.1
  · have hrest : repeatMark e.1 (e' :: rest) = repeatMark e'.1 (e :: rest) := by
      simp [repeatMark, hkey]
    rw [hrest, hkey]
  · have he : repeatMark e.1 (e' :: rest) = repeatMark e.1 rest :=
      repeatMark_congr e.1 (by simp [hkey])
    have he' : repeatMark e'.1 (e :: rest) = repeatMark e'.1 rest :=
      repeatMark_congr e'.1 (by simp [Ne.symm hkey])
    rw [he, he']
    exact List.perm_append_comm

mutual

theorem itemsOfValue_perm (k : Bytes) {v v' : GoValue} (h : v.Reordered v') :
    (itemsOfValue k v).Perm (itemsOfValue k v') :=
  match h with
  | .refl _ => .refl _
  | .map h => by
    have hperm := itemsOf_perm h
    rw [itemsOfValue, itemsOfValue, hperm.countP_eq]
    exact hperm.cons _

theorem itemsOf_perm {es es' : Entries} (h : EntriesReordered es es') :
    (itemsOf es).Perm (itemsOf es') :=
  match h with
  | .nil => .refl _
  | @EntriesReordered.cons k _ _ rest rest' hv hrest => by
    have hmark : repeatMark k rest = repeatMark k rest' :=
      repeatMark_congr k (reordered_keys hrest).mem_iff
    rw [itemsOf_cons, itemsOf_cons, hmark]
    exact ((itemsOfValue_perm k hv).append_left _).append (itemsOf_perm hrest)
  | .swap e e' rest => by
    have hmarks := Multiset.coe_eq_coe.mpr (repeatMark_swap e e' rest)
    refine Multiset.coe_eq_coe.mp ?_
    simp only [itemsOf_cons, ← Multiset.coe_add] at hmarks ⊢
    calc (repeatMark e.1 (e' :: rest) : Multiset (Bytes × Item)) + itemsOfValue e.1 e.2 +
          (repeatMark e'.1 rest + itemsOfValue e'.1 e'.2 + itemsOf rest) =
        repeatMark e.1 (e' :: rest) + repeatMark e'.1 rest +
          (itemsOfValue e.1 e.2 + itemsOfValue e'.1 e'.2 + itemsOf rest) := by abel
      _ = repeatMark e'.1 (e :: rest) + repeatMark e.1 rest +
          (itemsOfValue e.1 e.2 + itemsOfValue e'.1 e'.2 + itemsOf rest) := by rw [hmarks]
      _ = _ := by abel
  | .trans hab hbc => (itemsOf_perm hab).trans (itemsOf_perm hbc)

end

/-! ## Flattening -/

def leafNames (items : List (Bytes × Item)) (k : Bytes) : Prop := ∃ t, (k, Item.leaf t) ∈ items

/-- The parameters collected so far: under the names of leaves that were met, with their texts. -/
structure Collected (text : Bytes → Bytes) (names : Bytes → Prop) (result : List (Bytes × Bytes)) :
    Prop where
  distinct : (result.map Prod.fst).Nodup
  texts : ∀ p ∈ result, p.2 = text p.1
  keys : ∀ k, k ∈ result.map Prod.fst ↔ names k

/-- Nothing in the items stops or shortens the flattening when `met` leaves of each name came
before. -/
structure Unhindered (text : Bytes → Bytes) (met : Bytes → ℕ) (items : List (Bytes × Item)) :
    Prop where
  valid : ∀ k, (k, Item.invalid) ∉ items
  distinct : ∀ k, (k, Item.repeated) ∉ items
  texts : ∀ k t, (k, Item.leaf t) ∈ items → t = text k
  inside : ∀ k n, (k, Item.nested n) ∈ items → met k + items.countP (isLeaf k) ≤ n

theorem countP_isLeaf_pos {k : Bytes} {items : List (Bytes × Item)} :
    0 < items.countP (isLeaf k) ↔ leafNames items k := by
  rw [List.countP_pos_iff]
  constructor
  · rintro ⟨⟨k', item⟩, hmem, hleaf⟩
    cases item with
    | leaf t =>
      obtain rfl : k' = k := of_decide_eq_true hleaf
      exact ⟨t, hmem⟩
    | _ => exact absurd hleaf Bool.false_ne_true
  · rintro ⟨t, hmem⟩
    exact ⟨_, hmem, decide_eq_true rfl⟩

theorem leafNames_append {items items' : List (Bytes × Item)} {k : Bytes} :
    leafNames (items ++ items') k ↔ leafNames items k ∨ leafNames items' k := by
  simp only [← countP_isLeaf_pos, List.countP_append]
  omega

theorem Collected.congr {text : Bytes → Bytes} {names names' : Bytes → Prop}
    {result : List (Bytes × Bytes)} (h : Collected text names result)
    (hnames : ∀ k, names k ↔ names' k) : Collected text names' result :=
  ⟨h.distinct, h.texts, fun k => (h.keys k).trans (hnames k)⟩

theorem Unhindered.front {text : Bytes → Bytes} {met : Bytes → ℕ} {front back : List (Bytes × Item)}
    (h : Unhindered text met (front ++ back)) : Unhindered text met front where
  valid k hk := h.valid k (List.mem_append_left _ hk)
  distinct k hk := h.distinct k (List.mem_append_left _ hk)
  texts k t hk := h.texts k t (List.mem_append_left _ hk)
  inside k n hk := by
    have hinside := h.inside k n (List.mem_append_left _ hk)
    rw [List.countP_append] at hinside
    omega

theorem Unhindered.back {text : Bytes → Bytes} {met : Bytes → ℕ} {front back : List (Bytes × Item)}
    (h : Unhindered text met (front ++ back)) :
    Unhindered text (fun k => met k + front.countP (isLeaf k)) back where
  valid k hk := h.valid k (List.mem_append_right _ hk)
  distinct k hk := h.distinct k (List.mem_append_right _ hk)
  texts k t hk := h.texts k t (List.mem_append_right _ hk)
  inside k n hk := by
    have hinside := h.inside k n (List.mem_append_right _ hk)
    rw [List.countP_append] at hinside
    omega

theorem lookup_isSome_iff {k : Bytes} {result : List (Bytes × Bytes)} :
    (result.lookup k).isSome = true ↔ k ∈ result.map Prod.fst := by
  induction result with
  | nil => simp
  | cons p result ih =>
    rw [List.lookup_cons, List.map_cons, List.mem_cons, ← ih]
    by_cases hk : k = p.1
    · simp [hk]
    · rw [beq_eq_false_iff_ne.mpr hk, or_iff_right hk]

/-- A leaf is collected unless its name is there already. -/
theorem Collected.leaf {text : Bytes → Bytes} {names : Bytes → Prop} {result : List (Bytes × Bytes)}
    (h : Collected text names result) {k : Bytes} (hk : k ∉ result.map Prod.fst) :
    Collected text (fun k' => names k' ∨ leafNames [(k, .leaf (text k))] k')
      (result ++ [(k, text k)]) where
  distinct := by
    rw [List.map_append, List.nodup_append]
    refine ⟨h.distinct, by simp, fun a ha b hb => ?_⟩
    obtain rfl : b = k := by simpa using hb
    exact fun hab => hk (hab ▸ ha)
  texts p hp := by
    rcases List.mem_append.mp hp with hp | hp
    · exact h.texts p hp
    · rw [List.mem_singleton.mp hp]
  keys k' := by
    rw [List.map_append, List.mem_append, h.keys k']
    simp [leafNames]

/-- A value that is no map is a leaf, if it can be rendered. -/
theorem orgnizeEntry_plain {text : Bytes → Bytes} {names : Bytes → Prop} {met : Bytes → ℕ}
    (k : Bytes) {v : GoValue}
    (hitems : itemsOfValue k v =
      match v.rendered with
      | none => [(k, .invalid)]
      | some text => [(k, .leaf text)])
    (hrun : ∀ result, orgnizeValue k v result = v.rendered.map fun text => result ++ [(k, text)])
    (hv : Unhindered text met (itemsOfValue k v)) {result : List (Bytes × Bytes)}
    (h : Collected text names result) :
    ∃ result', orgnizeEntry (k, v) result = some result' ∧
      Collected text (fun k' => names k' ∨ leafNames (itemsOfValue k v) k') result' := by
  rw [hitems] at hv ⊢
  rw [orgnizeEntry, hrun]
  cases hrendered : v.rendered with
  | none =>
    rw [hrendered] at hv
    exact absurd List.mem_cons_self (hv.valid k)
  | some t =>
    rw [hrendered] at hv
    obtain rfl := hv.texts k t List.mem_cons_self
    by_cases hmet : (result.lookup k).isSome = true
    · refine ⟨result, if_pos hmet, h.congr fun k' => ⟨.inl, ?_⟩⟩
      rintro (hk' | ⟨t, hk'⟩)
      · exact hk'
      · obtain ⟨rfl, -⟩ := Prod.mk.inj (List.mem_singleton.mp hk')
        exact (h.keys k').mp (lookup_isSome_iff.mp hmet)
    · exact ⟨_, if_neg hmet, h.leaf fun hk => hmet (lookup_isSome_iff.mpr hk)⟩

mutual

/-- One entry collects its leaves: it can only be passed over if it is a leaf itself. -/
theorem orgnizeEntry_spec {text : Bytes → Bytes} {names : Bytes → Prop} {met : Bytes → ℕ}
    (hmet : ∀ k, names k → 0 < met k) (k : Bytes) (v : GoValue)
    (hv : Unhindered text met (itemsOfValue k v)) {result : List (Bytes × Bytes)}
    (h : Collected text names result) :
    ∃ result', orgnizeEntry (k, v) result = some result' ∧
      Collected text (fun k' => names k' ∨ leafNames (itemsOfValue k v) k') result' := by
  cases v with
  | map entries =>
    rw [itemsOfValue] at hv ⊢
    have hcount : ∀ n, List.countP (isLeaf k) ((k, Item.nested n) :: itemsOf entries) =
        (itemsOf entries).countP (isLeaf k) := fun n => List.countP_cons_of_neg Bool.false_ne_true
    have hinside := hv.inside k _ List.mem_cons_self
    rw [hcount] at hinside
    have hnew : ¬ (result.lookup k).isSome = true := by
      rw [lookup_isSome_iff, h.keys k]
      intro hnames
      have := hmet k hnames
      omega
    have hsplit : Unhindered text met ([_] ++ itemsOf entries) := hv
    obtain ⟨result', hrun, h'⟩ := orgnize_spec
      (fun k' hk' => Nat.add_pos_left (hmet k' hk') _) entries hsplit.back h
    refine ⟨result', ?_, h'.congr fun k' => ?_⟩
    · rw [orgnizeEntry, if_neg hnew]
      exact hrun
    · simp [leafNames]
  | _ => exact orgnizeEntry_plain k rfl (fun _ => rfl) hv h
termination_by sizeOf v

theorem orgnize_spec {text : Bytes → Bytes} {names : Bytes → Prop} {met : Bytes → ℕ}
    (hmet : ∀ k, names k → 0 < met k) (es : Entries) (hes : Unhindered text met (itemsOf es))
    {result : List (Bytes × Bytes)} (h : Collected text names result) :
    ∃ result', orgnizeSignaturingMappingData es result = some result' ∧
      Collected text (fun k => names k ∨ leafNames (itemsOf es) k) result' := by
  match es with
  | [] => exact ⟨result, rfl, h.congr fun k => by simp [itemsOf, leafNames]⟩
  | (k, v) :: rest =>
    rw [itemsOf_cons] at hes
    have hmark : repeatMark k rest = [] := by
      rw [repeatMark]
      split_ifs with hany
      · exact absurd (by simp [repeatMark, hany]) (hes.distinct k)
      · rfl
    have hany : ¬ rest.any (fun e => e.1 = k) = true := by
      intro hany
      simp [repeatMark, hany] at hmark
    rw [hmark, List.nil_append] at hes
    obtain ⟨result', hentry, h'⟩ := orgnizeEntry_spec hmet k v hes.front h
    have hmet' : ∀ k', names k' ∨ leafNames (itemsOfValue k v) k' →
        0 < met k' + (itemsOfValue k v).countP (isLeaf k') := by
      rintro k' (hk' | hk')
      · exact Nat.add_pos_left (hmet k' hk') _
      · exact Nat.add_pos_right _ (countP_isLeaf_pos.mpr hk')
    obtain ⟨result'', hrest, h''⟩ := orgnize_spec hmet' rest hes.back h'
    refine ⟨result'', ?_, h''.congr fun k' => ?_⟩
    · rw [orgnizeSignaturingMappingData, if_neg hany, hentry]
      exact hrest
    · rw [itemsOf_cons, hmark, List.nil_append, leafNames_append, or_assoc]
termination_by sizeOf es

end

theorem OrderFree.exists_text {items : List (Bytes × Item)} (h : OrderFree items) :
    ∃ text : Bytes → Bytes, ∀ k t, (k, Item.leaf t) ∈ items → t = text k := by
  have hchoice : ∀ k, ∃ t, leafNames items k → (k, Item.leaf t) ∈ items := by
    intro k
    by_cases hk : leafNames items k
    · exact hk.imp fun t ht _ => ht
    · exact ⟨[], fun h => absurd h hk⟩
  choose text htext using hchoice
  exact ⟨text, fun k t ht => h.agree k t (text k) ht (htext k ⟨t, ht⟩)⟩

/-- Whatever the order, the leaves are collected, all of them and nothing else. -/
theorem orgnize_orderFree {text : Bytes → Bytes} {mappings : Entries}
    (h : OrderFree (itemsOf mappings))
    (htext : ∀ k t, (k, Item.leaf t) ∈ itemsOf mappings → t = text k) :
    ∃ result, orgnizeSignaturingMappingData mappings [] = some result ∧
      Collected text (leafNames (itemsOf mappings)) result := by
  have hstart : Unhindered text (fun _ => 0) (itemsOf mappings) :=
    ⟨h.valid, h.distinct, htext, fun k n hk => (Nat.zero_add _).symm ▸ h.inside k n hk⟩
  have hempty : Collected text (fun _ => False) [] :=
    ⟨List.nodup_nil, fun p hp => absurd hp List.not_mem_nil, fun k => by simp⟩
  obtain ⟨result, hrun, hresult⟩ := orgnize_spec (fun k hk => hk.elim) mappings hstart hempty
  exact ⟨result, hrun, hresult.congr fun k => ⟨fun hk => hk.elim False.elim id, .inr⟩⟩

theorem Collected.perm {text : Bytes → Bytes} {names : Bytes → Prop}
    {result result' : List (Bytes × Bytes)} (h : Collected text names result)
    (h' : Collected text names result') : result.Perm result' := by
  have hmem : ∀ {result : List (Bytes × Bytes)}, Collected text names result →
      ∀ p, p ∈ result ↔ names p.1 ∧ p.2 = text p.1 := by
    intro result h p
    constructor
    · exact fun hp => ⟨(h.keys p.1).mp (List.mem_map_of_mem hp), h.texts p hp⟩
    · rintro ⟨hname, htext⟩
      obtain ⟨q, hq, hkey⟩ := List.mem_map.mp ((h.keys p.1).mpr hname)
      have hvalue : q.2 = p.2 := by rw [h.texts q hq, hkey, htext]
      exact Prod.ext hkey hvalue ▸ hq
  refine (List.perm_ext_iff_of_nodup h.distinct.of_map h'.distinct.of_map).mpr fun p => ?_
  rw [hmem h, hmem h']

theorem entriesReordered_refl : ∀ es : Entries, EntriesReordered es es
  | [] => .nil
  | (k, v) :: rest => .cons k (.refl v) (entriesReordered_refl rest)

theorem formatsMappings_unique {mappings : Entries} {opts : SignatureOption}
    (hsorted : opts.sortedFields ≠ .none) (h : OrderFree (itemsOf mappings)) :
    ∃ content, ∀ out, FormatsMappings mappings opts out ↔ out = some content := by
  obtain ⟨text, htext⟩ := h.exists_text
  obtain ⟨result, hrun, hresult⟩ := orgnize_orderFree h htext
  refine ⟨formatSignatureContent result opts, fun out => ⟨?_, ?_⟩⟩
  · rintro ⟨mappings', hreordered, hout⟩
    have hitems := itemsOf_perm hreordered
    obtain ⟨result', hrun', hresult'⟩ := orgnize_orderFree (h.perm hitems)
      fun k t ht => htext k t (hitems.mem_iff.mpr ht)
    have hnames : ∀ k, leafNames (itemsOf mappings') k ↔ leafNames (itemsOf mappings) k :=
      fun k => exists_congr fun t => hitems.mem_iff.symm
    rw [hrun'] at hout
    obtain ⟨params, hparams, rfl⟩ := hout
    have hperm := ((hresult'.congr hnames).perm hresult).symm.trans hparams.symm
    rw [formatSignatureContent_perm hsorted hresult.distinct hperm]
  · rintro rfl
    refine ⟨mappings, entriesReordered_refl mappings, ?_⟩
    rw [hrun]
    exact ⟨result, .refl _, rfl⟩

/-- The payload is a text, or the maps it is turned into can be flattened in any order. -/
def OrderIndependent (payload : GoValue) : Prop :=
  match payload with
  | .string _ _ => True
  | payload => ∃ mappings, generatePayloadMappingData (asciiBytes "data") payload = some mappings ∧
      OrderFree (itemsOf mappings)

/-- With sorted fields the content of such a payload is one string in all orders of iteration. -/
theorem formatSignatureContentEx_unique (payload : GoValue) (opts : SignatureOption)
    (hsorted : opts.sortedFields ≠ .none) (h : OrderIndependent payload) :
    ∃ content, ∀ out, FormatSignatureContentEx payload opts out ↔ out = some content := by
  cases payload with
  | string s rendered => exact ⟨s, fun out => .rfl⟩
  | _ =>
    obtain ⟨mappings, hgenerate, hfree⟩ := h
    obtain ⟨content, hcontent⟩ := formatsMappings_unique hsorted hfree
    refine ⟨content, fun out => ?_⟩
    rw [← hcontent out]
    simp only [FormatSignatureContentEx, hgenerate]

/-- One name with two texts. -/
def ambiguousPayload : GoValue :=
  .map [(asciiBytes "a", .map [(asciiBytes "x", .string (asciiBytes "1") (asciiBytes "1"))]),
    (asciiBytes "b", .map [(asciiBytes "x", .string (asciiBytes "2") (asciiBytes "2"))])]

theorem ambiguousPayload_contents :
    FormatSignatureContentEx ambiguousPayload {} (some (asciiBytes "x=1")) ∧
      FormatSignatureContentEx ambiguousPayload {} (some (asciiBytes "x=2")) := by
  refine ⟨⟨_, entriesReordered_refl _, ?_⟩, ⟨_, .cons _ (.map (.swap _ _ [])) .nil, ?_⟩⟩
  · exact ⟨[(asciiBytes "x", asciiBytes "1")], .refl _, by decide⟩
  · exact ⟨[(asciiBytes "x", asciiBytes "2")], .refl _, by decide⟩

def nestedPayload : GoValue :=
  .map [(asciiBytes "id", .scalar (asciiBytes "7")),
    (asciiBytes "user", .map [(asciiBytes "name", .string (asciiBytes "ann") (asciiBytes "ann"))])]

theorem nestedPayload_never_panics : ¬ FormatSignatureContentEx nestedPayload {} none := by
  have hfree : OrderFree (itemsOf [(asciiBytes "data", nestedPayload)]) :=
    OrderFree.of_nodup (by decide) (by decide)
  obtain ⟨content, hcontent⟩ :=
    formatSignatureContentEx_unique nestedPayload {} (by simp) ⟨_, rfl, hfree⟩
  exact fun hnone => absurd ((hcontent none).mp hnone) (by simp)

end Gocom
