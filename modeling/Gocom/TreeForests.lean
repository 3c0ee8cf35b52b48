import Gocom.RootedPaths
import Gocom.TreeBuilders

/-!
# The forests that are built

An element is part of the forest if its parents lead to the root. These are on a path without
repetition, so the recursion ends, although other elements may be their own ancestors.
-/

namespace Gocom
namespace TreeBuilders
open RootedPaths

variable {κ β : Type*} {pushes : List (TreeData κ β × κ)} {root : κ}

/-- Elements with different keys and no children of their own, and a root that is none of them. -/
structure Elements (pushes : List (TreeData κ β × κ)) (root : κ) : Prop where
  distinct : (pushes.map fun p => p.1.key).Nodup
  leaves : ∀ p ∈ pushes, p.1.children = []
  root_notMem : root ∉ pushes.map fun p => p.1.key

def IsParent (pushes : List (TreeData κ β × κ)) (a b : κ) : Prop :=
  ∃ p ∈ pushes, p.1.key = a ∧ p.2 = b

theorem Elements.rooted (h : Elements pushes root) : Rooted (IsParent pushes) root where
  functional := by
    rintro a b c ⟨p, hp, rfl, rfl⟩ ⟨q, hq, hkey, rfl⟩
    rw [List.inj_on_of_nodup_map h.distinct hq hp hkey]
  isRoot := by
    rintro b ⟨p, hp, hkey, -⟩
    exact h.root_notMem (List.mem_map.mpr ⟨p, hp, hkey⟩)

/-- The depth is enough where the path to the root is so long. -/
def Deep (pushes : List (TreeData κ β × κ)) (n : ℕ) (l : List κ) : Prop :=
  pushes.length < n + l.length

theorem Deep.step {n : ℕ} {l : List κ} (h : Deep pushes (n + 1) l) (a : κ) :
    Deep pushes n (a :: l) := by
  rw [Deep] at h ⊢
  rw [List.length_cons]
  omega

theorem Elements.not_deep_zero (h : Elements pushes root) {k : κ} {l : List κ}
    (hl : Path (IsParent pushes) root k l) : ¬ Deep pushes 0 l := by
  have hle := hl.length_le h.rooted (pushes.map fun p => p.1.key) (by
    rintro b c ⟨p, hp, rfl, -⟩
    exact List.mem_map_of_mem hp)
  rw [List.length_map] at hle
  rw [Deep]
  omega

/-- An element without children is given those that there are. -/
theorem setChildren_of_leaf {e : TreeData κ β} (h : e.children = []) (children : List (TreeData κ β)) :
    (if 0 < children.length then { e with children := children } else e) =
      { e with children := children } := by
  split_ifs with hlen
  · rfl
  · obtain rfl := List.eq_nil_of_length_eq_zero (Nat.eq_zero_of_not_pos hlen)
    cases e
    rw [← h]

/-! ## The forest under a key -/

variable [DecidableEq κ]

theorem mem_childrenOf {ε : Type*} {pushes : List (ε × κ)} {k : κ} {e : ε} :
    e ∈ childrenOf pushes k ↔ (e, k) ∈ pushes := by
  simp [childrenOf]

theorem isParent_of_mem {k : κ} {e : TreeData κ β} (he : e ∈ childrenOf pushes k) :
    IsParent pushes e.key k :=
  ⟨(e, k), mem_childrenOf.mp he, rfl, rfl⟩

/-- Each element with what grows under its key, to some depth. -/
def forestOf (pushes : List (TreeData κ β × κ)) : ℕ → κ → List (TreeData κ β)
  | 0, _ => []
  | n + 1, k => (childrenOf pushes k).map fun e => { e with children := forestOf pushes n e.key }

theorem Elements.forestOf_eq (h : Elements pushes root) {m n : ℕ} {k : κ} {l : List κ}
    (hl : Path (IsParent pushes) root k l) (hm : Deep pushes m l) (hn : Deep pushes n l) :
    forestOf pushes m k = forestOf pushes n k := by
  induction m generalizing n k l with
  | zero => exact absurd hm (h.not_deep_zero hl)
  | succ m ih =>
    cases n with
    | zero => exact absurd hn (h.not_deep_zero hl)
    | succ n =>
      refine List.map_congr_left fun e he => ?_
      rw [ih (.step (isParent_of_mem he) hl) (hm.step _) (hn.step _)]

theorem mapM_eq_some_map {γ δ : Type*} {f : γ → Option δ} {g : γ → δ} {l : List γ}
    (h : ∀ x ∈ l, f x = some (g x)) : l.mapM f = some (l.map g) := by
  induction l with
  | nil => rfl
  | cons x l ih =>
    obtain ⟨hx, hl⟩ := List.forall_mem_cons.mp h
    rw [List.mapM_cons, hx, ih hl]
    rfl

/-- The builder with values returns the forest. -/
theorem Elements.builtinGetTreeData_eq (h : Elements pushes root) {fuel : ℕ} {k : κ} {l : List κ}
    (hl : Path (IsParent pushes) root k l) (hdeep : Deep pushes fuel l) :
    builtinGetTreeData (pushAll pushes) fuel k = some (forestOf pushes fuel k) := by
  induction fuel generalizing k l with
  | zero => exact absurd hdeep (h.not_deep_zero hl)
  | succ fuel ih =>
    rw [builtinGetTreeData, pushAll_apply, forestOf]
    by_cases hnone : childrenOf pushes k = []
    · rw [if_pos hnone, hnone]
      rfl
    · rw [if_neg hnone]
      refine mapM_eq_some_map fun e he => ?_
      rw [ih (.step (isParent_of_mem he) hl) (hdeep.step _), Option.map_some,
        setChildren_of_leaf (h.leaves (e, k) (mem_childrenOf.mp he))]

/-! ## What is in the forest -/

omit [DecidableEq κ]

mutual

/-- A tree and all trees in it. -/
def subtrees : TreeData κ β → List (TreeData κ β)
  | ⟨key, title, children, bindData⟩ => ⟨key, title, children, bindData⟩ :: nodes children

/-- All trees in a forest. -/
def nodes : List (TreeData κ β) → List (TreeData κ β)
  | [] => []
  | t :: forest => subtrees t ++ nodes forest

end

theorem subtrees_eq (t : TreeData κ β) : subtrees t = t :: nodes t.children := by
  cases t
  rw [subtrees]

theorem nodes_eq (forest : List (TreeData κ β)) :
    nodes forest = forest.flatMap fun t => t :: nodes t.children := by
  induction forest with
  | nil => rw [nodes, List.flatMap_nil]
  | cons t forest ih => rw [nodes, subtrees_eq, ih, List.flatMap_cons]

/-- What of an element does not change. -/
def label (t : TreeData κ β) : κ × Bytes × β := (t.key, t.title, t.bindData)

variable [DecidableEq κ]

/-- The forest of what was pushed: siblings are the elements pushed under one key, in order, and
each element that leads to the root is there once. -/
structure IsForest (pushes : List (TreeData κ β × κ)) (root : κ) (forest : List (TreeData κ β)) :
    Prop where
  roots : forest.map label = (childrenOf pushes root).map label
  siblings : ∀ t ∈ nodes forest, t.children.map label = (childrenOf pushes t.key).map label
  once : ((nodes forest).map fun t => t.key).Nodup
  exactly : ∀ a, a ∈ (nodes forest).map (fun t => t.key) ↔ Relation.TransGen (IsParent pushes) a root

theorem forestOf_labels (n : ℕ) (k : κ) :
    (forestOf pushes (n + 1) k).map label = (childrenOf pushes k).map label := by
  rw [forestOf, List.map_map]
  rfl

theorem nodes_forestOf (n : ℕ) (k : κ) :
    nodes (forestOf pushes (n + 1) k) = (childrenOf pushes k).flatMap fun e =>
      { e with children := forestOf pushes n e.key } :: nodes (forestOf pushes n e.key) := by
  rw [nodes_eq, forestOf, List.flatMap_map]

theorem keys_forestOf (n : ℕ) (k : κ) :
    (nodes (forestOf pushes (n + 1) k)).map (fun t => t.key) = (childrenOf pushes k).flatMap fun e =>
      e.key :: (nodes (forestOf pushes n e.key)).map (fun t => t.key) := by
  rw [nodes_forestOf, List.map_flatMap]
  rfl

/-- The elements in the forest of a key are those below it. -/
theorem Elements.mem_keys_iff (h : Elements pushes root) {n : ℕ} {k : κ} {l : List κ}
    (hl : Path (IsParent pushes) root k l) (hdeep : Deep pushes n l) (a : κ) :
    a ∈ (nodes (forestOf pushes n k)).map (fun t => t.key) ↔ Below (IsParent pushes) root l a := by
  induction n generalizing k l with
  | zero => exact absurd hdeep (h.not_deep_zero hl)
  | succ n ih =>
    have hchild : ∀ e ∈ childrenOf pushes k,
        (a ∈ e.key :: (nodes (forestOf pushes n e.key)).map (fun t => t.key)) ↔
          AtOrBelow (IsParent pushes) root (e.key :: l) a := by
      intro e he
      have hpath := Path.step (isParent_of_mem he) hl
      rw [List.mem_cons, ih hpath (hdeep.step _), atOrBelow_iff hpath]
    rw [keys_forestOf, List.mem_flatMap, below_iff hl]
    constructor
    · rintro ⟨e, he, ha⟩
      exact ⟨e.key, isParent_of_mem he, (hchild e he).mp ha⟩
    · rintro ⟨b, ⟨⟨e, k'⟩, hp, rfl, rfl⟩, ha⟩
      have he := mem_childrenOf.mpr hp
      exact ⟨e, he, (hchild e he).mpr ha⟩

theorem Elements.childrenOf_nodup (h : Elements pushes root) (k : κ) :
    ((childrenOf pushes k).map fun e => e.key).Nodup := by
  rw [childrenOf, List.map_map]
  exact h.distinct.sublist (List.filter_sublist.map _)

theorem Elements.keys_nodup (h : Elements pushes root) {n : ℕ} {k : κ} {l : List κ}
    (hl : Path (IsParent pushes) root k l) (hdeep : Deep pushes n l) :
    ((nodes (forestOf pushes n k)).map fun t => t.key).Nodup := by
  induction n generalizing k l with
  | zero => exact absurd hdeep (h.not_deep_zero hl)
  | succ n ih =>
    have hchild : ∀ e ∈ childrenOf pushes k, ∀ a,
        (a ∈ e.key :: (nodes (forestOf pushes n e.key)).map (fun t => t.key)) ↔
          AtOrBelow (IsParent pushes) root (e.key :: l) a := by
      intro e he a
      have hpath := Path.step (isParent_of_mem he) hl
      rw [List.mem_cons, h.mem_keys_iff hpath (hdeep.step _), atOrBelow_iff hpath]
    rw [keys_forestOf, List.nodup_flatMap]
    constructor
    · intro e he
      have hpath := Path.step (isParent_of_mem he) hl
      refine List.nodup_cons.mpr ⟨?_, ih hpath (hdeep.step _)⟩
      rw [h.mem_keys_iff hpath (hdeep.step _)]
      exact not_below_self h.rooted hpath
    · have hdistinct := List.pairwise_map.mp (h.childrenOf_nodup k)
      refine hdistinct.imp_of_mem fun {e e'} he he' hne => ?_
      intro a ha ha'
      exact hne (((hchild e he a).mp ha).unique h.rooted ((hchild e' he' a).mp ha'))

theorem Elements.siblings (h : Elements pushes root) {n : ℕ} {k : κ} {l : List κ}
    (hl : Path (IsParent pushes) root k l) (hdeep : Deep pushes n l) :
    ∀ t ∈ nodes (forestOf pushes n k),
      t.children.map label = (childrenOf pushes t.key).map label := by
  induction n generalizing k l with
  | zero => exact absurd hdeep (h.not_deep_zero hl)
  | succ n ih =>
    intro t ht
    rw [nodes_forestOf, List.mem_flatMap] at ht
    obtain ⟨e, he, ht⟩ := ht
    have hpath := Path.step (isParent_of_mem he) hl
    rcases List.mem_cons.mp ht with rfl | ht
    · cases n with
      | zero => exact absurd (hdeep.step _) (h.not_deep_zero hpath)
      | succ n => exact forestOf_labels n e.key
    · exact ih hpath (hdeep.step _) t ht

theorem Elements.isForest (h : Elements pushes root) {n : ℕ} (hn : pushes.length < n) :
    IsForest pushes root (forestOf pushes n root) where
  roots := by
    obtain ⟨m, rfl⟩ := Nat.exists_eq_succ_of_ne_zero (Nat.ne_of_gt (Nat.zero_lt_of_lt hn))
    exact forestOf_labels m root
  siblings := h.siblings .root hn
  once := h.keys_nodup .root hn
  exactly a := (h.mem_keys_iff .root hn a).trans below_root_iff

end TreeBuilders
end Gocom
