import Gocom.TreeForests
import Mathlib.Logic.Function.Basic

/-!
# The builder with pointers

The children of an element are copied when they are set. By then the recursion has been through
them, so they are copied with all that grows under them, and no element is touched again after it
was copied.
-/

namespace Gocom
namespace TreeBuilders
open RootedPaths

variable {κ β π : Type*} [DecidableEq κ]

/-- The elements that the pointers point to. -/
def pointees (heap : π → TreeData κ β) (pushes : List (π × κ)) : List (TreeData κ β × κ) :=
  pushes.map fun p => (heap p.1, p.2)

theorem childrenOf_pointees (heap : π → TreeData κ β) (pushes : List (π × κ)) (k : κ) :
    childrenOf (pointees heap pushes) k = (childrenOf pushes k).map heap := by
  rw [childrenOf, childrenOf, pointees, List.filter_map, List.map_map, List.map_map]
  rfl

variable (heap₀ : π → TreeData κ β) (pushes : List (π × κ)) (root : κ)

/-- An element with all that grows under it, to some depth. -/
def grown (n : ℕ) (q : π) : TreeData κ β :=
  { heap₀ q with children := forestOf (pointees heap₀ pushes) n (heap₀ q).key }

/-- The element is below the place with this path. -/
def Under (l : List κ) (q : π) : Prop :=
  Below (IsParent (pointees heap₀ pushes)) root l (heap₀ q).key

def Within (l : List κ) (q : π) : Prop :=
  AtOrBelow (IsParent (pointees heap₀ pushes)) root l (heap₀ q).key

/-- What becomes of the heap where children of one place get their own children: they are grown,
and what is not within them is as it was. -/
structure Grows (n : ℕ) (l : List κ) (children : List π) (heap heap' : π → TreeData κ β) : Prop where
  keys : ∀ q, (heap' q).key = (heap₀ q).key
  grown : ∀ e ∈ children, heap' e = grown heap₀ pushes n e
  frame : ∀ q, (∀ e ∈ children, ¬ Within heap₀ pushes root ((heap₀ e).key :: l) q) → heap' q = heap q

/-- And where a place gets the whole forest. -/
structure Grown (n : ℕ) (k : κ) (l : List κ) (heap heap' : π → TreeData κ β) : Prop where
  keys : ∀ q, (heap' q).key = (heap₀ q).key
  forest : (childrenOf pushes k).map heap' = forestOf (pointees heap₀ pushes) n k
  frame : ∀ q, ¬ Under heap₀ pushes root l q → heap' q = heap q

variable {heap₀ pushes root} {heap : π → TreeData κ β} {l : List κ} {n : ℕ}

theorem isParent_of_mem_pushes {e : π} {k : κ} (he : e ∈ childrenOf pushes k) :
    IsParent (pointees heap₀ pushes) (heap₀ e).key k :=
  ⟨(heap₀ e, k), List.mem_map.mpr ⟨(e, k), mem_childrenOf.mp he, rfl⟩, rfl, rfl⟩

theorem Elements.children_eq_nil (h : Elements (pointees heap₀ pushes) root) {e : π} {k : κ}
    (he : e ∈ childrenOf pushes k) : (heap₀ e).children = [] :=
  h.leaves (heap₀ e, k) (List.mem_map.mpr ⟨(e, k), mem_childrenOf.mp he, rfl⟩)

theorem Elements.pointers_nodup (h : Elements (pointees heap₀ pushes) root) (k : κ) :
    ((childrenOf pushes k).map fun e => (heap₀ e).key).Nodup := by
  have hnodup := h.childrenOf_nodup k
  rw [childrenOf_pointees, List.map_map] at hnodup
  exact hnodup

/-- Growing one child after the other. -/
theorem Grows.cons (h : Elements (pointees heap₀ pushes) root) {k : κ} {e : π} {es : List π}
    {heap₁ heap₂ : π → TreeData κ β} (hl : Path (IsParent (pointees heap₀ pushes)) root k l)
    (hparent : ∀ e' ∈ e :: es, IsParent (pointees heap₀ pushes) (heap₀ e').key k)
    (hnodup : ((e :: es).map fun e => (heap₀ e).key).Nodup)
    (h₁ : Grows heap₀ pushes root n l [e] heap heap₁)
    (h₂ : Grows heap₀ pushes root n l es heap₁ heap₂) :
    Grows heap₀ pushes root n l (e :: es) heap heap₂ := by
  obtain ⟨hnotMem, -⟩ := List.nodup_cons.mp hnodup
  refine ⟨h₂.keys, fun e' he' => ?_, fun q hq => ?_⟩
  · rcases List.mem_cons.mp he' with rfl | he'
    · have hframe : ∀ e'' ∈ es, ¬ Within heap₀ pushes root ((heap₀ e'').key :: l) e' := by
        intro e'' he'' hwithin
        have hpath := Path.step (hparent e' List.mem_cons_self) hl
        have hself : Within heap₀ pushes root ((heap₀ e').key :: l) e' :=
          (atOrBelow_iff hpath).mpr (.inl rfl)
        exact hnotMem (List.mem_map.mpr ⟨e'', he'', hwithin.unique h.rooted hself⟩)
      rw [h₂.frame e' hframe, h₁.grown e' (List.mem_singleton_self e')]
    · exact h₂.grown e' he'
  · obtain ⟨hhead, htail⟩ := List.forall_mem_cons.mp hq
    rw [h₂.frame q htail, h₁.frame q (List.forall_mem_singleton.mpr hhead)]

variable [DecidableEq π]

/-- The step of the loop over the children. -/
def childStep (data : GoMap κ (List π)) (fuel : ℕ) (state : List π × (π → TreeData κ β)) (child : π) :
    Option (List π × (π → TreeData κ β)) :=
  (getTreeData data fuel (state.2 child).key state.2).map fun r =>
    (state.1 ++ [child], if 0 < r.1.length then setChildren r.2 child r.1 else r.2)

omit [DecidableEq κ] in
theorem getTreeData_succ (data : GoMap κ (List π)) (fuel : ℕ) (k : κ) (heap : π → TreeData κ β) :
    getTreeData data (fuel + 1) k heap =
      match data k with
      | none => some ([], heap)
      | some children => children.foldlM (childStep data fuel) ([], heap) := rfl

/-- One child is grown once there is a forest under it. -/
theorem Grown.child (h : Elements (pointees heap₀ pushes) root) {heap' : π → TreeData κ β} {e : π}
    {k : κ} (he : e ∈ childrenOf pushes k) (hl : Path (IsParent (pointees heap₀ pushes)) root k l)
    (hkept : heap e = heap₀ e)
    (hgrown : Grown heap₀ pushes root n (heap₀ e).key ((heap₀ e).key :: l) heap heap') :
    Grows heap₀ pushes root n l [e] heap
      (if 0 < (childrenOf pushes (heap₀ e).key).length then
        setChildren heap' e (childrenOf pushes (heap₀ e).key) else heap') := by
  have hparent : IsParent (pointees heap₀ pushes) (heap₀ e).key k := isParent_of_mem_pushes he
  have hpath := Path.step hparent hl
  have hself : heap' e = heap₀ e := (hgrown.frame e (not_below_self h.rooted hpath)).trans hkept
  have hset : (if 0 < (childrenOf pushes (heap₀ e).key).length then
        setChildren heap' e (childrenOf pushes (heap₀ e).key) else heap') =
      Function.update heap' e (grown heap₀ pushes n e) := by
    split_ifs with hlen
    · rw [setChildren, grown, hself, hgrown.forest]
    · have hnone : childrenOf pushes (heap₀ e).key = [] :=
        List.eq_nil_of_length_eq_zero (Nat.eq_zero_of_not_pos hlen)
      have hforest := hgrown.forest
      rw [hnone] at hforest
      have hleaf : grown heap₀ pushes n e = heap' e := by
        rw [grown, ← hforest, hself, List.map_nil, ← h.children_eq_nil he]
        cases heap₀ e
        rfl
      rw [hleaf, Function.update_eq_self]
  rw [hset]
  refine ⟨fun q => ?_, fun e' he' => ?_, fun q hq => ?_⟩
  · rcases eq_or_ne q e with rfl | hne
    · rw [Function.update_self]
      rfl
    · rw [Function.update_of_ne hne, hgrown.keys]
  · rw [List.mem_singleton.mp he', Function.update_self]
  · have hnot := hq e (List.mem_singleton_self e)
    have hne : q ≠ e := by
      rintro rfl
      exact hnot ((atOrBelow_iff hpath).mpr (.inl rfl))
    rw [Function.update_of_ne hne]
    exact hgrown.frame q fun hunder => hnot hunder.atOrBelow

/-- The loop grows all children, if the recursion gives the forest under each of them. -/
theorem childStep_foldlM (h : Elements (pointees heap₀ pushes) root) {k : κ} {fuel : ℕ}
    (hl : Path (IsParent (pointees heap₀ pushes)) root k l)
    (hrec : ∀ e ∈ childrenOf pushes k, ∀ heap : π → TreeData κ β,
      (∀ q, (heap q).key = (heap₀ q).key) →
      (∀ q, Within heap₀ pushes root ((heap₀ e).key :: l) q → heap q = heap₀ q) →
      ∃ heap', getTreeData (pushAll pushes) fuel (heap₀ e).key heap =
          some (childrenOf pushes (heap₀ e).key, heap') ∧
        Grown heap₀ pushes root fuel (heap₀ e).key ((heap₀ e).key :: l) heap heap')
    {es : List π} (hes : es ⊆ childrenOf pushes k)
    (hnodup : (es.map fun e => (heap₀ e).key).Nodup) (done : List π) (heap : π → TreeData κ β)
    (hkeys : ∀ q, (heap q).key = (heap₀ q).key)
    (hfresh : ∀ e ∈ es, ∀ q, Within heap₀ pushes root ((heap₀ e).key :: l) q → heap q = heap₀ q) :
    ∃ heap', es.foldlM (childStep (pushAll pushes) fuel) (done, heap) = some (done ++ es, heap') ∧
      Grows heap₀ pushes root fuel l es heap heap' := by
  induction es generalizing done heap with
  | nil =>
    refine ⟨heap, by simp, hkeys, ?_, fun q _ => rfl⟩
    exact List.forall_mem_nil _
  | cons e es ih =>
    obtain ⟨he, hrest⟩ := List.cons_subset.mp hes
    obtain ⟨hnotMem, hnodup'⟩ := List.nodup_cons.mp hnodup
    obtain ⟨hfresh_e, hfresh_es⟩ := List.forall_mem_cons.mp hfresh
    obtain ⟨heap', hread, hgrown⟩ := hrec e he heap hkeys hfresh_e
    have hparent : IsParent (pointees heap₀ pushes) (heap₀ e).key k := isParent_of_mem_pushes he
    have hpath := Path.step hparent hl
    have hself : Within heap₀ pushes root ((heap₀ e).key :: l) e :=
      (atOrBelow_iff hpath).mpr (.inl rfl)
    have hchild := hgrown.child h he hl (hfresh_e e hself)
    obtain ⟨heap₁, hstep, hgrows⟩ : ∃ heap₁,
        childStep (pushAll pushes) fuel (done, heap) e = some (done ++ [e], heap₁) ∧
          Grows heap₀ pushes root fuel l [e] heap heap₁ := by
      refine ⟨_, ?_, hchild⟩
      rw [childStep, hkeys e, hread, Option.map_some]
    have hfresh₁ : ∀ e' ∈ es, ∀ q, Within heap₀ pushes root ((heap₀ e').key :: l) q →
        heap₁ q = heap₀ q := by
      intro e' he' q hq
      have hother : ∀ e'' ∈ [e], ¬ Within heap₀ pushes root ((heap₀ e'').key :: l) q := by
        intro e'' he'' hwithin
        rw [List.mem_singleton.mp he''] at hwithin
        exact hnotMem (List.mem_map.mpr ⟨e', he', hq.unique h.rooted hwithin⟩)
      rw [hgrows.frame q hother, hfresh_es e' he' q hq]
    obtain ⟨heap₂, hfold, hgrows'⟩ := ih hrest hnodup' (done ++ [e]) heap₁ hgrows.keys hfresh₁
    refine ⟨heap₂, ?_, hgrows.cons h hl (fun e' he' => isParent_of_mem_pushes (hes he')) hnodup hgrows'⟩
    rw [List.foldlM_cons, hstep]
    exact hfold.trans (by rw [List.append_assoc, List.singleton_append])

/-- The builder with pointers makes the forest of the elements. -/
theorem getTreeData_grown (h : Elements (pointees heap₀ pushes) root) {k : κ} {fuel : ℕ}
    (hl : Path (IsParent (pointees heap₀ pushes)) root k l)
    (hdeep : Deep (pointees heap₀ pushes) fuel l) (heap : π → TreeData κ β)
    (hkeys : ∀ q, (heap q).key = (heap₀ q).key)
    (hfresh : ∀ q, Under heap₀ pushes root l q → heap q = heap₀ q) :
    ∃ heap', getTreeData (pushAll pushes) fuel k heap = some (childrenOf pushes k, heap') ∧
      Grown heap₀ pushes root fuel k l heap heap' := by
  induction fuel generalizing k l heap with
  | zero => exact absurd hdeep (h.not_deep_zero hl)
  | succ fuel ih =>
    have hrec : ∀ e ∈ childrenOf pushes k, ∀ heap : π → TreeData κ β,
        (∀ q, (heap q).key = (heap₀ q).key) →
        (∀ q, Within heap₀ pushes root ((heap₀ e).key :: l) q → heap q = heap₀ q) →
        ∃ heap', getTreeData (pushAll pushes) fuel (heap₀ e).key heap =
            some (childrenOf pushes (heap₀ e).key, heap') ∧
          Grown heap₀ pushes root fuel (heap₀ e).key ((heap₀ e).key :: l) heap heap' :=
      fun e he heap hkeys hwithin => ih (.step (isParent_of_mem_pushes he) hl) (hdeep.step _) heap hkeys
        fun q hq => hwithin q hq.atOrBelow
    have hchildren : ∀ e ∈ childrenOf pushes k, ∀ q,
        Within heap₀ pushes root ((heap₀ e).key :: l) q → heap q = heap₀ q :=
      fun e he q hq => hfresh q ((below_iff hl).mpr ⟨_, isParent_of_mem_pushes he, hq⟩)
    obtain ⟨heap', hfold, hgrows⟩ := childStep_foldlM h hl hrec (List.Subset.refl _)
      (h.pointers_nodup k) [] heap hkeys hchildren
    refine ⟨heap', ?_, hgrows.keys, ?_, fun q hq => hgrows.frame q fun e he hwithin => ?_⟩
    · rw [getTreeData_succ, pushAll_apply]
      by_cases hnone : childrenOf pushes k = []
      · rw [hnone] at hfold
        rw [if_pos hnone, hnone]
        exact hfold
      · rw [if_neg hnone]
        exact hfold
    · rw [forestOf, childrenOf_pointees, List.map_map]
      exact List.map_congr_left hgrows.grown
    · exact hq ((below_iff hl).mpr ⟨_, isParent_of_mem_pushes he, hwithin⟩)

/-- Both builders end, with the same forest of what was pushed. -/
theorem getTreeData_forest (pushes : List (TreeData κ β × κ)) (root : κ) (h : Elements pushes root) :
    ∃ forest, IsForest pushes root forest ∧
      (∀ fuel, pushes.length < fuel →
        builtinGetTreeData (pushAll pushes) fuel root = some forest) ∧
      ∀ (heap : π → TreeData κ β) (pointers : List (π × κ)), pointees heap pointers = pushes →
        ∀ fuel, pushes.length < fuel → ∃ heap',
          getTreeData (pushAll pointers) fuel root heap =
              some (childrenOf pointers root, heap') ∧
            (childrenOf pointers root).map heap' = forest := by
  have hdeep : ∀ fuel, pushes.length < fuel → Deep pushes fuel [] := fun fuel hfuel => hfuel
  have henough := Nat.lt_succ_self pushes.length
  refine ⟨forestOf pushes (pushes.length + 1) root, h.isForest henough, fun fuel hfuel => ?_, ?_⟩
  · rw [h.builtinGetTreeData_eq .root (hdeep fuel hfuel),
      h.forestOf_eq .root (hdeep fuel hfuel) (hdeep _ henough)]
  · rintro heap pointers rfl fuel hfuel
    obtain ⟨heap', hread, hgrown⟩ := getTreeData_grown h .root (hdeep fuel hfuel) heap
      (fun _ => rfl) fun _ _ => rfl
    refine ⟨heap', hread, hgrown.forest.trans ?_⟩
    exact h.forestOf_eq .root (hdeep fuel hfuel) (hdeep _ henough)

/-- A child before its parent, and two elements that are each other's parent. -/
def mixedPushes : List (TreeData ℕ Unit × ℕ) :=
  [(⟨2, asciiBytes "b", [], ()⟩, 1), (⟨1, asciiBytes "a", [], ()⟩, 0),
    (⟨7, asciiBytes "x", [], ()⟩, 8), (⟨8, asciiBytes "y", [], ()⟩, 7)]

theorem getTreeData_forest_mixed :
    ∃ forest, IsForest mixedPushes 0 forest ∧
      (∀ fuel, mixedPushes.length < fuel →
        builtinGetTreeData (pushAll mixedPushes) fuel 0 = some forest) ∧
      ∀ (heap : ℕ → TreeData ℕ Unit) (pointers : List (ℕ × ℕ)), pointees heap pointers = mixedPushes →
        ∀ fuel, mixedPushes.length < fuel → ∃ heap',
          getTreeData (pushAll pointers) fuel 0 heap = some (childrenOf pointers 0, heap') ∧
            (childrenOf pointers 0).map heap' = forest :=
  getTreeData_forest mixedPushes 0 {
    distinct := by decide
    leaves := by simp [mixedPushes]
    root_notMem := by decide }

end TreeBuilders
end Gocom
