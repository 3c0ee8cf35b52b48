import Gocom.GoMaps
import Gocom.GoStrings

/-!
# Building trees

Elements are pushed under the keys of their parents, in any order, and a forest is built by going
down from the key of its root. One builder works with values. The other works with pointers: it
sets the children of what it is given, where it copies the elements that its pointers point to.
-/

namespace Gocom

/-- An element with its children. Keys are such that maps can have them. -/
structure TreeData (κ β : Type*) where
  key : κ
  title : Bytes
  children : List (TreeData κ β)
  bindData : β

namespace TreeBuilders

variable {κ β : Type*} [DecidableEq κ]

section Push
variable {ε : Type*}

/-- `Push` of both builders. -/
def pushElement (data : GoMap κ (List ε)) (treeElement : ε) (parentKey : κ) : GoMap κ (List ε) :=
  match data parentKey with
  | some children => data.store parentKey (children ++ [treeElement])
  | none => data.store parentKey [treeElement]

/-- A builder after these calls of `Push`. -/
def pushAll (pushes : List (ε × κ)) : GoMap κ (List ε) :=
  pushes.foldl (fun data p => pushElement data p.1 p.2) .empty

end Push

/-- `GetTreeData` of the builder with values, unless the recursion is deeper than `fuel`. -/
def builtinGetTreeData (data : GoMap κ (List (TreeData κ β))) :
    ℕ → κ → Option (List (TreeData κ β))
  | 0, _ => none
  | fuel + 1, parentKey =>
    match data parentKey with
    | none => some []
    | some children => children.mapM fun child =>
      (builtinGetTreeData data fuel child.key).map fun childTreeData =>
        if 0 < childTreeData.length then { child with children := childTreeData } else child

section Pointers
variable {π : Type*} [DecidableEq π]

/-- `SetChildren` of an element, with pointers to elements. -/
def setChildren (heap : π → TreeData κ β) (td : π) (children : List π) : π → TreeData κ β :=
  Function.update heap td { heap td with children := children.map heap }

/-- `GetTreeData` of the builder with pointers. -/
def getTreeData (data : GoMap κ (List π)) :
    ℕ → κ → (π → TreeData κ β) → Option (List π × (π → TreeData κ β))
  | 0, _, _ => none
  | fuel + 1, parentKey, heap =>
    match data parentKey with
    | none => some ([], heap)
    | some children => children.foldlM (fun (treeData, heap) child =>
        (getTreeData data fuel (heap child).key heap).map fun (childTreeData, heap) =>
          (treeData ++ [child],
            if 0 < childTreeData.length then setChildren heap child childTreeData else heap))
        ([], heap)

end Pointers

/-! ## What was pushed -/

section Pushed
variable {ε : Type*}

/-- The elements pushed under a key. -/
def childrenOf (pushes : List (ε × κ)) (parentKey : κ) : List ε :=
  (pushes.filter (·.2 = parentKey)).map Prod.fst

theorem pushElement_eq (data : GoMap κ (List ε)) (treeElement : ε) (parentKey : κ) :
    pushElement data treeElement parentKey = data.appendTo parentKey treeElement := by
  rw [pushElement, GoMap.appendTo]
  cases data parentKey <;> rfl

theorem pushAll_apply (pushes : List (ε × κ)) (parentKey : κ) :
    pushAll pushes parentKey =
      if childrenOf pushes parentKey = [] then none else some (childrenOf pushes parentKey) := by
  have hfold : pushAll pushes =
      pushes.foldl (fun data p => data.appendTo p.2 p.1) .empty := by
    rw [pushAll]
    congr 1
    funext data p
    exact pushElement_eq data p.1 p.2
  rw [hfold, GoMap.foldl_appendTo, childrenOf]
  cases hfilter : pushes.filter (·.2 = parentKey) with
  | nil =>
    have hnone : pushes.any (·.2 = parentKey) = false := by simpa using hfilter
    simp [hnone]
  | cons p rest =>
    have hmem : p ∈ pushes.filter (·.2 = parentKey) := by simp [hfilter]
    have hany : pushes.any (·.2 = parentKey) = true :=
      List.any_eq_true.mpr ⟨p, List.mem_filter.mp hmem⟩
    simp [hany]

end Pushed

end TreeBuilders
end Gocom
