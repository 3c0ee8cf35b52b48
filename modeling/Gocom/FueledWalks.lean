import Mathlib.Data.Nat.Notation
import Mathlib.Tactic.TypeStar

/-!
# Walks that may not end

A visit of a node gives results and further nodes to visit, in order. The walk collects the results
of all of them; on a cycle it never ends. The fuel bounds the depth of the visits.
-/

namespace Gocom

namespace FueledWalk

variable {α β : Type*}

/-- The results of a list, with those of the nodes in it. -/
def walkAll (walk : α → Option (List β)) : List (β ⊕ α) → Option (List β)
  | [] => some []
  | .inl b :: l => (walkAll walk l).map (b :: ·)
  | .inr y :: l => (walk y).bind fun found => (walkAll walk l).map (found ++ ·)

def walk (visit : α → List (β ⊕ α)) : ℕ → α → Option (List β)
  | 0, _ => none
  | fuel + 1, x => walkAll (walk visit fuel) (visit x)

/-- The node is visited from another one. -/
def Child (visit : α → List (β ⊕ α)) (y x : α) : Prop := .inr y ∈ visit x

/-- No path of visits goes on for ever. -/
def Ends (visit : α → List (β ⊕ α)) (x : α) : Prop := Acc (Child visit) x

inductive Finds (visit : α → List (β ⊕ α)) (b : β) : α → Prop where
  | here {x : α} (h : .inl b ∈ visit x) : Finds visit b x
  | inner {x y : α} (h : Child visit y x) (found : Finds visit b y) : Finds visit b x

theorem isSome_walkAll {walk : α → Option (List β)} {l : List (β ⊕ α)} :
    (walkAll walk l).isSome ↔ ∀ y, .inr y ∈ l → (walk y).isSome := by
  induction l with
  | nil => exact iff_of_true rfl fun y hy => absurd hy List.not_mem_nil
  | cons s l ih =>
    cases s with
    | inl b =>
      rw [walkAll, Option.isSome_map, ih]
      exact forall_congr' fun y => by rw [List.mem_cons, or_iff_right Sum.inr_ne_inl]
    | inr z =>
      rw [walkAll, Option.isSome_bind]
      cases hz : walk z with
      | none =>
        refine iff_of_false Bool.false_ne_true fun h => ?_
        have hsome := h z List.mem_cons_self
        rw [hz] at hsome
        cases hsome
      | some found =>
        rw [Option.any_some, Option.isSome_map, ih]
        refine ⟨fun h y hy => ?_, fun h y hy => h y (List.mem_cons_of_mem _ hy)⟩
        rcases List.mem_cons.mp hy with heq | hy
        · rw [Sum.inr.inj heq, hz]
          rfl
        · exact h y hy

theorem mem_of_walkAll_eq_some {walk : α → Option (List β)} {l : List (β ⊕ α)} {out : List β}
    (h : walkAll walk l = some out) (b : β) :
    b ∈ out ↔ .inl b ∈ l ∨ ∃ y found, .inr y ∈ l ∧ walk y = some found ∧ b ∈ found := by
  induction l generalizing out with
  | nil =>
    obtain rfl := Option.some.inj h
    simp
  | cons s l ih =>
    cases s with
    | inl c =>
      obtain ⟨rest, hrest, rfl⟩ := Option.map_eq_some_iff.mp h
      simp [ih hrest, or_assoc]
    | inr z =>
      obtain ⟨found, hfound, h⟩ := Option.bind_eq_some_iff.mp h
      obtain ⟨rest, hrest, rfl⟩ := Option.map_eq_some_iff.mp h
      rw [List.mem_append, ih hrest]
      simp only [List.mem_cons, reduceCtorEq, false_or, Sum.inr.injEq]
      constructor
      · rintro (hb | hb | ⟨y, found', hy, hwalk, hb⟩)
        · exact .inr ⟨z, found, .inl rfl, hfound, hb⟩
        · exact .inl hb
        · exact .inr ⟨y, found', .inr hy, hwalk, hb⟩
      · rintro (hb | ⟨y, found', rfl | hy, hwalk, hb⟩)
        · exact .inr (.inl hb)
        · obtain rfl := Option.some.inj (hfound.symm.trans hwalk)
          exact .inl hb
        · exact .inr (.inr ⟨y, found', hy, hwalk, hb⟩)

theorem walkAll_congr {v w : α → Option (List β)} {l : List (β ⊕ α)} {out : List β}
    (hvw : ∀ y, .inr y ∈ l → ∀ found, v y = some found → w y = some found) (h : walkAll v l = some out) :
    walkAll w l = some out := by
  induction l generalizing out with
  | nil => exact h
  | cons s l ih =>
    have hrest := fun y hy => hvw y (List.mem_cons_of_mem s hy)
    cases s with
    | inl b =>
      obtain ⟨rest, hl, rfl⟩ := Option.map_eq_some_iff.mp h
      rw [walkAll, ih hrest hl]
      rfl
    | inr y =>
      obtain ⟨found, hy, h⟩ := Option.bind_eq_some_iff.mp h
      obtain ⟨rest, hl, rfl⟩ := Option.map_eq_some_iff.mp h
      rw [walkAll, hvw y List.mem_cons_self found hy, Option.bind_some, ih hrest hl]
      rfl

section Walks

variable {visit : α → List (β ⊕ α)} {x : α} {out : List β}

/-- More fuel changes nothing. -/
theorem walk_mono {fuel fuel' : ℕ} (hle : fuel ≤ fuel') (h : walk visit fuel x = some out) :
    walk visit fuel' x = some out := by
  induction fuel generalizing fuel' x out with
  | zero => cases h
  | succ fuel ih =>
    obtain ⟨m, rfl⟩ := Nat.exists_eq_add_of_le' hle
    refine walkAll_congr (fun y _ found hy => ih ?_ hy) h
    exact Nat.le_add_left fuel m

theorem walk_unique {fuel fuel' : ℕ} {out' : List β} (h : walk visit fuel x = some out)
    (h' : walk visit fuel' x = some out') : out = out' := by
  have hmax := walk_mono (Nat.le_max_left fuel fuel') h
  rw [walk_mono (Nat.le_max_right fuel fuel') h'] at hmax
  exact (Option.some.inj hmax).symm

theorem ends_of_walk {fuel : ℕ} (h : walk visit fuel x = some out) : Ends visit x := by
  induction fuel generalizing x out with
  | zero => cases h
  | succ fuel ih =>
    refine .intro x fun y hy => ?_
    have hsome := isSome_walkAll.mp (Option.isSome_of_eq_some h) y hy
    obtain ⟨found, hfound⟩ := Option.isSome_iff_exists.mp hsome
    exact ih hfound

/-- One bound for the fuel of all nodes of a list. -/
theorem exists_fuel_for_all (l : List (β ⊕ α)) (h : ∀ y, .inr y ∈ l → ∃ fuel, (walk visit fuel y).isSome) :
    ∃ fuel, ∀ y, .inr y ∈ l → (walk visit fuel y).isSome := by
  induction l with
  | nil => exact ⟨0, fun y hy => absurd hy List.not_mem_nil⟩
  | cons s l ih =>
    obtain ⟨fuel, hfuel⟩ := ih fun y hy => h y (List.mem_cons_of_mem s hy)
    have hgrow : ∀ {n m : ℕ} {y : α}, n ≤ m → (walk visit n y).isSome → (walk visit m y).isSome := by
      intro n m y hnm hsome
      obtain ⟨found, hfound⟩ := Option.isSome_iff_exists.mp hsome
      exact Option.isSome_of_eq_some (walk_mono hnm hfound)
    cases s with
    | inl b => exact ⟨fuel, fun y hy => hfuel y ((List.mem_cons.mp hy).resolve_left Sum.inr_ne_inl)⟩
    | inr z =>
      obtain ⟨m, hm⟩ := h z List.mem_cons_self
      refine ⟨max m fuel, fun y hy => ?_⟩
      rcases List.mem_cons.mp hy with heq | hy
      · obtain rfl := Sum.inr.inj heq
        exact hgrow (Nat.le_max_left m fuel) hm
      · exact hgrow (Nat.le_max_right m fuel) (hfuel y hy)

/-- With enough fuel a walk that ends gives its results. -/
theorem Ends.exists_walk (h : Ends visit x) : ∃ fuel out, walk visit fuel x = some out := by
  have hsome : ∃ fuel, (walk visit fuel x).isSome := by
    induction h with
    | intro x _ ih =>
      obtain ⟨fuel, hfuel⟩ := exists_fuel_for_all (visit x) ih
      exact ⟨fuel + 1, isSome_walkAll.mpr hfuel⟩
  obtain ⟨fuel, hfuel⟩ := hsome
  obtain ⟨out, hout⟩ := Option.isSome_iff_exists.mp hfuel
  exact ⟨fuel, out, hout⟩

theorem mem_walk_iff {fuel : ℕ} (h : walk visit fuel x = some out) (b : β) : b ∈ out ↔ Finds visit b x := by
  induction fuel generalizing x out with
  | zero => cases h
  | succ fuel ih =>
    rw [mem_of_walkAll_eq_some h]
    constructor
    · rintro (hb | ⟨y, found, hy, hwalk, hb⟩)
      · exact .here hb
      · exact .inner hy ((ih hwalk).mp hb)
    · intro hfinds
      cases hfinds with
      | here hb => exact .inl hb
      | @inner _ y hy hb =>
        obtain ⟨found, hfound⟩ := Option.isSome_iff_exists.mp (isSome_walkAll.mp (Option.isSome_of_eq_some h) y hy)
        exact .inr ⟨y, found, hy, hfound, (ih hfound).mpr hb⟩

end Walks

end FueledWalk
end Gocom
