import Mathlib.Data.Fintype.EquivFin
import Mathlib.Logic.Relation

/-!
# Recursive calls that may not return

A procedure calls itself on the children of its argument. It may panic, and on a cycle it never returns.
The fuel bounds the depth of the calls.
-/

namespace Gocom

namespace FueledCalls

inductive Outcome (α : Type*) where
  | returns (a : α)
  | panics
  | runsOut

namespace Outcome

variable {α β : Type*}

def Returns : Outcome α → Prop
  | returns _ => True
  | panics | runsOut => False

def bind (o : Outcome α) (f : α → Outcome β) : Outcome β :=
  match o with
  | returns a => f a
  | panics => panics
  | runsOut => runsOut

def map (f : α → β) (o : Outcome α) : Outcome β := o.bind fun a => returns (f a)

theorem Returns.exists {o : Outcome α} (h : o.Returns) : ∃ a, o = returns a := by
  cases o with
  | returns a => exact ⟨a, rfl⟩
  | panics | runsOut => exact h.elim

theorem returns_bind_iff {o : Outcome α} {f : α → Outcome β} {p : Prop} (hf : ∀ a, (f a).Returns ↔ p) :
    (o.bind f).Returns ↔ o.Returns ∧ p := by
  cases o with
  | returns a => exact (hf a).trans (and_iff_right trivial).symm
  | panics | runsOut => exact (iff_of_eq (false_and p)).symm

theorem returns_map_iff {o : Outcome α} {f : α → β} : (o.map f).Returns ↔ o.Returns := by
  cases o <;> exact Iff.rfl

theorem bind_eq_returns_iff {o : Outcome α} {f : α → Outcome β} {b : β} :
    o.bind f = returns b ↔ ∃ a, o = returns a ∧ f a = returns b := by
  cases o with
  | returns a => simp [bind]
  | panics | runsOut => simp [bind]

theorem map_eq_returns_iff {o : Outcome α} {f : α → β} {b : β} :
    o.map f = returns b ↔ ∃ a, o = returns a ∧ f a = b := by simp [map, bind_eq_returns_iff]

/-- One call after the other; the results are put together. -/
def collect (f : β → Outcome (List α)) : List β → Outcome (List α)
  | [] => returns []
  | x :: xs => (f x).bind fun found => (collect f xs).map (found ++ ·)

theorem returns_collect_iff {f : β → Outcome (List α)} {xs : List β} :
    (collect f xs).Returns ↔ ∀ x ∈ xs, (f x).Returns := by
  induction xs with
  | nil => exact iff_of_true trivial (List.forall_mem_nil _)
  | cons x xs ih =>
    rw [collect, returns_bind_iff fun _ => returns_map_iff, ih, List.forall_mem_cons]

end Outcome

/-- One bound for what needs fuel of several things. -/
theorem exists_forall_mem_iff {β : Type*} {P : β → ℕ → Prop} (hmono : ∀ x n m, n ≤ m → P x n → P x m)
    (l : List β) : (∃ n, ∀ x ∈ l, P x n) ↔ ∀ x ∈ l, ∃ n, P x n := by
  refine ⟨fun ⟨n, hn⟩ x hx => ⟨n, hn x hx⟩, fun h => ?_⟩
  induction l with
  | nil => exact ⟨0, List.forall_mem_nil _⟩
  | cons x l ih =>
    obtain ⟨⟨n, hn⟩, hl⟩ := List.forall_mem_cons.mp h
    obtain ⟨m, hm⟩ := ih hl
    refine ⟨max n m, List.forall_mem_cons.mpr ⟨hmono x n _ (Nat.le_max_left n m) hn, fun y hy => ?_⟩⟩
    exact hmono y m _ (Nat.le_max_right n m) (hm y hy)

variable {ι α : Type*}

def call (body : (ι → Outcome α) → ι → Outcome α) : ℕ → ι → Outcome α
  | 0, _ => .runsOut
  | fuel + 1, i => body (call body fuel) i

/-- An argument is called from another one. -/
def Child (children : ι → List ι) (j i : ι) : Prop := j ∈ children i

/-- The body returns exactly where its argument is fine and the calls of the children return. -/
def Describes (body : (ι → Outcome α) → ι → Outcome α) (Valid : ι → Prop) (children : ι → List ι) : Prop :=
  ∀ (inner : ι → Outcome α) i, (body inner i).Returns ↔ Valid i ∧ ∀ j ∈ children i, (inner j).Returns

section Calls

variable {body : (ι → Outcome α) → ι → Outcome α} {Valid : ι → Prop} {children : ι → List ι}

/-- More fuel does no harm. -/
theorem returns_mono (h : Describes body Valid children) {fuel fuel' : ℕ} (hle : fuel ≤ fuel') {i : ι}
    (hret : (call body fuel i).Returns) : (call body fuel' i).Returns := by
  induction fuel generalizing fuel' i with
  | zero => exact hret.elim
  | succ fuel ih =>
    obtain ⟨m, rfl⟩ := Nat.exists_eq_add_of_le' hle
    obtain ⟨hvalid, hchildren⟩ := (h _ i).mp hret
    refine (h _ i).mpr ⟨hvalid, fun j hj => ih ?_ (hchildren j hj)⟩
    exact Nat.le_add_left fuel m

/-- A call returns exactly when no chain of calls from it goes on for ever and every argument on the way
is fine. -/
theorem exists_returns_iff (h : Describes body Valid children) {i : ι} :
    (∃ fuel, (call body fuel i).Returns) ↔
      Acc (Child children) i ∧ ∀ j, Relation.ReflTransGen (Child children) j i → Valid j := by
  constructor
  · rintro ⟨fuel, hret⟩
    induction fuel generalizing i with
    | zero => exact hret.elim
    | succ fuel ih =>
      obtain ⟨hvalid, hchildren⟩ := (h _ i).mp hret
      refine ⟨.intro i fun j hj => (ih (hchildren j hj)).1, fun j hj => ?_⟩
      rcases Relation.ReflTransGen.cases_tail hj with rfl | ⟨k, hjk, hk⟩
      · exact hvalid
      · exact (ih (hchildren k hk)).2 j hjk
  · rintro ⟨hacc, hvalid⟩
    induction hacc with
    | intro i _ ih =>
      have hall : ∀ j ∈ children i, ∃ fuel, (call body fuel j).Returns := fun j hj =>
        ih j hj fun k hk => hvalid k (hk.tail hj)
      have hmono : ∀ j n m, n ≤ m → (call body n j).Returns → (call body m j).Returns :=
        fun _ _ _ hle => returns_mono h hle
      obtain ⟨fuel, hfuel⟩ := (exists_forall_mem_iff hmono (children i)).mpr hall
      exact ⟨fuel + 1, (h _ i).mpr ⟨hvalid i .refl, hfuel⟩⟩

/-- Among finitely many arguments only a cycle goes on for ever. -/
theorem acc_iff_acyclic [Finite ι] {i : ι} :
    Acc (Child children) i ↔
      ∀ j, Relation.ReflTransGen (Child children) j i → ¬ Relation.TransGen (Child children) j j := by
  constructor
  · intro hacc j hj hloop
    have hbelow : Acc (Child children) j := by
      rcases Relation.reflTransGen_iff_eq_or_transGen.mp hj with rfl | hj
      · exact hacc
      · exact hacc.inv_of_transGen hj
    have hnot : ∀ k, Acc (Relation.TransGen (Child children)) k → ¬ Relation.TransGen (Child children) k k := by
      intro k hk
      induction hk with
      | intro k _ ih => exact fun hself => ih k hself hself
    exact hnot j hbelow.transGen hloop
  · intro hacyclic
    -- the calls below the argument, restricted to which the relation has no cycle
    let r : {j // Relation.ReflTransGen (Child children) j i} → {j // Relation.ReflTransGen (Child children) j i} →
      Prop := fun j k => Relation.TransGen (Child children) j.1 k.1
    have htrans : IsTrans _ r := ⟨fun _ _ _ => Relation.TransGen.trans⟩
    have hirrefl : Std.Irrefl r := ⟨fun j => hacyclic j.1 j.2⟩
    have hwf : WellFounded r := Finite.wellFounded_of_trans_of_irrefl r
    have hacc : ∀ k : {j // Relation.ReflTransGen (Child children) j i}, Acc (Child children) k.1 := by
      intro k
      induction hwf.apply k with
      | intro k _ ih =>
        refine .intro k.1 fun j hj => ?_
        exact ih ⟨j, .head hj k.2⟩ (.single hj)
    exact hacc ⟨i, .refl⟩

end Calls

end FueledCalls
end Gocom
