import Mathlib.Data.List.Basic
import Mathlib.Tactic.TypeStar

/-!
# Joined pairs

Pairs of words are written with a sign between key and value and another sign between the pairs. No
sign is escaped, so that a text can be read in several ways. A reading has its keys in order, no
reserved key and no empty value.
-/

namespace Gocom
namespace JoinedPairs

variable {α : Type*} (amp eq : α)

def piece (p : List α × List α) : List α := p.1 ++ eq :: p.2

def text : List (List α × List α) → List α
  | [] => []
  | [p] => piece eq p
  | p :: q :: rest => piece eq p ++ amp :: text (q :: rest)

structure Reading (r : List α → List α → Prop) (reserved : List α)
    (pairs : List (List α × List α)) : Prop where
  ordered : (pairs.map Prod.fst).Pairwise r
  named : ∀ p ∈ pairs, p.1 ≠ reserved
  valued : ∀ p ∈ pairs, p.2 ≠ []

/-- At most one pair, and no other sign in it at which it could be cut. -/
structure Indivisible (reserved : List α) (pairs : List (List α × List α)) : Prop where
  single : pairs.length ≤ 1
  key : ∀ p ∈ pairs, ∀ x y, p.1 = x ++ eq :: y → x = reserved
  value : ∀ p ∈ pairs, ∀ x y, p.2 = x ++ eq :: y → y = []

variable {amp eq} {r : List α → List α → Prop} {reserved : List α}

theorem text_cons_ne_nil (p : List α × List α) (rest : List (List α × List α)) :
    text amp eq (p :: rest) ≠ [] := by
  cases rest <;> simp [text, piece]

/-- A sign stands before each pair but the first. -/
theorem text_cons (p : List α × List α) (rest : List (List α × List α)) :
    text amp eq (p :: rest) = piece eq p ++ rest.flatMap fun q => amp :: piece eq q := by
  induction rest generalizing p with
  | nil => simp [text]
  | cons q rest ih => rw [text, ih q, List.flatMap_cons, List.cons_append]

/-- Two neighbouring pairs are also one, whose value holds the second. -/
theorem text_merge (p q : List α × List α) (rest : List (List α × List α)) :
    text amp eq ((p.1, p.2 ++ amp :: piece eq q) :: rest) = text amp eq (p :: q :: rest) := by
  cases rest <;> simp [text, piece]

variable (amp eq) in
/-- A text of several pairs is also one pair, with the sign in its value. -/
theorem text_eq_piece (p q : List α × List α) (rest : List (List α × List α)) (hq : q.2 ≠ []) :
    ∃ x y, text amp eq (p :: q :: rest) = piece eq (p.1, x ++ eq :: y) ∧ y ≠ [] := by
  cases rest with
  | nil => exact ⟨p.2 ++ amp :: q.1, q.2, by simp [text, piece], hq⟩
  | cons s rest =>
    exact ⟨p.2 ++ amp :: q.1, q.2 ++ amp :: text amp eq (s :: rest), by simp [text, piece], by simp⟩

/-- A piece that cannot be cut elsewhere is read in one way. -/
theorem piece_inj {p : List α × List α} {k v : List α}
    (hkey : ∀ x y, p.1 = x ++ eq :: y → x = reserved) (hvalue : ∀ x y, p.2 = x ++ eq :: y → y = [])
    (hk : k ≠ reserved) (hv : v ≠ []) (h : piece eq (k, v) = piece eq p) : (k, v) = p := by
  rcases List.append_eq_append_iff.mp h with ⟨x, hx, hrest⟩ | ⟨x, hx, hrest⟩
  · -- the key of `p` begins with `k`
    cases x with
    | nil =>
      obtain ⟨-, hvp⟩ := List.cons.inj hrest
      rw [List.append_nil] at hx
      exact Prod.ext hx.symm hvp
    | cons a x =>
      obtain ⟨rfl, -⟩ := List.cons.inj hrest
      exact absurd (hkey k x hx) hk
  · cases x with
    | nil =>
      obtain ⟨-, hvp⟩ := List.cons.inj hrest
      rw [List.append_nil] at hx
      exact Prod.ext hx hvp.symm
    | cons a x =>
      obtain ⟨rfl, hvp⟩ := List.cons.inj hrest
      exact absurd (hvalue x v hvp) hv

theorem Reading.sublist {pairs pairs' : List (List α × List α)} (h : Reading r reserved pairs)
    (hkeys : (pairs'.map Prod.fst).Sublist (pairs.map Prod.fst))
    (hvalues : ∀ p ∈ pairs', p.2 ≠ []) : Reading r reserved pairs' where
  ordered := h.ordered.sublist hkeys
  named p hp := by
    obtain ⟨q, hq, hpq⟩ := List.mem_map.mp (hkeys.subset (List.mem_map_of_mem hp))
    exact hpq ▸ h.named q hq
  valued := hvalues

theorem reading_singleton {k v : List α} (hk : k ≠ reserved) (hv : v ≠ []) :
    Reading r reserved [(k, v)] where
  ordered := List.pairwise_singleton r k
  named := by simpa using hk
  valued := by simpa using hv

/-- One pair can be cut at any other sign of its key or its value. -/
theorem indivisible_singleton (heq : eq ∉ reserved) {p : List α × List α} (hp : p.1 ≠ reserved)
    (honly : ∀ pairs', Reading r reserved pairs' → text amp eq pairs' = text amp eq [p] →
      pairs' = [p]) : Indivisible eq reserved [p] := by
  refine ⟨Nat.le_refl 1, fun q hq x y hxy => ?_, fun q hq x y hxy => ?_⟩
  · obtain rfl := List.mem_singleton.mp hq
    by_contra hx
    have hcut := honly [(x, y ++ eq :: q.2)] (reading_singleton hx (by simp))
      (by simp [text, piece, hxy])
    have hkey : x = q.1 := congrArg Prod.fst (List.cons.inj hcut).1
    simp [hxy] at hkey
  · obtain rfl := List.mem_singleton.mp hq
    by_contra hy
    have hname : q.1 ++ eq :: x ≠ reserved := fun hr => heq (hr ▸ by simp)
    have hcut := honly [(q.1 ++ eq :: x, y)] (reading_singleton hname hy)
      (by simp [text, piece, hxy])
    have hkey : q.1 ++ eq :: x = q.1 := congrArg Prod.fst (List.cons.inj hcut).1
    simp at hkey

/-- Two pairs can be merged into the first. -/
theorem Reading.merge {p q : List α × List α} {rest : List (List α × List α)}
    (h : Reading r reserved (p :: q :: rest)) :
    Reading r reserved ((p.1, p.2 ++ amp :: piece eq q) :: rest) := by
  refine h.sublist (List.Sublist.cons_cons _ (List.sublist_cons_self _ _)) fun s hs => ?_
  rcases List.mem_cons.mp hs with rfl | hs
  · simp
  · exact h.valued s (by simp [hs])

theorem Indivisible.only_reading {pairs pairs' : List (List α × List α)}
    (h : Indivisible eq reserved pairs) (h' : Reading r reserved pairs')
    (htext : text amp eq pairs' = text amp eq pairs) : pairs' = pairs := by
  obtain ⟨hsingle, hkey, hvalue⟩ := h
  cases pairs with
  | nil =>
    cases pairs' with
    | nil => rfl
    | cons p' rest' => exact absurd htext (text_cons_ne_nil p' rest')
  | cons p rest =>
    obtain rfl : rest = [] := List.eq_nil_of_length_eq_zero (by simpa using hsingle)
    cases pairs' with
    | nil => exact absurd htext.symm (text_cons_ne_nil p [])
    | cons p' rest' =>
      have hname := h'.named p' List.mem_cons_self
      have hkeyp := hkey p List.mem_cons_self
      have hvaluep := hvalue p List.mem_cons_self
      cases rest' with
      | nil =>
        have hp := piece_inj hkeyp hvaluep hname (h'.valued p' List.mem_cons_self) htext
        exact congrArg (fun p => [p]) hp
      | cons q' rest' =>
        obtain ⟨x, y, hxy, hy⟩ := text_eq_piece amp eq p' q' rest'
          (h'.valued q' (by simp))
        have hp := piece_inj hkeyp hvaluep hname (by simp) (hxy.symm.trans htext)
        exact absurd (hvaluep x y (congrArg Prod.snd hp).symm) hy

/-- A reading is the only one of its text exactly when it cannot be divided. -/
theorem only_reading_iff (heq : eq ∉ reserved) {pairs : List (List α × List α)}
    (h : Reading r reserved pairs) :
    (∀ pairs', Reading r reserved pairs' → text amp eq pairs' = text amp eq pairs →
      pairs' = pairs) ↔ Indivisible eq reserved pairs := by
  constructor
  · intro honly
    cases pairs with
    | nil => exact ⟨Nat.zero_le 1, fun p hp => absurd hp List.not_mem_nil,
        fun p hp => absurd hp List.not_mem_nil⟩
    | cons p rest =>
      cases rest with
      | nil => exact indivisible_singleton heq (h.named p List.mem_cons_self) honly
      | cons q rest =>
        have hlength := congrArg List.length (honly _ h.merge (text_merge p q rest))
        simp at hlength
  · exact fun hpairs pairs' h' htext => hpairs.only_reading h' htext

/-! ## Words without signs -/

/-- A word ends where the first sign stands. -/
theorem cut_inj {a : α} {x y r s : List α} (hx : a ∉ x) (hy : a ∉ y)
    (h : x ++ a :: r = y ++ a :: s) : x = y ∧ r = s := by
  induction x generalizing y with
  | nil =>
    cases y with
    | nil => exact ⟨rfl, (List.cons.inj h).2⟩
    | cons b y => exact absurd (List.cons.inj h).1 fun heq => hy (heq ▸ List.mem_cons_self)
  | cons b x ih =>
    cases y with
    | nil => exact absurd (List.cons.inj h).1 fun heq => hx (heq ▸ List.mem_cons_self)
    | cons c y =>
      obtain ⟨rfl, htail⟩ := List.cons.inj h
      obtain ⟨rfl, hrest⟩ := ih (fun hmem => hx (List.mem_cons_of_mem b hmem))
        (fun hmem => hy (List.mem_cons_of_mem b hmem)) htail
      exact ⟨rfl, hrest⟩

/-- The text with a sign after every pair. -/
theorem text_concat (p : List α × List α) (rest : List (List α × List α)) :
    text amp eq (p :: rest) ++ [amp] = (p :: rest).flatMap fun p => piece eq p ++ [amp] := by
  induction rest generalizing p with
  | nil => simp [text]
  | cons q rest ih =>
    rw [text, List.append_assoc, List.cons_append, ih]
    simp

theorem flatMap_piece_inj (hne : amp ≠ eq) {pairs pairs' : List (List α × List α)}
    (h : ∀ p ∈ pairs, eq ∉ p.1 ∧ amp ∉ p.1 ∧ amp ∉ p.2)
    (h' : ∀ p ∈ pairs', eq ∉ p.1 ∧ amp ∉ p.1 ∧ amp ∉ p.2)
    (htext : (pairs.flatMap fun p => piece eq p ++ [amp]) =
      pairs'.flatMap fun p => piece eq p ++ [amp]) : pairs = pairs' := by
  induction pairs generalizing pairs' with
  | nil =>
    cases pairs' with
    | nil => rfl
    | cons q rest => simp at htext
  | cons p rest ih =>
    cases pairs' with
    | nil => simp at htext
    | cons q rest' =>
      have hamp : ∀ {p : List α × List α}, eq ∉ p.1 ∧ amp ∉ p.1 ∧ amp ∉ p.2 → amp ∉ piece eq p :=
        fun hp hmem => (List.mem_append.mp hmem).elim hp.2.1 fun hmem =>
          (List.mem_cons.mp hmem).elim hne hp.2.2
      have hp := h p List.mem_cons_self
      have hq := h' q List.mem_cons_self
      simp only [List.flatMap_cons, List.append_assoc, List.singleton_append] at htext
      obtain ⟨hpiece, hrest⟩ := cut_inj (hamp hp) (hamp hq) htext
      obtain ⟨hkey, hvalue⟩ := cut_inj hp.1 hq.1 hpiece
      rw [Prod.ext hkey hvalue, ih (fun p hp => h p (List.mem_cons_of_mem _ hp))
        (fun p hp => h' p (List.mem_cons_of_mem _ hp)) hrest]

/-- Pairs whose words hold no sign are read in one way. -/
theorem text_injective (hne : amp ≠ eq) {pairs pairs' : List (List α × List α)}
    (h : ∀ p ∈ pairs, eq ∉ p.1 ∧ amp ∉ p.1 ∧ amp ∉ p.2)
    (h' : ∀ p ∈ pairs', eq ∉ p.1 ∧ amp ∉ p.1 ∧ amp ∉ p.2)
    (htext : text amp eq pairs = text amp eq pairs') : pairs = pairs' := by
  cases pairs with
  | nil =>
    cases pairs' with
    | nil => rfl
    | cons q rest' => exact absurd htext.symm (text_cons_ne_nil q rest')
  | cons p rest =>
    cases pairs' with
    | nil => exact absurd htext (text_cons_ne_nil p rest)
    | cons q rest' =>
      have hconcat := congrArg (· ++ [amp]) htext
      simp only [text_concat] at hconcat
      exact flatMap_piece_inj hne h h' hconcat

end JoinedPairs
end Gocom
