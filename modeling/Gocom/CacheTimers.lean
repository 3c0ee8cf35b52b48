import Gocom.CacheElements
import Gocom.OrderedQueueRemoval

/-!
# The cache map and its timer queue

Each operation of a cache group acts on a wrapper by a short script of drops, insertions and
cleanups. A wrapper stays in step, its timer queue holding exactly the elements of its map
with each key once, as long as every drop concerns the youngest timer of its second: the
windowed removal misses a timer that has another one of equal expiry behind it.
-/

namespace Gocom

namespace CacheElementWrapper

variable {δ : Type*}

/-! ## Effect of the wrapper operations on the map -/

@[simp] theorem reset_objects (w : CacheElementWrapper δ) : w.reset.objects = GoMap.empty := rfl

@[simp] theorem set_objects (w : CacheElementWrapper δ) (key : String) (item : CacheElement δ) :
    (w.set key item).objects = w.objects.store key item := rfl

@[simp] theorem remove_objects (w : CacheElementWrapper δ) (key : String) :
    (w.remove key).1.objects = w.objects.delete key := by
  rw [remove]
  cases h : w.objects key with
  | none => exact (GoMap.delete_eq_self h).symm
  | some item => rfl

@[simp] theorem get_false (w : CacheElementWrapper δ) (key : String) :
    w.get key false = (w, w.objects key) := by
  rw [get]
  cases w.objects key <;> rfl

@[simp] theorem get_true (w : CacheElementWrapper δ) (key : String) :
    w.get key true = ((w.remove key).1, w.objects key) := by
  rw [get, remove]
  cases w.objects key <;> rfl

theorem removeAll_objects (w : CacheElementWrapper δ) (keys : List String) :
    (CacheElementGroup.removeAll w keys).objects = w.objects.deleteAll keys := by
  induction keys generalizing w with
  | nil => rfl
  | cons key keys ih =>
    have hcons : CacheElementGroup.removeAll w (key :: keys) =
        CacheElementGroup.removeAll (w.remove key).1 keys := rfl
    rw [hcons, ih, remove_objects]
    rfl

/-! ## Keeping map and timers in step -/

/-- The timer queue holds exactly the elements of the map, each key once. -/
def InStep (w : CacheElementWrapper δ) : Prop :=
  (∀ e, e ∈ w.timerObjects.elements ↔ ∃ key, w.objects key = some e) ∧
    (w.timerObjects.elements.map CacheElement.key).Nodup

/-- The inductive form of `InStep`. -/
structure Consistent (w : CacheElementWrapper δ) : Prop where
  asc : w.timerObjects.ordering = .orderingAsc
  sorted : StableOrder.Sorted (OrderedQueue.rank w.timerObjects.ordering) w.timerObjects.queue
  keyed : ∀ key e, w.objects key = some e → e.key = key
  holds : ∀ e, e ∈ w.timerObjects.queue ↔ w.objects e.key = some e
  once : (w.timerObjects.queue.map CacheElement.key).Nodup

theorem Consistent.inStep {w : CacheElementWrapper δ} (h : Consistent w) : InStep w := by
  refine ⟨fun e => ⟨fun he => ⟨e.key, (h.holds e).mp he⟩, ?_⟩, h.once⟩
  rintro ⟨key, hkey⟩
  exact (h.holds e).mpr (h.keyed key e hkey ▸ hkey)

/-- No other timer of the same expiry is queued behind the timer of `key`. -/
def Youngest (w : CacheElementWrapper δ) (key : String) : Prop :=
  ∀ item front back, w.objects key = some item → w.timerObjects.queue = front ++ item :: back →
    ∀ e ∈ back, e.expiresAt ≠ item.expiresAt

theorem consistent_new : Consistent (newCacheElementWrapper : CacheElementWrapper δ) where
  asc := rfl
  sorted := List.Pairwise.nil
  keyed _ _ h := by simp [newCacheElementWrapper] at h
  holds _ := by simp [newCacheElementWrapper, OrderedQueue.newAscOrderingQueue]
  once := by simp [newCacheElementWrapper, OrderedQueue.newAscOrderingQueue]

theorem Consistent.uniqueAt {w : CacheElementWrapper δ} (h : Consistent w)
    {front back : List (CacheElement δ)} {item : CacheElement δ}
    (hq : w.timerObjects.queue = front ++ item :: back) :
    OrderedQueue.UniqueAt w.timerObjects.queue front item back := by
  have honce := h.once
  rw [hq, List.map_append, List.map_cons, List.nodup_append] at honce
  obtain ⟨-, hback, hdisj⟩ := honce
  refine ⟨hq, fun e he => ?_, fun e he heq => ?_⟩
  · exact hdisj _ (List.mem_map_of_mem he) _ List.mem_cons_self
  · exact (List.nodup_cons.mp hback).1 (List.mem_map.mpr ⟨e, he, heq⟩)

/-- The timer queue after dropping the element of `key`. -/
theorem Consistent.remove_timers {w : CacheElementWrapper δ} (h : Consistent w) {key : String}
    {item : CacheElement δ} {front back : List (CacheElement δ)} (hkey : w.objects key = some item)
    (hq : w.timerObjects.queue = front ++ item :: back) :
    (w.remove key).1.timerObjects = if ∀ e ∈ back, e.expiresAt ≠ item.expiresAt
      then { w.timerObjects with queue := front ++ back } else w.timerObjects := by
  have hr := OrderedQueue.remove_eq h.sorted (h.uniqueAt hq)
  have hrank : OrderedQueue.rank w.timerObjects.ordering = CacheElement.expiresAt (δ := δ) := by
    rw [h.asc]
    rfl
  rw [hrank] at hr
  simp only [remove, hkey, discard, hr]
  split_ifs <;> rfl

theorem Consistent.remove {w : CacheElementWrapper δ} (h : Consistent w) {key : String}
    (hy : w.Youngest key) : Consistent (w.remove key).1 := by
  cases hkey : w.objects key with
  | none => simpa [CacheElementWrapper.remove, hkey] using h
  | some item =>
    have hik : item.key = key := h.keyed key item hkey
    obtain ⟨front, back, hq⟩ := List.append_of_mem ((h.holds item).mpr (hik ▸ hkey))
    have hu := h.uniqueAt hq
    have ht := h.remove_timers hkey hq
    rw [if_pos (hy item front back hkey hq)] at ht
    have hsub : (front ++ back).Sublist w.timerObjects.queue := by
      rw [hq]
      exact (List.Sublist.refl front).append (List.sublist_cons_self item back)
    refine ⟨?_, ?_, fun k e he => ?_, fun e => ?_, ?_⟩
    · rw [ht]
      exact h.asc
    · rw [ht]
      exact h.sorted.sublist hsub
    · rw [remove_objects] at he
      exact h.keyed k e (GoMap.of_delete_eq_some he).2
    · have hmem : e ∈ front ++ back ↔ e ∈ w.timerObjects.queue ∧ e.key ≠ key := by
        rw [hq, ← hik]
        simp only [List.mem_append, List.mem_cons]
        constructor
        · rintro (he | he)
          · exact ⟨.inl he, hu.front_ne e he⟩
          · exact ⟨.inr (.inr he), hu.back_ne e he⟩
        · rintro ⟨he | rfl | he, hne⟩
          · exact .inl he
          · exact absurd rfl hne
          · exact .inr he
      rw [ht, remove_objects, GoMap.delete_apply]
      dsimp only
      rw [hmem, h.holds e]
      split_ifs with hk <;> simp [hk]
    · rw [ht]
      exact h.once.sublist (hsub.map _)

/-- The condition on a drop is exact: without it the dropped element's timer stays behind. -/
theorem Consistent.remove_inStep_iff {w : CacheElementWrapper δ} (h : Consistent w)
    (key : String) : InStep (w.remove key).1 ↔ w.Youngest key := by
  refine ⟨fun hs item front back hkey hq => ?_, fun hy => (h.remove hy).inStep⟩
  by_contra hbad
  have ht := h.remove_timers hkey hq
  rw [if_neg hbad] at ht
  have hmem : item ∈ (w.remove key).1.timerObjects.elements := by
    rw [ht, OrderedQueue.elements, hq]
    exact List.mem_append_right front List.mem_cons_self
  obtain ⟨k, hk⟩ := (hs.1 item).mp hmem
  rw [remove_objects] at hk
  obtain ⟨hne, hk⟩ := GoMap.of_delete_eq_some hk
  exact hne ((h.keyed k item hk).symm.trans (h.keyed key item hkey))

theorem Consistent.set {w : CacheElementWrapper δ} (h : Consistent w) {item : CacheElement δ}
    (hfresh : w.objects item.key = none) : Consistent (w.set item.key item) := by
  have hq : (w.set item.key item).timerObjects.queue =
      StableOrder.insert (OrderedQueue.rank w.timerObjects.ordering) item w.timerObjects.queue :=
    OrderedQueue.pushItemToOrderedQueue_eq item h.sorted
  have hnew : ∀ e ∈ w.timerObjects.queue, e.key ≠ item.key := by
    intro e he hk
    have := (h.holds e).mp he
    rw [hk, hfresh] at this
    cases this
  refine ⟨h.asc, ?_, fun k e he => ?_, fun e => ?_, ?_⟩
  · rw [hq]
    exact h.sorted.insert item
  · rw [set_objects, GoMap.store_apply] at he
    split_ifs at he with hk
    · exact (Option.some.inj he) ▸ hk.symm
    · exact h.keyed k e he
  · rw [hq, StableOrder.mem_insert, set_objects, GoMap.store_apply]
    split_ifs with hk
    · refine ⟨?_, fun he => .inl (Option.some.inj he).symm⟩
      rintro (rfl | he)
      · rfl
      · exact absurd hk (hnew e he)
    · rw [← h.holds e]
      refine ⟨?_, .inr⟩
      rintro (rfl | he)
      · exact absurd rfl hk
      · exact he
  · rw [hq]
    have hperm : (StableOrder.insert (OrderedQueue.rank w.timerObjects.ordering) item
        w.timerObjects.queue).Perm (item :: w.timerObjects.queue) := StableOrder.insert_perm item _
    refine (hperm.map CacheElement.key).nodup_iff.mpr (List.nodup_cons.mpr ⟨?_, h.once⟩)
    intro hmem
    obtain ⟨e, he, hk⟩ := List.mem_map.mp hmem
    exact hnew e he hk

/-- A cleanup either leaves the wrapper alone or, where an expired timer stands in front of a
live one, empties the timer queue and deletes the keys of all timers. -/
theorem cleanTimeouts_cases (w : CacheElementWrapper δ) (now : ℤ) :
    w.cleanTimeouts now = w ∨
      (∃ e ∈ w.timerObjects.queue, ¬ e.expiresAt > now) ∧
      (∃ e ∈ w.timerObjects.queue, e.expiresAt > now) ∧ w.cleanTimeouts now =
        ⟨w.objects.deleteAll (w.timerObjects.queue.map CacheElement.key),
          { w.timerObjects with queue := [] }⟩ := by
  rw [cleanTimeouts, OrderedQueue.elements]
  dsimp only
  cases hi : w.timerObjects.queue.findIdx? (fun e => decide (IElement.orderingValue e > now)) with
  | none => simp
  | some i =>
    obtain ⟨hlt, hlive, hfirst⟩ := List.findIdx?_eq_some_iff_getElem.mp hi
    by_cases h0 : 0 < i
    · have hexpired := hfirst 0 h0
      have hneg : ¬ (0 : ℤ) > (i : ℤ) := by omega
      have hge : (w.timerObjects.queue.length : ℤ) ≥ (i : ℤ) := by omega
      refine .inr ⟨⟨_, List.getElem_mem (Nat.lt_trans h0 hlt), fun h => ?_⟩,
        ⟨_, List.getElem_mem hlt, of_decide_eq_true hlive⟩, ?_⟩
      · exact hexpired (decide_eq_true h)
      · simp only [Option.getD_some, if_pos h0, OrderedQueue.cutBefore, if_neg hneg, if_pos hge]
        rfl
    · exact .inl (by simp [h0])

/-- The timer queue holds the elements of the map, each under its own key. -/
def Agrees (w : CacheElementWrapper δ) : Prop :=
  ∀ key e, w.objects key = some e ↔ e ∈ w.timerObjects.queue ∧ e.key = key

theorem Consistent.agrees {w : CacheElementWrapper δ} (h : Consistent w) : Agrees w := by
  intro key e
  constructor
  · intro hkey
    have hek := h.keyed key e hkey
    exact ⟨(h.holds e).mpr (hek ▸ hkey), hek⟩
  · rintro ⟨he, rfl⟩
    exact (h.holds e).mp he

/-- Deleting the keys of all timers leaves nothing. -/
theorem Agrees.deleteAll {w : CacheElementWrapper δ} (h : Agrees w) :
    w.objects.deleteAll (w.timerObjects.queue.map CacheElement.key) = GoMap.empty := by
  funext key
  rw [GoMap.deleteAll_apply]
  split_ifs with hmem
  · rfl
  · cases hkey : w.objects key with
    | none => rfl
    | some e =>
      obtain ⟨he, hek⟩ := (h key e).mp hkey
      exact absurd (List.mem_map.mpr ⟨e, he, hek⟩) hmem

theorem Consistent.cleanTimeouts {w : CacheElementWrapper δ} (h : Consistent w) (now : ℤ) :
    Consistent (w.cleanTimeouts now) := by
  rcases w.cleanTimeouts_cases now with hc | ⟨-, -, hc⟩
  · rwa [hc]
  · rw [hc, h.agrees.deleteAll]
    exact ⟨h.asc, List.Pairwise.nil, by simp, by simp, by simp⟩

end CacheElementWrapper
end Gocom
