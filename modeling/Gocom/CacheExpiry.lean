import Gocom.CacheTimers

/-!
# Expiry of the cache

A cleanup is to take the expired elements out of a wrapper and no others. It takes out all
elements or none: the index found is 0 where nothing is expired and where everything is, and
the cut at any other index takes the whole timer queue.
-/

namespace Gocom
namespace CacheElementWrapper

variable {δ : Type*}

/-- What is left are the elements that expire after `now`. -/
def KeepsLive (w w' : CacheElementWrapper δ) (now : ℤ) : Prop :=
  ∀ key e, w'.objects key = some e ↔ w.objects key = some e ∧ e.expiresAt > now

/-- A cleanup is right exactly when there is nothing to clean. -/
theorem cleanTimeouts_keepsLive_iff {w : CacheElementWrapper δ} (h : Agrees w) (now : ℤ) :
    KeepsLive w (w.cleanTimeouts now) now ↔
      ∀ key e, w.objects key = some e → e.expiresAt > now := by
  rcases w.cleanTimeouts_cases now with hc | ⟨⟨old, hold, hexpired⟩, ⟨e, he, hlive⟩, hc⟩
  · rw [hc]
    constructor
    · exact fun hkeep key e hkey => ((hkeep key e).mp hkey).2
    · exact fun hall key e => ⟨fun hkey => ⟨hkey, hall key e hkey⟩, And.left⟩
  · refine iff_of_false (fun hkeep => ?_) fun hall => ?_
    · have hkey := (hkeep e.key e).mpr ⟨(h e.key e).mpr ⟨he, rfl⟩, hlive⟩
      rw [hc, h.deleteAll] at hkey
      cases hkey
    · exact hexpired (hall old.key old ((h old.key old).mpr ⟨hold, rfl⟩))

/-- A wrapper with two elements. -/
def pair : CacheElementWrapper Unit :=
  (newCacheElementWrapper.set "a" { expiresAt := 1, key := "a" }).set "b" { expiresAt := 9, key := "b" }

theorem consistent_pair : Consistent pair := by
  have hset : ∀ (w : CacheElementWrapper Unit) (item : CacheElement Unit), Consistent w →
      w.objects item.key = none → Consistent (w.set item.key item) := fun _ _ h hfresh => h.set hfresh
  exact hset _ { expiresAt := 9, key := "b" }
    (hset _ { expiresAt := 1, key := "a" } consistent_new rfl) (by decide)

theorem cleanTimeouts_keepsLive_pair : KeepsLive pair (pair.cleanTimeouts 0) 0 := by
  refine (cleanTimeouts_keepsLive_iff consistent_pair.agrees 0).mpr fun key e hkey => ?_
  have he := ((consistent_pair.agrees key e).mp hkey).1
  have hqueue : pair.timerObjects.queue =
      [{ expiresAt := 1, key := "a" }, { expiresAt := 9, key := "b" }] := by decide
  rw [hqueue] at he
  rcases List.mem_cons.mp he with rfl | he
  · decide
  · obtain rfl := List.mem_singleton.mp he
    decide

/-- The live element goes with the expired one, and two expired ones both stay. -/
theorem cleanTimeouts_not_keepsLive :
    ¬ KeepsLive pair (pair.cleanTimeouts 5) 5 ∧ ¬ KeepsLive pair (pair.cleanTimeouts 20) 20 := by
  refine ⟨fun h => ?_, fun h => ?_⟩
  · exact absurd ((h "b" { expiresAt := 9, key := "b" }).mpr ⟨by decide, by decide⟩) (by decide)
  · exact absurd ((h "b" { expiresAt := 9, key := "b" }).mp (by decide)).2 (by decide)

end CacheElementWrapper
end Gocom
