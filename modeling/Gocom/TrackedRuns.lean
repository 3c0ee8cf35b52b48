import Gocom.GuardedRuns

/-!
# Runs that follow a specification

A specification relates its own states across each event. A run follows it from a state that is
represented if, event by event, the specification can take a step to a state that is represented
again.
-/

namespace Gocom
namespace Runs

variable {σ τ α : Type*} (step : σ → α → σ) (spec : τ → α → τ → Prop) (represents : σ → τ → Prop)

/-- Every event takes the specification along. -/
def Tracks : σ → τ → List α → Prop
  | _, _, [] => True
  | s, t, a :: as => ∃ t', spec t a t' ∧ represents (step s a) t' ∧ Tracks (step s a) t' as

/-- The specification's own runs. -/
inductive SpecRun : τ → List α → τ → Prop where
  | nil (t : τ) : SpecRun t [] t
  | cons {t t' u : τ} {a : α} {as : List α} (h : spec t a t') (hrun : SpecRun t' as u) : SpecRun t (a :: as) u

variable {step spec represents}

/-- A run that follows the specification ends where a run of the specification is represented. -/
theorem Tracks.exists_specRun {s : σ} {t : τ} {as : List α} (hs : represents s t)
    (h : Tracks step spec represents s t as) :
    ∃ u, SpecRun spec t as u ∧ represents (as.foldl step s) u := by
  induction as generalizing s t with
  | nil => exact ⟨t, .nil t, hs⟩
  | cons a as ih =>
    obtain ⟨t', hspec, hrep, hrest⟩ := h
    obtain ⟨u, hrun, hu⟩ := ih hrep hrest
    exact ⟨u, .cons hspec hrun, hu⟩

/-- Where the guard tells of each event whether it takes the specification along, a run follows
the specification exactly when it is guarded. `Base` is what steps keep in any case. -/
theorem tracks_iff_throughout {Base : σ → Prop} {guard : σ → α → Prop} (hbase : ∀ s a, Base s → Base (step s a))
    (hstep : ∀ s t a, Base s → represents s t →
      ((∃ t', spec t a t' ∧ represents (step s a) t') ↔ guard s a))
    {s : σ} {t : τ} {as : List α} (hb : Base s) (hs : represents s t) :
    Tracks step spec represents s t as ↔ Throughout (total step) guard s as := by
  induction as generalizing s t with
  | nil => exact Iff.rfl
  | cons a as ih =>
    rw [throughout_total_cons]
    constructor
    · rintro ⟨t', hspec, hrep, hrest⟩
      exact ⟨(hstep s t a hb hs).mp ⟨t', hspec, hrep⟩, (ih (hbase s a hb) hrep).mp hrest⟩
    · rintro ⟨hguard, hrest⟩
      obtain ⟨t', hspec, hrep⟩ := (hstep s t a hb hs).mpr hguard
      exact ⟨t', hspec, hrep, (ih (hbase s a hb) hrep).mpr hrest⟩

end Runs
end Gocom
