import Gocom.PulsarDelivery
import Mathlib.Data.List.Nodup
import Mathlib.Data.List.Perm.Subperm

/-!
# Which callbacks a Pulsar instance keeps

Every consumer that is given to an instance runs on the consumer of its topic, which the first one
creates. Only the last to create it is remembered, and when the connection is gone only those that
are remembered wait for the next: the others on the topic are forgotten, without an error.
-/

namespace Gocom
namespace PulsarMQ

open Runs

variable {σ : Type*} {b : PulsarBroker σ}

/-- Every consumer is with a goroutine, waits, runs or was refused. -/
def KeepsConsumers (s : System σ) : Prop :=
  (consumersOf s.taken).Perm (consumersOf s.pool.flatten ++ s.shared.books.callbacks)

/-- The remembered consumers have different topics and run, and what runs has a remembered topic. -/
structure Books.Remembers (bk : Books) : Prop where
  keys : (bk.consumers.map Prod.fst).Nodup
  attached : bk.consumers ⊆ bk.attached
  topics : ∀ p ∈ bk.attached, p.1 ∈ bk.consumers.map Prod.fst

/-- When the connection is gone, no two callbacks run on one topic. -/
def DistinctTopics (s : System σ) : Interleaving → Prop
  | .reconnect => (s.shared.attached.map Prod.fst).Nodup
  | _ => True

/-! ## What is remembered -/

theorem Books.Remembers.store {bk : Books} (h : bk.Remembers) (topicName : String)
    (cm : MQConsumerProxy) : Books.Remembers { bk with
      consumers := bk.consumers.filter (fun p => p.1 ≠ topicName) ++ [(topicName, cm)]
      attached := bk.attached ++ [(topicName, cm)] } := by
  refine ⟨?_, ?_, fun p hp => ?_⟩
  · rw [List.map_append, List.map_singleton, List.nodup_append]
    refine ⟨h.keys.sublist (List.filter_sublist.map Prod.fst), List.nodup_singleton _, ?_⟩
    rintro _ ht _ ht' rfl
    rw [List.mem_singleton] at ht'
    obtain ⟨p, hp, rfl⟩ := List.mem_map.mp ht
    exact (of_decide_eq_true (List.mem_filter.mp hp).2) ht'
  · intro p hp
    rcases List.mem_append.mp hp with hp | hp
    · exact List.mem_append_left _ (h.attached (List.mem_filter.mp hp).1)
    · exact List.mem_append_right _ hp
  · rw [List.map_append, List.map_singleton, List.mem_append, List.mem_singleton]
    by_cases htopic : p.1 = topicName
    · exact .inr htopic
    · rcases List.mem_append.mp hp with hp | hp
      · obtain ⟨q, hq, hkey⟩ := List.mem_map.mp (h.topics p hp)
        exact .inl (List.mem_map.mpr ⟨q, List.mem_filter.mpr ⟨hq, decide_eq_true (hkey ▸ htopic)⟩, hkey⟩)
      · exact absurd (congrArg Prod.fst (List.mem_singleton.mp hp)) htopic

theorem Effect.remembers {bk bk' : Books} {t : Task} {new : List Task} (h : Effect bk t new bk')
    (hr : bk.Remembers) : bk'.Remembers := by
  cases h with
  | attach ht htopic =>
    refine ⟨hr.keys, List.Subset.trans hr.attached (List.subset_append_left _ _), fun p hp => ?_⟩
    rcases List.mem_append.mp hp with hp | hp
    · exact hr.topics p hp
    · obtain rfl := List.mem_singleton.mp hp
      exact htopic
  | subscribe ht => exact hr.store _ _
  | message | keepPublish | send | reject | consumer | keepConsumer | refuse | sweepConsumers
  | sweepPublishes => exact ⟨hr.keys, hr.attached, hr.topics⟩

theorem remembers_nil {bk : Books} (hc : bk.consumers = []) (ha : bk.attached = []) : bk.Remembers := by
  refine ⟨?_, ?_, ?_⟩
  · rw [hc]
    exact List.nodup_nil
  · rw [hc]
    exact List.nil_subset _
  · rw [ha]
    exact fun p hp => absurd hp List.not_mem_nil

theorem step_remembers {s t : System σ} {e : Interleaving} (h : s.shared.books.Remembers)
    (ht : step b s e = some t) : t.shared.books.Remembers := by
  have hact := act_of_step ht
  cases e with
  | publish m | consume cm => exact Option.some.inj hact ▸ h
  | move i =>
    obtain ⟨k, rest, hw, ⟨-, rfl⟩ | ⟨r, new, hp, rfl⟩⟩ := move_eq_some hact
    · exact h
    · exact (perform_effect b hp).remembers h
  | reconnect =>
    rw [act] at hact
    split_ifs at hact
    obtain rfl := Option.some.inj hact
    dsimp only
    rw [PulsarMQ.reconnect, init_books]
    exact remembers_nil rfl rfl
  | connected =>
    rw [act] at hact
    split_ifs at hact
    obtain rfl := Option.some.inj hact
    exact ⟨h.keys, h.attached, h.topics⟩
  | done =>
    rw [act] at hact
    obtain rfl := Option.some.inj hact
    split_ifs
    · exact ⟨h.keys, h.attached, h.topics⟩
    · exact h
  | close => exact Option.some.inj hact ▸ ⟨h.keys, h.attached, h.topics⟩

/-- Everything that runs is remembered just when the topics differ. -/
theorem Books.Remembers.perm_iff {bk : Books} (h : bk.Remembers) :
    (bk.consumers.map Prod.snd).Perm (bk.attached.map Prod.snd) ↔ (bk.attached.map Prod.fst).Nodup := by
  have hsub : bk.consumers.Subperm bk.attached := List.subperm_of_subset (h.keys.of_map _) h.attached
  constructor
  · intro hperm
    have hlength : bk.attached.length ≤ bk.consumers.length := by
      simpa using hperm.length_eq.ge
    exact ((hsub.perm_of_length_le hlength).map Prod.fst).nodup_iff.mp h.keys
  · intro hnodup
    refine List.Perm.map Prod.snd (hsub.antisymm (List.subperm_of_subset (hnodup.of_map _) fun p hp => ?_))
    obtain ⟨q, hq, hkey⟩ := List.mem_map.mp (h.topics p hp)
    have heq : q = p := List.inj_on_of_nodup_map hnodup (h.attached hq) hp hkey
    exact heq ▸ hq

/-! ## What becomes of the consumers -/

theorem take_keepsConsumers {s : System σ} (h : KeepsConsumers s) (t : Task) : KeepsConsumers (s.take t) := by
  have htaken : consumersOf (s.taken ++ [t]) = consumersOf s.taken ++ consumersOf [t] := List.filterMap_append
  have hpool : consumersOf (s.pool ++ [[t]]).flatten = consumersOf s.pool.flatten ++ consumersOf [t] := by
    rw [JobPools.flatten_concat]
    exact List.filterMap_append
  change (consumersOf (s.taken ++ [t])).Perm (consumersOf (s.pool ++ [[t]]).flatten ++ s.shared.books.callbacks)
  rw [htaken, hpool, List.append_assoc]
  exact (h.append_right _).trans (by rw [List.append_assoc]; exact List.perm_append_comm.append_left _)

theorem move_keepsConsumers {s t : System σ} {i : ℕ} (h : KeepsConsumers s) (ht : move b s i = some t) :
    KeepsConsumers t := by
  obtain ⟨k, rest, hw, ⟨-, rfl⟩ | ⟨r, new, hp, rfl⟩⟩ := move_eq_some ht
  · exact h
  · exact h.trans (JobPools.exchange_perm (JobPools.filterMap_replace_perm Task.consumer? hw new)
      (perform_effect b hp).callbacks_perm).symm

/-- Losing the connection keeps the consumers if and only if the topics of those that run differ. -/
theorem reconnect_keepsConsumers_iff {s : System σ} (hr : s.shared.books.Remembers) (h : KeepsConsumers s) :
    KeepsConsumers { s with shared := PulsarMQ.reconnect b s.shared } ↔
      (s.shared.attached.map Prod.fst).Nodup := by
  have hvisited := b.range_perm s.shared.env (s.shared.consumers.map Prod.snd)
  have hiff : (s.shared.consumers.map Prod.snd).Perm (s.shared.attached.map Prod.snd) ↔
      (s.shared.attached.map Prod.fst).Nodup := hr.perm_iff
  rw [KeepsConsumers] at h ⊢
  rw [PulsarMQ.reconnect, init_books, ← hiff]
  simp only [Books.callbacks, books, List.map_nil, List.append_nil] at h ⊢
  constructor
  · intro hkept
    have hsame := List.perm_append_left_iff _ |>.mp (h.symm.trans hkept)
    have hwait := List.perm_append_right_iff _ |>.mp hsame
    exact (hvisited.symm.trans ((List.perm_append_left_iff _).mp hwait).symm)
  · intro hperm
    exact h.trans ((((hvisited.trans hperm).symm.append_left _).append_right _).append_left _)

theorem step_keepsConsumers_iff {s t : System σ} {e : Interleaving} (hr : s.shared.books.Remembers)
    (h : KeepsConsumers s) (ht : step b s e = some t) : DistinctTopics s e ↔ KeepsConsumers t := by
  have hact := act_of_step ht
  cases e with
  | publish m | consume cm => exact iff_of_true trivial (Option.some.inj hact ▸ take_keepsConsumers h _)
  | move i => exact iff_of_true trivial (move_keepsConsumers h hact)
  | reconnect =>
    rw [act] at hact
    split_ifs at hact
    obtain rfl := Option.some.inj hact
    exact (reconnect_keepsConsumers_iff hr h).symm
  | connected =>
    rw [act] at hact
    split_ifs at hact
    obtain rfl := Option.some.inj hact
    refine iff_of_true trivial ?_
    rw [KeepsConsumers, JobPools.flatten_concat]
    have hpool : consumersOf (s.pool.flatten ++ [.sweepConsumers, .sweepPublishes]) =
        consumersOf s.pool.flatten := by
      rw [consumersOf, List.filterMap_append]
      exact List.append_nil _
    rw [hpool]
    exact h
  | done =>
    rw [act] at hact
    obtain rfl := Option.some.inj hact
    refine iff_of_true trivial ?_
    split_ifs <;> exact h
  | close => exact iff_of_true trivial (Option.some.inj hact ▸ h)

/-- Through any interleaving all consumers are kept exactly when no two callbacks run on one topic
whenever the connection is found gone. -/
theorem run_keepsConsumers_iff (b : PulsarBroker σ) (env : σ) (name driver path : String)
    (config : PulsarConfig) (trackerQueue : String) (messages : ℕ → MQPublishMessage)
    (es : List Interleaving) {s : System σ}
    (hrun : run (step b) (start b env name driver path config trackerQueue messages) es = some s) :
    Throughout (step b) DistinctTopics (start b env name driver path config trackerQueue messages) es ↔
      ∀ past rest t, es = past ++ rest →
        run (step b) (start b env name driver path config trackerQueue messages) past = some t →
        KeepsConsumers t := by
  have hremembers : ∀ (t : System σ) e u, t.shared.books.Remembers → step b t e = some u →
      u.shared.books.Remembers := fun _ _ _ h ht => step_remembers h ht
  refine throughout_iff_always hremembers (fun _ _ _ hr h ht => step_keepsConsumers_iff hr h ht) ?_ ?_ hrun
  · rw [start, init_books]
    exact remembers_nil rfl rfl
  · rw [KeepsConsumers, start, init_books]
    exact List.Perm.refl _

/-- Two callbacks come to run on one topic, and the connection ends. -/
def beforeLoss : List Interleaving :=
  [.connected, .move 0, .move 0, .consume { queue := "q", callback := some 1 }, .move 1, .move 1, .move 1,
    .consume { queue := "q", callback := some 2 }, .move 2, .move 2, .done]

theorem run_keepsConsumers_iff_shared : ¬ ∀ past rest t, beforeLoss ++ [.reconnect] = past ++ rest →
    run (step grantingPulsar) (start grantingPulsar () "" "pulsar" "" { topic := "t" } "" fun _ => {}) past =
      some t → KeepsConsumers t := by
  refine mt (run_keepsConsumers_iff grantingPulsar () "" "pulsar" "" { topic := "t" } "" (fun _ => {})
    (beforeLoss ++ [.reconnect]) rfl).mpr fun h => ?_
  obtain ⟨-, hlost⟩ := throughout_append.mp h
  have htopics : (["q", "q"] : List String).Nodup := (hlost _ rfl).1
  exact absurd htopics (by decide)

end PulsarMQ
end Gocom
