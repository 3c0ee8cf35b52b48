import Gocom.GoMaps
import Gocom.GuardedRuns
import Gocom.HighWaterMarks
import Gocom.MessageEnvelopes
import Mathlib.Data.List.Induction
import Mathlib.Order.Lattice

/-!
# Reading topics

A consumer runs one loop a topic. It passes a message to the callback when the offset is above
the last one it remembers, and remembers one offset a topic, whatever partition it came from.
What a read returns belongs to the group reader.
-/

namespace Gocom

structure KafkaMessage where
  partition : ℕ := 0
  offset : ℤ := 0
  value : Bytes := []
  deriving DecidableEq

/-- What `ReadMessage` returns. -/
structure ReadResult where
  m : KafkaMessage := {}
  err : Option String := none
  deriving DecidableEq

abbrev ReadResult.offset (r : ReadResult) : ℤ := r.m.offset

/-- A topic is `reading` while its loop waits for a message. The calls of callbacks are
recorded in order, each with the read whose value was passed. -/
structure KafkaConsumer where
  readers : GoMap String ℕ := .empty
  running : GoMap String Bool := .empty
  offsetDict : GoMap String ℤ := .empty
  reading : String → Bool := fun _ => false
  calls : List (String × ReadResult) := []

namespace KafkaConsumer

def newConsumer : KafkaConsumer := {}

def stopConsumer (c : KafkaConsumer) : KafkaConsumer :=
  { c with running := fun topic => (c.running topic).map fun _ => false }

/-- Subscribe to a topic, with a callback that is known by address. -/
def receive (c : KafkaConsumer) (topic : String) (callback : ℕ) : KafkaConsumer × Option String :=
  if c.readers topic ≠ none then (c, some "The topic is already subscribed")
  else ({ c with
      readers := c.readers.store topic callback
      running := c.running.store topic true
      offsetDict := c.offsetDict.store topic (-1)
      reading := fun t => t = topic ∨ c.reading t }, none)

/-- The loop's treatment of a read: an error is logged and not otherwise looked at. -/
def handle (c : KafkaConsumer) (topic : String) (r : ReadResult) : KafkaConsumer :=
  if r.m.offset > (c.offsetDict topic).getD 0 then
    { c with
      offsetDict := c.offsetDict.store topic r.m.offset
      calls := c.calls ++ [(topic, r)] }
  else c

/-- The loop goes on as long as the topic is running. -/
def next (c : KafkaConsumer) (topic : String) : KafkaConsumer :=
  { c with reading := fun t => if t = topic then (c.running topic).getD false else c.reading t }

inductive Event where
  | receive (topic : String) (callback : ℕ)
  | read (topic : String) (r : ReadResult)
  | stop

def step (c : KafkaConsumer) : Event → Option KafkaConsumer
  | .receive topic callback => some (c.receive topic callback).1
  | .read topic r => if c.reading topic then some ((c.handle topic r).next topic) else none
  | .stop => some c.stopConsumer

/-! ## One topic -/

def Event.readOf (topic : String) : Event → Option ReadResult
  | .read t r => if t = topic then some r else none
  | _ => none

/-- The reads of a topic, in order. -/
def readsOf (topic : String) (es : List Event) : List ReadResult := es.filterMap (Event.readOf topic)

/-- The reads whose values a topic's loop passed to the callback. -/
def callsOf (c : KafkaConsumer) (topic : String) : List ReadResult :=
  c.calls.filterMap fun p => if p.1 = topic then some p.2 else none

/-- After the reads `rs` of a topic, its offset is their mark, and the reads above it were
passed on. -/
structure Remembers (c : KafkaConsumer) (topic : String) (rs : List ReadResult) : Prop where
  reading : c.reading topic = true → c.readers topic ≠ none
  unread : c.readers topic = none → rs = []
  offset : c.readers topic ≠ none →
    c.offsetDict topic = some (HighWater.mark ReadResult.offset (-1) rs)
  calls : c.callsOf topic = HighWater.passed ReadResult.offset (-1) rs

theorem remembers_newConsumer (topic : String) : Remembers newConsumer topic [] :=
  ⟨fun h => absurd h Bool.false_ne_true, fun _ => rfl, fun h => absurd rfl h, rfl⟩

theorem Remembers.stopConsumer {c : KafkaConsumer} {topic : String} {rs : List ReadResult}
    (h : Remembers c topic rs) : Remembers c.stopConsumer topic rs :=
  ⟨h.reading, h.unread, h.offset, h.calls⟩

theorem Remembers.receive {c : KafkaConsumer} {topic : String} {rs : List ReadResult}
    (h : Remembers c topic rs) (t : String) (callback : ℕ) :
    Remembers (c.receive t callback).1 topic rs := by
  rw [KafkaConsumer.receive]
  split_ifs with hreader
  · exact h
  · have hnone : c.readers t = none := not_not.mp hreader
    by_cases ht : topic = t
    · subst ht
      obtain rfl := h.unread hnone
      exact ⟨fun _ => by simp, fun h => by simp at h, fun _ => by simp [HighWater.mark], h.calls⟩
    · refine ⟨fun hr => ?_, fun hr => ?_, fun hr => ?_, h.calls⟩
      · simp only [GoMap.store_of_ne ht]
        exact h.reading (by simpa [ht] using hr)
      · exact h.unread (by simpa [GoMap.store_of_ne ht] using hr)
      · simp only [GoMap.store_of_ne ht] at hr ⊢
        exact h.offset hr

theorem callsOf_append (c : KafkaConsumer) (topic t : String) (r : ReadResult) :
    callsOf { c with calls := c.calls ++ [(t, r)] } topic =
      c.callsOf topic ++ if t = topic then [r] else [] := by
  rw [callsOf, callsOf, List.filterMap_append]
  congr 1
  by_cases ht : t = topic <;> simp [ht]

theorem Remembers.handle_self {c : KafkaConsumer} {topic : String} {rs : List ReadResult}
    (h : Remembers c topic rs) (hr : c.readers topic ≠ none) (r : ReadResult) :
    Remembers (c.handle topic r) topic (rs ++ [r]) := by
  have hoffset := h.offset hr
  rw [handle, hoffset, Option.getD_some]
  split_ifs with habove
  · refine ⟨h.reading, fun hn => absurd hn hr, fun _ => ?_, ?_⟩
    · rw [HighWater.mark_append]
      simp [HighWater.mark, max_eq_right habove.le]
    · rw [HighWater.passed_concat, if_pos habove, ← h.calls]
      exact (callsOf_append c topic topic r).trans (by rw [if_pos rfl])
  · refine ⟨h.reading, fun hn => absurd hn hr, fun _ => ?_, ?_⟩
    · rw [HighWater.mark_append, hoffset]
      simp [HighWater.mark, max_eq_left (not_lt.mp habove)]
    · rw [HighWater.passed_concat, if_neg habove, List.append_nil]
      exact h.calls

theorem Remembers.handle_other {c : KafkaConsumer} {topic t : String} {rs : List ReadResult}
    (h : Remembers c topic rs) (ht : t ≠ topic) (r : ReadResult) :
    Remembers (c.handle t r) topic rs := by
  rw [handle]
  split_ifs
  · refine ⟨h.reading, h.unread, fun hr => ?_, ?_⟩
    · exact (GoMap.store_of_ne ht.symm _ _).trans (h.offset hr)
    · exact (callsOf_append c topic t r).trans (by rw [if_neg ht, List.append_nil, h.calls])
  · exact h

theorem handle_readers (c : KafkaConsumer) (t : String) (r : ReadResult) :
    (c.handle t r).readers = c.readers := by
  rw [handle]
  split_ifs <;> rfl

/-- The loop of a topic ends or goes on; one that has ended does not start again. -/
theorem Remembers.next {c : KafkaConsumer} {topic t : String} {rs : List ReadResult}
    (h : Remembers c topic rs) (ht : c.readers t ≠ none) : Remembers (c.next t) topic rs := by
  refine ⟨fun hr => ?_, h.unread, h.offset, h.calls⟩
  by_cases htopic : topic = t
  · rw [htopic]
    exact ht
  · exact h.reading (by simpa [KafkaConsumer.next, htopic] using hr)

theorem Remembers.step {c d : KafkaConsumer} {e : Event} (hstep : step c e = some d)
    (h : ∀ topic, ∃ rs, Remembers c topic rs) {topic : String} {rs : List ReadResult}
    (hrs : Remembers c topic rs) : Remembers d topic (rs ++ readsOf topic [e]) := by
  cases e with
  | receive t callback =>
    obtain rfl := Option.some.inj hstep
    have hread : readsOf topic [.receive t callback] = [] := rfl
    rw [hread, List.append_nil]
    exact hrs.receive t callback
  | stop =>
    obtain rfl := Option.some.inj hstep
    have hread : readsOf topic [.stop] = [] := rfl
    rw [hread, List.append_nil]
    exact hrs.stopConsumer
  | read t r =>
    simp only [KafkaConsumer.step, Option.ite_none_right_eq_some, Option.some.injEq] at hstep
    obtain ⟨hreading, rfl⟩ := hstep
    obtain ⟨rs', hrs'⟩ := h t
    have hreader : c.readers t ≠ none := hrs'.reading hreading
    have hreader' : (c.handle t r).readers t ≠ none := by rwa [handle_readers]
    by_cases ht : t = topic
    · subst ht
      simpa [readsOf, Event.readOf] using (hrs.handle_self hreader r).next hreader'
    · simpa [readsOf, Event.readOf, ht] using (hrs.handle_other ht r).next hreader'

theorem remembers_run {c d : KafkaConsumer} {es : List Event} (hrun : Runs.run step c es = some d)
    (reads : String → List ReadResult) (h : ∀ topic, Remembers c topic (reads topic)) (topic : String) :
    Remembers d topic (reads topic ++ readsOf topic es) := by
  induction es generalizing c reads with
  | nil =>
    obtain rfl := Option.some.inj hrun
    simpa [readsOf] using h topic
  | cons e es ih =>
    obtain ⟨c', hstep, hrun⟩ := Runs.run_cons_eq_some.mp hrun
    have h' : ∀ topic, Remembers c' topic (reads topic ++ readsOf topic [e]) := fun topic =>
      Remembers.step hstep (fun t => ⟨_, h t⟩) (h topic)
    have := ih hrun _ h'
    rwa [List.append_assoc, readsOf, readsOf, ← List.filterMap_append] at this

/-- What a topic's loop has passed on depends on the reads of that topic alone. -/
theorem callsOf_run {c : KafkaConsumer} {es : List Event} (hrun : Runs.run step newConsumer es = some c)
    (topic : String) :
    c.callsOf topic = HighWater.passed ReadResult.offset (-1) (readsOf topic es) := by
  simpa using (remembers_run hrun (fun _ => []) remembers_newConsumer topic).calls

end KafkaConsumer

/-! ## Once per message -/

/-- The other read is of the same message: one of the same partition and offset. -/
def ReadResult.SameMessage (r q : ReadResult) : Prop :=
  q.err = none ∧ q.m.partition = r.m.partition ∧ q.m.offset = r.m.offset

instance (r q : ReadResult) : Decidable (r.SameMessage q) :=
  inferInstanceAs (Decidable (_ ∧ _ ∧ _))

/-- Each message that was read was passed on once, and no failed read was. -/
structure OncePerMessage (reads calls : List ReadResult) : Prop where
  once : ∀ r ∈ reads, r.err = none → calls.countP (r.SameMessage ·) = 1
  noError : ∀ r ∈ calls, r.err = none

/-- A group reader returns no message along with an error, and else a message it has returned
before, or one above all those of its partition. -/
structure Delivers (past : List ReadResult) (r : ReadResult) : Prop where
  noMessage : r.err ≠ none → r.m = {}
  offset : 0 ≤ r.offset
  ordered : r.err = none → r ∈ past ∨
    ∀ q ∈ past, q.err = none → q.m.partition = r.m.partition → q.offset < r.offset

/-- A new message is above those of every partition, and an error comes after some message. -/
structure InOffsetOrder (past : List ReadResult) (r : ReadResult) : Prop where
  afterMessage : r.err ≠ none → ∃ q ∈ past, q.err = none
  ordered : r.err = none → r ∈ past ∨ ∀ q ∈ past, q.err = none → q.offset < r.offset

instance (past : List ReadResult) (r : ReadResult) : Decidable (Delivers past r) :=
  decidable_of_iff ((r.err ≠ none → r.m = {}) ∧ 0 ≤ r.offset ∧ (r.err = none → r ∈ past ∨
    ∀ q ∈ past, q.err = none → q.m.partition = r.m.partition → q.offset < r.offset))
    ⟨fun ⟨a, b, c⟩ => ⟨a, b, c⟩, fun ⟨a, b, c⟩ => ⟨a, b, c⟩⟩

instance (past : List ReadResult) (r : ReadResult) : Decidable (InOffsetOrder past r) :=
  decidable_of_iff ((r.err ≠ none → ∃ q ∈ past, q.err = none) ∧
    (r.err = none → r ∈ past ∨ ∀ q ∈ past, q.err = none → q.offset < r.offset))
    ⟨fun ⟨a, b⟩ => ⟨a, b⟩, fun ⟨a, b⟩ => ⟨a, b⟩⟩

section Streams

open Runs

/-- What a loop that starts without an offset passes on. -/
abbrev passedOn (reads : List ReadResult) : List ReadResult :=
  HighWater.passed ReadResult.offset (-1) reads

variable {reads : List ReadResult} {r : ReadResult}

/-- The messages passed on before are not counted as a message above all of them. -/
theorem countP_sameMessage_eq_zero {calls : List ReadResult}
    (h : ∀ q ∈ calls, q.err = none → q.m.partition = r.m.partition → q.offset ≠ r.offset) :
    calls.countP (r.SameMessage ·) = 0 := by
  refine List.countP_eq_zero.mpr fun q hq hsame => ?_
  obtain ⟨herr, hpartition, hoffset⟩ := of_decide_eq_true hsame
  exact h q hq herr hpartition hoffset

/-- In order, everything read before a new message is below it. -/
theorem offset_lt_of_new (hd : Throughout record Delivers [] reads)
    (ho : Throughout record InOffsetOrder [] reads)
    (hnew : ∀ q ∈ reads, q.err = none → q.offset < r.offset) : ∀ q ∈ reads, q.offset < r.offset := by
  intro q hq
  by_cases herr : q.err = none
  · exact hnew q hq herr
  · obtain ⟨past, -, hzero⟩ := hd.of_mem_record hq
    obtain ⟨past', hsub, hafter⟩ := ho.of_mem_record hq
    obtain ⟨q', hq', herr'⟩ := hafter.afterMessage herr
    obtain ⟨_, -, hq0⟩ := hd.of_mem_record (hsub hq')
    have hlt := hnew q' (hsub hq') herr'
    have hm : q.offset = 0 := by rw [ReadResult.offset, hzero.noMessage herr]
    have := hq0.offset
    omega

/-- A read that is an error or a message read before need not be passed on. -/
theorem OncePerMessage.skip {calls : List ReadResult} (h : OncePerMessage reads calls)
    (hold : r.err = none → r ∈ reads) : OncePerMessage (reads ++ [r]) calls := by
  refine ⟨fun q hq hqerr => ?_, h.noError⟩
  rcases List.mem_append.mp hq with hq | hq
  · exact h.once q hq hqerr
  · obtain rfl := List.mem_singleton.mp hq
    exact h.once q (hold hqerr) hqerr

/-- A message that is new among the reads and the calls is passed on. -/
theorem OncePerMessage.pass {calls : List ReadResult} (h : OncePerMessage reads calls)
    (herr : r.err = none) (hreads : ∀ q ∈ reads, ¬ q.SameMessage r)
    (hcalls : calls.countP (r.SameMessage ·) = 0) : OncePerMessage (reads ++ [r]) (calls ++ [r]) := by
  constructor
  · intro q hq hqerr
    rw [List.countP_append]
    rcases List.mem_append.mp hq with hq | hq
    · rw [h.once q hq hqerr, List.countP_singleton, if_neg (by simpa using hreads q hq)]
    · obtain rfl := List.mem_singleton.mp hq
      have hself : q.SameMessage q := ⟨hqerr, rfl, rfl⟩
      rw [hcalls, List.countP_singleton, if_pos (by simpa using hself)]
  · intro q hq
    rcases List.mem_append.mp hq with hq | hq
    · exact h.noError q hq
    · obtain rfl := List.mem_singleton.mp hq
      exact herr

theorem oncePerMessage_of_inOrder (hd : Throughout record Delivers [] reads)
    (ho : Throughout record InOffsetOrder [] reads) : OncePerMessage reads (passedOn reads) := by
  induction reads using List.reverseRecOn with
  | nil => exact ⟨fun r hr => absurd hr List.not_mem_nil, fun r hr => absurd hr List.not_mem_nil⟩
  | append_singleton reads r ih =>
    obtain ⟨hd', hr⟩ := throughout_record_concat.mp hd
    obtain ⟨ho', hor⟩ := throughout_record_concat.mp ho
    have honce := ih hd' ho'
    rw [passedOn, HighWater.passed_concat]
    by_cases herr : r.err = none
    · rcases hor.ordered herr with hold | hnew
      · -- a redelivered message is not above the mark
        rw [if_neg (not_lt.mpr (HighWater.key_le_mark hold)), List.append_nil]
        exact honce.skip fun _ => hold
      · have hlt := offset_lt_of_new hd' ho' hnew
        have hoffset := hr.offset
        have hmark : HighWater.mark ReadResult.offset (-1) reads < r.offset :=
          HighWater.mark_lt (by omega) hlt
        rw [if_pos hmark]
        refine honce.pass herr (fun q hq hsame => absurd hsame.2.2 (hlt q hq).ne') ?_
        exact countP_sameMessage_eq_zero fun p hp _ _ => (hlt p (HighWater.mem_of_mem_passed hp)).ne
    · -- the zero message of an error is not above the mark of a message
      obtain ⟨q, hq, -⟩ := hor.afterMessage herr
      obtain ⟨_, -, hq0⟩ := hd'.of_mem_record hq
      have hmark : ¬ HighWater.mark ReadResult.offset (-1) reads < r.offset := by
        have hm : r.offset = 0 := by rw [ReadResult.offset, hr.noMessage herr]
        have hle : q.offset ≤ HighWater.mark ReadResult.offset (-1) reads := HighWater.key_le_mark hq
        have := hq0.offset
        omega
      rw [if_neg hmark, List.append_nil]
      exact honce.skip fun h => absurd h herr

/-- The first read is passed on, whatever it is. -/
theorem head_mem_passedOn (hd : Throughout record Delivers [] (r :: reads)) :
    r ∈ passedOn (r :: reads) := by
  have habove : -1 < r.offset := by have := hd.1.offset; omega
  rw [passedOn, HighWater.passed, if_pos habove]
  exact List.mem_cons_self

theorem exists_message_of_oncePerMessage {past rest : List ReadResult}
    (hd : Throughout record Delivers [] (past ++ r :: rest))
    (h : OncePerMessage (past ++ r :: rest) (passedOn (past ++ r :: rest))) (herr : r.err ≠ none) :
    ∃ q ∈ past, q.err = none := by
  cases past with
  | nil => exact absurd (h.noError r (head_mem_passedOn hd)) herr
  | cons q past => exact ⟨q, List.mem_cons_self, h.noError q (head_mem_passedOn hd)⟩

theorem ordered_of_oncePerMessage {past rest : List ReadResult}
    (hd : Throughout record Delivers [] (past ++ r :: rest))
    (h : OncePerMessage (past ++ r :: rest) (passedOn (past ++ r :: rest))) (herr : r.err = none) :
    r ∈ past ∨ ∀ q ∈ past, q.err = none → q.offset < r.offset := by
  refine (hd.of_record.ordered herr).imp_right fun hpartition q hq hqerr => ?_
  by_contra hle
  have hone := h.once r (List.mem_append_right _ List.mem_cons_self) herr
  rw [passedOn, HighWater.passed_append, List.countP_append,
    countP_sameMessage_eq_zero fun p hp hperr hpp =>
      (hpartition p (HighWater.mem_of_mem_passed hp) hperr hpp).ne,
    countP_sameMessage_eq_zero fun p hp _ _ => ?_] at hone
  · exact absurd hone (by decide)
  · -- the mark is above the new message from then on
    have hmark : q.offset ≤ HighWater.mark ReadResult.offset (-1) past := HighWater.key_le_mark hq
    have hp := HighWater.lt_key_of_mem_passed hp
    omega

theorem oncePerMessage_iff (hd : Throughout record Delivers [] reads) :
    OncePerMessage reads (passedOn reads) ↔ Throughout record InOffsetOrder [] reads := by
  refine ⟨fun h => throughout_record_of_forall fun past r rest hreads => ?_,
    oncePerMessage_of_inOrder hd⟩
  subst hreads
  exact ⟨exists_message_of_oncePerMessage hd h, ordered_of_oncePerMessage hd h⟩

end Streams

namespace KafkaConsumer

open Runs

/-- After any run, over any topics, the messages of a topic were passed on once each and no
failed read was, exactly if its reads came in offset order across its partitions. -/
theorem oncePerMessage_iff_inOffsetOrder {c : KafkaConsumer} {es : List Event}
    (hrun : run step newConsumer es = some c) (topic : String)
    (hd : Throughout record Delivers [] (readsOf topic es)) :
    OncePerMessage (readsOf topic es) (c.callsOf topic) ↔
      Throughout record InOffsetOrder [] (readsOf topic es) := by
  rw [callsOf_run hrun topic]
  exact oncePerMessage_iff hd

/-- Two partitions whose offsets happen to rise together, with a failed read and a redelivery. -/
def orderedReads : List Event :=
  [.receive "orders" 0, .read "orders" ⟨⟨0, 4, [1]⟩, none⟩, .read "orders" ⟨{}, some "EOF"⟩,
    .read "orders" ⟨⟨1, 7, [2]⟩, none⟩, .read "orders" ⟨⟨0, 4, [1]⟩, none⟩]

theorem orderedReads_oncePerMessage : ∃ c, run step newConsumer orderedReads = some c ∧
    OncePerMessage (readsOf "orders" orderedReads) (c.callsOf "orders") := by
  refine ⟨_, rfl, (oncePerMessage_iff_inOffsetOrder rfl "orders" ?_).mpr ?_⟩
  · decide
  · decide

/-- The second partition starts anew, and its messages are dropped. -/
def twoPartitions : List Event :=
  [.receive "orders" 0, .read "orders" ⟨⟨0, 5, [1]⟩, none⟩, .read "orders" ⟨⟨1, 0, [2]⟩, none⟩]

theorem twoPartitions_drops : ¬ ∀ es c topic, run step newConsumer es = some c →
    Throughout record Delivers [] (readsOf topic es) →
    OncePerMessage (readsOf topic es) (c.callsOf topic) := by
  intro h
  have honce := (h twoPartitions _ "orders" rfl (by decide)).once ⟨⟨1, 0, [2]⟩, none⟩
    (by decide) rfl
  exact absurd honce (by decide)

end KafkaConsumer
end Gocom
