import Gocom.GuardedRuns
import Gocom.LoginVerifier

/-!
# Lockout after failed logins

The failures of a client are counted from the first of them for a minute; the next failure starts a
new count. The time kept with a count is called the last one, and is not set again while counting,
so a burst of failures is split where a minute has passed since the count began. A client who fails
too often is blocked whenever this does not happen.
-/

namespace Gocom
namespace BuiltinUserVerifyManager

/-! ## Counting -/

/-- The element of a name after one more failure. -/
def countFailure (old : Option FailureUserElement) (name : Bytes) (timestamp : ℤ) :
    FailureUserElement :=
  match old with
  | none => ⟨name, 1, timestamp⟩
  | some ele =>
    if ele.lastTimestamp + validateFailureDurationSecondsThreshold > timestamp then
      { ele with count := ele.count + 1 }
    else ⟨name, 1, timestamp⟩

variable (m : BuiltinUserVerifyManager) (name : Bytes) (timestamp : ℤ) (user : Option User)

theorem onInvalid_failures : (m.onInvalid name timestamp user).failures =
    m.failures.store name (countFailure (m.failures name) name timestamp) := by
  rw [onInvalid]
  dsimp only
  split_ifs <;> rfl

/-- Only a failure without a user blocks anything. -/
theorem onInvalid_blacklist (u : User) :
    (m.onInvalid name timestamp (some u)).blacklist = m.blacklist := by
  rw [onInvalid]
  dsimp only
  rw [if_neg fun h => Option.some_ne_none u h.2]

theorem onInvalid_blocks
    (h : validateFailureCountThreshold < (countFailure (m.failures name) name timestamp).count) :
    (m.onInvalid name timestamp none).blacklist = some (BlacklistPool.pushBlocked
      (m.blacklist.getD .empty) name (timestamp + blockingIPDurationSeconds)) := by
  rw [onInvalid]
  exact congrArg blacklist (if_pos ⟨h, rfl⟩)


/-- The failures counted for a name. -/
def failureCount : ℤ := (m.failures name).elim 0 (·.count)

variable {m name timestamp}

theorem failureCount_of_failures {ele : FailureUserElement} (h : m.failures name = some ele) :
    m.failureCount name = ele.count := by rw [failureCount, h]; rfl

/-- Counting goes on within the duration of the count, and starts anew after it. -/
theorem count_countFailure (old : Option FailureUserElement) (name' : Bytes) (timestamp : ℤ) :
    (countFailure old name' timestamp).count = old.elim 0 (·.count) + 1 ∨
      (countFailure old name' timestamp).count = 1 ∧ ∃ ele, old = some ele ∧
        ele.lastTimestamp + validateFailureDurationSecondsThreshold ≤ timestamp := by
  cases old with
  | none => exact .inl rfl
  | some ele =>
    rw [countFailure]
    split_ifs with hin
    · exact .inl rfl
    · exact .inr ⟨rfl, ele, rfl, Int.not_lt.mp hin⟩

/-- What a failure has counted is counted on by another one at the same time. -/
theorem count_countFailure_twice (name' : Bytes) (old : Option FailureUserElement) :
    (countFailure (some (countFailure old name' timestamp)) name' timestamp).count =
      (countFailure old name' timestamp).count + 1 := by
  have hlast : timestamp < (countFailure old name' timestamp).lastTimestamp +
      validateFailureDurationSecondsThreshold := by
    have hpos : timestamp < timestamp + validateFailureDurationSecondsThreshold := by
      rw [validateFailureDurationSecondsThreshold]
      omega
    cases old with
    | none => exact hpos
    | some ele =>
      rw [countFailure]
      split_ifs with hin
      · exact hin
      · exact hpos
  exact congrArg FailureUserElement.count (if_pos hlast)

/-- A second count at the same time, for a user of whatever name, takes nothing away. -/
theorem le_failureCount_onInvalid_twice (userName : Bytes) (u : User) :
    (countFailure (m.failures name) name timestamp).count ≤
      ((m.onInvalid name timestamp none).onInvalid userName timestamp (some u)).failureCount
        name := by
  have hfirst : (m.onInvalid name timestamp none).failures name =
      some (countFailure (m.failures name) name timestamp) := by
    rw [onInvalid_failures]
    exact GoMap.store_self _ _ _
  by_cases hname : name = userName
  · subst hname
    rw [failureCount_of_failures (by rw [onInvalid_failures, GoMap.store_self]), hfirst,
      count_countFailure_twice]
    omega
  · have hkept : ((m.onInvalid name timestamp none).onInvalid userName timestamp
        (some u)).failures name = some (countFailure (m.failures name) name timestamp) := by
      rw [onInvalid_failures, GoMap.store_of_ne hname, hfirst]
    exact Int.le_of_eq (failureCount_of_failures hkept).symm

/-! ## Blocking -/

theorem isBlocked_failures (remoteIP : Bytes) (now : ℤ) :
    (m.isBlocked remoteIP now).2.failures = m.failures := by
  rw [isBlocked]
  cases m.blacklist <;> rfl

/-- Asking about a blocked client drops nothing. -/
theorem isBlocked_eq_self {remoteIP : Bytes} {now : ℤ} (h : (m.isBlocked remoteIP now).1 = true) :
    (m.isBlocked remoteIP now).2 = m := by
  rcases m with ⟨blacklist, failures⟩
  cases blacklist with
  | none => rfl
  | some pool =>
    rw [isBlocked] at h ⊢
    dsimp only at h ⊢
    rw [BlacklistPool.isBlocked] at h ⊢
    cases hentry : pool remoteIP with
    | none => rfl
    | some expires =>
      rw [hentry] at h
      dsimp only at h ⊢
      split_ifs at h ⊢ <;> rfl

theorem isBlocked_of_pushed {remoteIP : Bytes} {expires now : ℤ} {pool : GoMap Bytes ℤ}
    (h : m.blacklist = some (BlacklistPool.pushBlocked pool remoteIP expires))
    (hnow : now ≤ expires) : (m.isBlocked remoteIP now).1 = true := by
  rw [isBlocked, h]
  dsimp only
  rw [BlacklistPool.isBlocked, BlacklistPool.pushBlocked, GoMap.store_self]
  dsimp only
  split_ifs with hzero hexpired
  · rfl
  · omega
  · rfl

end BuiltinUserVerifyManager

/-! ## Attempts from one address -/

inductive LoginOutcome where
  | succeeded
  | refused
  | failed
deriving DecidableEq

/-- An attempt to log in, with the users stored then and the times at which the clock is read. -/
structure LoginAttempt where
  table : List User := []
  userName : Bytes
  passwordOrHash : Bytes
  checkedAt : ℤ
  failedAt : ℤ

/-- The manager, and the outcomes so far with their times. -/
structure LoginHistory where
  now : ℤ
  manager : BuiltinUserVerifyManager
  outcomes : List (LoginOutcome × ℤ) := []

namespace LoginAttempt

variable (orm : Orm User) (compare : User.Compare) (remoteIP : Bytes)

def verify (a : LoginAttempt) (m : BuiltinUserVerifyManager) :
    BuiltinUserVerifyManager × Except String User :=
  m.verifyUser orm compare a.table a.checkedAt a.failedAt a.userName a.passwordOrHash remoteIP

/-- A client that is blocked is refused before anything is validated. -/
def outcome (a : LoginAttempt) (m : BuiltinUserVerifyManager) : LoginOutcome :=
  if (m.isBlocked remoteIP a.checkedAt).1 then .refused
  else
    match (a.verify orm compare remoteIP m).2 with
    | .ok _ => .succeeded
    | .error _ => .failed

/-- The client is not blocked, and there is no user with this password. -/
def Fails (a : LoginAttempt) (m : BuiltinUserVerifyManager) : Prop :=
  (m.isBlocked remoteIP a.checkedAt).1 = false ∧
    ∀ u, User.findByName orm a.userName a.table = .ok u →
      u.verifyPassword compare a.passwordOrHash = false

variable {orm compare remoteIP} {a : LoginAttempt} {m : BuiltinUserVerifyManager}

theorem outcome_eq_failed_iff :
    a.outcome orm compare remoteIP m = .failed ↔ a.Fails orm compare remoteIP m := by
  rw [outcome]
  constructor
  · intro h
    split_ifs at h with hblocked
    have hfree := (Bool.not_eq_true _).mp hblocked
    refine ⟨hfree, fun u hu => (Bool.not_eq_true _).mp fun hpassword => ?_⟩
    have hok : (a.verify orm compare remoteIP m).2 = .ok u :=
      BuiltinUserVerifyManager.verifyUser_eq_ok_iff.mpr ⟨hfree, hu, hpassword⟩
    rw [hok] at h
    cases h
  · rintro ⟨hfree, hwrong⟩
    rw [if_neg (by simp [hfree])]
    cases hverify : (a.verify orm compare remoteIP m).2 with
    | error err => rfl
    | ok u =>
      obtain ⟨-, hfind, hpassword⟩ :=
        BuiltinUserVerifyManager.verifyUser_eq_ok_iff.mp hverify
      rw [hwrong u hfind] at hpassword
      cases hpassword

instance : Decidable (a.Fails orm compare remoteIP m) :=
  decidable_of_iff _ outcome_eq_failed_iff

/-- A refused attempt leaves the manager as it is. -/
theorem verify_of_blocked (h : (m.isBlocked remoteIP a.checkedAt).1 = true) :
    (a.verify orm compare remoteIP m).1 = m := by
  rw [verify, BuiltinUserVerifyManager.verifyUser]
  have hsame := BuiltinUserVerifyManager.isBlocked_eq_self h
  generalize m.isBlocked remoteIP a.checkedAt = asked at h hsame
  obtain ⟨blocked, m'⟩ := asked
  obtain rfl : blocked = true := h
  exact hsame

/-- An attempt that does not fail counts nothing. -/
theorem verify_failures (h : a.outcome orm compare remoteIP m ≠ .failed) :
    (a.verify orm compare remoteIP m).1.failures = m.failures := by
  by_cases hblocked : (m.isBlocked remoteIP a.checkedAt).1 = true
  · rw [verify_of_blocked hblocked]
  · have hfree := (Bool.not_eq_true _).mp hblocked
    obtain ⟨u, hu⟩ : ∃ u, (a.verify orm compare remoteIP m).2 = .ok u := by
      rw [outcome, if_neg hblocked] at h
      cases hverify : (a.verify orm compare remoteIP m).2 with
      | ok u => exact ⟨u, rfl⟩
      | error err =>
        rw [hverify] at h
        exact absurd rfl h
    obtain ⟨-, hfind, hpassword⟩ := BuiltinUserVerifyManager.verifyUser_eq_ok_iff.mp hu
    have hsame := BuiltinUserVerifyManager.isBlocked_failures (m := m) remoteIP a.checkedAt
    rw [verify, BuiltinUserVerifyManager.verifyUser]
    generalize m.isBlocked remoteIP a.checkedAt = asked at hfree hsame
    obtain ⟨blocked, m'⟩ := asked
    obtain rfl : blocked = false := hfree
    rw [hfind]
    dsimp only
    rw [if_neg Bool.false_ne_true, if_neg (by simp [hpassword])]
    exact hsame

/-- A failed attempt counts for the address, and may count for the user as well. -/
theorem verify_of_fails (h : a.Fails orm compare remoteIP m) :
    ∃ m' : BuiltinUserVerifyManager, m'.failures = m.failures ∧
      ((a.verify orm compare remoteIP m).1 = m'.onInvalid remoteIP a.failedAt none ∨
        ∃ u, (a.verify orm compare remoteIP m).1 =
          (m'.onInvalid remoteIP a.failedAt none).onInvalid a.userName a.failedAt (some u)) := by
  obtain ⟨hfree, hwrong⟩ := h
  have hsame := BuiltinUserVerifyManager.isBlocked_failures (m := m) remoteIP a.checkedAt
  rw [verify, BuiltinUserVerifyManager.verifyUser]
  generalize m.isBlocked remoteIP a.checkedAt = asked at hfree hsame
  obtain ⟨blocked, m'⟩ := asked
  obtain rfl : blocked = false := hfree
  refine ⟨m', hsame, ?_⟩
  cases hfind : User.findByName orm a.userName a.table with
  | error err => exact .inl rfl
  | ok u =>
    dsimp only
    rw [if_neg Bool.false_ne_true, if_pos (hwrong u hfind)]
    exact .inr ⟨u, rfl⟩

/-- What is counted for the address after a failed attempt. -/
theorem le_failureCount_of_fails (h : a.Fails orm compare remoteIP m) :
    (BuiltinUserVerifyManager.countFailure (m.failures remoteIP) remoteIP a.failedAt).count ≤
      (a.verify orm compare remoteIP m).1.failureCount remoteIP := by
  obtain ⟨m', hsame, hone | ⟨u, htwo⟩⟩ := verify_of_fails h
  · have hcounted : (a.verify orm compare remoteIP m).1.failures remoteIP =
        some (BuiltinUserVerifyManager.countFailure (m.failures remoteIP) remoteIP a.failedAt) := by
      rw [hone, BuiltinUserVerifyManager.onInvalid_failures, hsame]
      exact GoMap.store_self _ _ _
    exact Int.le_of_eq (BuiltinUserVerifyManager.failureCount_of_failures hcounted).symm
  · rw [htwo, ← hsame]
    exact BuiltinUserVerifyManager.le_failureCount_onInvalid_twice a.userName u

/-- A failed attempt that is one too many blocks the address. -/
theorem isBlocked_of_fails (h : a.Fails orm compare remoteIP m)
    (hcount : validateFailureCountThreshold <
      (BuiltinUserVerifyManager.countFailure (m.failures remoteIP) remoteIP a.failedAt).count)
    {now : ℤ} (hnow : now ≤ a.failedAt + blockingIPDurationSeconds) :
    ((a.verify orm compare remoteIP m).1.isBlocked remoteIP now).1 = true := by
  obtain ⟨m', hsame, hone | ⟨u, htwo⟩⟩ := verify_of_fails h
  · rw [hone]
    rw [← hsame] at hcount
    exact BuiltinUserVerifyManager.isBlocked_of_pushed
      (BuiltinUserVerifyManager.onInvalid_blocks m' _ _ hcount) hnow
  · rw [← hsame] at hcount
    have hpushed := BuiltinUserVerifyManager.onInvalid_blocks m' _ _ hcount
    rw [← BuiltinUserVerifyManager.onInvalid_blacklist _ a.userName a.failedAt u, ← htwo] at hpushed
    exact BuiltinUserVerifyManager.isBlocked_of_pushed hpushed hnow

end LoginAttempt

/-! ## Histories -/

namespace LoginHistory

/-- The times of the failed attempts. -/
def failedTimes (outcomes : List (LoginOutcome × ℤ)) : List ℤ :=
  outcomes.filterMap fun o => if o.1 = .failed then some o.2 else none

/-- The times of the failed attempts since the last success. -/
def failedSince (outcomes : List (LoginOutcome × ℤ)) : List ℤ :=
  outcomes.foldl (fun times o =>
    match o.1 with
    | .succeeded => []
    | .refused => times
    | .failed => times ++ [o.2]) []

def NoSuccess (outcomes : List (LoginOutcome × ℤ)) : Prop := ∀ o ∈ outcomes, o.1 ≠ .succeeded

/-- The times lie in an interval shorter than the duration of a count. -/
def InBurst (times : List ℤ) : Prop :=
  ∃ a b, b - a < validateFailureDurationSecondsThreshold ∧ ∀ t ∈ times, a ≤ t ∧ t ≤ b

variable (orm : Orm User) (compare : User.Compare) (remoteIP : Bytes)

/-- The attempts come one after the other, and the clock does not go back. -/
def step (s : LoginHistory) (a : LoginAttempt) : Option LoginHistory :=
  if s.now ≤ a.checkedAt ∧ a.checkedAt ≤ a.failedAt then
    some {
      now := a.failedAt
      manager := (a.verify orm compare remoteIP s.manager).1
      outcomes := s.outcomes ++ [(a.outcome orm compare remoteIP s.manager, a.failedAt)] }
  else none

/-- The address is blocked, as long as a block lasts, after the last of too many failed attempts in
a burst without a success. -/
def LockedOut (s : LoginHistory) : Prop :=
  ∀ past stretch t later, s.outcomes = past ++ stretch ++ (.failed, t) :: later →
    NoSuccess stretch → InBurst (failedTimes stretch ++ [t]) →
    validateFailureCountThreshold < (failedTimes stretch ++ [t]).length →
    ∀ now, s.now ≤ now → now ≤ t + blockingIPDurationSeconds →
      (s.manager.isBlocked remoteIP now).1 = true

/-- A failed attempt starts a new count only when a minute has passed since the failures before. -/
def CountsOn (s : LoginHistory) (a : LoginAttempt) : Prop :=
  a.Fails orm compare remoteIP s.manager →
    ∀ ele, s.manager.failures remoteIP = some ele →
      ele.lastTimestamp + validateFailureDurationSecondsThreshold ≤ a.failedAt →
      ∀ t ∈ failedSince s.outcomes, t + validateFailureDurationSecondsThreshold ≤ a.failedAt

instance (s : LoginHistory) (a : LoginAttempt) :
    Decidable (CountsOn orm compare remoteIP s a) :=
  inferInstanceAs (Decidable (_ → ∀ ele ∈ s.manager.failures remoteIP, _ → ∀ t ∈ _, _))

/-- Every burst at the end of the history is counted. -/
def Counted (s : LoginHistory) : Prop :=
  ∀ past stretch, s.outcomes = past ++ stretch → NoSuccess stretch →
    InBurst (failedTimes stretch) → (failedTimes stretch).length ≤ s.manager.failureCount remoteIP

variable {orm compare remoteIP} {s t : LoginHistory} {a : LoginAttempt}

/-- What an attempt does to the history. -/
theorem step_eq_some (ht : step orm compare remoteIP s a = some t) :
    s.now ≤ a.checkedAt ∧ a.checkedAt ≤ t.now ∧ t.now = a.failedAt ∧
      t.manager = (a.verify orm compare remoteIP s.manager).1 ∧
      t.outcomes = s.outcomes ++ [(a.outcome orm compare remoteIP s.manager, a.failedAt)] := by
  rw [step] at ht
  split_ifs at ht with hclock
  obtain rfl := Option.some.inj ht
  exact ⟨hclock.1, hclock.2, rfl, rfl, rfl⟩

/-! ### Stretches -/

theorem InBurst.of_subset {times times' : List ℤ} (h : InBurst times') (hsub : times ⊆ times') :
    InBurst times := by
  obtain ⟨x, y, hshort, hin⟩ := h
  exact ⟨x, y, hshort, fun t ht => hin t (hsub ht)⟩

/-- Two times of a burst are less than the duration of a count apart. -/
theorem InBurst.lt {times : List ℤ} (h : InBurst times) {t u : ℤ} (ht : t ∈ times)
    (hu : u ∈ times) : u < t + validateFailureDurationSecondsThreshold := by
  obtain ⟨x, y, hshort, hin⟩ := h
  have ht' := hin t ht
  have hu' := hin u hu
  omega

theorem failedTimes_concat_failed (outcomes : List (LoginOutcome × ℤ)) (t : ℤ) :
    failedTimes (outcomes ++ [(.failed, t)]) = failedTimes outcomes ++ [t] :=
  List.filterMap_append

theorem failedTimes_concat_other {o : LoginOutcome} (ho : o ≠ .failed)
    (outcomes : List (LoginOutcome × ℤ)) (t : ℤ) :
    failedTimes (outcomes ++ [(o, t)]) = failedTimes outcomes := by
  have hnone : failedTimes [(o, t)] = [] := List.filterMap_cons_none (if_neg ho)
  have happend : failedTimes (outcomes ++ [(o, t)]) =
      failedTimes outcomes ++ failedTimes [(o, t)] := List.filterMap_append
  rw [happend, hnone, List.append_nil]

theorem NoSuccess.of_append {past stretch : List (LoginOutcome × ℤ)}
    (h : NoSuccess (past ++ stretch)) : NoSuccess past :=
  fun o ho => h o (List.mem_append_left _ ho)

/-- The failures of a stretch without a success are failures since the last success. -/
theorem failedTimes_subset_failedSince {past stretch : List (LoginOutcome × ℤ)}
    (hno : NoSuccess stretch) : failedTimes stretch ⊆ failedSince (past ++ stretch) := by
  rw [failedSince, List.foldl_append]
  generalize past.foldl _ _ = times
  induction stretch using List.reverseRecOn with
  | nil => exact List.nil_subset _
  | append_singleton stretch o ih =>
    have ih := ih hno.of_append
    obtain ⟨outcome, t⟩ := o
    rw [List.foldl_append]
    cases outcome with
    | succeeded => exact absurd rfl (hno (.succeeded, t) (by simp))
    | refused =>
      rw [failedTimes_concat_other (by decide)]
      exact ih
    | failed =>
      rw [failedTimes_concat_failed]
      exact List.append_subset.mpr
        ⟨List.Subset.trans ih (List.subset_append_left _ _), List.subset_append_right _ _⟩

/-- A stretch at the end of a history that has grown by one outcome. -/
theorem stretch_cases {outcomes past stretch : List (LoginOutcome × ℤ)} {o : LoginOutcome × ℤ}
    (h : outcomes ++ [o] = past ++ stretch) :
    stretch = [] ∨ ∃ stretch', stretch = stretch' ++ [o] ∧ outcomes = past ++ stretch' := by
  obtain rfl | ⟨stretch', o', rfl⟩ := List.eq_nil_or_concat' stretch
  · exact .inl rfl
  · rw [← List.append_assoc] at h
    obtain ⟨rfl, hlast⟩ := List.append_inj' h rfl
    obtain rfl := List.singleton_inj.mp hlast
    exact .inr ⟨stretch', rfl, rfl⟩

/-! ### What an attempt keeps -/

/-- A failure that ends a burst makes the count as large as the burst. -/
theorem Counted.length_lt (h : Counted remoteIP s) (hguard : CountsOn orm compare remoteIP s a)
    (hfails : a.Fails orm compare remoteIP s.manager) {past stretch : List (LoginOutcome × ℤ)}
    (hout : s.outcomes = past ++ stretch) (hno : NoSuccess stretch)
    (hburst : InBurst (failedTimes stretch ++ [a.failedAt])) :
    (failedTimes stretch).length < (BuiltinUserVerifyManager.countFailure
      (s.manager.failures remoteIP) remoteIP a.failedAt).count := by
  have hcounted := h past stretch hout hno (hburst.of_subset (List.subset_append_left _ _))
  obtain hnext | ⟨hone, ele, hele, hover⟩ := BuiltinUserVerifyManager.count_countFailure
    (s.manager.failures remoteIP) remoteIP a.failedAt
  · rw [hnext]
    exact Int.lt_add_one_of_le hcounted
  · -- a failure of the burst would be less than a minute old, and the count would have gone on
    have hnone : failedTimes stretch = [] := by
      refine List.eq_nil_iff_forall_not_mem.mpr fun u hu => ?_
      have hsince : u ∈ failedSince s.outcomes := by
        rw [hout]
        exact failedTimes_subset_failedSince hno hu
      have hold := hguard hfails ele hele hover u hsince
      have hnear := hburst.lt (List.mem_append_left _ hu) (List.mem_append_right _
        (List.mem_singleton_self a.failedAt))
      omega
    rw [hnone, hone]
    exact Int.one_pos

theorem Counted.step (h : Counted remoteIP s) (hguard : CountsOn orm compare remoteIP s a)
    (ht : step orm compare remoteIP s a = some t) : Counted remoteIP t := by
  obtain ⟨-, -, -, hmanager, houtcomes⟩ := step_eq_some ht
  intro past stretch hout hno hburst
  rw [houtcomes] at hout
  rw [hmanager]
  by_cases hfailed : a.outcome orm compare remoteIP s.manager = .failed
  · have hfails := LoginAttempt.outcome_eq_failed_iff.mp hfailed
    have hle := LoginAttempt.le_failureCount_of_fails hfails
    rw [hfailed] at hout
    have hnil : InBurst (failedTimes [] ++ [a.failedAt]) :=
      ⟨a.failedAt, a.failedAt, by rw [Int.sub_self]; decide, by simp [failedTimes]⟩
    obtain rfl | ⟨stretch', rfl, hs⟩ := stretch_cases hout
    · have hlt := h.length_lt hguard hfails (List.append_nil _).symm
        (fun o ho => absurd ho List.not_mem_nil) hnil
      exact Int.le_trans (Int.le_of_lt hlt) hle
    · rw [failedTimes_concat_failed] at hburst ⊢
      have hlt := h.length_lt hguard hfails hs hno.of_append hburst
      rw [List.length_append, List.length_singleton]
      omega
  · have hsame := LoginAttempt.verify_failures hfailed
    rw [BuiltinUserVerifyManager.failureCount, hsame]
    obtain rfl | ⟨stretch', rfl, hs⟩ := stretch_cases hout
    · exact h s.outcomes [] (List.append_nil _).symm hno hburst
    · rw [failedTimes_concat_other hfailed] at hburst ⊢
      exact h past stretch' hs hno.of_append hburst

theorem LockedOut.step (h : LockedOut remoteIP s) (hcounted : Counted remoteIP s)
    (hguard : CountsOn orm compare remoteIP s a) (ht : step orm compare remoteIP s a = some t) :
    LockedOut remoteIP t := by
  obtain ⟨hchecked, hended, hnow, hmanager, houtcomes⟩ := step_eq_some ht
  intro past stretch u later hout hno hburst hlen now hge hle
  rw [houtcomes] at hout
  rw [hmanager]
  obtain hnil | ⟨later', hlater, hs⟩ := stretch_cases hout
  · cases hnil
  · cases later' with
    | nil =>
      -- the attempt is the last failure of the burst
      obtain ⟨hlast, rfl⟩ := List.cons_eq_cons.mp hlater
      obtain ⟨hfailed, rfl⟩ := Prod.mk.inj hlast
      rw [List.append_nil] at hs
      have hfails := LoginAttempt.outcome_eq_failed_iff.mp hfailed.symm
      have hlt := hcounted.length_lt hguard hfails hs hno hburst
      rw [List.length_append, List.length_singleton] at hlen
      exact LoginAttempt.isBlocked_of_fails hfails (by omega) hle
    | cons o later' =>
      -- the address is blocked already, so the attempt is refused
      obtain ⟨rfl, -⟩ := List.cons_eq_cons.mp hlater
      have hblocked := h past stretch u later' hs hno hburst hlen
      rw [LoginAttempt.verify_of_blocked (hblocked _ hchecked (by omega))]
      exact hblocked now (by omega) hle

/-! ## Runs -/

/-- What holds after every attempt of a run in which failures are counted on. -/
structure Guarded (remoteIP : Bytes) (s : LoginHistory) : Prop where
  counted : Counted remoteIP s
  lockedOut : LockedOut remoteIP s

theorem guarded_start {m : BuiltinUserVerifyManager} (hfresh : m.failures remoteIP = none)
    (now : ℤ) : Guarded remoteIP { now, manager := m } where
  counted past stretch hout hno hburst := by
    obtain ⟨-, rfl⟩ := List.append_eq_nil_iff.mp hout.symm
    rw [BuiltinUserVerifyManager.failureCount, hfresh]
    exact Int.le_refl _
  lockedOut past stretch u later hout := by
    cases List.append_eq_nil_iff.mp hout.symm |>.2

/-- Whatever attempts an address makes at whatever times, too many failed ones in a burst without
a success block it, if no new count is started less than a minute after a failure. -/
theorem run_lockedOut {m : BuiltinUserVerifyManager} (hfresh : m.failures remoteIP = none)
    {now : ℤ} {attempts : List LoginAttempt}
    (hguard : Runs.Throughout (step orm compare remoteIP) (CountsOn orm compare remoteIP)
      { now, manager := m } attempts)
    (hr : Runs.run (step orm compare remoteIP) { now, manager := m } attempts = some s) :
    LockedOut remoteIP s := by
  have hrun : Guarded remoteIP s := hguard.invariant
    (fun _ _ _ h hg ht => ⟨h.counted.step hg ht, h.lockedOut.step h.counted hg ht⟩)
    (guarded_start hfresh now) hr
  exact hrun.lockedOut

/-- An attempt to log in as a user who does not exist. -/
def unknownUser (time : ℤ) : LoginAttempt where
  userName := asciiBytes "ann"
  passwordOrHash := []
  checkedAt := time
  failedAt := time

theorem run_lockedOut_atOnce :
    ∃ s, Runs.run (step BuiltinUserVerifyManager.userOrm BuiltinUserVerifyManager.compareWithA [1])
        { now := 0, manager := {} } (List.replicate 16 (unknownUser 10)) = some s ∧
      LockedOut [1] s := by
  have hguard : Runs.Throughout
      (step BuiltinUserVerifyManager.userOrm BuiltinUserVerifyManager.compareWithA [1])
      (CountsOn BuiltinUserVerifyManager.userOrm BuiltinUserVerifyManager.compareWithA [1])
      { now := 0, manager := {} } (List.replicate 16 (unknownUser 10)) := by decide
  exact ⟨_, rfl, run_lockedOut rfl hguard rfl⟩

/-- Sixteen failures within twelve seconds do not block when the count began a minute before the
last but one of them. -/
theorem slowBurst_not_lockedOut :
    ∃ s, Runs.run (step BuiltinUserVerifyManager.userOrm BuiltinUserVerifyManager.compareWithA [1])
        { now := 0, manager := {} } (unknownUser 0 :: List.replicate 14 (unknownUser 50) ++
          [unknownUser 60, unknownUser 61]) = some s ∧
      ¬ LockedOut [1] s := by
  refine ⟨_, rfl, fun h => ?_⟩
  have hblocked := h [(.failed, 0)] (List.replicate 14 (.failed, 50) ++ [(.failed, 60)]) 61 [] rfl
    (by unfold NoSuccess; decide) ⟨50, 61, by decide, by decide⟩ (by decide) 61 (by decide)
    (by decide)
  exact absurd hblocked (by decide)

end LoginHistory
end Gocom
