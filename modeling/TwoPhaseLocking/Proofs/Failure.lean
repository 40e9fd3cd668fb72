import TwoPhaseLocking.Proofs.Release

/-! # Calls that fail

Before a call fails it has only made ready: its transaction is registered, a queue is there, and it
may have been counted. Breaking a rule costs a transaction its state, unless it has committed. A
lock call asks for that first. An unlock call does not, and then reports an abort that has not
taken place.
-/

namespace TwoPhaseLocking

/-- Counters after a call that failed: one more request that reached a queue, one more rule that was
broken, or neither. -/
def Stats.CountsFailure (t t' : Stats) : Prop :=
  ∃ requests ≤ 1, ∃ aborts ≤ 1, t' = { t with
    lockRequests := t.lockRequests + requests
    policyAborts := t.policyAborts + aborts }

namespace Engine

variable {s s' s₁ : Engine} {h : Handle} {w : Walk} {c : LockCall} {r : Resource} {forced : Bool}
  {e : LockError} {reason : AbortReason} {rs : List Resource} {o : Op} {who : TxnId}
  {state : TxnState}

/-- A call has made ready, and done nothing yet. -/
structure Prepared (s s' : Engine) : Prop where
  txns : s'.txns = s.txns
  queue : ∀ k, s'.queue k = s.queue k
  stats : s'.stats = s.stats ∨ s'.stats = s.stats.lockRequest
  rest : s'.toManager = { s.toManager with
    queues := s'.queues, registry := s'.registry, stats := s'.stats }

/-- Everything is as it was but for the status of one transaction, and two counters. There may be
one more empty queue, and one more transaction on the register. -/
structure Spares (s : Engine) (h : Handle) (s' : Engine) : Prop where
  queue : ∀ k, s'.queue k = s.queue k
  others : ∀ h' ≠ h, s'.txn h' = s.txn h'
  own : s'.txn h = s.txn h ∨ (s.txn h).state ≠ .committed ∧
    ∃ reason, s'.txn h = { s.txn h with state := .aborted, reason := some reason }
  stats : s.stats.CountsFailure s'.stats
  rest : s'.toManager = { s.toManager with
    queues := s'.queues, registry := s'.registry, stats := s'.stats }

theorem Prepared.refl (s : Engine) : s.Prepared s := ⟨rfl, fun _ => rfl, .inl rfl, rfl⟩

theorem prepared_register (s : Engine) (h : Handle) : s.Prepared (s.register h) := by
  refine ⟨by simp, by simp, .inl ?_, ?_⟩
  · unfold register
    split <;> rfl
  · unfold register
    split <;> rfl

theorem Prepared.open (ready : s.Prepared s') (k : QueueKey) :
    s.Prepared (s'.updateQueue k id) where
  txns := ready.txns
  queue k' := by rw [queue_updateQueue_id, ready.queue]
  stats := ready.stats
  rest := by rw [updateQueue, ready.rest]

theorem Prepared.count (ready : s.Prepared s') (first : s'.stats = s.stats) :
    s.Prepared (s'.tally Stats.lockRequest) where
  txns := ready.txns
  queue := ready.queue
  stats := .inr (by rw [tally, first])
  rest := by rw [tally, ready.rest]

theorem Prepared.txn (ready : s.Prepared s') (h : Handle) : s'.txn h = s.txn h := by
  rw [Engine.txn, Engine.txn, ready.txns]

/-- How a call comes to fail. -/
inductive Fails (s : Engine) (h : Handle) : LockError → Engine → Prop where
  | finished (ended : (s.txn h).state.isTerminal = true) :
      Fails s h (.notActive (s.txn h).id (s.txn h).state) s
  | refused {s' : Engine} {reason : AbortReason} (ready : s.Prepared s') :
      Fails s h (.aborted (s.txn h).id reason) (s'.refuse h reason).1
  | lost {s' : Engine} {message : String} (ready : s.Prepared s') :
      Fails s h (.invariantViolation message) s'

/-- A transaction that breaks a rule is aborted for it, unless it has committed. -/
theorem txn_refuse (known : h < s.txns.size) : (s.refuse h reason).1.txn h =
    if (s.txn h).state = .committed then s.txn h
    else { s.txn h with state := .aborted, reason := some reason } := by
  simp [refuse, txn_updateTxn, known, Transaction.abort]

theorem txn_refuse_of_ne {h' : Handle} (other : h' ≠ h) :
    (s.refuse h reason).1.txn h' = s.txn h' := by
  rw [refuse, txn_tally, txn_updateTxn_of_ne other]

theorem Prepared.countsFailure (ready : s.Prepared s') (aborts : UInt64) (few : aborts ≤ 1) :
    s.stats.CountsFailure { s'.stats with policyAborts := s'.stats.policyAborts + aborts } := by
  rcases ready.stats with same | counted
  · exact ⟨0, by decide, aborts, few, by simp [same]⟩
  · exact ⟨1, by decide, aborts, few, by simp [counted, Stats.lockRequest]⟩

theorem Fails.spares (fails : s.Fails h e s') (known : h < s.txns.size) : s.Spares h s' := by
  cases fails with
  | finished =>
    exact ⟨fun _ => rfl, fun _ _ => rfl, .inl rfl, ⟨0, by decide, 0, by decide, by simp⟩, rfl⟩
  | @refused s₁ reason ready =>
    constructor
    case queue => exact ready.queue
    case others => exact fun h' other => (txn_refuse_of_ne other).trans (ready.txn h')
    case own =>
      rw [txn_refuse (ready.txns ▸ known), ready.txn]
      split
      · exact .inl rfl
      · rename_i uncommitted
        exact .inr ⟨uncommitted, reason, rfl⟩
    case stats => exact ready.countsFailure 1 (by decide)
    case rest =>
      exact congrArg (fun m : Manager => { m with stats := s₁.stats.policyAbort }) ready.rest
  | lost ready =>
    have counted := ready.countsFailure 0 (by decide)
    exact ⟨ready.queue, fun h' _ => ready.txn h', .inl (ready.txn h), by simpa using counted,
      ready.rest⟩

theorem Fails.eq_of_notActive (fails : s.Fails h (.notActive who state) s') : s' = s := by
  cases fails
  rfl

/-- Whoever is told of an abort is aborted for that reason, unless he has committed. -/
theorem Fails.txn_of_aborted (fails : s.Fails h (.aborted who reason) s') (known : h < s.txns.size) :
    who = (s.txn h).id ∧ s'.txn h = if (s.txn h).state = .committed then s.txn h
      else { s.txn h with state := .aborted, reason := some reason } := by
  cases fails with
  | refused ready =>
    refine ⟨rfl, ?_⟩
    rw [txn_refuse (ready.txns ▸ known), ready.txn]

theorem enqueue_fails {held : Option Mode} (ready : s.Prepared s₁) (first : s₁.stats = s.stats)
    (failed : enqueue (fun _ s => s) s₁ c held = (s', .failed e)) : s.Fails c.handle e s' := by
  have counted := ready.count first
  cases held with
  | none =>
    rw [enqueue_new] at failed
    exact absurd (congrArg Prod.snd failed) (await_reply e)
  | some old =>
    cases free : (s₁.queue c.resource.key).upgrading with
    | some other =>
      rw [enqueue_conflict (by simp [free])] at failed
      cases failed
      have refused : s.Fails c.handle (.aborted (s.txn c.handle).id .upgradeConflict) _ :=
        .refused counted
      rwa [← ready.txn] at refused
    | none =>
      cases there : (s₁.queue c.resource.key).has (s₁.txn c.handle).id with
      | false =>
        rw [enqueue_missing free there] at failed
        cases failed
        exact .lost counted
      | true =>
        rw [enqueue_swap free there] at failed
        exact absurd (congrArg Prod.snd failed) (await_reply e)

theorem lock_fails (failed : s.lock c = (s', .failed e)) : s.Fails c.handle e s' := by
  have registered := prepared_register s c.handle
  have uncounted : (s.register c.handle).stats = s.stats := by
    unfold register
    split <;> rfl
  rw [lock_eq] at failed
  split at failed
  · rename_i ended
    cases failed
    exact .finished ended
  · split at failed
    · cases failed
    · split at failed
      · rename_i reason broken
        cases failed
        have refused : s.Fails c.handle (.aborted (s.txn c.handle).id reason) _ :=
          .refused registered
        rwa [← registered.txn] at refused
      · exact enqueue_fails (registered.open _) uncounted failed

/-- A lock call that breaks a rule is one of a running transaction. -/
theorem active_of_lock_aborted (failed : s.lock c = (s', .failed (.aborted who reason))) :
    (s.txn c.handle).state.isTerminal = false := by
  rw [lock_eq] at failed
  split at failed
  · cases failed
  · rename_i active
    exact Bool.eq_false_iff.2 active

theorem unlock_fails_as (failed : s.unlock h r forced = (s', .failed e)) : s.Fails h e s' := by
  rcases unlock_fails failed with ⟨reason, rfl, rfl⟩ | ⟨message, rfl, rfl⟩
  · exact .refused (.refl s)
  · exact .lost (.refl _)

theorem unlock_ne_notActive (failed : s.unlock h r forced = (s', .failed e)) :
    e ≠ .notActive who state := by
  rcases unlock_fails failed with ⟨reason, rfl, -⟩ | ⟨message, rfl, -⟩
  · exact LockError.noConfusion
  · exact LockError.noConfusion

theorem releaseEach_ne_notActive (failed : releaseEach (fun _ s => s) s h rs = (s', .failed e)) :
    e ≠ .notActive who state := by
  obtain ⟨s₁, r, unlocked⟩ := exists_of_releaseEach_failed failed
  exact unlock_ne_notActive unlocked

/-- A commit that comes too late is over before it has begun. Nobody but others can end its
transaction once it has begun. -/
theorem commit_of_notActive (failed : s.commit w h = (s', .failed (.notActive who state))) :
    s' = s := by
  rw [commit, commitWith] at failed
  split at failed
  · cases failed
    rfl
  · rename_i active
    dsimp only at failed
    split at failed
    · rename_i s₁ e released
      cases failed
      exact absurd rfl (releaseEach_ne_notActive released)
    · rename_i s₁ released
      have status := congrArg Transaction.state (releaseEach_status released)
      rw [if_neg (by rw [status]; exact active)] at failed
      cases failed

theorem abort_of_notActive (failed : s.abort w h = (s', .failed (.notActive who state))) :
    s' = s := by
  rw [abort] at failed
  split at failed
  · cases failed
    rfl
  · rw [releaseAll] at failed
    split at failed
    · rename_i s₁ e released
      cases failed
      exact absurd rfl (releaseEach_ne_notActive released)
    · cases failed

theorem commit_ne_aborted (complete : w.Complete) :
    s.commit w h ≠ (s', .failed (.aborted who reason)) := by
  intro failed
  have lawful : (releaseEach (fun _ s => s) s h (w.locks s h)).2 ≠ .failed (.aborted who reason) :=
    (itemizes_locks complete s h).releaseEach_ne_aborted
  rw [commit, commitWith] at failed
  split at failed
  · cases failed
  · dsimp only at failed
    split at failed
    · rename_i s₁ e released
      cases failed
      exact lawful (congrArg Prod.snd released)
    · split at failed
      · cases failed
      · cases failed

theorem abort_ne_aborted (complete : w.Complete) :
    s.abort w h ≠ (s', .failed (.aborted who reason)) := by
  intro failed
  have lawful : (releaseEach (fun _ s => s) (s.abortAndWake w h) h
      (w.locks (s.abortAndWake w h) h)).2 ≠ .failed (.aborted who reason) :=
    (itemizes_locks complete (s.abortAndWake w h) h).releaseEach_ne_aborted
  rw [abort] at failed
  split at failed
  · cases failed
  · rw [releaseAll] at failed
    split at failed
    · rename_i s₁ e released
      cases failed
      exact lawful (congrArg Prod.snd released)
    · cases failed

/-- An operation that fails has been carried out for somebody. -/
theorem carryOut_of_failed (failed : (s.perform w o).2 = .failed e) :
    s.perform w o = s.carryOut w o ∧ ∀ h ∈ o.handle?, h < s.txns.size := by
  unfold perform at failed ⊢
  split at failed
  · rename_i usable
    rw [if_pos usable]
    refine ⟨rfl, fun h mine => lt_size_of_isUsable ?_⟩
    rw [Option.mem_def.1 mine] at usable
    exact usable
  · cases failed

/-- The call that the operation consists of has failed, if there is one answer to that. -/
theorem call_of_failed {α : Type} {answer : α → Reply} {a : α} (call : Engine × α)
    (is : s.carryOut w o = call.map id answer) (only : ∀ b, answer b = .failed e → b = a)
    (failed : (s.perform w o).2 = .failed e) : call = ((s.perform w o).1, a) := by
  have same := (carryOut_of_failed failed).1
  rw [same, is] at failed
  rw [same, is]
  obtain ⟨s', b⟩ := call
  rw [only b failed]
  rfl

theorem outcome_of_failed (call : Engine × Outcome) {success : Reply}
    (is : s.carryOut w o = call.map id (.ofOutcome success)) (plain : success ≠ .failed e)
    (failed : (s.perform w o).2 = .failed e) : call = ((s.perform w o).1, .failed e) :=
  call_of_failed call is
    (fun _ eq => by_contra fun other => ofOutcome_ne_failed plain other eq) failed

theorem lock_of_failed (failed : (s.perform w (.lock c)).2 = .failed e) :
    s.lock c = ((s.perform w (.lock c)).1, .failed e) :=
  call_of_failed _ rfl (fun _ eq => by_contra fun other => ofLock_ne_failed other eq) failed

theorem unlock_of_failed (failed : (s.perform w (.unlock h r forced)).2 = .failed e) :
    s.unlock h r forced = ((s.perform w (.unlock h r forced)).1, .failed e) :=
  outcome_of_failed _ rfl (by simp) failed

theorem known_of_failed (failed : (s.perform w o).2 = .failed e) (mine : o.handle? = some h) :
    h < s.txns.size :=
  (carryOut_of_failed failed).2 h mine

/-- A lock or unlock call that fails, for whatever reason, changes nothing but the status of its
transaction, which may be aborted for it unless it has committed, and two counters, by one at most.
An operation that fails because its transaction is not active any more changes nothing at all. -/
theorem failed_call_spares :
    (∀ c e, (s.perform w (.lock c)).2 = .failed e →
      s.Spares c.handle (s.perform w (.lock c)).1) ∧
    (∀ h r forced e, (s.perform w (.unlock h r forced)).2 = .failed e →
      s.Spares h (s.perform w (.unlock h r forced)).1) ∧
    ∀ o who state, (s.perform w o).2 = .failed (.notActive who state) → (s.perform w o).1 = s := by
  refine ⟨fun c e failed => ?_, fun h r forced e failed => ?_, fun o who state failed => ?_⟩
  · exact (lock_fails (lock_of_failed failed)).spares (known_of_failed failed rfl)
  · exact (unlock_fails_as (unlock_of_failed failed)).spares (known_of_failed failed rfl)
  · cases o with
    | lock c => exact (lock_fails (lock_of_failed failed)).eq_of_notActive
    | unlock h r forced => exact absurd rfl (unlock_ne_notActive (unlock_of_failed failed))
    | releaseAll h =>
      exact absurd rfl (releaseEach_ne_notActive
        (outcome_of_failed (s.releaseAll w h) rfl (by simp) failed))
    | commit h =>
      exact commit_of_notActive (outcome_of_failed (s.commit w h) rfl (by simp) failed)
    | abort h => exact abort_of_notActive (outcome_of_failed (s.abort w h) rfl (by simp) failed)
    | _ => cases (carryOut_of_failed failed).1 ▸ failed

/-- For instance when the second of two readers asks to write while the first waits to, and when
a transaction commits twice. -/
theorem failed_call_spares_of_two_readers :
    let s := (fresh {}).afterAll .ascending
      [.op (.begin .repeatableRead), .op (.begin .repeatableRead),
        .op (.lock ⟨2, 0, .shared, .table 5⟩), .op (.lock ⟨3, 1, .shared, .table 5⟩),
        .op (.lock ⟨4, 0, .exclusive, .table 5⟩)]
    let upgrade : Op := .lock ⟨5, 1, .exclusive, .table 5⟩
    let s' := s.after .ascending (.op (.unlock 1 (.table 5) true))
    let s'' := s'.after .ascending (.op (.commit 1))
    (s.perform .ascending upgrade).2 = .failed (.aborted 1 .upgradeConflict) ∧
      s.Spares 1 (s.perform .ascending upgrade).1 ∧
      (s'.perform .ascending (.unlock 1 (.table 5) true)).2 =
        .failed (.aborted 1 .attemptedUnlockButNoLockHeld) ∧
      s'.Spares 1 (s'.perform .ascending (.unlock 1 (.table 5) true)).1 ∧
      (s''.perform .ascending (.commit 1)).2 = .failed (.notActive 1 .committed) ∧
      (s''.perform .ascending (.commit 1)).1 = s'' := by
  intro s upgrade s' s''
  have conflict : (s.perform .ascending upgrade).2 = .failed (.aborted 1 .upgradeConflict) := by
    decide +kernel
  have missing : (s'.perform .ascending (.unlock 1 (.table 5) true)).2 =
      .failed (.aborted 1 .attemptedUnlockButNoLockHeld) := by decide +kernel
  have late : (s''.perform .ascending (.commit 1)).2 = .failed (.notActive 1 .committed) := by
    decide +kernel
  exact ⟨conflict, failed_call_spares.1 _ _ conflict, missing,
    failed_call_spares.2.1 _ _ _ _ missing, late, failed_call_spares.2.2 _ _ _ late⟩

/-- An operation of a transaction that reports an abort reports it of this transaction. Either the
transaction is aborted then, with that reason on record, or it had committed before. In that case
the operation was an unlock call, and the transaction is as it was. -/
theorem reported_abort_is_recorded (complete : w.Complete) (mine : o.handle? = some h)
    (failed : (s.perform w o).2 = .failed (.aborted who reason)) :
    who = (s.txn h).id ∧ ((s.perform w o).1.txn h).id = who ∧
      (((s.perform w o).1.txn h).state = .aborted ∧
          ((s.perform w o).1.txn h).reason = some reason ∨
        (s.txn h).state = .committed ∧ (s.perform w o).1.txn h = s.txn h ∧
          ∃ r forced, o = .unlock h r forced) := by
  have known := known_of_failed failed mine
  cases o with
  | lock c =>
    cases mine
    have reply := lock_of_failed failed
    obtain ⟨rfl, aborted⟩ := (lock_fails reply).txn_of_aborted known
    have running : (s.txn c.handle).state ≠ .committed := by
      have active := active_of_lock_aborted reply
      intro committed
      rw [committed] at active
      cases active
    rw [if_neg running] at aborted
    rw [aborted]
    exact ⟨rfl, rfl, .inl ⟨rfl, rfl⟩⟩
  | unlock h' r forced =>
    cases mine
    obtain ⟨rfl, aborted⟩ := (unlock_fails_as (unlock_of_failed failed)).txn_of_aborted known
    rw [aborted]
    split
    · rename_i committed
      exact ⟨rfl, rfl, .inr ⟨committed, rfl, r, forced, rfl⟩⟩
    · exact ⟨rfl, rfl, .inl ⟨rfl, rfl⟩⟩
  | releaseAll h' =>
    have reply := outcome_of_failed (s.releaseAll w h') rfl (by simp) failed
    exact absurd (congrArg Prod.snd reply) (itemizes_locks complete s h').releaseEach_ne_aborted
  | commit h' =>
    exact absurd (outcome_of_failed (s.commit w h') rfl (by simp) failed)
      (commit_ne_aborted complete)
  | abort h' =>
    exact absurd (outcome_of_failed (s.abort w h') rfl (by simp) failed) (abort_ne_aborted complete)
  | _ => cases (carryOut_of_failed failed).1 ▸ failed

/-- For instance when a transaction asks for a lock after it has begun to give back, and when it
gives back a lock that it does not hold, before and after it has committed. -/
theorem reported_abort_is_recorded_unless_committed :
    let s := (fresh {}).afterAll .ascending
      [.op (.begin .repeatableRead), .op (.lock ⟨1, 0, .shared, .table 5⟩),
        .op (.unlock 0 (.table 5) false)]
    let s' := s.after .ascending (.op (.commit 0))
    let lock : Op := .lock ⟨3, 0, .shared, .table 5⟩
    let unlock : Op := .unlock 0 (.table 5) false
    (s.perform .ascending lock).2 = .failed (.aborted 0 .lockOnShrinking) ∧
      ((s.perform .ascending lock).1.txn 0).reason = some .lockOnShrinking ∧
      (s'.perform .ascending unlock).2 = .failed (.aborted 0 .attemptedUnlockButNoLockHeld) ∧
      (s'.perform .ascending unlock).1.txn 0 = s'.txn 0 := by
  intro s s' lock unlock
  have complete := Walk.complete_ascending
  have refused : (s.perform .ascending lock).2 = .failed (.aborted 0 .lockOnShrinking) := by
    decide +kernel
  have missing : (s'.perform .ascending unlock).2 =
      .failed (.aborted 0 .attemptedUnlockButNoLockHeld) := by decide +kernel
  obtain ⟨-, -, recorded⟩ := reported_abort_is_recorded complete rfl refused
  obtain ⟨-, -, unchanged⟩ := reported_abort_is_recorded complete rfl missing
  refine ⟨refused, (recorded.resolve_right ?_).2, missing, (unchanged.resolve_left ?_).2.1⟩
  · exact fun committed => absurd committed.1 (by decide +kernel)
  · exact fun aborted => absurd aborted.1 (by decide +kernel)

/-- A transaction that has committed is told of its abort all the same. -/
theorem committed_transaction_told_of_abort :
    let s := (fresh {}).afterAll .ascending [.op (.begin .repeatableRead), .op (.commit 0)]
    let unlock : Op := .unlock 0 (.table 1) false
    Reachable {} (fun _ e => e.SetsNoState) s ∧
      (s.perform .ascending unlock).2 = .failed (.aborted 0 .attemptedUnlockButNoLockHeld) ∧
      ((s.perform .ascending unlock).1.txn 0).state = .committed ∧
      ((s.perform .ascending unlock).1.txn 0).reason = none := by
  intro s unlock
  have reach : Reachable {} (fun _ e => e.SetsNoState) s :=
    Reachable.afterAll Walk.complete_ascending .fresh (by decide +kernel)
  exact ⟨reach, by decide +kernel⟩

end Engine

end TwoPhaseLocking
