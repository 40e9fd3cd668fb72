import TwoPhaseLocking.Proofs.Leave
import TwoPhaseLocking.Proofs.Leftovers
import TwoPhaseLocking.Proofs.Sections
import TwoPhaseLocking.Proofs.Strokes

/-! # Aborts within a call

An abort may fall between any two sections of a lock or unlock call. What the call has done until
then are moves like any others, so the abort finds the books right and takes back all there is. What
the call does afterwards brings nothing back: a request that it still places leaves the queue again
before anybody else sees it. But a lock that it has read from the record is gone by then, and if it
goes by that it misses the request in the queue.
-/

namespace TwoPhaseLocking

/-- Moves of calls that do not sleep: with none of them does a call fall asleep, and with none does
a sleeping call return. -/
def Move.Wakeful : Move → Prop
  | register _ | retire _ | give .. | mark _ (.abort _) | mark _ .shrink | notify _ | side => True
  | _ => False

theorem Move.Wakeful.call? {a : Move} (wakeful : a.Wakeful) : a.call? = none := by
  cases a with
  | join | swap => exact wakeful.elim
  | _ => rfl

namespace Engine

variable {tableOf : RowId → TableId} {config : Config} {s s' : Engine} {h : Handle} {w : Walk}
  {c : LockCall} {r : Resource} {forced : Bool} {a : Move} {n : Nat}

theorem fair_of_wakeful (wakeful : a.Wakeful) : s.Fair tableOf a := by
  cases a with
  | begin | adopt | join | swap => exact wakeful.elim
  | _ => trivial

/-- Where a transaction stands that has not committed. -/
structure Running (tableOf : RowId → TableId) (s : Engine) (h : Handle) : Prop where
  books : s.Books tableOf
  marked : s.Marked
  usable : s.isUsable h = true
  uncommitted : (s.txn h).state ≠ .committed

/-- Where it stands between two sections of a call that does not sleep. -/
structure Between (tableOf : RowId → TableId) (s : Engine) (h : Handle) : Prop
    extends s.Running tableOf h where
  noCall : ¬ s.HasCall h

/-- Where it stands there once it has been aborted. -/
structure Ended (tableOf : RowId → TableId) (s : Engine) (h : Handle) : Prop
    extends s.Between tableOf h where
  aborted : (s.txn h).isAborted = true
  empty : (s.txn h).locks = ∅

theorem Running.known (running : s.Running tableOf h) : h < s.txns.size :=
  lt_size_of_isUsable running.usable

theorem Running.move (running : s.Running tableOf h) (does : s.Does a s') (fair : s.Fair tableOf a)
    (keeps : ∀ k, a = .mark h k → k ≠ .letGo ∧ k ≠ .commit ∧ k ≠ .setState .committed) :
    s'.Running tableOf h where
  books := running.books.move does fair
  marked := running.marked.move running.books does
  usable := does.isUsable running.usable fun letGo => (keeps _ letGo).1 rfl
  uncommitted := by
    rcases does.txn_eq running.known with eq | ⟨k, mark, eq⟩
    · rw [eq]
      exact running.uncommitted
    · rw [eq]
      exact Mark.state_apply_ne running.uncommitted (keeps k mark).2.1 (keeps k mark).2.2

theorem Between.path (between : s.Between tableOf h) (path : Path (fun _ a => a.Wakeful) s s') :
    s'.Between tableOf h := by
  refine path.keeps (P := fun s => s.Between tableOf h) ?_ between
  intro s a s' between does wakeful
  refine ⟨between.toRunning.move does (fair_of_wakeful wakeful) ?_, fun there =>
    between.noCall (does.hasCall wakeful.call? there)⟩
  rintro k rfl
  cases k with
  | abort | shrink => simp
  | _ => exact wakeful.elim

theorem Ended.path (ended : s.Ended tableOf h) (path : Path (fun _ a => a.Wakeful) s s') :
    s'.Ended tableOf h := by
  refine path.keeps (P := fun s => s.Ended tableOf h) ?_ ended
  intro s a s' ended does wakeful
  refine ⟨ended.toBetween.path (.move does wakeful), ?_, LockSet.eq_empty_iff.2 fun l there => ?_⟩
  · refine (does.isAborted ended.aborted).resolve_right ?_
    rintro ⟨state, rfl, -⟩
    exact wakeful
  · rcases does.locks_sub there with before | ⟨v, -, rfl, -⟩
    · exact LockSet.eq_empty_iff.1 ended.empty l before
    · exact wakeful

theorem Between.abort (between : s.Between tableOf h) (complete : w.Complete) :
    ∃ s', s.abort w h = (s', .done) ∧ s'.Ended tableOf h := by
  obtain ⟨s₁, done, txn, given⟩ :=
    between.books.abort_released complete between.known between.uncommitted
  have woken : Path (fun _ a => a.Wakeful) s (s.abortAndWake w h) :=
    abortAndWake_path w trivial fun _ _ => trivial
  have released : Path (fun _ a => a.Wakeful) (s.abortAndWake w h) s₁ := by
    refine given.mono fun _ a giving => ?_
    cases a with
    | give | notify | side => trivial
    | _ => exact giving.elim
  refine ⟨_, done, between.path ((woken.trans released).next .retire trivial), ?_, ?_⟩
  · change (s₁.txn h).isAborted = true
    rw [txn]
    exact isAborted_abort between.uncommitted none
  · change (s₁.txn h).locks = ∅
    rw [txn]

theorem Ended.gone (ended : s.Ended tableOf h) : s.Gone h :=
  ended.books.gone ended.marked ended.known ended.empty ended.noCall

theorem Ended.mode? (ended : s.Ended tableOf h) (r : Resource) :
    (s.txn h).locks.mode? r = none := by
  rw [ended.empty]
  exact LockSet.mode?_eq_none_iff.2 fun _ => LockSet.not_mem_empty _

/-- Whatever comes before the end of a lock call leaves locks and queues as they are. -/
theorem lockSection_path {p p' : LockPhase} (usable : s.isUsable c.handle = true)
    (next : s.lockSection c p = (s', p')) (underway : 0 < p'.left) :
    Path (fun _ a => a.Wakeful) s s' := by
  cases p with
  | called =>
    simp only [lockSection] at next
    split at next <;> cases next
    · exact absurd underway (Nat.lt_irrefl 0)
    · exact .refl s
  | stateRead =>
    cases next
    exact .move (.register usable) trivial
  | registered =>
    simp only [lockSection] at next
    split at next <;> cases next
    · exact absurd underway (Nat.lt_irrefl 0)
    · exact .refl s
  | heldRead =>
    cases next
    exact .refl s
  | coverRead =>
    simp only [lockSection] at next
    split at next <;> cases next
    · exact .refl s
    · exact .move (.side (.open _)) trivial
  | queueOpened =>
    simp only [lockSection] at next
    split at next <;> cases next
    · exact .move (.side (.tally _)) trivial
    · exact absurd underway (Nat.lt_irrefl 0)
  | refusing =>
    cases next
    exact absurd underway (Nat.lt_irrefl 0)
  | ended =>
    cases next
    exact absurd underway (Nat.lt_irrefl 0)

theorem Between.before_lock_ends (between : s.Between tableOf c.handle) (n : Nat) (p : LockPhase)
    (underway : 0 < (lockSections (fun _ s => s) c n s p).2.left) :
    (lockSections (fun _ s => s) c n s p).1.Between tableOf c.handle := by
  induction n generalizing s p with
  | zero => exact between
  | succ n ih =>
    rcases next : s.lockSection c p with ⟨s', p'⟩
    rw [lockSections_next next] at underway ⊢
    refine ih (between.path (lockSection_path between.usable next ?_)) p' underway
    by_contra none
    obtain ⟨reply, rfl⟩ := LockPhase.eq_ended_of_left (Nat.eq_zero_of_not_pos none)
    rw [lockSections_ended] at underway
    exact Nat.lt_irrefl 0 underway

@[simp]
theorem callers_conclude : (s.conclude c).1.callers = s.callers := by
  unfold conclude
  dsimp only
  split <;> simp

theorem callers_await {held : Option Mode} (awake : (s.await c held).2 ≠ .asleep) :
    (s.await c held).1.callers = s.callers := by
  unfold await at awake ⊢
  dsimp only at awake ⊢
  split
  · simp
  · rename_i waits
    rw [if_neg waits] at awake
    split
    · simp
    · rename_i live
      rw [if_neg live] at awake
      exact absurd rfl awake

theorem callers_enqueue {held : Option Mode}
    (awake : (enqueue (fun _ s => s) s c held).2 ≠ .asleep) :
    (enqueue (fun _ s => s) s c held).1.callers = s.callers := by
  unfold enqueue at awake ⊢
  dsimp only at awake ⊢
  cases held with
  | none => exact callers_await awake
  | some m =>
    dsimp only at awake ⊢
    split
    · rfl
    · rename_i free
      rw [if_neg free] at awake
      split
      · rename_i there
        rw [if_pos there] at awake
        exact callers_await awake
      · rfl

/-- When a lock call has returned nobody is asleep who was not before. -/
theorem callers_lock (awake : (s.lock c).2 ≠ .asleep) : (s.lock c).1.callers = s.callers := by
  rw [lock_eq] at awake ⊢
  split
  · rfl
  · rename_i active
    rw [if_neg active] at awake
    split
    · exact callers_register s c.handle
    · rename_i differs
      rw [if_neg differs] at awake
      split
      · exact callers_register s c.handle
      · rename_i lawful
        rw [lawful] at awake
        exact (callers_enqueue awake).trans (callers_register s c.handle)

/-- A lock call may abort its transaction, but does not commit it. -/
theorem Between.lock (between : s.Between tableOf c.handle) (known : c.resource.Known tableOf) :
    (s.lock c).1.Running tableOf c.handle := by
  refine (lock_path between.usable).keeps (P := fun s => s.Running tableOf c.handle) ?_
    between.toRunning
  refine fun s₁ a s₂ running does causes => running.move does ?_ ?_
  · exact fair_of_causes (e := .op (.lock c)) ⟨trivial, between.noCall, known⟩ causes
  · rintro k rfl
    refine ⟨?_, ?_, ?_⟩ <;> rintro rfl <;> cases causes.2

theorem tell_tell (v : Sleeper) (k : QueueKey) : (v.tell k).tell k = v.tell k := by
  by_cases here : v.resource.key = k <;> simp [Sleeper.tell, here]

/-- Once aborted, a transaction leaves the queue as soon as its request has joined. -/
theorem await_aborted (held : Option Mode) (aborted : (s.txn c.handle).isAborted = true) :
    ∃ f : Stats → Stats, s.await c held =
      (((((s.grantAndNotify c.resource.key).updateQueue c.resource.key
        (·.clearUpgrading (s.txn c.handle).id)).updateQueue c.resource.key
          (·.remove (s.txn c.handle).id)).grantAndNotify c.resource.key).tally f,
        .returned false) := by
  unfold await
  dsimp only
  split
  · rw [conclude_aborted (by simpa using aborted)]
    exact ⟨fun t => t.immediateGrant.abortedWait, rfl⟩
  · rw [if_pos (by simpa using aborted), conclude_aborted (by simpa using aborted)]
    exact ⟨fun t => t.wait.abortedWait, rfl⟩

/-- A request that is placed all the same is withdrawn, and only makes for a grant pass. -/
theorem Ended.returns (ended : s.Ended tableOf c.handle) :
    ∃ s', enqueue (fun _ s => s) s c none = (s', .returned false) ∧
      Path (fun _ a => a.Wakeful) s s' := by
  have gone := ended.gone
  have absent : ∀ x ∈ (s.queue c.resource.key).requests, x.txn ≠ (s.txn c.handle).id := by
    intro x hx own
    have has := Queue.has_iff.2 ⟨x, hx, own⟩
    rw [gone.requests] at has
    cases has
  have left : ((s.queue c.resource.key).push (c.request (s.txn c.handle).id)).grant.leave
      (s.txn c.handle).id = (s.queue c.resource.key).grant :=
    (ended.books.once _).leave_push absent (gone.marks _)
  obtain ⟨f, awaited⟩ :=
    await_aborted (s := (s.tally Stats.lockRequest).pushRequest c) none ended.aborted
  refine ⟨_, enqueue_new.trans awaited,
    (Path.move .notify trivial).next (.side (s := s.grantAndNotify c.resource.key) ?_) trivial⟩
  refine ⟨rfl, ?_, fun k => ?_, rfl, rfl, rfl, rfl⟩
  · change (grantAndNotify _ c.resource.key).sleepers = _
    rw [sleepers_grantAndNotify, sleepers_grantAndNotify]
    change ((grantAndNotify _ c.resource.key).sleepers).map _ = _
    rw [sleepers_grantAndNotify, List.map_map]
    exact List.map_congr_left fun v _ => tell_tell v _
  · rw [queue_tally, queue_grantAndNotify, queue_grantAndNotify, queue_updateQueue, if_pos rfl,
      queue_updateQueue, if_pos rfl, queue_grantAndNotify, if_pos rfl, queue_pushRequest,
      if_pos rfl]
    split
    · exact left
    · rename_i other
      rw [queue_updateQueue, if_neg other, queue_updateQueue, if_neg other, queue_grantAndNotify,
        if_neg other, queue_pushRequest, if_neg other]
      rfl

/-- The next section of a lock call whose transaction has been aborted. -/
theorem Ended.next_lock (ended : s.Ended tableOf c.handle) {p : LockPhase} (underway : 0 < p.left) :
    ∃ s' p', s.lockSection c p = (s', p') ∧ Path (fun _ a => a.Wakeful) s s' ∧ p.Closes p' := by
  cases p with
  | called =>
    have terminal : (s.txn c.handle).state.isTerminal = true := by
      rw [Transaction.isAborted_iff.1 ended.aborted]
      rfl
    exact ⟨s, _, if_pos terminal, .refl s, .inactive⟩
  | stateRead => exact ⟨_, _, rfl, .move (.register ended.usable) trivial, .register⟩
  | registered iso state =>
    have next : s.lockSection c (.registered iso state) = (s, .heldRead iso state none) := by
      simp [lockSection, ended.mode?]
    exact ⟨_, _, next, .refl s, .free⟩
  | heldRead => exact ⟨_, _, rfl, .refl s, .cover⟩
  | coverRead iso state held cover =>
    cases verdict : Policy.request iso state c.mode c.resource held cover with
    | some reason =>
      exact ⟨s, .refusing reason, by simp only [lockSection, verdict], .refl s, .breaks⟩
    | none =>
      exact ⟨_, .queueOpened held, by simp only [lockSection, verdict],
        .move (.side (.open c.resource.key)) trivial, .opens⟩
  | queueOpened held =>
    cases held with
    | none =>
      obtain ⟨s', done, path⟩ := ended.returns
      exact ⟨s', .ended (.returned false), by simp [lockSection, done], path, .withdraw⟩
    | some m =>
      have counted : Path (fun _ a => a.Wakeful) s (s.tally Stats.lockRequest) :=
        .move (.side (.tally _)) trivial
      cases free : (s.queue c.resource.key).upgrading with
      | some other =>
        exact ⟨_, .refusing .upgradeConflict, by simp [lockSection, free], counted, .conflict⟩
      | none =>
        have missing : enqueue (fun _ s => s) s c (some m) = _ :=
          enqueue_missing free (ended.gone.requests _)
        exact ⟨_, .ended (.failed (.requestMissing (s.txn c.handle).id m c.resource)),
          by simp [lockSection, free, missing], counted, .missing⟩
  | refusing reason =>
    exact ⟨_, _, rfl, refuse_path (fun _ => trivial) fun _ => trivial, .refuse⟩
  | ended => exact absurd underway (Nat.lt_irrefl 0)

/-- What is left of a lock call whose transaction has been aborted. -/
theorem Ended.finish_lock (ended : s.Ended tableOf c.handle) (p : LockPhase) (enough : p.left ≤ n)
    (awake : p ≠ .ended .asleep) :
    ∃ s' reply, lockSections (fun _ s => s) c n s p = (s', .ended reply) ∧
      s'.Ended tableOf c.handle ∧ reply ≠ .asleep ∧
      (p.Sound → ∀ message, reply ≠ .failed (.invariantViolation message)) := by
  induction n generalizing s p with
  | zero =>
    obtain ⟨reply, rfl⟩ := LockPhase.eq_ended_of_left (Nat.le_zero.1 enough)
    refine ⟨s, reply, rfl, ended, ?_, fun sound message violation => ?_⟩
    · rintro rfl
      exact awake rfl
    · exact sound.2 message (by rw [violation])
  | succ n ih =>
    rcases Nat.eq_zero_or_pos p.left with none | underway
    · obtain ⟨reply, rfl⟩ := LockPhase.eq_ended_of_left none
      exact ih ended _ (Nat.zero_le n) awake
    · obtain ⟨s', p', next, path, closes⟩ := ended.next_lock underway
      have fewer := closes.left_lt
      obtain ⟨s'', reply, rest, ended', woken, sound⟩ :=
        ih (ended.path path) p' (by omega) closes.awake
      exact ⟨s'', reply, (lockSections_next next n).trans rest, ended', woken,
        fun before => sound (closes.sound before.1)⟩

/-- What an unlock call has read is so. -/
def Confirms (s : Engine) (h : Handle) (r : Resource) : UnlockPhase → Prop
  | .heldRead m => (s.txn h).locks.mode? r = some m
  | .rowsRead m | .queueFound m => (s.txn h).locks.mode? r = some m ∧
      (r.isTable = true → (s.txn h).locks.hasRowsOn r.tableId = false)
  | .ended outcome => ∀ message, outcome ≠ .failed (.invariantViolation message)
  | .called | .released _ | .refusing _ => True

/-- The next section of an unlock call that nobody has interrupted. -/
theorem Between.next_unlock (between : s.Between tableOf h) {p p' : UnlockPhase}
    (confirms : s.Confirms h r p) (next : s.unlockSection h r forced p = (s', p')) :
    Path (fun _ a => a.Wakeful) s s' ∧ s'.Confirms h r p' := by
  have refused (s : Engine) (reason : AbortReason) :
      Path (fun _ a => a.Wakeful) s (s.refuse h reason).1 :=
    refuse_path (fun _ => trivial) fun _ => trivial
  cases p with
  | called =>
    simp only [unlockSection] at next
    split at next <;> cases next
    · exact ⟨.refl s, trivial⟩
    · rename_i held
      exact ⟨.refl s, held⟩
  | heldRead m =>
    simp only [unlockSection] at next
    split at next <;> cases next
    · exact ⟨.refl s, trivial⟩
    · rename_i rowsFirst
      exact ⟨.refl s, confirms, by simpa using rowsFirst⟩
  | rowsRead m =>
    have has := between.books.has_of_mem (LockSet.mem_of_mode? confirms.1)
    simp only [unlockSection, if_neg (c := r.key ∉ s.queues)
      (not_not.2 (mem_queues_of_has has))] at next
    cases next
    exact ⟨.refl s, confirms⟩
  | queueFound m =>
    have has := between.books.has_of_mem (LockSet.mem_of_mode? confirms.1)
    simp only [unlockSection, if_pos has] at next
    cases next
    exact ⟨.move (.give confirms.1 confirms.2 has) trivial, trivial⟩
  | released m =>
    cases next
    refine ⟨Path.next ?_ (.side (.tally _)) trivial, by simp [Confirms]⟩
    split
    · exact .move (.mark (m := .shrink)) trivial
    · exact .refl s
  | refusing reason =>
    cases next
    exact ⟨refused s reason, by simp [Confirms]⟩
  | ended =>
    cases next
    exact ⟨.refl s, confirms⟩

theorem Between.run_unlock (between : s.Between tableOf h) (forced : Bool) (n : Nat)
    {p : UnlockPhase} (confirms : s.Confirms h r p) :
    (unlockSections (fun _ s => s) h r forced n s p).1.Between tableOf h ∧
      (unlockSections (fun _ s => s) h r forced n s p).1.Confirms h r
        (unlockSections (fun _ s => s) h r forced n s p).2 := by
  induction n generalizing s p with
  | zero => exact ⟨between, confirms⟩
  | succ n ih =>
    rcases next : s.unlockSection h r forced p with ⟨s', p'⟩
    rw [unlockSections_next next]
    obtain ⟨path, confirms'⟩ := between.next_unlock confirms next
    exact ih (between.path path) confirms'

/-- The next section of an unlock call whose transaction has been aborted. -/
theorem Ended.next_unlock (ended : s.Ended tableOf h) (r : Resource) (forced : Bool)
    {p : UnlockPhase} (underway : 0 < p.left) :
    ∃ s' p', s.unlockSection h r forced p = (s', p') ∧ Path (fun _ a => a.Wakeful) s s' ∧
      p.Closes p' := by
  cases p with
  | called =>
    have next : s.unlockSection h r forced .called =
        (s, .refusing .attemptedUnlockButNoLockHeld) := by
      simp [unlockSection, ended.mode?]
    exact ⟨_, _, next, .refl s, .free⟩
  | heldRead m =>
    simp only [unlockSection]
    split
    · exact ⟨_, _, rfl, .refl s, .rows⟩
    · exact ⟨_, _, rfl, .refl s, .noRows⟩
  | rowsRead m =>
    simp only [unlockSection]
    split
    · exact ⟨_, _, rfl, .refl s, .noQueue⟩
    · exact ⟨_, _, rfl, .refl s, .queue⟩
  | queueFound m =>
    have next : s.unlockSection h r forced (.queueFound m) =
        (s, .ended (.failed (.requestMissing (s.txn h).id m r))) := by
      simp [unlockSection, ended.gone.requests]
    exact ⟨_, _, next, .refl s, .missing⟩
  | released m =>
    refine ⟨_, _, rfl, Path.next ?_ (.side (.tally _)) trivial, .done⟩
    split
    · exact .move (.mark (m := .shrink)) trivial
    · exact .refl s
  | refusing reason =>
    exact ⟨_, _, rfl, refuse_path (fun _ => trivial) fun _ => trivial, .refuse⟩
  | ended => exact absurd underway (Nat.lt_irrefl 0)

/-- What is left of an unlock call whose transaction has been aborted. -/
theorem Ended.finish_unlock (ended : s.Ended tableOf h) (p : UnlockPhase) (enough : p.left ≤ n) :
    ∃ s' outcome, unlockSections (fun _ s => s) h r forced n s p = (s', .ended outcome) ∧
      s'.Ended tableOf h ∧
      (p.Sound → ∀ message, outcome ≠ .failed (.invariantViolation message)) := by
  induction n generalizing s p with
  | zero =>
    obtain ⟨outcome, rfl⟩ := UnlockPhase.eq_ended_of_left (Nat.le_zero.1 enough)
    refine ⟨s, outcome, rfl, ended, fun sound message violation => ?_⟩
    exact sound.2 message (by rw [violation])
  | succ n ih =>
    rcases Nat.eq_zero_or_pos p.left with none | underway
    · obtain ⟨outcome, rfl⟩ := UnlockPhase.eq_ended_of_left none
      exact ih ended _ (Nat.zero_le n)
    · obtain ⟨s', p', next, path, closes⟩ := ended.next_unlock r forced underway
      have fewer := closes.left_lt
      obtain ⟨s'', outcome, rest, ended', sound⟩ := ih (ended.path path) p' (by omega)
      exact ⟨s'', outcome, (unlockSections_next next n).trans rest, ended',
        fun before => sound (closes.sound before.1)⟩

/-- An abort of a transaction tells a call of it that sleeps, and that call returns. -/
theorem Running.abort_asleep (running : s.Running tableOf h) (complete : w.Complete) {v : Sleeper}
    (asleep : v ∈ s.sleepers) (mine : v.handle = h) :
    ∃ s', s.abort w h = (s', .done) ∧ ∀ cs s'', s'.Settles cs s'' →
      (s''.txn h).isAborted = true ∧ s''.Gone h ∧ ⟨v.call, false⟩ ∈ cs := by
  obtain ⟨s', done, settled⟩ :=
    running.books.abort_gone running.marked complete running.known running.uncommitted
  refine ⟨s', done, fun cs s'' settles => ?_⟩
  obtain ⟨gone, txn, returned⟩ := settled cs s'' settles
  refine ⟨?_, gone, returned v asleep mine⟩
  rw [txn]
  exact isAborted_abort running.uncommitted none

/-- Unless the call sleeps by now, nothing of its transaction does, and it has not missed a request. -/
theorem Between.lock_reached (between : s.Between tableOf c.handle)
    (known : c.resource.Known tableOf) {p : LockPhase} (awake : p ≠ .ended .asleep)
    (reached : lockSections (fun _ s => s) c n s .called = (s', p)) :
    s'.Between tableOf c.handle ∧
      ∀ message, p ≠ .ended (.failed (.invariantViolation message)) := by
  rcases Nat.eq_zero_or_pos p.left with none | underway
  · obtain ⟨reply, rfl⟩ := LockPhase.eq_ended_of_left none
    have whole := lock_of_lockSections reached
    have running := between.lock known
    have sound := between.books.lock_reply (c := c)
    have callers := callers_lock (s := s) (c := c) (by simpa [whole] using awake)
    rw [whole] at running sound callers
    refine ⟨⟨running, ?_⟩, fun message => by simpa using sound message⟩
    rw [hasCall_iff, callers, ← hasCall_iff]
    exact between.noCall
  · have between' := between.before_lock_ends n .called
    rw [reached] at between'
    refine ⟨between' underway, ?_⟩
    rintro message rfl
    exact Nat.lt_irrefl 0 underway

theorem Between.abort_lock (between : s.Between tableOf c.handle) (complete : w.Complete)
    (known : c.resource.Known tableOf) {p : LockPhase}
    (reached : lockSections (fun _ s => s) c n s .called = (s', p)) :
    ∃ s₁ s₂ reply, s'.abort w c.handle = (s₁, .done) ∧
      lockSections (fun _ s => s) c 7 s₁ p = (s₂, .ended reply) ∧
      (p.relies = false → ∀ message, reply ≠ .failed (.invariantViolation message)) ∧
      (reply ≠ .asleep → (s₂.txn c.handle).isAborted = true ∧ s₂.Gone c.handle) ∧
      (reply = .asleep → ∀ cs s₃, s₂.Settles cs s₃ →
        (s₃.txn c.handle).isAborted = true ∧ s₃.Gone c.handle ∧ ⟨c.number, false⟩ ∈ cs) := by
  by_cases asleep : p = .ended .asleep
  · subst asleep
    have whole := lock_of_lockSections reached
    have running := between.lock known
    obtain ⟨upgradeOf, there, -⟩ := dozes_lockWith (congrArg Prod.snd whole)
    rw [whole] at running
    rw [show s.lockWith (fun _ s => s) c = (s', .asleep) from whole] at there
    obtain ⟨s₁, done, settled⟩ := running.abort_asleep complete there rfl
    exact ⟨s₁, s₁, .asleep, done, rfl, by simp, fun woken => absurd rfl woken, fun _ => settled⟩
  · obtain ⟨between', unfailing⟩ := between.lock_reached known asleep reached
    obtain ⟨s₁, done, ended⟩ := between'.abort complete
    obtain ⟨s₂, reply, left, ended', woken, sound⟩ := ended.finish_lock p p.left_le asleep
    exact ⟨s₁, s₂, reply, done, left, fun plain => sound ⟨plain, unfailing⟩,
      fun _ => ⟨ended'.aborted, ended'.gone⟩, fun asleep => absurd asleep woken⟩

theorem Between.abort_unlock (between : s.Between tableOf h) (complete : w.Complete)
    {p : UnlockPhase} (reached : unlockSections (fun _ s => s) h r forced n s .called = (s', p)) :
    ∃ s₁ s₂ outcome, s'.abort w h = (s₁, .done) ∧
      unlockSections (fun _ s => s) h r forced 6 s₁ p = (s₂, .ended outcome) ∧
      (p.relies = false → ∀ message, outcome ≠ .failed (.invariantViolation message)) ∧
      (s₂.txn h).isAborted = true ∧ s₂.Gone h := by
  have found := between.run_unlock (r := r) (p := .called) forced n trivial
  rw [reached] at found
  obtain ⟨between', confirms⟩ := found
  obtain ⟨s₁, done, ended⟩ := between'.abort complete
  obtain ⟨s₂, outcome, left, ended', sound⟩ := ended.finish_unlock p p.left_le
  refine ⟨s₁, s₂, outcome, done, left, fun plain => sound ⟨plain, ?_⟩, ended'.aborted, ended'.gone⟩
  rintro message rfl
  exact confirms message rfl

/-- In every state that fair clients can lead to, and for a transaction that has not committed and
has no call asleep: an abort between any two sections of a lock or unlock call of it succeeds, and
what is left of the call comes to an end. Then the transaction is aborted and nothing of it is left,
or the call sleeps, and returns without its lock when all have looked that have been told something.
The same goes for every later look of a sleeping call. No call finds the books at odds with the
queues, unless it goes by a lock that was on record before the abort. -/
theorem nothing_left_of_interrupted_call (reach : Reachable config (fun s e => e.Fair tableOf s) s)
    (usable : s.isUsable h = true) (uncommitted : (s.txn h).state ≠ .committed)
    (noCall : ¬ s.HasCall h) (complete : w.Complete) :
    (∀ c : LockCall, c.handle = h → c.resource.Known tableOf →
      ∀ n s' p, lockSections (fun _ s => s) c n s .called = (s', p) →
        ∃ s₁ s₂ reply, s'.abort w h = (s₁, .done) ∧
          lockSections (fun _ s => s) c 7 s₁ p = (s₂, .ended reply) ∧
          (p.relies = false → ∀ message, reply ≠ .failed (.invariantViolation message)) ∧
          (reply ≠ .asleep → (s₂.txn h).isAborted = true ∧ s₂.Gone h) ∧
          (reply = .asleep → ∀ cs s₃, s₂.Settles cs s₃ →
            (s₃.txn h).isAborted = true ∧ s₃.Gone h ∧ ⟨c.number, false⟩ ∈ cs)) ∧
    (∀ r forced n s' p, unlockSections (fun _ s => s) h r forced n s .called = (s', p) →
      ∃ s₁ s₂ outcome, s'.abort w h = (s₁, .done) ∧
        unlockSections (fun _ s => s) h r forced 6 s₁ p = (s₂, .ended outcome) ∧
        (p.relies = false → ∀ message, outcome ≠ .failed (.invariantViolation message)) ∧
        (s₂.txn h).isAborted = true ∧ s₂.Gone h) ∧
    ∀ s', Reachable config (fun s e => e.Fair tableOf s) s' → s'.isUsable h = true →
      (s'.txn h).state ≠ .committed → ∀ v ∈ s'.sleepers, v.handle = h →
        ∃ s₁, s'.abort w h = (s₁, .done) ∧ ∀ cs s₂, s₁.Settles cs s₂ →
          (s₂.txn h).isAborted = true ∧ s₂.Gone h ∧ ⟨v.call, false⟩ ∈ cs := by
  have between : s.Between tableOf h := ⟨⟨reach.books, reach.marked, usable, uncommitted⟩, noCall⟩
  refine ⟨?_, fun r forced n s' p reached => between.abort_unlock complete reached, ?_⟩
  · rintro c rfl known n s' p reached
    exact between.abort_lock complete known reached
  · intro s' reach' usable' uncommitted' v asleep mine
    have running : s'.Running tableOf h := ⟨reach'.books, reach'.marked, usable', uncommitted'⟩
    exact running.abort_asleep complete asleep mine

/-- For instance when a reader is aborted before he joins the queue behind a writer, while he waits
there, or when he has been granted his lock and does not know it yet, and when the writer is aborted
who has just given back his lock. -/
theorem nothing_left_of_interrupted_reader :
    let s := (fresh {}).afterAll .ascending
      [.op (.begin .repeatableRead), .op (.begin .repeatableRead),
        .op (.lock ⟨2, 0, .exclusive, .table 5⟩)]
    let read : LockCall := ⟨3, 1, .shared, .table 5⟩
    let granted := s.afterAll .ascending [.op (.lock read), .op (.unlock 0 (.table 5) false)]
    (∃ s' s₁ s₂, lockSections (fun _ s => s) read 5 s .called = (s', .queueOpened none) ∧
      s'.abort .ascending 1 = (s₁, .done) ∧
      lockSections (fun _ s => s) read 7 s₁ (.queueOpened none) = (s₂, .ended (.returned false)) ∧
      s₂.Gone 1) ∧
    (∃ s' s₁, lockSections (fun _ s => s) read 7 s .called = (s', .ended .asleep) ∧
      s'.abort .ascending 1 = (s₁, .done) ∧ s₁.settle.1.Gone 1 ∧ ⟨3, false⟩ ∈ s₁.settle.2) ∧
    ((granted.queue (.table 5)).isGranted 1 = true ∧ ∃ s₁,
      granted.abort .ascending 1 = (s₁, .done) ∧ s₁.settle.1.Gone 1 ∧ ⟨3, false⟩ ∈ s₁.settle.2) ∧
    ∃ s' s₁ s₂, unlockSections (fun _ s => s) 0 (.table 5) false 4 s .called =
        (s', .released .exclusive) ∧
      s'.abort .ascending 0 = (s₁, .done) ∧
      unlockSections (fun _ s => s) 0 (.table 5) false 6 s₁ (.released .exclusive) =
        (s₂, .ended .done) ∧ s₂.Gone 0 := by
  intro s read granted
  have reach : Reachable {} (fun s e => e.Fair (fun _ => 5) s) s :=
    Reachable.afterAll Walk.complete_ascending .fresh (by decide +kernel)
  have later : Reachable {} (fun s e => e.Fair (fun _ => 5) s) granted :=
    reach.afterAll Walk.complete_ascending (by decide +kernel)
  obtain ⟨locks, -, waits⟩ := nothing_left_of_interrupted_call reach (h := 1) (by decide +kernel)
    (by decide +kernel) (by decide +kernel) Walk.complete_ascending
  obtain ⟨-, unlocks, -⟩ := nothing_left_of_interrupted_call reach (h := 0) (by decide +kernel)
    (by decide +kernel) (by decide +kernel) Walk.complete_ascending
  have paired {α β : Type} {x : α × β} {b : β} (same : x.2 = b) : x = (x.1, b) := by
    rw [← same]
  refine ⟨?_, ?_, ⟨by decide +kernel, ?_⟩, ?_⟩
  · have joins : lockSections (fun _ s => s) read 5 s .called = (_, .queueOpened none) :=
      paired (by decide +kernel)
    obtain ⟨s₁, s₂, reply, done, left, -, ended, -⟩ := locks read rfl trivial 5 _ _ joins
    have returned : (lockSections (fun _ s => s) read 7
        ((lockSections (fun _ s => s) read 5 s .called).1.abort .ascending 1).1
          (.queueOpened none)).2 = .ended (.returned false) := by decide +kernel
    rw [done, left] at returned
    cases returned
    exact ⟨_, s₁, s₂, joins, done, left, (ended (by simp)).2⟩
  · have sleeps : lockSections (fun _ s => s) read 7 s .called = (_, .ended .asleep) :=
      paired (by decide +kernel)
    obtain ⟨s₁, s₂, reply, done, left, -, -, ended⟩ := locks read rfl trivial 7 _ _ sleeps
    cases left
    obtain ⟨-, gone, returned⟩ := ended rfl _ _ (settles_settle s₁)
    exact ⟨_, s₁, sleeps, done, gone, returned⟩
  · obtain ⟨v, asleep, mine, number⟩ : ∃ v ∈ granted.sleepers, v.handle = 1 ∧ v.call = 3 := by
      decide +kernel
    obtain ⟨s₁, done, settled⟩ :=
      waits granted later (by decide +kernel) (by decide +kernel) v asleep mine
    obtain ⟨-, gone, returned⟩ := settled _ _ (settles_settle s₁)
    exact ⟨s₁, done, gone, number ▸ returned⟩
  · have gave : unlockSections (fun _ s => s) 0 (.table 5) false 4 s .called =
        (_, .released .exclusive) := paired (by decide +kernel)
    obtain ⟨s₁, s₂, outcome, done, left, -, -, gone⟩ := unlocks (.table 5) false 4 _ _ gave
    have returned : outcome = .done := by
      cases left
      rfl
    rw [returned] at left
    exact ⟨_, s₁, s₂, gave, done, left, gone⟩

/-- Locks on record and requests granted are the same, transaction by transaction. -/
def Agrees (s : Engine) : Prop :=
  (∀ h < s.txns.size, ∀ l ∈ (s.txn h).locks.toList,
    (s.queue l.resource.key).grants (s.txn h).id l.mode = true) ∧
  ∀ k ∈ s.queues.keys, ∀ x ∈ (s.queue k).requests, x.granted = true →
    ∃ h < s.txns.size, (s.txn h).id = x.txn ∧ ⟨x.resource, x.mode⟩ ∈ (s.txn h).locks.toList

instance (s : Engine) : Decidable s.Agrees :=
  inferInstanceAs (Decidable (_ ∧ _))

/-- An upgrade and an unlock call go by a lock that the abort has taken back meanwhile, and miss the
request. And when clients make two lock calls at a time, an abort may leave the second request
behind that the transaction has in a queue, though locks and granted requests agree. -/
theorem interrupted_call_may_go_wrong :
    let s := (fresh {}).afterAll .ascending
      [.op (.begin .repeatableRead), .op (.lock ⟨1, 0, .shared, .table 5⟩)]
    let s' := (fresh {}).afterAll .ascending
      [.op (.begin .repeatableRead), .op (.begin .repeatableRead),
        .op (.lock ⟨2, 0, .exclusive, .table 1⟩), .op (.lock ⟨3, 0, .exclusive, .table 2⟩),
        .op (.lock ⟨4, 1, .intentionShared, .table 1⟩),
        .op (.lock ⟨5, 1, .intentionShared, .table 1⟩), .op (.unlock 0 (.table 1) false),
        .wake 4, .wake 5]
    let upgrade : LockCall := ⟨2, 0, .exclusive, .table 5⟩
    let wait : LockCall := ⟨6, 1, .intentionShared, .table 2⟩
    let missing : LockError := .requestMissing 0 .shared (.table 5)
    (Reachable {} (fun s e => e.Fair (fun _ => 5) s) s ∧ s.Agrees ∧ (s.txn 0).state = .growing ∧
      ¬ s.HasCall 0 ∧
      (let (s₁, p) := lockSections (fun _ s => s) upgrade 3 s .called
        let (s₂, outcome) := s₁.abort .ascending 0
        outcome = .done ∧
          (lockSections (fun _ s => s) upgrade 7 s₂ p).2 = .ended (.failed missing)) ∧
      (let (s₁, p) := unlockSections (fun _ s => s) 0 (.table 5) false 1 s .called
        let (s₂, outcome) := s₁.abort .ascending 0
        outcome = .done ∧
          (unlockSections (fun _ s => s) 0 (.table 5) false 6 s₂ p).2 = .ended (.failed missing))) ∧
    Reachable {} (fun s e => e.FreshId s ∧ e.KnowsTables fun _ => 1) s' ∧ s'.Agrees ∧
      s'.isQuiet = true ∧ (s'.txn 1).state = .growing ∧ ¬ s'.HasCall 1 ∧
      let (s₁, p) := lockSections (fun _ s => s) wait 7 s' .called
      let (s₂, outcome) := s₁.abort .ascending 1
      p = .ended .asleep ∧ outcome = .done ∧ s₂.settle.2 = [⟨6, false⟩] ∧
        ((s₂.settle.1).txn 1).locks.toList = [] ∧ (s₂.settle.1.queue (.table 1)).has 1 = true := by
  intro s s' upgrade wait missing
  have reach : Reachable {} (fun s e => e.Fair (fun _ => 5) s) s :=
    Reachable.afterAll Walk.complete_ascending .fresh (by decide +kernel)
  have reach' : Reachable {} (fun s e => e.FreshId s ∧ e.KnowsTables fun _ => 1) s' :=
    Reachable.afterAll Walk.complete_ascending .fresh (by decide +kernel)
  refine ⟨⟨reach, ?_⟩, reach', ?_⟩
  · decide +kernel
  · decide +kernel

end Engine

end TwoPhaseLocking
