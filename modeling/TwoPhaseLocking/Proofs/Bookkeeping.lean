import TwoPhaseLocking.Engine.Audit
import TwoPhaseLocking.Proofs.Books

/-! # Bookkeeping equals the queues

The books are kept by every run of fair clients. When all calls that have been told
something have looked at their queues, they come down to this: what a transaction has on
record is what the queues have granted it. No operation ever finds the two at odds.
-/

namespace TwoPhaseLocking.Engine

variable {tableOf : RowId → TableId} {config : Config} {s s₀ : Engine} {h : Handle}
  {r : Resource} {c : LockCall}

theorem fair_of_causes {e : Event} {m : Move} (fair : e.Fair tableOf s₀)
    (causes : e.Causes s₀ s m) : s.Fair tableOf m := by
  cases m with
  | begin iso =>
    obtain ⟨rfl, rfl⟩ := causes
    exact fair.freshId
  | adopt id iso =>
    obtain ⟨rfl, rfl⟩ := causes
    exact fair.freshId
  | join c | swap c old =>
    obtain ⟨callers, rfl⟩ := causes
    refine ⟨?_, fair.knowsTables⟩
    rw [hasCall_iff, callers, ← hasCall_iff]
    exact fair.oneCall
  | _ => trivial

theorem Books.after (books : s.Books tableOf) {e : Event} (fair : e.Fair tableOf s) (w : Walk) :
    (s.after w e).Books tableOf :=
  (after_path w e).keeps (fun _ _ _ books does causes =>
    books.move does (fair_of_causes fair causes)) books

theorem Reachable.books (reach : Reachable config (fun s e => e.Fair tableOf s) s) :
    s.Books tableOf :=
  reach.invariant (books_fresh config) fun _ w _ books fair => books.after fair w

theorem Books.has_of_mem (books : s.Books tableOf) {m : Mode}
    (there : (⟨r, m⟩ : Lock) ∈ (s.txn h).locks) :
    (s.queue r.key).has (s.txn h).id = true := by
  obtain ⟨x, hx, isFor, -⟩ := books.recorded h r m there
  exact Queue.has_iff.2 ⟨x, hx, isFor.txn⟩

theorem mem_queues_of_has {k : QueueKey} {id : TxnId} (has : (s.queue k).has id = true) :
    k ∈ s.queues := by
  by_contra missing
  obtain ⟨x, hx, -⟩ := Queue.has_iff.1 has
  rw [queue, Std.ExtTreeMap.getD_eq_fallback missing] at hx
  cases hx

theorem Books.unlock_reply (books : s.Books tableOf) {forced : Bool} (message : String) :
    (s.unlock h r forced).2 ≠ .failed (.invariantViolation message) := by
  cases held : (s.txn h).locks.mode? r with
  | none =>
    rw [unlock_not_held held]
    simp [refuse]
  | some m =>
    have has := books.has_of_mem (LockSet.mem_of_mode? held)
    rw [unlock_held held, if_neg (c := r.key ∉ s.queues) (not_not.2 (mem_queues_of_has has)),
      if_pos has]
    split <;> simp [refuse]

theorem await_reply {held : Option Mode} (e : LockError) : (s.await c held).2 ≠ .failed e := by
  unfold await
  dsimp only
  split
  · simp
  · split <;> simp

theorem Books.lock_reply (books : s.Books tableOf) (message : String) :
    (s.lock c).2 ≠ .failed (.invariantViolation message) := by
  rw [lock_eq]
  split
  · simp
  · split
    · simp
    · split
      · simp [refuse]
      · cases held : (s.txn c.handle).locks.mode? c.resource with
        | none =>
          rw [enqueue_new]
          exact await_reply _
        | some old =>
          have has := books.has_of_mem (LockSet.mem_of_mode? held)
          cases busy : (s.queue c.resource.key).upgrading with
          | some other =>
            rw [enqueue_conflict (by simp [busy])]
            simp [refuse]
          | none =>
            rw [enqueue_swap (by simp [busy]) (by simpa using has)]
            exact await_reply _

/-- Giving back a list of locks fails for no reason but a broken rule. -/
theorem Books.releaseEach_reply (books : s.Books tableOf) (rs : List Resource)
    (message : String) :
    (releaseEach (fun _ s => s) s h rs).2 ≠ .failed (.invariantViolation message) := by
  induction rs generalizing s with
  | nil => simp [releaseEach]
  | cons r rs ih =>
    have kept : (s.unlock h r true).1.Books tableOf := by
      have path : Path (fun s m => s.Fair tableOf m) s (s.unlock h r true).1 :=
        unlock_path (fun _ => trivial) (fun _ => trivial) (fun _ _ _ => trivial) fun _ => trivial
      exact path.keeps (fun _ _ _ books => books.move) books
    have reply : (s.unlock h r true).2 ≠ _ := books.unlock_reply message
    rw [releaseEach]
    split
    · rename_i s' eq
      rw [eq] at kept
      exact ih kept
    · rename_i s' e eq
      rw [eq] at reply
      exact reply

theorem Books.commit_reply (books : s.Books tableOf) (w : Walk) (message : String) :
    (s.commit w h).2 ≠ .failed (.invariantViolation message) := by
  have released := books.releaseEach_reply (h := h) (w.locks s h) message
  rw [commit, commitWith]
  split
  · simp
  · dsimp only
    split
    · rename_i s' e eq
      rw [eq] at released
      exact released
    · split <;> simp

theorem Books.abort_reply (books : s.Books tableOf) (w : Walk) (message : String) :
    (s.abort w h).2 ≠ .failed (.invariantViolation message) := by
  have woken : (s.abortAndWake w h).Books tableOf := by
    have path : Path (fun s m => s.Fair tableOf m) s (s.abortAndWake w h) :=
      abortAndWake_path w trivial fun _ _ => trivial
    exact path.keeps (fun _ _ _ books => books.move) books
  have released := woken.releaseEach_reply (h := h) (w.locks (s.abortAndWake w h) h) message
  rw [abort]
  split
  · simp
  · rw [releaseAll]
    split
    · rename_i s' e eq
      rw [eq] at released
      exact released
    · simp

theorem ofOutcome_ne_failed {o : Outcome} {success : Reply} {e : LockError}
    (plain : success ≠ .failed e) (sound : o ≠ .failed e) :
    Reply.ofOutcome success o ≠ .failed e := by
  cases o with
  | done => exact plain
  | failed e' =>
    intro eq
    cases eq
    exact sound rfl

theorem ofLock_ne_failed {o : LockReply} {e : LockError} (sound : o ≠ .failed e) :
    Reply.ofLock o ≠ .failed e := by
  cases o with
  | failed e' =>
    intro eq
    cases eq
    exact sound rfl
  | returned | asleep => exact Reply.noConfusion

theorem Books.perform_reply (books : s.Books tableOf) (w : Walk) (op : Op) (message : String) :
    (s.perform w op).2 ≠ .failed (.invariantViolation message) := by
  unfold perform
  split
  · cases op with
    | lock c => exact ofLock_ne_failed (books.lock_reply message)
    | unlock h r forced => exact ofOutcome_ne_failed (by simp) (books.unlock_reply message)
    | releaseAll h => exact ofOutcome_ne_failed (by simp) (books.releaseEach_reply _ message)
    | commit h => exact ofOutcome_ne_failed (by simp) (books.commit_reply w message)
    | abort h => exact ofOutcome_ne_failed (by simp) (books.abort_reply w message)
    | _ => simp [carryOut]
  · simp

theorem grants_iff {q : Queue} {id : TxnId} {m : Mode} : q.grants id m = true ↔
    ∃ x ∈ q.requests, x.txn = id ∧ x.mode = m ∧ x.granted = true := by
  simp [Queue.grants, and_assoc]

/-- When nobody has been told anything, whatever is granted is on record. -/
theorem Books.mem_locks_iff (books : s.Books tableOf) (quiet : s.isQuiet = true)
    (lt : h < s.txns.size) (known : r.Known tableOf) {m : Mode} :
    (⟨r, m⟩ : Lock) ∈ (s.txn h).locks ↔ (s.queue r.key).grants (s.txn h).id m = true := by
  rw [grants_iff]
  constructor
  · intro there
    obtain ⟨x, hx, isFor, granted⟩ := books.recorded h r m there
    exact ⟨x, hx, isFor.txn, isFor.mode, granted⟩
  · rintro ⟨x, hx, own, rfl, granted⟩
    obtain ⟨h', lt', id, backs⟩ := books.backed _ x hx
    obtain rfl : h' = h := books.ids h' h lt' lt (id.symm.trans own)
    have here : x.resource = r := (books.tables _ x hx).eq known (books.placed _ x hx)
    rcases backs with ⟨-, there⟩ | ⟨w, asleep, rfl, on, mode⟩
    · rwa [here] at there
    · obtain ⟨y, hy, isFor, told⟩ := (books.awaits w asleep).asked
      rw [on, here] at hy
      obtain rfl := books.unique hy hx (isFor.txn.trans own.symm)
      have untold : w.notified = false := by
        simpa using List.all_eq_true.1 quiet w asleep
      rw [told granted] at untold
      cases untold

/-- In every state that fair clients can lead to no operation reports an invariant violation.
If moreover all woken calls have run, no transaction stands twice in a queue, the locks on
record are the requests granted, and no resource is recorded in two modes. -/
theorem bookkeeping_equals_queues (reach : Reachable config (fun s e => e.Fair tableOf s) s) :
    (s.isQuiet = true →
      (∀ k, (s.queue k).Once) ∧
      (∀ h < s.txns.size, ∀ r, r.Known tableOf → ∀ m, (⟨r, m⟩ : Lock) ∈ (s.txn h).locks ↔
        (s.queue r.key).grants (s.txn h).id m = true) ∧
      ∀ h r m m', (⟨r, m⟩ : Lock) ∈ (s.txn h).locks → (⟨r, m'⟩ : Lock) ∈ (s.txn h).locks →
        m = m') ∧
    ∀ w op message, (s.perform w op).2 ≠ .failed (.invariantViolation message) := by
  have books := reach.books
  refine ⟨fun quiet => ⟨books.once, fun h lt r known m => books.mem_locks_iff quiet lt known, ?_⟩,
    books.perform_reply⟩
  exact fun h r m m' there there' => (books.lock_unique there there' rfl).2

/-- For instance while one of two transactions waits to turn its lock on the table into a
stronger one. -/
theorem bookkeeping_equals_queues_during_upgrade :
    let s := (fresh {}).afterAll .ascending
      [.op (.begin .repeatableRead), .op (.begin .repeatableRead),
        .op (.lock ⟨2, 0, .intentionExclusive, .table 5⟩),
        .op (.lock ⟨3, 1, .intentionExclusive, .table 5⟩),
        .op (.lock ⟨4, 0, .exclusive, .row 5 ⟨0, 0⟩⟩), .op (.lock ⟨5, 1, .exclusive, .table 5⟩)]
    s.isQuiet = true ∧ (s.sleepers.map (·.handle) = [1]) ∧
      ((⟨.row 5 ⟨0, 0⟩, .exclusive⟩ : Lock) ∈ (s.txn 0).locks ↔
        (s.queue (.row ⟨0, 0⟩)).grants (s.txn 0).id .exclusive = true) ∧
      (s.perform .ascending (.unlock 0 (.row 5 ⟨0, 0⟩) false)).2 ≠
        .failed (.invariantViolation "") := by
  intro s
  have reach : Reachable {} (fun s e => e.Fair (fun _ => 5) s) s :=
    Reachable.afterAll Walk.complete_ascending .fresh (by decide +kernel)
  have balance := bookkeeping_equals_queues reach
  have quiet : s.isQuiet = true := by decide +kernel
  exact ⟨quiet, by decide +kernel,
    (balance.1 quiet).2.1 0 (by decide +kernel) (.row 5 ⟨0, 0⟩) rfl .exclusive, balance.2 _ _ _⟩

end TwoPhaseLocking.Engine
