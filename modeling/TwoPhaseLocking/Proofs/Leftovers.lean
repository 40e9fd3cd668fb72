import TwoPhaseLocking.Proofs.Drain
import TwoPhaseLocking.Proofs.Looks
import TwoPhaseLocking.Proofs.Upgrade

/-! # Ending a transaction leaves nothing behind

A commit, an abort and giving back everything walk over the locks of a transaction, but the request
of a sleeping call is no lock. It is withdrawn by the call itself, and so is its upgrade mark. An
abort tells all calls of the transaction, and none of them goes back to sleep, so once all have
looked there is neither a request of the transaction nor a mark.
-/

namespace TwoPhaseLocking.Engine

variable {tableOf : RowId → TableId} {config : Config} {s s' s'' : Engine} {h h' : Handle}
  {w : Walk} {cs : List Completion}

/-- Nothing of the transaction is left but itself. -/
structure Gone (s : Engine) (h : Handle) : Prop where
  locks : (s.txn h).locks = ∅
  requests : ∀ k, (s.queue k).has (s.txn h).id = false
  marks : ∀ k, (s.queue k).upgrading ≠ some (s.txn h).id
  calls : ¬ s.HasCall h

/-- Requests are backed by locks or calls, and marks by calls. -/
theorem Books.gone (books : s.Books tableOf) (marked : s.Marked) (known : h < s.txns.size)
    (empty : (s.txn h).locks = ∅) (noCall : ¬ s.HasCall h) : s.Gone h where
  locks := empty
  requests k := by
    by_contra there
    obtain ⟨x, hx, own⟩ := Queue.has_iff.1 (by simpa using there)
    obtain ⟨h', lt, id, backs⟩ := books.backed k x hx
    obtain rfl : h' = h := books.ids h' h lt known (id.symm.trans own)
    rcases backs with ⟨-, lock⟩ | ⟨v, asleep, mine, -⟩
    · exact LockSet.eq_empty_iff.1 empty _ lock
    · exact noCall ⟨v, asleep, mine⟩
  marks k there := by
    obtain ⟨v, asleep, -, own, -⟩ := marked k _ there
    exact noCall ⟨v, asleep, books.ids _ _ (books.known v asleep) known own⟩
  calls := noCall

theorem Marked.path {ok : Engine → Move → Prop} (marked : s.Marked) (books : s.Books tableOf)
    (fair : ∀ s m, ok s m → s.Fair tableOf m) (path : Path ok s s') : s'.Marked := by
  refine (path.keeps (P := fun s => s.Books tableOf ∧ s.Marked) ?_ ⟨books, marked⟩).2
  rintro s m s' ⟨books, marked⟩ does allowed
  exact ⟨books.move does (fair s m allowed), marked.move books does⟩

/-- What calls that look at their queues do to a transaction: one of its own may take a lock. -/
theorem Looks.txn_eq (looks : s.Looks cs s') (known : h < s.txns.size) :
    s'.txn h = { s.txn h with locks := (s'.txn h).locks } := by
  have path : Path (fun _ m => ∀ h k, m ≠ .mark h k) s s' :=
    looks.path (by simp) (by simp) (by simp) (by simp)
  refine (path.keeps (P := fun s' => h < s'.txns.size ∧
    s'.txn h = { s.txn h with locks := (s'.txn h).locks }) ?_ ⟨known, rfl⟩).2
  rintro s₁ m s₂ ⟨lt, same⟩ does plain
  refine ⟨Nat.lt_of_lt_of_le lt does.size_le, ?_⟩
  rcases does.txn_eq lt with eq | ⟨k, rfl, -⟩
  · rw [eq, same]
  · exact absurd rfl (plain h k)

/-- A transaction without locks that can be ended has none afterwards, and is as it was. -/
theorem Looks.txn_of_ripe (looks : s.Looks cs s') (known : h < s.txns.size) (ripe : s.Ripe h)
    (empty : (s.txn h).locks = ∅) : s'.txn h = s.txn h := by
  rw [looks.txn_eq known, (closes_of_winding looks.winding).locks h ripe empty, ← empty]

/-- Whoever has no locks and can be ended is gone once all have looked. -/
theorem Settles.gone (settles : s.Settles cs s') (books : s.Books tableOf) (marked : s.Marked)
    (known : h < s.txns.size) (empty : (s.txn h).locks = ∅) (ripe : s.Ripe h)
    (noCall : ¬ s'.HasCall h) : s'.Gone h := by
  have winding := settles.looks.winding
  refine (books_of_path books winding).gone
    (marked.path books (fun _ _ => fair_of_winding) winding) ?_ ?_ noCall
  · exact (closes_of_winding winding).size ▸ known
  · rw [settles.looks.txn_of_ripe known ripe empty, empty]

/-- Ending a transaction makes nobody forget what he was told. -/
theorem Doomed.ending (doomed : s.Doomed h) (path : Path (·.Ending h') s s') : s'.Doomed h := by
  refine path.keeps (P := fun s => s.Doomed h) ?_ doomed
  refine fun s a s' doomed does ending => ⟨?_, fun v there mine => ?_⟩
  · refine (does.isAborted doomed.aborted).resolve_right ?_
    rintro ⟨state, rfl, -⟩
    exact ending
  · have notified {s₁ : Engine} {k : QueueKey} (same : s₁.sleepers = s.sleepers)
        (there : v ∈ (s₁.grantAndNotify k).sleepers) : v.notified = true := by
      obtain ⟨u, before, rfl⟩ := mem_sleepers_grantAndNotify.1 there
      rw [same] at before
      split at mine
      · rw [if_pos ‹_›]
      · rw [if_neg ‹_›]
        exact doomed.told u before mine
    cases does with
    | mark | retire => exact doomed.told v there mine
    | give | notify => exact notified rfl there
    | side alike => exact doomed.told v (alike.sleepers ▸ there) mine
    | _ => exact ending.elim

/-- An abort tells all calls of its transaction, wherever they sleep. -/
theorem Books.doomed_abortAndWake (books : s.Books tableOf) (complete : w.Complete)
    (known : h < s.txns.size) (unfinished : (s.txn h).state ≠ .committed) :
    (s.abortAndWake w h).Doomed h := by
  constructor
  case aborted =>
    rw [txn_abortAndWake known]
    exact isAborted_abort unfinished none
  case told =>
    intro v there mine
    rw [Engine.abortAndWake, wakePending, sleepers_wakeIn] at there
    obtain ⟨u, asleep, rfl⟩ := List.mem_map.1 there
    split at mine
    · rw [if_pos ‹_›]
    · rename_i passed
      obtain ⟨x, hx, isFor, -⟩ := (books.awaits u asleep).asked
      have has : ((s.updateTxn h (·.abort none)).queue u.resource.key).has (s.txn h).id = true :=
        Queue.has_iff.2 ⟨x, hx, by rw [isFor.txn, mine]⟩
      exact absurd ⟨complete.mem_queues has, has⟩ passed

/-- Nobody returns while a transaction is ended. -/
theorem asleep_of_ending {v : Sleeper} (path : Path (·.Ending h') s s') (asleep : v ∈ s.sleepers) :
    ∃ v' ∈ s'.sleepers, v'.hushed = v.hushed := by
  refine path.keeps (P := fun s' => ∃ v' ∈ s'.sleepers, v'.hushed = v.hushed) ?_ ⟨v, asleep, rfl⟩
  rintro s₁ a s₂ ⟨v', there, same⟩ does ending
  rcases does.asleep there with ⟨u, still, same'⟩ | rfl | rfl
  · exact ⟨u, still, same'.trans same⟩
  · exact ending.elim
  · exact ending.elim

theorem fair_of_ending {a : Move} (ending : s.Ending h a) : s.Fair tableOf a := by
  cases a with
  | begin | adopt | join | swap => exact ending.elim
  | _ => trivial

theorem Books.ending (books : s.Books tableOf) (path : Path (·.Ending h) s s') :
    s'.Books tableOf :=
  path.keeps (fun _ _ _ books does ending => books.move does (fair_of_ending ending)) books

/-- Where the ways to end a transaction have left it without locks, and with no call unless it is
aborted and told so, nothing of it is left when all have looked. -/
theorem Books.gone_of_ending (books : s.Books tableOf) (marked : s.Marked) (known : h < s.txns.size)
    (path : Path (·.Ending h) s s') (empty : (s'.txn h).locks = ∅)
    (settles : s'.Settles cs s'') (ripe : s'.Ripe h) (noCall : ¬ s''.HasCall h) :
    s''.Gone h ∧ s''.txn h = s'.txn h := by
  have known' : h < s'.txns.size := (closes_of_ending path).size ▸ known
  exact ⟨settles.gone (books.ending path) (marked.path books (fun _ _ => fair_of_ending) path)
    known' empty ripe noCall, settles.looks.txn_of_ripe known' ripe empty⟩

theorem Looks.noCall (looks : s.Looks cs s') (noCall : ¬ s.HasCall h) : ¬ s'.HasCall h := by
  intro there
  rw [hasCall_iff] at there
  exact noCall (hasCall_iff.2 ((winds_of_path looks.winding).callers.subset there))

theorem Books.abort_gone (books : s.Books tableOf) (marked : s.Marked) (complete : w.Complete)
    (known : h < s.txns.size) (unfinished : (s.txn h).state ≠ .committed) :
    ∃ s₁, s.abort w h = (s₁, .done) ∧ ∀ cs s', s₁.Settles cs s' → s'.Gone h ∧
      s'.txn h = { (s.txn h).abort none with locks := ∅ } ∧
      ∀ v ∈ s.sleepers, v.handle = h → ⟨v.call, false⟩ ∈ cs := by
  obtain ⟨s₁, done, ended, given⟩ := books.abort_released complete known unfinished
  have retired : Path (·.Ending h) (s.abortAndWake w h) (s₁.retire (s.txn h).id) :=
    (ending_of_giving given).next .retire trivial
  have path : Path (·.Ending h) s (s₁.retire (s.txn h).id) :=
    (abortAndWake_path w rfl fun _ _ => trivial).trans retired
  have doomed := (books.doomed_abortAndWake complete known unfinished).ending retired
  refine ⟨_, done, fun cs s' settles => ?_⟩
  obtain ⟨noCall, returned⟩ := settles.returns doomed
  have empty : ((s₁.retire (s.txn h).id).txn h).locks = ∅ := congrArg Transaction.locks ended
  obtain ⟨gone, same⟩ :=
    books.gone_of_ending marked known path empty settles (.inl doomed.aborted) noCall
  refine ⟨gone, same.trans ended, fun v asleep mine => ?_⟩
  obtain ⟨v', asleep', same'⟩ := asleep_of_ending path asleep
  obtain ⟨call, handle, -⟩ := Sleeper.eq_of_hushed same'
  exact call ▸ returned v' asleep' (handle.trans mine)

theorem Books.commit_gone (books : s.Books tableOf) (marked : s.Marked) (complete : w.Complete)
    (active : (s.txn h).state.isTerminal = false) (known : h < s.txns.size)
    (noCall : ¬ s.HasCall h) :
    ∃ s₁, s.commit w h = (s₁, .done) ∧ ∀ cs s', s₁.Settles cs s' → s'.Gone h ∧
      s'.txn h = { (s.txn h).commit with locks := ∅ } := by
  obtain ⟨s₁, done, empty, path⟩ := books.commit_done complete active noCall
  obtain ⟨s₂, released, ended, given⟩ := books.commit_released complete active
  have committed : s₁.txn h = { (s.txn h).commit with locks := ∅ } := by
    have last : s₁ = (s₂.updateTxn h (·.commit)).retire (s.txn h).id :=
      congrArg Prod.fst (done.symm.trans released)
    have known' : h < s₂.txns.size := (closes_of_ending (ending_of_giving given)).size ▸ known
    rw [last, txn_committed known' active ended]
    simp [Transaction.commit, active]
  have idle : ¬ s₁.HasCall h := fun there => noCall (hasCall_of_ending path there)
  refine ⟨s₁, done, fun cs s' settles => ?_⟩
  obtain ⟨gone, same⟩ := books.gone_of_ending marked known path empty settles (.inr idle)
    (settles.looks.noCall idle)
  exact ⟨gone, same.trans committed⟩

theorem Books.releaseAll_gone (books : s.Books tableOf) (marked : s.Marked) (complete : w.Complete)
    (known : h < s.txns.size) (noCall : ¬ s.HasCall h) :
    ∃ s₁, s.releaseAll w h = (s₁, .done) ∧ ∀ cs s', s₁.Settles cs s' → s'.Gone h ∧
      s'.txn h = { s.txn h with locks := ∅ } := by
  obtain ⟨s₁, done, ended, given⟩ := books.releaseEach_done (books.owes complete h)
  have path := ending_of_giving given
  have idle : ¬ s₁.HasCall h := fun there => noCall (hasCall_of_ending path there)
  refine ⟨s₁, done, fun cs s' settles => ?_⟩
  obtain ⟨gone, same⟩ := books.gone_of_ending marked known path (congrArg Transaction.locks ended)
    settles (.inr idle) (settles.looks.noCall idle)
  exact ⟨gone, same.trans ended⟩

/-- In every state that fair clients can lead to: an abort of a transaction that has not committed
succeeds, even while a call of it sleeps, as does a commit of a running one and giving back all
locks, as long as no call of it sleeps. Once all calls have looked that have been told something, in
whatever order, the transaction has no lock, no request in any queue and no upgrade mark, and the
call that it had asleep has returned without its lock. Giving back everything changes nothing of
the transaction but its locks. -/
theorem nothing_left (reach : Reachable config (fun s e => e.Fair tableOf s) s)
    (known : h < s.txns.size) (complete : w.Complete) :
    ((s.txn h).state ≠ .committed → ∃ s₁, s.abort w h = (s₁, .done) ∧
      ∀ cs s', s₁.Settles cs s' → s'.Gone h ∧
        s'.txn h = { (s.txn h).abort none with locks := ∅ } ∧
        ∀ v ∈ s.sleepers, v.handle = h → ⟨v.call, false⟩ ∈ cs) ∧
    ((s.txn h).state.isTerminal = false → ¬ s.HasCall h → ∃ s₁, s.commit w h = (s₁, .done) ∧
      ∀ cs s', s₁.Settles cs s' → s'.Gone h ∧
        s'.txn h = { (s.txn h).commit with locks := ∅ }) ∧
    (¬ s.HasCall h → ∃ s₁, s.releaseAll w h = (s₁, .done) ∧
      ∀ cs s', s₁.Settles cs s' → s'.Gone h ∧ s'.txn h = { s.txn h with locks := ∅ }) := by
  have books := reach.books
  have marked := reach.marked
  exact ⟨books.abort_gone marked complete known,
    fun active noCall => books.commit_gone marked complete active known noCall,
    books.releaseAll_gone marked complete known⟩

/-- For instance when a reader who waits to become the writer is aborted, while the other reader
commits, or gives back everything. -/
theorem nothing_left_of_two_readers :
    let s := (fresh {}).afterAll .ascending
      [.op (.begin .repeatableRead), .op (.begin .repeatableRead),
        .op (.lock ⟨2, 0, .shared, .table 5⟩), .op (.lock ⟨3, 1, .shared, .table 5⟩),
        .op (.lock ⟨4, 1, .exclusive, .table 5⟩)]
    (s.queue (.table 5)).upgrading = some 1 ∧ s.callers = [1] ∧
      (∃ s₁, s.abort .ascending 1 = (s₁, .done) ∧ s₁.settle.1.Gone 1 ∧
        ⟨4, false⟩ ∈ s₁.settle.2) ∧
      (∃ s₁, s.commit .ascending 0 = (s₁, .done) ∧ s₁.settle.1.Gone 0) ∧
      ∃ s₁, s.releaseAll .ascending 0 = (s₁, .done) ∧ s₁.settle.1.Gone 0 := by
  intro s
  have reach : Reachable {} (fun s e => e.Fair (fun _ => 5) s) s :=
    Reachable.afterAll Walk.complete_ascending .fresh (by decide +kernel)
  obtain ⟨v, asleep, mine, number⟩ : ∃ v ∈ s.sleepers, v.handle = 1 ∧ v.call = 4 := by
    decide +kernel
  have complete := Walk.complete_ascending
  obtain ⟨s₁, aborted, gone⟩ :=
    (nothing_left reach (h := 1) (by decide +kernel) complete).1 (by decide +kernel)
  obtain ⟨-, commits, releases⟩ := nothing_left reach (h := 0) (by decide +kernel) complete
  obtain ⟨s₂, committed, gone₂⟩ := commits (by decide +kernel) (by decide +kernel)
  obtain ⟨s₃, released, gone₃⟩ := releases (by decide +kernel)
  refine ⟨by decide +kernel, by decide +kernel, ⟨s₁, aborted, ?_⟩,
    ⟨s₂, committed, (gone₂ _ _ (settles_settle s₂)).1⟩,
    s₃, released, (gone₃ _ _ (settles_settle s₃)).1⟩
  obtain ⟨left, -, returned⟩ := gone _ _ (settles_settle s₁)
  exact ⟨left, number ▸ returned v asleep mine⟩

end TwoPhaseLocking.Engine
