import TwoPhaseLocking.Proofs.Paths
import TwoPhaseLocking.Proofs.Queue

/-! # Every queue stays consistent

Whoever edits a queue either runs a grant pass over it before letting go of it, or leaves
its requests as they are. So no queue is ever left with a grant undone, whatever the
clients do. A call that others interrupt keeps to that too, wherever it holds on to nothing
and whatever it has read before, as long as they do.
-/

namespace TwoPhaseLocking.Engine

variable {s s' : Engine} {m : Move}

/-- Every queue is consistent. -/
def Tidy (s : Engine) : Prop := ∀ k, (s.queue k).Consistent

/-- A grant pass over an orderly queue, the others being consistent. -/
theorem tidy_grantAndNotify {k : QueueKey} (orderly : (s.queue k).Orderly)
    (others : ∀ k', k ≠ k' → (s.queue k').Consistent) : (s.grantAndNotify k).Tidy := by
  intro k'
  rw [queue_grantAndNotify]
  split
  · exact orderly.consistent_grant
  · rename_i other
    exact others k' other

/-- An edit that leaves one queue orderly, with a grant pass over it. -/
theorem Tidy.edit {k : QueueKey} (tidy : s.Tidy) (f : Queue → Queue)
    (orderly : (f (s.queue k)).Orderly)
    (edited : ∀ k', s'.queue k' = if k = k' then f (s.queue k) else s.queue k') :
    (s'.grantAndNotify k).Tidy := by
  refine tidy_grantAndNotify ?_ fun k' other => ?_
  · rw [edited, if_pos rfl]
    exact orderly
  · rw [edited, if_neg other]
    exact tidy k'

theorem Tidy.clearUpgrading (tidy : s.Tidy) (k : QueueKey) (id : TxnId) :
    (s.updateQueue k (·.clearUpgrading id)).Tidy := by
  intro k'
  rw [queue_updateQueue]
  split
  · exact (tidy k).clearUpgrading id
  · exact tidy k'

theorem Tidy.withdraw (tidy : s.Tidy) (k : QueueKey) (id : TxnId) :
    ((s.updateQueue k (·.remove id)).grantAndNotify k).Tidy :=
  tidy.edit (·.remove id) ((tidy k).toOrderly.remove id) fun k' => queue_updateQueue s k k' _

/-- A lock given back, whatever becomes of the record of it. -/
theorem Tidy.give {h : Handle} (tidy : s.Tidy) (k : QueueKey) (id : TxnId)
    (f : Transaction → Transaction) :
    (((s.updateQueue k (·.remove id)).updateTxn h f).grantAndNotify k).Tidy := by
  refine tidy.edit (·.remove id) ((tidy k).toOrderly.remove id) fun k' => ?_
  rw [queue_updateTxn, queue_updateQueue]

theorem Tidy.move (tidy : s.Tidy) (does : s.Does m s') : s'.Tidy := by
  cases does with
  | begin | adopt | mark | unregister | retire | doze => exact tidy
  | register =>
    intro k
    rw [queue_register]
    exact tidy k
  | side alike =>
    intro k
    rw [alike.queue]
    exact tidy k
  | @join c admitted =>
    refine tidy.edit (·.push (c.request (s.txn c.handle).id)) ?_ fun k => ?_
    · exact (tidy _).toOrderly.push rfl
    · rw [queue_addSleeper, queue_pushRequest]
  | @swap c old =>
    refine tidy.edit (fun q =>
      (q.remove (s.txn c.handle).id).insertUpgrade (c.request (s.txn c.handle).id)) ?_ fun k => ?_
    · exact ((tidy _).toOrderly.remove _).insertUpgrade rfl
    · rw [queue_addSleeper, queue_swapRequest]
  | @give h r m => exact tidy.give r.key (s.txn h).id (·.forget r m)
  | notify => exact tidy_grantAndNotify (tidy _).toOrderly fun k _ => tidy k
  | @take w xs ys =>
    exact Tidy.clearUpgrading (s := { s with sleepers := xs ++ ys }) tidy _ _
  | @quit w xs ys =>
    have cleared := Tidy.clearUpgrading (s := { s with sleepers := xs ++ ys }) tidy
      w.resource.key (s.txn w.handle).id
    exact cleared.withdraw w.resource.key (s.txn w.handle).id

theorem Tidy.path {ok : Engine → Move → Prop} (tidy : s.Tidy) (path : Path ok s s') : s'.Tidy :=
  path.keeps (fun _ _ _ tidy does _ => tidy.move does) tidy

theorem tidy_fresh (config : Config) : (fresh config).Tidy := fun k => by
  simpa [queue, fresh] using Queue.consistent_empty

theorem Reachable.tidy {config : Config} {may : Engine → Event → Prop}
    (reach : Reachable config may s) : s.Tidy :=
  reach.keeps (tidy_fresh config) fun _ _ _ _ _ _ tidy does _ => tidy.move does

/-- Whatever the clients do, the granted requests of each queue stand in front and may be held
together, the first request that waits is incompatible with one of them, and so the head of a
queue that is not empty is granted. -/
theorem queue_consistent_of_reachable {config : Config} {s : Engine}
    (reach : Reachable config (fun _ _ => True) s) (k : QueueKey) :
    (s.queue k).Consistent ∧
      ∀ r, (s.queue k).requests.head? = some r → r.granted = true :=
  ⟨reach.tidy k, fun _ first => (reach.tidy k).head_granted first⟩

/-- For instance with a reader that waits behind a writer. -/
theorem queue_consistent_behind_writer :
    let s := (fresh {}).afterAll .ascending
      [.op (.begin .repeatableRead), .op (.begin .repeatableRead),
        .op (.lock ⟨2, 0, .exclusive, .table 5⟩), .op (.lock ⟨3, 1, .shared, .table 5⟩)]
    ((s.queue (.table 5)).Consistent ∧
      ∀ r, (s.queue (.table 5)).requests.head? = some r → r.granted = true) ∧
        (s.queue (.table 5)).requests.map (·.granted) = [true, false] :=
  ⟨queue_consistent_of_reachable
    (Reachable.afterAll Walk.complete_ascending .fresh (by simp [Allows])) (.table 5),
    by decide +kernel⟩

section Interrupted

variable {c : LockCall} {h : Handle}

theorem Tidy.conclude (tidy : s.Tidy) : (s.conclude c).1.Tidy := by
  have cleared := tidy.clearUpgrading c.resource.key (s.txn c.handle).id
  unfold Engine.conclude
  dsimp only
  split
  · exact cleared.withdraw c.resource.key (s.txn c.handle).id
  · exact cleared

theorem tidy_await {held : Option Mode} (orderly : (s.queue c.resource.key).Orderly)
    (others : ∀ k, c.resource.key ≠ k → (s.queue k).Consistent) : (s.await c held).1.Tidy := by
  have granted := tidy_grantAndNotify orderly others
  unfold await
  dsimp only
  split
  · exact Tidy.conclude (s := (s.grantAndNotify c.resource.key).tally _) granted
  · split
    · exact Tidy.conclude (s := (s.grantAndNotify c.resource.key).tally _) granted
    · exact granted

theorem Tidy.enqueue {pause : LockGap → Engine → Engine} {held : Option Mode} (tidy : s.Tidy)
    (keep : ∀ g s, s.Tidy → (pause g s).Tidy) : (enqueue pause s c held).1.Tidy := by
  have joined (f : Queue → Queue) (orderly : (f (s.queue c.resource.key)).Orderly) :
      (((s.tally Stats.lockRequest).updateQueue c.resource.key f).queue c.resource.key).Orderly ∧
        ∀ k, c.resource.key ≠ k →
          (((s.tally Stats.lockRequest).updateQueue c.resource.key f).queue k).Consistent := by
    refine ⟨?_, fun k other => ?_⟩
    · rw [queue_updateQueue, if_pos rfl]
      exact orderly
    · rw [queue_updateQueue, if_neg other]
      exact tidy k
  unfold Engine.enqueue
  dsimp only
  split
  · obtain ⟨orderly, others⟩ := joined (·.push (c.request (s.txn c.handle).id))
      ((tidy _).toOrderly.push rfl)
    exact tidy_await orderly others
  · split
    · exact keep .refusing _ tidy
    · split
      · obtain ⟨orderly, others⟩ := joined (fun q => (q.remove (s.txn c.handle).id).insertUpgrade
          (c.request (s.txn c.handle).id)) (((tidy _).toOrderly.remove _).insertUpgrade rfl)
        exact tidy_await orderly others
      · exact tidy

/-- Whatever happens at the gaps of a lock call, its queues are left consistent. -/
theorem Tidy.lockWith {pause : LockGap → Engine → Engine} (tidy : s.Tidy)
    (keep : ∀ g s, s.Tidy → (pause g s).Tidy) : (s.lockWith pause c).1.Tidy := by
  unfold Engine.lockWith
  dsimp only
  split
  · exact tidy
  · have registered : ((pause .stateRead s).register c.handle).Tidy := fun k => by
      rw [queue_register]
      exact keep .stateRead s tidy k
    have begun := keep .registered _ registered
    split
    · exact begun
    · have read := keep .coverRead _ (keep .heldRead _ begun)
      split
      · exact keep .refusing _ read
      · refine Tidy.enqueue (keep .queueOpened _ fun k => ?_) keep
        rw [queue_updateQueue_id]
        exact read k

/-- Whatever happens at the gaps of an unlock call, its queues are left consistent. -/
theorem Tidy.unlockWith {pause : UnlockGap → Engine → Engine} {r : Resource} {forced : Bool}
    (tidy : s.Tidy) (keep : ∀ g s, s.Tidy → (pause g s).Tidy) :
    (s.unlockWith pause h r forced).1.Tidy := by
  unfold Engine.unlockWith
  dsimp only
  split
  · exact keep .refusing s tidy
  · rename_i m held
    have read := keep .heldRead s tidy
    split
    · exact keep .refusing _ read
    · have checked := keep .rowsRead _ read
      split
      · exact checked
      · have found := keep .queueFound _ checked
        split
        · have given := keep .released _ (found.give (h := h) r.key (s.txn h).id (·.forget r m))
          split
          · exact given
          · exact given
        · exact found

theorem Tidy.releaseEach {pause : Nat → Engine → Engine} (tidy : s.Tidy)
    (keep : ∀ n s, s.Tidy → (pause n s).Tidy) (rs : List Resource) :
    (releaseEach pause s h rs).1.Tidy := by
  induction rs generalizing s with
  | nil => exact keep 0 s tidy
  | cons r rs ih =>
    have given : ((pause (rs.length + 1) s).unlock h r true).1.Tidy :=
      Tidy.unlockWith (keep _ s tidy) fun _ _ kept => kept
    rw [Engine.releaseEach]
    split
    · rename_i s' eq
      rw [eq] at given
      exact ih given
    · rename_i s' e eq
      rw [eq] at given
      exact given

/-- Whatever happens at the gaps of a commit, the queues are left consistent. -/
theorem Tidy.commitWith {pause : CommitGap → Engine → Engine} {w : Walk} (tidy : s.Tidy)
    (keep : ∀ g s, s.Tidy → (pause g s).Tidy) : (s.commitWith pause w h).1.Tidy := by
  unfold Engine.commitWith
  dsimp only
  split
  · exact tidy
  · have released := (keep .checked s tidy).releaseEach (h := h)
      (fun n => keep (.releasing n)) (w.locks (pause .checked s) h)
    split
    · rename_i s' e eq
      rw [eq] at released
      exact released
    · rename_i s' eq
      rw [eq] at released
      split
      · exact released
      · exact keep .committed _ released

end Interrupted

end TwoPhaseLocking.Engine
