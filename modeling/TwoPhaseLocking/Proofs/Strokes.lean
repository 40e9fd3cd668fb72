import Mathlib.Data.List.Basic
import TwoPhaseLocking.Engine

/-! # Strokes

Much of what calls do keeps to one queue, one transaction, the calls asleep and the counters. Two
such strokes may change places if they agree on whatever both of them are about.
-/

namespace TwoPhaseLocking

attribute [ext] Engine

/-- Tells a call that its queue was looked through, if it was this one. -/
def Sleeper.tell (v : Sleeper) (k : QueueKey) : Sleeper :=
  { v with notified := v.notified || decide (v.resource.key = k) }

/-- What is done in one go to one queue, one transaction, the calls asleep and the counters. -/
structure Stroke where
  key : QueueKey
  queue : Queue → Queue := id
  handle : Handle
  txn : Transaction → Transaction := id
  /-- What becomes of a call, if it sleeps on. -/
  sleeper : Sleeper → Option Sleeper
  stats : Stats → Stats := id

namespace Stroke

variable {s : Engine} {a b : Stroke}

def apply (a : Stroke) (s : Engine) : Engine :=
  { (s.updateQueue a.key a.queue).updateTxn a.handle a.txn with
    sleepers := s.sleepers.filterMap a.sleeper
    stats := a.stats s.stats }

theorem queue_apply (a : Stroke) (s : Engine) (k : QueueKey) :
    (a.apply s).queue k = if a.key = k then a.queue (s.queue a.key) else s.queue k :=
  s.queue_updateQueue a.key k a.queue

theorem txn_apply_of_ne {h : Handle} (other : a.handle ≠ h) : (a.apply s).txn h = s.txn h :=
  Engine.txn_updateTxn_of_ne (Ne.symm other)

/-- Strokes may change places that agree on whatever both of them are about. -/
theorem apply_comm
    (queues : a.key = b.key → b.queue (a.queue (s.queue b.key)) = a.queue (b.queue (s.queue b.key)))
    (txns : a.handle = b.handle → ∀ t, b.txn (a.txn t) = a.txn (b.txn t))
    (sleepers : ∀ v ∈ s.sleepers, (a.sleeper v).bind b.sleeper = (b.sleeper v).bind a.sleeper)
    (stats : ∀ t, b.stats (a.stats t) = a.stats (b.stats t)) :
    b.apply (a.apply s) = a.apply (b.apply s) := by
  have map : (b.apply (a.apply s)).queues = (a.apply (b.apply s)).queues := by
    refine Std.ExtTreeMap.ext_getElem? fun k => ?_
    change ((s.queues.insert a.key _).insert b.key (b.queue ((a.apply s).queue b.key)))[k]? =
      ((s.queues.insert b.key _).insert a.key (a.queue ((b.apply s).queue a.key)))[k]?
    simp only [queue_apply, Std.ExtTreeMap.getElem?_insert, Std.compare_eq_iff_eq]
    grind
  have array : (s.txns.modify a.handle a.txn).modify b.handle b.txn =
      (s.txns.modify b.handle b.txn).modify a.handle a.txn := by
    refine Array.ext_getElem? fun h => ?_
    simp only [Array.getElem?_modify]
    grind
  have list : (s.sleepers.filterMap a.sleeper).filterMap b.sleeper =
      (s.sleepers.filterMap b.sleeper).filterMap a.sleeper := by
    rw [List.filterMap_filterMap, List.filterMap_filterMap]
    exact List.filterMap_congr sleepers
  exact Engine.ext rfl (stats s.stats) map rfl rfl rfl rfl list rfl array

end Stroke

namespace Engine

variable {s : Engine} {k : QueueKey} {h : Handle}

theorem sleepers_grantAndNotify (s : Engine) (k : QueueKey) :
    (s.grantAndNotify k).sleepers = s.sleepers.map (·.tell k) := by
  refine List.map_congr_left fun v _ => ?_
  by_cases here : v.resource.key = k <;> simp [Sleeper.tell, here]

/-- Nothing is changed by an edit that leaves a queue as it is. -/
theorem updateQueue_eq_self {f : Queue → Queue} (there : k ∈ s.queues)
    (unchanged : f (s.queue k) = s.queue k) : s.updateQueue k f = s := by
  have same : s.queues.insert k (f (s.queue k)) = s.queues := by
    rw [unchanged]
    refine Std.ExtTreeMap.ext_getElem? fun k' => ?_
    rw [Std.ExtTreeMap.getElem?_insert]
    split
    · rename_i same
      rw [← Std.compare_eq_iff_eq.1 same, Std.ExtTreeMap.getElem?_eq_some_getD there, queue]
    · rfl
  exact Engine.ext rfl rfl same rfl rfl rfl rfl rfl rfl rfl

theorem updateQueue_updateQueue (s : Engine) (k : QueueKey) (f g : Queue → Queue) :
    (s.updateQueue k f).updateQueue k g = s.updateQueue k (g ∘ f) := by
  have same : (s.updateQueue k f).queues.insert k (g ((s.updateQueue k f).queue k)) =
      s.queues.insert k (g (f (s.queue k))) := by
    rw [queue_updateQueue, if_pos rfl]
    refine Std.ExtTreeMap.ext_getElem? fun k' => ?_
    simp only [updateQueue, Std.ExtTreeMap.getElem?_insert]
    split <;> rfl
  exact Engine.ext rfl rfl same rfl rfl rfl rfl rfl rfl rfl

/-- Two edits of one transaction may change places if they do on any transaction. -/
theorem updateTxn_comm {f g : Transaction → Transaction} (comm : ∀ t, f (g t) = g (f t)) :
    (s.updateTxn h f).updateTxn h g = (s.updateTxn h g).updateTxn h f := by
  have same : (s.txns.modify h f).modify h g = (s.txns.modify h g).modify h f := by
    refine Array.ext_getElem? fun h' => ?_
    simp only [Array.getElem?_modify]
    grind
  exact Engine.ext rfl rfl rfl rfl rfl rfl rfl rfl rfl same

/-- Nothing is changed by an edit that leaves a transaction as it is. -/
theorem updateTxn_eq_self {f : Transaction → Transaction}
    (unchanged : h < s.txns.size → f (s.txn h) = s.txn h) : s.updateTxn h f = s := by
  have same : s.txns.modify h f = s.txns := by
    refine Array.ext_getElem? fun h' => ?_
    rw [Array.getElem?_modify]
    split
    · rename_i mine
      subst mine
      by_cases known : h < s.txns.size
      · simpa [txn, known] using unchanged known
      · simp [known]
    · rfl
  exact Engine.ext rfl rfl rfl rfl rfl rfl rfl rfl rfl same

theorem updateTxn_id (s : Engine) (h : Handle) : s.updateTxn h id = s :=
  updateTxn_eq_self fun _ => rfl

end Engine

end TwoPhaseLocking
