import Mathlib.Algebra.BigOperators.Group.Finset.Basic
import TwoPhaseLocking.Proofs.Asleep
import TwoPhaseLocking.Proofs.Bookkeeping
import TwoPhaseLocking.Proofs.Failure
import TwoPhaseLocking.Proofs.Victims

/-! # The counters add up

A request that reaches a queue is granted at once, has to wait, or is refused because an upgrade is
under way there. Each of the first two kinds stands in its queue from then on, unless it has taken
the place of a lock, until it is withdrawn or given back. So the counters say how many requests
there are, and every operation changes the two sides alike.
-/

namespace TwoPhaseLocking

/-- How many requests stand in the queues by the counters. -/
def Stats.standing (t : Stats) : UInt64 :=
  t.immediateGrants + t.waits - t.upgrades - t.abortedWaits - t.unlocks

/-- How many requests were counted, but neither granted at once nor made to wait. -/
def Stats.unanswered (t : Stats) : UInt64 :=
  t.lockRequests - t.immediateGrants - t.waits

theorem Policy.request_ne_upgradeConflict {iso : Isolation} {state : TxnState} {m : Mode}
    {r : Resource} {held cover : Option Mode} :
    request iso state m r held cover ≠ some .upgradeConflict := by
  have isolated : isolation iso state m ≠ some .upgradeConflict := by
    cases iso <;> grind [isolation]
  have rowed : rowMode m ≠ some .upgradeConflict := by grind [rowMode]
  have covered : tableLockForRow cover m ≠ some .upgradeConflict := by grind [tableLockForRow]
  have upgraded : held.bind (upgrade · m) ≠ some .upgradeConflict := by
    cases held with
    | none => simp
    | some old => grind [upgrade]
  simp only [request, ne_eq, Option.or_eq_some_iff]
  grind

/-- The event is a lock call that is refused because of an upgrade under way. -/
def Event.conflicts (s : Engine) : Event → Bool
  | op (.lock c) => decide ((s.perform .ascending (.lock c)).2 =
      .failed (.aborted (s.txn c.handle).id .upgradeConflict))
  | _ => false

namespace Engine

variable {tableOf : RowId → TableId} {config : Config} {s s' s'' : Engine} {h : Handle}
  {k : QueueKey} {c : LockCall} {r : Resource} {w : Walk} {n n' : UInt64}
  {past : List (Engine × Event)}

/-- The requests of all queues, one queue after the other. -/
def requests (s : Engine) : List Request :=
  s.queues.keys.flatMap fun k => (s.queue k).requests

theorem mem_requests {x : Request} : x ∈ s.requests ↔ ∃ k, x ∈ (s.queue k).requests := by
  simp only [requests, List.mem_flatMap, Std.ExtTreeMap.mem_keys]
  constructor
  · rintro ⟨k, -, hx⟩
    exact ⟨k, hx⟩
  · rintro ⟨k, hx⟩
    exact ⟨k, mem_queues_of_has (Queue.has_iff.2 ⟨x, hx, rfl⟩), hx⟩

/-- The requests can be counted over any set of queues that leaves none out. -/
theorem length_requests (s : Engine) {ks : Finset QueueKey} (all : ∀ k ∈ s.queues, k ∈ ks) :
    s.requests.length = ∑ k ∈ ks, (s.queue k).requests.length := by
  rw [requests, List.length_flatMap, ← List.sum_toFinset _ Std.ExtTreeMap.nodup_keys]
  refine Finset.sum_subset (fun k there => ?_) fun k _ missing => ?_
  · exact all k (by simpa using there)
  · have absent : k ∉ s.queues := by simpa using missing
    simp [queue, Std.ExtTreeMap.getD_eq_fallback absent]

/-- An edit of one queue changes the number by what it changes there. -/
theorem length_requests_updateQueue (s : Engine) (k : QueueKey) (f : Queue → Queue) :
    (s.updateQueue k f).requests.length + (s.queue k).requests.length =
      s.requests.length + (f (s.queue k)).requests.length := by
  have there : k ∈ insert k s.queues.keys.toFinset := Finset.mem_insert_self ..
  have before : ∀ k' ∈ s.queues, k' ∈ insert k s.queues.keys.toFinset :=
    fun k' there => Finset.mem_insert_of_mem (by simpa using there)
  have all : ∀ k' ∈ (s.updateQueue k f).queues, k' ∈ insert k s.queues.keys.toFinset := by
    intro k' there
    simpa [updateQueue, Std.ExtTreeMap.mem_insert, @eq_comm _ k k'] using there
  have others : ∑ k' ∈ (insert k s.queues.keys.toFinset).erase k,
        ((s.updateQueue k f).queue k').requests.length =
      ∑ k' ∈ (insert k s.queues.keys.toFinset).erase k, (s.queue k').requests.length :=
    Finset.sum_congr rfl fun k' other => by
      rw [queue_updateQueue, if_neg (Finset.ne_of_mem_erase other).symm]
  rw [length_requests (s.updateQueue k f) all, length_requests s before,
    ← Finset.add_sum_erase _ _ there, ← Finset.add_sum_erase _ _ there, others, queue_updateQueue,
    if_pos rfl]
  omega

/-- By how many the requests exceed what the counters say. -/
def surplus (s : Engine) : UInt64 := UInt64.ofNat s.requests.length - s.stats.standing

theorem surplus_fresh (config : Config) : (fresh config).surplus = 0 := by
  have none : (fresh config).requests = [] :=
    List.eq_nil_iff_forall_not_mem.2 fun x there => by
      obtain ⟨k, hx⟩ := mem_requests.1 there
      simp [fresh, queue] at hx
  rw [surplus, none]
  simp [fresh, Stats.standing]

theorem surplus_updateQueue (s : Engine) (k : QueueKey) (f : Queue → Queue) :
    (s.updateQueue k f).surplus = s.surplus + UInt64.ofNat (f (s.queue k)).requests.length -
      UInt64.ofNat (s.queue k).requests.length := by
  have counted := congrArg UInt64.ofNat (length_requests_updateQueue s k f)
  rw [UInt64.ofNat_add, UInt64.ofNat_add] at counted
  have same : (s.updateQueue k f).stats = s.stats := rfl
  rw [surplus, surplus, same]
  grind

/-- An edit that leaves a queue as long as it was makes no difference. -/
theorem surplus_updateQueue_of_length {f : Queue → Queue}
    (length : (f (s.queue k)).requests.length = (s.queue k).requests.length) :
    (s.updateQueue k f).surplus = s.surplus := by
  rw [surplus_updateQueue, length]
  grind

@[simp]
theorem surplus_grantAndNotify : (s.grantAndNotify k).surplus = s.surplus :=
  surplus_updateQueue_of_length (f := Queue.grant) (Queue.length_grantWaiting _ _)

@[simp]
theorem surplus_clearUpgrading {id : TxnId} :
    (s.updateQueue k (·.clearUpgrading id)).surplus = s.surplus :=
  surplus_updateQueue_of_length (by simp)

@[simp]
theorem surplus_updateTxn {f : Transaction → Transaction} :
    (s.updateTxn h f).surplus = s.surplus := rfl

@[simp]
theorem surplus_addSleeper {v : Sleeper} : (s.addSleeper v).surplus = s.surplus := rfl

@[simp]
theorem surplus_register : (s.register h).surplus = s.surplus := by
  unfold register
  split <;> rfl

theorem surplus_tally (s : Engine) (f : Stats → Stats) :
    (s.tally f).surplus = s.surplus + s.stats.standing - (f s.stats).standing := by
  have same : (s.tally f).requests = s.requests := rfl
  rw [surplus, surplus, same, tally]
  grind

theorem length_remove {q : Queue} {id : TxnId} (has : q.has id = true) :
    (q.remove id).requests.length + 1 = q.requests.length := by
  obtain ⟨x, hx, own⟩ := Queue.has_iff.1 has
  have positive := List.length_pos_of_mem hx
  rw [Queue.requests_remove, List.length_eraseP_of_mem hx (by simpa using own)]
  omega

theorem surplus_remove {id : TxnId} (has : (s.queue k).has id = true) :
    (s.updateQueue k (·.remove id)).surplus = s.surplus - 1 := by
  rw [surplus_updateQueue, ← length_remove has, UInt64.ofNat_add]
  grind

/-- Counters and queues have changed alike, and of the requests counted `n` went without an
answer. -/
structure Accounts (s : Engine) (n : UInt64) (s' : Engine) : Prop where
  surplus : s'.surplus = s.surplus
  unanswered : s'.stats.unanswered = s.stats.unanswered + n

theorem Accounts.refl (s : Engine) : s.Accounts 0 s := ⟨rfl, by grind⟩

theorem Accounts.trans (first : s.Accounts n s') (second : s'.Accounts n' s'') :
    s.Accounts (n + n') s'' :=
  ⟨second.surplus.trans first.surplus, by rw [second.unanswered, first.unanswered]; grind⟩

theorem Accounts.trans_zero (first : s.Accounts n s') (second : s'.Accounts 0 s'') :
    s.Accounts n s'' := by
  simpa using first.trans second

/-- Nothing is done but what neither side takes notice of. -/
theorem accounts_of_eq (surplus : s'.surplus = s.surplus) (stats : s'.stats = s.stats) :
    s.Accounts 0 s' :=
  ⟨surplus, by rw [stats]; grind⟩

@[simp]
theorem stats_register : (s.register h).stats = s.stats := by
  unfold register
  split <;> rfl

theorem accounts_register : s.Accounts 0 (s.register h) :=
  accounts_of_eq surplus_register stats_register

theorem accounts_open : s.Accounts 0 (s.updateQueue k id) :=
  accounts_of_eq (surplus_updateQueue_of_length rfl) rfl

theorem accounts_grantAndNotify : s.Accounts 0 (s.grantAndNotify k) :=
  accounts_of_eq surplus_grantAndNotify rfl

/-- A counter that stands for no request. -/
theorem accounts_tally {f : Stats → Stats} (standing : (f s.stats).standing = s.stats.standing)
    (unanswered : (f s.stats).unanswered = s.stats.unanswered) : s.Accounts 0 (s.tally f) where
  surplus := by
    rw [surplus_tally, standing]
    grind
  unanswered := by
    rw [tally, unanswered]
    grind

theorem accounts_updateTxn {f : Transaction → Transaction} : s.Accounts 0 (s.updateTxn h f) :=
  accounts_of_eq rfl rfl

theorem accounts_refuse (s : Engine) (h : Handle) (reason : AbortReason) :
    s.Accounts 0 (s.refuse h reason).1 :=
  accounts_updateTxn.trans_zero (accounts_tally (f := Stats.policyAbort) rfl rfl)

/-- A request that stands in its queue is counted as granted at once, or as waiting. -/
theorem surplus_await (held : Option Mode) (live : (s.txn c.handle).isAborted = false) :
    (s.await c held).1.surplus = s.surplus - 1 ∧
      (s.await c held).1.stats.unanswered = s.stats.unanswered - 1 := by
  cases granted : ((s.queue c.resource.key).grant).isGranted (s.txn c.handle).id with
  | true =>
    have counted : ((s.grantAndNotify c.resource.key).tally Stats.immediateGrant).surplus =
        s.surplus - 1 := by
      rw [surplus_tally, surplus_grantAndNotify]
      simp only [Stats.standing, Stats.immediateGrant]
      grind
    rw [await_granted live granted]
    refine ⟨by simpa using counted, ?_⟩
    change (Stats.immediateGrant s.stats).unanswered = _
    simp only [Stats.unanswered, Stats.immediateGrant]
    grind
  | false =>
    have counted : ((s.grantAndNotify c.resource.key).tally Stats.wait).surplus =
        s.surplus - 1 := by
      rw [surplus_tally, surplus_grantAndNotify]
      simp only [Stats.standing, Stats.wait]
      grind
    rw [await_waits live granted]
    refine ⟨by simpa using counted, ?_⟩
    change (Stats.wait s.stats).unanswered = _
    simp only [Stats.unanswered, Stats.wait]
    grind

/-- A call that finds its transaction aborted takes back its request. -/
theorem accounts_conclude (has : (s.txn c.handle).isAborted = true →
    (s.queue c.resource.key).has (s.txn c.handle).id = true) : s.Accounts 0 (s.conclude c).1 := by
  cases aborted : (s.txn c.handle).isAborted with
  | false =>
    rw [conclude_live aborted]
    exact accounts_of_eq (by simp) rfl
  | true =>
    rw [conclude_aborted aborted]
    have there : ((s.updateQueue c.resource.key (·.clearUpgrading (s.txn c.handle).id)).queue
        c.resource.key).has (s.txn c.handle).id = true := by
      rw [queue_updateQueue, if_pos rfl, Queue.has, Queue.find?, Queue.requests_clearUpgrading]
      exact has aborted
    constructor
    · rw [surplus_tally, surplus_grantAndNotify, surplus_remove there, surplus_clearUpgrading]
      change s.surplus - 1 + s.stats.standing - (Stats.abortedWait s.stats).standing = _
      simp only [Stats.standing, Stats.abortedWait]
      grind
    · change (Stats.abortedWait s.stats).unanswered = _
      simp only [Stats.unanswered, Stats.abortedWait]
      grind

theorem surplus_pushRequest : (s.pushRequest c).surplus = s.surplus + 1 := by
  rw [pushRequest, surplus_updateQueue, Queue.requests_push, List.length_append, UInt64.ofNat_add]
  simp only [List.length_singleton]
  grind

theorem surplus_swapRequest {old : Mode}
    (has : (s.queue c.resource.key).has (s.txn c.handle).id = true) :
    (s.swapRequest c old).surplus = s.surplus := by
  rw [swapRequest, surplus_updateTxn]
  refine surplus_updateQueue_of_length ?_
  rw [(Queue.requests_insertUpgrade_perm _ _).length_eq, List.length_cons]
  exact length_remove has

/-- Of the requests that reach a queue only one that conflicts with an upgrade goes without an
answer. -/
theorem accounts_enqueue (held : Option Mode) (live : (s.txn c.handle).isAborted = false)
    (there : ∀ m, held = some m → (s.queue c.resource.key).has (s.txn c.handle).id = true) :
    s.Accounts (if (enqueue (fun _ s => s) s c held).2 =
        .failed (.aborted (s.txn c.handle).id .upgradeConflict) then 1 else 0)
      (enqueue (fun _ s => s) s c held).1 := by
  have asked : (s.tally Stats.lockRequest).surplus = s.surplus := by
    rw [surplus_tally]
    change s.surplus + s.stats.standing - s.stats.standing = _
    grind
  have counted : s.stats.lockRequest.unanswered = s.stats.unanswered + 1 := by
    simp only [Stats.unanswered, Stats.lockRequest]
    grind
  cases held with
  | none =>
    have answered := surplus_await (s := (s.tally Stats.lockRequest).pushRequest c) none live
    rw [enqueue_new, if_neg (await_reply _)]
    constructor
    · rw [answered.1, surplus_pushRequest, asked]
      grind
    · rw [answered.2]
      change s.stats.lockRequest.unanswered - 1 = _
      rw [counted]
      grind
  | some old =>
    cases free : (s.queue c.resource.key).upgrading with
    | some other =>
      rw [enqueue_conflict (by simp [free])]
      have refused := accounts_refuse (s.tally Stats.lockRequest) c.handle .upgradeConflict
      constructor
      · exact refused.surplus.trans asked
      · exact refused.unanswered.trans (by
          change s.stats.lockRequest.unanswered + 0 = _
          rw [counted]
          simp [refuse])
    | none =>
      have has := there old rfl
      have live' : ((s.tally Stats.lockRequest).swapRequest c old |>.txn c.handle).isAborted = false :=
        (isAborted_updateTxn_forget ..).trans live
      have answered := surplus_await
        (s := ((s.tally Stats.lockRequest).swapRequest c old).tally Stats.upgrade)
        (some old) live'
      rw [enqueue_swap free has, if_neg (await_reply _)]
      constructor
      · rw [answered.1, surplus_tally, surplus_swapRequest (s := s.tally Stats.lockRequest) has, asked]
        change s.surplus + s.stats.lockRequest.standing - s.stats.lockRequest.upgrade.standing - 1 = _
        simp only [Stats.standing, Stats.upgrade, Stats.lockRequest]
        grind
      · rw [answered.2]
        change s.stats.lockRequest.upgrade.unanswered - 1 = _
        change s.stats.lockRequest.unanswered - 1 = _
        rw [counted]
        grind

theorem Books.accounts_lock (books : s.Books tableOf) :
    s.Accounts (if (s.lock c).2 = .failed (.aborted (s.txn c.handle).id .upgradeConflict) then 1
      else 0) (s.lock c).1 := by
  rw [lock_eq]
  split
  · exact .refl s
  · rename_i active
    split
    · exact accounts_register
    · split
      · rename_i reason refused
        rw [if_neg]
        · exact accounts_register.trans_zero (accounts_refuse ..)
        · rintro same
          injection same with same
          injection same with _ same
          exact Policy.request_ne_upgradeConflict (same ▸ refused)
      · have live := isAborted_of_active (Bool.eq_false_iff.2 active)
        have ready : s.Accounts 0 ((s.register c.handle).updateQueue c.resource.key id) :=
          accounts_register.trans_zero accounts_open
        have entered := accounts_enqueue
          (s := (s.register c.handle).updateQueue c.resource.key id) (c := c)
          ((s.txn c.handle).locks.mode? c.resource) (by simpa using live) fun m held => by
            simpa using books.has_of_mem (LockSet.mem_of_mode? held)
        simpa using ready.trans entered

theorem accounts_unlock (s : Engine) (h : Handle) (r : Resource) (forced : Bool) :
    s.Accounts 0 (s.unlock h r forced).1 := by
  cases held : (s.txn h).locks.mode? r with
  | none =>
    rw [unlock_not_held held]
    exact accounts_refuse ..
  | some m =>
    rw [unlock_held held]
    split
    · exact accounts_refuse ..
    · split
      · exact .refl s
      · split
        · rename_i has
          have dropped : ((s.dropLock h r m).grantAndNotify r.key).surplus = s.surplus - 1 := by
            rw [surplus_grantAndNotify, dropLock, surplus_updateTxn, surplus_remove has]
          have given : s.Accounts 0
              (((s.dropLock h r m).grantAndNotify r.key).tally Stats.unlock) := by
            constructor
            · rw [surplus_tally, dropped]
              change s.surplus - 1 + s.stats.standing - s.stats.unlock.standing = _
              simp only [Stats.standing, Stats.unlock]
              grind
            · change s.stats.unlock.unanswered = _
              simp only [Stats.unanswered, Stats.unlock]
              grind
          split
          · exact given.trans_zero accounts_updateTxn
          · exact given
        · exact .refl s

theorem accounts_releaseEach (rs : List Resource) :
    s.Accounts 0 (releaseEach (fun _ s => s) s h rs).1 := by
  induction rs generalizing s with
  | nil => exact .refl s
  | cons r rs ih =>
    have given := accounts_unlock s h r true
    rw [releaseEach]
    split
    · rename_i done
      rw [done] at given
      exact given.trans_zero ih
    · rename_i failed
      rw [failed] at given
      exact given

theorem accounts_wakeIn (ks : List QueueKey) (id : TxnId) : s.Accounts 0 (s.wakeIn ks id) := by
  induction ks generalizing s with
  | nil => exact .refl s
  | cons k ks ih =>
    rw [wakeIn, List.foldl_cons]
    split
    · exact accounts_grantAndNotify.trans_zero ih
    · exact ih

theorem accounts_wakeEach (ids : List TxnId) :
    s.Accounts 0 (ids.foldl (wakePending w) s) := by
  induction ids generalizing s with
  | nil => exact .refl s
  | cons id ids ih => exact (accounts_wakeIn _ _).trans_zero ih

theorem accounts_abortAndWake : s.Accounts 0 (s.abortAndWake w h) :=
  accounts_updateTxn.trans_zero (accounts_wakeIn _ _)

theorem accounts_commit : s.Accounts 0 (s.commit w h).1 := by
  rw [commit, commitWith]
  dsimp only
  have given := accounts_releaseEach (s := s) (h := h) (w.locks s h)
  split
  · exact .refl s
  · split
    · rename_i failed
      rw [failed] at given
      exact given
    · rename_i done
      rw [done] at given
      split
      · exact given
      · exact given.trans_zero (accounts_of_eq rfl rfl)

theorem accounts_abort : s.Accounts 0 (s.abort w h).1 := by
  rw [abort, releaseAll]
  have given := accounts_abortAndWake.trans_zero
    (accounts_releaseEach (s := s.abortAndWake w h) (h := h) (w.locks (s.abortAndWake w h) h))
  split
  · exact .refl s
  · split
    · rename_i failed
      rw [failed] at given
      exact given
    · rename_i done
      rw [done] at given
      exact given.trans_zero (accounts_of_eq rfl rfl)

theorem accounts_withVictim : s.Accounts 0 (s.withVictim h) :=
  accounts_updateTxn.trans_zero (accounts_tally (f := Stats.deadlockResolved) rfl rfl)

theorem accounts_sacrifice (all : Bool) (vs : List TxnId) :
    s.Accounts 0 (s.sacrifice all vs).1 := by
  induction vs generalizing s with
  | nil => exact .refl s
  | cons v vs ih =>
    rw [sacrifice]
    split
    · exact ih
    · rename_i aborted
      obtain ⟨h, -, -, rfl⟩ := exists_of_abortVictim aborted
      split
      · exact accounts_withVictim.trans_zero ih
      · exact accounts_withVictim

theorem accounts_detect : s.Accounts 0 (s.detect w).1 := by
  obtain ⟨s₁, victims, woken, struck, eq⟩ := detect_eq s w
  have given := accounts_sacrifice (s := s.tally Stats.detectionPass) s.config.resolveAll
    ((s.tally Stats.detectionPass).waitGraph w).breakCycles.1
  rw [struck] at given
  have counted : s.Accounts 0 (s.tally Stats.detectionPass) := accounts_tally rfl rfl
  have emptied : s₁.Accounts 0 { s₁ with graph := ∅ } := accounts_of_eq rfl rfl
  rw [eq]
  exact ((counted.trans_zero given).trans_zero emptied).trans_zero (accounts_wakeEach _)

theorem Books.accounts_wake (books : s.Books tableOf) (n : Nat) : s.Accounts 0 (s.wake n).1 := by
  rw [wake]
  split
  · exact .refl s
  · rename_i v found
    have asleep := List.mem_of_find?_eq_some found
    split
    · obtain ⟨x, hx, isFor, -⟩ := (books.awaits v asleep).asked
      have taken : s.Accounts 0 { s with sleepers := s.sleepers.erase v } :=
        accounts_of_eq rfl rfl
      exact taken.trans_zero (accounts_conclude fun _ => Queue.has_iff.2 ⟨x, hx, isFor.txn⟩)
    · exact accounts_of_eq rfl rfl

/-- What an event does to both sides. Only calls that report a conflict go without an answer. -/
theorem Books.accounts_after (books : s.Books tableOf) (w : Walk) (e : Event) :
    s.Accounts (if e.conflicts s then 1 else 0) (s.after w e) := by
  cases e with
  | wake n => exact books.accounts_wake n
  | op o =>
    cases usable : o.handle?.all s.isUsable with
    | false =>
      have same (w : Walk) : s.perform w o = (s, .noSuchTransaction) := by
        rw [perform, usable]
        rfl
      rw [Engine.after, same, if_neg]
      · exact .refl s
      · cases o <;> simp [Event.conflicts, same]
    | true =>
      have same (w : Walk) : s.perform w o = s.carryOut w o := by
        rw [perform, if_pos usable]
      rw [Engine.after, same]
      cases o with
      | lock c =>
        have conflicts : (Event.op (.lock c)).conflicts s =
            decide ((s.lock c).2 = .failed (.aborted (s.txn c.handle).id .upgradeConflict)) := by
          simp only [Event.conflicts, same, carryOut, Prod.map_snd]
          cases (s.lock c).2 <;> simp [Reply.ofLock]
        rw [conflicts, carryOut, Prod.map_fst]
        simpa using books.accounts_lock (c := c)
      | unlock => exact accounts_unlock ..
      | releaseAll => exact accounts_releaseEach _
      | commit => exact accounts_commit
      | abort => exact accounts_abort
      | abortAndWake => exact accounts_abortAndWake
      | detect => exact accounts_detect
      | startDetector =>
        refine accounts_of_eq ?_ ?_ <;>
        · simp only [carryOut, startDetector]
          split <;> rfl
      | begin | adopt | letGo | unregister | setState | addEdge | removeEdge | stopDetector =>
        exact accounts_of_eq rfl rfl

/-- When nobody has been told anything, those who wait in queues are those who have calls asleep. -/
theorem Books.waiting_perm (books : s.Books tableOf) (quiet : s.isQuiet = true) :
    ((s.requests.filter (!·.granted)).map (·.txn)).Perm
      (s.sleepers.map fun v => (s.txn v.handle).id) := by
  have each : (s.requests.filter (!·.granted)).map (·.txn) =
      s.queues.keys.flatMap fun k => (s.queue k).waiting := by
    simp [requests, List.filter_flatMap, List.map_flatMap, Queue.waiting]
  have once : (s.sleepers.map fun v => (s.txn v.handle).id).Nodup := by
    refine List.Nodup.map_on (fun v asleep v' asleep' same => ?_) books.calls.of_map
    have mine := books.ids _ _ (books.known v asleep) (books.known v' asleep') same
    exact List.inj_on_of_nodup_map books.calls asleep asleep' mine
  refine (List.perm_ext_iff_of_nodup ?_ once).2 fun id => ?_
  · rw [each, List.nodup_flatMap]
    refine ⟨fun k _ => (books.once k).sublist (List.filter_sublist.map _), ?_⟩
    refine Std.ExtTreeMap.nodup_keys.imp fun {k k'} other => ?_
    rw [Function.onFun, List.disjoint_left]
    intro id there there'
    simp only [Queue.waiting, List.mem_map, List.mem_filter, Bool.not_eq_true'] at there there'
    obtain ⟨x, ⟨hx, waits⟩, rfl⟩ := there
    obtain ⟨y, ⟨hy, waits'⟩, same⟩ := there'
    exact other (books.waiting_unique hx hy same.symm waits waits')
  · simp only [List.mem_map, List.mem_filter, mem_requests, Bool.not_eq_true']
    constructor
    · rintro ⟨x, ⟨⟨k, hx⟩, waits⟩, rfl⟩
      obtain ⟨v, asleep, same, -⟩ := books.asleep_of_waits hx waits
      exact ⟨v, asleep, same.symm⟩
    · rintro ⟨v, asleep, rfl⟩
      obtain ⟨x, hx, isFor, waits⟩ := books.waits asleep (untold_of_isQuiet quiet asleep)
      exact ⟨x, ⟨⟨_, hx⟩, waits⟩, isFor.txn⟩

theorem Run.accounts (run : Run config (fun s e => e.Fair tableOf s) past s) :
    (Engine.fresh config).Accounts (UInt64.ofNat (past.countP fun p => p.2.conflicts p.1)) s := by
  induction run with
  | fresh => exact .refl _
  | @next past s w e run _ _ ih =>
    have step := ih.trans (run.reachable.books.accounts_after w e)
    rw [List.countP_cons, UInt64.ofNat_add]
    cases conflicts : e.conflicts s <;> simpa [conflicts] using step

/-- In every run of fair clients the counters agree with what has happened and with the queues,
modulo 2^64. A request was granted at once, made to wait, or refused because of a conflicting
upgrade. As many requests stand in the queues as were granted at once or made to wait, but for those
that took the place of a lock, were withdrawn or given back. Once all calls have looked that have been
told something, as many of them wait as there are calls asleep. -/
theorem counters_agree (run : Run config (fun s e => e.Fair tableOf s) past s) :
    s.stats.lockRequests = s.stats.immediateGrants + s.stats.waits +
        UInt64.ofNat (past.countP fun p => p.2.conflicts p.1) ∧
    UInt64.ofNat s.requests.length = s.stats.immediateGrants + s.stats.waits - s.stats.upgrades -
        s.stats.abortedWaits - s.stats.unlocks ∧
    (s.isQuiet = true → s.requests.countP (!·.granted) = s.sleepers.length) := by
  have accounts := run.accounts
  have unanswered : s.stats.unanswered =
      UInt64.ofNat (past.countP fun p => p.2.conflicts p.1) := by
    rw [accounts.unanswered]
    simp [Engine.fresh, Stats.unanswered]
  have surplus : UInt64.ofNat s.requests.length - s.stats.standing = 0 :=
    accounts.surplus.trans (surplus_fresh config)
  refine ⟨?_, ?_, fun quiet => ?_⟩
  · rw [← unanswered, Stats.unanswered]
    grind
  · rw [Stats.standing] at surplus
    grind
  · simpa [List.countP_eq_length_filter] using
      (run.reachable.books.waiting_perm quiet).length_eq

/-- For instance when of two readers who both want to write one waits and the other is refused, two
more wait behind them, and of these one is aborted. -/
theorem counters_agree_after_conflict :
    let s := (fresh {}).afterAll .ascending
      [.op (.begin .repeatableRead), .op (.begin .repeatableRead), .op (.begin .repeatableRead),
        .op (.begin .repeatableRead), .op (.lock ⟨4, 0, .shared, .table 1⟩),
        .op (.lock ⟨5, 1, .shared, .table 1⟩), .op (.lock ⟨6, 0, .exclusive, .table 1⟩),
        .op (.lock ⟨7, 1, .exclusive, .table 1⟩), .op (.lock ⟨8, 2, .exclusive, .table 1⟩),
        .op (.lock ⟨9, 3, .exclusive, .table 1⟩), .op (.abort 1), .op (.abort 3), .wake 6, .wake 9,
        .wake 8]
    (∃ past, Run {} (fun s e => e.Fair (fun _ => 1) s) past s ∧
      UInt64.ofNat (past.countP fun p => p.2.conflicts p.1) = 1) ∧
      s.stats.toList.take 6 = [6, 2, 3, 1, 1, 1] ∧ s.requests.length = 2 ∧
      s.requests.countP (!·.granted) = s.sleepers.length := by
  intro s
  have reach : Reachable {} (fun s e => e.Fair (fun _ => 1) s) s :=
    Reachable.afterAll Walk.complete_ascending .fresh (by decide +kernel)
  obtain ⟨past, run⟩ := reach.exists_run
  obtain ⟨asked, -, waiting⟩ := counters_agree run
  have counted : s.stats.toList.take 6 = [6, 2, 3, 1, 1, 1] := by decide +kernel
  have conflict : UInt64.ofNat (past.countP fun p => p.2.conflicts p.1) = 1 := by
    simp only [Stats.toList, List.take_succ_cons, List.take_zero, List.cons.injEq] at counted
    rw [counted.1, counted.2.1, counted.2.2.1] at asked
    grind
  exact ⟨⟨past, run, conflict⟩, counted, by decide +kernel, waiting (by decide +kernel)⟩

end Engine

end TwoPhaseLocking
