import TwoPhaseLocking.Proofs.Frame
import TwoPhaseLocking.Proofs.Paths
import TwoPhaseLocking.Proofs.Strokes
import TwoPhaseLocking.Proofs.Waits

/-! # Operations in the small

A lock or unlock call is a sequence of deeds, each of which is about one transaction or one queue, or
about no more than a counter. What deeds these are, and what the call replies, can be told from its
transaction and its queue alone.
-/

namespace TwoPhaseLocking

/-- A counter goes up by one. -/
inductive Stats.Counts : (Stats → Stats) → Prop where
  | lockRequest : Counts lockRequest
  | immediateGrant : Counts immediateGrant
  | wait : Counts wait
  | upgrade : Counts upgrade
  | abortedWait : Counts abortedWait
  | unlock : Counts unlock
  | policyAbort : Counts policyAbort

theorem Stats.Counts.comm {f g : Stats → Stats} (one : Counts f) (two : Counts g) (t : Stats) :
    f (g t) = g (f t) := by
  cases one <;> cases two <;> rfl

/-- The transaction and the resource of an operation that is about one resource only. -/
def Op.site? : Op → Option (Handle × Resource)
  | lock c => some (c.handle, c.resource)
  | unlock h r _ => some (h, r)
  | begin _ | adopt .. | letGo _ | releaseAll _ | commit _ | abort _ | abortAndWake _
  | unregister _ | setState .. | detect | addEdge _ | removeEdge _ | startDetector
  | stopDetector => none

theorem Op.handle?_of_site? {op : Op} {h : Handle} {r : Resource}
    (about : op.site? = some (h, r)) : op.handle? = some h := by
  cases op <;> cases about <;> rfl

/-- One of the things that an operation does. -/
inductive Deed where
  | enroll (id : TxnId) (h : Handle)
  | edit (k : QueueKey) (f : Queue → Queue)
  /-- Tells all calls that sleep on the queue that it was looked through. -/
  | tell (k : QueueKey)
  | amend (h : Handle) (f : Transaction → Transaction)
  | join (v : Sleeper)
  | count (f : Stats → Stats)

namespace Engine

/-- What comes of a deed. -/
def doing (s : Engine) : Deed → Engine
  | .enroll id h => { s with registry := s.registry.insert id h }
  | .edit k f => s.updateQueue k f
  | .tell k => { s with sleepers := s.sleepers.map (·.tell k) }
  | .amend h f => s.updateTxn h f
  | .join v => s.addSleeper v
  | .count f => s.tally f

def doingAll (s : Engine) (ds : List Deed) : Engine := ds.foldl doing s

end Engine

/-- The deed is about this transaction and this queue. -/
def Deed.At (h : Handle) (me : TxnId) (k : QueueKey) : Deed → Prop
  | enroll id _ => id = me
  | edit k' _ | tell k' => k' = k
  | amend h' _ => h' = h
  | join v => v.handle = h ∧ v.resource.key = k ∧ v.notified = false
  | count f => Stats.Counts f

namespace Engine

variable {tableOf : RowId → TableId} {config : Config} {may : Engine → Event → Prop}
  {s s' s'' : Engine} {h h' : Handle} {me : TxnId} {k k' : QueueKey} {d : Deed} {ds : List Deed}
  {c : LockCall} {α : Type}

/-- To this transaction and at this queue the states look the same. -/
structure SameAt (h : Handle) (k : QueueKey) (s s' : Engine) : Prop where
  txn? : s'.txns[h]? = s.txns[h]?
  queue? : s'.queues[k]? = s.queues[k]?

theorem SameAt.refl (s : Engine) : s.SameAt h k s := ⟨rfl, rfl⟩

theorem SameAt.trans (first : s.SameAt h k s') (second : s'.SameAt h k s'') : s.SameAt h k s'' :=
  ⟨second.txn?.trans first.txn?, second.queue?.trans first.queue?⟩

theorem SameAt.txn (sameAt : s.SameAt h k s') : s'.txn h = s.txn h := by
  rw [Engine.txn, Engine.txn, Array.getD_eq_getD_getElem?, sameAt.txn?, Array.getD_eq_getD_getElem?]

theorem SameAt.isUsable (sameAt : s.SameAt h k s') : s'.isUsable h = s.isUsable h := by
  rw [Engine.isUsable, sameAt.txn?, Engine.isUsable]

theorem SameAt.queue (sameAt : s.SameAt h k s') : s'.queue k = s.queue k := by
  rw [Engine.queue, Engine.queue, Std.ExtTreeMap.getD_eq_getD_getElem?, sameAt.queue?,
    Std.ExtTreeMap.getD_eq_getD_getElem?]

theorem SameAt.mem_queues (sameAt : s.SameAt h k s') : k ∈ s'.queues ↔ k ∈ s.queues := by
  rw [Std.ExtTreeMap.mem_iff_isSome_getElem?, sameAt.queue?, Std.ExtTreeMap.mem_iff_isSome_getElem?]

theorem getElem?_updateTxn (s : Engine) (h h' : Handle) (f : Transaction → Transaction) :
    (s.updateTxn h f).txns[h']? = if h = h' then s.txns[h']?.map f else s.txns[h']? :=
  Array.getElem?_modify

theorem getElem?_updateQueue (s : Engine) (k k' : QueueKey) (f : Queue → Queue) :
    (s.updateQueue k f).queues[k']? = if k = k' then some (f (s.queue k)) else s.queues[k']? := by
  simp [updateQueue, Std.ExtTreeMap.getElem?_insert]

/-- Where the states look the same they still do after the same deed. -/
theorem SameAt.doing (sameAt : s.SameAt h k s') (d : Deed) :
    (s.doing d).SameAt h k (s'.doing d) := by
  cases d with
  | enroll | tell | join | count => exact ⟨sameAt.txn?, sameAt.queue?⟩
  | edit k' f =>
    refine ⟨sameAt.txn?, ?_⟩
    change (s'.updateQueue k' f).queues[k]? = (s.updateQueue k' f).queues[k]?
    rw [getElem?_updateQueue, getElem?_updateQueue]
    split
    · rename_i same
      rw [same, sameAt.queue]
    · exact sameAt.queue?
  | amend h' f =>
    refine ⟨?_, sameAt.queue?⟩
    change (s'.updateTxn h' f).txns[h]? = (s.updateTxn h' f).txns[h]?
    rw [getElem?_updateTxn, getElem?_updateTxn, sameAt.txn?]

theorem SameAt.doingAll (sameAt : s.SameAt h k s') (ds : List Deed) :
    (s.doingAll ds).SameAt h k (s'.doingAll ds) := by
  induction ds generalizing s s' with
  | nil => exact sameAt
  | cons d ds ih => exact ih (sameAt.doing d)

/-- A deed elsewhere makes no difference here. -/
theorem sameAt_doing (at' : d.At h me k) (other : h ≠ h') (elsewhere : k ≠ k') (s : Engine) :
    s.SameAt h' k' (s.doing d) := by
  cases d with
  | enroll | tell | join | count => exact ⟨rfl, rfl⟩
  | edit k'' f =>
    obtain rfl : k'' = k := at'
    exact ⟨rfl, (getElem?_updateQueue ..).trans (if_neg elsewhere)⟩
  | amend h'' f =>
    obtain rfl : h'' = h := at'
    exact ⟨(getElem?_updateTxn ..).trans (if_neg other), rfl⟩

theorem sameAt_doingAll (here : ∀ d ∈ ds, d.At h me k) (other : h ≠ h') (elsewhere : k ≠ k')
    (s : Engine) : s.SameAt h' k' (s.doingAll ds) := by
  induction ds generalizing s with
  | nil => exact .refl s
  | cons d ds ih =>
    rw [List.forall_mem_cons] at here
    exact (sameAt_doing here.1 other elsewhere s).trans (ih here.2 (s.doing d))

/-- Wherever things look to the transaction and at the queue as they do here, `f` consists of the
same deeds, all about these two, and comes to the same. -/
def Local (h : Handle) (me : TxnId) (k : QueueKey) (s : Engine) (f : Engine → Engine × α) : Prop :=
  ∃ (ds : List Deed) (a : α), (∀ d ∈ ds, d.At h me k) ∧
    ∀ s', s.SameAt h k s' → f s' = (s'.doingAll ds, a)

theorem local_of_eq {f : Engine → Engine × α} (ds : List Deed) (here : ∀ d ∈ ds, d.At h me k)
    (a : α) (runs : ∀ s', s.SameAt h k s' → f s' = (s'.doingAll ds, a)) : s.Local h me k f :=
  ⟨ds, a, here, runs⟩

/-- Some deeds first, and then the rest. -/
theorem Local.after {f g : Engine → Engine × α} (ds : List Deed) (here : ∀ d ∈ ds, d.At h me k)
    (rest : (s.doingAll ds).Local h me k g)
    (first : ∀ s', s.SameAt h k s' → f s' = g (s'.doingAll ds)) : s.Local h me k f := by
  obtain ⟨ds', a, here', runs⟩ := rest
  refine ⟨ds ++ ds', a, List.forall_mem_append.2 ⟨here, here'⟩, fun s' sameAt => ?_⟩
  rw [first s' sameAt, runs _ (sameAt.doingAll ds), doingAll, doingAll, doingAll, List.foldl_append]

theorem Local.map {β : Type} {f : Engine → Engine × α} (there : s.Local h me k f) (g : α → β) :
    s.Local h me k fun s' => (f s').map id g := by
  obtain ⟨ds, a, here, runs⟩ := there
  exact ⟨ds, g a, here, fun s' sameAt => congrArg (Prod.map id g) (runs s' sameAt)⟩

theorem grantAndNotify_eq (s : Engine) (k : QueueKey) :
    s.grantAndNotify k = s.doingAll [.edit k Queue.grant, .tell k] :=
  Engine.ext rfl rfl rfl rfl rfl rfl rfl (s.sleepers_grantAndNotify k) rfl rfl

theorem local_refuse (s : Engine) (h : Handle) (me : TxnId) (k : QueueKey) (reason : AbortReason) :
    s.Local h me k fun s' => s'.refuse h reason := by
  refine local_of_eq [.amend h (·.abort (some reason)), .count Stats.policyAbort] ?_
    (.aborted (s.txn h).id reason) fun s' sameAt => ?_
  · simp [Deed.At, Stats.Counts.policyAbort]
  · rw [← sameAt.txn]
    rfl

/-- A request that has just joined its queue is granted, or its call falls asleep. -/
theorem local_await (held : Option Mode) (live : (s.txn c.handle).isAborted = false) :
    s.Local c.handle me c.resource.key fun s' => s'.await c held := by
  cases granted : ((s.queue c.resource.key).grant).isGranted (s.txn c.handle).id with
  | true =>
    refine local_of_eq [.edit c.resource.key Queue.grant, .tell c.resource.key,
      .count Stats.immediateGrant, .edit c.resource.key (·.clearUpgrading (s.txn c.handle).id),
      .amend c.handle (·.record c.resource c.mode)] ?_ (.returned true) fun s' sameAt => ?_
    · simp [Deed.At, Stats.Counts.immediateGrant]
    · rw [← sameAt.txn] at live
      rw [← sameAt.queue, ← sameAt.txn] at granted
      rw [await_granted live granted, grantAndNotify_eq, sameAt.txn]
      rfl
  | false =>
    refine local_of_eq [.edit c.resource.key Queue.grant, .tell c.resource.key,
      .count Stats.wait, .join (c.sleeper held)] ?_ .asleep fun s' sameAt => ?_
    · simp [Deed.At, Stats.Counts.wait, LockCall.sleeper]
    · rw [← sameAt.txn] at live
      rw [← sameAt.queue, ← sameAt.txn] at granted
      rw [await_waits live granted, grantAndNotify_eq]
      rfl

theorem local_enqueue (held : Option Mode) (live : (s.txn c.handle).isAborted = false) :
    s.Local c.handle me c.resource.key fun s' => enqueue (fun _ s => s) s' c held := by
  cases held with
  | none =>
    refine .after [.count Stats.lockRequest,
      .edit c.resource.key (·.push (c.request (s.txn c.handle).id))] ?_
        (local_await none live) fun s' sameAt => ?_
    · simp [Deed.At, Stats.Counts.lockRequest]
    · rw [enqueue_new, ← sameAt.txn]
      rfl
  | some old =>
    cases busy : (s.queue c.resource.key).upgrading with
    | some other =>
      refine .after [.count Stats.lockRequest] ?_
        ((local_refuse _ c.handle me c.resource.key .upgradeConflict).map .failed)
          fun s' sameAt => ?_
      · simp [Deed.At, Stats.Counts.lockRequest]
      · rw [enqueue_conflict (by rw [sameAt.queue, busy]; rfl)]
        rfl
    | none =>
      cases there : (s.queue c.resource.key).has (s.txn c.handle).id with
      | false =>
        refine local_of_eq [.count Stats.lockRequest] ?_
          (.failed (.requestMissing (s.txn c.handle).id old c.resource)) fun s' sameAt => ?_
        · simp [Deed.At, Stats.Counts.lockRequest]
        · rw [enqueue_missing (by rw [sameAt.queue, busy])
            (by rw [sameAt.queue, sameAt.txn, there]), sameAt.txn]
          rfl
      | true =>
        refine .after [.count Stats.lockRequest,
          .edit c.resource.key fun q => (q.remove (s.txn c.handle).id).insertUpgrade
            (c.request (s.txn c.handle).id),
          .amend c.handle (·.forget c.resource old), .count Stats.upgrade] ?_
            (local_await (some old) ?_) fun s' sameAt => ?_
        · simp [Deed.At, Stats.Counts.lockRequest, Stats.Counts.upgrade]
        · exact (isAborted_updateTxn_forget ..).trans live
        · rw [enqueue_swap (by rw [sameAt.queue, busy]) (by rw [sameAt.queue, sameAt.txn, there]),
            ← sameAt.txn]
          rfl

/-- A lock call once its transaction is registered. -/
def lockRegistered (s : Engine) (c : LockCall) : Engine × LockReply :=
  if (s.txn c.handle).locks.mode? c.resource = some c.mode then (s, .returned true)
  else
    match Policy.request (s.txn c.handle).isolation (s.txn c.handle).state c.mode c.resource
      ((s.txn c.handle).locks.mode? c.resource)
      ((s.txn c.handle).locks.mode? (.table c.resource.tableId)) with
    | some reason => (s.refuse c.handle reason).map id .failed
    | none => enqueue (fun _ s => s) (s.updateQueue c.resource.key id) c
        ((s.txn c.handle).locks.mode? c.resource)

theorem lock_of_active (active : (s.txn c.handle).state.isTerminal = false) :
    s.lock c = (s.register c.handle).lockRegistered c := by
  rewrite [lock_eq, if_neg (by simp [active]), lockRegistered, txn_register]
  rfl

theorem local_lockRegistered (me : TxnId) (active : (s.txn c.handle).state.isTerminal = false) :
    s.Local c.handle me c.resource.key fun s' => s'.lockRegistered c := by
  by_cases held : (s.txn c.handle).locks.mode? c.resource = some c.mode
  · refine local_of_eq [] nofun (.returned true) fun s' sameAt => ?_
    rw [lockRegistered, sameAt.txn, if_pos held]
    rfl
  cases law : Policy.request (s.txn c.handle).isolation (s.txn c.handle).state c.mode c.resource
    ((s.txn c.handle).locks.mode? c.resource)
    ((s.txn c.handle).locks.mode? (.table c.resource.tableId)) with
  | some reason =>
    refine .after [] nofun ((local_refuse s c.handle me c.resource.key reason).map .failed)
      fun s' sameAt => ?_
    simp only [lockRegistered, sameAt.txn, if_neg held, law]
    rfl
  | none =>
    refine .after [.edit c.resource.key id] (by simp [Deed.At])
      (local_enqueue ((s.txn c.handle).locks.mode? c.resource) (isAborted_of_active active))
      fun s' sameAt => ?_
    simp only [lockRegistered, sameAt.txn, if_neg held, law]
    rfl

theorem local_unlock (s : Engine) (h : Handle) (me : TxnId) (r : Resource) (forced : Bool) :
    s.Local h me r.key fun s' => s'.unlock h r forced := by
  cases held : (s.txn h).locks.mode? r with
  | none =>
    refine .after [] nofun
      ((local_refuse s h me r.key .attemptedUnlockButNoLockHeld).map .failed) fun s' sameAt => ?_
    rw [unlock_not_held (by rw [sameAt.txn, held])]
    rfl
  | some m =>
    by_cases rows : (r.isTable && (s.txn h).locks.hasRowsOn r.tableId) = true
    · refine .after [] nofun
        ((local_refuse s h me r.key .tableUnlockedBeforeUnlockingRows).map .failed)
          fun s' sameAt => ?_
      rw [unlock_held (by rw [sameAt.txn, held]), sameAt.txn, if_pos rows]
      rfl
    by_cases missing : r.key ∉ s.queues
    · refine local_of_eq [] nofun (.failed (.queueMissing (s.txn h).id m r))
        fun s' sameAt => ?_
      rw [unlock_held (by rw [sameAt.txn, held]), sameAt.txn, if_neg rows,
        if_pos (mt sameAt.mem_queues.1 missing)]
      rfl
    by_cases there : (s.queue r.key).has (s.txn h).id = true
    · have given (s' : Engine) (sameAt : s.SameAt h r.key s') :
          (s'.dropLock h r m).grantAndNotify r.key = s'.doingAll
            [.edit r.key (·.remove (s.txn h).id), .amend h (·.forget r m), .edit r.key Queue.grant,
              .tell r.key] := by
        rw [grantAndNotify_eq, dropLock, sameAt.txn]
        rfl
      have unlocks (s' : Engine) (sameAt : s.SameAt h r.key s') : s'.unlock h r forced =
          ((if !forced && Policy.unlockEndsGrowing (s.txn h).isolation m
            then ((s'.dropLock h r m).grantAndNotify r.key).updateTxn h (·.beginShrinking)
            else (s'.dropLock h r m).grantAndNotify r.key).tally Stats.unlock, .done) := by
        have same : (((s'.dropLock h r m).grantAndNotify r.key).txn h).isolation =
            (s.txn h).isolation :=
          (proj_updateTxn _ h (·.forget r m) (·.isolation) (fun _ => rfl) h).trans
            (congrArg (·.isolation) sameAt.txn)
        rw [unlock_held (by rw [sameAt.txn, held]), sameAt.txn, if_neg rows,
          if_neg (mt (mt sameAt.mem_queues.2) missing), sameAt.queue, if_pos there, same]
      by_cases shrinks : (!forced && Policy.unlockEndsGrowing (s.txn h).isolation m) = true
      · refine local_of_eq [.edit r.key (·.remove (s.txn h).id), .amend h (·.forget r m),
          .edit r.key Queue.grant, .tell r.key, .amend h (·.beginShrinking), .count Stats.unlock] ?_
            .done fun s' sameAt => ?_
        · simp [Deed.At, Stats.Counts.unlock]
        · rw [unlocks s' sameAt, if_pos shrinks, given s' sameAt]
          rfl
      · refine local_of_eq [.edit r.key (·.remove (s.txn h).id), .amend h (·.forget r m),
          .edit r.key Queue.grant, .tell r.key, .count Stats.unlock] ?_ .done fun s' sameAt => ?_
        · simp [Deed.At, Stats.Counts.unlock]
        · rw [unlocks s' sameAt, if_neg shrinks, given s' sameAt]
          rfl
    · refine local_of_eq [] nofun (.failed (.requestMissing (s.txn h).id m r))
        fun s' sameAt => ?_
      rw [unlock_held (by rw [sameAt.txn, held]), sameAt.txn, if_neg rows,
        if_neg (mt (mt sameAt.mem_queues.2) missing), sameAt.queue, if_neg there]
      rfl

/-- Whoever is registered is so under his own identifier. -/
def Rolls (s : Engine) : Prop :=
  ∀ id h, s.registry[id]? = some h → h < s.txns.size ∧ (s.txn h).id = id

theorem Rolls.path {ok : Engine → Move → Prop} (rolls : s.Rolls) (path : Path ok s s') :
    s'.Rolls := by
  refine path.keeps (P := Rolls) (fun s m s' rolls does _ id h there => ?_) rolls
  have known : h < s.txns.size ∧ (s.txn h).id = id := by
    rcases does.registry_sub there with there | ⟨own, lt⟩
    · exact rolls id h there
    · exact ⟨lt, own⟩
  exact ⟨Nat.lt_of_lt_of_le known.1 does.size_le, (does.id_eq known.1).trans known.2⟩

theorem Reachable.rolls (reach : Reachable config may s) : s.Rolls :=
  reach.invariant (P := Rolls) (fun id h there => by simp [Engine.fresh] at there)
    fun s w e rolls _ => rolls.path (s.after_path w e)

/-- Where nobody else has its identifier a transaction is registered as if nobody were there. -/
theorem Rolls.register_eq (rolls : s.Rolls) (books : s.Books tableOf)
    (usable : s.isUsable h = true) : s.register h = s.doing (.enroll (s.txn h).id h) := by
  cases found : s.registry[(s.txn h).id]? with
  | none =>
    rw [register, lookup, found]
    rfl
  | some h' =>
    obtain ⟨known, same⟩ := rolls _ _ found
    obtain rfl : h' = h := books.ids _ _ known (lt_size_of_isUsable usable) same
    have referred : s.isReferred h' = true :=
      isReferred_iff.2 (.inl (kept_of_isUsable usable))
    rw [register, lookup, found, Option.filter_some, if_pos referred]
    refine Engine.ext rfl rfl rfl ?_ rfl rfl rfl rfl rfl rfl
    refine Std.ExtTreeMap.ext_getElem? fun id => ?_
    change s.registry[id]? = (s.registry.insert (s.txn h').id h')[id]?
    rw [Std.ExtTreeMap.getElem?_insert]
    split
    · rename_i same
      rw [← Std.LawfulEqOrd.eq_of_compare same, found]
    · rfl

/-- These are the deeds of the operation where things look to the transaction and at the queue as
they do here, and this is what it replies. -/
structure Foretells (tableOf : RowId → TableId) (h : Handle) (k : QueueKey) (s : Engine) (op : Op)
    (ds : List Deed) (reply : Reply) : Prop where
  here : ∀ d ∈ ds, d.At h (s.txn h).id k
  known : ds = [] ∨ h < s.txns.size
  runs : ∀ s' w, s.SameAt h k s' → s'.Books tableOf → s'.Rolls →
    s'.perform w op = (s'.doingAll ds, reply)

theorem exists_foretells (tableOf : RowId → TableId) {op : Op} {r : Resource}
    (about : op.site? = some (h, r)) (s : Engine) :
    ∃ ds reply, s.Foretells tableOf h r.key op ds reply := by
  cases usable : s.isUsable h with
  | false =>
    refine ⟨[], .noSuchTransaction, nofun, .inl rfl, fun s' w sameAt _ _ => ?_⟩
    rw [perform, op.handle?_of_site? about, if_neg (by simp [sameAt.isUsable, usable])]
    rfl
  | true =>
    have performs (s' : Engine) (w : Walk) (sameAt : s.SameAt h r.key s') :
        s'.perform w op = s'.carryOut w op := by
      rw [perform, op.handle?_of_site? about, if_pos (by simp [sameAt.isUsable, usable])]
    cases op with
    | lock c =>
      obtain ⟨rfl, rfl⟩ : c.handle = h ∧ c.resource = r := by simpa [Op.site?] using about
      cases active : (s.txn c.handle).state.isTerminal with
      | true =>
        refine ⟨[], .failed (.notActive (s.txn c.handle).id (s.txn c.handle).state), nofun,
          .inl rfl, fun s' w sameAt _ _ => ?_⟩
        rw [performs s' w sameAt, carryOut, lock_eq, sameAt.txn, if_pos active]
        rfl
      | false =>
        obtain ⟨ds, reply, here, runs⟩ :=
          local_lockRegistered (s := s.doing (.enroll (s.txn c.handle).id c.handle))
            (s.txn c.handle).id active
        refine ⟨.enroll (s.txn c.handle).id c.handle :: ds, .ofLock reply,
          List.forall_mem_cons.2 ⟨rfl, here⟩, .inr (lt_size_of_isUsable usable),
          fun s' w sameAt books rolls => ?_⟩
        have usable' : s'.isUsable c.handle = true := sameAt.isUsable.trans usable
        rw [performs s' w sameAt, carryOut, lock_of_active (by rw [sameAt.txn, active]),
          rolls.register_eq books usable', sameAt.txn]
        exact congrArg (Prod.map id Reply.ofLock) (runs _ (sameAt.doing _))
    | unlock h' r' forced =>
      obtain ⟨rfl, rfl⟩ : h' = h ∧ r' = r := by simpa [Op.site?] using about
      obtain ⟨ds, outcome, here, runs⟩ :=
        local_unlock s h' (s.txn h').id r' forced
      refine ⟨ds, .ofOutcome .unlocked outcome, here, .inr (lt_size_of_isUsable usable),
        fun s' w sameAt _ _ => ?_⟩
      rw [performs s' w sameAt, carryOut]
      exact congrArg (Prod.map id (Reply.ofOutcome .unlocked)) (runs s' sameAt)
    | _ => cases about

end Engine

end TwoPhaseLocking
