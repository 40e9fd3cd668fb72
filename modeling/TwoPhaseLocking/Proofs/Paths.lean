import TwoPhaseLocking.Proofs.Move

/-! # Every event is a path of moves

`Event.Causes` says which moves an event consists of, and in what state of affairs each is
made. What clients are held to is then passed on from an event to its moves.
-/

namespace TwoPhaseLocking

/-- The transaction that an operation may abort, be it for breaking a rule. -/
def Op.aborts? : Op → Option Handle
  | lock c => some c.handle
  | unlock h .. | releaseAll h | commit h | abort h | abortAndWake h => some h
  | begin _ | adopt .. | letGo _ | unregister _ | setState .. | detect | addEdge _ | removeEdge _
  | startDetector | stopDetector => none

/-- An event in state `s₀` may make this move when it has come as far as `s`. -/
def Event.Causes (s₀ : Engine) (e : Event) (s : Engine) : Move → Prop
  | .begin iso => s = s₀ ∧ e = .op (.begin iso)
  | .adopt id iso => s = s₀ ∧ e = .op (.adopt id iso)
  | .mark h (.abort _) => e = .op .detect ∨
      s.callers = s₀.callers ∧ ∃ o, e = .op o ∧ o.aborts? = some h
  | .mark h .shrink => s.callers = s₀.callers ∧ ∃ r, e = .op (.unlock h r false)
  | .mark h .commit => s.callers = s₀.callers ∧ e = .op (.commit h)
  | .mark h (.setState state) => s = s₀ ∧ e = .op (.setState h state)
  | .mark h .letGo => s = s₀ ∧ e = .op (.letGo h)
  | .register h => s = s₀ ∧ ∃ c, e = .op (.lock c) ∧ c.handle = h
  | .unregister id => s = s₀ ∧ e = .op (.unregister id)
  | .retire id => s.callers = s₀.callers ∧ ∃ h, (s.txn h).id = id ∧
      (e = .op (.commit h) ∨ e = .op (.abort h) ∧ (s.txn h).isAborted = true)
  | .join c | .swap c _ => s.callers = s₀.callers ∧ e = .op (.lock c)
  | .give h r _ => s.callers = s₀.callers ∧
      ((∃ forced, e = .op (.unlock h r forced)) ∨ e = .op (.releaseAll h) ∨
        e = .op (.commit h) ∨ e = .op (.abort h) ∧ (s.txn h).isAborted = true)
  | .quit w => s = s₀ ∧ ∃ n, e = .wake n ∧
      s.sleepers.find? (fun w => w.call == n && w.notified) = some w
  | .take w => (s = s₀ ∧ ∃ n, e = .wake n ∧
      s.sleepers.find? (fun w => w.call == n && w.notified) = some w) ∨
        ∃ c, e = .op (.lock c) ∧ w.handle = c.handle
  | .notify _ | .doze _ | .side => True

namespace Engine

variable {ok : Engine → Move → Prop} {s s₀ : Engine} {c : LockCall}

theorem Alike.tally (f : Stats → Stats) : s.Alike (s.tally f) :=
  ⟨rfl, rfl, fun _ => rfl, rfl, rfl, rfl, rfl⟩

theorem Alike.open (k : QueueKey) : s.Alike (s.updateQueue k id) :=
  ⟨rfl, rfl, fun k' => by simp, rfl, rfl, rfl, rfl⟩

theorem conclude_live (live : (s.txn c.handle).isAborted = false) :
    s.conclude c = ((s.updateQueue c.resource.key (·.clearUpgrading (s.txn c.handle).id)).updateTxn
      c.handle (·.record c.resource c.mode), true) := by
  simp [conclude, live]

theorem conclude_aborted (aborted : (s.txn c.handle).isAborted = true) :
    s.conclude c = ((((s.updateQueue c.resource.key (·.clearUpgrading (s.txn c.handle).id)).updateQueue
      c.resource.key (·.remove (s.txn c.handle).id)).grantAndNotify c.resource.key).tally
        Stats.abortedWait, false) := by
  simp [conclude, aborted]

theorem await_granted {held : Option Mode} (live : (s.txn c.handle).isAborted = false)
    (granted : ((s.queue c.resource.key).grant).isGranted (s.txn c.handle).id = true) :
    s.await c held =
      ((((s.grantAndNotify c.resource.key).tally Stats.immediateGrant).updateQueue c.resource.key
        (·.clearUpgrading (s.txn c.handle).id)).updateTxn c.handle (·.record c.resource c.mode),
          .returned true) := by
  simp only [await, queue_grantAndNotify, granted, ↓reduceIte]
  rw [conclude_live (by simpa using live)]
  rfl

theorem await_waits {held : Option Mode} (live : (s.txn c.handle).isAborted = false)
    (waits : ((s.queue c.resource.key).grant).isGranted (s.txn c.handle).id = false) :
    s.await c held =
      (((s.grantAndNotify c.resource.key).tally Stats.wait).addSleeper (c.sleeper held), .asleep) := by
  simp only [await, queue_grantAndNotify, txn_grantAndNotify, waits, ↓reduceIte, txn_tally, live,
    Bool.false_eq_true]
  rfl

/-- A request that has just been granted, or has to wait, takes its lock or goes to sleep. -/
theorem await_path {held : Option Mode} (live : (s.txn c.handle).isAborted = false)
    (take : ∀ s w, w.handle = c.handle → ok s (.take w)) (doze : ∀ s w, ok s (.doze w))
    (side : ∀ s, ok s .side) :
    Path ok ((s.addSleeper (c.sleeper held)).grantAndNotify c.resource.key)
      (s.await c held).1 := by
  have asleep : ((s.addSleeper (c.sleeper held)).grantAndNotify c.resource.key).sleepers =
      (s.grantAndNotify c.resource.key).sleepers ++
        { c.sleeper held with notified := true } :: [] := by
    simp [addSleeper, grantAndNotify, updateQueue, LockCall.sleeper]
  have queue : ((s.addSleeper (c.sleeper held)).grantAndNotify c.resource.key).queue c.resource.key =
      (s.queue c.resource.key).grant := by
    rw [queue_grantAndNotify, if_pos rfl]
    rfl
  cases granted : ((s.queue c.resource.key).grant).isGranted (s.txn c.handle).id with
  | true =>
    rw [await_granted live granted]
    have taken := Path.move (.take asleep (by rw [← granted, ← queue]; rfl) live) (take _ _ rfl)
    refine taken.next (.side ?_) (side _)
    rw [List.append_nil]
    exact ⟨rfl, rfl, fun _ => rfl, rfl, rfl, rfl, rfl⟩
  | false =>
    rw [await_waits live granted]
    have waits : ((s.addSleeper (c.sleeper held)).grantAndNotify c.resource.key).isReady
        { c.sleeper held with notified := true } = false := by
      rw [isReady, Bool.or_eq_false_iff]
      exact ⟨by rw [← granted, ← queue]; rfl, live⟩
    have dozed := Path.move (.doze asleep waits) (doze _ _)
    exact dozed.next (.side ⟨rfl, rfl, fun _ => rfl, rfl, rfl, rfl, rfl⟩) (side _)

/-- A lock call by what its transaction holds when it begins. -/
theorem lock_eq : s.lock c =
    if (s.txn c.handle).state.isTerminal then
      (s, .failed (.notActive (s.txn c.handle).id (s.txn c.handle).state))
    else if (s.txn c.handle).locks.mode? c.resource = some c.mode then
      (s.register c.handle, .returned true)
    else
      match Policy.request (s.txn c.handle).isolation (s.txn c.handle).state c.mode c.resource
        ((s.txn c.handle).locks.mode? c.resource)
        ((s.txn c.handle).locks.mode? (.table c.resource.tableId)) with
      | some reason => ((s.register c.handle).refuse c.handle reason).map id .failed
      | none => enqueue (fun _ s => s) ((s.register c.handle).updateQueue c.resource.key id) c
          ((s.txn c.handle).locks.mode? c.resource) := by
  unfold lock lockWith
  dsimp only
  rewrite [txn_register]
  rfl

theorem refuse_path {h : Handle} {reason : AbortReason}
    (abort : ∀ r, ok s (.mark h (.abort r))) (side : ∀ s, ok s .side) :
    Path ok s (s.refuse h reason).1 :=
  (Path.move .mark (abort (some reason))).next (.side (.tally _)) (side _)

section Enqueue

variable {old : Mode}

theorem enqueue_new : enqueue (fun _ s => s) s c none =
    ((s.tally Stats.lockRequest).pushRequest c).await c none := rfl

theorem enqueue_conflict (busy : (s.queue c.resource.key).upgrading.isSome = true) :
    enqueue (fun _ s => s) s c (some old) =
      (((s.tally Stats.lockRequest).refuse c.handle .upgradeConflict).map id .failed) := by
  simp [enqueue, busy]

theorem enqueue_missing (free : (s.queue c.resource.key).upgrading = none)
    (missing : (s.queue c.resource.key).has (s.txn c.handle).id = false) :
    enqueue (fun _ s => s) s c (some old) =
      (s.tally Stats.lockRequest,
        .failed (.requestMissing (s.txn c.handle).id old c.resource)) := by
  simp [enqueue, free, missing]

theorem enqueue_swap (free : (s.queue c.resource.key).upgrading = none)
    (there : (s.queue c.resource.key).has (s.txn c.handle).id = true) :
    enqueue (fun _ s => s) s c (some old) =
      (((s.tally Stats.lockRequest).swapRequest c old).tally Stats.upgrade).await c (some old) := by
  simp [enqueue, free, there, swapRequest]

end Enqueue

theorem isAborted_of_active {t : Transaction} (active : t.state.isTerminal = false) :
    t.isAborted = false := by
  cases st : t.state <;> simp_all [TxnState.isTerminal, Transaction.isAborted]

/-- A call to which the rules have no objection. Its transaction is registered, and there is a
queue. It is refused, or joins the queue, and then takes its lock or goes to sleep. -/
theorem enqueue_path_of {held : Option Mode} (admitted : s.Admits c held)
    (abort : ∀ s' reason, s'.callers = s.callers → ok s' (.mark c.handle (.abort reason)))
    (join : ∀ s', s'.txns = s.txns → s'.callers = s.callers → ok s' (.join c))
    (swap : ∀ s' old, s'.txns = s.txns → s'.callers = s.callers → ok s' (.swap c old))
    (take : ∀ s w, w.handle = c.handle → ok s (.take w)) (doze : ∀ s w, ok s (.doze w))
    (side : ∀ s, ok s .side) : Path ok s (enqueue (fun _ s => s) s c held).1 := by
  have live := isAborted_of_active admitted.active
  have counted : Path ok s (s.tally Stats.lockRequest) := .move (.side (.tally _)) (side _)
  have admitted' : (s.tally Stats.lockRequest).Admits c held := { admitted with }
  cases held with
  | none =>
    have joined := counted.next (.join admitted') (join _ rfl rfl)
    exact joined.trans (await_path live take doze side)
  | some old =>
    cases free : (s.queue c.resource.key).upgrading with
    | some other =>
      rw [enqueue_conflict (by simp [free])]
      have refused := counted.next .mark
        (abort (s.tally Stats.lockRequest) (some .upgradeConflict) rfl)
      exact refused.next (.side (.tally Stats.policyAbort)) (side _)
    | none =>
      cases there : (s.queue c.resource.key).has (s.txn c.handle).id with
      | false =>
        rw [enqueue_missing free there]
        exact counted
      | true =>
        have tallied := counted.next (.side (.tally Stats.upgrade)) (side _)
        have swapped := tallied.next (.swap { admitted with } free there) (swap _ _ rfl rfl)
        have live' : ((s.swapRequest c old).txn c.handle).isAborted = false :=
          (isAborted_updateTxn_forget ..).trans live
        rw [enqueue_swap free there]
        exact swapped.trans (await_path live' take doze side)

/-- Such a call begins in state `s₀`, and has so far registered its transaction and seen to it that
there is a queue. -/
theorem enqueue_path {held : Option Mode} (admitted : s.Admits c held)
    (callers : s.callers = s₀.callers) :
    Path (Event.Causes s₀ (.op (.lock c))) s (enqueue (fun _ s => s) s c held).1 :=
  enqueue_path_of admitted (fun _ _ same => .inr ⟨same.trans callers, _, rfl, rfl⟩)
    (fun _ _ same => ⟨same.trans callers, rfl⟩) (fun _ _ _ same => ⟨same.trans callers, rfl⟩)
    (fun _ _ mine => .inr ⟨c, rfl, mine⟩) (fun _ _ => trivial) fun _ => trivial

/-- The lock call gets as far as the queue of its resource: its transaction runs, and neither has
the lock already nor breaks a rule by asking for it. -/
structure Reaches (s : Engine) (c : LockCall) : Prop where
  usable : s.isUsable c.handle = true
  active : (s.txn c.handle).state.isTerminal = false
  differs : (s.txn c.handle).locks.mode? c.resource ≠ some c.mode
  lawful : Policy.request (s.txn c.handle).isolation (s.txn c.handle).state c.mode c.resource
    ((s.txn c.handle).locks.mode? c.resource)
    ((s.txn c.handle).locks.mode? (.table c.resource.tableId)) = none

/-- It is admitted once its transaction is registered and there is a queue. -/
theorem Reaches.admits (reaches : s.Reaches c) :
    ((s.register c.handle).updateQueue c.resource.key id).Admits c
      ((s.txn c.handle).locks.mode? c.resource) := by
  have admitted : (s.register c.handle).Admits c ((s.txn c.handle).locks.mode? c.resource) := {
    known := by simpa using lt_size_of_isUsable reaches.usable
    active := by simpa only [txn_register] using reaches.active
    registered := by simpa only [txn_register] using lookup_register reaches.usable
    holds := by simp
    differs := reaches.differs
    lawful := by simpa using reaches.lawful }
  exact { admitted with }

theorem lock_reaching (reaches : s.Reaches c) : s.lock c =
    enqueue (fun _ s => s) ((s.register c.handle).updateQueue c.resource.key id) c
      ((s.txn c.handle).locks.mode? c.resource) := by
  rw [lock_eq, if_neg (by simp [reaches.active]), if_neg reaches.differs, reaches.lawful]

theorem lock_path (usable : s.isUsable c.handle = true) :
    Path (Event.Causes s (.op (.lock c))) s (s.lock c).1 := by
  rw [lock_eq]
  have registered : Path (Event.Causes s (.op (.lock c))) s (s.register c.handle) :=
    .move (.register usable) ⟨rfl, c, rfl, rfl⟩
  split
  · exact .refl _
  · rename_i active
    split
    · exact registered
    · rename_i differs
      split
      · exact registered.trans
          (refuse_path (fun _ => .inr ⟨by simp, _, rfl, rfl⟩) fun _ => trivial)
      · rename_i lawful
        have opened := registered.next (.side (.open c.resource.key)) trivial
        have reaches : s.Reaches c := ⟨usable, Bool.eq_false_iff.2 active, differs, lawful⟩
        exact opened.trans (enqueue_path reaches.admits (by simp))

variable {h : Handle} {r : Resource} {forced : Bool}

theorem unlock_not_held (free : (s.txn h).locks.mode? r = none) :
    s.unlock h r forced = ((s.refuse h .attemptedUnlockButNoLockHeld).map id .failed) := by
  simp [unlock, unlockWith, free]

/-- An unlock call by what its transaction holds when it begins. -/
theorem unlock_held {m : Mode} (held : (s.txn h).locks.mode? r = some m) :
    s.unlock h r forced =
      if r.isTable && (s.txn h).locks.hasRowsOn r.tableId then
        ((s.refuse h .tableUnlockedBeforeUnlockingRows).map id .failed)
      else if r.key ∉ s.queues then
        (s, .failed (.queueMissing (s.txn h).id m r))
      else if (s.queue r.key).has (s.txn h).id then
        ((if !forced && Policy.unlockEndsGrowing
            (((s.dropLock h r m).grantAndNotify r.key).txn h).isolation m
          then ((s.dropLock h r m).grantAndNotify r.key).updateTxn h (·.beginShrinking)
          else (s.dropLock h r m).grantAndNotify r.key).tally Stats.unlock, .done)
      else (s, .failed (.requestMissing (s.txn h).id m r)) := by
  simp only [unlock, unlockWith, held]
  rfl

theorem unlock_path (abort : ∀ reason, ok s (.mark h (.abort reason)))
    (give : ∀ m, ok s (.give h r m))
    (shrink : forced = false → ∀ s', s'.callers = s.callers → ok s' (.mark h .shrink))
    (side : ∀ s, ok s .side) : Path ok s (s.unlock h r forced).1 := by
  cases held : (s.txn h).locks.mode? r with
  | none =>
    rw [unlock_not_held held]
    exact refuse_path abort side
  | some m =>
    rw [unlock_held held]
    split
    · exact refuse_path abort side
    · rename_i rowsFirst
      split
      · exact .refl _
      · split
        · rename_i there
          have given := Path.move (.give held (by simpa using rowsFirst) there) (give m)
          refine Path.next ?_ (.side (.tally _)) (side _)
          split
          · rename_i ends
            rw [Bool.and_eq_true, Bool.not_eq_true'] at ends
            exact given.next .mark (shrink ends.1 _ (by simp [dropLock]))
          · exact given
        · exact .refl _

@[simp]
theorem callers_unlock : (s.unlock h r forced).1.callers = s.callers := by
  cases held : (s.txn h).locks.mode? r with
  | none =>
    rw [unlock_not_held held]
    rfl
  | some m =>
    rw [unlock_held held]
    split
    · rfl
    · split
      · rfl
      · split
        · split <;> simp [dropLock]
        · rfl

/-- What a forced unlock call leaves as it is: a property of transactions that locks have no
part in and that an abort does not end. -/
theorem txn_unlock_forced {p : Transaction → Prop} (holds : p (s.txn h))
    (abort : ∀ t reason, p t → p (t.abort reason)) (forget : ∀ t r m, p t → p (t.forget r m)) :
    p ((s.unlock h r true).1.txn h) := by
  have refused (reason : AbortReason) : p ((s.refuse h reason).1.txn h) := by
    simp only [refuse, txn_tally, txn_updateTxn]
    split
    · exact abort _ _ holds
    · exact holds
  cases held : (s.txn h).locks.mode? r with
  | none =>
    rw [unlock_not_held held]
    exact refused _
  | some m =>
    rw [unlock_held held]
    split
    · exact refused _
    · split
      · exact holds
      · split
        · simp only [Bool.not_true, Bool.false_and, Bool.false_eq_true, ↓reduceIte, txn_tally,
            txn_grantAndNotify, dropLock, txn_updateTxn, txn_updateQueue]
          split
          · exact forget _ _ _ holds
          · exact holds
        · exact holds

/-- Locks are given back one by one, in states that `I` describes. -/
theorem releaseEach_path {I : Engine → Prop}
    (abort : ∀ s reason, I s → ok s (.mark h (.abort reason)))
    (give : ∀ s r m, I s → ok s (.give h r m)) (side : ∀ s, ok s .side)
    (keep : ∀ s r, I s → I (s.unlock h r true).1) (rs : List Resource) (start : I s) :
    Path ok s (releaseEach (fun _ s => s) s h rs).1 ∧
      I (releaseEach (fun _ s => s) s h rs).1 := by
  induction rs generalizing s with
  | nil => exact ⟨.refl _, start⟩
  | cons r rs ih =>
    have unlocked : Path ok s (s.unlock h r true).1 :=
      unlock_path (abort s · start) (fun m => give s r m start) (fun forced => nomatch forced) side
    have kept := keep s r start
    rw [releaseEach]
    split
    · rename_i s' eq
      rw [eq] at unlocked kept
      obtain ⟨path, holds⟩ := ih kept
      exact ⟨unlocked.trans path, holds⟩
    · rename_i s' e eq
      rw [eq] at unlocked kept
      exact ⟨unlocked, kept⟩

theorem wakeIn_path (notify : ∀ s k, ok s (.notify k)) (ks : List QueueKey) (id : TxnId) :
    Path ok s (s.wakeIn ks id) := by
  induction ks generalizing s with
  | nil => exact .refl _
  | cons k ks ih =>
    rw [wakeIn, List.foldl_cons]
    split
    · exact (Path.move .notify (notify s k)).trans ih
    · exact ih

@[simp]
theorem callers_wakeIn (ks : List QueueKey) (id : TxnId) :
    (s.wakeIn ks id).callers = s.callers := by
  induction ks generalizing s with
  | nil => rfl
  | cons k ks ih =>
    rw [wakeIn, List.foldl_cons]
    refine Eq.trans ih ?_
    split <;> simp

@[simp]
theorem txns_wakeIn (ks : List QueueKey) (id : TxnId) : (s.wakeIn ks id).txns = s.txns := by
  induction ks generalizing s with
  | nil => rfl
  | cons k ks ih =>
    rw [wakeIn, List.foldl_cons]
    refine Eq.trans ih ?_
    split <;> rfl

@[simp]
theorem txn_wakeIn (ks : List QueueKey) (id : TxnId) (h' : Handle) :
    (s.wakeIn ks id).txn h' = s.txn h' := by
  simp [txn]

theorem releaseEach_causes (rs : List Resource) :
    Path (Event.Causes s (.op (.releaseAll h))) s (releaseEach (fun _ s => s) s h rs).1 := by
  refine (releaseEach_path (I := fun s' => s'.callers = s.callers)
    (fun s' r callers => .inr ⟨callers, _, rfl, rfl⟩) ?_ (fun _ => trivial) ?_ rs rfl).1
  · intro s' r m callers
    exact ⟨callers, .inr (.inl rfl)⟩
  · intro s' r callers
    rw [callers_unlock, callers]

theorem releaseAll_path (w : Walk) :
    Path (Event.Causes s (.op (.releaseAll h))) s (s.releaseAll w h).1 :=
  releaseEach_causes (w.locks s h)

theorem commit_path (w : Walk) : Path (Event.Causes s (.op (.commit h))) s (s.commit w h).1 := by
  rw [commit, commitWith]
  split
  · exact .refl _
  · have released : Path (Event.Causes s (.op (.commit h))) s _ ∧ _ := releaseEach_path (h := h)
      (I := fun s' => s'.callers = s.callers ∧ (s'.txn h).id = (s.txn h).id)
      (fun s' r held => .inr ⟨held.1, _, rfl, rfl⟩)
      (fun s' r m held => ⟨held.1, .inr (.inr (.inl rfl))⟩) (fun _ => trivial)
      (fun s' r held => ⟨by rw [callers_unlock, held.1], txn_unlock_forced
        (p := fun t => t.id = (s.txn h).id) held.2 (by simp) (fun _ _ _ same => same)⟩)
      (w.locks s h) ⟨rfl, rfl⟩
    dsimp only
    split
    · rename_i s' e eq
      rw [eq] at released
      exact released.1
    · rename_i s' eq
      rw [eq] at released
      obtain ⟨path, callers, id⟩ := released
      split
      · exact path
      · have marked := path.next (.mark (h := h) (m := .commit)) ⟨callers, rfl⟩
        exact marked.next .retire ⟨callers, h,
          (proj_updateTxn s' h _ (·.id) Transaction.id_commit h).trans id, .inl rfl⟩

theorem isAborted_abort {t : Transaction} (open' : t.state ≠ .committed)
    (reason : Option AbortReason) : (t.abort reason).isAborted = true := by
  rw [Transaction.isAborted_iff, Transaction.state_abort, if_neg open']

theorem isAborted_abort_of_isAborted {t : Transaction} (aborted : t.isAborted = true)
    (reason : Option AbortReason) : (t.abort reason).isAborted = true := by
  refine isAborted_abort ?_ reason
  rw [Transaction.isAborted_iff] at aborted
  simp [aborted]

theorem abortAndWake_path (w : Walk) (mark : ok s (.mark h (.abort none)))
    (notify : ∀ s k, ok s (.notify k)) : Path ok s (s.abortAndWake w h) :=
  (Path.move (.mark (m := .abort none)) mark).trans (wakeIn_path notify _ _)

theorem txn_abortAndWake {w : Walk} (known : h < s.txns.size) :
    (s.abortAndWake w h).txn h = (s.txn h).abort none := by
  simp [abortAndWake, wakePending, txn_updateTxn, known]

theorem abort_path (usable : s.isUsable h = true) (w : Walk) :
    Path (Event.Causes s (.op (.abort h))) s (s.abort w h).1 := by
  rw [abort]
  split
  · exact .refl _
  · rename_i unfinished
    have woken : Path (Event.Causes s (.op (.abort h))) s (s.abortAndWake w h) :=
      abortAndWake_path w (.inr ⟨rfl, _, rfl, rfl⟩) fun _ _ => trivial
    have known := lt_size_of_isUsable usable
    have callers : (s.abortAndWake w h).callers = s.callers := by
      simp [abortAndWake, wakePending]
    have txn : (s.abortAndWake w h).txn h = (s.txn h).abort none := txn_abortAndWake known
    have released : Path (Event.Causes s (.op (.abort h))) _ _ ∧ _ := releaseEach_path (h := h)
      (I := fun s' => s'.callers = s.callers ∧ (s'.txn h).isAborted = true ∧
        (s'.txn h).id = (s.txn h).id)
      (fun s' r held => .inr ⟨held.1, _, rfl, rfl⟩)
      (fun s' r m held => ⟨held.1, .inr (.inr (.inr ⟨rfl, held.2.1⟩))⟩)
      (fun _ => trivial)
      (fun s' r held => ⟨by rw [callers_unlock, held.1], txn_unlock_forced
        (p := fun t => t.isAborted = true ∧ t.id = (s.txn h).id) held.2
        (fun t reason hp => ⟨isAborted_abort_of_isAborted hp.1 _, by simp [hp.2]⟩)
        (fun _ _ _ hp => hp)⟩)
      (w.locks (s.abortAndWake w h) h)
      ⟨callers, by rw [txn]; exact isAborted_abort unfinished none, by rw [txn]; simp⟩
    rw [releaseAll]
    split
    · rename_i s' e eq
      rw [eq] at released
      exact woken.trans released.1
    · rename_i s' eq
      rw [eq] at released
      obtain ⟨path, callers', aborted, id⟩ := released
      exact (woken.trans path).next .retire ⟨callers', h, id, .inr ⟨rfl, aborted⟩⟩

theorem abortVictim_path {v : TxnId} {s' : Engine} (abort : ∀ s h r, ok s (.mark h (.abort r)))
    (side : ∀ s, ok s .side) (aborted : s.abortVictim v = some s') : Path ok s s' := by
  unfold abortVictim at aborted
  split at aborted
  · cases aborted
  · split at aborted
    · cases aborted
    · rw [← Option.some.inj aborted]
      exact (Path.move .mark (abort _ _ _)).next (.side (.tally _)) (side _)

theorem sacrifice_path (abort : ∀ s h r, ok s (.mark h (.abort r))) (side : ∀ s, ok s .side)
    (all : Bool) (vs : List TxnId) : Path ok s (s.sacrifice all vs).1 := by
  induction vs generalizing s with
  | nil => exact .refl _
  | cons v vs ih =>
    rw [sacrifice]
    split
    · exact ih
    · rename_i s' aborted
      have first : Path ok s s' := abortVictim_path abort side aborted
      split
      · exact first.trans ih
      · exact first

theorem wakeEach_path (notify : ∀ s k, ok s (.notify k)) (w : Walk) (ids : List TxnId) :
    Path ok s (ids.foldl (wakePending w) s) := by
  induction ids generalizing s with
  | nil => exact .refl _
  | cons id ids ih => exact (wakeIn_path notify _ id).trans ih

/-- The graph edited by hand is emptied, and calls are woken. -/
theorem rouse_path (notify : ∀ s k, ok s (.notify k)) (side : ∀ s, ok s .side) (w : Walk)
    (ids : List TxnId) : Path ok s (ids.foldl (wakePending w) { s with graph := ∅ }) := by
  have emptied : s.Alike { s with graph := ∅ } := ⟨rfl, rfl, fun _ => rfl, rfl, rfl, rfl, rfl⟩
  exact (Path.move (.side emptied) (side s)).trans (wakeEach_path notify w ids)

theorem detect_path (abort : ∀ s h r, ok s (.mark h (.abort r))) (notify : ∀ s k, ok s (.notify k))
    (side : ∀ s, ok s .side) (w : Walk) : Path ok s (s.detect w).1 := by
  have counted : Path ok s (s.tally Stats.detectionPass) := .move (.side (.tally _)) (side _)
  have sacrificed := counted.trans (sacrifice_path abort side s.config.resolveAll
    ((s.tally Stats.detectionPass).waitGraph w).breakCycles.1)
  exact sacrificed.trans (rouse_path notify side w _)

/-- A call that looks at its queue and can go on does so. -/
theorem finishSleeper_path {w : Sleeper} (asleep : w ∈ s.sleepers) (ready : s.isReady w = true)
    (take : ok s (.take w)) (quit : ok s (.quit w)) (side : ∀ s, ok s .side) :
    Path ok s (s.finishSleeper w).1 := by
  obtain ⟨xs, ys, -, split, rest⟩ := List.exists_erase_eq asleep
  rw [finishSleeper, rest]
  cases aborted : (s.txn w.handle).isAborted with
  | true =>
    rw [conclude_aborted (s := { s with sleepers := xs ++ ys }) (c := w.lockCall) aborted]
    exact (Path.move (.quit split aborted) quit).next (.side (.tally _)) (side _)
  | false =>
    have granted : (s.queue w.resource.key).isGranted (s.txn w.handle).id = true := by
      simpa [isReady, aborted] using ready
    rw [conclude_live (s := { s with sleepers := xs ++ ys }) (c := w.lockCall) aborted]
    exact Path.move (.take split granted aborted) take

theorem wake_path (n : Nat) : Path (Event.Causes s (.wake n)) s (s.wake n).1 := by
  unfold wake
  split
  · exact .refl _
  · rename_i w found
    have asleep := List.mem_of_find?_eq_some found
    split
    · rename_i ready
      exact finishSleeper_path asleep ready (.inl ⟨rfl, n, rfl, found⟩) ⟨rfl, n, rfl, found⟩
        fun _ => trivial
    · rename_i waits
      obtain ⟨xs, ys, first, split, -⟩ := List.exists_erase_eq asleep
      have replaced : s.sleepers.replace w { w with notified := false } =
          xs ++ { w with notified := false } :: ys := by
        rw [split, List.replace_append_right first, List.replace_cons_self]
      rw [replaced]
      exact Path.move (.doze split (by simpa using waits)) trivial

theorem length_conclude : (s.conclude c).1.sleepers.length = s.sleepers.length := by
  cases aborted : (s.txn c.handle).isAborted with
  | true =>
    rw [conclude_aborted aborted]
    exact List.length_map _
  | false =>
    rw [conclude_live aborted]
    rfl

/-- A call that ends is one call less. -/
theorem length_finishSleeper {w : Sleeper} (asleep : w ∈ s.sleepers) :
    (s.finishSleeper w).1.sleepers.length + 1 = s.sleepers.length := by
  rw [finishSleeper, Prod.map_fst, id, length_conclude, List.length_erase_of_mem asleep]
  have some := List.length_pos_of_mem asleep
  omega

/-- All calls that have been told something and cannot go on go back to sleep. The induction is
on the calls that have not been looked at. -/
theorem doze_path (doze : ∀ s w, ok s (.doze w))
    (waits : ∀ w ∈ s.sleepers, w.notified = true → s.isReady w = false) : Path ok s s.doze := by
  have each : ∀ xs ys, (∀ w ∈ ys, w.notified = true → s.isReady w = false) →
      Path ok { s with sleepers := xs ++ ys }
        { s with sleepers := xs ++ ys.map fun w => { w with notified := false } } := by
    intro xs ys
    induction ys generalizing xs with
    | nil => exact fun _ => .refl _
    | cons w ys ih =>
      intro waits
      have rest := ih (xs ++ [{ w with notified := false }])
        fun w hw => waits w (List.mem_cons_of_mem _ hw)
      simp only [List.append_assoc, List.singleton_append] at rest
      refine Path.trans ?_ rest
      cases told : w.notified with
      | true =>
        have move : Does { s with sleepers := xs ++ w :: ys } (.doze w)
            { s with sleepers := xs ++ { w with notified := false } :: ys } :=
          .doze rfl (waits w List.mem_cons_self told)
        exact .move move (doze _ _)
      | false =>
        have same : { w with notified := false } = w := by
          rw [← told]
        rw [same]
        exact .refl _
  exact each [] s.sleepers waits

/-- Letting all calls look that have been told something. There are no more rounds than calls. -/
theorem settleWithin_path {n : Nat} (enough : s.sleepers.length ≤ n) (take : ∀ s w, ok s (.take w))
    (quit : ∀ s w, ok s (.quit w)) (doze : ∀ s w, ok s (.doze w)) (side : ∀ s, ok s .side) :
    Path ok s (settleWithin n s).1 := by
  induction n generalizing s with
  | zero =>
    have none : s.sleepers = [] := List.length_eq_zero_iff.1 (Nat.le_zero.1 enough)
    exact doze_path doze (by simp [none])
  | succ n ih =>
    rw [settleWithin]
    split
    · rename_i nobody
      refine doze_path doze fun w hw told => ?_
      have unready := List.find?_eq_none.1 nobody w hw
      simpa [told] using unready
    · rename_i w found
      have asleep := List.mem_of_find?_eq_some found
      have ready := List.find?_some found
      rw [Bool.and_eq_true] at ready
      have ended : Path ok s (s.finishSleeper w).1 :=
        finishSleeper_path asleep ready.2 (take _ _) (quit _ _) side
      have fewer := length_finishSleeper asleep
      exact ended.trans (ih (by omega))

theorem settle_path (take : ∀ s w, ok s (.take w)) (quit : ∀ s w, ok s (.quit w))
    (doze : ∀ s w, ok s (.doze w)) (side : ∀ s, ok s .side) : Path ok s s.settle.1 :=
  settleWithin_path (Nat.le_refl _) take quit doze side

theorem perform_path (w : Walk) (op : Op) :
    Path (Event.Causes s (.op op)) s (s.perform w op).1 := by
  unfold perform
  split
  · rename_i usable
    cases op with
    | begin iso => exact .move .begin ⟨rfl, rfl⟩
    | adopt id iso => exact .move .adopt ⟨rfl, rfl⟩
    | letGo h => exact .move (.mark (m := .letGo)) ⟨rfl, rfl⟩
    | lock c => exact lock_path (by simpa [Op.handle?] using usable)
    | unlock h r forced =>
      refine unlock_path (fun _ => .inr ⟨rfl, _, rfl, rfl⟩) (fun m => ⟨rfl, .inl ⟨forced, rfl⟩⟩) ?_
        fun _ => trivial
      intro free s' callers
      exact ⟨callers, r, by rw [free]⟩
    | releaseAll h => exact releaseAll_path w
    | commit h => exact commit_path w
    | abort h => exact abort_path (by simpa [Op.handle?] using usable) w
    | abortAndWake h =>
      exact abortAndWake_path w (.inr ⟨rfl, _, rfl, rfl⟩) fun _ _ => trivial
    | unregister id => exact .move .unregister ⟨rfl, rfl⟩
    | setState h state => exact .move (.mark (m := .setState state)) ⟨rfl, rfl⟩
    | detect => exact detect_path (fun _ _ _ => .inl rfl) (fun _ _ => trivial) (fun _ => trivial) w
    | addEdge e | removeEdge e | stopDetector =>
      exact .move (.side ⟨rfl, rfl, fun _ => rfl, rfl, rfl, rfl, rfl⟩) trivial
    | startDetector =>
      refine .move (.side ?_) trivial
      change s.Alike s.startDetector
      unfold startDetector
      split <;> exact ⟨rfl, rfl, fun _ => rfl, rfl, rfl, rfl, rfl⟩
  · exact .refl _

/-- Every event is a path of moves that it causes. -/
theorem after_path (w : Walk) (e : Event) : Path (Event.Causes s e) s (s.after w e) := by
  cases e with
  | op op => exact perform_path w op
  | wake n => exact wake_path n

/-- An invariant of a run: if each move that an allowed event causes keeps it, it holds in
every reachable state. -/
theorem Reachable.keeps {config : Config} {may : Engine → Event → Prop} {P : Engine → Prop}
    (start : P (Engine.fresh config))
    (keep : ∀ s₀ e, may s₀ e → ∀ s m s', P s → s.Does m s' → e.Causes s₀ s m → P s')
    (reach : Reachable config may s) : P s :=
  reach.invariant start fun _ w e holds allowed => (after_path w e).keeps (keep _ e allowed) holds

end Engine

end TwoPhaseLocking
