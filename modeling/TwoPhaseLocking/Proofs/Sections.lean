import TwoPhaseLocking.Engine.Lock
import TwoPhaseLocking.Engine.Unlock

/-! # Calls in sections

Between two of its sections a call holds on to nothing and others may act. What it has read so far
is all that it knows then. Doing one section after the other, with `pause g` done by others at each
gap `g`, is the call as it is defined with its gaps. Once its transaction has been aborted a call
goes on in few ways, all of which `Closes` lists.
-/

namespace TwoPhaseLocking

/-- Where a lock call stands between two sections, with what it has read. -/
inductive LockPhase where
  | called
  | stateRead (isolation : Isolation) (state : TxnState)
  | registered (isolation : Isolation) (state : TxnState)
  | heldRead (isolation : Isolation) (state : TxnState) (held : Option Mode)
  | coverRead (isolation : Isolation) (state : TxnState) (held cover : Option Mode)
  | queueOpened (held : Option Mode)
  | refusing (reason : AbortReason)
  /-- It has returned, or sleeps. -/
  | ended (reply : LockReply)
deriving DecidableEq, Repr

/-- Where an unlock call stands between two sections, with what it has read. -/
inductive UnlockPhase where
  | called
  | heldRead (held : Mode)
  | rowsRead (held : Mode)
  | queueFound (held : Mode)
  | released (held : Mode)
  | refusing (reason : AbortReason)
  | ended (outcome : Outcome)
deriving DecidableEq, Repr

namespace LockPhase

/-- The gap at which the call stands. There is none before it begins and after it has ended. -/
def gap? : LockPhase → Option LockGap
  | called | ended _ => none
  | stateRead .. => some .stateRead
  | registered .. => some .registered
  | heldRead .. => some .heldRead
  | coverRead .. => some .coverRead
  | queueOpened _ => some .queueOpened
  | refusing _ => some .refusing

/-- How many sections are left at most. -/
def left : LockPhase → Nat
  | called => 7
  | stateRead .. => 6
  | registered .. => 5
  | heldRead .. => 4
  | coverRead .. => 3
  | queueOpened _ => 2
  | refusing _ => 1
  | ended _ => 0

/-- The call goes by a lock that it has read from the record, and has not come to its queue yet. -/
def relies : LockPhase → Bool
  | heldRead _ _ held | coverRead _ _ held _ | queueOpened held => held.isSome
  | _ => false

/-- The call goes by no such lock, and has not missed a request in its queue. -/
def Sound (p : LockPhase) : Prop :=
  p.relies = false ∧ ∀ message, p ≠ ended (.failed (.invariantViolation message))

/-- How the call goes on once its transaction has been aborted. -/
inductive Closes : LockPhase → LockPhase → Prop where
  | inactive {id : TxnId} {state : TxnState} :
      Closes called (ended (.failed (.notActive id state)))
  | register {isolation : Isolation} {state : TxnState} :
      Closes (stateRead isolation state) (registered isolation state)
  | free {isolation : Isolation} {state : TxnState} :
      Closes (registered isolation state) (heldRead isolation state none)
  | cover {isolation : Isolation} {state : TxnState} {held cover : Option Mode} :
      Closes (heldRead isolation state held) (coverRead isolation state held cover)
  | breaks {isolation : Isolation} {state : TxnState} {held cover : Option Mode}
      {reason : AbortReason} : Closes (coverRead isolation state held cover) (refusing reason)
  | opens {isolation : Isolation} {state : TxnState} {held cover : Option Mode} :
      Closes (coverRead isolation state held cover) (queueOpened held)
  | withdraw : Closes (queueOpened none) (ended (.returned false))
  | conflict {m : Mode} : Closes (queueOpened (some m)) (refusing .upgradeConflict)
  | missing {m : Mode} {e : LockError} : Closes (queueOpened (some m)) (ended (.failed e))
  | refuse {reason : AbortReason} {id : TxnId} :
      Closes (refusing reason) (ended (.failed (.aborted id reason)))

variable {p p' : LockPhase}

theorem Closes.left_lt (closes : p.Closes p') : p'.left < p.left := by
  cases closes <;> simp [left]

theorem Closes.awake (closes : p.Closes p') : p' ≠ ended .asleep := by
  cases closes <;> simp

/-- Only who goes by a lock on record can miss the request for it. -/
theorem Closes.sound (closes : p.Closes p') (plain : p.relies = false) : p'.Sound := by
  cases closes with
  | cover | opens => exact ⟨plain, by simp⟩
  | conflict | missing => cases plain
  | _ => exact ⟨rfl, by simp⟩

theorem left_le (p : LockPhase) : p.left ≤ 7 := by
  cases p <;> simp [left]

theorem eq_ended_of_left {p : LockPhase} (none : p.left = 0) : ∃ reply, p = ended reply := by
  cases p with
  | ended reply => exact ⟨reply, rfl⟩
  | _ => cases none

end LockPhase

namespace UnlockPhase

def gap? : UnlockPhase → Option UnlockGap
  | called | ended _ => none
  | heldRead _ => some .heldRead
  | rowsRead _ => some .rowsRead
  | queueFound _ => some .queueFound
  | released _ => some .released
  | refusing _ => some .refusing

/-- How many sections are left at most. -/
def left : UnlockPhase → Nat
  | called => 6
  | heldRead _ => 5
  | rowsRead _ => 4
  | queueFound _ => 3
  | released _ => 2
  | refusing _ => 1
  | ended _ => 0

/-- The call goes by a lock that it has read from the record, and has not come to its queue yet. -/
def relies : UnlockPhase → Bool
  | heldRead _ | rowsRead _ | queueFound _ => true
  | _ => false

/-- The call goes by no such lock, and has not missed a request in its queue. -/
def Sound (p : UnlockPhase) : Prop :=
  p.relies = false ∧ ∀ message, p ≠ ended (.failed (.invariantViolation message))

/-- How the call goes on once its transaction has been aborted. -/
inductive Closes : UnlockPhase → UnlockPhase → Prop where
  | free : Closes called (refusing .attemptedUnlockButNoLockHeld)
  | rows {m : Mode} : Closes (heldRead m) (refusing .tableUnlockedBeforeUnlockingRows)
  | noRows {m : Mode} : Closes (heldRead m) (rowsRead m)
  | noQueue {m : Mode} {e : LockError} : Closes (rowsRead m) (ended (.failed e))
  | queue {m : Mode} : Closes (rowsRead m) (queueFound m)
  | missing {m : Mode} {e : LockError} : Closes (queueFound m) (ended (.failed e))
  | done {m : Mode} : Closes (released m) (ended .done)
  | refuse {reason : AbortReason} {id : TxnId} :
      Closes (refusing reason) (ended (.failed (.aborted id reason)))

variable {p p' : UnlockPhase}

theorem Closes.left_lt (closes : p.Closes p') : p'.left < p.left := by
  cases closes <;> simp [left]

/-- Only who goes by a lock on record can miss the request for it. -/
theorem Closes.sound (closes : p.Closes p') (plain : p.relies = false) : p'.Sound := by
  cases closes with
  | free | done | refuse => exact ⟨rfl, by simp⟩
  | _ => cases plain

theorem left_le (p : UnlockPhase) : p.left ≤ 6 := by
  cases p <;> simp [left]

theorem eq_ended_of_left {p : UnlockPhase} (none : p.left = 0) : ∃ outcome, p = ended outcome := by
  cases p with
  | ended outcome => exact ⟨outcome, rfl⟩
  | _ => cases none

end UnlockPhase

namespace Engine

/-- The next section of a lock call. -/
def lockSection (c : LockCall) (s : Engine) : LockPhase → Engine × LockPhase
  | .called =>
    let t := s.txn c.handle
    if t.state.isTerminal then (s, .ended (.failed (.notActive t.id t.state)))
    else (s, .stateRead t.isolation t.state)
  | .stateRead isolation state => (s.register c.handle, .registered isolation state)
  | .registered isolation state =>
    let held := (s.txn c.handle).locks.mode? c.resource
    if held = some c.mode then (s, .ended (.returned true)) else (s, .heldRead isolation state held)
  | .heldRead isolation state held =>
    (s, .coverRead isolation state held ((s.txn c.handle).locks.mode? (.table c.resource.tableId)))
  | .coverRead isolation state held cover =>
    match Policy.request isolation state c.mode c.resource held cover with
    | some reason => (s, .refusing reason)
    | none => (s.updateQueue c.resource.key id, .queueOpened held)
  | .queueOpened held =>
    if held.isSome && (s.queue c.resource.key).upgrading.isSome then
      (s.tally Stats.lockRequest, .refusing .upgradeConflict)
    else (enqueue (fun _ s => s) s c held).map id .ended
  | .refusing reason => (s.refuse c.handle reason).map id fun e => .ended (.failed e)
  | .ended reply => (s, .ended reply)

/-- The next section of an unlock call. -/
def unlockSection (h : Handle) (r : Resource) (forced : Bool) (s : Engine) :
    UnlockPhase → Engine × UnlockPhase
  | .called =>
    match (s.txn h).locks.mode? r with
    | none => (s, .refusing .attemptedUnlockButNoLockHeld)
    | some m => (s, .heldRead m)
  | .heldRead m =>
    if r.isTable && (s.txn h).locks.hasRowsOn r.tableId then
      (s, .refusing .tableUnlockedBeforeUnlockingRows)
    else (s, .rowsRead m)
  | .rowsRead m =>
    if r.key ∉ s.queues then (s, .ended (.failed (.queueMissing (s.txn h).id m r)))
    else (s, .queueFound m)
  | .queueFound m =>
    if (s.queue r.key).has (s.txn h).id then
      (((s.updateQueue r.key (·.remove (s.txn h).id)).updateTxn h
        (·.forget r m)).grantAndNotify r.key, .released m)
    else (s, .ended (.failed (.requestMissing (s.txn h).id m r)))
  | .released m =>
    ((if !forced && Policy.unlockEndsGrowing (s.txn h).isolation m then
        s.updateTxn h (·.beginShrinking)
      else s).tally Stats.unlock, .ended .done)
  | .refusing reason => (s.refuse h reason).map id fun e => .ended (.failed e)
  | .ended outcome => (s, .ended outcome)

/-- The next `n` sections of a lock call, with what others do between them. -/
def lockSections (pause : LockGap → Engine → Engine) (c : LockCall) :
    (n : Nat) → Engine → LockPhase → Engine × LockPhase
  | 0, s, p => (s, p)
  | n + 1, s, p =>
    let (s, p) := s.lockSection c p
    lockSections pause c n (p.gap?.elim s (pause · s)) p

/-- The next `n` sections of an unlock call, with what others do between them. -/
def unlockSections (pause : UnlockGap → Engine → Engine) (h : Handle) (r : Resource)
    (forced : Bool) : (n : Nat) → Engine → UnlockPhase → Engine × UnlockPhase
  | 0, s, p => (s, p)
  | n + 1, s, p =>
    let (s, p) := s.unlockSection h r forced p
    unlockSections pause h r forced n (p.gap?.elim s (pause · s)) p

variable {s s' : Engine}

theorem lockSections_ended (pause : LockGap → Engine → Engine) (c : LockCall) (n : Nat)
    (reply : LockReply) : lockSections pause c n s (.ended reply) = (s, .ended reply) := by
  induction n with
  | zero => rfl
  | succ n ih => exact ih

theorem lockSections_succ {pause : LockGap → Engine → Engine} {c : LockCall} {n : Nat}
    {p p' : LockPhase} (done : s.lockSection c p = (s', p')) :
    lockSections pause c (n + 1) s p =
      lockSections pause c n (p'.gap?.elim s' (pause · s')) p' := by
  rw [lockSections, done]

theorem unlockSections_succ {pause : UnlockGap → Engine → Engine} {h : Handle} {r : Resource}
    {forced : Bool} {n : Nat} {p p' : UnlockPhase}
    (done : s.unlockSection h r forced p = (s', p')) :
    unlockSections pause h r forced (n + 1) s p =
      unlockSections pause h r forced n (p'.gap?.elim s' (pause · s')) p' := by
  rw [unlockSections, done]

/-- The section in which a lock call joins its queue, and the refusal that may come after it. -/
theorem lockSections_queueOpened (pause : LockGap → Engine → Engine) (c : LockCall)
    (held : Option Mode) : lockSections pause c 2 s (.queueOpened held) =
      (enqueue pause s c held).map id .ended := by
  have joined (alone : enqueue (fun _ s => s) s c held = enqueue pause s c held)
      (free : (held.isSome && (s.queue c.resource.key).upgrading.isSome) = false) :
      lockSections pause c 2 s (.queueOpened held) = (enqueue pause s c held).map id .ended := by
    have section' : s.lockSection c (.queueOpened held) = _ := if_neg (by simp [free])
    rw [← alone, lockSections_succ section']
    exact lockSections_ended pause c 1 _
  cases held with
  | none => exact joined rfl rfl
  | some m =>
    cases busy : (s.queue c.resource.key).upgrading.isSome with
    | true =>
      have counted : s.lockSection c (.queueOpened (some m)) = _ := if_pos (by simp [busy])
      have conflict : enqueue pause s c (some m) = _ := if_pos busy
      rw [lockSections_succ counted, lockSections_succ rfl, conflict]
      rfl
    | false =>
      have free : ¬ (s.queue c.resource.key).upgrading.isSome = true := by simp [busy]
      have alone : enqueue (fun _ s => s) s c (some m) = _ := if_neg free
      have paused : enqueue pause s c (some m) = _ := if_neg free
      exact joined (alone.trans paused.symm) (by simp [busy])

/-- What is left of a lock call when it has read all there is to read. -/
theorem lockSections_coverRead (pause : LockGap → Engine → Engine) (c : LockCall)
    (isolation : Isolation) (state : TxnState) (held cover : Option Mode) :
    lockSections pause c 3 s (.coverRead isolation state held cover) =
      (match Policy.request isolation state c.mode c.resource held cover with
        | some reason => ((pause .refusing s).refuse c.handle reason).map id LockReply.failed
        | none => enqueue pause (pause .queueOpened (s.updateQueue c.resource.key id)) c held).map
          id .ended := by
  cases verdict : Policy.request isolation state c.mode c.resource held cover with
  | some reason =>
    have refused : s.lockSection c (.coverRead isolation state held cover) =
        (s, .refusing reason) := by simp only [lockSection, verdict]
    rw [lockSections_succ refused, lockSections_succ rfl]
    rfl
  | none =>
    have opened : s.lockSection c (.coverRead isolation state held cover) =
        (s.updateQueue c.resource.key id, .queueOpened held) := by simp only [lockSection, verdict]
    rw [lockSections_succ opened, lockSections_queueOpened]
    rfl

/-- A lock call has at most seven sections. -/
theorem lockSections_called (pause : LockGap → Engine → Engine) (c : LockCall) :
    lockSections pause c 7 s .called = (s.lockWith pause c).map id .ended := by
  unfold lockWith
  dsimp only
  split
  · rename_i terminal
    have refused : s.lockSection c .called = _ := if_pos terminal
    rw [lockSections_succ refused]
    rfl
  · rename_i active
    have read : s.lockSection c .called = _ := if_neg active
    rw [lockSections_succ read, lockSections_succ rfl]
    dsimp only [LockPhase.gap?, Option.elim]
    split
    · rename_i same
      have granted : lockSection c _
          (.registered (s.txn c.handle).isolation (s.txn c.handle).state) = _ := if_pos same
      rw [lockSections_succ granted]
      rfl
    · rename_i differs
      have read' : lockSection c _
          (.registered (s.txn c.handle).isolation (s.txn c.handle).state) = _ := if_neg differs
      rw [lockSections_succ read', lockSections_succ rfl]
      exact lockSections_coverRead pause c _ _ _ _

/-- An unlock call has at most six sections. It knows its transaction's identifier, which no pause
may change. -/
theorem unlockSections_called {pause : UnlockGap → Engine → Engine} {h : Handle}
    (steady : ∀ g s, ((pause g s).txn h).id = (s.txn h).id) (r : Resource) (forced : Bool) :
    unlockSections pause h r forced 6 s .called = (s.unlockWith pause h r forced).map id .ended := by
  unfold unlockWith
  dsimp only
  cases held : (s.txn h).locks.mode? r with
  | none =>
    have refused : s.unlockSection h r forced .called =
        (s, .refusing .attemptedUnlockButNoLockHeld) := by simp only [unlockSection, held]
    rw [unlockSections_succ refused, unlockSections_succ rfl]
    rfl
  | some m =>
    have read : s.unlockSection h r forced .called = (s, .heldRead m) := by
      simp only [unlockSection, held]
    rw [unlockSections_succ read]
    dsimp only [UnlockPhase.gap?, Option.elim]
    split
    · rename_i rows
      have refused : unlockSection h r forced _ (.heldRead m) = _ := if_pos rows
      rw [unlockSections_succ refused, unlockSections_succ rfl]
      rfl
    · rename_i noRows
      have checked : unlockSection h r forced _ (.heldRead m) = _ := if_neg noRows
      rw [unlockSections_succ checked]
      dsimp only [UnlockPhase.gap?, Option.elim]
      split
      · rename_i absent
        have missing : unlockSection h r forced _ (.rowsRead m) = _ := if_pos absent
        rw [unlockSections_succ missing, steady, steady]
        rfl
      · rename_i there
        have found : unlockSection h r forced _ (.rowsRead m) = _ := if_neg there
        rw [unlockSections_succ found]
        dsimp only [UnlockPhase.gap?, Option.elim]
        have id_eq := (steady .queueFound _).trans ((steady .rowsRead _).trans (steady .heldRead s))
        split
        · rename_i has
          rw [← id_eq] at has ⊢
          have given : unlockSection h r forced _ (.queueFound m) = _ := if_pos has
          rw [unlockSections_succ given, unlockSections_succ rfl]
          rfl
        · rename_i missing
          rw [← id_eq] at missing ⊢
          have failed : unlockSection h r forced _ (.queueFound m) = _ := if_neg missing
          rw [unlockSections_succ failed]
          rfl

section Uninterrupted

variable {c : LockCall} {h : Handle} {r : Resource} {forced : Bool}

/-- A call that nobody interrupts goes from section to section. -/
theorem lockSections_next {p p' : LockPhase} (next : s.lockSection c p = (s', p')) (n : Nat) :
    lockSections (fun _ s => s) c (n + 1) s p = lockSections (fun _ s => s) c n s' p' := by
  rw [lockSections_succ next]
  cases p'.gap? <;> rfl

theorem lockSections_add (m n : Nat) (p : LockPhase) :
    lockSections (fun _ s => s) c (m + n) s p =
      lockSections (fun _ s => s) c n (lockSections (fun _ s => s) c m s p).1
        (lockSections (fun _ s => s) c m s p).2 := by
  induction m generalizing s p with
  | zero =>
    rw [Nat.zero_add]
    rfl
  | succ m ih =>
    rcases next : s.lockSection c p with ⟨s', p'⟩
    rw [Nat.succ_add, lockSections_next next, lockSections_next next, ih]

/-- A call that has ended by now has come to what it comes to when nobody interrupts it. -/
theorem lock_of_lockSections {reply : LockReply}
    (done : lockSections (fun _ s => s) c n s .called = (s', .ended reply)) :
    s.lock c = (s', reply) := by
  have late : lockSections (fun _ s => s) c (n + 7) s .called = (s', .ended reply) := by
    rw [lockSections_add, done, lockSections_ended]
  have whole : lockSections (fun _ s => s) c (n + 7) s .called =
      (s.lockWith (fun _ s => s) c).map id .ended := by
    rw [Nat.add_comm, lockSections_add, lockSections_called]
    exact lockSections_ended ..
  obtain ⟨rfl, same⟩ := Prod.mk.inj (late.symm.trans whole)
  cases same
  rfl

theorem unlockSections_next {p p' : UnlockPhase} (next : s.unlockSection h r forced p = (s', p'))
    (n : Nat) : unlockSections (fun _ s => s) h r forced (n + 1) s p =
      unlockSections (fun _ s => s) h r forced n s' p' := by
  rw [unlockSections_succ next]
  cases p'.gap? <;> rfl

end Uninterrupted

end Engine

end TwoPhaseLocking
