import TwoPhaseLocking.Engine.Run

/-! # Runs as moves

A move is what a call does while it keeps everybody else out: it changes the standing of a
transaction, edits one queue and grants what can be granted there, or ends a call. Every
event of a run is a path of moves, so whatever each move keeps is kept by every run. A call
that locks without waiting is taken apart like one that waits: it joins its queue, and then
takes what it was granted.
-/

namespace TwoPhaseLocking

/-- A change of a transaction that leaves its locks alone. -/
inductive Mark where
  | abort (reason : Option AbortReason)
  | shrink
  | commit
  | setState (state : TxnState)
  | letGo

def Mark.apply : Mark → Transaction → Transaction
  | abort reason, t => t.abort reason
  | shrink, t => t.beginShrinking
  | commit, t => t.commit
  | setState state, t => { t with state }
  | letGo, t => { t with kept := false }

@[simp]
theorem Mark.id_apply (m : Mark) (t : Transaction) : (m.apply t).id = t.id := by
  cases m <;> simp [apply]

@[simp]
theorem Mark.locks_apply (m : Mark) (t : Transaction) : (m.apply t).locks = t.locks := by
  cases m <;> simp [apply]

theorem Mark.kept_apply {m : Mark} (keeps : m ≠ .letGo) (t : Transaction) :
    (m.apply t).kept = t.kept := by
  cases m with
  | abort => exact t.kept_abort _
  | shrink =>
    simp only [apply, Transaction.beginShrinking]
    split <;> rfl
  | commit =>
    simp only [apply, Transaction.commit]
    split <;> rfl
  | setState => rfl
  | letGo => exact absurd rfl keeps

/-- The state that a mark leads to. -/
def Mark.state? : Mark → Option TxnState
  | abort _ => some .aborted
  | shrink => some .shrinking
  | commit => some .committed
  | setState state => some state
  | letGo => none

/-- A mark leads to its state or leaves the state as it is. -/
theorem Mark.state_apply (k : Mark) (t : Transaction) :
    (k.apply t).state = t.state ∨ k.state? = some (k.apply t).state := by
  cases k with
  | abort reason =>
    simp only [apply, Transaction.abort]
    split
    · exact .inl rfl
    · exact .inr rfl
  | shrink =>
    simp only [apply, Transaction.beginShrinking]
    split
    · exact .inr rfl
    · exact .inl rfl
  | commit =>
    simp only [apply, Transaction.commit]
    split
    · exact .inl rfl
    · exact .inr rfl
  | setState => exact .inr rfl
  | letGo => exact .inl rfl

inductive Move where
  | begin (isolation : Isolation)
  | adopt (id : TxnId) (isolation : Isolation)
  | mark (h : Handle) (m : Mark)
  | register (h : Handle)
  | unregister (id : TxnId)
  | retire (id : TxnId)
  /-- A new request joins its queue. -/
  | join (c : LockCall)
  /-- A request for more takes the place of the lock in mode `old`. -/
  | swap (c : LockCall) (old : Mode)
  /-- A lock is given back. -/
  | give (h : Handle) (r : Resource) (m : Mode)
  /-- A queue is looked through once more. -/
  | notify (k : QueueKey)
  /-- A call returns with its lock. -/
  | take (w : Sleeper)
  /-- A call returns without, because its transaction is aborted. -/
  | quit (w : Sleeper)
  /-- A call goes back to sleep. -/
  | doze (w : Sleeper)
  /-- Nothing that matters to locking: counters, the graph edited by hand, the clock. -/
  | side

/-- The call asleep, when it gave up `upgradeOf` for its request. -/
def LockCall.sleeper (c : LockCall) (upgradeOf : Option Mode) : Sleeper :=
  { call := c.number, handle := c.handle, mode := c.mode, resource := c.resource, upgradeOf }

namespace Engine

/-- Whose calls are asleep. -/
def callers (s : Engine) : List Handle := s.sleepers.map (·.handle)

theorem hasCall_iff {s : Engine} {h : Handle} : s.HasCall h ↔ h ∈ s.callers := by
  simp [HasCall, callers]

def addSleeper (s : Engine) (w : Sleeper) : Engine := { s with sleepers := s.sleepers ++ [w] }

/-- A new request at the end of its queue, before anybody is granted. -/
def pushRequest (s : Engine) (c : LockCall) : Engine :=
  s.updateQueue c.resource.key (·.push (c.request (s.txn c.handle).id))

/-- A request ahead of those who wait, in place of a lock, before anybody is granted. -/
def swapRequest (s : Engine) (c : LockCall) (old : Mode) : Engine :=
  (s.updateQueue c.resource.key fun q =>
    (q.remove (s.txn c.handle).id).insertUpgrade (c.request (s.txn c.handle).id)).updateTxn
      c.handle (·.forget c.resource old)

/-- A lock taken out of its queue and off its holder's record, before anybody is granted. -/
def dropLock (s : Engine) (h : Handle) (r : Resource) (m : Mode) : Engine :=
  (s.updateQueue r.key (·.remove (s.txn h).id)).updateTxn h (·.forget r m)

/-- The rules have no objection to the call, whose transaction holds `held` on the resource. -/
structure Admits (s : Engine) (c : LockCall) (held : Option Mode) : Prop where
  known : c.handle < s.txns.size
  active : (s.txn c.handle).state.isTerminal = false
  registered : (s.lookup (s.txn c.handle).id).isSome
  holds : (s.txn c.handle).locks.mode? c.resource = held
  differs : held ≠ some c.mode
  lawful : Policy.request (s.txn c.handle).isolation (s.txn c.handle).state c.mode c.resource held
    ((s.txn c.handle).locks.mode? (.table c.resource.tableId)) = none

/-- The states agree in all that matters to locking. -/
structure Alike (s s' : Engine) : Prop where
  txns : s'.txns = s.txns
  sleepers : s'.sleepers = s.sleepers
  queue : ∀ k, s'.queue k = s.queue k
  registry : s'.registry = s.registry
  active : s'.active = s.active
  nextId : s'.nextId = s.nextId
  config : s'.config = s.config

/-- What each move does, and when it can be made. -/
inductive Does : Engine → Move → Engine → Prop where
  | begin {s iso} : Does s (.begin iso) (s.begin iso)
  | adopt {s id iso} : Does s (.adopt id iso) (s.adopt id iso)
  | mark {s h m} : Does s (.mark h m) (s.updateTxn h m.apply)
  | register {s h} (usable : s.isUsable h = true) : Does s (.register h) (s.register h)
  | unregister {s id} : Does s (.unregister id) (s.unregister id)
  | retire {s id} : Does s (.retire id) (s.retire id)
  | join {s c} (admitted : s.Admits c none) :
      Does s (.join c)
        (((s.pushRequest c).addSleeper (c.sleeper none)).grantAndNotify c.resource.key)
  | swap {s c old} (admitted : s.Admits c (some old))
      (free : (s.queue c.resource.key).upgrading = none)
      (there : (s.queue c.resource.key).has (s.txn c.handle).id = true) :
      Does s (.swap c old)
        (((s.swapRequest c old).addSleeper (c.sleeper (some old))).grantAndNotify c.resource.key)
  | give {s h r m} (held : (s.txn h).locks.mode? r = some m)
      (rowsFirst : r.isTable = true → (s.txn h).locks.hasRowsOn r.tableId = false)
      (there : (s.queue r.key).has (s.txn h).id = true) :
      Does s (.give h r m) ((s.dropLock h r m).grantAndNotify r.key)
  | notify {s k} : Does s (.notify k) (s.grantAndNotify k)
  | take {s w xs ys} (asleep : s.sleepers = xs ++ w :: ys)
      (granted : (s.queue w.resource.key).isGranted (s.txn w.handle).id = true)
      (live : (s.txn w.handle).isAborted = false) :
      Does s (.take w)
        (({ s with sleepers := xs ++ ys }.updateQueue w.resource.key
          (·.clearUpgrading (s.txn w.handle).id)).updateTxn w.handle
            (·.record w.resource w.mode))
  | quit {s w xs ys} (asleep : s.sleepers = xs ++ w :: ys)
      (aborted : (s.txn w.handle).isAborted = true) :
      Does s (.quit w)
        ((({ s with sleepers := xs ++ ys }.updateQueue w.resource.key
          (·.clearUpgrading (s.txn w.handle).id)).updateQueue w.resource.key
            (·.remove (s.txn w.handle).id)).grantAndNotify w.resource.key)
  | doze {s w xs ys} (asleep : s.sleepers = xs ++ w :: ys) (waits : s.isReady w = false) :
      Does s (.doze w) { s with sleepers := xs ++ { w with notified := false } :: ys }
  | side {s s'} (alike : s.Alike s') : Does s .side s'

/-- From one state to another by moves that `ok` allows. -/
inductive Path (ok : Engine → Move → Prop) : Engine → Engine → Prop where
  | refl (s : Engine) : Path ok s s
  | next {s s' s'' : Engine} {m : Move} :
      Path ok s s' → s'.Does m s'' → ok s' m → Path ok s s''

section Path

variable {ok ok' : Engine → Move → Prop} {s s' s'' : Engine} {m : Move}

theorem Path.move (does : s.Does m s') (allowed : ok s m) : Path ok s s' :=
  .next (.refl s) does allowed

theorem Path.trans (first : Path ok s s') (second : Path ok s' s'') : Path ok s s'' := by
  induction second with
  | refl => exact first
  | next _ does allowed ih => exact .next ih does allowed

theorem Path.mono (le : ∀ s m, ok s m → ok' s m) (path : Path ok s s') : Path ok' s s' := by
  induction path with
  | refl => exact .refl _
  | next _ does allowed ih => exact .next ih does (le _ _ allowed)

/-- What every allowed move keeps, every path keeps. -/
theorem Path.keeps {P : Engine → Prop}
    (keep : ∀ s m s', P s → s.Does m s' → ok s m → P s') (path : Path ok s s') (h : P s) :
    P s' := by
  induction path with
  | refl => exact h
  | next _ does allowed ih => exact keep _ _ _ ih does allowed

end Path

section Projections

variable (s : Engine) (h : Handle) (k : QueueKey) (f : Transaction → Transaction)
  (g : Queue → Queue) (t : Stats → Stats)

@[simp]
theorem txn_register (h' : Handle) : (s.register h).txn h' = s.txn h' := by
  unfold register
  split <;> rfl

@[simp]
theorem callers_register : (s.register h).callers = s.callers := by
  unfold register
  split <;> rfl

@[simp]
theorem sleepers_register : (s.register h).sleepers = s.sleepers := by
  unfold register
  split <;> rfl

@[simp]
theorem txns_register : (s.register h).txns = s.txns := by
  unfold register
  split <;> rfl

@[simp]
theorem queue_register : (s.register h).queue k = s.queue k := by
  unfold register
  split <;> rfl

@[simp]
theorem callers_updateTxn : (s.updateTxn h f).callers = s.callers := rfl

@[simp]
theorem callers_updateQueue : (s.updateQueue k g).callers = s.callers := rfl

@[simp]
theorem callers_tally : (s.tally t).callers = s.callers := rfl

@[simp]
theorem callers_grantAndNotify : (s.grantAndNotify k).callers = s.callers := by
  simp only [callers, grantAndNotify, List.map_map]
  refine List.map_congr_left fun w _ => ?_
  simp only [Function.comp_apply]
  split <;> rfl

@[simp]
theorem callers_addSleeper (w : Sleeper) : (s.addSleeper w).callers = s.callers ++ [w.handle] := by
  simp [callers, addSleeper]

@[simp]
theorem queue_updateQueue_id (k' : QueueKey) : (s.updateQueue k' id).queue k = s.queue k := by
  rw [queue_updateQueue]
  split
  · simp_all
  · rfl

@[simp]
theorem size_updateTxn : (s.updateTxn h f).txns.size = s.txns.size := Array.size_modify

@[simp]
theorem txn_addSleeper (w : Sleeper) (h' : Handle) : (s.addSleeper w).txn h' = s.txn h' := rfl

@[simp]
theorem queue_addSleeper (w : Sleeper) : (s.addSleeper w).queue k = s.queue k := rfl

theorem queue_pushRequest (c : LockCall) : (s.pushRequest c).queue k =
    if c.resource.key = k then (s.queue c.resource.key).push (c.request (s.txn c.handle).id)
    else s.queue k :=
  queue_updateQueue s _ k _

theorem queue_swapRequest (c : LockCall) (old : Mode) : (s.swapRequest c old).queue k =
    if c.resource.key = k then
      ((s.queue c.resource.key).remove (s.txn c.handle).id).insertUpgrade
        (c.request (s.txn c.handle).id)
    else s.queue k := by
  rw [swapRequest, queue_updateTxn, queue_updateQueue]

theorem queue_dropLock (r : Resource) (m : Mode) : (s.dropLock h r m).queue k =
    if r.key = k then (s.queue r.key).remove (s.txn h).id else s.queue k := by
  rw [dropLock, queue_updateTxn, queue_updateQueue]

theorem txn_dropLock {r : Resource} {m : Mode} (known : h < s.txns.size) :
    (s.dropLock h r m).txn h = (s.txn h).forget r m :=
  txn_updateTxn_self (s := s.updateQueue r.key (·.remove (s.txn h).id)) known

/-- Whatever an update of a transaction leaves alone stays the same for all of them. -/
theorem proj_updateTxn {α : Type} (p : Transaction → α) (same : ∀ t, p (f t) = p t) (h' : Handle) :
    p ((s.updateTxn h f).txn h') = p (s.txn h') := by
  rw [txn_updateTxn]
  split
  · rename_i eq
    rw [same, eq.1]
  · rfl

theorem isAborted_updateTxn_record (r : Resource) (m : Mode) (h' : Handle) :
    ((s.updateTxn h (·.record r m)).txn h').isAborted = (s.txn h').isAborted :=
  proj_updateTxn s h (·.record r m) (·.isAborted) (fun _ => rfl) h'

theorem isAborted_updateTxn_forget (r : Resource) (m : Mode) (h' : Handle) :
    ((s.updateTxn h (·.forget r m)).txn h').isAborted = (s.txn h').isAborted :=
  proj_updateTxn s h (·.forget r m) (·.isAborted) (fun _ => rfl) h'

theorem txn_push (u : Transaction) (h : Handle) :
    txn { s with txns := s.txns.push u } h = if h = s.txns.size then u else s.txn h := by
  simp only [txn, Array.getD_eq_getD_getElem?, Array.getElem?_push]
  split <;> rfl

theorem txn_of_size_le (le : s.txns.size ≤ h) : s.txn h = default := by
  simp [txn, Array.getD_eq_getD_getElem?, le]

end Projections

section Sleepers

variable {s : Engine} {w : Sleeper} {xs ys : List Sleeper}

theorem mem_split (asleep : s.sleepers = xs ++ w :: ys) : w ∈ s.sleepers := by
  simp [asleep]

/-- Those who sleep on when a call ends. -/
theorem rest_sublist (asleep : s.sleepers = xs ++ w :: ys) : (xs ++ ys).Sublist s.sleepers := by
  rw [asleep]
  exact (List.sublist_cons_self w ys).append_left xs

theorem mem_rest_of_ne {v : Sleeper} (asleep : s.sleepers = xs ++ w :: ys)
    (there : v ∈ s.sleepers) (other : v ≠ w) : v ∈ xs ++ ys := by
  rw [asleep, List.perm_middle.mem_iff, List.mem_cons] at there
  exact there.resolve_left other

theorem callers_rest_sublist (asleep : s.sleepers = xs ++ w :: ys) :
    ((xs ++ ys).map (·.handle)).Sublist s.callers :=
  (rest_sublist asleep).map _

end Sleepers

/-- Whoever is unlike a transaction that nobody has begun has been begun. -/
theorem lt_size_of_txn {s : Engine} {h : Handle} {p : Transaction → Prop} (holds : p (s.txn h))
    (unlike : ¬ p default) : h < s.txns.size := by
  apply Nat.lt_of_not_le
  intro le
  rw [txn_of_size_le s h le] at holds
  exact unlike holds

/-- Whoever has a lock on record has been begun. -/
theorem lt_size_of_mem_locks {s : Engine} {h : Handle} {l : Lock} (there : l ∈ (s.txn h).locks) :
    h < s.txns.size :=
  lt_size_of_txn (p := fun t => l ∈ t.locks) there (LockSet.not_mem_empty l)

theorem mem_locks_updateTxn_forget {s : Engine} {h h' : Handle} {r : Resource} {m : Mode}
    {l : Lock} : l ∈ ((s.updateTxn h (·.forget r m)).txn h').locks ↔
      l ∈ (s.txn h').locks ∧ (h' = h → l ≠ ⟨r, m⟩) := by
  rw [txn_updateTxn]
  split
  · rename_i mine
    rw [← mine.1]
    exact LockSet.mem_forget.trans ⟨fun hl => ⟨hl.2, fun _ => hl.1⟩, fun hl => ⟨hl.2 rfl, hl.1⟩⟩
  · rename_i other
    refine ⟨fun there => ⟨there, fun mine => ?_⟩, And.left⟩
    exact absurd ⟨mine.symm, mine ▸ lt_size_of_mem_locks there⟩ other

theorem mem_locks_updateTxn_record {s : Engine} {h h' : Handle} {r : Resource} {m : Mode}
    {l : Lock} (lt : h < s.txns.size) (plain : r.isRow = true → m.isIntention = false) :
    l ∈ ((s.updateTxn h (·.record r m)).txn h').locks ↔
      h' = h ∧ l = ⟨r, m⟩ ∨ l ∈ (s.txn h').locks := by
  have lawful : r.isRow = false ∨ m.isIntention = false := by
    cases row : r.isRow with
    | false => exact .inl rfl
    | true => exact .inr (plain row)
  rw [txn_updateTxn]
  split
  · rename_i mine
    rw [← mine.1]
    exact (LockSet.mem_record lawful).trans (by simp)
  · rename_i other
    refine ⟨.inr, fun there => there.resolve_left fun mine => ?_⟩
    exact other ⟨mine.1.symm, lt⟩

theorem lt_size_of_isUsable {s : Engine} {h : Handle} (usable : s.isUsable h = true) :
    h < s.txns.size := by
  rcases Nat.lt_or_ge h s.txns.size with lt | le
  · exact lt
  · simp [isUsable, le] at usable

theorem kept_of_isUsable {s : Engine} {h : Handle} (usable : s.isUsable h = true) :
    (s.txn h).kept = true := by
  have lt := lt_size_of_isUsable usable
  simpa [isUsable, txn, Array.getD_eq_getD_getElem?, lt] using usable

/-- Once registered, a usable transaction is found under its identifier. -/
theorem lookup_register {s : Engine} {h : Handle} (usable : s.isUsable h = true) :
    ((s.register h).lookup (s.txn h).id).isSome := by
  unfold register
  split
  · assumption
  · have referred : isReferred { s with registry := s.registry.insert (s.txn h).id h } h = true := by
      simp only [isReferred, Bool.or_eq_true]
      exact .inl (.inl (kept_of_isUsable usable))
    simp [lookup, referred]

end Engine

end TwoPhaseLocking
