import Mathlib.Data.Finset.Card
import TwoPhaseLocking.Engine.Batch
import TwoPhaseLocking.Proofs.Served
import TwoPhaseLocking.Proofs.Upgrade

/-! # Locking a batch of rows and releasing it leaves no trace

A transaction without locks takes some that nobody else minds, and gives them all back. In between
the state is the one before with these locks on top, and each call takes one of them more or gives
one of them back. So it does not matter in which order they go, or how often a row is asked for.
-/

namespace TwoPhaseLocking

/-- The counters after so many locks were taken at once and so many were given back. -/
def Stats.turnover (t : Stats) (taken given : Nat) : Stats :=
  { t with
    lockRequests := t.lockRequests + .ofNat taken
    immediateGrants := t.immediateGrants + .ofNat taken
    unlocks := t.unlocks + .ofNat given }

theorem Stats.turnover_zero (t : Stats) : t.turnover 0 0 = t := by
  simp [turnover]

theorem Stats.lockRequest_turnover (t : Stats) (taken given : Nat) :
    (t.turnover taken given).lockRequest.immediateGrant = t.turnover (taken + 1) given := by
  simp [turnover, lockRequest, immediateGrant, UInt64.ofNat_add, UInt64.add_assoc]

theorem Stats.unlock_turnover (t : Stats) (taken given : Nat) :
    (t.turnover taken given).unlock = t.turnover taken (given + 1) := by
  simp [turnover, unlock, UInt64.ofNat_add, UInt64.add_assoc]

namespace Queue

variable {q : Queue} {who : TxnId} {m : Mode} {r : Request}

/-- Everybody in the queue has been granted a mode that goes with `m`, and the transaction has
nothing to do with it yet. -/
structure Welcomes (q : Queue) (who : TxnId) (m : Mode) : Prop where
  granted : ∀ x ∈ q.requests, x.granted = true
  fits : ∀ x ∈ q.requests, x.mode.compatible m = true
  absent : ∀ x ∈ q.requests, x.txn ≠ who
  unmarked : q.upgrading ≠ some who

/-- A grant pass walks past those who have been granted. -/
theorem grantWaiting_append (held : List Mode) {xs : List Request}
    (granted : ∀ x ∈ xs, x.granted = true) (rs : List Request) :
    grantWaiting held (xs ++ rs) = (grantWaiting held rs).map (xs ++ ·) id := by
  induction xs with
  | nil => rfl
  | cons x xs ih =>
    rw [List.cons_append, grantWaiting, if_pos (granted x List.mem_cons_self),
      ih fun y hy => granted y (List.mem_cons_of_mem x hy)]
    rfl

/-- Where nobody waits, nobody is granted anything. -/
theorem grant_eq_self (granted : ∀ x ∈ q.requests, x.granted = true) : q.grant = q := by
  have still := grantWaiting_append q.heldModes granted []
  rw [List.append_nil] at still
  rw [grant, still]
  simp [grantWaiting]

theorem Welcomes.compatible (welcomes : q.Welcomes who m) :
    m.compatibleWithAll q.heldModes = true := by
  refine Mode.compatibleWithAll_iff.2 fun o held => ?_
  obtain ⟨x, hx, -, rfl⟩ := mem_heldModes.1 held
  rw [Mode.compatible_comm]
  exact welcomes.fits x hx

/-- A newcomer is granted what he asks for. -/
theorem Welcomes.grant_push (welcomes : q.Welcomes r.txn r.mode) (waits : r.granted = false) :
    (q.push r).grant = q.push { r with granted := true } := by
  have held : (q.push r).heldModes = q.heldModes := by simp [heldModes, waits]
  rw [grant, requests_push, grantWaiting_append _ welcomes.granted, held, grantWaiting,
    if_neg (by simp [waits]), if_pos welcomes.compatible]
  rfl

theorem Welcomes.isGranted_push (welcomes : q.Welcomes r.txn m) :
    (q.push r).isGranted r.txn = r.granted := by
  have absent : q.requests.find? (·.txn == r.txn) = none := by
    simpa using welcomes.absent
  simp [isGranted, find?, absent]

theorem Welcomes.remove_push (welcomes : q.Welcomes r.txn m) : (q.push r).remove r.txn = q := by
  have absent : ∀ x ∈ q.requests, ¬ (x.txn == r.txn) = true := by
    simpa using welcomes.absent
  rw [remove, requests_push, List.eraseP_append_right _ absent]
  simp [push]

theorem Welcomes.clearUpgrading_push (welcomes : q.Welcomes r.txn m) :
    (q.push r).clearUpgrading r.txn = q.push r :=
  if_neg welcomes.unmarked

end Queue

/-- The granted request that stands behind a lock. -/
def Lock.request (l : Lock) (number : Nat) (id : TxnId) : Request :=
  { call := number, txn := id, mode := l.mode, resource := l.resource, granted := true }

def Lock.call (l : Lock) (number : Nat) (h : Handle) : LockCall :=
  { number, handle := h, mode := l.mode, resource := l.resource }

/-- A lock is taken at once. -/
def Stroke.take (id : TxnId) (number : Nat) (h : Handle) (l : Lock) : Stroke where
  key := l.resource.key
  queue q := (q.push { l.request number id with granted := false }).grant.clearUpgrading id
  handle := h
  txn := (·.record l.resource l.mode)
  sleeper v := some (v.tell l.resource.key)
  stats t := t.lockRequest.immediateGrant

section

variable {q : Queue} {who : TxnId} {number : Nat} {h : Handle} {l : Lock}

/-- A newcomer's granted request comes last. -/
theorem Queue.Welcomes.take (welcomes : q.Welcomes who l.mode) :
    (Stroke.take who number h l).queue q = q.push (l.request number who) := by
  change (q.push { l.request number who with granted := false }).grant.clearUpgrading who = _
  rw [Queue.Welcomes.grant_push welcomes rfl]
  exact Queue.Welcomes.clearUpgrading_push (r := l.request number who) welcomes

/-- And when he leaves, the queue is as it was. -/
theorem Queue.Welcomes.give (welcomes : q.Welcomes who l.mode) :
    (Stroke.give who h l).queue (q.push (l.request number who)) = q := by
  have gone := Queue.Welcomes.remove_push (r := l.request number who) welcomes
  exact (congrArg Queue.grant gone).trans (Queue.grant_eq_self welcomes.granted)

end

namespace Engine

variable {tableOf : RowId → TableId} {config : Config} {s s' : Engine} {h : Handle} {l : Lock}
  {number given : Nat} {held : List Lock} {rs : List Resource} {w : Walk}

/-- Nobody minds that the transaction takes the lock, and nobody who sleeps will hear of it. -/
structure Room (s : Engine) (h : Handle) (l : Lock) : Prop where
  welcomes : (s.queue l.resource.key).Welcomes (s.txn h).id l.mode
  awake : ∀ v ∈ s.sleepers, v.resource.key ≠ l.resource.key
  plain : l.resource.isRow = false ∨ l.mode.isIntention = false

/-- A lock call comes to a single stroke once it is granted at once. -/
theorem take_eq (s : Engine) (number : Nat) (h : Handle) (l : Lock) :
    ((((((s.updateQueue l.resource.key id).tally Stats.lockRequest).pushRequest
      (l.call number h)).grantAndNotify l.resource.key).tally Stats.immediateGrant).updateQueue
        l.resource.key (·.clearUpgrading (s.txn h).id)).updateTxn h
          (·.record l.resource l.mode) = (Stroke.take (s.txn h).id number h l).apply s := by
  have edits (push clear : Queue → Queue) :
      (((s.updateQueue l.resource.key id).updateQueue l.resource.key push).updateQueue
        l.resource.key Queue.grant).updateQueue l.resource.key clear =
        s.updateQueue l.resource.key fun q => clear (push q).grant := by
    rw [updateQueue_updateQueue, updateQueue_updateQueue, updateQueue_updateQueue]
    rfl
  refine Engine.ext rfl rfl (congrArg (·.queues)
    (edits (·.push ((l.call number h).request (s.txn h).id)) (·.clearUpgrading (s.txn h).id)))
    rfl rfl rfl rfl ?_ rfl rfl
  refine (sleepers_grantAndNotify _ l.resource.key).trans ?_
  rw [← List.filterMap_eq_map]
  rfl

/-- A new lock for which there is room is taken at once. -/
theorem Room.lock (room : s.Room h l) (number : Nat) (active : (s.txn h).state.isTerminal = false)
    (free : (s.txn h).locks.mode? l.resource = none)
    (lawful : Policy.request (s.txn h).isolation (s.txn h).state l.mode l.resource none
      ((s.txn h).locks.mode? (.table l.resource.tableId)) = none) :
    ∃ registry, s.lock (l.call number h) =
      ((Stroke.take (s.txn h).id number h l).apply { s with registry }, .returned true) := by
  obtain ⟨registry, registered⟩ := s.exists_register h
  let s₁ := (({ s with registry }.updateQueue l.resource.key id).tally
    Stats.lockRequest).pushRequest (l.call number h)
  have entered : s.lock (l.call number h) = s₁.await (l.call number h) none := by
    rw [lock_eq]
    simp only [Lock.call, active, free, lawful, registered, Bool.false_eq_true, if_false,
      reduceCtorEq]
    rfl
  have queue : s₁.queue l.resource.key =
      (s.queue l.resource.key).push { l.request number (s.txn h).id with granted := false } := by
    refine (queue_pushRequest ..).trans ((if_pos rfl).trans ?_)
    rw [queue_tally]
    exact congrArg (Queue.push · _) (queue_updateQueue_id { s with registry } _ _)
  have granted : ((s₁.queue l.resource.key).grant).isGranted (s.txn h).id = true := by
    rw [queue, Queue.Welcomes.grant_push room.welcomes rfl]
    exact Queue.Welcomes.isGranted_push (r := l.request number (s.txn h).id) room.welcomes
  have taken := entered.trans
    (await_granted (s := s₁) (c := l.call number h) (isAborted_of_active active) granted)
  have stroke := take_eq { s with registry } number h l
  exact ⟨registry, taken.trans (congrArg (·, LockReply.returned true) stroke)⟩

/-- All around the transaction is as in `s`, but for the queues, the register and the counters. -/
structure Around (s : Engine) (h : Handle) (s' : Engine) : Prop where
  others : ∀ h', h' ≠ h → s'.txn h' = s.txn h'
  size : s'.txns.size = s.txns.size
  rest : { s' with
    queues := s.queues, registry := s.registry, stats := s.stats, txns := s.txns } = s

theorem Around.sleepers (around : s.Around h s') : s'.sleepers = s.sleepers :=
  congrArg (·.sleepers) around.rest

/-- A stroke about this transaction that no sleeping call hears of. -/
theorem Around.apply (around : s.Around h s') {a : Stroke} (handle : a.handle = h)
    (unheard : ∀ v ∈ s.sleepers, a.sleeper v = some v) : s.Around h (a.apply s') where
  others h' other := (Stroke.txn_apply_of_ne (handle.trans_ne other.symm)).trans
    (around.others h' other)
  size := (size_updateTxn (s'.updateQueue a.key a.queue) a.handle a.txn).trans around.size
  rest := by
    have sleepers : s'.sleepers.filterMap a.sleeper = s'.sleepers := by
      rw [around.sleepers, List.filterMap_congr unheard, List.filterMap_some]
    refine Eq.trans ?_ around.rest
    exact Engine.ext rfl rfl rfl rfl rfl rfl rfl sleepers rfl rfl

/-- The state is `s` with the locks `held` of the transaction on top, after `given` others were
given back. -/
structure Borrows (s : Engine) (number : Nat) (h : Handle) (held : List Lock) (given : Nat)
    (s' : Engine) : Prop extends s.Around h s' where
  apart : (held.map (·.resource.key)).Nodup
  room : ∀ l ∈ held, s.Room h l
  asked : ∀ l ∈ held, s'.queue l.resource.key =
    (s.queue l.resource.key).push (l.request number (s.txn h).id)
  elsewhere : ∀ k, (∀ l ∈ held, l.resource.key ≠ k) → s'.queue k = s.queue k
  locks : ∀ l, l ∈ (s'.txn h).locks ↔ l ∈ held
  own : s'.txn h = { s.txn h with locks := (s'.txn h).locks }
  stats : s'.stats = s.stats.turnover (held.length + given) given

theorem Borrows.refl (empty : (s.txn h).locks = ∅) (number : Nat) : s.Borrows number h [] 0 s where
  others _ _ := rfl
  size := rfl
  rest := rfl
  apart := .nil
  room _ there := nomatch there
  asked _ there := nomatch there
  elsewhere _ _ := rfl
  locks l := by simp [empty]
  own := rfl
  stats := (Stats.turnover_zero _).symm

theorem Borrows.id_eq (borrows : s.Borrows number h held given s') :
    (s'.txn h).id = (s.txn h).id := by
  rw [borrows.own]

theorem Borrows.mode?_eq (borrows : s.Borrows number h held given s') (there : l ∈ held) :
    (s'.txn h).locks.mode? l.resource = some l.mode := by
  obtain ⟨m, found⟩ := LockSet.exists_mode? ((borrows.locks l).2 there)
  have same : (⟨l.resource, m⟩ : Lock) = l := List.inj_on_of_nodup_map borrows.apart
    ((borrows.locks _).1 (LockSet.mem_of_mode? found)) there rfl
  rw [found, ← same]

/-- Registering a transaction is nothing to anybody. -/
theorem Borrows.register (borrows : s.Borrows number h held given s')
    (registry : Std.ExtTreeMap TxnId Handle compare) :
    s.Borrows number h held given { s' with registry } :=
  { borrows with }

/-- A new lock goes on top. -/
theorem Borrows.take (borrows : s.Borrows number h held given s') (known : h < s.txns.size)
    (room : s.Room h l) (new : ∀ l' ∈ held, l'.resource.key ≠ l.resource.key) :
    s.Borrows number h (l :: held) given
      ((Stroke.take (s'.txn h).id number h l).apply s') := by
  have queue (k : QueueKey) : ((Stroke.take (s'.txn h).id number h l).apply s').queue k =
      if l.resource.key = k then
        (s.queue l.resource.key).push (l.request number (s.txn h).id)
      else s'.queue k := by
    rw [Stroke.queue_apply, borrows.id_eq]
    exact if_congr Iff.rfl ((congrArg _ (borrows.elsewhere _ new)).trans room.welcomes.take) rfl
  have own : ((Stroke.take (s'.txn h).id number h l).apply s').txn h =
      (s'.txn h).record l.resource l.mode :=
    txn_updateTxn_self (s := s'.updateQueue _ _) (borrows.size.symm ▸ known)
  constructor
  case toAround =>
    refine borrows.toAround.apply rfl fun v asleep => ?_
    simp [Stroke.take, Sleeper.tell, room.awake v asleep]
  case apart =>
    refine List.nodup_cons.2 ⟨fun there => ?_, borrows.apart⟩
    obtain ⟨l', held', same⟩ := List.mem_map.1 there
    exact new l' held' same
  case room => exact List.forall_mem_cons.2 ⟨room, borrows.room⟩
  case asked =>
    refine List.forall_mem_cons.2 ⟨(queue _).trans (if_pos rfl), fun l' there => ?_⟩
    rw [queue, if_neg (new l' there).symm]
    exact borrows.asked l' there
  case elsewhere =>
    intro k others
    obtain ⟨other, others⟩ := List.forall_mem_cons.1 others
    rw [queue, if_neg other]
    exact borrows.elsewhere k others
  case locks =>
    intro l'
    rw [own, List.mem_cons, ← borrows.locks]
    exact LockSet.mem_record room.plain
  case own =>
    rw [own, borrows.own]
    rfl
  case stats =>
    change s'.stats.lockRequest.immediateGrant = _
    rw [borrows.stats, Stats.lockRequest_turnover, List.length_cons, Nat.add_right_comm]

/-- Any of the locks can be taken off again, whichever went on last. -/
theorem Borrows.give (borrows : s.Borrows number h held given s') (known : h < s.txns.size)
    (there : l ∈ held) :
    s.Borrows number h (held.erase l) (given + 1) (s'.giveBack h l.resource l.mode) := by
  have nodup : held.Nodup := borrows.apart.of_map
  have left {l' : Lock} (still : l' ∈ held.erase l) :
      l' ∈ held ∧ l'.resource.key ≠ l.resource.key := by
    obtain ⟨other, before⟩ := nodup.mem_erase_iff.1 still
    exact ⟨before, fun same => other (List.inj_on_of_nodup_map borrows.apart before there same)⟩
  have room := borrows.room l there
  have queue (k : QueueKey) : (s'.giveBack h l.resource l.mode).queue k =
      if l.resource.key = k then s.queue l.resource.key else s'.queue k := by
    rw [giveBack, give_eq, Stroke.queue_apply, borrows.id_eq]
    exact if_congr Iff.rfl ((congrArg _ (borrows.asked l there)).trans room.welcomes.give) rfl
  have own : (s'.giveBack h l.resource l.mode).txn h = (s'.txn h).forget l.resource l.mode :=
    txn_giveBack (borrows.size.symm ▸ known)
  constructor
  case toAround =>
    rw [giveBack, give_eq]
    refine borrows.toAround.apply rfl fun v asleep => ?_
    simp [Stroke.give, Sleeper.tell, room.awake v asleep]
  case apart => exact borrows.apart.sublist (List.erase_sublist.map _)
  case room => exact fun l' still => borrows.room l' (left still).1
  case asked =>
    intro l' still
    rw [queue, if_neg (left still).2.symm]
    exact borrows.asked l' (left still).1
  case elsewhere =>
    intro k others
    rw [queue]
    split
    · rename_i here
      rw [here]
    · rename_i other
      refine borrows.elsewhere k fun l' before => ?_
      by_cases same : l' = l
      · rwa [same]
      · exact others l' (nodup.mem_erase_iff.2 ⟨same, before⟩)
  case locks =>
    intro l'
    rw [own, nodup.mem_erase_iff, ← borrows.locks]
    exact LockSet.mem_forget
  case own =>
    rw [own, borrows.own]
    rfl
  case stats =>
    change s'.stats.unlock = _
    rw [borrows.stats, Stats.unlock_turnover, List.length_erase_of_mem there]
    have some : 0 < held.length := List.length_pos_of_mem there
    congr 1
    omega

theorem Borrows.room_again (borrows : s.Borrows number h held given s') (room : s.Room h l)
    (new : ∀ l' ∈ held, l'.resource.key ≠ l.resource.key) : s'.Room h l where
  welcomes := by
    rw [borrows.elsewhere _ new, borrows.id_eq]
    exact room.welcomes
  awake := by
    rw [borrows.sleepers]
    exact room.awake
  plain := room.plain

/-- A lock call for something new is granted at once, if the rules permit it. -/
theorem Borrows.lock_new (borrows : s.Borrows number h held given s') (known : h < s.txns.size)
    (active : (s.txn h).state.isTerminal = false) (room : s.Room h l)
    (new : ∀ l' ∈ held, l'.resource.key ≠ l.resource.key)
    (lawful : Policy.request (s.txn h).isolation (s.txn h).state l.mode l.resource none
      ((s'.txn h).locks.mode? (.table l.resource.tableId)) = none) :
    ∃ s'', s'.lock (l.call number h) = (s'', .returned true) ∧
      s.Borrows number h (l :: held) given s'' := by
  have free : (s'.txn h).locks.mode? l.resource = none := LockSet.mode?_eq_none_iff.2
    fun m there => new _ ((borrows.locks _).1 there) rfl
  obtain ⟨registry, locked⟩ := (borrows.room_again room new).lock number
    (by rwa [borrows.own]) free (by rwa [borrows.own])
  exact ⟨_, locked, (borrows.register registry).take known room new⟩

/-- A lock call for something that is held does nothing. -/
theorem Borrows.lock_again (borrows : s.Borrows number h held given s')
    (active : (s.txn h).state.isTerminal = false) (there : l ∈ held) :
    ∃ s'', s'.lock (l.call number h) = (s'', .returned true) ∧
      s.Borrows number h held given s'' := by
  obtain ⟨registry, registered⟩ := s'.exists_register h
  have active' : (s'.txn h).state.isTerminal = false := by rwa [borrows.own]
  refine ⟨_, ?_, borrows.register registry⟩
  rw [lock_eq, ← registered]
  simp only [Lock.call, active', borrows.mode?_eq there, Bool.false_eq_true, if_false, if_true]

/-- A batch goes on when one of its lock calls has returned. -/
theorem runBatch_cons {granted : Bool} {ls : List Lock}
    (locked : s.lock (l.call number h) = (s', .returned granted)) :
    s.runBatch w number h (l :: ls) = s'.runBatch w number h ls := by
  rw [Lock.call] at locked
  rw [runBatch, locked]

/-- The locks of a batch that has come to these rows so far. -/
def batch (table : TableId) (taken : List RowId) : List Lock :=
  taken.map (fun r => ⟨.row table r, .exclusive⟩) ++ [⟨.table table, .intentionExclusive⟩]

variable {table : TableId} {taken rows : List RowId} {row : RowId}

theorem mem_batch : l ∈ batch table taken ↔ (∃ r ∈ taken, l = ⟨.row table r, .exclusive⟩) ∨
    l = ⟨.table table, .intentionExclusive⟩ := by
  simp [batch, eq_comm]

theorem Borrows.nodup_taken (borrows : s.Borrows number h (batch table taken) given s') :
    taken.Nodup := by
  have apart := borrows.apart
  rw [batch, List.map_append, List.map_map] at apart
  exact apart.of_append_left.of_map

section

variable (known : h < s.txns.size) (growing : (s.txn h).state = .growing)
  (repeatable : (s.txn h).isolation = .repeatableRead)

include known growing repeatable

/-- The next row is taken, unless it was already. -/
theorem Borrows.lock_row (borrows : s.Borrows number h (batch table taken) given s')
    (room : s.Room h ⟨.row table row, .exclusive⟩) : ∃ taken' s'',
      s'.lock (Lock.call ⟨.row table row, .exclusive⟩ number h) = (s'', .returned true) ∧
        s.Borrows number h (batch table taken') given s'' ∧
          ∀ r, r ∈ taken' ↔ r = row ∨ r ∈ taken := by
  have active : (s.txn h).state.isTerminal = false := by
    rw [growing]
    rfl
  by_cases again : row ∈ taken
  -- a lock that is held in the mode asked for is found before any rule is applied
  · obtain ⟨s'', locked, borrows'⟩ :=
      borrows.lock_again active (mem_batch.2 (.inl ⟨row, again, rfl⟩))
    refine ⟨taken, s'', locked, borrows', fun r => (or_iff_right_of_imp ?_).symm⟩
    rintro rfl
    exact again
  · have cover : (s'.txn h).locks.mode? (.table table) = some .intentionExclusive :=
      borrows.mode?_eq (l := ⟨.table table, .intentionExclusive⟩) (mem_batch.2 (.inr rfl))
    have new : ∀ l ∈ batch table taken, l.resource.key ≠ .row row := by
      intro l there same
      rcases mem_batch.1 there with ⟨r, before, rfl⟩ | rfl
      · cases same
        exact again before
      · cases same
    have lawful : Policy.request (s.txn h).isolation (s.txn h).state .exclusive (.row table row)
        none ((s'.txn h).locks.mode? (.table table)) = none := by
      rw [growing, repeatable, cover]
      rfl
    obtain ⟨s'', locked, borrows'⟩ := borrows.lock_new known active room new lawful
    exact ⟨row :: taken, s'', locked, borrows', fun r => List.mem_cons⟩

/-- All the rows are taken before anything is released. -/
theorem Borrows.runBatch (borrows : s.Borrows number h (batch table taken) given s')
    (room : ∀ r ∈ rows, s.Room h ⟨.row table r, .exclusive⟩) : ∃ taken' s'',
      s'.runBatch w number h (rows.map fun r => ⟨.row table r, .exclusive⟩) =
          s''.runBatch w number h [] ∧
        s.Borrows number h (batch table taken') given s'' ∧
          ∀ r, r ∈ taken' ↔ r ∈ rows ∨ r ∈ taken := by
  induction rows generalizing s' taken with
  | nil => exact ⟨taken, s', rfl, borrows, by simp⟩
  | cons row rows ih =>
    obtain ⟨here, later⟩ := List.forall_mem_cons.1 room
    obtain ⟨taken₁, s₁, locked, borrows₁, mem₁⟩ :=
      borrows.lock_row known growing repeatable here
    obtain ⟨taken', s'', run, borrows', mem'⟩ := ih borrows₁ later
    refine ⟨taken', s'', ?_, borrows', fun r => ?_⟩
    · rw [List.map_cons, runBatch_cons locked]
      exact run
    · rw [mem', mem₁, List.mem_cons, or_left_comm, or_assoc]

end

/-- A list of the locks on top is worked off to the end. With each of them one less is held and one
more was given back. -/
theorem Borrows.releaseEach (borrows : s.Borrows number h held given s') (known : h < s.txns.size)
    (itemizes : s'.Itemizes h rs) :
    ∃ s'', Engine.releaseEach (fun _ s => s) s' h rs = (s'', .done) ∧
      s.Borrows number h [] (held.length + given) s'' := by
  induction rs generalizing s' held given with
  | nil =>
    have none : held = [] := List.eq_nil_iff_forall_not_mem.2 fun l there => by
      have held := (borrows.locks l).2 there
      rw [itemizes.locks_eq_empty] at held
      exact LockSet.not_mem_empty l held
    subst none
    rw [List.length_nil, Nat.zero_add]
    exact ⟨s', rfl, borrows⟩
  | cons r rs ih =>
    obtain ⟨m, found⟩ := itemizes.exists_mode? List.mem_cons_self
    have there := (borrows.locks _).1 (LockSet.mem_of_mode? found)
    have has : (s'.queue r.key).has (s'.txn h).id = true := by
      refine Queue.has_iff.2 ⟨Lock.request ⟨r, m⟩ number (s.txn h).id, ?_, borrows.id_eq.symm⟩
      rw [borrows.asked _ there]
      simp
    obtain ⟨s'', done, rest⟩ := ih (borrows.give known there) (itemizes.giveBack found)
    refine ⟨s'', ?_, ?_⟩
    · rw [Engine.releaseEach, unlock_done found itemizes.rowsFirst_head has]
      exact done
    · have some : 0 < held.length := List.length_pos_of_mem there
      rw [List.length_erase_of_mem there] at rest
      rwa [show held.length - 1 + (given + 1) = held.length + given by omega] at rest

/-- With nothing left on top the state is as it was, but for the register and the counters. -/
theorem Borrows.returned (borrows : s.Borrows number h [] given s')
    (empty : (s.txn h).locks = ∅) :
    s' = { s with
      queues := s'.queues
      registry := s'.registry
      stats := s.stats.turnover given given } := by
  have none : (s'.txn h).locks = ∅ := LockSet.eq_empty_iff.2 fun l there =>
    List.not_mem_nil ((borrows.locks l).1 there)
  have txns : s'.txns = s.txns := by
    refine Array.ext borrows.size fun h' lt lt' => ?_
    have same : s'.txn h' = s.txn h' := by
      by_cases mine : h' = h
      · rw [mine, borrows.own, none, ← empty]
      · exact borrows.others h' mine
    simpa [txn, lt, lt'] using same
  have stats : s'.stats = s.stats.turnover given given := by
    simpa using borrows.stats
  conv_rhs => rw [← borrows.rest, ← txns, ← stats]

/-- There is room where the queue has only locks granted that go with the new one. -/
theorem Reachable.room (reach : Reachable config (fun s e => e.Fair tableOf s) s)
    (quiet : s.isQuiet = true) (known : h < s.txns.size) (idle : ¬ s.HasCall h)
    (empty : (s.txn h).locks = ∅)
    (welcome : ∀ x ∈ (s.queue l.resource.key).requests,
      x.granted = true ∧ x.mode.compatible l.mode = true)
    (plain : l.resource.isRow = false ∨ l.mode.isIntention = false) : s.Room h l := by
  have awake : ∀ v ∈ s.sleepers, v.resource.key ≠ l.resource.key := by
    intro v asleep here
    obtain ⟨x, hx, -, waits⟩ := reach.books.waits asleep (untold_of_isQuiet quiet asleep)
    rw [here] at hx
    rw [(welcome x hx).1] at waits
    cases waits
  have absent := (reach.books.balanced known idle).no_request empty l.resource.key
  refine ⟨⟨fun x hx => (welcome x hx).1, fun x hx => (welcome x hx).2, fun x hx own => ?_,
    fun marked => ?_⟩, awake, plain⟩
  · rw [Queue.has_iff.2 ⟨x, hx, own⟩] at absent
    cases absent
  · obtain ⟨v, asleep, on, -⟩ := reach.marked _ _ marked
    exact awake v asleep on

/-- Let a growing repeatable-read transaction have no lock and no call under way, in a state that
fair clients can lead to and in which all calls have looked that have been told something. If
nobody waits for the table and all its locks go with an intention to write, and the rows are free,
then locking the rows and releasing everything neither blocks nor fails. Afterwards each queue is
as it was, its upgrade mark included, and so is each transaction. One lock more was requested,
granted at once and released than there are different rows. -/
theorem lock_rows_and_release_neutral
    (reach : Reachable config (fun s e => e.Fair tableOf s) s) (quiet : s.isQuiet = true)
    (complete : w.Complete) (number : Nat) (table : TableId) (rows : List RowId)
    (known : h < s.txns.size) (growing : (s.txn h).state = .growing)
    (repeatable : (s.txn h).isolation = .repeatableRead) (empty : (s.txn h).locks = ∅)
    (idle : ¬ s.HasCall h)
    (shared : ∀ x ∈ (s.queue (.table table)).requests,
      x.granted = true ∧ x.mode.compatible .intentionExclusive = true)
    (free : ∀ r ∈ rows, (s.queue (.row r)).requests = []) :
    ∃ s', s.lockRowsAndRelease w number h table rows = (s', .finished) ∧
      (∀ k, s'.queue k = s.queue k) ∧
      s' = { s with
        queues := s'.queues
        registry := s'.registry
        stats := s.stats.turnover (1 + rows.toFinset.card) (1 + rows.toFinset.card) } := by
  have roomy (r : RowId) (there : r ∈ rows) : s.Room h ⟨.row table r, .exclusive⟩ := by
    refine reach.room quiet known idle empty ?_ (.inr rfl)
    rw [Resource.key_row, free r there]
    exact List.forall_mem_nil _
  have active : (s.txn h).state.isTerminal = false := by
    rw [growing]
    rfl
  obtain ⟨s₁, locked, borrows₁⟩ := (Borrows.refl empty number).lock_new
    (l := ⟨.table table, .intentionExclusive⟩) known active
    (reach.room quiet known idle empty shared (.inl rfl)) (List.forall_mem_nil _)
    (by rw [growing, repeatable, empty]; rfl)
  have none : s.Borrows number h (batch table []) 0 s₁ := borrows₁
  obtain ⟨taken, s₂, run, borrows₂, mem⟩ :=
    none.runBatch (w := w) known growing repeatable roomy
  obtain ⟨s', done, borrows'⟩ := borrows₂.releaseEach known (itemizes_locks complete s₂ h)
  have count : (batch table taken).length + 0 = 1 + rows.toFinset.card := by
    have same : rows.toFinset = taken.toFinset := by
      ext r
      simp [mem]
    rw [same, List.toFinset_card_of_nodup borrows₂.nodup_taken]
    simp [batch, Nat.add_comm]
  rw [count] at borrows'
  refine ⟨s', ?_, fun k => borrows'.elsewhere k (List.forall_mem_nil _), borrows'.returned empty⟩
  rw [lockRowsAndRelease, runBatch_cons locked, run, Engine.runBatch, releaseAll, done]

/-- For instance beside a writer of another row for which a reader waits. -/
theorem lock_rows_and_release_beside_writer :
    let s := (fresh {}).afterAll .ascending
      [.op (.begin .repeatableRead), .op (.begin .repeatableRead), .op (.begin .repeatableRead),
        .op (.lock ⟨3, 1, .intentionExclusive, .table 5⟩),
        .op (.lock ⟨4, 1, .exclusive, .row 5 ⟨5, 7⟩⟩),
        .op (.lock ⟨5, 2, .intentionShared, .table 5⟩), .op (.lock ⟨6, 2, .shared, .row 5 ⟨5, 7⟩⟩)]
    s.isQuiet = true ∧ s.callers = [2] ∧
      ∃ s', s.lockRowsAndRelease .ascending 7 0 5 [⟨5, 1⟩, ⟨5, 0⟩, ⟨5, 1⟩] = (s', .finished) ∧
        (∀ k, s'.queue k = s.queue k) ∧
        s' = { s with
          queues := s'.queues
          registry := s'.registry
          stats := s.stats.turnover 3 3 } := by
  intro s
  have reach : Reachable {} (fun s e => e.Fair (fun _ => 5) s) s :=
    Reachable.afterAll Walk.complete_ascending .fresh (by decide +kernel)
  have quiet : s.isQuiet = true := by decide +kernel
  exact ⟨quiet, by decide +kernel,
    lock_rows_and_release_neutral (h := 0) reach quiet Walk.complete_ascending 7 5
      [⟨5, 1⟩, ⟨5, 0⟩, ⟨5, 1⟩] (by decide +kernel) (by decide +kernel) (by decide +kernel)
      (by decide +kernel) (by decide +kernel) (by decide +kernel) (by decide +kernel)⟩

end Engine

end TwoPhaseLocking
