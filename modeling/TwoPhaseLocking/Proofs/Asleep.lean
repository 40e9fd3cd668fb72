import Mathlib.Data.List.TakeWhile
import Mathlib.Logic.Relation
import TwoPhaseLocking.Proofs.Consistency
import TwoPhaseLocking.Proofs.Coverage

/-! # While a call sleeps

What others do to the queue a call sleeps on leaves its request where it is, and an upgrade
that waits keeps the place it had as a lock: those granted fit the mode it gave up. A call is
told whenever its queue is looked through, and forgets that only by looking at the queue.
-/

namespace TwoPhaseLocking

namespace Queue

/-- What those do to a queue who are not `id`. -/
inductive Turn (id : TxnId) : Queue → Queue → Prop where
  | push {q r} (other : r.txn ≠ id) : Turn id q (q.push r)
  | insertUpgrade {q r} (free : q.upgrading = none) (other : r.txn ≠ id) :
      Turn id q (q.insertUpgrade r)
  | remove {q id'} (other : id' ≠ id) : Turn id q (q.remove id')
  | clearUpgrading {q id'} (other : id' ≠ id) : Turn id q (q.clearUpgrading id')
  | grant {q} : Turn id q q.grant

/-- One turn after the other. -/
def Turns (id : TxnId) : Queue → Queue → Prop := Relation.ReflTransGen (Turn id)

variable {id : TxnId} {q q' : Queue} {x : Request} {old : Mode}

/-- What every turn keeps, all turns keep. -/
theorem Turns.keeps {P : Queue → Prop} (turns : Turns id q q')
    (keep : ∀ q q', P q → Turn id q q' → P q') (h : P q) : P q' := by
  induction turns with
  | refl => exact h
  | tail _ turn ih => exact keep _ _ ih turn

/-- The transaction's own request stays, and may be granted. -/
theorem Turn.request (turn : Turn id q q') (hx : x ∈ q.requests) (own : x.txn = id) :
    ∃ x' ∈ q'.requests, x.GrownTo x' := by
  cases turn with
  | push => exact ⟨x, List.mem_append_left _ hx, .refl x⟩
  | insertUpgrade => exact ⟨x, mem_insertUpgrade.2 (.inr hx), .refl x⟩
  | remove other => exact ⟨x, (mem_remove_of_ne (by rwa [own, ne_comm])).2 hx, .refl x⟩
  | clearUpgrading =>
    rw [requests_clearUpgrading]
    exact ⟨x, hx, .refl x⟩
  | grant => exact exists_mem_grant hx

theorem Turns.request (turns : Turns id q q') (hx : x ∈ q.requests) (own : x.txn = id) :
    ∃ x' ∈ q'.requests, x.GrownTo x' := by
  refine turns.keeps (P := fun q => ∃ x' ∈ q.requests, x.GrownTo x') ?_ ⟨x, hx, .refl x⟩
  rintro q q' ⟨x', hx', grown⟩ turn
  obtain ⟨x'', hx'', grown'⟩ := turn.request hx' (grown.same.1.trans own)
  exact ⟨x'', hx'', grown.trans grown'⟩

/-- The transaction exchanges a lock in mode `old`: its request is the first that waits, or was
when it was granted, and those before it are granted in modes that `old` fits. -/
structure Exchanging (q : Queue) (id : TxnId) (old : Mode) : Prop where
  marked : q.upgrading = some id
  next : ∃ xs x ys, q.requests = xs ++ x :: ys ∧ x.txn = id ∧
    ∀ y ∈ xs, y.granted = true ∧ old.compatible y.mode = true

/-- Nobody gets ahead of an exchange: no other can begin, and those before it were granted. -/
theorem Exchanging.turn (exchanging : q.Exchanging id old) (turn : Turn id q q') :
    q'.Exchanging id old := by
  obtain ⟨marked, xs, x, ys, split, own, ahead⟩ := exchanging
  cases turn with
  | @push r =>
    refine ⟨marked, xs, x, ys ++ [r], ?_, own, ahead⟩
    rw [requests_push, split, List.append_assoc, List.cons_append]
  | insertUpgrade free =>
    rw [free] at marked
    cases marked
  | @remove id' other =>
    refine ⟨marked, ?_⟩
    rw [requests_remove, split, List.eraseP_append,
      List.eraseP_cons_of_neg (by simpa [own] using other.symm)]
    split
    · exact ⟨xs.eraseP _, x, ys, rfl, own, fun y hy => ahead y (List.mem_of_mem_eraseP hy)⟩
    · exact ⟨xs, x, ys.eraseP _, rfl, own, ahead⟩
  | @clearUpgrading id' other =>
    have same : q.clearUpgrading id' = q := by
      rw [clearUpgrading, if_neg]
      rw [marked]
      exact fun eq => other (Option.some.inj eq).symm
    rw [same]
    exact ⟨marked, xs, x, ys, split, own, ahead⟩
  | grant =>
    -- a grant changes no order, so the list splits where it did
    have grown := q.grant_grown
    rw [split] at grown
    obtain ⟨xs', rest, split', front, back⟩ := grown_append grown
    cases back with
    | @cons _ x' _ ys' grownx =>
      refine ⟨marked, xs', x', ys', split', grownx.same.1.trans own, fun y' hy' => ?_⟩
      obtain ⟨y, hy, growny⟩ := exists_of_mem_grown front y' hy'
      rw [growny.same.2.1]
      exact ⟨growny.2 (ahead y hy).1, (ahead y hy).2⟩

/-- An exchange begins with the lock that it gives up. -/
theorem Orderly.exchanging (orderly : q.Orderly) (once : q.Once) {r : Request}
    (hx : x ∈ q.requests) (granted : x.granted = true) :
    ((q.remove x.txn).insertUpgrade r).Exchanging r.txn x.mode where
  marked := rfl
  next := by
    refine ⟨_, r, _, rfl, rfl, fun y hy => ?_⟩
    have granted' : y.granted = true := List.mem_takeWhile_imp hy
    have left := (List.takeWhile_subset _) hy
    have other := once.ne_of_mem_remove left
    have there : y ∈ q.requests := List.mem_of_mem_eraseP left
    refine ⟨granted', orderly.compatible_of_mem hx there ?_ granted granted'⟩
    rintro rfl
    exact other rfl

/-- Whoever is granted beside an exchange, even after it, could be granted beside the lock that
it gave up. -/
theorem Exchanging.compatible (exchanging : q.Exchanging id old) (orderly : q.Orderly)
    (upgrade : ∀ x ∈ q.requests, x.txn = id → old.canUpgradeTo x.mode = true) {y : Request}
    (hy : y ∈ q.requests) (other : y.txn ≠ id) (granted : y.granted = true) :
    old.compatible y.mode = true := by
  obtain ⟨-, xs, x, ys, split, own, ahead⟩ := exchanging
  have hx : x ∈ q.requests := by simp [split]
  have front := orderly.front
  rw [split, List.pairwise_append, List.pairwise_cons] at front
  rw [split, List.mem_append, List.mem_cons] at hy
  rcases hy with hy | rfl | behind
  · exact (ahead y hy).2
  · exact absurd own other
  · have both := orderly.compatible_of_mem hx (b := y) (by simp [split, behind])
      (by rintro rfl; exact other own) (front.2.1.1 y behind granted) granted
    exact Mode.compatible_of_canUpgradeTo (upgrade x hx own) both

end Queue

/-- The call that a move puts to sleep. -/
def Move.sleeper? : Move → Option Sleeper
  | join c => some (c.sleeper none)
  | swap c old => some (c.sleeper (some old))
  | _ => none

theorem LockCall.eq_of_sleeper {c : LockCall} {upgradeOf : Option Mode} {w : Sleeper}
    (new : c.sleeper upgradeOf = w.hushed) : c.number = w.call ∧ c.handle = w.handle ∧
      c.mode = w.mode ∧ c.resource = w.resource ∧ upgradeOf = w.upgradeOf :=
  Sleeper.eq_of_hushed (v := c.sleeper upgradeOf) new

namespace Engine

variable {tableOf : RowId → TableId} {s s' s₁ : Engine} {m : Move} {w w' : Sleeper} {k : QueueKey}
  {h : Handle}

/-- The call `w` of one state sleeps on in the next, as `w'`. -/
structure SleepsOn (s : Engine) (w : Sleeper) (s' : Engine) (w' : Sleeper) : Prop where
  same : w'.hushed = w.hushed
  /-- It has been told if it was before, unless it has looked, and had to wait. -/
  told : w.notified = true → w'.notified = true ∨ s.isReady w = false
  turns : (s.queue w.resource.key).Turns (s.txn w.handle).id (s'.queue w.resource.key)

/-- Nothing has happened to the call. -/
theorem SleepsOn.of_queue (queue : s'.queue w.resource.key = s.queue w.resource.key) :
    s.SleepsOn w s' w :=
  ⟨rfl, .inl, queue ▸ .refl⟩

/-- A grant pass after what others have done tells the calls on the queue. -/
theorem sleepsOn_grantAndNotify (k : QueueKey)
    (turns : (s.queue w.resource.key).Turns (s.txn w.handle).id (s₁.queue w.resource.key)) :
    s.SleepsOn w (s₁.grantAndNotify k)
      (if w.resource.key = k then { w with notified := true } else w) := by
  refine ⟨?_, fun told => .inl ?_, ?_⟩
  · split <;> rfl
  · split
    · rfl
    · exact told
  · rw [queue_grantAndNotify]
    split
    · rename_i same
      rw [same]
      exact turns.tail .grant
    · exact turns

/-- An edit of one queue is a matter of what it does to that queue. -/
theorem turns_of_edit {f : Queue → Queue} {k' : QueueKey} {id : TxnId}
    (edited : s₁.queue k' = if k = k' then f (s.queue k) else s.queue k')
    (turns : k = k' → (s.queue k).Turns id (f (s.queue k))) :
    (s.queue k').Turns id (s₁.queue k') := by
  rw [edited]
  split
  · rename_i same
    exact same ▸ turns same
  · exact .refl

/-- Whoever sleeps after a move slept before, and others have done to his queue what they do, or
the move is his call. -/
theorem Does.sleeper (does : s.Does m s') (books : s.Books tableOf) (fair : s.Fair tableOf m)
    (there : w' ∈ s'.sleepers) :
    (∃ w ∈ s.sleepers, s.SleepsOn w s' w') ∨ m.sleeper? = some w'.hushed := by
  cases does with
  | begin | adopt | mark | unregister | retire => exact .inl ⟨w', there, .of_queue rfl⟩
  | register =>
    rw [sleepers_register] at there
    exact .inl ⟨w', there, .of_queue (queue_register ..)⟩
  | side alike =>
    rw [alike.sleepers] at there
    exact .inl ⟨w', there, .of_queue (alike.queue _)⟩
  | @join c admitted =>
    obtain ⟨v, asleep, rfl⟩ := mem_sleepers_grantAndNotify.1 there
    rcases List.mem_append.1 asleep with asleep | mine
    · refine .inl ⟨v, asleep, sleepsOn_grantAndNotify _
        (turns_of_edit (f := (·.push (c.request (s.txn c.handle).id)))
          (queue_pushRequest s v.resource.key c) fun _ => ?_)⟩
      have other : c.handle ≠ v.handle := fun same => fair.1 ⟨v, asleep, same.symm⟩
      exact .single (.push (books.id_ne (books.known v asleep) admitted.known other))
    · right
      rw [List.mem_singleton.1 mine]
      split <;> rfl
  | @swap c old admitted free =>
    obtain ⟨v, asleep, rfl⟩ := mem_sleepers_grantAndNotify.1 there
    rcases List.mem_append.1 asleep with asleep | mine
    · refine .inl ⟨v, asleep, sleepsOn_grantAndNotify _ (turns_of_edit
        (f := fun q => (q.remove (s.txn c.handle).id).insertUpgrade (c.request (s.txn c.handle).id))
        (queue_swapRequest s v.resource.key c old) fun _ => ?_)⟩
      have other : c.handle ≠ v.handle := fun same => fair.1 ⟨v, asleep, same.symm⟩
      have id := books.id_ne (books.known v asleep) admitted.known other
      exact .tail (.single (.remove id)) (.insertUpgrade free id)
    · right
      rw [List.mem_singleton.1 mine]
      split <;> rfl
  | @give h r m held =>
    obtain ⟨v, asleep, rfl⟩ := mem_sleepers_grantAndNotify.1 there
    refine .inl ⟨v, asleep, sleepsOn_grantAndNotify _ (turns_of_edit (f := (·.remove (s.txn h).id))
      (queue_dropLock ..) fun key => ?_)⟩
    have lock := LockSet.mem_of_mode? held
    refine .single (.remove (books.id_ne (books.known v asleep) (lt_size_of_mem_locks lock) ?_))
    rintro rfl
    exact books.not_mem_of_asleep asleep key lock
  | notify =>
    obtain ⟨v, asleep, rfl⟩ := mem_sleepers_grantAndNotify.1 there
    exact .inl ⟨v, asleep, sleepsOn_grantAndNotify _ .refl⟩
  | @take w xs ys split =>
    have still := (rest_sublist split).subset there
    have id := books.id_ne (books.known w' still) (books.known w (mem_split split))
      (books.others split w' there).symm
    refine .inl ⟨w', still, rfl, .inl, turns_of_edit (f := (·.clearUpgrading (s.txn w.handle).id))
      (queue_updateQueue ..) fun _ => .single (.clearUpgrading id)⟩
  | @quit w xs ys split =>
    obtain ⟨v, awake, rfl⟩ := mem_sleepers_grantAndNotify.1 there
    have still := (rest_sublist split).subset awake
    have id := books.id_ne (books.known v still) (books.known w (mem_split split))
      (books.others split v awake).symm
    refine .inl ⟨v, still, sleepsOn_grantAndNotify _ (Relation.ReflTransGen.trans
      (turns_of_edit (f := (·.clearUpgrading (s.txn w.handle).id)) (queue_updateQueue ..)
        fun _ => .single (.clearUpgrading id))
      (turns_of_edit (f := (·.remove (s.txn w.handle).id)) (queue_updateQueue ..)
        fun _ => .single (.remove id)))⟩
  | @doze w xs ys split waits =>
    left
    have asleep' : w' = { w with notified := false } ∨ w' ∈ xs ++ ys :=
      List.mem_cons.1 (List.perm_middle.mem_iff.1 there)
    rcases asleep' with rfl | still
    · exact ⟨w, mem_split split, rfl, fun _ => .inr waits, .refl⟩
    · exact ⟨w', (rest_sublist split).subset still, .of_queue rfl⟩

/-- A call that has just fallen asleep was admitted. -/
theorem Does.admits_of_sleeper (does : s.Does m s') (call : m.sleeper? = some w.hushed) :
    ∃ c held, s.Admits c held ∧ c.handle = w.handle := by
  cases does with
  | join admitted | swap admitted =>
    exact ⟨_, _, admitted, (LockCall.eq_of_sleeper (Option.some.inj call)).2.1⟩
  | _ => cases call

theorem untold_of_isQuiet (quiet : s.isQuiet = true) (asleep : w ∈ s.sleepers) :
    w.notified = false := by
  simpa using List.all_eq_true.1 quiet w asleep

/-- The request of a call that has not been told anything waits. -/
theorem Books.waits (books : s.Books tableOf) (asleep : w ∈ s.sleepers)
    (untold : w.notified = false) : ∃ x ∈ (s.queue w.resource.key).requests,
      x.IsFor (s.txn w.handle).id w.resource w.mode ∧ x.granted = false := by
  obtain ⟨x, hx, isFor, told⟩ := (books.awaits w asleep).asked
  refine ⟨x, hx, isFor, ?_⟩
  by_contra granted
  rw [told (by simpa using granted)] at untold
  cases untold

/-- A call sleeps on until it returns. -/
theorem Does.asleep {v : Sleeper} (does : s.Does m s') (asleep : v ∈ s.sleepers) :
    (∃ v' ∈ s'.sleepers, v'.hushed = v.hushed) ∨ m = .take v ∨ m = .quit v := by
  have told {s₁ : Engine} {k : QueueKey} (there : v ∈ s₁.sleepers) :
      ∃ v' ∈ (s₁.grantAndNotify k).sleepers, v'.hushed = v.hushed := by
    refine ⟨_, mem_sleepers_grantAndNotify.2 ⟨v, there, rfl⟩, ?_⟩
    split <;> rfl
  cases does with
  | begin | adopt | mark | unregister | retire => exact .inl ⟨v, asleep, rfl⟩
  | register => exact .inl ⟨v, by rwa [sleepers_register], rfl⟩
  | side alike => exact .inl ⟨v, by rwa [alike.sleepers], rfl⟩
  | join | swap => exact .inl (told (List.mem_append_left _ asleep))
  | give | notify => exact .inl (told asleep)
  | @take w xs ys split =>
    by_cases mine : v = w
    · exact .inr (.inl (by rw [mine]))
    · exact .inl ⟨v, mem_rest_of_ne split asleep mine, rfl⟩
  | @quit w xs ys split =>
    by_cases mine : v = w
    · exact .inr (.inr (by rw [mine]))
    · exact .inl (told (mem_rest_of_ne split asleep mine))
  | @doze w xs ys split =>
    left
    by_cases mine : v = w
    · exact ⟨{ w with notified := false }, by simp, by rw [mine]; rfl⟩
    · refine ⟨v, ?_, rfl⟩
      exact List.perm_middle.mem_iff.2 (List.mem_cons_of_mem _ (mem_rest_of_ne split asleep mine))

/-- A call sleeps on until it has been told something and looks at its queue. -/
theorem asleep_after {e : Event} {v : Sleeper} (walk : Walk) (books : s.Books tableOf)
    (fair : e.Fair tableOf s) (asleep : v ∈ s.sleepers) :
    (∃ v' ∈ (s.after walk e).sleepers, v'.hushed = v.hushed) ∨
      e = .wake v.call ∧ v.notified = true := by
  refine (after_path walk e).keeps (P := fun s' => (∃ v' ∈ s'.sleepers, v'.hushed = v.hushed) ∨
    e = .wake v.call ∧ v.notified = true) ?_ (.inl ⟨v, asleep, rfl⟩)
  rintro s₁ m s₂ (⟨v', there, same⟩ | ended) does causes
  · have handle : v'.handle = v.handle := (Sleeper.eq_of_hushed same).2.1
    have looked {n : Nat} (still : v' ∈ s.sleepers) (wake : e = .wake n)
        (found : s.sleepers.find? (fun w => w.call == n && w.notified) = some v') :
        e = .wake v.call ∧ v.notified = true := by
      obtain rfl : v' = v := List.inj_on_of_nodup_map books.calls still asleep handle
      have told := List.find?_some found
      rw [Bool.and_eq_true, beq_iff_eq] at told
      exact ⟨by rw [told.1, wake], told.2⟩
    rcases does.asleep there with ⟨v'', there', same'⟩ | rfl | rfl
    · exact .inl ⟨v'', there', same'.trans same⟩
    · rcases causes with ⟨rfl, n, wake, found⟩ | ⟨c, rfl, mine⟩
      · exact .inr (looked there wake found)
      · exact absurd ⟨v, asleep, handle.symm.trans mine⟩ fair.oneCall
    · obtain ⟨rfl, n, wake, found⟩ := causes
      exact .inr (looked there wake found)
  · exact .inr ended

theorem lt_size_of_isAborted (aborted : (s.txn h).isAborted = true) : h < s.txns.size :=
  lt_size_of_txn (p := fun t => t.isAborted = true) aborted (by decide)

theorem Does.isAborted (does : s.Does m s') (aborted : (s.txn h).isAborted = true) :
    (s'.txn h).isAborted = true ∨ ∃ state, m = .mark h (.setState state) ∧ state ≠ .aborted := by
  rcases does.txn_eq (lt_size_of_isAborted aborted) with eq | ⟨k, rfl, eq⟩
  · rw [eq]
    exact .inl aborted
  · rw [eq]
    exact (Mark.revives_or k aborted).imp_right fun ⟨state, set, revived⟩ =>
      ⟨state, by rw [set], revived⟩

/-- Only a mark aborts. -/
theorem Does.mark_of_aborted (does : s.Does m s') (known : h < s.txns.size)
    (aborted : (s'.txn h).isAborted = true) : (s.txn h).isAborted = true ∨
      (∃ reason, m = .mark h (.abort reason)) ∨ m = .mark h (.setState .aborted) := by
  rcases does.txn_eq known with eq | ⟨k, rfl, eq⟩
  · rw [eq] at aborted
    exact .inl aborted
  · rw [eq, Transaction.isAborted_iff] at aborted
    rw [Transaction.isAborted_iff]
    rcases k.state_apply (s.txn h) with same | leads
    · exact .inl (same.symm.trans aborted)
    · rw [aborted] at leads
      cases k <;> simp_all [Mark.state?]

/-- An abort is for good, unless a state is set by hand. -/
theorem isAborted_after (w : Walk) {e : Event} (sets : e.SetsAborted s)
    (aborted : (s.txn h).isAborted = true) : ((s.after w e).txn h).isAborted = true := by
  refine (after_path w e).keeps (P := fun s => (s.txn h).isAborted = true) ?_ aborted
  intro s₁ m s₂ aborted does causes
  refine (does.isAborted aborted).resolve_right ?_
  rintro ⟨state, rfl, revived⟩
  obtain ⟨-, rfl⟩ := causes
  exact revived sets.1

/-- Each call asleep finds the request in its queue that it has placed there. -/
def Numbered (s : Engine) : Prop := ∀ w ∈ s.sleepers,
  ∃ x ∈ (s.queue w.resource.key).requests, x.txn = (s.txn w.handle).id ∧ x.call = w.call

theorem numbered_fresh (config : Config) : (fresh config).Numbered := by
  simp [Numbered, fresh]

theorem Numbered.move (numbered : s.Numbered) (books : s.Books tableOf) (does : s.Does m s')
    (fair : s.Fair tableOf m) : s'.Numbered := by
  intro w' there
  rcases does.sleeper books fair there with ⟨w, asleep, same, -, turns⟩ | call
  · obtain ⟨call, handle, -, resource, -⟩ := Sleeper.eq_of_hushed same
    rw [call, handle, resource, does.id_eq (books.known w asleep)]
    obtain ⟨x, hx, own, number⟩ := numbered w asleep
    obtain ⟨x', hx', grown⟩ := turns.request hx own
    exact ⟨x', hx', grown.same.1.trans own, grown.same.2.2.2.trans number⟩
  · have placed (c : LockCall) (upgradeOf : Option Mode) (new : c.sleeper upgradeOf = w'.hushed)
        (admitted : c.handle < s.txns.size) {s₁ : Engine}
        (hx : c.request (s.txn c.handle).id ∈ (s₁.queue c.resource.key).requests)
        (eq : s' = s₁.grantAndNotify c.resource.key) : ∃ x ∈ (s'.queue w'.resource.key).requests,
          x.txn = (s'.txn w'.handle).id ∧ x.call = w'.call := by
      obtain ⟨call, handle, -, resource, -⟩ := LockCall.eq_of_sleeper new
      obtain ⟨x, hx, grown, -⟩ := exists_mem_grantAndNotify (k := c.resource.key) hx
      rw [← call, ← handle, ← resource, does.id_eq admitted, eq]
      exact ⟨x, hx, grown.same.1, grown.same.2.2.2⟩
    cases does with
    | @join c admitted =>
      refine placed c none (Option.some.inj call) admitted.known ?_ rfl
      rw [queue_addSleeper, queue_pushRequest, if_pos rfl]
      simp
    | @swap c old admitted =>
      refine placed c (some old) (Option.some.inj call) admitted.known ?_ rfl
      rw [queue_addSleeper, queue_swapRequest, if_pos rfl]
      exact Queue.mem_insertUpgrade.2 (.inl rfl)
    | _ => cases call

end Engine

end TwoPhaseLocking
