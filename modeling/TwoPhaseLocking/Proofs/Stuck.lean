import Mathlib.Data.Fintype.Card
import Mathlib.Data.Set.Finite.Basic
import Mathlib.Order.WellFounded
import TwoPhaseLocking.Proofs.Wakeup

/-! # Stuck transactions

Transactions are stuck when each of them waits in a queue behind another of them. The graph of
a detection pass shows only who waits for a lock that is granted, not who waits for his turn. No
deadlock escapes it for that: the first of the stuck ones in a queue waits for a lock of one of
them, and whoever waits behind him is drawn as waiting for the same lock. For the same reason it
shows deadlocks that are none: a lock counts as waited for whether or not its mode is in the way.
-/

namespace TwoPhaseLocking

/-- The request, ahead of `x` in its queue, keeps `x` waiting: it waits itself, or is granted in a
mode that `x` may not be held beside. -/
def Request.HoldsUp (x y : Request) : Prop :=
  y.granted = false ∨ x.mode.compatible y.mode = false

instance (x y : Request) : Decidable (x.HoldsUp y) :=
  inferInstanceAs (Decidable (y.granted = false ∨ x.mode.compatible y.mode = false))

namespace Queue

variable {q : Queue} {x y : Request} {id : TxnId}

/-- Those who stand before the transaction. -/
def ahead (q : Queue) (id : TxnId) : List Request := q.requests.takeWhile (·.txn != id)

theorem mem_of_mem_ahead (hy : y ∈ q.ahead id) : y ∈ q.requests :=
  List.takeWhile_subset _ hy

theorem Once.split_ahead (once : q.Once) (hx : x ∈ q.requests) :
    ∃ ys, q.requests = q.ahead x.txn ++ x :: ys := by
  obtain ⟨xs, ys, split, first⟩ := List.eq_append_cons_of_mem hx
  refine ⟨ys, ?_⟩
  rw [ahead, split, List.takeWhile_append_of_pos, List.takeWhile_cons_of_neg (by simp),
    List.append_nil]
  intro y hy
  rw [bne_iff_ne]
  intro same
  have there : y ∈ q.requests := by simp [split, hy]
  exact first (once.eq there hx same ▸ hy)

/-- Whoever has a lock stands before whoever waits. -/
theorem Orderly.mem_ahead (orderly : q.Orderly) (once : q.Once) (hx : x ∈ q.requests)
    (waits : x.granted = false) (hy : y ∈ q.requests) (granted : y.granted = true) :
    y ∈ q.ahead x.txn := by
  obtain ⟨ys, split⟩ := once.split_ahead hx
  have front := orderly.front
  rw [split, List.pairwise_append, List.pairwise_cons] at front
  rw [split, List.mem_append, List.mem_cons] at hy
  rcases hy with before | rfl | behind
  · exact before
  · rw [granted] at waits
    cases waits
  · rw [front.2.1.1 y behind granted] at waits
    cases waits

/-- Fewer stand before those who stand before somebody. -/
theorem length_ahead_lt (hy : y ∈ q.ahead id) : (q.ahead y.txn).length < (q.ahead id).length := by
  have split := List.takeWhile_append_dropWhile (p := (·.txn != id)) (l := q.requests)
  have short : ((q.ahead id).takeWhile (·.txn != y.txn)).length < (q.ahead id).length := by
    refine Nat.lt_of_le_of_ne (List.takeWhile_prefix _).length_le fun same => ?_
    have whole : (q.ahead id).takeWhile (·.txn != y.txn) = q.ahead id :=
      (List.takeWhile_prefix _).eq_of_length same
    have other := List.takeWhile_eq_self_iff.1 whole y hy
    simp at other
  have cut : q.ahead y.txn = (q.ahead id).takeWhile (·.txn != y.txn) := by
    conv_lhs => rw [ahead, ← split]
    rw [List.takeWhile_append]
    exact if_neg (Nat.ne_of_lt short)
  rw [cut]
  exact short

end Queue

namespace Engine

variable {tableOf : RowId → TableId} {config : Config} {s : Engine} {h : Handle} {k : QueueKey}
  {w : Walk} {keeps : Request → Request → Prop} {D : Set Handle} {past : List (Engine × Event)}

/-- The first transaction has a call asleep whose request waits, and ahead of that in its queue
stands a request of the second that `keeps` it waiting. -/
def WaitsBehind (s : Engine) (keeps : Request → Request → Prop) (h h' : Handle) : Prop :=
  ∃ v ∈ s.sleepers, v.handle = h ∧ ∃ x ∈ (s.queue v.resource.key).requests,
    x.txn = (s.txn h).id ∧ x.granted = false ∧
      ∃ y ∈ (s.queue v.resource.key).ahead (s.txn h).id, y.txn = (s.txn h').id ∧ keeps x y

instance [∀ x y, Decidable (keeps x y)] (h h' : Handle) : Decidable (s.WaitsBehind keeps h h') :=
  inferInstanceAs (Decidable (∃ v ∈ s.sleepers, v.handle = h ∧
    ∃ x ∈ (s.queue v.resource.key).requests, x.txn = (s.txn h).id ∧ x.granted = false ∧
      ∃ y ∈ (s.queue v.resource.key).ahead (s.txn h).id, y.txn = (s.txn h').id ∧ keeps x y))

/-- Each of the transactions waits behind another of them. -/
structure Stuck (s : Engine) (keeps : Request → Request → Prop) (D : Set Handle) : Prop where
  nonempty : D.Nonempty
  waits : ∀ h ∈ D, ∃ h' ∈ D, s.WaitsBehind keeps h h'

/-- Where a number falls along all waiting there is nobody stuck. -/
theorem not_stuck_of_rank (rank : Handle → Nat) (falls : ∀ h ∈ s.callers, ∀ h' ∈ s.callers,
    s.WaitsBehind keeps h h' → rank h' < rank h) : ¬ ∃ D, s.Stuck keeps D := by
  rintro ⟨D, stuck⟩
  have calls (h : Handle) (member : h ∈ D) : h ∈ s.callers := by
    obtain ⟨h', -, v, asleep, mine, -⟩ := stuck.waits h member
    exact hasCall_iff.1 ⟨v, asleep, mine⟩
  have nobody : ∀ n h, rank h = n → h ∉ D := by
    intro n
    induction n using Nat.strong_induction_on with
    | _ n ih =>
      rintro h rfl member
      obtain ⟨h', member', waits⟩ := stuck.waits h member
      exact ih _ (falls h (calls h member) h' (calls h' member') waits) h' rfl member'
  obtain ⟨h, member⟩ := stuck.nonempty
  exact nobody _ h rfl member

/-- Whoever never comes to an end in a finite set comes back to where he was. -/
theorem exists_cycle {α : Type} {r : α → α → Prop} {V : Set α} (finite : V.Finite)
    (nonempty : V.Nonempty) (onward : ∀ a ∈ V, ∃ b ∈ V, r a b) : ∃ a, Relation.TransGen r a a := by
  by_contra none
  push Not at none
  have := finite.to_subtype
  let leads (a b : V) : Prop := Relation.TransGen r b a
  have : IsTrans V leads := ⟨fun _ _ _ ab bc => bc.trans ab⟩
  have : Std.Irrefl leads := ⟨fun a => none a⟩
  have wf : WellFounded leads := Finite.wellFounded_of_trans_of_irrefl leads
  obtain ⟨a, ha⟩ := nonempty
  obtain ⟨⟨b, hb⟩, -, last⟩ := wf.has_min Set.univ ⟨⟨a, ha⟩, trivial⟩
  obtain ⟨c, hc, edge⟩ := onward b hb
  exact last ⟨c, hc⟩ trivial (.single edge)

/-- In a queue in which one of the stuck waits one of them has a lock. The induction is on how many
stand before the one who waits. -/
theorem Stuck.exists_holder (stuck : s.Stuck keeps D) (books : s.Books tableOf) {x : Request}
    (member : h ∈ D) (hx : x ∈ (s.queue k).requests) (own : x.txn = (s.txn h).id)
    (waits : x.granted = false) :
    ∃ h' ∈ D, ∃ y ∈ (s.queue k).requests, y.txn = (s.txn h').id ∧ y.granted = true := by
  induction size : ((s.queue k).ahead x.txn).length using Nat.strong_induction_on
    generalizing h x with
  | _ n ih =>
    obtain ⟨h', member', v, -, -, x', hx', own', waits', y, hy, owny, -⟩ := stuck.waits h member
    obtain rfl := books.waiting_unique hx hx' (own.trans own'.symm) waits waits'
    have hy' := Queue.mem_of_mem_ahead hy
    cases granted : y.granted with
    | true => exact ⟨h', member', y, hy', owny, granted⟩
    | false =>
      rw [← own] at hy
      exact ih _ (size ▸ Queue.length_ahead_lt hy) member' hy' owny granted rfl

/-- Each of the stuck waits for a lock of one of them. -/
theorem Stuck.onward (stuck : s.Stuck keeps D) (books : s.Books tableOf)
    (blockable : ∀ v ∈ s.sleepers, s.isBlockable (s.txn v.handle).id = true) (member : h ∈ D) :
    ∃ h' ∈ D, s.Waits (s.txn h).id (s.txn h').id := by
  obtain ⟨-, -, v, asleep, rfl, x, hx, own, waits, -⟩ := stuck.waits h member
  obtain ⟨h', member', y, hy, owny, granted⟩ := stuck.exists_holder books member hx own waits
  refine ⟨h', member', blockable v asleep, _, Queue.mem_waitEdges.2
    ⟨⟨x, hx, own, waits⟩, ⟨y, hy, owny, granted⟩, fun same => ?_⟩⟩
  obtain rfl := books.unique hx hy (own.trans (same.symm.trans owny.symm))
  rw [granted] at waits
  cases waits

theorem Stuck.not_deadlockFree (stuck : s.Stuck keeps D) (books : s.Books tableOf)
    (blockable : ∀ v ∈ s.sleepers, s.isBlockable (s.txn v.handle).id = true) :
    ¬ s.DeadlockFree := by
  intro free
  have calls : D ⊆ {h | h ∈ s.callers} := by
    intro h member
    obtain ⟨h', -, v, asleep, mine, -⟩ := stuck.waits h member
    exact hasCall_iff.1 ⟨v, asleep, mine⟩
  have finite : ((fun h => (s.txn h).id) '' D).Finite :=
    ((List.finite_toSet _).subset calls).image _
  obtain ⟨a, cycle⟩ := exists_cycle (r := s.Waits) finite (stuck.nonempty.image _) (by
    rintro _ ⟨h, member, rfl⟩
    obtain ⟨h', member', waits⟩ := stuck.onward books blockable member
    exact ⟨_, ⟨h', member', rfl⟩, waits⟩)
  exact free a cycle

/-- Those who are on a cycle stand each behind another of them. -/
theorem stuck_of_not_deadlockFree (books : s.Books tableOf) (enrolled : s.Enrolled) (tidy : s.Tidy)
    (deadlock : ¬ s.DeadlockFree) : ∃ D, s.Stuck (fun _ _ => True) D := by
  simp only [DeadlockFree, not_forall, not_not] at deadlock
  obtain ⟨a, cycle⟩ := deadlock
  -- whoever a cycle goes through has a call asleep
  have caller {a : TxnId} (cycle : Relation.TransGen s.Waits a a) :
      ∃ h ∈ s.callers, (s.txn h).id = a := by
    obtain ⟨b, edge, -⟩ := Relation.TransGen.head'_iff.1 cycle
    obtain ⟨h, asleep, found, -⟩ := edge.caller books enrolled
    exact ⟨h, asleep, (enrolled.registry a h (Option.filter_eq_some_iff.1 found).1).2⟩
  refine ⟨{h | h ∈ s.callers ∧ Relation.TransGen s.Waits (s.txn h).id (s.txn h).id}, ?_, ?_⟩
  · obtain ⟨h, asleep, rfl⟩ := caller cycle
    exact ⟨h, asleep, cycle⟩
  · rintro h ⟨asleep, cycle⟩
    obtain ⟨b, edge, back⟩ := Relation.TransGen.head'_iff.1 cycle
    obtain ⟨h', asleep', rfl⟩ := caller (.tail' back edge)
    refine ⟨h', ⟨asleep', .tail' back edge⟩, ?_⟩
    obtain ⟨-, k, edge⟩ := edge
    obtain ⟨⟨x, hx, own, waits⟩, ⟨y, hy, owny, granted⟩, -⟩ := Queue.mem_waitEdges.1 edge
    obtain ⟨v, awake, own', rfl⟩ := books.asleep_of_waits hx waits
    obtain ⟨v', awake', rfl⟩ := hasCall_iff.2 asleep
    have mine : v.handle = v'.handle := books.ids _ _ (books.known v awake) (books.known v' awake')
      (own'.symm.trans own)
    refine ⟨v, awake, mine, x, hx, own, waits, y, ?_, owny, trivial⟩
    rw [← own]
    exact (tidy _).toOrderly.mem_ahead (books.once _) hx waits hy granted

theorem sacrifice_ne_nil {all : Bool} {v : TxnId} {vs : List TxnId} (found : s.lookup v = some h)
    (uncommitted : (s.txn h).state ≠ .committed) : (s.sacrifice all (v :: vs)).2 ≠ [] := by
  rw [sacrifice, abortVictim_eq found uncommitted]
  cases all <;> simp

/-- A pass has a victim exactly if there is a deadlock in its graph. -/
theorem detect_eq_nil_iff (books : s.Books tableOf) (enrolled : s.Enrolled)
    (complete : w.Complete) : (s.detect w).2 = [] ↔ s.DeadlockFree := by
  have victims : (s.detect w).2 = ((s.tally Stats.detectionPass).sacrifice s.config.resolveAll
      ((s.tally Stats.detectionPass).waitGraph w).breakCycles.1).2 := rfl
  have free := acyclic_waitGraph_iff (s := s.tally Stats.detectionPass) complete
  have books' := books_of_path books counted_path
  have enrolled' := enrolled_of_path books enrolled counted_path
  rw [victims]
  refine Iff.trans ?_ (WaitGraph.breakCycles_eq_nil_iff.trans free)
  cases chosen : ((s.tally Stats.detectionPass).waitGraph w).breakCycles.1 with
  | nil => simp [sacrifice]
  | cons v vs =>
    have victim : v ∈ ((s.tally Stats.detectionPass).waitGraph w).breakCycles.1 := by
      simp [chosen]
    obtain ⟨h, -, found, -, -, uncommitted⟩ :=
      caller_of_mem_breakCycles books' enrolled' complete victim
    exact iff_of_false (sacrifice_ne_nil found uncommitted) (List.cons_ne_nil v vs)

/-- A pass over a graph without cycles leaves the transactions as they are. -/
theorem txns_detect (free : s.DeadlockFree) (complete : w.Complete) :
    (s.detect w).1.txns = s.txns := by
  have none : ((s.tally Stats.detectionPass).waitGraph w).breakCycles.1 = [] :=
    WaitGraph.breakCycles_eq_nil_iff.2 ((acyclic_waitGraph_iff complete).2 free)
  refine (txns_wakeEach _).trans ?_
  change ((s.tally Stats.detectionPass).sacrifice s.config.resolveAll
    ((s.tally Stats.detectionPass).waitGraph w).breakCycles.1).1.txns = s.txns
  rw [none]
  rfl

/-- Nobody is set to be aborted while a call of his sleeps. -/
theorem Run.not_stranded (run : Run config (fun s e => e.Undisturbed s) past s) :
    ¬ Stranded h past := by
  induction run with
  | fresh => exact id
  | next _ _ undisturbed ih =>
    rintro ⟨asleep, ⟨-, rfl⟩ | before⟩
    · exact undisturbed h rfl asleep
    · exact ih before

/-- Whoever is aborted in such a run is told. -/
theorem Reachable.watchful (reach : Reachable config
    (fun s e => e.Fair tableOf s ∧ e.Undisturbed s ∧ e.KeepsRegister) s) :
    s.Watchful tableOf fun _ => False := by
  obtain ⟨past, run⟩ := reach.exists_run
  have undisturbed : Run config (fun s e => e.Undisturbed s) past s :=
    run.mono fun _ _ allowed => allowed.2.1
  have watchful := (run.mono fun _ _ allowed =>
    ⟨allowed.1, allowed.2.1.onlyAborted, allowed.2.2⟩).watchful
  exact watchful.mono fun _ _ => undisturbed.not_stranded

/-- Whoever sleeps is known to be waiting. -/
theorem Watchful.blockable (watchful : s.Watchful tableOf fun _ => False)
    (quiet : s.isQuiet = true) {v : Sleeper} (asleep : v ∈ s.sleepers) :
    s.isBlockable (s.txn v.handle).id = true := by
  have untold := untold_of_isQuiet quiet asleep
  simp [isBlockable, watchful.lookup asleep untold, watchful.awake quiet v asleep]

/-- In every state that clients can lead to who do nothing but abort or let go of a transaction
while a call of it sleeps, and who strike nobody off, once all calls have looked that have been
told something: if some transactions are stuck, each behind another of them that waits too or has
a lock in a mode that excludes its own, then the graph has a cycle, and a pass has a victim. -/
theorem deadlock_detected
    (reach : Reachable config
      (fun s e => e.Fair tableOf s ∧ e.Undisturbed s ∧ e.KeepsRegister) s)
    (quiet : s.isQuiet = true) (stuck : s.Stuck Request.HoldsUp D) (complete : w.Complete) :
    (s.waitGraph w).victim?.isSome = true ∧ (s.detect w).2 ≠ [] := by
  have watchful := reach.watchful
  have deadlock := stuck.not_deadlockFree watchful.books fun v => watchful.blockable quiet
  constructor
  · rw [Option.isSome_iff_ne_none]
    intro none
    exact deadlock ((acyclic_waitGraph_iff complete).1 (WaitGraph.acyclic_of_victim? none))
  · rwa [Ne, detect_eq_nil_iff watchful.books watchful.enrolled complete]

/-- For instance when one of three waits for his turn only: the first holds a lock for reading, the
second waits for him with one for writing, and the third waits behind the second to read, while
the first waits for the third elsewhere. -/
theorem deadlock_detected_behind_writer :
    let s := (fresh {}).afterAll .ascending
      [.op (.begin .repeatableRead), .op (.begin .repeatableRead), .op (.begin .repeatableRead),
        .op (.lock ⟨3, 0, .shared, .table 1⟩), .op (.lock ⟨4, 2, .exclusive, .table 2⟩),
        .op (.lock ⟨5, 1, .exclusive, .table 1⟩), .op (.lock ⟨6, 2, .shared, .table 1⟩), .wake 5,
        .op (.lock ⟨7, 0, .exclusive, .table 2⟩)]
    s.isQuiet = true ∧ s.Stuck Request.HoldsUp {h | h ∈ [0, 1, 2]} ∧
      (s.waitGraph .ascending).victim?.isSome = true ∧ (s.detect .ascending).2 ≠ [] := by
  intro s
  have reach : Reachable {}
      (fun s e => e.Fair (fun _ => 0) s ∧ e.Undisturbed s ∧ e.KeepsRegister) s :=
    Reachable.afterAll Walk.complete_ascending .fresh (by decide +kernel)
  have quiet : s.isQuiet = true := by decide +kernel
  have behind : ∀ h ∈ [0, 1, 2], ∃ h' ∈ [0, 1, 2], s.WaitsBehind Request.HoldsUp h h' := by
    decide +kernel
  have stuck : s.Stuck Request.HoldsUp {h | h ∈ [0, 1, 2]} := ⟨⟨0, by simp⟩, behind⟩
  exact ⟨quiet, stuck, deadlock_detected reach quiet stuck Walk.complete_ascending⟩

/-- In every state that clients can lead to who do nothing but abort or let go of a transaction
while a call of it sleeps: if there are no transactions of which each waits behind another, whatever
the mode of what stands there, then a pass has no victim and leaves all transactions as they are. -/
theorem nobody_sacrificed
    (reach : Reachable config (fun s e => e.Fair tableOf s ∧ e.Undisturbed s) s)
    (free : ¬ ∃ D, s.Stuck (fun _ _ => True) D) (complete : w.Complete) :
    (s.detect w).2 = [] ∧ (s.detect w).1.txns = s.txns := by
  have tidy := reach.tidy
  obtain ⟨books, enrolled⟩ := (reach.mono fun _ _ allowed =>
    ⟨allowed.1, allowed.2.onlyAborted⟩).enrolled
  have deadlockFree : s.DeadlockFree :=
    not_not.1 fun deadlock => free (stuck_of_not_deadlockFree books enrolled tidy deadlock)
  exact ⟨(detect_eq_nil_iff books enrolled complete).2 deadlockFree,
    txns_detect deadlockFree complete⟩

/-- For instance while readers wait behind a writer. -/
theorem nobody_sacrificed_behind_writer :
    let s := (fresh {}).afterAll .ascending
      [.op (.begin .repeatableRead), .op (.begin .repeatableRead), .op (.begin .repeatableRead),
        .op (.lock ⟨3, 0, .exclusive, .table 1⟩), .op (.lock ⟨4, 1, .shared, .table 1⟩),
        .op (.lock ⟨5, 2, .shared, .table 1⟩), .wake 4]
    s.isQuiet = true ∧ s.callers = [1, 2] ∧ (¬ ∃ D, s.Stuck (fun _ _ => True) D) ∧
      (s.detect .ascending).2 = [] ∧ (s.detect .ascending).1.txns = s.txns := by
  intro s
  have reach : Reachable {} (fun s e => e.Fair (fun _ => 0) s ∧ e.Undisturbed s) s :=
    Reachable.afterAll Walk.complete_ascending .fresh (by decide +kernel)
  have free : ¬ ∃ D, s.Stuck (fun _ _ => True) D := not_stuck_of_rank id (by decide +kernel)
  exact ⟨by decide +kernel, by decide +kernel, free,
    nobody_sacrificed reach free Walk.complete_ascending⟩

/-- A lock that is not in the way can make a victim all the same. The third waits to write rows of
the first table, and is kept from it by the second, who reads it all. He is drawn as waiting also
for the first, who only reads rows of it and waits for him on the second table. -/
theorem sacrificed_without_deadlock :
    let s := (fresh {}).afterAll .ascending
      [.op (.begin .repeatableRead), .op (.begin .repeatableRead), .op (.begin .repeatableRead),
        .op (.lock ⟨3, 0, .intentionShared, .table 1⟩), .op (.lock ⟨4, 1, .shared, .table 1⟩),
        .op (.lock ⟨5, 2, .exclusive, .table 2⟩), .op (.lock ⟨6, 2, .intentionExclusive, .table 1⟩),
        .op (.lock ⟨7, 0, .exclusive, .table 2⟩)]
    Reachable {} (fun s e => e.Fair (fun _ => 0) s ∧ e.Undisturbed s ∧ e.SetsNoState) s ∧
      s.isQuiet = true ∧ (¬ ∃ D, s.Stuck Request.HoldsUp D) ∧ (s.detect .ascending).2 = [2] ∧
      (s.txn 2).isAborted = false ∧ ((s.detect .ascending).1.txn 2).isAborted = true := by
  intro s
  have reach : Reachable {}
      (fun s e => e.Fair (fun _ => 0) s ∧ e.Undisturbed s ∧ e.SetsNoState) s :=
    Reachable.afterAll Walk.complete_ascending .fresh (by decide +kernel)
  exact ⟨reach, by decide +kernel, not_stuck_of_rank (2 - ·) (by decide +kernel), by decide +kernel,
    by decide +kernel, by decide +kernel⟩

end Engine

end TwoPhaseLocking
