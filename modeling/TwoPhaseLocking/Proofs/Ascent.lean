import Mathlib.Order.Defs.Unbundled
import TwoPhaseLocking.Proofs.Asleep
import TwoPhaseLocking.Proofs.Bookkeeping
import TwoPhaseLocking.Proofs.Victims

/-! # Locking in order

When everybody asks only for resources above those he holds, whoever waits for somebody who waits
himself waits below him, for the other has what the one waits for. So nobody waits, in the end, for
himself. Edges that are drawn to holders who do no harm lead upwards as well, and so nobody is ever
sacrificed.
-/

namespace TwoPhaseLocking

/-- A lock call that reaches a queue asks for a resource above all those its transaction holds. -/
def Event.Ascends (lt : Resource → Resource → Prop) (s : Engine) : Event → Prop
  | op (.lock c) => s.Reaches c → ∀ l ∈ (s.txn c.handle).locks, lt l.resource c.resource
  | _ => True

instance (s : Engine) (c : LockCall) : Decidable (s.Reaches c) :=
  decidable_of_iff (s.isUsable c.handle = true ∧ (s.txn c.handle).state.isTerminal = false ∧
    (s.txn c.handle).locks.mode? c.resource ≠ some c.mode ∧
    Policy.request (s.txn c.handle).isolation (s.txn c.handle).state c.mode c.resource
      ((s.txn c.handle).locks.mode? c.resource)
      ((s.txn c.handle).locks.mode? (.table c.resource.tableId)) = none)
    ⟨fun h => ⟨h.1, h.2.1, h.2.2.1, h.2.2.2⟩, fun h => ⟨h.1, h.2, h.3, h.4⟩⟩

instance (lt : Resource → Resource → Prop) [DecidableRel lt] (s : Engine) (e : Event) :
    Decidable (e.Ascends lt s) :=
  match e with
  | .op (.lock c) =>
    decidable_of_iff (s.Reaches c → ∀ l ∈ (s.txn c.handle).locks.toList, lt l.resource c.resource) <|
      imp_congr_right fun _ => forall_congr' fun _ => imp_congr_left LockSet.mem_toList
  | .op (.begin _) | .op (.adopt ..) | .op (.letGo _) | .op (.unlock ..) | .op (.releaseAll _)
  | .op (.commit _) | .op (.abort _) | .op (.abortAndWake _) | .op (.unregister _)
  | .op (.setState ..) | .op .detect | .op (.addEdge _) | .op (.removeEdge _)
  | .op .startDetector | .op .stopDetector | .wake _ => .isTrue trivial

namespace Engine

variable {tableOf : RowId → TableId} {config : Config} {lt : Resource → Resource → Prop}
  {s s' : Engine} {m : Move} {w : Walk} {a b c : TxnId} {e : Event}

/-- Whoever has a call asleep waits for a resource above all those he holds. -/
def Ascending (lt : Resource → Resource → Prop) (s : Engine) : Prop :=
  ∀ v ∈ s.sleepers, ∀ l ∈ (s.txn v.handle).locks, lt l.resource v.resource

/-- What that relies on: calls fall asleep on resources above those their transactions hold. -/
def Climbs (lt : Resource → Resource → Prop) (s : Engine) : Move → Prop
  | .join c | .swap c _ => ∀ l ∈ (s.txn c.handle).locks, lt l.resource c.resource
  | _ => True

theorem ascending_fresh (config : Config) : (fresh config).Ascending lt := by
  simp [Ascending, fresh]

theorem Ascending.move (ascending : s.Ascending lt) (books : s.Books tableOf) (does : s.Does m s')
    (fair : s.Fair tableOf m) (climbs : s.Climbs lt m) : s'.Ascending lt := by
  intro v asleep l there
  have before : l ∈ (s.txn v.handle).locks := by
    rcases does.locks_sub there with before | ⟨u, asleep', rfl, mine, -⟩
    · exact before
    · cases does with
      | take split => exact absurd mine.symm (books.others split v asleep)
  rcases does.sleeper books fair asleep with ⟨u, asleep', sleepsOn⟩ | call
  · obtain ⟨-, whose, -, on, -⟩ := Sleeper.eq_of_hushed sleepsOn.same
    rw [on]
    exact ascending u asleep' l (whose ▸ before)
  · cases m with
    | join c =>
      obtain ⟨-, whose, -, on, -⟩ := LockCall.eq_of_sleeper (Option.some.inj call)
      rw [← on]
      exact climbs l (whose ▸ before)
    | swap c old =>
      obtain ⟨-, whose, -, on, -⟩ := LockCall.eq_of_sleeper (Option.some.inj call)
      rw [← on]
      exact climbs l (whose ▸ before)
    | _ => cases call

theorem Ascending.path {ok : Engine → Move → Prop} (ascending : s.Ascending lt)
    (books : s.Books tableOf) (path : Path ok s s')
    (keeps : ∀ s m, ok s m → s.Fair tableOf m ∧ s.Climbs lt m) : s'.Ascending lt := by
  refine (path.keeps (P := fun s => s.Books tableOf ∧ s.Ascending lt) ?_ ⟨books, ascending⟩).2
  intro s m s' ⟨books, ascending⟩ does allowed
  obtain ⟨fair, climbs⟩ := keeps s m allowed
  exact ⟨books.move does fair, ascending.move books does fair climbs⟩

/-- A lock call that gets to a queue does so with the locks it had when it began. -/
theorem Ascending.lock (ascending : s.Ascending lt) (books : s.Books tableOf) {c : LockCall}
    (usable : s.isUsable c.handle = true) (fair : (Event.op (.lock c)).Fair tableOf s)
    (ascends : (Event.op (.lock c)).Ascends lt s) : (s.lock c).1.Ascending lt := by
  suffices path : Path (fun s m => s.Fair tableOf m ∧ s.Climbs lt m) s (s.lock c).1 from
    ascending.path books path fun _ _ => id
  have registered : Path (fun s m => s.Fair tableOf m ∧ s.Climbs lt m) s (s.register c.handle) :=
    .move (.register usable) ⟨trivial, trivial⟩
  rw [lock_eq]
  split
  · exact .refl s
  · rename_i active
    split
    · exact registered
    · rename_i differs
      split
      · exact registered.trans (refuse_path (fun _ => ⟨trivial, trivial⟩) fun _ => ⟨trivial, trivial⟩)
      · rename_i lawful
        have reaches : s.Reaches c := ⟨usable, Bool.eq_false_iff.2 active, differs, lawful⟩
        have opened := registered.next (.side (.open c.resource.key)) ⟨trivial, trivial⟩
        have enters {s' : Engine} (txns : s'.txns = s.txns) (callers : s'.callers = s.callers) :
            (¬ s'.HasCall c.handle ∧ c.resource.Known tableOf) ∧
              ∀ l ∈ (s'.txn c.handle).locks, lt l.resource c.resource := by
          refine ⟨⟨?_, fair.knowsTables⟩, ?_⟩
          · rw [hasCall_iff, callers, ← hasCall_iff]
            exact fair.oneCall
          · rw [txn, txns]
            exact ascends reaches
        exact opened.trans (enqueue_path_of reaches.admits (fun _ _ _ => ⟨trivial, trivial⟩)
          (fun _ txns callers => enters (txns.trans (txns_register s _)) (by simpa using callers))
          (fun _ _ txns callers => enters (txns.trans (txns_register s _)) (by simpa using callers))
          (fun _ _ _ => ⟨trivial, trivial⟩) (fun _ _ => ⟨trivial, trivial⟩)
          fun _ => ⟨trivial, trivial⟩)

theorem Ascending.after (ascending : s.Ascending lt) (books : s.Books tableOf)
    (fair : e.Fair tableOf s) (ascends : e.Ascends lt s) (w : Walk) :
    (s.after w e).Ascending lt := by
  by_cases call : ∃ c, e = .op (.lock c)
  · obtain ⟨c, rfl⟩ := call
    rw [Engine.after, perform]
    split
    · rename_i usable
      exact ascending.lock books (by simpa [Op.handle?] using usable) fair ascends
    · exact ascending
  · refine ascending.path books (s.after_path w e) fun s' m causes => ?_
    refine ⟨fair_of_causes fair causes, ?_⟩
    cases m with
    | join c | swap c => exact absurd ⟨c, causes.2⟩ call
    | _ => trivial

theorem Reachable.ascending
    (reach : Reachable config (fun s e => e.Fair tableOf s ∧ e.Ascends lt s) s) :
    s.Books tableOf ∧ s.Ascending lt :=
  reach.invariant (P := fun s => s.Books tableOf ∧ s.Ascending lt)
    ⟨books_fresh config, ascending_fresh config⟩
    fun _ w _ ⟨books, ascending⟩ ⟨fair, ascends⟩ =>
      ⟨books.after fair w, ascending.after books fair ascends w⟩

/-- The first has a call asleep on a resource below that of the second. -/
def Below (lt : Resource → Resource → Prop) (s : Engine) (a b : TxnId) : Prop :=
  ∃ u ∈ s.sleepers, ∃ v ∈ s.sleepers, (s.txn u.handle).id = a ∧ (s.txn v.handle).id = b ∧
    lt u.resource v.resource

/-- A transaction has one call asleep at most. -/
theorem Books.asleep_unique (books : s.Books tableOf) {u v : Sleeper} (asleep : u ∈ s.sleepers)
    (asleep' : v ∈ s.sleepers) (same : (s.txn u.handle).id = (s.txn v.handle).id) : u = v :=
  List.inj_on_of_nodup_map books.calls asleep asleep'
    (books.ids _ _ (books.known u asleep) (books.known v asleep') same)

/-- Whoever waits for somebody who waits himself is below him. What he waits for is the other's for
good, as the other has not been granted anything since he waits. -/
theorem Ascending.below (ascending : s.Ascending lt) (books : s.Books tableOf)
    (edge : s.Waits a b) (onward : s.Waits b c) : s.Below lt a b := by
  obtain ⟨-, k, edge⟩ := edge
  obtain ⟨-, k', onward⟩ := onward
  obtain ⟨⟨x, hx, rfl, waits⟩, ⟨y, hy, rfl, granted⟩, -⟩ := Queue.mem_waitEdges.1 edge
  obtain ⟨⟨z, hz, same, waits'⟩, -⟩ := Queue.mem_waitEdges.1 onward
  obtain ⟨u, asleep, own, on⟩ := books.asleep_of_waits hx waits
  obtain ⟨v, asleep', own', on'⟩ := books.asleep_of_waits hz waits'
  have here : y.resource = u.resource :=
    (books.tables k y hy).eq (books.known_of_asleep asleep) ((books.placed k y hy).trans on.symm)
  obtain ⟨h, lt, id, backs⟩ := books.backed k y hy
  have mine : h = v.handle :=
    books.ids _ _ lt (books.known v asleep') (id.symm.trans (same.symm.trans own'))
  refine ⟨u, asleep, v, asleep', own.symm, own'.symm.trans same, ?_⟩
  rcases backs with ⟨-, there⟩ | ⟨v', awake, whose, elsewhere, -⟩
  · rw [← here]
    exact ascending v asleep' _ (mine ▸ there)
  · obtain rfl : v' = v :=
      books.asleep_unique awake asleep' (congrArg (fun h => (s.txn h).id) (whose.trans mine))
    rw [elsewhere, books.placed k y hy] at on'
    subst on'
    obtain rfl := books.unique hy hz same.symm
    rw [granted] at waits'
    cases waits'

theorem Books.below_trans [IsTrans Resource lt] (books : s.Books tableOf)
    (first : s.Below lt a b) (second : s.Below lt b c) : s.Below lt a c := by
  obtain ⟨u, asleep, v, asleep', own, same, le⟩ := first
  obtain ⟨v', asleep'', z, awake, same', own', le'⟩ := second
  obtain rfl := books.asleep_unique asleep' asleep'' (same.trans same'.symm)
  exact ⟨u, asleep, z, awake, own, own', IsTrans.trans _ _ _ le le'⟩

theorem Ascending.deadlockFree [IsStrictOrder Resource lt] (ascending : s.Ascending lt)
    (books : s.Books tableOf) : s.DeadlockFree := by
  intro a circle
  have way := transGen_waiting circle (by
    obtain ⟨b, edge, -⟩ := Relation.TransGen.head'_iff.1 circle
    exact ⟨b, edge⟩)
  have upward {b : TxnId} (way : Relation.TransGen (fun a b => s.Waits a b ∧ ∃ c, s.Waits b c) a b) :
      s.Below lt a b := by
    induction way with
    | single step => exact ascending.below books step.1 step.2.choose_spec
    | tail _ step ih => exact books.below_trans ih (ascending.below books step.1 step.2.choose_spec)
  obtain ⟨u, asleep, v, asleep', own, own', le⟩ := upward way
  obtain rfl := books.asleep_unique asleep asleep' (own.trans own'.symm)
  exact irrefl _ le

/-- A pass over a graph without cycles has no victims. -/
theorem DeadlockFree.detect_eq_nil (free : s.DeadlockFree) (complete : w.Complete) :
    (s.detect w).2 = [] := by
  have none : (s.waitGraph w).breakCycles.1 = [] :=
    WaitGraph.breakCycles_eq_nil_iff.2 ((acyclic_waitGraph_iff complete).2 free)
  refine List.eq_nil_iff_forall_not_mem.2 fun v victim => ?_
  have chosen := mem_breakCycles_of_mem_detect complete victim
  rw [none] at chosen
  cases chosen

/-- In every state that clients can lead to whose lock calls ask only for resources above all that
their transactions hold, in whatever order of resources, nobody waits in a circle, and a detection
pass has no victim. -/
theorem ordered_acquisition_deadlock_free [IsStrictOrder Resource lt]
    (reach : Reachable config (fun s e => e.Fair tableOf s ∧ e.Ascends lt s) s)
    (complete : w.Complete) : (s.waitGraph w).Acyclic ∧ (s.detect w).2 = [] := by
  obtain ⟨books, ascending⟩ := reach.ascending
  have free := ascending.deadlockFree books
  exact ⟨(acyclic_waitGraph_iff complete).2 free, free.detect_eq_nil complete⟩

/-- For instance when tables are locked by number: the third waits for the second on the first table,
and the second for the first on the second one. -/
theorem ordered_acquisition_deadlock_free_of_three :
    let lt := fun a b : Resource => a.tableId < b.tableId
    let s := (fresh {}).afterAll .ascending
      [.op (.begin .repeatableRead), .op (.begin .repeatableRead), .op (.begin .repeatableRead),
        .op (.lock ⟨3, 0, .exclusive, .table 2⟩), .op (.lock ⟨4, 1, .exclusive, .table 1⟩),
        .op (.lock ⟨5, 1, .shared, .table 2⟩), .op (.lock ⟨6, 2, .shared, .table 1⟩)]
    Reachable {} (fun s e => e.Fair (fun _ => 1) s ∧ e.Ascends lt s) s ∧ IsStrictOrder Resource lt ∧
      (s.waitGraph .ascending).toList = [⟨1, 0⟩, ⟨2, 1⟩] ∧
      (s.waitGraph .ascending).Acyclic ∧ (s.detect .ascending).2 = [] := by
  intro lt s
  have reach : Reachable {} (fun s e => e.Fair (fun _ => 1) s ∧ e.Ascends lt s) s :=
    Reachable.afterAll Walk.complete_ascending .fresh (by decide +kernel)
  have order : IsStrictOrder Resource lt :=
    { irrefl := fun _ => Nat.lt_irrefl _, trans := fun _ _ _ => Nat.lt_trans }
  exact ⟨reach, order, by decide +kernel,
    ordered_acquisition_deadlock_free reach Walk.complete_ascending⟩

end Engine

end TwoPhaseLocking
