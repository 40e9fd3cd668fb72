import TwoPhaseLocking.Proofs.Books
import TwoPhaseLocking.Proofs.Cycle

/-! # Who waits for whom

A transaction waits for another when a queue has a waiting request of the first and a granted
one of the second. There is deadlock when that leads back to somebody. Granting, waking and
aborting bring about no deadlock: whoever is granted something has no other call asleep, so
he waits for nobody any more.
-/

namespace TwoPhaseLocking

theorem Queue.mem_waitEdges {q : Queue} {a b : TxnId} : (⟨a, b⟩ : Edge) ∈ q.waitEdges ↔
    (∃ x ∈ q.requests, x.txn = a ∧ x.granted = false) ∧
      (∃ y ∈ q.requests, y.txn = b ∧ y.granted = true) ∧ b ≠ a := by
  simp only [waitEdges, waiting, holding, List.mem_flatMap, List.mem_map, List.mem_filter,
    Bool.not_eq_true', bne_iff_ne, Edge.mk.injEq]
  constructor
  · rintro ⟨_, ⟨x, ⟨hx, waits⟩, rfl⟩, _, ⟨⟨y, ⟨hy, granted⟩, rfl⟩, ne⟩, rfl, rfl⟩
    exact ⟨⟨x, hx, rfl, waits⟩, ⟨y, hy, rfl, granted⟩, ne⟩
  · rintro ⟨⟨x, hx, rfl, waits⟩, ⟨y, hy, rfl, granted⟩, ne⟩
    exact ⟨_, ⟨x, ⟨hx, waits⟩, rfl⟩, _, ⟨⟨y, ⟨hy, granted⟩, rfl⟩, ne⟩, rfl, rfl⟩

/-- The moves of calls that look at their queues, and of a detection pass. -/
def Move.Winding : Move → Prop
  | notify _ | take _ | quit _ | doze _ | side | mark _ (.abort _) => True
  | _ => False

namespace Engine

variable {tableOf : RowId → TableId} {s s' s'' : Engine} {m : Move}

/-- A transaction that is registered and not aborted has a waiting request where the other has
a granted one. -/
def Waits (s : Engine) (a b : TxnId) : Prop :=
  s.isBlockable a = true ∧ ∃ k, (⟨a, b⟩ : Edge) ∈ (s.queue k).waitEdges

/-- Nobody waits, in the end, for himself. -/
def DeadlockFree (s : Engine) : Prop := ∀ v, ¬ Relation.TransGen s.Waits v v

/-- The edges of the graph are those that wait for each other. -/
theorem mem_waitGraph {w : Walk} (complete : w.Complete) {a b : TxnId} :
    (⟨a, b⟩ : Edge) ∈ s.waitGraph w ↔ s.Waits a b := by
  rw [waitGraph, waitGraphOf, WaitGraph.mem_ofList, List.mem_filter, List.mem_flatMap, Waits,
    and_comm]
  refine and_congr_right fun _ => ⟨fun ⟨k, _, edge⟩ => ⟨k, edge⟩, fun ⟨k, edge⟩ => ⟨k, ?_, edge⟩⟩
  rw [(complete.queues s).mem_iff, Std.ExtTreeMap.mem_keys]
  by_contra missing
  obtain ⟨⟨x, hx, -⟩, -⟩ := Queue.mem_waitEdges.1 edge
  rw [queue, Std.ExtTreeMap.getD_eq_fallback missing] at hx
  cases hx

theorem acyclic_waitGraph_iff {w : Walk} (complete : w.Complete) :
    (s.waitGraph w).Acyclic ↔ s.DeadlockFree := by
  have same : (fun a b => (⟨a, b⟩ : Edge) ∈ s.waitGraph w) = s.Waits := by
    funext a b
    exact propext (mem_waitGraph complete)
  rw [WaitGraph.Acyclic, DeadlockFree]
  simp only [WaitGraph.Leads, same]

/-- On a way that ends with somebody who waits, everybody on the way waits. -/
theorem transGen_waiting {r : TxnId → TxnId → Prop} {a b : TxnId} (way : Relation.TransGen r a b)
    (onward : ∃ c, r b c) : Relation.TransGen (fun a b => r a b ∧ ∃ c, r b c) a b := by
  induction way with
  | single edge => exact .single ⟨edge, onward⟩
  | tail _ edge ih => exact (ih ⟨_, edge⟩).tail ⟨edge, onward⟩

/-- If everybody who waits for somebody waiting did so before, there is no new deadlock. -/
theorem DeadlockFree.of_waits (free : s.DeadlockFree)
    (before : ∀ a b c, s'.Waits a b → s'.Waits b c → s.Waits a b) : s'.DeadlockFree := by
  intro v cycle
  obtain ⟨w, edge, -⟩ := Relation.TransGen.head'_iff.1 cycle
  have way := transGen_waiting cycle ⟨w, edge⟩
  exact free v (Relation.TransGen.mono
    (fun a b (edge : s'.Waits a b ∧ ∃ c, s'.Waits b c) =>
      before a b edge.2.choose edge.1 edge.2.choose_spec) v v way)

/-- Requests have only been granted or withdrawn, calls ended and transactions aborted. -/
structure Winds (s s' : Engine) : Prop where
  grown : ∀ k, ∀ b ∈ (s'.queue k).requests, ∃ a ∈ (s.queue k).requests, a.GrownTo b
  registry : s'.registry = s.registry
  active : s'.active = s.active
  kept : ∀ h, (s'.txn h).kept = (s.txn h).kept
  ids : ∀ h, (s'.txn h).id = (s.txn h).id
  callers : s'.callers.Sublist s.callers
  aborted : ∀ h, (s.txn h).isAborted = true → (s'.txn h).isAborted = true

theorem isReferred_iff {h : Handle} : s.isReferred h = true ↔
    (s.txn h).kept = true ∨ s.active[(s.txn h).id]? = some h ∨ h ∈ s.callers := by
  simp [isReferred, callers, or_assoc]

/-- Nobody comes back who is gone or aborted. -/
theorem Winds.blockable (winds : s.Winds s') {id : TxnId} (blockable : s'.isBlockable id = true) :
    s.isBlockable id = true := by
  simp only [isBlockable, lookup, Option.any_eq_true, Option.filter_eq_some_iff] at blockable ⊢
  obtain ⟨h, ⟨registered, referred⟩, live⟩ := blockable
  refine ⟨h, ⟨winds.registry ▸ registered, ?_⟩, ?_⟩
  · rw [isReferred_iff] at referred ⊢
    rw [winds.kept, winds.ids, winds.active] at referred
    exact referred.imp_right (Or.imp_right fun there => winds.callers.subset there)
  · by_contra dead
    rw [winds.aborted h (by simpa using dead)] at live
    cases live

theorem Winds.trans (first : s.Winds s') (second : s'.Winds s'') : s.Winds s'' where
  grown k c hc := by
    obtain ⟨b, hb, grown⟩ := second.grown k c hc
    obtain ⟨a, ha, grown'⟩ := first.grown k b hb
    exact ⟨a, ha, grown'.trans grown⟩
  registry := second.registry.trans first.registry
  active := second.active.trans first.active
  kept h := (second.kept h).trans (first.kept h)
  ids h := (second.ids h).trans (first.ids h)
  callers := second.callers.trans first.callers
  aborted h aborted := second.aborted h (first.aborted h aborted)

/-- Whoever waits in a queue has a call asleep on it. -/
theorem Books.asleep_of_waits (books : s.Books tableOf) {k : QueueKey} {x : Request}
    (hx : x ∈ (s.queue k).requests) (waits : x.granted = false) :
    ∃ v ∈ s.sleepers, x.txn = (s.txn v.handle).id ∧ v.resource.key = k := by
  obtain ⟨h, -, own, backs⟩ := books.backed k x hx
  rcases backs with ⟨granted, -⟩ | ⟨v, asleep, rfl, on, -⟩
  · rw [granted] at waits
    cases waits
  · exact ⟨v, asleep, own, by rw [on, books.placed k x hx]⟩

/-- A transaction waits in one queue at most: it has one call. -/
theorem Books.waiting_unique (books : s.Books tableOf) {k k' : QueueKey} {x y : Request}
    (hx : x ∈ (s.queue k).requests) (hy : y ∈ (s.queue k').requests) (same : x.txn = y.txn)
    (waits : x.granted = false) (waits' : y.granted = false) : k = k' := by
  obtain ⟨v, asleep, own, on⟩ := books.asleep_of_waits hx waits
  obtain ⟨v', asleep', own', on'⟩ := books.asleep_of_waits hy waits'
  have handle : v.handle = v'.handle := books.ids _ _ (books.known v asleep)
    (books.known v' asleep') (own.symm.trans (same.trans own'))
  obtain rfl : v = v' := List.inj_on_of_nodup_map books.calls asleep asleep' handle
  exact on.symm.trans on'

/-- Whoever waits for somebody who waits himself did so before, for the other has not been
granted anything. -/
theorem Winds.waits (winds : s.Winds s') (books : s.Books tableOf) (books' : s'.Books tableOf)
    {a b c : TxnId} (edge : s'.Waits a b) (onward : s'.Waits b c) : s.Waits a b := by
  obtain ⟨blockable, k, edge⟩ := edge
  obtain ⟨-, k', onward⟩ := onward
  obtain ⟨⟨x', hx', idx, waits⟩, ⟨y', hy', idy, granted⟩, ne⟩ := Queue.mem_waitEdges.1 edge
  obtain ⟨⟨z', hz', idz, waits'⟩, -⟩ := Queue.mem_waitEdges.1 onward
  obtain ⟨x, hx, grownx⟩ := winds.grown k x' hx'
  obtain ⟨y, hy, growny⟩ := winds.grown k y' hy'
  obtain ⟨z, hz, grownz⟩ := winds.grown k' z' hz'
  refine ⟨winds.blockable blockable, k, Queue.mem_waitEdges.2
    ⟨⟨x, hx, grownx.same.1.symm.trans idx, grownx.waits waits⟩,
      ⟨y, hy, growny.same.1.symm.trans idy, ?_⟩, ne⟩⟩
  by_contra waiting
  have sameTxn : y.txn = z.txn := by
    rw [← growny.same.1, ← grownz.same.1, idy, idz]
  obtain rfl := books.waiting_unique hy hz sameTxn (by simpa using waiting) (grownz.waits waits')
  obtain rfl := books'.unique hy' hz' (idy.trans idz.symm)
  rw [granted] at waits'
  cases waits'

theorem winds_notify (k : QueueKey) : s.Winds (s.grantAndNotify k) where
  grown _ _ hb := exists_of_mem_grantAndNotify hb
  registry := rfl
  active := rfl
  kept _ := rfl
  ids _ := rfl
  callers := by rw [callers_grantAndNotify]
  aborted _ aborted := aborted

theorem winds_updateQueue {f : Queue → Queue} (k : QueueKey)
    (left : ∀ q, ∀ x ∈ (f q).requests, x ∈ q.requests) : s.Winds (s.updateQueue k f) where
  grown k' x hx := by
    rw [queue_updateQueue] at hx
    split at hx
    · rename_i same
      rw [← same]
      exact ⟨x, left _ x hx, .refl x⟩
    · exact ⟨x, hx, .refl x⟩
  registry := rfl
  active := rfl
  kept _ := rfl
  ids _ := rfl
  callers := .refl _
  aborted _ aborted := aborted

theorem winds_clearUpgrading (k : QueueKey) (id : TxnId) :
    s.Winds (s.updateQueue k (·.clearUpgrading id)) := by
  refine winds_updateQueue k fun q x hx => ?_
  rwa [Queue.requests_clearUpgrading] at hx

theorem winds_remove (k : QueueKey) (id : TxnId) : s.Winds (s.updateQueue k (·.remove id)) :=
  winds_updateQueue k fun _ _ hx => List.mem_of_mem_eraseP hx

theorem winds_end {w : Sleeper} {xs ys : List Sleeper} (asleep : s.sleepers = xs ++ w :: ys) :
    s.Winds { s with sleepers := xs ++ ys } where
  grown _ x hx := ⟨x, hx, .refl x⟩
  registry := rfl
  active := rfl
  kept _ := rfl
  ids _ := rfl
  callers := callers_rest_sublist asleep
  aborted _ aborted := aborted

/-- A transaction that is changed and stays aborted if it was. -/
theorem winds_updateTxn {f : Transaction → Transaction} (h : Handle)
    (kept : ∀ t, (f t).kept = t.kept) (ids : ∀ t, (f t).id = t.id)
    (aborted : ∀ t, t.isAborted = true → (f t).isAborted = true) :
    s.Winds (s.updateTxn h f) where
  grown _ x hx := ⟨x, hx, .refl x⟩
  registry := rfl
  active := rfl
  kept := proj_updateTxn s h f (·.kept) kept
  ids := proj_updateTxn s h f (·.id) ids
  callers := .refl _
  aborted h' dead := by
    rw [txn_updateTxn]
    split
    · rename_i mine
      rw [← mine.1] at dead
      exact aborted _ dead
    · exact dead

theorem winds_abort (h : Handle) (reason : Option AbortReason) :
    s.Winds (s.updateTxn h (·.abort reason)) :=
  winds_updateTxn h (·.kept_abort reason) (·.id_abort reason)
    fun _ aborted => isAborted_abort_of_isAborted aborted reason

theorem Does.winds (does : s.Does m s') (winding : m.Winding) : s.Winds s' := by
  cases does with
  | notify => exact winds_notify _
  | @take w xs ys asleep =>
    have cleared := (winds_end asleep).trans
      (winds_clearUpgrading w.resource.key (s.txn w.handle).id)
    refine cleared.trans ?_
    exact winds_updateTxn w.handle (fun _ => rfl) (fun _ => rfl) fun _ aborted => aborted
  | @quit w xs ys asleep =>
    have cleared := (winds_end asleep).trans
      (winds_clearUpgrading w.resource.key (s.txn w.handle).id)
    exact (cleared.trans (winds_remove _ _)).trans (winds_notify _)
  | @doze w xs ys asleep =>
    refine ⟨fun k b hb => ⟨b, hb, .refl b⟩, rfl, rfl, fun _ => rfl, fun _ => rfl, ?_,
      fun _ aborted => aborted⟩
    rw [callers, callers, asleep, List.map_append, List.map_append, List.map_cons, List.map_cons]
  | side alike =>
    have txn (h : Handle) : s'.txn h = s.txn h := by
      rw [Engine.txn, alike.txns, Engine.txn]
    refine ⟨fun k b hb => ⟨b, alike.queue k ▸ hb, .refl b⟩, alike.registry, alike.active,
      fun h => by rw [txn], fun h => by rw [txn], ?_, fun h aborted => by rw [txn, aborted]⟩
    rw [callers, alike.sleepers, callers]
  | @mark h k =>
    cases k with
    | abort reason =>
      exact winds_abort h reason
    | _ => exact winding.elim
  | _ => exact winding.elim

theorem Winds.refl (s : Engine) : s.Winds s :=
  ⟨fun _ b hb => ⟨b, hb, .refl b⟩, rfl, rfl, fun _ => rfl, fun _ => rfl, .refl _,
    fun _ aborted => aborted⟩

theorem winds_of_path (path : Path (fun _ m => m.Winding) s s') : s.Winds s' :=
  path.keeps (fun _ _ _ winds does winding => winds.trans (does.winds winding)) (.refl s)

theorem fair_of_winding (winding : m.Winding) : s.Fair tableOf m := by
  cases m with
  | begin | adopt | join | swap => exact winding.elim
  | _ => trivial

/-- What the moves of waking and detection keep. -/
theorem DeadlockFree.path (books : s.Books tableOf) (free : s.DeadlockFree)
    (path : Path (fun _ m => m.Winding) s s') : s'.DeadlockFree := by
  have both := path.keeps (P := fun s => s.Books tableOf ∧ s.DeadlockFree) ?_ ⟨books, free⟩
  · exact both.2
  · rintro s m s' ⟨books, free⟩ does winding
    have books' : s'.Books tableOf := books.move does (fair_of_winding winding)
    exact ⟨books', free.of_waits fun a b c => (does.winds winding).waits books books'⟩

end Engine

end TwoPhaseLocking
