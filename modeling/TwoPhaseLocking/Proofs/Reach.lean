import TwoPhaseLocking.Proofs.Cycle
import TwoPhaseLocking.WaitGraph.Reach

/-! # Following every path finds who is on a cycle

A search from one transaction keeps those it has reached, and among them those that it has still to
go on from. All others it has gone on from, so whoever they wait for is reached too. When nobody is
left to go on from, everybody at the end of a path has been reached.
-/

namespace TwoPhaseLocking.WaitGraph

variable {g : WaitGraph} {start v w : TxnId} {pending pending' reached stack : List TxnId}
  {rounds rounds' fuel : Nat} {found found' : Bool}

/-- Those whom `v` waits for and who have not been reached, ascending. -/
def fresh (g : WaitGraph) (reached : List TxnId) (v : TxnId) : List TxnId :=
  (g.holders v).filter (· ∉ reached)

/-- A search for a way back to `start` that ends as soon as it finds one. In each round it goes on
from the vertex on top of its stack, and puts there whom it has reached for the first time. -/
inductive Searches (g : WaitGraph) (start : TxnId) :
    (rounds : Nat) → (stack reached : List TxnId) → (found : Bool) → Prop where
  | exhausted {reached : List TxnId} : Searches g start 0 [] reached false
  | back {v : TxnId} {stack reached : List TxnId} :
      (⟨v, start⟩ : Edge) ∈ g → Searches g start 1 (v :: stack) reached true
  | onward {v : TxnId} {rounds : Nat} {stack reached : List TxnId} {found : Bool} :
      (⟨v, start⟩ : Edge) ∉ g →
      Searches g start rounds ((g.fresh reached v).reverse ++ stack) (g.fresh reached v ++ reached)
        found →
      Searches g start (rounds + 1) (v :: stack) reached found

/-- Those reached are at the end of paths from `start`. From all of them, and from `start`, the
search has gone on, but for those that are pending. -/
structure Sweep (g : WaitGraph) (start : TxnId) (pending reached : List TxnId) : Prop where
  due : ∀ u ∈ pending, u = start ∨ u ∈ reached
  closed : ∀ u, u = start ∨ u ∈ reached → u ∉ pending → ∀ w, (⟨u, w⟩ : Edge) ∈ g → w ∈ reached
  leads : ∀ u ∈ reached, g.Leads start u

@[simp]
theorem mem_fresh : w ∈ g.fresh reached v ↔ (⟨v, w⟩ : Edge) ∈ g ∧ w ∉ reached := by
  simp [fresh]

theorem sweep_start : g.Sweep start [start] [] where
  due := by simp
  closed := by simp
  leads := by simp

theorem Sweep.step (sweep : g.Sweep start (v :: pending) reached)
    (next : ∀ u, u ∈ pending' ↔ u ∈ g.fresh reached v ∨ u ∈ pending) :
    g.Sweep start pending' (g.fresh reached v ++ reached) where
  due u hu := by
    rcases (next u).1 hu with new | old
    · exact .inr (List.mem_append_left _ new)
    · exact (sweep.due u (List.mem_cons_of_mem v old)).imp_right (List.mem_append_right _)
  closed u hu off w edge := by
    rw [next, not_or] at off
    have before : u = start ∨ u ∈ reached :=
      hu.imp_right fun there => (List.mem_append.1 there).resolve_left off.1
    by_cases here : u = v
    · subst here
      by_cases old : w ∈ reached
      · exact List.mem_append_right _ old
      · exact List.mem_append_left _ (mem_fresh.2 ⟨edge, old⟩)
    · have done : u ∉ v :: pending := List.not_mem_cons_of_ne_of_not_mem here off.2
      exact List.mem_append_right _ (sweep.closed u before done w edge)
  leads u hu := by
    rcases List.mem_append.1 hu with new | old
    · have edge := (mem_fresh.1 new).1
      rcases sweep.due v List.mem_cons_self with rfl | hv
      · exact .single edge
      · exact (sweep.leads v hv).tail edge
    · exact sweep.leads u old

/-- When nobody is pending, those at the end of a path have been reached. -/
theorem Sweep.mem_iff (sweep : g.Sweep start [] reached) : w ∈ reached ↔ g.Leads start w := by
  refine ⟨sweep.leads w, fun path => ?_⟩
  induction path with
  | single edge => exact sweep.closed start (.inl rfl) List.not_mem_nil _ edge
  | tail _ edge ih => exact sweep.closed _ (.inr ih) List.not_mem_nil _ edge

/-- How many transactions that somebody waits for have not been reached. -/
def unreached (g : WaitGraph) (reached : List TxnId) : Nat :=
  ((g.toList.map (·.holder)).toFinset \ reached.toFinset).card

theorem nodup_holders (g : WaitGraph) (v : TxnId) : (g.holders v).Nodup := by
  refine ((Edge.nodup_of_ascending g.toList_ordered).filter _).map_on fun a ha b hb same => ?_
  simp only [List.mem_filter, beq_iff_eq] at ha hb
  obtain ⟨_, _⟩ := a
  obtain ⟨_, _⟩ := b
  simp_all

/-- Whoever is reached for the first time was not reached before, and is counted no more. -/
theorem length_fresh_add (g : WaitGraph) (reached : List TxnId) (v : TxnId) :
    (g.fresh reached v).length + g.unreached (g.fresh reached v ++ reached) =
      g.unreached reached := by
  have nodup : (g.fresh reached v).Nodup := (g.nodup_holders v).filter _
  have among : (g.fresh reached v).toFinset ⊆
      (g.toList.map (·.holder)).toFinset \ reached.toFinset := by
    intro w hw
    obtain ⟨edge, new⟩ := mem_fresh.1 (List.mem_toFinset.1 hw)
    simp only [Finset.mem_sdiff, List.mem_toFinset, List.mem_map, mem_toList]
    exact ⟨⟨_, edge, rfl⟩, new⟩
  rw [unreached, unreached, List.toFinset_append, Finset.union_comm, ← Finset.sup_eq_union,
    ← sdiff_sdiff_left, Nat.add_comm, ← List.toFinset_card_of_nodup nodup]
  exact Finset.card_sdiff_add_card_eq_card among

theorem unreached_nil_le (g : WaitGraph) : g.unreached [] ≤ g.size := by
  refine (Finset.card_le_card Finset.sdiff_subset).trans ((List.toFinset_card_le _).trans ?_)
  rw [List.length_map, length_toList]

/-- A search with nobody left to go on from ends at once. -/
theorem Sweep.exhausted (sweep : g.Sweep start [] reached) (not_back : start ∉ reached) :
    ∃ rounds ≤ fuel, ∃ found, g.Searches start rounds [] reached found ∧
      (found = true ↔ g.Leads start start) := by
  refine ⟨0, Nat.zero_le _, false, .exhausted, ?_⟩
  rw [← sweep.mem_iff]
  simp [not_back]

/-- A search ends, after no more rounds than there are vertices pending or not reached, and has found
a way back exactly if there is one. -/
theorem Sweep.exists_searches (sweep : g.Sweep start stack reached) (not_back : start ∉ reached)
    (bound : stack.length + g.unreached reached ≤ fuel) :
    ∃ rounds ≤ fuel, ∃ found, g.Searches start rounds stack reached found ∧
      (found = true ↔ g.Leads start start) := by
  induction fuel generalizing stack reached with
  | zero =>
    cases stack with
    | nil => exact sweep.exhausted not_back
    | cons v stack =>
      rw [List.length_cons] at bound
      omega
  | succ fuel ih =>
    cases stack with
    | nil => exact sweep.exhausted not_back
    | cons v stack =>
      by_cases edge : (⟨v, start⟩ : Edge) ∈ g
      · refine ⟨1, by omega, true, .back edge, iff_of_true rfl ?_⟩
        rcases sweep.due v List.mem_cons_self with rfl | there
        · exact .single edge
        · exact (sweep.leads v there).tail edge
      · have next : g.Sweep start ((g.fresh reached v).reverse ++ stack)
            (g.fresh reached v ++ reached) := sweep.step (by simp)
        have still : start ∉ g.fresh reached v ++ reached := by simp [edge, not_back]
        have count := g.length_fresh_add reached v
        obtain ⟨rounds, le, found, searches, iff⟩ := ih next still (by
          rw [List.length_append, List.length_reverse]
          rw [List.length_cons] at bound
          omega)
        exact ⟨rounds + 1, Nat.succ_le_succ le, found, .onward edge searches, iff⟩

/-- Each round is determined by the one before. -/
theorem Searches.unique (searches : g.Searches start rounds stack reached found)
    (searches' : g.Searches start rounds' stack reached found') :
    rounds' = rounds ∧ found' = found := by
  induction searches generalizing rounds' with
  | exhausted =>
    cases searches' with
    | exhausted => exact ⟨rfl, rfl⟩
  | back edge =>
    cases searches' with
    | back => exact ⟨rfl, rfl⟩
    | onward off => exact absurd edge off
  | onward off _ ih =>
    cases searches' with
    | back edge => exact absurd edge off
    | onward _ rest =>
      obtain ⟨rfl, rfl⟩ := ih rest
      exact ⟨rfl, rfl⟩

theorem spread_cons (g : WaitGraph) (fuel : Nat) (v : TxnId) (pending reached : List TxnId) :
    g.spread (fuel + 1) (v :: pending) reached =
      g.spread fuel (g.fresh reached v ++ pending) (g.fresh reached v ++ reached) := rfl

/-- With as much fuel as there are vertices pending or not reached, the search goes on from all. -/
theorem Sweep.mem_spread (sweep : g.Sweep start pending reached)
    (bound : pending.length + g.unreached reached ≤ fuel) :
    w ∈ g.spread fuel pending reached ↔ g.Leads start w := by
  induction fuel generalizing pending reached with
  | zero =>
    obtain rfl : pending = [] := List.length_eq_zero_iff.1 (by omega)
    exact sweep.mem_iff
  | succ fuel ih =>
    cases pending with
    | nil => exact sweep.mem_iff
    | cons v pending =>
      have next : g.Sweep start (g.fresh reached v ++ pending) (g.fresh reached v ++ reached) :=
        sweep.step (by simp)
      have count := g.length_fresh_add reached v
      rw [spread_cons]
      refine ih next ?_
      rw [List.length_append]
      rw [List.length_cons] at bound
      omega

theorem mem_reachableFrom : w ∈ g.reachableFrom v ↔ g.Leads v w := by
  refine sweep_start.mem_spread ?_
  have le := g.unreached_nil_le
  rw [List.length_singleton]
  omega

theorem mem_onCycles : v ∈ g.onCycles ↔ g.Leads v v := by
  simp only [onCycles, List.mem_filter, Std.ExtTreeSet.mem_toList, Std.ExtTreeSet.mem_ofList,
    List.contains_iff_mem, mem_waiters, decide_eq_true_eq, mem_reachableFrom]
  exact ⟨And.right, fun cycle => ⟨cycle.waits, cycle⟩⟩

theorem onCycles_ascending (g : WaitGraph) : g.onCycles.Pairwise (· < ·) := by
  have ordered : (Std.ExtTreeSet.ofList g.waiters compare).toList.Pairwise
      fun a b => compare a b = .lt := Std.ExtTreeSet.ordered_toList
  exact (ordered.imp Nat.compare_eq_lt.1).filter _

/-- From each transaction the search for a way back ends, whatever the graph, in no more rounds than
there are edges and one, and it has found one exactly if the transaction is among those on a cycle.
Those are listed in ascending order, and are the transactions from which a path leads back. So there
are none exactly if no cycle is found by going in depth, and whoever is on the cycle found is one of
them. -/
theorem on_cycles_exact (g : WaitGraph) :
    (∀ v, ∃ rounds ≤ g.size + 1, ∃ found, g.Searches v rounds [v] [] found ∧
      (found = true ↔ v ∈ g.onCycles) ∧
      ∀ rounds' found', g.Searches v rounds' [v] [] found' → rounds' = rounds ∧ found' = found) ∧
    g.onCycles.Pairwise (· < ·) ∧
    (∀ v, v ∈ g.onCycles ↔ g.Leads v v) ∧
    (g.onCycles ≠ [] ↔ g.findCycle?.isSome = true) ∧
    ∀ vs, g.findCycle? = some vs → ∀ v ∈ vs, v ∈ g.onCycles := by
  refine ⟨fun v => ?_, g.onCycles_ascending, fun v => mem_onCycles, ?_, fun vs found v hv => ?_⟩
  · have enough : [v].length + g.unreached [] ≤ g.size + 1 := by
      have le := g.unreached_nil_le
      rw [List.length_singleton]
      omega
    obtain ⟨rounds, le, found, searches, iff⟩ :=
      sweep_start.exists_searches List.not_mem_nil enough
    exact ⟨rounds, le, found, searches, iff.trans mem_onCycles.symm, fun _ _ => searches.unique⟩
  · rw [Option.isSome_iff_ne_none, ne_eq, ne_eq, not_iff_not, findCycle?_eq_none_iff, Acyclic,
      List.eq_nil_iff_forall_not_mem]
    simp only [mem_onCycles]
  · exact mem_onCycles.2 ((isCycle_of_findCycle? found).leads hv)

/-- For instance, 1 only leads to the cycle of 2 and 3, and 5 waits for itself. -/
example : (ofList [⟨1, 2⟩, ⟨2, 3⟩, ⟨3, 2⟩, ⟨3, 4⟩, ⟨5, 5⟩]).onCycles = [2, 3, 5] := by
  decide +kernel

end TwoPhaseLocking.WaitGraph
