import Mathlib.Data.Set.Insert
import TwoPhaseLocking.WaitGraph.Table

/-! # A graph is the set of its edges

A graph that is edited comes to the edges that the same edits leave of a set of pairs, and shows
nothing else of its past. That is so whether it is kept as a set of edges or as a table, since no
edit leaves an empty entry in the table.
-/

namespace TwoPhaseLocking.WaitGraph

/-- What can be done to a graph. -/
inductive Edit where
  | insert (e : Edge)
  | erase (e : Edge)
  | eraseVertex (v : TxnId)
  | clear
deriving DecidableEq, Repr

def Edit.onSet (edges : Set Edge) : Edit → Set Edge
  | insert e => edges ∪ {e}
  | erase e => edges \ {e}
  | eraseVertex v => edges \ {e | e.waiter = v ∨ e.holder = v}
  | clear => ∅

/-- The edges that these edits leave, when there are none in the beginning. -/
def edgesOf (edits : List Edit) : Set Edge := edits.foldl Edit.onSet ∅

/-- A way to keep edges in which nothing but the edges counts. -/
structure Keeping (γ : Type) [Membership Edge γ] where
  empty : γ
  insert : γ → Edge → γ
  erase : γ → Edge → γ
  eraseVertex : γ → TxnId → γ
  isEmpty : γ → Bool
  toList : γ → List Edge
  not_mem_empty : ∀ e : Edge, e ∉ empty
  mem_insert : ∀ {c : γ} {e x : Edge}, x ∈ insert c e ↔ x = e ∨ x ∈ c
  mem_erase : ∀ {c : γ} {e x : Edge}, x ∈ erase c e ↔ x ≠ e ∧ x ∈ c
  mem_eraseVertex : ∀ {c : γ} {v : TxnId} {x : Edge},
    x ∈ eraseVertex c v ↔ x.waiter ≠ v ∧ x.holder ≠ v ∧ x ∈ c
  ext : ∀ {c d : γ}, (∀ e : Edge, e ∈ c ↔ e ∈ d) → c = d
  isEmpty_iff : ∀ {c : γ}, isEmpty c = true ↔ ∀ e : Edge, e ∉ c
  mem_toList : ∀ {c : γ} {e : Edge}, e ∈ toList c ↔ e ∈ c
  toList_ordered : ∀ c, (toList c).Pairwise fun a b => compare a b = .lt

/-- As a set of edges. -/
def graphs : Keeping WaitGraph where
  empty := ∅
  insert := insert
  erase := erase
  eraseVertex := eraseVertex
  isEmpty := isEmpty
  toList := toList
  not_mem_empty := not_mem_empty
  mem_insert := mem_insert
  mem_erase := mem_erase
  mem_eraseVertex := mem_eraseVertex
  ext := ext
  isEmpty_iff := isEmpty_iff
  mem_toList := mem_toList
  toList_ordered := toList_ordered

/-- As a table of those whom each transaction waits for. -/
def tables : Keeping WaitTable where
  empty := ∅
  insert := WaitTable.insert
  erase := WaitTable.erase
  eraseVertex := WaitTable.eraseVertex
  isEmpty := WaitTable.isEmpty
  toList := WaitTable.toList
  not_mem_empty := WaitTable.not_mem_empty
  mem_insert := WaitTable.mem_insert
  mem_erase := WaitTable.mem_erase
  mem_eraseVertex := WaitTable.mem_eraseVertex
  ext := WaitTable.ext
  isEmpty_iff := WaitTable.isEmpty_iff
  mem_toList := WaitTable.mem_toList
  toList_ordered := WaitTable.toList_ordered

namespace Keeping

variable {γ : Type} [Membership Edge γ] (k : Keeping γ) {c : γ} {edges : Set Edge}
  {edits edits' : List Edit} {d : Edit} {e : Edge}

def apply (c : γ) : Edit → γ
  | .insert e => k.insert c e
  | .erase e => k.erase c e
  | .eraseVertex v => k.eraseVertex c v
  | .clear => k.empty

/-- What these edits make of nothing. -/
def built (edits : List Edit) : γ := edits.foldl k.apply k.empty

theorem mem_apply (same : ∀ e, e ∈ c ↔ e ∈ edges) : e ∈ k.apply c d ↔ e ∈ d.onSet edges := by
  cases d with
  | insert x => simp [apply, Edit.onSet, k.mem_insert, same]
  | erase x => simp [apply, Edit.onSet, k.mem_erase, same, and_comm]
  | eraseVertex v =>
    simp only [apply, Edit.onSet, k.mem_eraseVertex, same, Set.mem_sdiff, Set.mem_ofPred_eq, not_or,
      and_assoc, and_comm]
  | clear => simp [apply, Edit.onSet, k.not_mem_empty]

theorem mem_foldl (same : ∀ e, e ∈ c ↔ e ∈ edges) :
    e ∈ edits.foldl k.apply c ↔ e ∈ edits.foldl Edit.onSet edges := by
  induction edits generalizing c edges with
  | nil => exact same e
  | cons d edits ih => exact ih fun _ => k.mem_apply same

theorem mem_built : e ∈ k.built edits ↔ e ∈ edgesOf edits :=
  k.mem_foldl fun e => iff_of_false (k.not_mem_empty e) (Set.notMem_empty e)

theorem built_eq_iff : k.built edits = k.built edits' ↔ edgesOf edits = edgesOf edits' := by
  rw [Set.ext_iff]
  simp only [← k.mem_built]
  exact ⟨fun same e => by rw [same], k.ext⟩

theorem isEmpty_built : k.isEmpty (k.built edits) = true ↔ edgesOf edits = ∅ := by
  rw [k.isEmpty_iff, Set.eq_empty_iff_forall_notMem]
  simp only [k.mem_built]

theorem toList_built {δ : Type} [Membership Edge δ] (k' : Keeping δ) (edits : List Edit) :
    k'.toList (k'.built edits) = k.toList (k.built edits) := by
  refine Edge.eq_of_ascending (k'.toList_ordered _) (k.toList_ordered _) fun e => ?_
  rw [k'.mem_toList, k.mem_toList, k'.mem_built, k.mem_built]

end Keeping

/-- The graph that these edits make of an empty one. -/
def graphOf (edits : List Edit) : WaitGraph := graphs.built edits

def tableOf (edits : List Edit) : WaitTable := tables.built edits

/-- After any edits of an empty graph, the edges are listed in strictly ascending order and are those
that the edits leave of a set. The graph is empty exactly if no edge is left, and two graphs are
equal exactly if the same edges are left of them. A table lists the same edges, and is empty or equal
to another just when the graph is. -/
theorem edited_graph_is_set (edits : List Edit) :
    (((graphOf edits).toList.Pairwise fun a b =>
        a.waiter < b.waiter ∨ a.waiter = b.waiter ∧ a.holder < b.holder) ∧
      ∀ e, e ∈ (graphOf edits).toList ↔ e ∈ edgesOf edits) ∧
    ((graphOf edits).isEmpty = true ↔ edgesOf edits = ∅) ∧
    (∀ edits', graphOf edits = graphOf edits' ↔ edgesOf edits = edgesOf edits') ∧
    (tableOf edits).toList = (graphOf edits).toList ∧
    ((tableOf edits).isEmpty = true ↔ edgesOf edits = ∅) ∧
    ∀ edits', tableOf edits = tableOf edits' ↔ edgesOf edits = edgesOf edits' := by
  refine ⟨⟨?_, fun e => ?_⟩, graphs.isEmpty_built, fun _ => graphs.built_eq_iff,
    graphs.toList_built tables edits, tables.isEmpty_built, fun _ => tables.built_eq_iff⟩
  · exact (graphOf edits).toList_ordered.imp Edge.compare_eq_lt_iff.1
  · exact mem_toList.trans graphs.mem_built

/-- For instance, the edges of 1 go one by one, and nothing is left of its entry. -/
example : tableOf [.insert ⟨1, 2⟩, .insert ⟨3, 1⟩, .insert ⟨1, 4⟩, .eraseVertex 2, .erase ⟨1, 4⟩] =
    tableOf [.insert ⟨3, 1⟩] := by
  decide +kernel

end TwoPhaseLocking.WaitGraph
