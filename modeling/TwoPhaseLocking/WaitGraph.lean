import Std.Data.ExtTreeSet
import TwoPhaseLocking.Resource

/-! # Wait-for graphs

A finite set of edges between transactions. Nothing but the edges is kept, so a vertex is
there exactly as long as an edge touches it, and two graphs with the same edges are equal.
-/

namespace TwoPhaseLocking

structure Edge where
  waiter : TxnId
  holder : TxnId
deriving DecidableEq, Repr, Inhabited

/-- Edges are ordered by waiter, then by holder. -/
instance : Ord Edge where
  compare := compareLex (compareOn Edge.waiter) (compareOn Edge.holder)

instance : Std.TransOrd Edge :=
  inferInstanceAs (Std.TransCmp (compareLex (compareOn Edge.waiter) (compareOn Edge.holder)))

instance : Std.LawfulEqOrd Edge where
  eq_of_compare {a b} h := by
    obtain ⟨hw, hh⟩ := compareLex_eq_eq.1 h
    cases a
    cases b
    simp_all [compareOn]

theorem Edge.compare_eq_lt_iff {a b : Edge} : compare a b = .lt ↔
    a.waiter < b.waiter ∨ a.waiter = b.waiter ∧ a.holder < b.holder := by
  change compareLex (compareOn Edge.waiter) (compareOn Edge.holder) a b = .lt ↔ _
  simp [compareLex, compareOn, Ordering.then_eq_lt, Nat.compare_eq_lt]

theorem Edge.nodup_of_ascending {es : List Edge}
    (ascending : es.Pairwise fun a b => compare a b = .lt) : es.Nodup :=
  ascending.imp fun lt same => by simp [same] at lt

/-- Lists in strictly ascending order are told apart by their members. -/
theorem Edge.eq_of_ascending {es es' : List Edge}
    (ascending : es.Pairwise fun a b => compare a b = .lt)
    (ascending' : es'.Pairwise fun a b => compare a b = .lt) (same : ∀ e, e ∈ es ↔ e ∈ es') :
    es = es' := by
  have perm : es.Perm es' := (List.perm_ext_iff_of_nodup (nodup_of_ascending ascending)
    (nodup_of_ascending ascending')).2 same
  refine perm.eq_of_pairwise (fun a b _ _ lt gt => ?_) ascending ascending'
  exact absurd gt (Std.OrientedCmp.not_lt_of_lt lt)

structure WaitGraph where
  edges : Std.ExtTreeSet Edge compare := ∅
deriving DecidableEq

namespace WaitGraph

def empty : WaitGraph := {}

instance : EmptyCollection WaitGraph := ⟨empty⟩

instance : Inhabited WaitGraph := ⟨empty⟩

instance : Membership Edge WaitGraph := ⟨fun g e => e ∈ g.edges⟩

instance (e : Edge) (g : WaitGraph) : Decidable (e ∈ g) :=
  inferInstanceAs (Decidable (e ∈ g.edges))

def insert (g : WaitGraph) (e : Edge) : WaitGraph := ⟨g.edges.insert e⟩

def erase (g : WaitGraph) (e : Edge) : WaitGraph := ⟨g.edges.erase e⟩

/-- Takes out every edge that touches the transaction. -/
def eraseVertex (g : WaitGraph) (v : TxnId) : WaitGraph :=
  ⟨g.edges.filter fun e => e.waiter != v && e.holder != v⟩

def ofList (es : List Edge) : WaitGraph := es.foldl insert empty

def toList (g : WaitGraph) : List Edge := g.edges.toList

def isEmpty (g : WaitGraph) : Bool := g.edges.isEmpty

/-- Number of edges. -/
def size (g : WaitGraph) : Nat := g.edges.size

/-- Whom a transaction waits for, ascending. -/
def holders (g : WaitGraph) (v : TxnId) : List TxnId :=
  (g.toList.filter (·.waiter == v)).map (·.holder)

/-- Every transaction that waits for somebody, ascending, once for each edge. -/
def waiters (g : WaitGraph) : List TxnId :=
  g.toList.map (·.waiter)

/-- A ring of `n` transactions, each waiting for the next and the last for the first. -/
def ring (n : Nat) : WaitGraph :=
  ofList ((List.range n).map fun v => ⟨v, (v + 1) % n⟩)

theorem mem_edges {g : WaitGraph} {e : Edge} : e ∈ g.edges ↔ e ∈ g := Iff.rfl

@[ext]
theorem ext {g h : WaitGraph} (same : ∀ e, e ∈ g ↔ e ∈ h) : g = h := by
  cases g
  cases h
  exact congrArg mk (Std.ExtTreeSet.ext_mem same)

@[simp]
theorem not_mem_empty (e : Edge) : e ∉ (∅ : WaitGraph) := Std.ExtTreeSet.not_mem_empty

@[simp]
theorem mem_insert {g : WaitGraph} {e x : Edge} : x ∈ g.insert e ↔ x = e ∨ x ∈ g := by
  simp [insert, ← mem_edges, Std.ExtTreeSet.mem_insert, @eq_comm _ x e]

theorem mem_ofList {es : List Edge} {e : Edge} : e ∈ ofList es ↔ e ∈ es := by
  have adds (g : WaitGraph) : e ∈ es.foldl insert g ↔ e ∈ g ∨ e ∈ es := by
    induction es generalizing g with
    | nil => simp
    | cons a es ih => rw [List.foldl_cons, ih, mem_insert, List.mem_cons, or_assoc, or_left_comm]
  exact (adds _).trans (or_iff_right (not_mem_empty e))

@[simp]
theorem mem_erase {g : WaitGraph} {e x : Edge} : x ∈ g.erase e ↔ x ≠ e ∧ x ∈ g := by
  simp [erase, ← mem_edges, Std.ExtTreeSet.mem_erase, @eq_comm _ x e]

@[simp]
theorem mem_eraseVertex {g : WaitGraph} {v : TxnId} {x : Edge} :
    x ∈ g.eraseVertex v ↔ x.waiter ≠ v ∧ x.holder ≠ v ∧ x ∈ g := by
  simp [eraseVertex, ← mem_edges, Std.ExtTreeSet.mem_filter, and_comm]

@[simp]
theorem mem_toList {g : WaitGraph} {e : Edge} : e ∈ g.toList ↔ e ∈ g :=
  Std.ExtTreeSet.mem_toList

theorem toList_ordered (g : WaitGraph) :
    g.toList.Pairwise fun a b => compare a b = .lt :=
  Std.ExtTreeSet.ordered_toList

theorem length_toList (g : WaitGraph) : g.toList.length = g.size :=
  Std.ExtTreeSet.length_toList

theorem isEmpty_iff {g : WaitGraph} : g.isEmpty = true ↔ ∀ e, e ∉ g := by
  constructor
  · intro h e
    simp [← mem_edges, Std.ExtTreeSet.isEmpty_iff.1 h]
  · intro h
    exact Std.ExtTreeSet.isEmpty_iff.2 (congrArg edges (ext (g := g) (h := ∅) (by simpa using h)))

@[simp]
theorem mem_holders {g : WaitGraph} {v w : TxnId} : w ∈ g.holders v ↔ ⟨v, w⟩ ∈ g := by
  constructor
  · intro h
    simp only [holders, List.mem_map, List.mem_filter, mem_toList, beq_iff_eq] at h
    obtain ⟨e, ⟨he, rfl⟩, rfl⟩ := h
    exact he
  · intro h
    simpa [holders] using ⟨⟨v, w⟩, ⟨h, rfl⟩, rfl⟩

theorem mem_waiters {g : WaitGraph} {v : TxnId} : v ∈ g.waiters ↔ ∃ w, ⟨v, w⟩ ∈ g := by
  constructor
  · intro h
    simp only [waiters, List.mem_map, mem_toList] at h
    obtain ⟨e, he, rfl⟩ := h
    exact ⟨e.holder, he⟩
  · rintro ⟨w, h⟩
    simpa [waiters] using ⟨⟨v, w⟩, h, rfl⟩

end WaitGraph

end TwoPhaseLocking
