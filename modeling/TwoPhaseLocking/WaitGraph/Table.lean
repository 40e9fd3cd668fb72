import Std.Data.ExtTreeMap
import TwoPhaseLocking.WaitGraph

/-! # Wait-for graphs as tables

A graph can also be kept as a table that says for each waiter whom he waits for. Whoever waits for
nobody has no entry there: an empty one would show in no list of edges, but the table would not be
empty, and would differ from one with the same edges. So an edit that empties an entry strikes it.
-/

namespace TwoPhaseLocking

/-- Those whom a transaction waits for. -/
abbrev Holders := Std.ExtTreeSet TxnId compare

/-- An entry as it is kept, if there is anybody in it. -/
def Holders.kept? (ws : Holders) : Option Holders :=
  if ws.isEmpty then none else some ws

structure WaitTable where
  entries : Std.ExtTreeMap TxnId Holders compare := ∅
  /-- Whoever has an entry waits for somebody. -/
  occupied : ∀ (v : TxnId) (ws : Holders), entries[v]? = some ws → ws ≠ ∅ := by simp
deriving DecidableEq

namespace Holders

theorem ne_empty_of_kept? {ws us : Holders} (kept : kept? ws = some us) : us ≠ ∅ := by
  unfold kept? at kept
  split at kept
  · cases kept
  · rename_i some
    rw [← Option.some.inj kept]
    exact fun empty => some (Std.ExtTreeSet.isEmpty_iff.2 empty)

@[simp]
theorem getD_kept? (ws : Holders) : (kept? ws).getD ∅ = ws := by
  unfold kept?
  split
  · rename_i empty
    exact (Std.ExtTreeSet.isEmpty_iff.1 empty).symm
  · rfl

end Holders

namespace WaitTable

instance : EmptyCollection WaitTable := ⟨{}⟩

instance : Inhabited WaitTable := ⟨∅⟩

/-- Whom a transaction waits for. -/
def holders (t : WaitTable) (v : TxnId) : Holders := t.entries[v]?.getD ∅

instance : Membership Edge WaitTable := ⟨fun t e => e.holder ∈ t.holders e.waiter⟩

instance (e : Edge) (t : WaitTable) : Decidable (e ∈ t) :=
  inferInstanceAs (Decidable (e.holder ∈ t.holders e.waiter))

def insert (t : WaitTable) (e : Edge) : WaitTable where
  entries := t.entries.insert e.waiter ((t.holders e.waiter).insert e.holder)
  occupied v ws there := by
    rw [Std.ExtTreeMap.getElem?_insert] at there
    split at there
    · rw [← Option.some.inj there]
      exact Std.ExtTreeSet.insert_ne_empty
    · exact t.occupied v ws there

def erase (t : WaitTable) (e : Edge) : WaitTable where
  entries := t.entries.alter e.waiter fun ws? => ws?.bind fun ws => Holders.kept? (ws.erase e.holder)
  occupied v ws there := by
    rw [Std.ExtTreeMap.getElem?_alter] at there
    split at there
    · obtain ⟨us, -, kept⟩ := Option.bind_eq_some_iff.1 there
      exact Holders.ne_empty_of_kept? kept
    · exact t.occupied v ws there

/-- Strikes the entry of the transaction, and the transaction from all others. -/
def eraseVertex (t : WaitTable) (v : TxnId) : WaitTable where
  entries := (t.entries.erase v).filterMap fun _ ws => Holders.kept? (ws.erase v)
  occupied u ws there := by
    rw [Std.ExtTreeMap.getElem?_filterMap'] at there
    obtain ⟨us, -, kept⟩ := Option.bind_eq_some_iff.1 there
    exact Holders.ne_empty_of_kept? kept

def isEmpty (t : WaitTable) : Bool := t.entries.isEmpty

def toList (t : WaitTable) : List Edge :=
  t.entries.toList.flatMap fun (v, ws) => ws.toList.map (⟨v, ·⟩)

theorem mem_holders {t : WaitTable} {v w : TxnId} : w ∈ t.holders v ↔ ⟨v, w⟩ ∈ t := Iff.rfl

@[simp]
theorem not_mem_empty (e : Edge) : e ∉ (∅ : WaitTable) := Std.ExtTreeSet.not_mem_empty

theorem holders_insert (t : WaitTable) (e : Edge) (v : TxnId) : (t.insert e).holders v =
    if e.waiter = v then (t.holders e.waiter).insert e.holder else t.holders v := by
  simp only [holders, insert, Std.ExtTreeMap.getElem?_insert, Std.compare_eq_iff_eq]
  split <;> rfl

theorem holders_erase (t : WaitTable) (e : Edge) (v : TxnId) : (t.erase e).holders v =
    if e.waiter = v then (t.holders e.waiter).erase e.holder else t.holders v := by
  simp only [holders, erase, Std.ExtTreeMap.getElem?_alter, Std.compare_eq_iff_eq]
  split
  · cases t.entries[e.waiter]? <;> simp
  · rfl

theorem holders_eraseVertex (t : WaitTable) (v u : TxnId) : (t.eraseVertex v).holders u =
    if v = u then ∅ else (t.holders u).erase v := by
  simp only [holders, eraseVertex, Std.ExtTreeMap.getElem?_filterMap',
    Std.ExtTreeMap.getElem?_erase, Std.compare_eq_iff_eq]
  split
  · rfl
  · cases t.entries[u]? <;> simp

@[simp]
theorem mem_insert {t : WaitTable} {e x : Edge} : x ∈ t.insert e ↔ x = e ∨ x ∈ t := by
  obtain ⟨v, w⟩ := x
  obtain ⟨v', w'⟩ := e
  rw [← mem_holders, ← mem_holders, holders_insert]
  by_cases same : v' = v
  · simp [same, Std.ExtTreeSet.mem_insert, @eq_comm _ w]
  · simp [same, Ne.symm same]

@[simp]
theorem mem_erase {t : WaitTable} {e x : Edge} : x ∈ t.erase e ↔ x ≠ e ∧ x ∈ t := by
  obtain ⟨v, w⟩ := x
  obtain ⟨v', w'⟩ := e
  rw [← mem_holders, ← mem_holders, holders_erase]
  by_cases same : v' = v
  · simp [same, Std.ExtTreeSet.mem_erase, @eq_comm _ w]
  · simp [same, Ne.symm same]

@[simp]
theorem mem_eraseVertex {t : WaitTable} {v : TxnId} {x : Edge} :
    x ∈ t.eraseVertex v ↔ x.waiter ≠ v ∧ x.holder ≠ v ∧ x ∈ t := by
  obtain ⟨u, w⟩ := x
  rw [← mem_holders, ← mem_holders, holders_eraseVertex]
  by_cases same : v = u
  · simp [same]
  · simp [same, Ne.symm same, Std.ExtTreeSet.mem_erase, @eq_comm _ w]

/-- What an entry is can be told from whom its transaction waits for. -/
theorem getElem?_entries (t : WaitTable) (v : TxnId) :
    t.entries[v]? = Holders.kept? (t.holders v) := by
  unfold holders
  cases there : t.entries[v]? with
  | none => simp [Holders.kept?]
  | some ws =>
    have some : ws.isEmpty = false := Std.ExtTreeSet.isEmpty_eq_false_iff.2 (t.occupied v ws there)
    simp [Holders.kept?, some]

/-- A table is no more than its edges. -/
@[ext]
theorem ext {t u : WaitTable} (same : ∀ e, e ∈ t ↔ e ∈ u) : t = u := by
  have entries : t.entries = u.entries := by
    refine Std.ExtTreeMap.ext_getElem? fun v => ?_
    have holders : t.holders v = u.holders v := Std.ExtTreeSet.ext_mem fun w => same ⟨v, w⟩
    rw [getElem?_entries, getElem?_entries, holders]
  cases t
  cases u
  cases entries
  rfl

theorem isEmpty_iff {t : WaitTable} : t.isEmpty = true ↔ ∀ e, e ∉ t := by
  constructor
  · intro h e there
    rw [← mem_holders (v := e.waiter), holders, Std.ExtTreeMap.isEmpty_iff.1 h] at there
    exact not_mem_empty e there
  · intro h
    have empty : t = ∅ := ext fun e => iff_of_false (h e) (not_mem_empty e)
    rw [empty]
    rfl

@[simp]
theorem mem_toList {t : WaitTable} {e : Edge} : e ∈ t.toList ↔ e ∈ t := by
  obtain ⟨v, w⟩ := e
  simp only [toList, List.mem_flatMap, List.mem_map, Prod.exists,
    Std.ExtTreeMap.mem_toList_iff_getElem?_eq_some, Std.ExtTreeSet.mem_toList, Edge.mk.injEq]
  rw [← mem_holders, holders]
  constructor
  · rintro ⟨v, ws, entry, w, there, rfl, rfl⟩
    rw [entry]
    exact there
  · intro there
    cases entry : t.entries[v]? with
    | none =>
      rw [entry] at there
      exact absurd there Std.ExtTreeSet.not_mem_empty
    | some ws =>
      rw [entry] at there
      exact ⟨v, ws, entry, w, there, rfl, rfl⟩

/-- The table is in the order of waiters, and each entry in the order of holders. -/
theorem toList_ordered (t : WaitTable) :
    t.toList.Pairwise fun a b => compare a b = .lt := by
  refine List.pairwise_flatMap.2 ⟨fun (v, ws) _ => ?_, ?_⟩
  · have entry : ws.toList.Pairwise fun a b => compare a b = .lt := Std.ExtTreeSet.ordered_toList
    refine List.pairwise_map.2 (entry.imp fun lt => ?_)
    exact Edge.compare_eq_lt_iff.2 (.inr ⟨rfl, Nat.compare_eq_lt.1 lt⟩)
  · have table : t.entries.toList.Pairwise fun a b => compare a.1 b.1 = .lt :=
      Std.ExtTreeMap.ordered_keys_toList
    refine table.imp fun lt a ha b hb => ?_
    obtain ⟨w, -, rfl⟩ := List.mem_map.1 ha
    obtain ⟨w', -, rfl⟩ := List.mem_map.1 hb
    exact Edge.compare_eq_lt_iff.2 (.inl (Nat.compare_eq_lt.1 lt))

end WaitTable

end TwoPhaseLocking
