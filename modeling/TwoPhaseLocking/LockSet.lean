import Std.Data.ExtTreeSet
import TwoPhaseLocking.Resource

/-! # The locks of one transaction

A lock is a resource with the mode it is held in, and a lock set is a finite set of locks.
The set lists its locks in the order in which they are given back when a transaction
ends: rows before tables, and each of these by mode.
-/

namespace TwoPhaseLocking

structure Lock where
  resource : Resource
  mode : Mode
deriving DecidableEq, Repr, Inhabited

namespace Lock

def kind (l : Lock) : Nat :=
  if l.resource.isRow then 0 else 1

def page (l : Lock) : Nat :=
  match l.resource with
  | .table _ => 0
  | .row _ r => r.page

def slot (l : Lock) : Nat :=
  match l.resource with
  | .table _ => 0
  | .row _ r => r.slot

/-- Rows first, then by mode, table, page and slot. -/
def order : Lock → Lock → Ordering :=
  compareLex (compareOn kind) (compareLex (compareOn fun l => l.mode.index)
    (compareLex (compareOn fun l => l.resource.tableId)
      (compareLex (compareOn page) (compareOn slot))))

instance : Std.TransCmp order :=
  inferInstanceAs (Std.TransCmp (compareLex (compareOn kind)
    (compareLex (compareOn fun l => l.mode.index)
      (compareLex (compareOn fun l => l.resource.tableId)
        (compareLex (compareOn page) (compareOn slot))))))

instance : Std.LawfulEqCmp order where
  eq_of_compare {a b} h := by
    obtain ⟨hk, h⟩ := compareLex_eq_eq.1 h
    obtain ⟨hm, h⟩ := compareLex_eq_eq.1 h
    obtain ⟨ht, h⟩ := compareLex_eq_eq.1 h
    obtain ⟨hp, hs⟩ := compareLex_eq_eq.1 h
    simp only [compareOn, Std.compare_eq_iff_eq] at hk hm ht hp hs
    obtain ⟨ra, ma⟩ := a
    obtain ⟨rb, mb⟩ := b
    obtain rfl : ma = mb := Mode.index_injective hm
    rcases ra with t | ⟨t, p, s⟩ <;> rcases rb with u | ⟨u, q, r⟩ <;>
      simp_all [kind, page, slot, Resource.tableId, Resource.isRow]

/-- For instance `5:IX`, or `5/5.0:X` for a row. -/
def text (l : Lock) : String :=
  match l.resource with
  | .table t => s!"{t}:{l.mode.text}"
  | .row t r => s!"{t}/{r.page}.{r.slot}:{l.mode.text}"

end Lock

structure LockSet where
  locks : Std.ExtTreeSet Lock Lock.order := ∅
deriving DecidableEq

theorem nodup_members {α : Type} {order : α → α → Ordering} [Std.TransCmp order]
    (xs : Std.ExtTreeSet α order) : xs.toList.Nodup := by
  refine (Std.ExtTreeSet.distinct_toList (t := xs)).imp fun distinct same => ?_
  rw [same] at distinct
  exact distinct Std.ReflCmp.compare_self

namespace LockSet

instance : EmptyCollection LockSet := ⟨{}⟩

instance : Inhabited LockSet := ⟨∅⟩

instance : Membership Lock LockSet := ⟨fun s l => l ∈ s.locks⟩

instance (l : Lock) (s : LockSet) : Decidable (l ∈ s) :=
  inferInstanceAs (Decidable (l ∈ s.locks))

/-- Every lock once, in the order of release. -/
def toList (s : LockSet) : List Lock := s.locks.toList

def size (s : LockSet) : Nat := s.locks.size

def isEmpty (s : LockSet) : Bool := s.locks.isEmpty

/-- Adds a lock. An intention mode on a row is no lock and adds nothing. -/
def record (s : LockSet) (r : Resource) (m : Mode) : LockSet :=
  if r.isRow && m.isIntention then s else ⟨s.locks.insert ⟨r, m⟩⟩

/-- Takes a lock out, if the resource is held in just this mode, and says whether it was. -/
def forget (s : LockSet) (r : Resource) (m : Mode) : LockSet × Bool :=
  (⟨s.locks.erase ⟨r, m⟩⟩, s.locks.contains ⟨r, m⟩)

/-- The mode a resource is held in, the first in the order of modes if there are several. -/
def mode? (s : LockSet) (r : Resource) : Option Mode :=
  Mode.all.find? fun m => (⟨r, m⟩ : Lock) ∈ s

def hasRowsOn (s : LockSet) (t : TableId) : Bool :=
  s.toList.any fun l => l.resource.isRow && l.resource.tableId == t

def tables (s : LockSet) : List (TableId × Mode) :=
  s.toList.filterMap fun l =>
    match l.resource with
    | .table t => some (t, l.mode)
    | .row .. => none

def rows (s : LockSet) : List (TableId × RowId × Mode) :=
  s.toList.filterMap fun l =>
    match l.resource with
    | .table _ => none
    | .row t r => some (t, r, l.mode)

def tablesIn (s : LockSet) (m : Mode) : List TableId :=
  (s.tables.filter (·.2 == m)).map (·.1)

/-- The rows locked in one mode, ascending, under each table that has any. -/
def rowsIn (s : LockSet) (m : Mode) : List (TableId × List RowId) :=
  let rows := s.rows.filter (·.2.2 == m)
  (Std.ExtTreeSet.ofList (rows.map (·.1))).toList.map fun t =>
    (t, (rows.filter (·.1 == t)).map (·.2.1))

@[ext]
theorem ext {a b : LockSet} (same : ∀ l, l ∈ a ↔ l ∈ b) : a = b := by
  cases a
  cases b
  exact congrArg mk (Std.ExtTreeSet.ext_mem same)

theorem mem_locks {s : LockSet} {l : Lock} : l ∈ s.locks ↔ l ∈ s := Iff.rfl

@[simp]
theorem not_mem_empty (l : Lock) : l ∉ (∅ : LockSet) := Std.ExtTreeSet.not_mem_empty

theorem eq_empty_iff {s : LockSet} : s = ∅ ↔ ∀ l, l ∉ s := by
  refine ⟨fun empty l => empty ▸ not_mem_empty l, fun none => ?_⟩
  ext l
  exact iff_of_false (none l) (not_mem_empty l)

@[simp]
theorem mem_toList {s : LockSet} {l : Lock} : l ∈ s.toList ↔ l ∈ s :=
  Std.ExtTreeSet.mem_toList

theorem nodup_toList (s : LockSet) : s.toList.Nodup := nodup_members s.locks

/-- Rows are listed before tables. -/
theorem toList_kinds (s : LockSet) : s.toList.Pairwise fun a b => a.kind ≤ b.kind := by
  have ordered : s.toList.Pairwise fun a b => Lock.order a b = .lt := Std.ExtTreeSet.ordered_toList
  refine ordered.imp fun {a b} lt => ?_
  rcases Ordering.then_eq_lt.1 lt with lt | ⟨eq, _⟩
  · exact Nat.le_of_lt (Nat.compare_eq_lt.1 lt)
  · exact Nat.le_of_eq (Nat.compare_eq_eq.1 eq)

theorem mem_record {s : LockSet} {r : Resource} {m : Mode} {l : Lock}
    (h : r.isRow = false ∨ m.isIntention = false) :
    l ∈ s.record r m ↔ l = ⟨r, m⟩ ∨ l ∈ s := by
  have h' : (r.isRow && m.isIntention) = false := by
    rcases h with h | h <;> simp [h]
  simp [record, h', ← mem_locks, Std.ExtTreeSet.mem_insert, @eq_comm _ l]

theorem mem_record_of_mem {s : LockSet} {r : Resource} {m : Mode} {l : Lock} (there : l ∈ s) :
    l ∈ s.record r m := by
  unfold record
  split
  · exact there
  · exact Std.ExtTreeSet.mem_insert.2 (.inr there)

theorem eq_or_mem_of_mem_record {s : LockSet} {r : Resource} {m : Mode} {l : Lock}
    (there : l ∈ s.record r m) : l = ⟨r, m⟩ ∨ l ∈ s := by
  unfold record at there
  split at there
  · exact .inr there
  · simpa [← mem_locks, Std.ExtTreeSet.mem_insert, @eq_comm _ l] using there

@[simp]
theorem mem_forget {s : LockSet} {r : Resource} {m : Mode} {l : Lock} :
    l ∈ (s.forget r m).1 ↔ l ≠ ⟨r, m⟩ ∧ l ∈ s := by
  simp [forget, ← mem_locks, Std.ExtTreeSet.mem_erase, @eq_comm _ l]

@[simp]
theorem forget_snd {s : LockSet} {r : Resource} {m : Mode} :
    (s.forget r m).2 = decide ((⟨r, m⟩ : Lock) ∈ s) := by
  simp [forget, ← mem_locks, ← Std.ExtTreeSet.contains_iff_mem]

theorem mem_of_mode? {s : LockSet} {r : Resource} {m : Mode} (h : s.mode? r = some m) :
    (⟨r, m⟩ : Lock) ∈ s := by
  simpa using List.find?_some h

theorem mode?_eq_none_iff {s : LockSet} {r : Resource} :
    s.mode? r = none ↔ ∀ m, (⟨r, m⟩ : Lock) ∉ s := by
  simp [mode?, Mode.mem_all]

/-- A resource with a lock on it is held in some mode. -/
theorem exists_mode? {s : LockSet} {r : Resource} {m : Mode} (there : (⟨r, m⟩ : Lock) ∈ s) :
    ∃ m', s.mode? r = some m' :=
  Option.ne_none_iff_exists'.1 fun none => mode?_eq_none_iff.1 none m there

theorem hasRowsOn_iff {s : LockSet} {t : TableId} :
    s.hasRowsOn t = true ↔ ∃ r m, (⟨.row t r, m⟩ : Lock) ∈ s := by
  simp only [hasRowsOn, List.any_eq_true, mem_toList, Bool.and_eq_true, beq_iff_eq]
  constructor
  · rintro ⟨⟨r | ⟨t, r⟩, m⟩, hl, hr, rfl⟩
    · simp [Resource.isRow] at hr
    · exact ⟨r, m, hl⟩
  · rintro ⟨r, m, h⟩
    exact ⟨_, h, rfl, rfl⟩

end LockSet

end TwoPhaseLocking
