import Mathlib.Algebra.GroupWithZero.Nat
import Mathlib.Data.List.Nodup
import TwoPhaseLocking.LockSet

/-! # Lock sets by mode

The locks of a transaction can also be kept apart by mode: a set of tables for each of the five
modes, and for each of the two in which a row can be held a map from tables to sets of rows. A table
none of whose rows is held has no entry there: it would show in no list of rows, but in the map
itself.
-/

namespace TwoPhaseLocking

abbrev TableSet := Std.ExtTreeSet TableId compare

abbrev RowSet := Std.ExtTreeSet RowId compare

/-- Rows under the tables they belong to. -/
structure RowTable where
  entries : Std.ExtTreeMap TableId RowSet compare := ∅
  /-- Whatever table has an entry has a row there. -/
  occupied : ∀ (t : TableId) (rs : RowSet), entries[t]? = some rs → rs ≠ ∅ := by simp
deriving DecidableEq

namespace RowTable

instance : EmptyCollection RowTable := ⟨{}⟩

instance : Inhabited RowTable := ⟨∅⟩

def under (rows : RowTable) (t : TableId) : RowSet := rows.entries[t]?.getD ∅

def insert (rows : RowTable) (t : TableId) (r : RowId) : RowTable where
  entries := rows.entries.insert t ((rows.under t).insert r)
  occupied u rs there := by
    rw [Std.ExtTreeMap.getElem?_insert] at there
    split at there
    · rw [← Option.some.inj there]
      exact Std.ExtTreeSet.insert_ne_empty
    · exact rows.occupied u rs there

/-- Takes a row out, and with the last row of a table its entry. -/
def erase (rows : RowTable) (t : TableId) (r : RowId) : RowTable where
  entries := rows.entries.alter t fun rs? => (rs?.map (·.erase r)).filter (!·.isEmpty)
  occupied u rs there := by
    rw [Std.ExtTreeMap.getElem?_alter] at there
    split at there
    · have some := (Option.filter_eq_some_iff.1 there).2
      rintro rfl
      simp at some
    · exact rows.occupied u rs there

def hasRowsOn (rows : RowTable) (t : TableId) : Bool :=
  rows.entries[t]?.any (!·.isEmpty)

def toList (rows : RowTable) : List (TableId × RowId) :=
  rows.entries.toList.flatMap fun (t, rs) => rs.toList.map (t, ·)

/-- Number of rows. -/
def size (rows : RowTable) : Nat := (rows.entries.toList.map (·.2.size)).sum

variable {rows : RowTable} {t u : TableId} {r x : RowId}

@[simp]
theorem under_empty (t : TableId) : (∅ : RowTable).under t = ∅ := rfl

theorem under_insert (rows : RowTable) (t u : TableId) (r : RowId) : (rows.insert t r).under u =
    if t = u then (rows.under t).insert r else rows.under u := by
  simp only [under, insert, Std.ExtTreeMap.getElem?_insert, Std.compare_eq_iff_eq]
  split <;> rfl

theorem under_erase (rows : RowTable) (t u : TableId) (r : RowId) : (rows.erase t r).under u =
    if t = u then (rows.under t).erase r else rows.under u := by
  simp only [under, erase, Std.ExtTreeMap.getElem?_alter, Std.compare_eq_iff_eq]
  split
  · cases rows.entries[t]? with
    | none => simp
    | some rs =>
      cases left : (rs.erase r).isEmpty with
      | true => simp [Option.filter, Std.ExtTreeSet.isEmpty_iff.1 left]
      | false => simp [Option.filter, left]
  · rfl

@[simp]
theorem mem_under_insert : x ∈ (rows.insert t r).under u ↔ u = t ∧ x = r ∨ x ∈ rows.under u := by
  rw [under_insert]
  by_cases here : t = u
  · simp [here, Std.ExtTreeSet.mem_insert, @eq_comm _ r]
  · simp [here, Ne.symm here]

@[simp]
theorem mem_under_erase : x ∈ (rows.erase t r).under u ↔
    ¬ (u = t ∧ x = r) ∧ x ∈ rows.under u := by
  rw [under_erase]
  by_cases here : t = u
  · simp [here, Std.ExtTreeSet.mem_erase, @eq_comm _ r]
  · simp [here, Ne.symm here]

theorem mem_under : r ∈ rows.under t ↔ ∃ rs, rows.entries[t]? = some rs ∧ r ∈ rs := by
  unfold under
  cases rows.entries[t]? <;> simp

theorem hasRowsOn_iff : rows.hasRowsOn t = true ↔ ∃ r, r ∈ rows.under t := by
  unfold hasRowsOn under
  cases rows.entries[t]? with
  | none => simp
  | some rs =>
    simp [Std.ExtTreeSet.isEmpty_eq_false_iff, Std.ExtTreeSet.eq_empty_iff_forall_not_mem]

@[simp]
theorem mem_toList : (t, r) ∈ rows.toList ↔ r ∈ rows.under t := by
  simp only [toList, List.mem_flatMap, List.mem_map, Prod.exists,
    Std.ExtTreeMap.mem_toList_iff_getElem?_eq_some, Std.ExtTreeSet.mem_toList, Prod.mk.injEq,
    mem_under]
  constructor
  · rintro ⟨_, rs, entry, _, there, rfl, rfl⟩
    exact ⟨rs, entry, there⟩
  · rintro ⟨rs, entry, there⟩
    exact ⟨t, rs, entry, r, there, rfl, rfl⟩

theorem nodup_toList (rows : RowTable) : rows.toList.Nodup := by
  have tables : rows.entries.toList.Pairwise fun a b => a.1 ≠ b.1 :=
    (Std.ExtTreeMap.distinct_keys_toList (t := rows.entries)).imp fun distinct same =>
      distinct (Std.compare_eq_iff_eq.2 same)
  refine List.pairwise_flatMap.2 ⟨fun (t, rs) _ => ?_, tables.imp fun distinct a ha b hb same => ?_⟩
  · exact (nodup_members rs).map fun _ _ same => (Prod.mk.inj same).2
  · obtain ⟨r, -, rfl⟩ := List.mem_map.1 ha
    obtain ⟨r', -, rfl⟩ := List.mem_map.1 hb
    exact distinct (Prod.mk.inj same).1

theorem length_toList (rows : RowTable) : rows.toList.length = rows.size := by
  simp only [toList, size, List.length_flatMap, List.length_map, Std.ExtTreeSet.length_toList]

end RowTable

structure LockSheet where
  sharedTables : TableSet := ∅
  exclusiveTables : TableSet := ∅
  intentionSharedTables : TableSet := ∅
  intentionExclusiveTables : TableSet := ∅
  sharedIntentionExclusiveTables : TableSet := ∅
  sharedRows : RowTable := ∅
  exclusiveRows : RowTable := ∅
deriving DecidableEq

namespace LockSheet

instance : EmptyCollection LockSheet := ⟨{}⟩

instance : Inhabited LockSheet := ⟨∅⟩

def tableSet (s : LockSheet) : Mode → TableSet
  | .shared => s.sharedTables
  | .exclusive => s.exclusiveTables
  | .intentionShared => s.intentionSharedTables
  | .intentionExclusive => s.intentionExclusiveTables
  | .sharedIntentionExclusive => s.sharedIntentionExclusiveTables

def updateTableSet (s : LockSheet) (f : TableSet → TableSet) : Mode → LockSheet
  | .shared => { s with sharedTables := f s.sharedTables }
  | .exclusive => { s with exclusiveTables := f s.exclusiveTables }
  | .intentionShared => { s with intentionSharedTables := f s.intentionSharedTables }
  | .intentionExclusive => { s with intentionExclusiveTables := f s.intentionExclusiveTables }
  | .sharedIntentionExclusive =>
    { s with sharedIntentionExclusiveTables := f s.sharedIntentionExclusiveTables }

/-- There are no rows in an intention mode, and no place for them. -/
def rowTable (s : LockSheet) : Mode → RowTable
  | .shared => s.sharedRows
  | .exclusive => s.exclusiveRows
  | .intentionShared | .intentionExclusive | .sharedIntentionExclusive => ∅

def updateRowTable (s : LockSheet) (f : RowTable → RowTable) : Mode → LockSheet
  | .shared => { s with sharedRows := f s.sharedRows }
  | .exclusive => { s with exclusiveRows := f s.exclusiveRows }
  | .intentionShared | .intentionExclusive | .sharedIntentionExclusive => s

instance : Membership Lock LockSheet where
  mem s l :=
    match l.resource with
    | .table t => t ∈ s.tableSet l.mode
    | .row t r => r ∈ (s.rowTable l.mode).under t

instance (l : Lock) (s : LockSheet) : Decidable (l ∈ s) :=
  match l with
  | ⟨.table t, m⟩ => inferInstanceAs (Decidable (t ∈ s.tableSet m))
  | ⟨.row t r, m⟩ => inferInstanceAs (Decidable (r ∈ (s.rowTable m).under t))

def record (s : LockSheet) : Resource → Mode → LockSheet
  | .table t, m => s.updateTableSet (·.insert t) m
  | .row t r, m => s.updateRowTable (·.insert t r) m

/-- Takes a lock out, if the resource is held in just this mode, and says whether it was. -/
def forget (s : LockSheet) : Resource → Mode → LockSheet × Bool
  | .table t, m => (s.updateTableSet (·.erase t) m, (s.tableSet m).contains t)
  | .row t r, m => (s.updateRowTable (·.erase t r) m, ((s.rowTable m).under t).contains r)

/-- The mode a resource is held in, the first in the order of modes if there are several. -/
def mode? (s : LockSheet) : Resource → Option Mode
  | .table t => Mode.all.find? fun m => (s.tableSet m).contains t
  | .row t r => [.shared, .exclusive].find? fun m => ((s.rowTable m).under t).contains r

def hasRowsOn (s : LockSheet) (t : TableId) : Bool :=
  s.sharedRows.hasRowsOn t || s.exclusiveRows.hasRowsOn t

def tables (s : LockSheet) : List (TableId × Mode) :=
  Mode.all.flatMap fun m => (s.tableSet m).toList.map (·, m)

def rows (s : LockSheet) : List (TableId × RowId × Mode) :=
  [.shared, .exclusive].flatMap fun m => (s.rowTable m).toList.map fun (t, r) => (t, r, m)

def size (s : LockSheet) : Nat :=
  (Mode.all.map fun m => (s.tableSet m).size).sum + (s.sharedRows.size + s.exclusiveRows.size)

def isEmpty (s : LockSheet) : Bool := s.size == 0

def tablesIn (s : LockSheet) (m : Mode) : List TableId := (s.tableSet m).toList

/-- The rows held in one mode, under each table that has an entry. -/
def rowsIn (s : LockSheet) (m : Mode) : List (TableId × List RowId) :=
  (s.rowTable m).entries.toList.map fun (t, rs) => (t, rs.toList)

variable {s : LockSheet} {r : Resource} {m m' : Mode} {l : Lock} {t : TableId} {x : RowId}

theorem tableSet_updateTableSet (s : LockSheet) (f : TableSet → TableSet) (m m' : Mode) :
    (s.updateTableSet f m).tableSet m' = if m = m' then f (s.tableSet m) else s.tableSet m' := by
  cases m <;> cases m' <;> rfl

@[simp]
theorem rowTable_updateTableSet (s : LockSheet) (f : TableSet → TableSet) (m m' : Mode) :
    (s.updateTableSet f m).rowTable m' = s.rowTable m' := by
  cases m <;> rfl

@[simp]
theorem tableSet_updateRowTable (s : LockSheet) (f : RowTable → RowTable) (m m' : Mode) :
    (s.updateRowTable f m).tableSet m' = s.tableSet m' := by
  cases m <;> rfl

theorem rowTable_updateRowTable (s : LockSheet) (f : RowTable → RowTable) (m m' : Mode) :
    (s.updateRowTable f m).rowTable m' =
      if m = m' ∧ m.isIntention = false then f (s.rowTable m) else s.rowTable m' := by
  cases m <;> cases m' <;> rfl

theorem rowTable_eq_empty (announces : m.isIntention = true) : s.rowTable m = ∅ := by
  cases m <;> first | rfl | cases announces

theorem mem_table : (⟨.table t, m⟩ : Lock) ∈ s ↔ t ∈ s.tableSet m := Iff.rfl

theorem mem_row : (⟨.row t x, m⟩ : Lock) ∈ s ↔ x ∈ (s.rowTable m).under t := Iff.rfl

theorem isIntention_of_mem_row (there : x ∈ (s.rowTable m).under t) : m.isIntention = false := by
  refine Bool.eq_false_iff.2 fun announces => ?_
  rw [rowTable_eq_empty announces] at there
  exact Std.ExtTreeSet.not_mem_empty there

@[simp]
theorem not_mem_empty (l : Lock) : l ∉ (∅ : LockSheet) := by
  obtain ⟨_ | _, m⟩ := l <;> cases m <;> exact Std.ExtTreeSet.not_mem_empty

theorem mem_record (plain : r.isRow = false ∨ m.isIntention = false) :
    l ∈ s.record r m ↔ l = ⟨r, m⟩ ∨ l ∈ s := by
  obtain ⟨r', m'⟩ := l
  rw [Lock.mk.injEq]
  by_cases same : m = m'
  · subst same
    cases r with
    | table t =>
      cases r' with
      | table u =>
        simp [record, mem_table, tableSet_updateTableSet, Std.ExtTreeSet.mem_insert, @eq_comm _ t]
      | row => simp [record, mem_row]
    | row t x =>
      have shown : m.isIntention = false := plain.resolve_left (by simp [Resource.isRow])
      cases r' with
      | table => simp [record, mem_table]
      | row => simp [record, mem_row, rowTable_updateRowTable, shown]
  · cases r <;> cases r' <;>
      simp [record, mem_table, mem_row, tableSet_updateTableSet, rowTable_updateRowTable, same,
        Ne.symm same]

@[simp]
theorem mem_forget : l ∈ (s.forget r m).1 ↔ l ≠ ⟨r, m⟩ ∧ l ∈ s := by
  obtain ⟨r', m'⟩ := l
  rw [ne_eq, Lock.mk.injEq]
  by_cases same : m = m'
  · subst same
    cases r with
    | table t =>
      cases r' with
      | table u =>
        simp [forget, mem_table, tableSet_updateTableSet, Std.ExtTreeSet.mem_erase, @eq_comm _ t]
      | row => simp [forget, mem_row]
    | row t x =>
      cases r' with
      | table => simp [forget, mem_table]
      | row u y =>
        cases announces : m.isIntention with
        | true => simp [forget, mem_row, rowTable_eq_empty announces]
        | false => simp [forget, mem_row, rowTable_updateRowTable, announces]
  · cases r <;> cases r' <;>
      simp [forget, mem_table, mem_row, tableSet_updateTableSet, rowTable_updateRowTable, same,
        Ne.symm same]

@[simp]
theorem forget_snd : (s.forget r m).2 = decide ((⟨r, m⟩ : Lock) ∈ s) := by
  cases r <;> simp [forget, mem_table, mem_row, ← Std.ExtTreeSet.contains_iff_mem]

theorem mem_of_mode? (held : s.mode? r = some m) : (⟨r, m⟩ : Lock) ∈ s := by
  cases r with
  | table t => simpa [mem_table] using List.find?_some held
  | row t x => simpa [mem_row] using List.find?_some held

theorem mem_rowModes (there : x ∈ (s.rowTable m).under t) : m ∈ [Mode.shared, .exclusive] := by
  have shown := isIntention_of_mem_row there
  cases m <;> first | decide | cases shown

theorem not_mem_of_mode? (free : s.mode? r = none) : (⟨r, m⟩ : Lock) ∉ s := by
  intro there
  cases r with
  | table t =>
    have absent := List.find?_eq_none.1 free m (Mode.mem_all m)
    exact absent (Std.ExtTreeSet.contains_iff_mem.2 there)
  | row t x =>
    have absent := List.find?_eq_none.1 free m (mem_rowModes there)
    exact absent (Std.ExtTreeSet.contains_iff_mem.2 there)

theorem hasRowsOn_iff : s.hasRowsOn t = true ↔ ∃ x m, (⟨.row t x, m⟩ : Lock) ∈ s := by
  simp only [hasRowsOn, Bool.or_eq_true, RowTable.hasRowsOn_iff, mem_row]
  constructor
  · rintro (⟨x, there⟩ | ⟨x, there⟩)
    · exact ⟨x, .shared, there⟩
    · exact ⟨x, .exclusive, there⟩
  · rintro ⟨x, m, there⟩
    cases m with
    | shared => exact .inl ⟨x, there⟩
    | exclusive => exact .inr ⟨x, there⟩
    | _ => exact absurd there Std.ExtTreeSet.not_mem_empty

theorem mem_tables : (t, m) ∈ s.tables ↔ (⟨.table t, m⟩ : Lock) ∈ s := by
  simp only [tables, List.mem_flatMap, List.mem_map, Std.ExtTreeSet.mem_toList, Prod.mk.injEq,
    mem_table]
  constructor
  · rintro ⟨_, -, _, there, rfl, rfl⟩
    exact there
  · exact fun there => ⟨m, Mode.mem_all m, t, there, rfl, rfl⟩

theorem mem_rows : (t, x, m) ∈ s.rows ↔ (⟨.row t x, m⟩ : Lock) ∈ s := by
  simp only [rows, List.mem_flatMap, List.mem_map, Prod.exists, RowTable.mem_toList, Prod.mk.injEq,
    mem_row]
  constructor
  · rintro ⟨_, -, _, _, there, rfl, rfl, rfl⟩
    exact there
  · exact fun there => ⟨m, mem_rowModes there, t, x, there, rfl, rfl, rfl⟩

/-- Lists that tell their modes apart make up one without repetitions. -/
theorem nodup_flatMap {α : Type} {f : Mode → List α} {ms : List Mode} (mode : α → Mode)
    (each : ∀ m, (f m).Nodup) (tells : ∀ m, ∀ a ∈ f m, mode a = m) (distinct : ms.Nodup) :
    (ms.flatMap f).Nodup := by
  refine List.pairwise_flatMap.2 ⟨fun m _ => each m, distinct.imp fun ne a ha b hb same => ne ?_⟩
  rw [← tells _ a ha, ← tells _ b hb, same]

theorem nodup_tables (s : LockSheet) : s.tables.Nodup := by
  refine nodup_flatMap (·.2) (fun m => ?_) (fun m a ha => ?_) (by decide)
  · exact (nodup_members (s.tableSet m)).map fun _ _ same => (Prod.mk.inj same).1
  · obtain ⟨t, -, rfl⟩ := List.mem_map.1 ha
    rfl

theorem nodup_rows (s : LockSheet) : s.rows.Nodup := by
  refine nodup_flatMap (·.2.2) (fun m => ?_) (fun m a ha => ?_) (by decide)
  · refine (s.rowTable m).nodup_toList.map fun _ _ same => ?_
    obtain ⟨table, rest⟩ := Prod.mk.inj same
    exact Prod.ext table (Prod.mk.inj rest).1
  · obtain ⟨_, -, rfl⟩ := List.mem_map.1 ha
    rfl

theorem size_eq (s : LockSheet) : s.size = s.tables.length + s.rows.length := by
  simp only [size, tables, rows, List.length_flatMap, List.length_map,
    Std.ExtTreeSet.length_toList, RowTable.length_toList]
  rfl

theorem isEmpty_iff : s.isEmpty = true ↔ s.size = 0 := by
  simp [isEmpty]

theorem mem_tablesIn : t ∈ s.tablesIn m ↔ (⟨.table t, m⟩ : Lock) ∈ s :=
  Std.ExtTreeSet.mem_toList

theorem exists_mem_rowsIn (there : (⟨.row t x, m⟩ : Lock) ∈ s) : ∃ xs, (t, xs) ∈ s.rowsIn m := by
  obtain ⟨rs, entry, -⟩ := RowTable.mem_under.1 there
  exact ⟨_, List.mem_map.2 ⟨(t, rs), Std.ExtTreeMap.mem_toList_iff_getElem?_eq_some.2 entry, rfl⟩⟩

/-- Under each table that has an entry there are rows, namely those that are locked. -/
theorem mem_rowsIn {xs : List RowId} (there : (t, xs) ∈ s.rowsIn m) :
    xs ≠ [] ∧ ∀ x, x ∈ xs ↔ (⟨.row t x, m⟩ : Lock) ∈ s := by
  simp only [rowsIn, List.mem_map, Prod.exists, Prod.mk.injEq,
    Std.ExtTreeMap.mem_toList_iff_getElem?_eq_some] at there
  obtain ⟨_, rs, entry, rfl, rfl⟩ := there
  refine ⟨fun none => (s.rowTable m).occupied _ rs entry ?_, fun x => ?_⟩
  · exact Std.ExtTreeSet.toList_eq_nil_iff.1 none
  · simp [mem_row, RowTable.mem_under, entry]

end LockSheet

end TwoPhaseLocking
