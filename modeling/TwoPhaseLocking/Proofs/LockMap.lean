import Mathlib.Data.Finmap
import TwoPhaseLocking.LockSet.Sheet

/-! # A lock set is a finite map

As long as nothing is recorded that is recorded already, locks are a finite map from resources to
the modes they are held in. That is so whether they are kept as one set or apart by mode, as each
lock is found under the one mode that the map has for its resource.
-/

namespace TwoPhaseLocking.LockSet

section Lists

variable {s : LockSet} {t : TableId} {x : RowId} {m : Mode}

theorem mem_tables : (t, m) ∈ s.tables ↔ (⟨.table t, m⟩ : Lock) ∈ s := by
  rw [tables, List.mem_filterMap]
  constructor
  · rintro ⟨⟨_ | _, _⟩, there, same⟩
    · cases same
      exact mem_toList.1 there
    · cases same
  · exact fun there => ⟨_, mem_toList.2 there, rfl⟩

theorem mem_rows : (t, x, m) ∈ s.rows ↔ (⟨.row t x, m⟩ : Lock) ∈ s := by
  rw [rows, List.mem_filterMap]
  constructor
  · rintro ⟨⟨_ | _, _⟩, there, same⟩
    · cases same
    · cases same
      exact mem_toList.1 there
  · exact fun there => ⟨_, mem_toList.2 there, rfl⟩

theorem nodup_tables (s : LockSet) : s.tables.Nodup := by
  refine s.nodup_toList.filterMap ?_
  rintro ⟨_ | _, _⟩ ⟨_ | _, _⟩ _ ⟨⟩ ⟨⟩
  rfl

theorem nodup_rows (s : LockSet) : s.rows.Nodup := by
  refine s.nodup_toList.filterMap ?_
  rintro ⟨_ | _, _⟩ ⟨_ | _, _⟩ _ ⟨⟩ ⟨⟩
  rfl

/-- A lock is on a table or on a row. -/
theorem size_eq (s : LockSet) : s.size = s.tables.length + s.rows.length := by
  rw [size, ← Std.ExtTreeSet.length_toList, tables, rows, toList]
  induction s.locks.toList with
  | nil => rfl
  | cons l ls ih =>
    obtain ⟨_ | _, _⟩ := l <;> simp only [List.filterMap_cons, List.length_cons, ih] <;> omega

theorem isEmpty_iff : s.isEmpty = true ↔ s.size = 0 := by
  rw [isEmpty, size, Std.ExtTreeSet.isEmpty_eq_size_beq_zero, beq_iff_eq]

theorem mem_tablesIn : t ∈ s.tablesIn m ↔ (⟨.table t, m⟩ : Lock) ∈ s := by
  simp [tablesIn, mem_tables]

/-- The rows that are listed under a table. -/
theorem mem_rowsUnder : x ∈ ((s.rows.filter (·.2.2 == m)).filter (·.1 == t)).map (·.2.1) ↔
    (⟨.row t x, m⟩ : Lock) ∈ s := by
  simp only [List.mem_map, List.mem_filter, Prod.exists, beq_iff_eq]
  constructor
  · rintro ⟨_, _, _, ⟨⟨there, rfl⟩, rfl⟩, rfl⟩
    exact mem_rows.1 there
  · exact fun there => ⟨t, x, m, ⟨⟨mem_rows.2 there, rfl⟩, rfl⟩, rfl⟩

theorem mem_rowsIn {xs : List RowId} (there : (t, xs) ∈ s.rowsIn m) :
    xs ≠ [] ∧ ∀ x, x ∈ xs ↔ (⟨.row t x, m⟩ : Lock) ∈ s := by
  simp only [rowsIn, List.mem_map, Std.ExtTreeSet.mem_toList, Std.ExtTreeSet.mem_ofList,
    List.contains_iff_mem, List.mem_filter, beq_iff_eq, Prod.mk.injEq] at there
  obtain ⟨_, ⟨⟨_, x, _⟩, ⟨named, rfl⟩, rfl⟩, rfl, rfl⟩ := there
  exact ⟨List.ne_nil_of_mem (mem_rowsUnder.2 (mem_rows.1 named)), fun x => mem_rowsUnder⟩

theorem exists_mem_rowsIn (there : (⟨.row t x, m⟩ : Lock) ∈ s) : ∃ xs, (t, xs) ∈ s.rowsIn m := by
  refine ⟨_, List.mem_map.2 ⟨t, ?_, rfl⟩⟩
  simp only [Std.ExtTreeSet.mem_toList, Std.ExtTreeSet.mem_ofList, List.contains_iff_mem,
    List.mem_map, List.mem_filter, beq_iff_eq]
  exact ⟨_, ⟨mem_rows.2 there, rfl⟩, rfl⟩

end Lists

/-- Which mode a resource is held in. -/
abbrev LockMap := Finmap fun _ : Resource => Mode

/-- What is taken down of a transaction. -/
inductive Edit where
  | record (r : Resource) (m : Mode)
  | forget (r : Resource) (m : Mode)
deriving DecidableEq, Repr

/-- A row is recorded in one of two modes, and nothing is recorded that the map has already. -/
def Edit.Proper (map : LockMap) : Edit → Prop
  | record r m => (r.isRow = true → m = .shared ∨ m = .exclusive) ∧ r ∉ map
  | forget .. => True

/-- What is forgotten goes if it is there in just this mode. -/
def Edit.onMap (map : LockMap) : Edit → LockMap
  | record r m => map.insert r m
  | forget r m => if map.lookup r = some m then map.erase r else map

/-- The map that these edits leave, when there is nothing in the beginning. -/
def mapOf (edits : List Edit) : LockMap := edits.foldl Edit.onMap ∅

/-- Each edit is proper after those before it. -/
def Proper : LockMap → List Edit → Prop
  | _, [] => True
  | map, e :: es => e.Proper map ∧ Proper (e.onMap map) es

instance (map : LockMap) : (e : Edit) → Decidable (e.Proper map)
  | .record r m =>
    inferInstanceAs (Decidable ((r.isRow = true → m = .shared ∨ m = .exclusive) ∧ r ∉ map))
  | .forget .. => .isTrue trivial

instance decidableProper (map : LockMap) : (edits : List Edit) → Decidable (Proper map edits)
  | [] => .isTrue trivial
  | e :: es =>
    have := decidableProper (e.onMap map) es
    inferInstanceAs (Decidable (e.Proper map ∧ Proper (e.onMap map) es))

/-- A way to keep locks. -/
structure Keeping (σ : Type) [Membership Lock σ] where
  empty : σ
  record : σ → Resource → Mode → σ
  forget : σ → Resource → Mode → σ × Bool
  mode? : σ → Resource → Option Mode
  hasRowsOn : σ → TableId → Bool
  tables : σ → List (TableId × Mode)
  rows : σ → List (TableId × RowId × Mode)
  size : σ → Nat
  isEmpty : σ → Bool
  tablesIn : σ → Mode → List TableId
  rowsIn : σ → Mode → List (TableId × List RowId)
  not_mem_empty : ∀ l : Lock, l ∉ empty
  mem_record : ∀ {c : σ} {r : Resource} {m : Mode} {l : Lock},
    r.isRow = false ∨ m.isIntention = false → (l ∈ record c r m ↔ l = ⟨r, m⟩ ∨ l ∈ c)
  mem_forget : ∀ {c : σ} {r : Resource} {m : Mode} {l : Lock},
    l ∈ (forget c r m).1 ↔ l ≠ ⟨r, m⟩ ∧ l ∈ c
  forgets : ∀ {c : σ} {r : Resource} {m : Mode}, (forget c r m).2 = true ↔ (⟨r, m⟩ : Lock) ∈ c
  mem_of_mode? : ∀ {c : σ} {r : Resource} {m : Mode}, mode? c r = some m → (⟨r, m⟩ : Lock) ∈ c
  not_mem_of_mode? : ∀ {c : σ} {r : Resource} {m : Mode}, mode? c r = none → (⟨r, m⟩ : Lock) ∉ c
  hasRowsOn_iff : ∀ {c : σ} {t : TableId},
    hasRowsOn c t = true ↔ ∃ x m, (⟨.row t x, m⟩ : Lock) ∈ c
  mem_tables : ∀ {c : σ} {t : TableId} {m : Mode}, (t, m) ∈ tables c ↔ (⟨.table t, m⟩ : Lock) ∈ c
  mem_rows : ∀ {c : σ} {t : TableId} {x : RowId} {m : Mode},
    (t, x, m) ∈ rows c ↔ (⟨.row t x, m⟩ : Lock) ∈ c
  nodup_tables : ∀ c, (tables c).Nodup
  nodup_rows : ∀ c, (rows c).Nodup
  size_eq : ∀ c, size c = (tables c).length + (rows c).length
  isEmpty_iff : ∀ {c : σ}, isEmpty c = true ↔ size c = 0
  mem_tablesIn : ∀ {c : σ} {t : TableId} {m : Mode},
    t ∈ tablesIn c m ↔ (⟨.table t, m⟩ : Lock) ∈ c
  mem_rowsIn : ∀ {c : σ} {t : TableId} {xs : List RowId} {m : Mode}, (t, xs) ∈ rowsIn c m →
    xs ≠ [] ∧ ∀ x, x ∈ xs ↔ (⟨.row t x, m⟩ : Lock) ∈ c
  exists_mem_rowsIn : ∀ {c : σ} {t : TableId} {x : RowId} {m : Mode},
    (⟨.row t x, m⟩ : Lock) ∈ c → ∃ xs, (t, xs) ∈ rowsIn c m

/-- As one set. -/
def sets : Keeping LockSet where
  empty := ∅
  record := record
  forget := forget
  mode? := mode?
  hasRowsOn := hasRowsOn
  tables := tables
  rows := rows
  size := size
  isEmpty := isEmpty
  tablesIn := tablesIn
  rowsIn := rowsIn
  not_mem_empty := not_mem_empty
  mem_record := mem_record
  mem_forget := mem_forget
  forgets := by simp
  mem_of_mode? := mem_of_mode?
  not_mem_of_mode? free := mode?_eq_none_iff.1 free _
  hasRowsOn_iff := hasRowsOn_iff
  mem_tables := mem_tables
  mem_rows := mem_rows
  nodup_tables := nodup_tables
  nodup_rows := nodup_rows
  size_eq := size_eq
  isEmpty_iff := isEmpty_iff
  mem_tablesIn := mem_tablesIn
  mem_rowsIn := mem_rowsIn
  exists_mem_rowsIn := exists_mem_rowsIn

/-- Apart by mode. -/
def sheets : Keeping LockSheet where
  empty := ∅
  record := LockSheet.record
  forget := LockSheet.forget
  mode? := LockSheet.mode?
  hasRowsOn := LockSheet.hasRowsOn
  tables := LockSheet.tables
  rows := LockSheet.rows
  size := LockSheet.size
  isEmpty := LockSheet.isEmpty
  tablesIn := LockSheet.tablesIn
  rowsIn := LockSheet.rowsIn
  not_mem_empty := LockSheet.not_mem_empty
  mem_record := LockSheet.mem_record
  mem_forget := LockSheet.mem_forget
  forgets := by simp
  mem_of_mode? := LockSheet.mem_of_mode?
  not_mem_of_mode? := LockSheet.not_mem_of_mode?
  hasRowsOn_iff := LockSheet.hasRowsOn_iff
  mem_tables := LockSheet.mem_tables
  mem_rows := LockSheet.mem_rows
  nodup_tables := LockSheet.nodup_tables
  nodup_rows := LockSheet.nodup_rows
  size_eq := LockSheet.size_eq
  isEmpty_iff := LockSheet.isEmpty_iff
  mem_tablesIn := LockSheet.mem_tablesIn
  mem_rowsIn := LockSheet.mem_rowsIn
  exists_mem_rowsIn := LockSheet.exists_mem_rowsIn

namespace Keeping

variable {σ : Type} [Membership Lock σ] (k : Keeping σ) {c : σ} {map : LockMap} {e : Edit}
  {edits : List Edit}

def apply (c : σ) : Edit → σ
  | .record r m => k.record c r m
  | .forget r m => (k.forget c r m).1

/-- What these edits make of nothing. -/
def built (edits : List Edit) : σ := edits.foldl k.apply k.empty

/-- The locks are the entries of the map. -/
def Holds (c : σ) (map : LockMap) : Prop := ∀ l : Lock, l ∈ c ↔ map.lookup l.resource = some l.mode

/-- Whatever is asked of the locks, the answer is what the map says. -/
structure Mirrors (c : σ) (map : LockMap) : Prop where
  mode? : ∀ r, k.mode? c r = map.lookup r
  /-- What is forgotten next goes exactly if the map has it. -/
  forget : ∀ r m, (k.forget c r m).2 = true ↔ map.lookup r = some m
  hasRowsOn : ∀ t, k.hasRowsOn c t = true ↔ ∃ x m, map.lookup (.row t x) = some m
  tables : (k.tables c).Nodup ∧
    ∀ t m, (t, m) ∈ k.tables c ↔ map.lookup (.table t) = some m
  rows : (k.rows c).Nodup ∧
    ∀ t x m, (t, x, m) ∈ k.rows c ↔ map.lookup (.row t x) = some m
  size : k.size c = map.entries.card
  isEmpty : k.isEmpty c = true ↔ map = ∅
  tablesIn : ∀ m t, t ∈ k.tablesIn c m ↔ map.lookup (.table t) = some m
  /-- No table is listed without rows. -/
  rowsIn : ∀ m t xs, (t, xs) ∈ k.rowsIn c m →
    xs ≠ [] ∧ ∀ x, x ∈ xs ↔ map.lookup (.row t x) = some m
  /-- No row is left out. -/
  rowsIn_complete : ∀ m t x, map.lookup (.row t x) = some m → ∃ xs, (t, xs) ∈ k.rowsIn c m

theorem holds_apply (holds : Holds c map) (proper : e.Proper map) :
    Holds (k.apply c e) (e.onMap map) := by
  rintro ⟨r', m'⟩
  cases e with
  | record r m =>
    obtain ⟨modes, new⟩ := proper
    have plain : r.isRow = false ∨ m.isIntention = false := by
      cases isRow : r.isRow with
      | false => exact .inl rfl
      | true => rcases modes isRow with rfl | rfl <;> exact .inr rfl
    rw [apply, k.mem_record plain, holds, Edit.onMap, Lock.mk.injEq]
    by_cases here : r' = r
    · subst here
      -- it was not recorded, so it is held in the new mode only
      have none := Finmap.lookup_eq_none.2 new
      simp [none, @eq_comm _ m']
    · simp [here]
  | forget r m =>
    rw [apply, k.mem_forget, holds, Edit.onMap, ne_eq, Lock.mk.injEq]
    split
    · rename_i held
      by_cases here : r' = r
      · subst here
        simp only [held, true_and, Finmap.lookup_erase, Option.some.injEq]
        grind
      · simp [here]
    · rename_i other
      by_cases here : r' = r
      · subst here
        grind
      · simp [here]

theorem holds_foldl (holds : Holds c map) (proper : Proper map edits) :
    Holds (edits.foldl k.apply c) (edits.foldl Edit.onMap map) := by
  induction edits generalizing c map with
  | nil => exact holds
  | cons e edits ih => exact ih (k.holds_apply holds proper.1) proper.2

theorem holds_built (proper : Proper ∅ edits) : Holds (k.built edits) (mapOf edits) :=
  k.holds_foldl (fun l => iff_of_false (k.not_mem_empty l) (by simp)) proper

theorem mode?_eq (holds : Holds c map) (r : Resource) : k.mode? c r = map.lookup r := by
  cases held : k.mode? c r with
  | some m => exact ((holds ⟨r, m⟩).1 (k.mem_of_mode? held)).symm
  | none =>
    refine (Option.eq_none_iff_forall_ne_some.2 fun m there => ?_).symm
    exact k.not_mem_of_mode? held ((holds ⟨r, m⟩).2 there)

/-- Each entry of the map is listed once, be it among the tables or among the rows. -/
theorem entries_eq (holds : Holds c map) : map.entries =
    ((k.tables c).map (fun (t, m) => ⟨.table t, m⟩) ++
      (k.rows c).map fun (t, x, m) => ⟨.row t x, m⟩ : List (Σ _ : Resource, Mode)) := by
  have tables : ((k.tables c).map fun (t, m) => (⟨.table t, m⟩ : Σ _ : Resource, Mode)).Nodup :=
    (k.nodup_tables c).map fun _ _ same => by grind
  have rows : ((k.rows c).map fun (t, x, m) => (⟨.row t x, m⟩ : Σ _ : Resource, Mode)).Nodup :=
    (k.nodup_rows c).map fun _ _ same => by grind
  refine (map.nodup_entries.ext (Multiset.coe_nodup.2 (tables.append rows ?_))).2 ?_
  · intro l ht hr
    obtain ⟨_, -, rfl⟩ := List.mem_map.1 ht
    obtain ⟨_, -, same⟩ := List.mem_map.1 hr
    cases same
  · rintro ⟨r, m⟩
    rw [← Finmap.lookup_eq_some_iff, Multiset.mem_coe, List.mem_append, List.mem_map, List.mem_map]
    cases r with
    | table t =>
      rw [← holds ⟨.table t, m⟩, ← k.mem_tables]
      constructor
      · exact fun there => .inl ⟨(t, m), there, rfl⟩
      · rintro (⟨_, there, same⟩ | ⟨_, -, same⟩) <;> cases same
        exact there
    | row t x =>
      rw [← holds ⟨.row t x, m⟩, ← k.mem_rows]
      constructor
      · exact fun there => .inr ⟨(t, x, m), there, rfl⟩
      · rintro (⟨_, -, same⟩ | ⟨_, there, same⟩) <;> cases same
        exact there

theorem size_eq_card (holds : Holds c map) : k.size c = map.entries.card := by
  rw [k.size_eq, k.entries_eq holds, Multiset.coe_card, List.length_append, List.length_map,
    List.length_map]

theorem mirrors (holds : Holds c map) : k.Mirrors c map where
  mode? := k.mode?_eq holds
  forget r m := k.forgets.trans (holds ⟨r, m⟩)
  hasRowsOn t := k.hasRowsOn_iff.trans (exists_congr fun x => exists_congr fun m => holds ⟨_, m⟩)
  tables := ⟨k.nodup_tables c, fun t m => k.mem_tables.trans (holds ⟨_, m⟩)⟩
  rows := ⟨k.nodup_rows c, fun t x m => k.mem_rows.trans (holds ⟨_, m⟩)⟩
  size := k.size_eq_card holds
  isEmpty := by
    rw [k.isEmpty_iff, k.size_eq_card holds, Multiset.card_eq_zero]
    exact ⟨fun none => Finmap.ext none, fun none => none ▸ rfl⟩
  tablesIn m t := k.mem_tablesIn.trans (holds ⟨_, m⟩)
  rowsIn m t xs listed := by
    obtain ⟨some, rows⟩ := k.mem_rowsIn listed
    exact ⟨some, fun x => (rows x).trans (holds ⟨_, m⟩)⟩
  rowsIn_complete m t x there := k.exists_mem_rowsIn ((holds ⟨_, m⟩).2 there)

end Keeping

variable {edits : List Edit}

/-- The locks that these edits leave, when there are none in the beginning. -/
def setOf (edits : List Edit) : LockSet := sets.built edits

def sheetOf (edits : List Edit) : LockSheet := sheets.built edits

/-- After any edits that record rows in S or X only, and nothing that is recorded already, the locks
answer as the map does that the same edits leave: in what mode each resource is held, what is
forgotten next, whether a table has rows, how many locks there are and whether there are any. Each
of them is listed once, and no table is listed without rows. It is all the same whether they are
kept as one set or apart by mode. -/
theorem lock_set_is_map (proper : Proper ∅ edits) :
    sets.Mirrors (setOf edits) (mapOf edits) ∧ sheets.Mirrors (sheetOf edits) (mapOf edits) :=
  ⟨sets.mirrors (sets.holds_built proper), sheets.mirrors (sheets.holds_built proper)⟩

/-- For instance, one of two rows is forgotten, though not at first, when the mode is wrong. Then a
table goes from one mode to another. -/
theorem lock_set_is_map_after_upgrade :
    let edits : List Edit := [.record (.table 1) .intentionShared,
      .record (.row 1 ⟨0, 7⟩) .shared, .record (.row 1 ⟨0, 8⟩) .exclusive,
      .forget (.row 1 ⟨0, 8⟩) .shared, .forget (.row 1 ⟨0, 8⟩) .exclusive,
      .forget (.table 1) .intentionShared, .record (.table 1) .exclusive]
    Proper ∅ edits ∧ (sheetOf edits).mode? (.table 1) = some .exclusive ∧
      (mapOf edits).lookup (.table 1) = some .exclusive ∧ (sheetOf edits).rowsIn .exclusive = [] ∧
      sheets.Mirrors (sheetOf edits) (mapOf edits) ∧ (sheetOf edits).size = 2 ∧
      (setOf edits).toList = [⟨.row 1 ⟨0, 7⟩, .shared⟩, ⟨.table 1, .exclusive⟩] := by
  intro edits
  have proper : Proper ∅ edits := by decide +kernel
  have mirrors := (lock_set_is_map proper).2
  have held : (sheetOf edits).mode? (.table 1) = some .exclusive := by decide +kernel
  exact ⟨proper, held, (mirrors.mode? _).symm.trans held, by decide +kernel, mirrors,
    by decide +kernel, by decide +kernel⟩

end TwoPhaseLocking.LockSet
