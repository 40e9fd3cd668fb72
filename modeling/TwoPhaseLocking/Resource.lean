import Std.Data.ExtTreeMap
import TwoPhaseLocking.Mode

/-! # Transactions, tables, rows and what can be locked

A resource is a table, or a row together with the table it is locked under. Requests
wait in queues, and the queue of a row is found by the row alone: two tables that name
the same row share its queue.
-/

namespace TwoPhaseLocking

/-- Identifier of a transaction. A higher identifier means a younger transaction. -/
abbrev TxnId := Nat

abbrev TableId := Nat

/-- A row is a slot on a page. -/
structure RowId where
  page : Nat
  slot : Nat
deriving DecidableEq, Repr, Inhabited

def TxnId.text (id : TxnId) : String := s!"txn:{id}"

def TableId.text (table : TableId) : String := s!"table:{table}"

def RowId.text (row : RowId) : String := s!"row:{row.page}/{row.slot}"

/-- Rows are ordered by page, then by slot. -/
instance : Ord RowId where
  compare := compareLex (compareOn RowId.page) (compareOn RowId.slot)

instance : Std.TransOrd RowId :=
  inferInstanceAs (Std.TransCmp (compareLex (compareOn RowId.page) (compareOn RowId.slot)))

instance : Std.LawfulEqOrd RowId where
  eq_of_compare {a b} h := by
    obtain ⟨hp, hs⟩ := compareLex_eq_eq.1 h
    cases a
    cases b
    simp_all [compareOn]

/-- What a lock can be taken on. -/
inductive Resource where
  | table (table : TableId)
  | row (table : TableId) (row : RowId)
deriving DecidableEq, Repr, Inhabited

/-- What a queue belongs to. -/
inductive QueueKey where
  | table (table : TableId)
  | row (row : RowId)
deriving DecidableEq, Repr, Inhabited

namespace Resource

def tableId : Resource → TableId
  | table t => t
  | row t _ => t

def key : Resource → QueueKey
  | table t => .table t
  | row _ r => .row r

def isTable : Resource → Bool
  | table _ => true
  | row .. => false

def isRow : Resource → Bool
  | table _ => false
  | row .. => true

def text : Resource → String
  | table t => TableId.text t
  | row t r => s!"{TableId.text t}/{r.text}"

@[simp]
theorem key_table (t : TableId) : (table t).key = .table t := rfl

@[simp]
theorem key_row (t : TableId) (r : RowId) : (row t r).key = .row r := rfl

/-- A row is named with the table it belongs to. -/
def Known (tableOf : RowId → TableId) : Resource → Prop
  | table _ => True
  | row t r => t = tableOf r

instance (tableOf : RowId → TableId) (r : Resource) : Decidable (r.Known tableOf) :=
  match r with
  | table _ => inferInstanceAs (Decidable True)
  | row t r => inferInstanceAs (Decidable (t = tableOf r))

/-- When each row is under one table, the queue determines the resource. -/
theorem Known.eq {tableOf : RowId → TableId} {r r' : Resource} (known : r.Known tableOf)
    (known' : r'.Known tableOf) (same : r.key = r'.key) : r = r' := by
  cases r with
  | table t =>
    cases r' with
    | table t' =>
      cases same
      rfl
    | row => cases same
  | row t row =>
    cases r' with
    | table => cases same
    | row t' row' =>
      cases same
      rw [show t = t' from known.trans known'.symm]

end Resource

namespace QueueKey

def text : QueueKey → String
  | table t => TableId.text t
  | row r => r.text

def kind : QueueKey → Nat
  | table _ => 0
  | row _ => 1

def major : QueueKey → Nat
  | table t => t
  | row r => r.page

def minor : QueueKey → Nat
  | table _ => 0
  | row r => r.slot

end QueueKey

/-- Tables come first, by number; rows follow in their own order. -/
instance : Ord QueueKey where
  compare := compareLex (compareOn QueueKey.kind)
    (compareLex (compareOn QueueKey.major) (compareOn QueueKey.minor))

instance : Std.TransOrd QueueKey :=
  inferInstanceAs (Std.TransCmp (compareLex (compareOn QueueKey.kind)
    (compareLex (compareOn QueueKey.major) (compareOn QueueKey.minor))))

instance : Std.LawfulEqOrd QueueKey where
  eq_of_compare {a b} h := by
    obtain ⟨hk, h⟩ := compareLex_eq_eq.1 h
    obtain ⟨hm, hn⟩ := compareLex_eq_eq.1 h
    rcases a with t | ⟨p, s⟩ <;> rcases b with u | ⟨q, r⟩ <;>
      simp_all [compareOn, QueueKey.kind, QueueKey.major, QueueKey.minor]

end TwoPhaseLocking
