import TwoPhaseLocking.Resource

/-! # The queue of a resource

Requests stand in the order of their arrival, those already granted in front. A grant
pass walks the waiting ones from the head and stops at the first that does not fit, so
nobody is overtaken. Only an upgrade goes ahead of those who wait.
-/

namespace TwoPhaseLocking

/-- A transaction's request for a resource, placed by the lock call numbered `call`. -/
structure Request where
  call : Nat := 0
  txn : TxnId
  mode : Mode
  resource : Resource
  granted : Bool := false
deriving DecidableEq, Repr, Inhabited

/-- The requests for one resource, and the transaction whose upgrade is under way there. -/
structure Queue where
  requests : List Request := []
  upgrading : Option TxnId := none
deriving DecidableEq, Repr, Inhabited

/-- For instance `7:IX@3+` for a granted table request and `0:X@1/1.2-` for a waiting
row request. -/
def Request.text (r : Request) : String :=
  let place := match r.resource with
    | .table t => s!"{t}"
    | .row t row => s!"{t}/{row.page}.{row.slot}"
  s!"{r.txn}:{r.mode.text}@{place}" ++ if r.granted then "+" else "-"

namespace Queue

def empty : Queue := {}

/-- The requests in the order of the list, nobody upgrading. -/
def ofList (rs : List Request) : Queue := { requests := rs }

def push (q : Queue) (r : Request) : Queue :=
  { q with requests := q.requests ++ [r] }

/-- Goes ahead of everybody who waits, and marks the queue as being upgraded. -/
def insertUpgrade (q : Queue) (r : Request) : Queue where
  requests := q.requests.takeWhile (·.granted) ++ r :: q.requests.dropWhile (·.granted)
  upgrading := some r.txn

/-- The transaction's request, the first if it should have several. -/
def find? (q : Queue) (id : TxnId) : Option Request :=
  q.requests.find? (·.txn == id)

def remove (q : Queue) (id : TxnId) : Queue :=
  { q with requests := q.requests.eraseP (·.txn == id) }

def has (q : Queue) (id : TxnId) : Bool :=
  (q.find? id).isSome

def isGranted (q : Queue) (id : TxnId) : Bool :=
  (q.find? id).any (·.granted)

/-- Takes back the upgrade mark, if it is the transaction's own. -/
def clearUpgrading (q : Queue) (id : TxnId) : Queue :=
  if q.upgrading = some id then { q with upgrading := none } else q

def heldModes (q : Queue) : List Mode :=
  (q.requests.filter (·.granted)).map (·.mode)

/-- Grants waiting requests from the head as long as they are compatible with the modes
`held`, to which each new grant is added. Also says how many it granted. -/
def grantWaiting (held : List Mode) : List Request → List Request × Nat
  | [] => ([], 0)
  | r :: rs =>
    if r.granted then
      (grantWaiting held rs).map (r :: ·) id
    else if r.mode.compatibleWithAll held then
      (grantWaiting (r.mode :: held) rs).map ({ r with granted := true } :: ·) (· + 1)
    else
      (r :: rs, 0)

def grant (q : Queue) : Queue :=
  { q with requests := (grantWaiting q.heldModes q.requests).1 }

def grantCount (q : Queue) : Nat :=
  (grantWaiting q.heldModes q.requests).2

@[simp]
theorem requests_push (q : Queue) (r : Request) : (q.push r).requests = q.requests ++ [r] := rfl

@[simp]
theorem upgrading_push (q : Queue) (r : Request) : (q.push r).upgrading = q.upgrading := rfl

@[simp]
theorem requests_remove (q : Queue) (id : TxnId) :
    (q.remove id).requests = q.requests.eraseP (·.txn == id) := rfl

@[simp]
theorem upgrading_remove (q : Queue) (id : TxnId) : (q.remove id).upgrading = q.upgrading := rfl

@[simp]
theorem upgrading_grant (q : Queue) : q.grant.upgrading = q.upgrading := rfl

@[simp]
theorem requests_clearUpgrading (q : Queue) (id : TxnId) :
    (q.clearUpgrading id).requests = q.requests := by
  unfold clearUpgrading
  split <;> rfl

@[simp]
theorem upgrading_insertUpgrade (q : Queue) (r : Request) :
    (q.insertUpgrade r).upgrading = some r.txn := rfl

theorem has_iff {q : Queue} {id : TxnId} : q.has id = true ↔ ∃ r ∈ q.requests, r.txn = id := by
  simp [has, find?]

/-- An upgrade joins as one more request. -/
theorem mem_insertUpgrade {q : Queue} {r x : Request} :
    x ∈ (q.insertUpgrade r).requests ↔ x = r ∨ x ∈ q.requests := by
  have h : x ∈ q.requests ↔
      x ∈ q.requests.takeWhile (·.granted) ∨ x ∈ q.requests.dropWhile (·.granted) := by
    rw [← List.mem_append, List.takeWhile_append_dropWhile]
  simp only [insertUpgrade, List.mem_append, List.mem_cons, h]
  exact or_left_comm

/-- A grant pass changes nothing but grant marks. -/
theorem grantWaiting_map_ungranted (held : List Mode) (rs : List Request) :
    (grantWaiting held rs).1.map (fun r => { r with granted := false }) =
      rs.map (fun r => { r with granted := false }) := by
  fun_induction grantWaiting held rs <;> simp_all

@[simp]
theorem length_grantWaiting (held : List Mode) (rs : List Request) :
    (grantWaiting held rs).1.length = rs.length := by
  simpa using congrArg List.length (grantWaiting_map_ungranted held rs)

end Queue

end TwoPhaseLocking
