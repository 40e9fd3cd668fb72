import TwoPhaseLocking.Queue

/-! # Checking a queue

`Queue.fault?` looks for the first way in which a list of requests is not a proper
queue: a transaction that stands in it twice, a request granted behind one that waits,
or two granted requests whose modes exclude each other.
-/

namespace TwoPhaseLocking

inductive QueueFault where
  | repeated (txn : TxnId)
  /-- A request is granted although an earlier one waits. -/
  | overtaken (late waiting : TxnId)
  /-- Two requests are granted in incompatible modes. -/
  | conflict (first second : Request)
deriving DecidableEq, Repr

namespace QueueFault

def text : QueueFault → String
  | repeated txn => s!"{TxnId.text txn} queued twice"
  | overtaken late waiting => s!"{TxnId.text late} granted behind waiting {TxnId.text waiting}"
  | conflict a b =>
    s!"{TxnId.text a.txn} holds {a.mode.text} alongside {TxnId.text b.txn} holding {b.mode.text}"

end QueueFault

namespace Queue

/-- The first transaction of the list that has been seen before. -/
def firstRepeated (seen : List TxnId) : List TxnId → Option TxnId
  | [] => none
  | id :: ids => if id ∈ seen then some id else firstRepeated (id :: seen) ids

/-- The first granted request behind the first waiting one, with the waiting one. -/
def firstOvertaken (rs : List Request) : Option (TxnId × TxnId) :=
  match rs.dropWhile (·.granted) with
  | [] => none
  | waiting :: behind => (behind.find? (·.granted)).map fun late => (late.txn, waiting.txn)

def firstConflict : List Request → Option (Request × Request)
  | [] => none
  | a :: rs =>
    match rs.find? fun b => !a.mode.compatible b.mode with
    | some b => some (a, b)
    | none => firstConflict rs

def fault? (rs : List Request) : Option QueueFault :=
  (firstRepeated [] (rs.map (·.txn))).map .repeated
    |>.or ((firstOvertaken rs).map fun p => .overtaken p.1 p.2)
    |>.or ((firstConflict (rs.filter (·.granted))).map fun p => .conflict p.1 p.2)

end Queue

end TwoPhaseLocking
