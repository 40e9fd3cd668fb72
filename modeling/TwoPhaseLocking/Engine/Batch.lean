import TwoPhaseLocking.Engine.Detect

/-! # Locking a batch of rows and releasing them

A client's program rather than an operation of the lock manager: it takes a list of locks
one after the other and then gives everything back. It goes on after a lock call that was
ended by an abort, and breaks off when one of its calls fails.
-/

namespace TwoPhaseLocking

/-- A program asleep in one of its lock calls, all of which go by one number. -/
structure Batch where
  number : Nat
  handle : Handle
  /-- The locks still to be taken when the present call returns. -/
  rest : List Lock
deriving DecidableEq, Repr

inductive BatchReply where
  | finished
  | broken
  | asleep (batch : Batch)
deriving DecidableEq, Repr

namespace Engine

def runBatch (w : Walk) (number : Nat) (h : Handle) (s : Engine) :
    List Lock → Engine × BatchReply
  | [] =>
    match s.releaseAll w h with
    | (s, .done) => (s, .finished)
    | (s, .failed _) => (s, .broken)
  | l :: ls =>
    match s.lock { number, handle := h, mode := l.mode, resource := l.resource } with
    | (s, .returned _) => runBatch w number h s ls
    | (s, .failed _) => (s, .broken)
    | (s, .asleep) => (s, .asleep { number, handle := h, rest := ls })

/-- Locks rows exclusively under an intention lock on their table, then releases all. -/
def lockRowsAndRelease (w : Walk) (number : Nat) (s : Engine) (h : Handle) (table : TableId)
    (rows : List RowId) : Engine × BatchReply :=
  s.runBatch w number h
    (⟨.table table, .intentionExclusive⟩ :: rows.map fun r => ⟨.row table r, .exclusive⟩)

end Engine

end TwoPhaseLocking
