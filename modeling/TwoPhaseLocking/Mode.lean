/-! # Lock modes

The five modes of multi-granularity locking, which pairs of them may be held
together by different transactions, and which changes of mode count as an upgrade.
Compatibility is symmetric, an upgrade always goes to a mode that excludes at least
as much.
-/

namespace TwoPhaseLocking

/-- What a lock lets its holder do: read or write the resource itself (`shared`,
`exclusive`), announce the same for single rows below it (the intention modes), or
read it all and write some rows (`sharedIntentionExclusive`). -/
inductive Mode where
  | shared
  | exclusive
  | intentionShared
  | intentionExclusive
  | sharedIntentionExclusive
deriving DecidableEq, Repr, Inhabited

namespace Mode

/-- Every mode, in the order in which modes are listed wherever an order shows. -/
def all : List Mode :=
  [shared, exclusive, intentionShared, intentionExclusive, sharedIntentionExclusive]

def index : Mode → Nat
  | shared => 0
  | exclusive => 1
  | intentionShared => 2
  | intentionExclusive => 3
  | sharedIntentionExclusive => 4

def text : Mode → String
  | shared => "S"
  | exclusive => "X"
  | intentionShared => "IS"
  | intentionExclusive => "IX"
  | sharedIntentionExclusive => "SIX"

def name : Mode → String
  | shared => "Shared"
  | exclusive => "Exclusive"
  | intentionShared => "IntentionShared"
  | intentionExclusive => "IntentionExclusive"
  | sharedIntentionExclusive => "SharedIntentionExclusive"

/-- Modes that announce locks on rows. They make sense on tables only. -/
def isIntention : Mode → Bool
  | shared | exclusive => false
  | intentionShared | intentionExclusive | sharedIntentionExclusive => true

/-- Whether two transactions may hold these modes on one resource at the same time. -/
def compatible : Mode → Mode → Bool
  | exclusive, _ | _, exclusive => false
  | intentionShared, _ | _, intentionShared => true
  | intentionExclusive, intentionExclusive => true
  | shared, shared => true
  | _, _ => false

def compatibleWithAll (m : Mode) (held : List Mode) : Bool :=
  held.all m.compatible

/-- Whether a lock held in the first mode may be turned into one in the second. -/
def canUpgradeTo : Mode → Mode → Bool
  | intentionShared, new => new != intentionShared
  | shared, new | intentionExclusive, new => new == exclusive || new == sharedIntentionExclusive
  | sharedIntentionExclusive, new => new == exclusive
  | exclusive, _ => false

theorem mem_all (m : Mode) : m ∈ all := by
  cases m <;> decide

theorem index_injective {a b : Mode} (h : a.index = b.index) : a = b := by
  cases a <;> cases b <;> simp_all [index]

theorem compatible_comm (a b : Mode) : a.compatible b = b.compatible a := by
  cases a <;> cases b <;> rfl

/-- Whatever is compatible with the new mode of an upgrade was compatible with the old one. -/
theorem compatible_of_canUpgradeTo {old new other : Mode} (h : old.canUpgradeTo new = true)
    (hc : new.compatible other = true) : old.compatible other = true := by
  cases old <;> cases new <;> cases other <;> simp_all [canUpgradeTo, compatible]

theorem compatibleWithAll_iff {m : Mode} {held : List Mode} :
    m.compatibleWithAll held = true ↔ ∀ o ∈ held, m.compatible o = true := by
  simp [compatibleWithAll]

end Mode

end TwoPhaseLocking
