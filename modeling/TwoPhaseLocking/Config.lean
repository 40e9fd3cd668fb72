/-! # Settings of a lock manager -/

namespace TwoPhaseLocking

/-- Times are in milliseconds. -/
structure Config where
  /-- Pause between two passes of the background detector. -/
  interval : Nat := 50
  /-- Whether the background detector may be started at all. -/
  enabled : Bool := true
  /-- Whether a pass goes on until no cycle is left, or stops at its first victim. -/
  resolveAll : Bool := true
deriving DecidableEq, Repr, Inhabited

inductive Config.Setting where
  | interval (ms : Nat)
  | enabled (value : Bool)
  | resolveAll (value : Bool)
deriving DecidableEq, Repr

namespace Config

def set (c : Config) : Setting → Config
  | .interval ms => { c with interval := ms }
  | .enabled b => { c with enabled := b }
  | .resolveAll b => { c with resolveAll := b }

/-- The default settings with the given changes made in order. -/
def ofSettings (changes : List Setting) : Config :=
  changes.foldl set {}

end Config

end TwoPhaseLocking
