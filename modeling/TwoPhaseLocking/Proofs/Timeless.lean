import TwoPhaseLocking.Engine.Clocked
import TwoPhaseLocking.Proofs.Deadlock
import TwoPhaseLocking.Proofs.Timetable

/-! # Passes do not look at the clock

What a detection pass does to a lock manager, and what follows from it, is the same at whatever
time the pass is made. So time may go by in one piece or in several.
-/

namespace TwoPhaseLocking

/-- The order in which queues are visited has nothing to do with the detector. -/
def Walk.Timeless (w : Walk) : Prop :=
  ∀ (s : Engine) (d : Detector), w.queues (s.timed d) = w.queues s

theorem Walk.timeless_ascending : Walk.ascending.Timeless := fun _ _ => rfl

namespace Engine

@[simp]
theorem timed_timed (s : Engine) (d d' : Detector) : (s.timed d).timed d' = s.timed d' := rfl

@[simp]
theorem detector_timed (s : Engine) (d : Detector) : (s.timed d).detector = d := rfl

@[simp]
theorem config_timed (s : Engine) (d : Detector) : (s.timed d).config = s.config := rfl

variable {w : Walk} {s : Engine} {d : Detector}

theorem abortVictim_timed (v : TxnId) :
    (s.timed d).abortVictim v = (s.abortVictim v).map (·.timed d) := by
  have same : (s.timed d).lookup v = s.lookup v := rfl
  unfold abortVictim
  rw [same]
  cases s.lookup v with
  | none => rfl
  | some h =>
    dsimp only
    rw [apply_ite (Option.map fun s : Engine => s.timed d)]
    rfl

theorem sacrifice_timed (all : Bool) (vs : List TxnId) :
    (s.timed d).sacrifice all vs = (s.sacrifice all vs).map (·.timed d) id := by
  induction vs generalizing s with
  | nil => rfl
  | cons v vs ih =>
    rw [sacrifice, sacrifice, abortVictim_timed]
    cases s.abortVictim v with
    | none => exact ih
    | some s' =>
      cases all with
      | false => rfl
      | true =>
        change ((s'.timed d).sacrifice true vs).map id (v :: ·) = _
        rw [ih]
        rfl

theorem wakeIn_timed (ks : List QueueKey) (id : TxnId) :
    (s.timed d).wakeIn ks id = (s.wakeIn ks id).timed d := by
  induction ks generalizing s with
  | nil => rfl
  | cons k ks ih =>
    unfold wakeIn at ih ⊢
    rw [List.foldl_cons, List.foldl_cons, ← ih]
    congr 1
    change (if (s.queue k).has id then _ else _) = _
    split
    · rfl
    · rfl

theorem wakeEach_timed (timeless : w.Timeless) (ids : List TxnId) :
    ids.foldl (wakePending w) (s.timed d) = (ids.foldl (wakePending w) s).timed d := by
  induction ids generalizing s with
  | nil => rfl
  | cons id ids ih =>
    rw [List.foldl_cons, List.foldl_cons, ← ih]
    congr 1
    exact (congrArg ((s.timed d).wakeIn · id) (timeless s d)).trans (wakeIn_timed _ id)

theorem detect_timed (timeless : w.Timeless) :
    (s.timed d).detect w = (s.detect w).map (·.timed d) id := by
  let s₁ := s.tally Stats.detectionPass
  let rouse (p : Engine × List TxnId) : Engine × List TxnId :=
    ((s₁.strandedIn (w.queues s₁) ++ p.2).foldl (wakePending w) { p.1 with graph := ∅ }, p.2)
  have pass : s.detect w = rouse (s₁.sacrifice s.config.resolveAll
      (s₁.waitGraphOf (w.queues s₁)).breakCycles.1) := rfl
  have moved : (s.timed d).detect w = rouse ((s₁.timed d).sacrifice s.config.resolveAll
      (s₁.waitGraphOf (w.queues s₁)).breakCycles.1) := by
    have visited : w.queues ((s.timed d).tally Stats.detectionPass) = w.queues s₁ := timeless s₁ d
    simp only [rouse, ← visited]
    rfl
  rw [moved, pass, sacrifice_timed]
  generalize s₁.sacrifice _ _ = p
  exact congrArg (·, p.2) (wakeEach_timed (s := { p.1 with graph := ∅ }) timeless _)

theorem conclude_timed (c : LockCall) :
    (s.timed d).conclude c = (s.conclude c).map (·.timed d) id := by
  cases aborted : (s.txn c.handle).isAborted with
  | true =>
    rw [conclude_aborted aborted, conclude_aborted (s := s.timed d) aborted]
    rfl
  | false =>
    rw [conclude_live aborted, conclude_live (s := s.timed d) aborted]
    rfl

theorem finishSleeper_timed (v : Sleeper) :
    (s.timed d).finishSleeper v = (s.finishSleeper v).map (·.timed d) id :=
  congrArg (Prod.map id _)
    (conclude_timed (s := { s with sleepers := s.sleepers.erase v }) v.lockCall)

theorem settleWithin_timed (n : Nat) :
    settleWithin n (s.timed d) = (settleWithin n s).map (·.timed d) id := by
  induction n generalizing s with
  | zero => rfl
  | succ n ih =>
    have same : ((s.timed d).sleepers.find? fun v => v.notified && (s.timed d).isReady v) =
        s.sleepers.find? fun v => v.notified && s.isReady v := rfl
    rw [settleWithin, settleWithin, same]
    cases s.sleepers.find? fun v => v.notified && s.isReady v with
    | none => rfl
    | some v =>
      dsimp only
      rw [finishSleeper_timed, Prod.map_fst, ih]
      rfl

/-- A pass of the background detector takes no notice of the time. -/
theorem pass_timed (timeless : w.Timeless) :
    (s.timed d).pass w = (s.pass w).map (·.timed d) id := by
  rw [pass, pass, detect_timed timeless, Prod.map_fst]
  exact settleWithin_timed (s := (s.detect w).1) _

theorem config_pass : (s.pass w).1.config = s.config :=
  config_of_path ((detect_winding w).trans settle_winding)

theorem passes_timed (timeless : w.Timeless) (n : Nat) :
    passes w n (s.timed d) = (passes w n s).map (·.timed d) id := by
  induction n generalizing s with
  | zero => rfl
  | succ n ih =>
    rw [passes, passes, pass_timed timeless, Prod.map_fst, Prod.map_snd, id, ih, Prod.map_map,
      Prod.map_map]
    rfl

theorem config_passes (n : Nat) : (passes w n s).1.config = s.config := by
  induction n generalizing s with
  | zero => rfl
  | succ n ih => rw [passes, Prod.map_fst, id, ih, config_pass]

theorem passes_add (m n : Nat) :
    passes w (m + n) s =
      (passes w n (passes w m s).1).map id ((passes w m s).2 ++ ·) := by
  induction m generalizing s with
  | zero =>
    rw [Nat.zero_add]
    rfl
  | succ m ih =>
    rw [Nat.succ_add, passes, passes, ih]
    simp only [Prod.map, id, List.append_assoc]

theorem advance_timed (timeless : w.Timeless) (ms : Nat) :
    (s.timed d).advance w ms = (s.passes w (d.due s.config.interval ms)).map
      (·.timed (d.advance s.config.interval ms)) id := by
  unfold advance
  rw [detector_timed, config_timed, passes_timed timeless]
  rfl

/-- Time may go by in two pieces. -/
theorem advance_add (timeless : w.Timeless) (m n : Nat) :
    s.advance w (m + n) = ((s.advance w m).1.advance w n).map id ((s.advance w m).2 ++ ·) := by
  have whole (ms : Nat) : s.advance w ms = (s.passes w (s.detector.due s.config.interval ms)).map
      (·.timed (s.detector.advance s.config.interval ms)) id := advance_timed timeless ms
  rw [whole, whole, Prod.map_fst, advance_timed timeless, config_passes, Detector.due_add,
    Detector.advance_add, passes_add]
  rfl

end Engine

end TwoPhaseLocking
