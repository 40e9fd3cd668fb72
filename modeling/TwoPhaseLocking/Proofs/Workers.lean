import Mathlib.Algebra.BigOperators.Group.List.Basic
import TwoPhaseLocking.Proofs.Served
import TwoPhaseLocking.Stress.Workload

/-! # Workers of a stress run

Each worker is bound to do what its workload says: its transaction has the locks that it has come by
so far, and nobody else has the transaction. So the calls asleep, the holders counted and the
counters of the lock manager can all be told from where the workers are.
-/

namespace TwoPhaseLocking.Stress

/-- A table of the run, and all rows of it in some order. -/
structure Choice.Valid (c : Config) (pick : Choice) : Prop where
  table : pick.table < c.tableCount
  slots : pick.slots.Perm (List.range c.rowCount)

/-- A worker who commits gives back one of the locks. That must not fail. -/
def Run.giveBack (x : Run) (t : Nat) (h : Handle) (r : Resource) : Run :=
  match x.engine.unlock h r true with
  | (s, .done) => { x with engine := s }
  | (s, .failed _) => { x with engine := s }.setPhase t .crashed

/-- Where a run may come to. Workers take steps in any order, and there may be detection passes in
between. The locks that a commit gives back, rows before their tables, are steps of their own where
others come in between. -/
inductive Run.Reached (w : Workload) (c : Config) (manager : TwoPhaseLocking.Config) :
    Run → Prop where
  | start : Reached w c manager (Run.start c manager)
  | step {x : Run} {t : Nat} {pick : Choice} :
      Reached w c manager x → pick.Valid c → Reached w c manager (x.step w c t pick)
  | give {x : Run} {t n : Nat} {h : Handle} {r : Resource} {m : Mode} :
      Reached w c manager x → x.workers[t]? = some ⟨n, .leaving h [] true⟩ →
        (⟨r, m⟩ : Lock) ∈ (x.engine.txn h).locks →
        (r.isTable = true → (x.engine.txn h).locks.hasRowsOn r.tableId = false) →
        Reached w c manager (x.giveBack t h r)
  | pass {x : Run} {walk : Walk} : Reached w c manager x → walk.Complete →
      Reached w c manager { x with engine := (x.engine.detect walk).1 }

/-- How many locks each transaction takes. -/
def Config.perTxn (c : Config) : Workload → Nat
  | .tables => 1
  | .rows => 1 + c.batchSize

namespace Phase

/-- The transaction that the worker is about. -/
def handle? : Phase → Option Handle
  | locking h .. | waiting h .. | entering h .. | looking h .. | leaving h .. => some h
  | between | crashed => none

/-- The locks that are still to come. -/
def ahead : Phase → List Goal
  | locking _ todo _ | entering _ _ todo _ | looking _ _ _ todo _ => todo
  | waiting _ goal todo _ => goal :: todo
  | leaving .. | between | crashed => []

/-- The locks in which the worker is counted. -/
def counted : Phase → List Lock
  | locking _ _ held | waiting _ _ _ held | entering _ _ _ held | leaving _ held _ => held
  | looking _ lock _ _ held => lock :: held
  | between | crashed => []

/-- The locks in which the worker is counted, or about to be. -/
def claims : Phase → List Lock
  | entering _ lock _ held => lock :: held
  | p => p.counted

/-- The worker is about to commit, and may have given back some locks. -/
def closing : Phase → Bool
  | leaving _ [] _ => true
  | _ => false

/-- The worker means to commit, and nobody had been there before a writer was counted in. -/
def Steady : Phase → Prop
  | leaving _ _ commit => commit = true
  | looking _ lock before _ _ => lock.mode = .exclusive → before = 0
  | crashed => False
  | between | locking .. | waiting .. | entering .. => True

/-- The call that worker `t` has asleep. -/
def sleeper? (t : Nat) : Phase → Option Sleeper
  | waiting h goal .. =>
    some { call := t, handle := h, mode := goal.lock.mode, resource := goal.lock.resource }
  | _ => none

/-- How many locks have been asked for so far, of `n` in all. -/
def asked (n : Nat) : Phase → Nat
  | locking _ todo _ | waiting _ _ todo _ | entering _ _ todo _ | looking _ _ _ todo _ =>
    n - todo.length
  | leaving .. => n
  | between | crashed => 0

/-- The transaction of the worker runs, and has the locks that the worker has come by. -/
structure Fits (w : Workload) (c : Config) (s : Engine) (p : Phase) (h : Handle) : Prop where
  known : h < s.txns.size
  kept : (s.txn h).kept = true
  growing : (s.txn h).state = .growing
  isolation : (s.txn h).isolation = .repeatableRead
  plan : ∃ i pick done, pick.Valid c ∧ w.goals c i pick = done ++ p.ahead ∧
    (∀ l ∈ (s.txn h).locks, ∃ g ∈ done, g.lock = l) ∧
    (p.closing = false → ∀ g ∈ done, g.lock ∈ (s.txn h).locks)
  claims : ∀ l ∈ p.claims, l ∈ (s.txn h).locks
  once : (p.claims.map (·.resource.key)).Nodup

theorem Fits.frame {w : Workload} {c : Config} {s s' : Engine} {p : Phase} {h : Handle}
    (fits : p.Fits w c s h) (size : s.txns.size ≤ s'.txns.size) (same : s'.txn h = s.txn h) :
    p.Fits w c s' h := by
  obtain ⟨known, kept, growing, isolation, plan, claims, once⟩ := fits
  rw [← same] at kept growing isolation plan claims
  exact ⟨Nat.lt_of_lt_of_le known size, kept, growing, isolation, plan, claims, once⟩

/-- Nothing new is claimed, and the same is still to come. -/
theorem Fits.turn {w : Workload} {c : Config} {s : Engine} {p p' : Phase} {h : Handle}
    (fits : p.Fits w c s h) (lasts : p.closing = false) (ahead : p'.ahead = p.ahead)
    (claims : p'.claims.Subperm p.claims) : p'.Fits w c s h where
  known := fits.known
  kept := fits.kept
  growing := fits.growing
  isolation := fits.isolation
  plan := by
    obtain ⟨i, pick, done, valid, split, locks, all⟩ := fits.plan
    exact ⟨i, pick, done, valid, ahead ▸ split, locks, fun _ => all lasts⟩
  claims l there := fits.claims l (claims.subset there)
  once := by
    obtain ⟨part, perm, sublist⟩ := claims
    exact (perm.map _).nodup_iff.1 (fits.once.sublist (sublist.map _))

theorem counted_subset_claims (p : Phase) : p.counted ⊆ p.claims := by
  cases p with
  | entering => exact List.subset_cons_self _ _
  | _ => exact List.Subset.refl _

theorem exists_handle {p : Phase} {l : Lock} (claimed : l ∈ p.claims) :
    ∃ h, p.handle? = some h := by
  cases p with
  | between | crashed => cases claimed
  | _ => exact ⟨_, rfl⟩

theorem call_of_sleeper? {p : Phase} {t : Nat} {v : Sleeper} (sleeps : p.sleeper? t = some v) :
    v.call = t := by
  cases p <;> cases sleeps
  rfl

theorem handle?_of_sleeper? {p : Phase} {t : Nat} {v : Sleeper} (sleeps : p.sleeper? t = some v) :
    p.handle? = some v.handle := by
  cases p <;> cases sleeps
  rfl

end Phase

/-- The worker does its share, and nothing has gone wrong. -/
structure Worker.Fits (w : Workload) (c : Config) (s : Engine) (a : Worker) : Prop where
  made : a.made ≤ c.share
  unfinished : a.phase ≠ .between → a.made < c.share
  steady : a.phase.Steady
  txn : ∀ h, a.phase.handle? = some h → a.phase.Fits w c s h

/-- Whoever has the lock is counted there, among the writers or else among the readers. -/
def CountsAs (k : QueueKey) (writing : Bool) (l : Lock) : Bool :=
  l.resource.key == k && (l.mode == .exclusive) == writing

def Holders.number (n : Holders) (writing : Bool) : Nat :=
  if writing then n.writers else n.readers

theorem Worker.fits_between {w : Workload} {c : Config} {s : Engine} {n : Nat} (made : n ≤ c.share) :
    Worker.Fits w c s ⟨n, .between⟩ where
  made := made
  unfinished other := absurd rfl other
  steady := trivial
  txn h mine := by cases mine

/-- A worker is about the same transaction as before. -/
theorem Worker.Fits.onward {w : Workload} {c : Config} {s s' : Engine} {a : Worker} {p : Phase}
    {h : Handle} (fits : a.Fits w c s) (mine : a.phase.handle? = some h)
    (mine' : p.handle? = some h) (phase : p.Fits w c s' h) (steady : p.Steady) :
    Worker.Fits w c s' { a with phase := p } where
  made := fits.made
  unfinished _ := fits.unfinished fun eq => by
    rw [eq] at mine
    cases mine
  steady := steady
  txn h' eq := by
    cases mine'.symm.trans eq
    exact phase

namespace Worker

def present (k : QueueKey) (writing : Bool) (a : Worker) : Nat :=
  a.phase.counted.countP (CountsAs k writing)

/-- How many transactions the worker has begun. -/
def begun (a : Worker) : Nat := a.made + if a.phase = .between then 0 else 1

def asked (n : Nat) (a : Worker) : Nat := a.made * n + a.phase.asked n

end Worker

namespace Run

variable {w : Workload} {c : Config} {manager : TwoPhaseLocking.Config} {x x' : Run} {t t' : Nat}
  {a b : Worker} {h : Handle} {f : Worker → Worker}

/-- What clients are held to whose calls are never in each other's way. -/
def Mannerly (s : Engine) (e : Event) : Prop :=
  e.Fair RowId.page s ∧ e.Undisturbed s ∧ e.KeepsRegister ∧ e.SetsNoState

def At (x : Run) (t : Nat) (a : Worker) : Prop := x.workers[t]? = some a

def total (x : Run) (f : Worker → Nat) : Nat := (x.workers.map f).sum

/-- Some worker is about the transaction. -/
def Owned (x : Run) (h : Handle) : Prop := ∃ t a, x.At t a ∧ a.phase.handle? = some h

/-- Everything is as the workers say. -/
structure Sound (w : Workload) (c : Config) (manager : TwoPhaseLocking.Config) (x : Run) :
    Prop where
  reach : Engine.Reachable manager Mannerly x.engine
  length : x.workers.length = c.workers
  fits : ∀ t a, x.At t a → a.Fits w c x.engine
  apart : ∀ t t' a b h, x.At t a → x.At t' b → a.phase.handle? = some h →
    b.phase.handle? = some h → t = t'
  asleep : ∀ u, x.engine.Asleep u ↔ ∃ t a, x.At t a ∧ a.phase.sleeper? t = some u
  rest : ∀ h, x.Owned h ∨ (x.engine.txn h).locks = ∅ ∧ (x.engine.txn h).isAborted = false
  active : ∀ id h, x.engine.active[id]? = some h → (x.engine.txn h).id = id ∧ x.Owned h
  counts : ∀ k writing, (x.count k).number writing = x.total (·.present k writing)
  successful : x.successful = x.total (·.made)
  failed : x.failed = 0
  begun : x.engine.txns.size = x.total (·.begun)
  ids : ∀ h < x.engine.txns.size, (x.engine.txn h).id = h
  nextId : x.engine.nextId = x.engine.txns.size
  requests : x.engine.stats.lockRequests = .ofNat (x.total (·.asked (c.perTxn w)))
  answers : x.engine.stats.immediateGrants + x.engine.stats.waits = x.engine.stats.lockRequests
  plain : x.engine.stats.upgrades = 0 ∧ x.engine.stats.abortedWaits = 0

theorem at_of_modify (here : x.At t a) (moved : x'.workers = x.workers.modify t f) :
    x'.At t' b ↔ t' = t ∧ b = f a ∨ t' ≠ t ∧ x.At t' b := by
  rw [At] at here
  rw [At, moved, List.getElem?_modify]
  by_cases same : t' = t
  · subst same
    simp [here, eq_comm]
  · simp [same, Ne.symm same, At]

theorem sum_map_modify {l : List Worker} (here : l[t]? = some a) (g : Worker → Nat) :
    ((l.modify t f).map g).sum + g a = (l.map g).sum + g (f a) := by
  induction l generalizing t with
  | nil => cases here
  | cons b l ih =>
    cases t with
    | zero =>
      cases here
      simp [Nat.add_comm, Nat.add_left_comm]
    | succ t =>
      have rest := ih (t := t) here
      rw [List.modify_succ_cons, List.map_cons, List.sum_cons, List.map_cons, List.sum_cons]
      omega

theorem total_of_modify (here : x.At t a) (moved : x'.workers = x.workers.modify t f)
    (g : Worker → Nat) : x'.total g + g a = x.total g + g (f a) := by
  rw [total, moved]
  exact sum_map_modify here g

end Run

section Goals

variable {w : Workload} {c : Config} {i : Nat} {pick : Choice} {done todo : List Goal} {goal : Goal}

theorem Choice.Valid.length_slots (valid : pick.Valid c) :
    (pick.slots.take (max 1 c.rowsPerTxn)).length = c.batchSize := by
  rw [List.length_take, valid.slots.length_eq, List.length_range, Config.batchSize]

theorem Choice.Valid.nodup_slots (valid : pick.Valid c) :
    (pick.slots.take (max 1 c.rowsPerTxn)).Nodup :=
  (valid.slots.nodup_iff.2 List.nodup_range).sublist (List.take_sublist ..)

theorem length_goals (valid : pick.Valid c) : (w.goals c i pick).length = c.perTxn w := by
  cases w with
  | tables => rfl
  | rows =>
    rw [Workload.goals, List.length_cons, List.length_map, valid.length_slots, Nat.add_comm]
    rfl

/-- A row comes after its table, and after other rows of it. -/
structure Goal.Follows (goal : Goal) (done : List Goal) : Prop where
  mode : goal.lock.mode = .exclusive
  row : ∃ table row, goal.lock.resource = .row table row ∧ row.page = table ∧
    (∃ g ∈ done, g.lock = ⟨.table table, .intentionExclusive⟩) ∧
    ∀ g ∈ done, g.lock.resource.isTable = true → g.lock = ⟨.table table, .intentionExclusive⟩
  fresh : ∀ g ∈ done, g.lock.resource ≠ goal.lock.resource

/-- The first lock is on a table, and all that follow are on rows of it. -/
theorem goals_split (valid : pick.Valid c) (split : w.goals c i pick = done ++ goal :: todo) :
    (done = [] ∧ goal.lock.resource.isTable = true) ∨ w = .rows ∧ goal.Follows done ∧
      done.length ≤ c.batchSize := by
  cases w with
  | tables =>
    cases done with
    | nil =>
      cases split
      exact .inl ⟨rfl, rfl⟩
    | cons d ds => simp [Workload.goals] at split
  | rows =>
    cases done with
    | nil =>
      cases split
      exact .inl ⟨rfl, rfl⟩
    | cons d ds =>
      obtain ⟨rfl, rows⟩ := List.cons_eq_cons.1 split
      obtain ⟨before, after, taken, rfl, next⟩ := List.map_eq_append_iff.1 rows
      obtain ⟨slot, after, rfl, rfl, rfl⟩ := List.map_eq_cons_iff.1 next
      have nodup := valid.nodup_slots
      have length := valid.length_slots
      rw [taken] at nodup length
      rw [List.length_append, List.length_cons] at length
      have earlier : ∀ g ∈ before.map fun slot =>
            (⟨⟨.row pick.table ⟨pick.table, slot⟩, .exclusive⟩, true⟩ : Goal),
          ∃ slot' ∈ before, g.lock = ⟨.row pick.table ⟨pick.table, slot'⟩, .exclusive⟩ := by
        intro g there
        obtain ⟨slot', earlier, rfl⟩ := List.mem_map.1 there
        exact ⟨slot', earlier, rfl⟩
      refine .inr ⟨rfl, ⟨rfl, ⟨_, _, rfl, rfl, ?_, ?_⟩, ?_⟩, ?_⟩
      · exact ⟨_, List.mem_cons_self, rfl⟩
      · intro g there table
        rcases List.mem_cons.1 there with rfl | there
        · rfl
        · obtain ⟨slot', -, lock⟩ := earlier g there
          rw [lock] at table
          cases table
      · intro g there same
        rcases List.mem_cons.1 there with rfl | there
        · cases same
        · obtain ⟨slot', there, lock⟩ := earlier g there
          rw [lock] at same
          cases same
          exact (List.nodup_append.1 nodup).2.2 _ there _ List.mem_cons_self rfl
      · rw [List.length_cons, List.length_map]
        omega

/-- The next lock is new to the transaction, and the rules have no objection to it. -/
structure Goal.Admitted (goal : Goal) (s : Engine) (h : Handle) (t : Nat) : Prop where
  reaches : s.Reaches ⟨t, h, goal.lock.mode, goal.lock.resource⟩
  free : (s.txn h).locks.mode? goal.lock.resource = none
  known : goal.lock.resource.Known RowId.page
  plain : goal.lock.resource.isRow = false ∨ goal.lock.mode.isIntention = false

/-- As long as something is still to come the transaction has all that came before. -/
theorem Phase.Fits.exists_plan {s : Engine} {p : Phase} {h : Handle} (fits : p.Fits w c s h)
    (next : p.ahead = goal :: todo) : ∃ i pick done, pick.Valid c ∧
      w.goals c i pick = done ++ goal :: todo ∧
      ∀ l, l ∈ (s.txn h).locks ↔ ∃ g ∈ done, g.lock = l := by
  obtain ⟨i, pick, done, valid, split, locks, all⟩ := fits.plan
  have lasts : p.closing = false := by
    cases p with
    | leaving => cases next
    | _ => rfl
  refine ⟨i, pick, done, valid, next ▸ split, fun l => ⟨locks l, ?_⟩⟩
  rintro ⟨g, there, rfl⟩
  exact all lasts g there

/-- What a transaction has asked for so far is part of all it asks for. -/
theorem Phase.Fits.length_lt {s : Engine} {p : Phase} {h : Handle} (fits : p.Fits w c s h)
    (next : p.ahead = goal :: todo) : todo.length < c.perTxn w := by
  obtain ⟨i, pick, done, valid, split, -⟩ := fits.exists_plan next
  have length := congrArg List.length split
  rw [length_goals valid, List.length_append, List.length_cons] at length
  omega

theorem Phase.Fits.admitted {s : Engine} {p : Phase} {h : Handle} (fits : p.Fits w c s h)
    (next : p.ahead = goal :: todo) (t : Nat) : goal.Admitted s h t := by
  obtain ⟨i, pick, done, valid, split, locks⟩ := fits.exists_plan next
  have usable := (Engine.isUsable_eq fits.known).trans fits.kept
  have active : (s.txn h).state.isTerminal = false := by rw [fits.growing]; rfl
  have isolated (m : Mode) : Policy.isolation (s.txn h).isolation (s.txn h).state m = none := by
    rw [fits.isolation, fits.growing]
    rfl
  rcases goals_split valid split with ⟨rfl, table⟩ | ⟨-, follows, -⟩
  · have free : (s.txn h).locks.mode? goal.lock.resource = none :=
      LockSet.mode?_eq_none_iff.2 fun m there => by
        obtain ⟨g, there, -⟩ := (locks _).1 there
        cases there
    have row : goal.lock.resource.isRow = false := by
      cases resource : goal.lock.resource with
      | table => rfl
      | row =>
        rw [resource] at table
        cases table
    refine ⟨⟨usable, active, ?_, ?_⟩, free, ?_, .inl row⟩
    · rw [free]
      exact (Option.some_ne_none _).symm
    · simp [Policy.request, isolated, free, row]
    · cases resource : goal.lock.resource with
      | table => trivial
      | row =>
        rw [resource] at row
        cases row
  · obtain ⟨table, row, resource, page, ⟨g, there, cover⟩, only⟩ := follows.row
    have free : (s.txn h).locks.mode? goal.lock.resource = none :=
      LockSet.mode?_eq_none_iff.2 fun m there => by
        obtain ⟨g, there, lock⟩ := (locks _).1 there
        exact follows.fresh g there (by rw [lock])
    have covered : (s.txn h).locks.mode? (.table table) = some .intentionExclusive := by
      obtain ⟨m, found⟩ := LockSet.exists_mode? ((locks _).2 ⟨g, there, cover⟩)
      obtain ⟨g', there', lock⟩ := (locks _).1 (LockSet.mem_of_mode? found)
      have same := only g' there' (by rw [lock]; rfl)
      rw [lock] at same
      cases same
      exact found
    refine ⟨⟨usable, active, ?_, ?_⟩, free, ?_, .inr (by rw [follows.mode]; rfl)⟩
    · rw [free]
      exact (Option.some_ne_none _).symm
    · rw [resource] at free ⊢
      simp [Policy.request, isolated, free, covered, follows.mode, Policy.rowMode,
        Policy.tableLockForRow, Policy.covers, Resource.isRow, Resource.tableId, Mode.isIntention]
    · rw [resource]
      exact page.symm

/-- The worker has come by the next lock. -/
theorem Phase.Fits.granted {s s' : Engine} {p p' : Phase} {h : Handle} {t : Nat}
    (fits : p.Fits w c s h) (books : s.Books RowId.page) (next : p.ahead = goal :: todo)
    (admitted : goal.Admitted s h t) (size : s'.txns.size = s.txns.size)
    (own : s'.txn h = (s.txn h).record goal.lock.resource goal.lock.mode)
    (next' : p'.ahead = todo) (claims : p'.claims = p.claims ∨ p'.claims = goal.lock :: p.claims) :
    p'.Fits w c s' h := by
  have recorded (l : Lock) : l ∈ (s'.txn h).locks ↔ l = goal.lock ∨ l ∈ (s.txn h).locks := by
    rw [own]
    exact LockSet.mem_record admitted.plain
  have new (l : Lock) (claimed : l ∈ p.claims) : l.resource.key ≠ goal.lock.resource.key := by
    intro same
    have there := fits.claims l claimed
    have free := admitted.free
    rw [← (books.known_of_mem there).eq admitted.known same] at free
    exact LockSet.mode?_eq_none_iff.1 free l.mode there
  exact {
    known := size ▸ fits.known
    kept := own ▸ fits.kept
    growing := own ▸ fits.growing
    isolation := own ▸ fits.isolation
    plan := by
      obtain ⟨i, pick, done, valid, split, locks⟩ := fits.exists_plan next
      have all (l : Lock) : l ∈ (s'.txn h).locks ↔ ∃ g ∈ done ++ [goal], g.lock = l := by
        rw [recorded, locks]
        simp only [List.mem_append, List.mem_singleton, or_and_right, exists_or, exists_eq_left]
        rw [or_comm, @eq_comm _ l]
      refine ⟨i, pick, done ++ [goal], valid, ?_, fun l => (all l).1, fun _ g there => ?_⟩
      · rw [split, next', List.append_assoc, List.singleton_append]
      · exact (all g.lock).2 ⟨g, there, rfl⟩
    claims := fun l claimed => (recorded l).2 <| by
      rcases claims with same | more
      · exact .inr (fits.claims l (same ▸ claimed))
      · rw [more] at claimed
        exact (List.mem_cons.1 claimed).imp_right (fits.claims l)
    once := by
      rcases claims with same | more
      · exact same ▸ fits.once
      · rw [more, List.map_cons, List.nodup_cons]
        refine ⟨fun there => ?_, fits.once⟩
        obtain ⟨l, claimed, same⟩ := List.mem_map.1 there
        exact new l claimed same }

end Goals

end TwoPhaseLocking.Stress
