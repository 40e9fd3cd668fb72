import Mathlib.Data.Nat.Find
import TwoPhaseLocking.Proofs.Bookkeeping
import TwoPhaseLocking.Proofs.Frame
import TwoPhaseLocking.Proofs.Waits

/-! # A detection pass removes every deadlock

The graph of a pass is drawn before anybody is aborted. Its victims wait for nobody any more
once they are aborted, and the graph without them has no cycle. What wakes up afterwards
brings none back. A pass that stops at its first victim leaves one call less that could be a
victim again, so passes run out of victims.
-/

namespace TwoPhaseLocking.Engine

variable {tableOf : RowId → TableId} {config : Config} {s s' s₀ : Engine} {m : Move}
  {h : Handle} {v : TxnId}

/-- The register knows transactions by their identifiers, and nobody who has a call asleep
has committed. -/
structure Enrolled (s : Engine) : Prop where
  registry : ∀ id h, s.registry[id]? = some h → h < s.txns.size ∧ (s.txn h).id = id
  uncommitted : ∀ h ∈ s.callers, (s.txn h).state ≠ .committed

/-- Nobody is made to have committed while a call of his sleeps. -/
def Calm (s : Engine) : Move → Prop
  | .mark h .commit => ¬ s.HasCall h
  | .mark h (.setState state) => s.HasCall h → state ≠ .committed
  | _ => True

theorem calm_of_causes {e : Event} (only : e.OnlyAborted s₀) (causes : e.Causes s₀ s m) :
    s.Calm m := by
  cases m with
  | mark h k =>
    cases k with
    | commit =>
      obtain ⟨callers, rfl⟩ := causes
      rw [Calm, hasCall_iff, callers, ← hasCall_iff]
      exact fun asleep => nomatch only h rfl asleep
    | setState state =>
      obtain ⟨rfl, rfl⟩ := causes
      intro asleep
      rw [beq_iff_eq.1 (only h rfl asleep)]
      exact TxnState.noConfusion
    | _ => trivial
  | _ => trivial

theorem enrolled_fresh (config : Config) : (fresh config).Enrolled where
  registry := by simp [fresh]
  uncommitted := by simp [fresh, callers]

theorem Does.admits {c : LockCall} (does : s.Does m s') (call : m.call? = some c) :
    ∃ held, s.Admits c held := by
  cases does with
  | join admitted =>
    cases call
    exact ⟨_, admitted⟩
  | swap admitted =>
    cases call
    exact ⟨_, admitted⟩
  | _ => cases call

/-- Only a commit, or being set so, makes a transaction committed. -/
theorem Mark.state_apply_ne {k : Mark} {t : Transaction} (before : t.state ≠ .committed)
    (marked : k ≠ .commit) (set : k ≠ .setState .committed) :
    (k.apply t).state ≠ .committed := by
  intro committed
  rcases k.state_apply t with same | leads
  · exact before (same.symm.trans committed)
  · rw [committed] at leads
    cases k <;> simp_all [Mark.state?]

theorem Enrolled.move (enrolled : s.Enrolled) (books : s.Books tableOf) (does : s.Does m s')
    (calm : s.Calm m) : s'.Enrolled where
  registry id h there := by
    have known : h < s.txns.size ∧ (s.txn h).id = id := by
      rcases does.registry_sub there with there | ⟨own, lt⟩
      · exact enrolled.registry id h there
      · exact ⟨lt, own⟩
    exact ⟨Nat.lt_of_lt_of_le known.1 does.size_le, (does.id_eq known.1).trans known.2⟩
  uncommitted h there := by
    rcases does.callers_sub there with there | ⟨c, call, rfl⟩
    · have before := enrolled.uncommitted h there
      have asleep := hasCall_iff.2 there
      obtain ⟨w, hw, rfl⟩ := asleep
      rcases does.txn_eq (books.known w hw) with eq | ⟨k, rfl, eq⟩
      · rw [eq]
        exact before
      · rw [eq]
        refine Mark.state_apply_ne before ?_ ?_
        · rintro rfl
          exact calm ⟨w, hw, rfl⟩
        · rintro rfl
          exact calm ⟨w, hw, rfl⟩ rfl
    · obtain ⟨held, admitted⟩ := does.admits call
      have active := admitted.active
      rcases does.txn_eq admitted.known with eq | ⟨k, rfl, -⟩
      · rw [eq]
        intro committed
        rw [show (s.txn c.handle).state = .committed from committed] at active
        cases active
      · cases call

/-- The state of affairs in a run whose clients let nothing happen to a transaction with a call
asleep but an abort. -/
theorem Reachable.enrolled
    (reach : Reachable config (fun s e => e.Fair tableOf s ∧ e.OnlyAborted s) s) :
    s.Books tableOf ∧ s.Enrolled := by
  refine reach.keeps (P := fun s => s.Books tableOf ∧ s.Enrolled)
    ⟨books_fresh config, enrolled_fresh config⟩ ?_
  rintro s₀ e ⟨fair, only⟩ s m s' ⟨books, enrolled⟩ does causes
  exact ⟨books.move does (fair_of_causes fair causes),
    enrolled.move books does (calm_of_causes only causes)⟩

theorem Reachable.config_eq {may : Engine → Event → Prop} (reach : Reachable config may s) :
    s.config = config :=
  reach.keeps (P := fun s => s.config = config) rfl
    fun _ _ _ _ _ _ same does _ => does.config_eq.trans same

/-- Whoever waits has a call asleep, is registered and is not aborted. -/
theorem Waits.caller {a b : TxnId} (waits : s.Waits a b) (books : s.Books tableOf)
    (enrolled : s.Enrolled) :
    ∃ h ∈ s.callers, s.lookup a = some h ∧ (s.txn h).isAborted = false := by
  obtain ⟨blockable, k, edge⟩ := waits
  obtain ⟨⟨x, hx, own, waiting⟩, -⟩ := Queue.mem_waitEdges.1 edge
  obtain ⟨h, found, live⟩ := (Option.any_eq_true _ _).1 blockable
  obtain ⟨lt, id⟩ := enrolled.registry a h (Option.filter_eq_some_iff.1 found).1
  obtain ⟨v, asleep, own', -⟩ := books.asleep_of_waits hx waiting
  obtain rfl : v.handle = h :=
    books.ids _ h (books.known v asleep) lt (own'.symm.trans (own.trans id.symm))
  exact ⟨v.handle, hasCall_iff.1 ⟨v, asleep, rfl⟩, found, by simpa using live⟩

/-- Whoever is chosen as a victim has a call asleep and can be aborted. -/
theorem caller_of_mem_breakCycles (books : s.Books tableOf) (enrolled : s.Enrolled) {w : Walk}
    (complete : w.Complete) (victim : v ∈ (s.waitGraph w).breakCycles.1) :
    ∃ h ∈ s.callers, s.lookup v = some h ∧ h < s.txns.size ∧ (s.txn h).isAborted = false ∧
      (s.txn h).state ≠ .committed := by
  obtain ⟨b, edge⟩ := (WaitGraph.leads_of_mem_breakCycles victim).waits
  obtain ⟨h, asleep, found, live⟩ := ((mem_waitGraph complete).1 edge).caller books enrolled
  have lt := (enrolled.registry v h (Option.filter_eq_some_iff.1 found).1).1
  exact ⟨h, asleep, found, lt, live, enrolled.uncommitted h asleep⟩

/-- Transactions have been aborted, and nothing else has happened. -/
structure Sacrificed (s s' : Engine) : Prop where
  lookup : ∀ id, s'.lookup id = s.lookup id
  queue : ∀ k, s'.queue k = s.queue k
  size : s'.txns.size = s.txns.size
  aborted : ∀ h, (s.txn h).isAborted = true → (s'.txn h).isAborted = true
  uncommitted : ∀ h, (s.txn h).state ≠ .committed → (s'.txn h).state ≠ .committed

theorem Sacrificed.refl (s : Engine) : s.Sacrificed s :=
  ⟨fun _ => rfl, fun _ => rfl, rfl, fun _ aborted => aborted, fun _ uncommitted => uncommitted⟩

theorem Sacrificed.trans {s'' : Engine} (first : s.Sacrificed s') (second : s'.Sacrificed s'') :
    s.Sacrificed s'' where
  lookup id := (second.lookup id).trans (first.lookup id)
  queue k := (second.queue k).trans (first.queue k)
  size := second.size.trans first.size
  aborted h aborted := second.aborted h (first.aborted h aborted)
  uncommitted h uncommitted := second.uncommitted h (first.uncommitted h uncommitted)

/-- The state in which the victim has been aborted. -/
def withVictim (s : Engine) (h : Handle) : Engine :=
  (s.updateTxn h (·.abort (some .deadlock))).tally Stats.deadlockResolved

theorem abortVictim_eq (found : s.lookup v = some h) (uncommitted : (s.txn h).state ≠ .committed) :
    s.abortVictim v = some (s.withVictim h) := by
  simp [abortVictim, found, uncommitted, withVictim]

theorem exists_of_abortVictim (aborted : s.abortVictim v = some s') :
    ∃ h, s.lookup v = some h ∧ (s.txn h).state ≠ .committed ∧ s' = s.withVictim h := by
  unfold abortVictim at aborted
  split at aborted
  · cases aborted
  · rename_i h found
    split at aborted
    · cases aborted
    · rename_i uncommitted
      exact ⟨h, found, uncommitted, (Option.some.inj aborted).symm⟩

theorem winds_withVictim (h : Handle) : s.Winds (s.withVictim h) :=
  (winds_abort h _).trans (Does.winds (.side (.tally _)) trivial)

theorem sacrificed_withVictim (h : Handle) : s.Sacrificed (s.withVictim h) where
  lookup id := by
    have referred : (s.withVictim h).isReferred = s.isReferred := by
      funext h'
      rw [isReferred, isReferred, (winds_withVictim h).kept, (winds_withVictim h).ids]
      rfl
    rw [lookup, referred]
    rfl
  queue _ := rfl
  size := size_updateTxn _ _ _
  aborted := (winds_withVictim h).aborted
  uncommitted h' uncommitted := by
    rw [withVictim, txn_tally, txn_updateTxn]
    split
    · rename_i mine
      rw [← mine.1] at uncommitted
      rw [Transaction.state_abort, if_neg uncommitted]
      exact TxnState.noConfusion
    · exact uncommitted

theorem isAborted_withVictim (lt : h < s.txns.size) (uncommitted : (s.txn h).state ≠ .committed) :
    ((s.withVictim h).txn h).isAborted = true := by
  rw [withVictim, txn_tally, txn_updateTxn_self lt]
  exact isAborted_abort uncommitted _

/-- Every victim that can be aborted is. -/
theorem sacrifice_all (vs : List TxnId) : s.Sacrificed (s.sacrifice true vs).1 ∧
    ∀ v ∈ vs, ∀ h, s.lookup v = some h → h < s.txns.size → (s.txn h).state ≠ .committed →
      ((s.sacrifice true vs).1.txn h).isAborted = true := by
  induction vs generalizing s with
  | nil => exact ⟨.refl s, by simp⟩
  | cons u vs ih =>
    rw [sacrifice]
    split
    · rename_i unable
      obtain ⟨sacrificed, aborted⟩ := ih (s := s)
      refine ⟨sacrificed, fun v hv h found lt uncommitted => ?_⟩
      rcases List.mem_cons.1 hv with rfl | hv
      · rw [abortVictim_eq found uncommitted] at unable
        cases unable
      · exact aborted v hv h found lt uncommitted
    · rename_i s₁ able
      obtain ⟨h₁, found₁, uncommitted₁, rfl⟩ := exists_of_abortVictim able
      have first := sacrificed_withVictim (s := s) h₁
      obtain ⟨sacrificed, aborted⟩ := ih (s := s.withVictim h₁)
      refine ⟨first.trans sacrificed, fun v hv h found lt uncommitted => ?_⟩
      rcases List.mem_cons.1 hv with rfl | hv
      · have same : h₁ = h := Option.some.inj (found₁.symm.trans found)
        refine sacrificed.aborted h ?_
        rw [same]
        exact isAborted_withVictim lt uncommitted
      · exact aborted v hv h ((first.lookup v).trans found) (first.size ▸ lt)
          (first.uncommitted h uncommitted)

theorem books_of_path (books : s.Books tableOf) (path : Path (fun _ m => m.Winding) s s') :
    s'.Books tableOf :=
  path.keeps (fun _ _ _ books does winding => books.move does (fair_of_winding winding)) books

theorem enrolled_of_path (books : s.Books tableOf) (enrolled : s.Enrolled)
    (path : Path (fun _ m => m.Winding) s s') : s'.Enrolled := by
  refine (path.keeps (P := fun s => s.Books tableOf ∧ s.Enrolled) ?_ ⟨books, enrolled⟩).2
  rintro s m s' ⟨books, enrolled⟩ does winding
  refine ⟨books.move does (fair_of_winding winding), enrolled.move books does ?_⟩
  cases m with
  | mark h k =>
    cases k with
    | abort => trivial
    | _ => exact winding.elim
  | _ => trivial

theorem wake_winding (n : Nat) : Path (fun _ m => m.Winding) s (s.wake n).1 := by
  refine (wake_path n).mono fun s m causes => ?_
  cases m with
  | mark h k =>
    cases k with
    | abort => trivial
    | shrink =>
      obtain ⟨-, r, wrong⟩ := causes
      cases wrong
    | commit | setState | letGo => cases causes.2
  | begin | adopt | unregister | join | swap => cases causes.2
  | register h =>
    obtain ⟨-, c, wrong, -⟩ := causes
    cases wrong
  | retire id =>
    obtain ⟨-, h, -, wrong | ⟨wrong, -⟩⟩ := causes
    · cases wrong
    · cases wrong
  | give h r m =>
    obtain ⟨-, ⟨forced, wrong⟩ | wrong | wrong | ⟨wrong, -⟩⟩ := causes
    · cases wrong
    · cases wrong
    · cases wrong
    · cases wrong
  | _ => trivial

theorem wakes_winding (w : Walk) (ns : List Nat) :
    Path (fun _ m => m.Winding) s (s.afterAll w (ns.map .wake)) := by
  induction ns generalizing s with
  | nil => exact .refl _
  | cons n ns ih => exact (wake_winding n).trans ih

theorem detect_winding (w : Walk) : Path (fun _ m => m.Winding) s (s.detect w).1 :=
  detect_path (fun _ _ _ => trivial) (fun _ _ => trivial) (fun _ => trivial) w

theorem settle_winding : Path (fun _ m => m.Winding) s s.settle.1 :=
  settle_path (fun _ _ => trivial) (fun _ _ => trivial) (fun _ _ => trivial) fun _ => trivial

/-- Whoever is drawn as waiting can be aborted. -/
theorem Waits.not_of_aborted {a b : TxnId} (waits : s.Waits a b) {victims : List TxnId}
    (aborted : ∀ v ∈ victims, s.isBlockable v = false) : a ∉ victims := by
  intro victim
  have blockable := waits.1
  rw [aborted a victim] at blockable
  cases blockable

/-- When the victims of all cycles are aborted no deadlock is left. -/
theorem deadlockFree_sacrifice (books : s.Books tableOf) (enrolled : s.Enrolled) {w : Walk}
    (complete : w.Complete) : (s.sacrifice true (s.waitGraph w).breakCycles.1).1.DeadlockFree := by
  obtain ⟨sacrificed, aborted⟩ := sacrifice_all (s := s) (s.waitGraph w).breakCycles.1
  generalize (s.sacrifice true (s.waitGraph w).breakCycles.1).1 = s' at sacrificed aborted ⊢
  have before {a b : TxnId} (waits : s'.Waits a b) : s.Waits a b := by
    obtain ⟨blockable, k, edge⟩ := waits
    rw [sacrificed.queue] at edge
    refine ⟨?_, k, edge⟩
    simp only [isBlockable, sacrificed.lookup, Option.any_eq_true, Bool.not_eq_true'] at blockable ⊢
    obtain ⟨h, found, live⟩ := blockable
    refine ⟨h, found, ?_⟩
    by_contra dead
    rw [sacrificed.aborted h (by simpa using dead)] at live
    cases live
  have spared : ∀ v ∈ (s.waitGraph w).breakCycles.1, s'.isBlockable v = false := by
    intro v hv
    obtain ⟨h, -, found, lt, -, uncommitted⟩ :=
      caller_of_mem_breakCycles books enrolled complete hv
    have dead := aborted v hv h found lt uncommitted
    rw [isBlockable, sacrificed.lookup, found]
    simp [dead]
  intro v cycle
  obtain ⟨b, edge, -⟩ := Relation.TransGen.head'_iff.1 cycle
  refine WaitGraph.acyclic_breakCycles (s.waitGraph w) v ?_
  refine Relation.TransGen.mono (fun a b edge => ?_) v v (transGen_waiting cycle ⟨b, edge⟩)
  obtain ⟨waits, c, onward⟩ := edge
  exact WaitGraph.mem_breakCycles.2 ⟨(mem_waitGraph complete).2 (before waits),
    waits.not_of_aborted spared, onward.not_of_aborted spared⟩

/-- The moves before the first victim. -/
theorem counted_path : Path (fun _ m => m.Winding) s (s.tally Stats.detectionPass) :=
  .move (.side (.tally _)) trivial

/-- A pass that goes on until no cycle is left leaves no deadlock. -/
theorem deadlockFree_detect (books : s.Books tableOf) (enrolled : s.Enrolled)
    (all : s.config.resolveAll = true) {w : Walk} (complete : w.Complete) :
    (s.detect w).1.DeadlockFree := by
  have books' := books_of_path books counted_path
  have free := deadlockFree_sacrifice books' (enrolled_of_path books enrolled counted_path) complete
  have sacrificed : Path (fun _ m => m.Winding) (s.tally Stats.detectionPass)
      ((s.tally Stats.detectionPass).sacrifice true
        ((s.tally Stats.detectionPass).waitGraph w).breakCycles.1).1 :=
    sacrifice_path (fun _ _ _ => trivial) (fun _ => trivial) true _
  rw [← all] at free sacrificed
  exact free.path (books_of_path books' sacrificed)
    (rouse_path (fun _ _ => trivial) (fun _ => trivial) w _)

/-- How many calls are asleep whose transactions are not aborted. -/
def liveCalls (s : Engine) : Nat := s.callers.countP fun h => !(s.txn h).isAborted

theorem Winds.liveCalls_le (winds : s.Winds s') : s'.liveCalls ≤ s.liveCalls := by
  refine Nat.le_trans winds.callers.countP_le (List.countP_mono_left fun h _ live => ?_)
  by_contra dead
  rw [winds.aborted h (by simpa using dead)] at live
  cases live

theorem liveCalls_of_path (path : Path (fun _ m => m.Winding) s s') :
    s'.liveCalls ≤ s.liveCalls := by
  refine path.keeps (P := fun s' => s'.liveCalls ≤ s.liveCalls) ?_ (Nat.le_refl _)
  exact fun _ _ _ fewer does winding => Nat.le_trans (does.winds winding).liveCalls_le fewer

theorem countP_lt {α : Type} {p q : α → Bool} {l : List α} (le : ∀ a ∈ l, q a = true → p a = true)
    {a : α} (ha : a ∈ l) (hp : p a = true) (hq : q a = false) : l.countP q < l.countP p := by
  obtain ⟨xs, ys, rfl⟩ := List.append_of_mem ha
  have first := List.countP_mono_left (p := q) (q := p) (l := xs) fun b hb =>
    le b (List.mem_append_left _ hb)
  have last := List.countP_mono_left (p := q) (q := p) (l := ys) fun b hb =>
    le b (List.mem_append_right _ (List.mem_cons_of_mem _ hb))
  simp only [List.countP_append, List.countP_cons, hp, hq]
  simp only [↓reduceIte, Bool.false_eq_true]
  omega

/-- A victim that has a call asleep is one live call less. -/
theorem liveCalls_withVictim (asleep : h ∈ s.callers) (lt : h < s.txns.size)
    (live : (s.txn h).isAborted = false) (uncommitted : (s.txn h).state ≠ .committed) :
    (s.withVictim h).liveCalls < s.liveCalls := by
  refine countP_lt (fun h' _ alive => ?_) asleep (by simp [live])
    (by simp [isAborted_withVictim lt uncommitted])
  by_contra dead
  rw [(sacrificed_withVictim h).aborted h' (by simpa using dead)] at alive
  cases alive

theorem sacrifice_first {vs : List TxnId} (found : s.lookup v = some h)
    (uncommitted : (s.txn h).state ≠ .committed) :
    s.sacrifice false (v :: vs) = (s.withVictim h, [v]) := by
  rw [sacrifice, abortVictim_eq found uncommitted]
  rfl

/-- Such a pass finds no deadlock, or makes one victim of a live call. -/
theorem detect_first (books : s.Books tableOf) (enrolled : s.Enrolled)
    (first : s.config.resolveAll = false) {w : Walk} (complete : w.Complete) :
    (s.detect w).2 = [] ∧ s.DeadlockFree ∨
      (s.detect w).2.length = 1 ∧ (s.detect w).1.liveCalls < s.liveCalls := by
  have books' := books_of_path books counted_path
  have enrolled' := enrolled_of_path books enrolled counted_path
  have victims : (s.detect w).2 = ((s.tally Stats.detectionPass).sacrifice false
      ((s.tally Stats.detectionPass).waitGraph w).breakCycles.1).2 := by
    rw [← first]
    rfl
  have roused : Path (fun _ m => m.Winding) ((s.tally Stats.detectionPass).sacrifice false
      ((s.tally Stats.detectionPass).waitGraph w).breakCycles.1).1 (s.detect w).1 := by
    rw [← first]
    exact rouse_path (fun _ _ => trivial) (fun _ => trivial) w _
  cases chosen : ((s.tally Stats.detectionPass).waitGraph w).breakCycles.1 with
  | nil =>
    left
    rw [chosen] at victims
    exact ⟨victims, (acyclic_waitGraph_iff (s := s.tally Stats.detectionPass) complete).1
      (WaitGraph.breakCycles_eq_nil_iff.1 chosen)⟩
  | cons v vs =>
    right
    have victim : v ∈ ((s.tally Stats.detectionPass).waitGraph w).breakCycles.1 := by
      simp [chosen]
    obtain ⟨h, asleep, found, lt, live, uncommitted⟩ :=
      caller_of_mem_breakCycles books' enrolled' complete victim
    rw [chosen, sacrifice_first found uncommitted] at victims roused
    refine ⟨by rw [victims]; rfl, ?_⟩
    exact Nat.lt_of_le_of_lt (liveCalls_of_path roused)
      (liveCalls_withVictim asleep lt live uncommitted)

/-- Passes one after the other. Pass number `i` walks as `ws i` says, and before the next one the
calls with the numbers `ns i` look at their queues. -/
def rounds (ws : Nat → Walk) (ns : Nat → List Nat) (s : Engine) : Nat → Engine
  | 0 => s
  | i + 1 => ((rounds ws ns s i).detect (ws i)).1.afterAll (ws i) ((ns i).map .wake)

theorem rounds_winding (ws : Nat → Walk) (ns : Nat → List Nat) (i : Nat) :
    Path (fun _ m => m.Winding) s (s.rounds ws ns i) := by
  induction i with
  | zero => exact .refl s
  | succ i ih => exact (ih.trans (detect_winding _)).trans (wakes_winding _ _)

theorem config_of_path (path : Path (fun _ m => m.Winding) s s') : s'.config = s.config :=
  path.keeps (P := fun s' => s'.config = s.config)
    (fun _ _ _ same does _ => does.config_eq.trans same) rfl

/-- Each of the first `n` passes that makes a victim costs a live call. -/
theorem liveCalls_rounds (books : s.Books tableOf) (enrolled : s.Enrolled)
    (first : s.config.resolveAll = false) {ws : Nat → Walk} {ns : Nat → List Nat}
    (complete : ∀ i, (ws i).Complete) {n : Nat}
    (some : ∀ i < n, ((s.rounds ws ns i).detect (ws i)).2 ≠ []) :
    (s.rounds ws ns n).liveCalls + n ≤ s.liveCalls := by
  induction n with
  | zero => exact Nat.le_refl _
  | succ n ih =>
    have before := ih fun i lt => some i (Nat.lt_succ_of_lt lt)
    have path := rounds_winding (s := s) ws ns n
    have pass := detect_first (books_of_path books path) (enrolled_of_path books enrolled path)
      (by rw [config_of_path path, first]) (complete n)
    rcases pass with ⟨none, -⟩ | ⟨-, fewer⟩
    · exact absurd none (some n (Nat.lt_succ_self n))
    · have woken := liveCalls_of_path
        (wakes_winding (s := ((s.rounds ws ns n).detect (ws n)).1) (ws n) (ns n))
      rw [rounds]
      omega

/-- Some pass makes no victim, and those before it are no more than there are live calls. -/
theorem exists_last_round (books : s.Books tableOf) (enrolled : s.Enrolled)
    (first : s.config.resolveAll = false) {ws : Nat → Walk} (complete : ∀ i, (ws i).Complete)
    (ns : Nat → List Nat) :
    ∃ n ≤ s.liveCalls, (∀ i < n, ((s.rounds ws ns i).detect (ws i)).2 ≠ []) ∧
      ((s.rounds ws ns n).detect (ws n)).2 = [] := by
  have ends : ∃ n, ((s.rounds ws ns n).detect (ws n)).2 = [] := by
    by_contra never
    push Not at never
    have spent := liveCalls_rounds books enrolled first complete (n := s.liveCalls + 1)
      fun i _ => never i
    omega
  classical
  refine ⟨Nat.find ends, ?_, fun i lt => Nat.find_min ends lt, Nat.find_spec ends⟩
  have spent := liveCalls_rounds books enrolled first complete fun i lt => Nat.find_min ends lt
  omega

/-- In every state that clients can lead to who let nothing happen to a transaction with a call
asleep but an abort, a pass that breaks all cycles leaves no cycle, whoever looks at his queue
afterwards, and in particular when all have. If passes stop at their first victim, repeating them
comes to one without a victim, after no more victims than there are calls asleep, and then no
cycle is left. -/
theorem detection_removes_deadlocks
    (reach : Reachable config (fun s e => e.Fair tableOf s ∧ e.OnlyAborted s) s) :
    (config.resolveAll = true → ∀ w w', w.Complete → w'.Complete →
      (((s.detect w).1.settle).1.waitGraph w').Acyclic ∧
      ∀ ns : List Nat, (((s.detect w).1.afterAll w (ns.map .wake)).waitGraph w').Acyclic) ∧
    (config.resolveAll = false → ∀ ws ns, (∀ i, (ws i).Complete) →
      ∃ n ≤ s.sleepers.length,
        (∀ i < n, ((s.rounds ws ns i).detect (ws i)).2.length = 1) ∧
        ((s.rounds ws ns n).detect (ws n)).2 = [] ∧
        ∀ w, w.Complete → ((((s.rounds ws ns n).detect (ws n)).1.settle).1.waitGraph w).Acyclic ∧
          ((s.rounds ws ns (n + 1)).waitGraph w).Acyclic) := by
  obtain ⟨books, enrolled⟩ := reach.enrolled
  have config_eq := reach.config_eq
  constructor
  · intro all w w' complete complete'
    have free := deadlockFree_detect books enrolled (by rw [config_eq, all]) complete
    have books' := books_of_path books (detect_winding (s := s) w)
    exact ⟨(acyclic_waitGraph_iff complete').2 (free.path books' settle_winding),
      fun ns => (acyclic_waitGraph_iff complete').2 (free.path books' (wakes_winding w ns))⟩
  · intro first ws ns complete
    rw [← config_eq] at first
    obtain ⟨n, le, before, last⟩ := exists_last_round books enrolled first complete ns
    have pass (i : Nat) := detect_first (s := s.rounds ws ns i)
      (books_of_path books (rounds_winding ws ns i))
      (enrolled_of_path books enrolled (rounds_winding ws ns i))
      (by rw [config_of_path (rounds_winding ws ns i), first]) (complete i)
    refine ⟨n, ?_, fun i lt => ?_, last, fun w complete' => ?_⟩
    · refine Nat.le_trans le (Nat.le_trans List.countP_le_length ?_)
      rw [callers, List.length_map]
    · rcases pass i with ⟨none, -⟩ | ⟨one, -⟩
      · exact absurd none (before i lt)
      · exact one
    · have free : (s.rounds ws ns n).DeadlockFree := by
        rcases pass n with ⟨-, free⟩ | ⟨one, -⟩
        · exact free
        · rw [last] at one
          cases one
      have books' := books_of_path books (rounds_winding (s := s) ws ns n)
      have passed := detect_winding (s := s.rounds ws ns n) (ws n)
      exact ⟨(acyclic_waitGraph_iff complete').2 (free.path books' (passed.trans settle_winding)),
        (acyclic_waitGraph_iff complete').2
          (free.path books' (passed.trans (wakes_winding (ws n) (ns n))))⟩

/-- For instance when two transactions wait for each other, whether passes break all cycles or
stop at their first victim. -/
theorem detection_removes_deadlocks_of_two :
    let crossed := [Event.op (.begin .repeatableRead), .op (.begin .repeatableRead),
      .op (.lock ⟨2, 0, .exclusive, .table 1⟩), .op (.lock ⟨3, 1, .exclusive, .table 2⟩),
      .op (.lock ⟨4, 0, .exclusive, .table 2⟩), .op (.lock ⟨5, 1, .exclusive, .table 1⟩)]
    let s := (fresh {}).afterAll .ascending crossed
    let s' := (fresh { resolveAll := false }).afterAll .ascending crossed
    ((s.waitGraph .ascending).findCycle? = some [0, 1] ∧ (s.detect .ascending).2 = [1] ∧
      (((s.detect .ascending).1.settle).1.waitGraph .ascending).Acyclic) ∧
    ∃ n ≤ s'.sleepers.length,
      ((s'.rounds (fun _ => .ascending) (fun _ => []) n).detect .ascending).2 = [] := by
  intro crossed s s'
  have complete := Walk.complete_ascending
  have reach : Reachable {} (fun s e => e.Fair (fun _ => 0) s ∧ e.OnlyAborted s) s :=
    Reachable.afterAll complete .fresh (by decide +kernel)
  have reach' : Reachable { resolveAll := false }
      (fun s e => e.Fair (fun _ => 0) s ∧ e.OnlyAborted s) s' :=
    Reachable.afterAll complete .fresh (by decide +kernel)
  have removed := detection_removes_deadlocks reach
  have removed' := detection_removes_deadlocks reach'
  obtain ⟨n, le, -, last, -⟩ :=
    removed'.2 rfl (fun _ => .ascending) (fun _ => []) fun _ => complete
  exact ⟨⟨by decide +kernel, by decide +kernel, (removed.1 rfl _ _ complete complete).1⟩,
    n, le, last⟩

end TwoPhaseLocking.Engine
