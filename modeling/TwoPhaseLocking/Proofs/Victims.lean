import TwoPhaseLocking.Proofs.Lifecycle
import TwoPhaseLocking.Proofs.Walks

/-! # The victims of detection passes

A pass chooses its victims before it aborts any of them, each the youngest on a cycle of the graph,
and aborts all of them before it wakes anybody. Whoever it aborts was alive with a call asleep, and
is aborted for good. So nobody is a victim twice, and no victim commits.
-/

namespace TwoPhaseLocking.Engine

variable {tableOf : RowId → TableId} {config : Config} {s s' : Engine} {h : Handle} {w w' : Walk}
  {v : TxnId} {vs : List TxnId} {e : Event} {past : List (Engine × Event)}

/-- Exactly these transactions have been aborted on account of a deadlock, and have been counted. -/
structure Toll (s s' : Engine) (victims : List TxnId) : Prop where
  struck : ∀ v ∈ victims, ∀ h, s.lookup v = some h → s'.txn h = (s.txn h).abort (some .deadlock)
  spared : ∀ h, (s.txn h).id ∉ victims → s'.txn h = s.txn h
  counted : s'.stats.deadlocksResolved =
    s.stats.deadlocksResolved + UInt64.ofNat victims.length

/-- The register knows transactions by their identifiers. -/
def Named (s : Engine) : Prop :=
  ∀ v h, s.lookup v = some h → h < s.txns.size ∧ (s.txn h).id = v

theorem Enrolled.named (enrolled : s.Enrolled) : s.Named :=
  fun v h found => enrolled.registry v h (Option.filter_eq_some_iff.1 found).1

theorem Named.withVictim (named : s.Named) (h : Handle) : (s.withVictim h).Named := by
  intro v h' found
  rw [(sacrificed_withVictim h).lookup] at found
  rw [(sacrificed_withVictim h).size, (winds_withVictim h).ids]
  exact named v h' found

theorem txn_withVictim_of_ne {h' : Handle} (other : h' ≠ h) :
    (s.withVictim h).txn h' = s.txn h' := by
  rw [withVictim, txn_tally, txn_updateTxn_of_ne other]

theorem toll_nil (s : Engine) : s.Toll s [] where
  struck := by simp
  spared _ _ := rfl
  counted := by simp

/-- One victim, and then others. -/
theorem Toll.cons (toll : (s.withVictim h).Toll s' vs) (named : s.Named)
    (found : s.lookup v = some h) (new : v ∉ vs) : s.Toll s' (v :: vs) := by
  obtain ⟨known, id⟩ := named v h found
  have ids := (winds_withVictim (s := s) h).ids
  constructor
  case struck =>
    intro u hu h' found'
    rcases List.mem_cons.1 hu with rfl | later
    · cases found.symm.trans found'
      rw [toll.spared h (by rw [ids, id]; exact new), withVictim, txn_tally,
        txn_updateTxn_self known]
    · have other : h' ≠ h := by
        rintro rfl
        exact new (id.symm.trans (named u h' found').2 ▸ later)
      rw [toll.struck u later h' (((sacrificed_withVictim h).lookup u).trans found'),
        txn_withVictim_of_ne other]
  case spared =>
    intro h' off
    rw [List.mem_cons, not_or] at off
    have other : h' ≠ h := by
      rintro rfl
      exact off.1 id
    rw [toll.spared h' (by rw [ids]; exact off.2), txn_withVictim_of_ne other]
  case counted =>
    rw [toll.counted, List.length_cons]
    change s.stats.deadlocksResolved + 1 + _ = _
    rw [UInt64.ofNat_add, UInt64.add_assoc, UInt64.add_comm 1]
    rfl

theorem sublist_sacrifice (all : Bool) (vs : List TxnId) : (s.sacrifice all vs).2.Sublist vs := by
  induction vs generalizing s with
  | nil => exact .slnil
  | cons v vs ih =>
    rw [sacrifice]
    split
    · exact (ih (s := s)).cons v
    · rename_i s₁ able
      cases all with
      | true => exact (ih (s := s₁)).cons_cons v
      | false => exact (List.nil_sublist vs).cons_cons v

theorem toll_sacrifice (named : s.Named) (nodup : vs.Nodup) (all : Bool) :
    s.Toll (s.sacrifice all vs).1 (s.sacrifice all vs).2 := by
  induction vs generalizing s with
  | nil => exact toll_nil s
  | cons v vs ih =>
    obtain ⟨new, nodup'⟩ := List.nodup_cons.1 nodup
    rw [sacrifice]
    split
    · exact ih named nodup'
    · rename_i s₁ able
      obtain ⟨h, found, -, rfl⟩ := exists_of_abortVictim able
      cases all with
      | true =>
        refine (ih (named.withVictim h) nodup').cons named found fun there => new ?_
        exact (sublist_sacrifice true vs).subset there
      | false => exact (toll_nil _).cons named found List.not_mem_nil

theorem stats_wakeEach (ids : List TxnId) : (ids.foldl (wakePending w) s).stats = s.stats := by
  have path : Path (fun _ m => ∃ k, m = .notify k) s (ids.foldl (wakePending w) s) :=
    wakeEach_path (fun _ k => ⟨k, rfl⟩) w ids
  refine path.keeps (P := fun s' => s'.stats = s.stats) ?_ rfl
  rintro s₁ m s₂ same does ⟨k, rfl⟩
  cases does
  exact same

/-- A pass aborts its victims, and then wakes calls. -/
theorem detect_eq (s : Engine) (w : Walk) : ∃ (s₁ : Engine) (victims woken : List TxnId),
    (s.tally Stats.detectionPass).sacrifice s.config.resolveAll
        ((s.tally Stats.detectionPass).waitGraph w).breakCycles.1 = (s₁, victims) ∧
      s.detect w = (woken.foldl (wakePending w) { s₁ with graph := ∅ }, victims) :=
  ⟨_, _, _, rfl, rfl⟩

theorem toll_detect (named : s.Named) : s.Toll (s.detect w).1 (s.detect w).2 := by
  obtain ⟨s₁, victims, woken, sacrificed, passed⟩ := s.detect_eq w
  have toll := toll_sacrifice (s := s.tally Stats.detectionPass) named
    (WaitGraph.nodup_breakCycles ((s.tally Stats.detectionPass).waitGraph w)) s.config.resolveAll
  rw [sacrificed] at toll
  rw [passed]
  exact ⟨fun v there h found => (txn_wakeEach _).trans (toll.struck v there h found),
    fun h off => (txn_wakeEach _).trans (toll.spared h off),
    (congrArg Stats.deadlocksResolved (stats_wakeEach _)).trans toll.counted⟩

/-- The victims are among those that break all cycles, in their order. -/
theorem sublist_detect : (s.detect w).2.Sublist
    ((s.tally Stats.detectionPass).waitGraph w).breakCycles.1 := by
  obtain ⟨s₁, victims, woken, sacrificed, passed⟩ := s.detect_eq w
  have among := sublist_sacrifice (s := s.tally Stats.detectionPass) s.config.resolveAll
    ((s.tally Stats.detectionPass).waitGraph w).breakCycles.1
  rwa [sacrificed, ← congrArg Prod.snd passed] at among

theorem nodup_detect : (s.detect w).2.Nodup :=
  (WaitGraph.nodup_breakCycles _).sublist sublist_detect

/-- The pass is counted before the graph is drawn, which makes no difference to it. -/
theorem waitGraph_tally (complete : w.Complete) (f : Stats → Stats) :
    (s.tally f).waitGraph w = s.waitGraph w :=
  waitGraphOf_congr ((complete.queues (s.tally f)).trans (complete.queues s).symm)

theorem mem_breakCycles_of_mem_detect (complete : w.Complete) (victim : v ∈ (s.detect w).2) :
    v ∈ (s.waitGraph w).breakCycles.1 := by
  rw [← waitGraph_tally complete Stats.detectionPass]
  exact sublist_detect.subset victim

/-- A pass has the same victims in whatever order it scans. -/
theorem victims_congr (complete : w.Complete) (complete' : w'.Complete) :
    (s.detect w).2 = (s.detect w').2 := by
  have same : (w.queues (s.tally Stats.detectionPass)).Perm (w'.queues _) :=
    (complete.queues _).trans (complete'.queues _).symm
  unfold detect
  dsimp only
  rw [waitGraphOf_congr same]

/-- A pass wakes calls, but ends none. -/
theorem asleep_detect (complete : w.Complete) {u : Sleeper} (asleep : u ∈ s.sleepers) :
    ∃ u' ∈ (s.detect w).1.sleepers, u'.call = u.call ∧ u'.handle = u.handle := by
  obtain ⟨s₁, victims, woken, sacrificed, passed⟩ := s.detect_eq w
  have still : u ∈ s₁.sleepers := by
    rw [← congrArg (·.1.sleepers) sacrificed]
    exact (sleepers_sacrifice _ _).symm ▸ asleep
  rw [passed, sleepers_wakeEach complete]
  refine ⟨_, List.mem_map_of_mem still, ?_⟩
  split
  · exact ⟨rfl, rfl⟩
  · exact ⟨rfl, rfl⟩

/-- Whom a pass aborts, and how. -/
structure Falls (s : Engine) (w : Walk) (v : TxnId) (u : Sleeper) : Prop where
  asleep : u ∈ s.sleepers
  id : (s.txn u.handle).id = v
  active : (s.txn u.handle).state.isTerminal = false
  tops : (s.waitGraph w).TopsCycle v
  known : u.handle < s.txns.size
  struck : (s.detect w).1.txn u.handle =
    { s.txn u.handle with state := .aborted, reason := some .deadlock }

theorem exists_falls (books : s.Books tableOf) (enrolled : s.Enrolled) (complete : w.Complete)
    (victim : v ∈ (s.detect w).2) : ∃ u, s.Falls w v u := by
  have chosen := mem_breakCycles_of_mem_detect complete victim
  obtain ⟨h, caller, found, known, live, uncommitted⟩ :=
    caller_of_mem_breakCycles books enrolled complete chosen
  obtain ⟨u, asleep, rfl⟩ := hasCall_iff.2 caller
  refine ⟨u, asleep, (enrolled.named v _ found).2, ?_,
    WaitGraph.topsCycle_of_mem_breakCycles chosen, known, ?_⟩
  · rw [Bool.eq_false_iff, Ne, TxnState.isTerminal_iff, not_or]
    refine ⟨uncommitted, fun aborted => ?_⟩
    rw [Transaction.isAborted_iff.2 aborted] at live
    cases live
  · rw [(toll_detect enrolled.named).struck v victim _ found, Transaction.abort, if_neg uncommitted]
    rfl

/-- The calls of victims return when all have looked. -/
theorem Watchful.returns_detect {silent : Handle → Prop} (watchful : s.Watchful tableOf silent)
    (complete : w.Complete) {u : Sleeper} (falls : s.Falls w v u) {cs : List Completion}
    (settles : (s.detect w).1.Settles cs s') : ⟨u.call, false⟩ ∈ cs := by
  have doomed : (s.detect w).1.Doomed u.handle := by
    have aborted : ((s.detect w).1.txn u.handle).isAborted = true := by rw [falls.struck]; rfl
    refine ⟨aborted, fun u' asleep mine => ?_⟩
    rw [← mine] at aborted
    exact ((watchful.detect complete).alert.told u' asleep aborted).resolve_right id
  obtain ⟨u', asleep, call, handle⟩ := asleep_detect complete falls.asleep
  exact call ▸ (settles.returns doomed).2 u' asleep handle

theorem Run.victim_aborted (run : Run config (fun s e => e.Fair tableOf s ∧ e.OnlyAborted s ∧
      e.SetsAborted s ∧ e.KeepsRegister) past s) {s₀ : Engine} (there : (s₀, .op .detect) ∈ past)
    (complete : w.Complete) (victim : v ∈ (s₀.detect w).2) :
    ∃ h, (s.txn h).id = v ∧ (s.txn h).state = .aborted := by
  induction run with
  | fresh => cases there
  | @next past s w' e run complete' allowed ih =>
    rcases List.mem_cons.1 there with now | before
    · cases now
      obtain ⟨books, enrolled⟩ := (run.reachable.mono fun _ _ allowed =>
        ⟨allowed.1, allowed.2.1⟩).enrolled
      -- the pass may have scanned in another order, but with the same victims
      rw [victims_congr complete complete'] at victim
      obtain ⟨u, falls⟩ := exists_falls books enrolled complete' victim
      have passed : s₀.after w' (.op .detect) = (s₀.detect w').1 := rfl
      refine ⟨u.handle, ?_, ?_⟩
      · rw [passed, falls.struck]
        exact falls.id
      · rw [passed, falls.struck]
    · obtain ⟨h, id, aborted⟩ := ih before
      rw [← Transaction.isAborted_iff] at aborted
      refine ⟨h, ?_, Transaction.isAborted_iff.1 (isAborted_after w' allowed.2.2.1 aborted)⟩
      rw [(ids_after h (lt_size_of_isAborted aborted)).2, id]

/-- In every run whose clients do nothing to a transaction with a call asleep but abort it, set no
state to another end, and strike nobody off: the victims of a pass are different transactions. Each
was growing or shrinking with a call asleep, and was the youngest on a cycle of the graph before the
pass. It is aborted for the deadlock, and its call returns without the lock when all have looked that
have been told something. All others are as they were, and the victims have been counted. Whoever was
a victim earlier in the run is not one again, and is aborted to this day. -/
theorem victims_of_pass (run : Run config (fun s e => e.Fair tableOf s ∧ e.OnlyAborted s ∧
      e.SetsAborted s ∧ e.KeepsRegister) past s) (complete : w.Complete) :
    (s.detect w).2.Nodup ∧
    (∀ v ∈ (s.detect w).2, ∃ u ∈ s.sleepers, (s.txn u.handle).id = v ∧
      ((s.txn u.handle).state = .growing ∨ (s.txn u.handle).state = .shrinking) ∧
      (∃ c, (s.waitGraph w).IsCycle c ∧ v ∈ c ∧ ∀ a ∈ c, a ≤ v) ∧
      ((s.detect w).1.txn u.handle).state = .aborted ∧
      ((s.detect w).1.txn u.handle).reason = some .deadlock ∧
      ∀ cs s', (s.detect w).1.Settles cs s' → ⟨u.call, false⟩ ∈ cs) ∧
    (∀ h, (s.txn h).id ∉ (s.detect w).2 → (s.detect w).1.txn h = s.txn h) ∧
    (s.detect w).1.stats.deadlocksResolved =
      s.stats.deadlocksResolved + UInt64.ofNat (s.detect w).2.length ∧
    ∀ s₀, (s₀, .op .detect) ∈ past → ∀ w₀ : Walk, w₀.Complete → ∀ v ∈ (s₀.detect w₀).2,
      v ∉ (s.detect w).2 ∧ ∃ h < s.txns.size, (s.txn h).id = v ∧ (s.txn h).state = .aborted := by
  have watchful := (run.mono fun _ _ allowed =>
    ⟨allowed.1, allowed.2.1, allowed.2.2.2⟩).watchful
  have books := watchful.books
  have enrolled := watchful.enrolled
  have toll := toll_detect (w := w) enrolled.named
  refine ⟨nodup_detect, fun v victim => ?_, toll.spared, toll.counted, ?_⟩
  · obtain ⟨u, falls⟩ := exists_falls books enrolled complete victim
    refine ⟨u, falls.asleep, falls.id, ?_, falls.tops, ?_, ?_,
      fun cs s' => watchful.returns_detect complete falls⟩
    · have active := falls.active
      cases state : (s.txn u.handle).state with
      | growing => exact .inl rfl
      | shrinking => exact .inr rfl
      | committed | aborted =>
        rw [state] at active
        cases active
    · rw [falls.struck]
    · rw [falls.struck]
  · intro s₀ there w₀ complete₀ v before
    obtain ⟨h, id, aborted⟩ := run.victim_aborted there complete₀ before
    have known := lt_size_of_isAborted (Transaction.isAborted_iff.2 aborted)
    refine ⟨fun again => ?_, h, known, id, aborted⟩
    obtain ⟨u, falls⟩ := exists_falls books enrolled complete again
    -- whoever falls now is alive, and nobody else has his identifier
    have active := falls.active
    rw [books.ids u.handle h falls.known known (falls.id.trans id.symm), aborted] at active
    cases active

/-- For instance when the first of three has been in a deadlock with the second, whom a pass has
chosen as its victim, and is in another one with the third now. -/
theorem victims_of_second_pass :
    let s₀ := (fresh {}).afterAll .ascending
      [.op (.begin .repeatableRead), .op (.begin .repeatableRead), .op (.begin .repeatableRead),
        .op (.lock ⟨3, 0, .exclusive, .table 1⟩), .op (.lock ⟨4, 1, .exclusive, .table 2⟩),
        .op (.lock ⟨5, 0, .exclusive, .table 2⟩), .op (.lock ⟨6, 1, .exclusive, .table 1⟩)]
    let s := (s₀.after .ascending (.op .detect)).afterAll .ascending
      [.wake 5, .wake 6, .op (.abort 1), .wake 5, .op (.lock ⟨10, 2, .exclusive, .table 3⟩),
        .op (.lock ⟨11, 0, .exclusive, .table 3⟩), .op (.lock ⟨12, 2, .exclusive, .table 1⟩)]
    ((s₀.detect .ascending).2 = [1] ∧ (s.detect .ascending).2 = [2]) ∧
      (∃ u ∈ s.sleepers, (s.txn u.handle).id = 2 ∧
        ((s.detect .ascending).1.txn u.handle).reason = some .deadlock ∧
        ⟨u.call, false⟩ ∈ (s.detect .ascending).1.settle.2) ∧
      (s.detect .ascending).1.txn 0 = s.txn 0 ∧
      (s.detect .ascending).1.stats.deadlocksResolved = s.stats.deadlocksResolved + 1 ∧
      ∃ h < s.txns.size, (s.txn h).id = 1 ∧ (s.txn h).state = .aborted := by
  intro s₀ s
  have complete := Walk.complete_ascending
  obtain ⟨first, run₀⟩ : ∃ first, Run {} (fun s e => e.Fair (fun _ => 0) s ∧ e.OnlyAborted s ∧
      e.SetsAborted s ∧ e.KeepsRegister) (first ++ []) s₀ :=
    Run.afterAll complete .fresh (by decide +kernel)
  obtain ⟨later, run⟩ : ∃ later, Run {} (fun s e => e.Fair (fun _ => 0) s ∧ e.OnlyAborted s ∧
      e.SetsAborted s ∧ e.KeepsRegister) (later ++ (s₀, .op .detect) :: (first ++ [])) s :=
    Run.afterAll complete (run₀.next complete (by decide +kernel)) (by decide +kernel)
  obtain ⟨-, falls, spared, counted, earlier⟩ := victims_of_pass run complete
  have before : (s₀.detect .ascending).2 = [1] := by decide +kernel
  have now : (s.detect .ascending).2 = [2] := by decide +kernel
  rw [now] at falls spared counted
  obtain ⟨u, asleep, id, -, -, -, reason, returns⟩ := falls 2 (List.mem_singleton_self 2)
  exact ⟨⟨before, now⟩, ⟨u, asleep, id, reason, returns _ _ (settles_settle _)⟩,
    spared 0 (by decide +kernel), counted,
    (earlier s₀ (by simp) .ascending complete 1 (by rw [before]; exact List.mem_singleton_self 1)).2⟩

end TwoPhaseLocking.Engine
