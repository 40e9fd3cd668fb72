import TwoPhaseLocking.Proofs.Interrupt
import TwoPhaseLocking.Proofs.Lifecycle

/-! # Commit against deadlock abort

A detection pass may abort a transaction while its commit is under way. Giving back a lock takes no
notice of that, so it makes no difference between which of them the abort falls. What counts is
whether it comes before the transaction is marked committed. Then the commit fails, and it is left
to the client to abort.
-/

namespace TwoPhaseLocking.Engine

/-- When others may act, seen from a commit. -/
inductive Moment where
  | before
  | within (gap : CommitGap)
  | after
deriving DecidableEq, Repr

/-- A commit with this many locks to give back is not yet decided. -/
def Moment.isInTime (m : Moment) (locks : Nat) : Bool :=
  match m with
  | before | within .checked => true
  | within (.releasing left) => left ≤ locks
  | within .committed | after => false

variable {tableOf : RowId → TableId} {config : Config} {s s' : Engine} {h : Handle} {w : Walk}
  {r : Resource} {m : Mode} {rs : List Resource} {e : Event} {past : List (Engine × Event)}

/-- Aborts a transaction on account of a deadlock. Nobody is woken for that yet. -/
def strike (s : Engine) (h : Handle) : Engine := s.updateTxn h (·.abort (some .deadlock))

/-- A commit of a transaction that others strike at this moment. -/
def commitStruck (moment : Moment) (w : Walk) (s : Engine) (h : Handle) : Engine × Outcome :=
  match moment with
  | .before => (s.strike h).commit w h
  | .within gap => commitWith (fun g s => if g = gap then s.strike h else s) w s h
  | .after => (s.commit w h).map (·.strike h) id

theorem txn_strike (known : h < s.txns.size) :
    (s.strike h).txn h = (s.txn h).abort (some .deadlock) := by
  rw [strike, txn_updateTxn_self known]

@[simp]
theorem id_strike : ((s.strike h).txn h).id = (s.txn h).id :=
  proj_updateTxn s h _ (·.id) (·.id_abort _) h

@[simp]
theorem locks_strike : ((s.strike h).txn h).locks = (s.txn h).locks :=
  proj_updateTxn s h _ (·.locks) (·.locks_abort _) h

/-- It is too late for a transaction that has committed. -/
theorem strike_commit (running : (s.txn h).state.isTerminal = false) :
    (s.updateTxn h (·.commit)).strike h = s.updateTxn h (·.commit) := by
  refine updateTxn_eq_self fun known => ?_
  rw [updateTxn, Array.size_modify] at known
  rw [txn_updateTxn_self known, Transaction.commit, if_neg (by simp [running])]
  rfl

theorem Balanced.strike (balanced : s.Balanced h) : (s.strike h).Balanced h :=
  balanced.congr id_strike locks_strike fun _ => .inl rfl

theorem Itemizes.strike (itemizes : s.Itemizes h rs) : (s.strike h).Itemizes h rs :=
  ⟨by rw [locks_strike]; exact itemizes.perm, itemizes.rowsFirst⟩

/-- Giving back a lock takes no notice of a strike. -/
theorem giveBack_strike : (s.strike h).giveBack h r m = (s.giveBack h r m).strike h := by
  have comm := updateTxn_comm (s := s.updateQueue r.key (·.remove (s.txn h).id)) (h := h)
    (f := (·.abort (some .deadlock))) (g := (·.forget r m)) fun t => by
      unfold Transaction.abort Transaction.forget
      split <;> rfl
  have dropped : (s.strike h).dropLock h r m = (s.dropLock h r m).strike h := by
    rw [dropLock, id_strike]
    exact comm
  rw [giveBack, dropped]
  rfl

theorem releaseEach_strike (balanced : s.Balanced h) (itemizes : s.Itemizes h rs)
    (done : releaseEach (fun _ s => s) s h rs = (s', .done)) :
    releaseEach (fun _ s => s) (s.strike h) h rs = (s'.strike h, .done) := by
  induction rs generalizing s with
  | nil =>
    cases done
    rfl
  | cons r rs ih =>
    obtain ⟨m, held⟩ := itemizes.exists_mode? List.mem_cons_self
    rw [releaseEach, balanced.unlock itemizes held] at done
    have held' : ((s.strike h).txn h).locks.mode? r = some m := by rw [locks_strike, held]
    rw [releaseEach, balanced.strike.unlock itemizes.strike held', giveBack_strike]
    exact ih (balanced.giveBack held) (itemizes.giveBack held) done

/-- A strike that is set for an earlier time does not happen. -/
theorem releaseEach_missed {left : Nat} (missed : rs.length < left) :
    releaseEach (fun n s => if n = left then s.strike h else s) s h rs =
      releaseEach (fun _ s => s) s h rs := by
  induction rs generalizing s with
  | nil =>
    have other : 0 ≠ left := Nat.ne_of_lt missed
    rw [releaseEach, releaseEach, if_neg other]
  | cons r rs ih =>
    rw [List.length_cons] at missed
    rw [releaseEach, releaseEach, if_neg (Nat.ne_of_lt missed)]
    split
    · exact ih (Nat.lt_of_succ_lt missed)
    · rfl

/-- A strike in the middle of it is as good as one at the end. -/
theorem releaseEach_struck {left : Nat} (reached : left ≤ rs.length) (balanced : s.Balanced h)
    (itemizes : s.Itemizes h rs) (done : releaseEach (fun _ s => s) s h rs = (s', .done)) :
    releaseEach (fun n s => if n = left then s.strike h else s) s h rs = (s'.strike h, .done) := by
  -- on the locks still to be given back: the strike comes now, or in the rest
  induction rs generalizing s with
  | nil =>
    cases done
    simp [releaseEach, Nat.le_zero.1 reached]
  | cons r rs ih =>
    obtain ⟨m, held⟩ := itemizes.exists_mode? List.mem_cons_self
    rw [releaseEach, balanced.unlock itemizes held] at done
    rw [releaseEach]
    rw [List.length_cons] at reached
    rcases Nat.lt_or_eq_of_le reached with later | now
    · rw [if_neg (Nat.ne_of_gt later), balanced.unlock itemizes held]
      exact ih (Nat.le_of_lt_succ later) (balanced.giveBack held) (itemizes.giveBack held) done
    · have held' : ((s.strike h).txn h).locks.mode? r = some m := by rw [locks_strike, held]
      rw [if_pos now.symm, balanced.strike.unlock itemizes.strike held', giveBack_strike]
      have missed : rs.length < left := now ▸ Nat.lt_succ_self rs.length
      exact (releaseEach_missed missed).trans
        (releaseEach_strike (balanced.giveBack held) (itemizes.giveBack held) done)

theorem Balanced.abortAndWake (balanced : s.Balanced h) : (s.abortAndWake w h).Balanced h := by
  have path : Path (fun _ a => a = .mark h (.abort none) ∨ ∃ k, a = .notify k) s
      (s.abortAndWake w h) := abortAndWake_path w (.inl rfl) fun _ k => .inr ⟨k, rfl⟩
  refine path.keeps (P := fun s => s.Balanced h) ?_ balanced
  rintro s₁ a s₂ balanced does (rfl | ⟨k, rfl⟩)
  · cases does
    refine balanced.congr ?_ ?_ fun _ => .inl rfl
    · exact proj_updateTxn s₁ h _ (·.id) (Mark.id_apply _) h
    · exact proj_updateTxn s₁ h _ (·.locks) (Mark.locks_apply _) h
  · cases does
    refine balanced.congr rfl rfl fun k' => ?_
    rw [queue_grantAndNotify]
    split
    · rename_i here
      exact .inr (by rw [here])
    · exact .inl rfl

/-- An abort succeeds and leaves nothing. -/
theorem Balanced.abort_done (balanced : s.Balanced h) (complete : w.Complete)
    (known : h < s.txns.size) (unfinished : (s.txn h).state ≠ .committed) :
    ∃ s', s.abort w h = (s', .done) ∧ s'.txn h = { (s.txn h).abort none with locks := ∅ } ∧
      s'.active = s.active.erase (s.txn h).id ∧ ∀ k, (s'.queue k).has (s.txn h).id = false := by
  obtain ⟨s₁, done, ended, balanced₁, -, active⟩ :=
    (balanced.abortAndWake (w := w)).releaseEach_done (itemizes_locks complete _ h)
  rw [txn_abortAndWake known] at ended
  refine ⟨s₁.retire (s.txn h).id, ?_, ended, ?_, fun k => ?_⟩
  · simp [abort, releaseAll, unfinished, done]
  · change s₁.active.erase _ = _
    rw [active, active_abortAndWake]
  · have none := balanced₁.no_request (by rw [ended]) k
    rw [ended] at none
    rwa [← Transaction.id_abort]

/-- Where a commit has left a transaction that was struck in time. -/
structure Struck (s : Engine) (h : Handle) (s' : Engine) : Prop where
  balanced : s'.Balanced h
  known : h < s'.txns.size
  txn : s'.txn h = { s.txn h with
    state := .aborted, reason := some .deadlock, locks := (s'.txn h).locks }
  active : s'.active = s.active

theorem Balanced.struck (balanced : s.Balanced h) (known : h < s.txns.size)
    (running : (s.txn h).state ≠ .committed) : Struck s h (s.strike h) where
  balanced := balanced.strike
  known := Nat.lt_of_lt_of_eq known (size_updateTxn s h _).symm
  txn := by
    rw [txn_strike known, Transaction.abort, if_neg running]
    rfl
  active := rfl

/-- Whoever was struck in time is aborted for it. -/
theorem Struck.abort_done {s₁ : Engine} (struck : Struck s h s₁) (complete : w.Complete) :
    ∃ s', s₁.abort w h = (s', .done) ∧
      s'.txn h = { s.txn h with state := .aborted, reason := some .deadlock, locks := ∅ } ∧
      s'.active = s.active.erase (s.txn h).id ∧ ∀ k, (s'.queue k).has (s.txn h).id = false := by
  have aborted : (s₁.txn h).state ≠ .committed := by
    rw [struck.txn]
    simp
  obtain ⟨s', done, ended, active, none⟩ := struck.balanced.abort_done complete struck.known aborted
  have id : (s₁.txn h).id = (s.txn h).id := by rw [struck.txn]
  rw [id] at active none
  refine ⟨s', done, ?_, by rw [active, struck.active], none⟩
  rw [ended, struck.txn]
  rfl

/-- A strike that comes too late makes no difference. -/
theorem commitStruck_eq_commit {m : Moment} (late : m.isInTime (w.locks s h).length = false)
    (active : (s.txn h).state.isTerminal = false)
    (released : releaseEach (fun _ s => s) s h (w.locks s h) = (s', .done))
    (running : (s'.txn h).state.isTerminal = false) :
    commitStruck m w s h = s.commit w h := by
  have spared := strike_commit running
  cases m with
  | before => cases late
  | within gap =>
    cases gap with
    | checked => cases late
    | releasing left =>
      have missed : (w.locks s h).length < left := by simpa [Moment.isInTime] using late
      have same := releaseEach_missed (s := s) (h := h) missed
      simp [commitStruck, commit, commitWith, active, same]
    | committed => simp [commitStruck, commit, commitWith, active, released, running, spared]
  | after =>
    simp only [commitStruck, commit, commitWith, active, released, running]
    exact congrArg (fun s => (retire s _, Outcome.done)) spared

theorem Balanced.commitStruck_late {m : Moment} (balanced : s.Balanced h) (complete : w.Complete)
    (known : h < s.txns.size) (active : (s.txn h).state.isTerminal = false)
    (late : m.isInTime (w.locks s h).length = false) :
    commitStruck m w s h = s.commit w h ∧ ∃ s', s.commit w h = (s', .done) ∧
      s'.txn h = { s.txn h with state := .committed, locks := ∅ } ∧
      s'.active = s.active.erase (s.txn h).id ∧ ∀ k, (s'.queue k).has (s.txn h).id = false := by
  obtain ⟨s₁, done, ended, balanced₁, size, same⟩ :=
    balanced.releaseEach_done (itemizes_locks complete s h)
  have running : (s₁.txn h).state.isTerminal = false := by rw [ended, active]
  have none := balanced₁.no_request (by rw [ended])
  rw [ended] at none
  refine ⟨commitStruck_eq_commit late active done running,
    (s₁.updateTxn h (·.commit)).retire (s.txn h).id, ?_, ?_, ?_, none⟩
  · simp [commit, commitWith, active, done, ended]
  · exact txn_committed (Nat.lt_of_lt_of_eq known size.symm) active ended _
  · exact congrArg (·.erase (s.txn h).id) same

/-- One that comes in time makes the commit fail. -/
theorem Balanced.commitStruck_in_time {m : Moment} (balanced : s.Balanced h)
    (complete : w.Complete) (known : h < s.txns.size)
    (active : (s.txn h).state.isTerminal = false)
    (inTime : m.isInTime (w.locks s h).length = true) :
    ∃ s', commitStruck m w s h = (s', .failed (.notActive (s.txn h).id .aborted)) ∧
      Struck s h s' := by
  have running : (s.txn h).state ≠ .committed := by
    intro committed
    rw [committed] at active
    cases active
  have struck := balanced.struck known running
  cases m with
  | before =>
    refine ⟨s.strike h, ?_, struck⟩
    have aborted : ((s.strike h).txn h).state = .aborted := by rw [struck.txn]
    simp [commitStruck, commit, commitWith, aborted]
  | within gap =>
    cases gap with
    | checked =>
      obtain ⟨s₁, done, ended, balanced₁, size, same⟩ :=
        balanced.strike.releaseEach_done (itemizes_locks complete (s.strike h) h)
      rw [struck.txn] at ended
      refine ⟨s₁, ?_, balanced₁, Nat.lt_of_lt_of_eq struck.known size.symm, ?_, same⟩
      · simp [commitStruck, commitWith, active, done, ended]
      · rw [ended]
    | releasing left =>
      have reached : left ≤ (w.locks s h).length := by simpa [Moment.isInTime] using inTime
      have itemizes := itemizes_locks complete s h
      obtain ⟨s₁, done, ended, balanced₁, size, same⟩ := balanced.releaseEach_done itemizes
      have released := releaseEach_struck reached balanced itemizes done
      have known₁ : h < s₁.txns.size := Nat.lt_of_lt_of_eq known size.symm
      have late := balanced₁.struck known₁ (by rw [ended]; exact running)
      have txn := late.txn
      rw [ended, locks_strike, ended] at txn
      refine ⟨s₁.strike h, ?_, late.balanced, late.known, ?_, same⟩
      · simp [commitStruck, commitWith, active, released, txn]
      · rw [txn]
    | committed => cases inTime
  | after => cases inTime

/-- The transaction was begun in the run. -/
def Begun (h : Handle) (past : List (Engine × Event)) : Prop :=
  ∃ s iso, (s, Event.op (.begin iso)) ∈ past ∧ s.txns.size = h

theorem begun_cons : Begun h ((s, e) :: past) ↔
    (∃ iso, e = .op (.begin iso)) ∧ s.txns.size = h ∨ Begun h past := by
  constructor
  · rintro ⟨s₀, iso, there, size⟩
    rcases List.mem_cons.1 there with now | before
    · cases now
      exact .inl ⟨⟨iso, rfl⟩, size⟩
    · exact .inr ⟨s₀, iso, before, size⟩
  · rintro (⟨⟨iso, rfl⟩, size⟩ | ⟨s₀, iso, before, size⟩)
    · exact ⟨s, iso, List.mem_cons_self, size⟩
    · exact ⟨s₀, iso, List.mem_cons_of_mem _ before, size⟩

theorem distinctIds_move {s₀ : Engine} {a : Move} (distinct : s.DistinctIds) (fresh : e.FreshId s₀)
    (does : s.Does a s') (causes : e.Causes s₀ s a) : s'.DistinctIds := by
  by_cases grows : (∃ iso, a = .begin iso) ∨ ∃ id iso, a = .adopt id iso
  · rcases grows with ⟨iso, rfl⟩ | ⟨id, iso, rfl⟩
    · obtain ⟨rfl, rfl⟩ := causes
      cases does
      exact distinct.push fresh
    · obtain ⟨rfl, rfl⟩ := causes
      cases does
      exact distinct.push fresh
  · push Not at grows
    have size : s'.txns.size = s.txns.size := does.size_eq grows.1 grows.2
    intro h h' lt lt' same
    rw [size] at lt lt'
    rw [does.id_eq lt, does.id_eq lt'] at same
    exact distinct h h' lt lt' same

theorem Reachable.distinctIds (reach : Reachable config (fun s e => e.FreshId s) s) :
    s.DistinctIds :=
  reach.keeps (fun h _ lt => absurd lt (Nat.not_lt_zero h))
    fun _ _ fresh _ _ _ distinct does causes => distinctIds_move distinct fresh does causes

/-- Whoever was begun in the run and is still running is listed under its identifier. -/
structure Enlisted (past : List (Engine × Event)) (s : Engine) : Prop where
  known : ∀ h, Begun h past → h < s.txns.size
  listed : ∀ h, Begun h past → (s.txn h).state.isTerminal = false → s.active[(s.txn h).id]? = some h

theorem enlisted_fresh (config : Config) : (fresh config).Enlisted [] where
  known := by simp [Begun]
  listed := by simp [Begun]

theorem Enlisted.begin {iso : Isolation} (enlisted : s.Enlisted past)
    (fresh : ∀ t ∈ s.txns, t.id ≠ s.nextId) :
    (s.begin iso).Enlisted ((s, .op (.begin iso)) :: past) := by
  have size : (s.begin iso).txns.size = s.txns.size + 1 := Array.size_push _
  have txn (h : Handle) : (s.begin iso).txn h =
      if h = s.txns.size then Transaction.start s.nextId iso else s.txn h := txn_push s _ h
  constructor
  case known =>
    intro h there
    rw [size]
    rcases begun_cons.1 there with ⟨-, rfl⟩ | before
    · exact Nat.lt_succ_self _
    · exact Nat.lt_succ_of_lt (enlisted.known h before)
  case listed =>
    intro h there running
    change (s.active.insert s.nextId s.txns.size)[_]? = some h
    rw [txn] at running ⊢
    rw [Std.ExtTreeMap.getElem?_insert]
    rcases begun_cons.1 there with ⟨-, rfl⟩ | before
    · rw [if_pos rfl, Transaction.start, if_pos Std.ReflCmp.compare_self]
    · have lt := enlisted.known h before
      rw [if_neg (Nat.ne_of_lt lt)] at running ⊢
      rw [if_neg fun same => fresh _ (txn_mem lt) (Std.compare_eq_iff_eq.1 same).symm]
      exact enlisted.listed h before running

/-- Whoever is struck off the list is running no more, and goes by an identifier of his own. -/
theorem Enlisted.after (enlisted : s.Enlisted past) (distinct : s.DistinctIds)
    (fresh : e.FreshId s) (set : e.SetsNoState) : (s.after w e).Enlisted ((s, e) :: past) := by
  by_cases begins : ∃ iso, e = .op (.begin iso)
  · obtain ⟨iso, rfl⟩ := begins
    exact enlisted.begin fresh
  push Not at begins
  have before (h : Handle) (begun : Begun h ((s, e) :: past)) : Begun h past :=
    (begun_cons.1 begun).resolve_left fun ⟨⟨iso, begin⟩, _⟩ => begins iso begin
  constructor
  case known => exact fun h begun => (ids_after h (enlisted.known h (before h begun))).1
  case listed =>
    intro h begun running
    have known := enlisted.known h (before h begun)
    have running' := (mayBecome_after (s := s) set).running running
    have there := enlisted.listed h (before h begun) running'
    rw [(ids_after h known).2]
    rcases active_after (s := s) (w := w) begins with same | ⟨h', known', struck, ended⟩
    · rw [same, there]
    · have other : (s.txn h').id ≠ (s.txn h).id := by
        intro same
        rw [distinct h' h known' known same, running] at ended
        cases ended
      rw [struck, Std.ExtTreeMap.getElem?_erase, if_neg (mt Std.compare_eq_iff_eq.1 other), there]

theorem Run.enlisted (run : Run config (fun s e => e.FreshId s ∧ e.SetsNoState) past s) :
    s.Enlisted past := by
  induction run with
  | fresh => exact enlisted_fresh config
  | next run _ allowed ih =>
    have distinct := (run.reachable.mono fun _ _ => And.left).distinctIds
    exact ih.after distinct allowed.1 allowed.2

/-- A commit of a running transaction, and a deadlock abort of it at any moment. In every state that
fair clients can lead to, if no call of it sleeps, it has as many requests in each queue as it has
locks there. Wherever that is so: if the abort comes too late it changes nothing, the commit
succeeds, and the transaction is committed and no longer active. If it comes in time the commit
fails, and the transaction is aborted for the deadlock. It stays in the list of active transactions
until an abort by its client, which succeeds. Either way it ends without locks and requests. As long
as nobody sets the state of a transaction, no reason was on record before, and if identifiers are
distinct it has been active since it was begun. -/
theorem commit_or_deadlock_abort (complete : w.Complete) (known : h < s.txns.size)
    (active : (s.txn h).state.isTerminal = false) (m : Moment) :
    (∀ config tableOf, Reachable config (fun s e => e.Fair tableOf s) s → ¬ s.HasCall h →
      s.Balanced h) ∧
    (s.Balanced h → m.isInTime (s.txn h).locks.size = false →
      commitStruck m w s h = s.commit w h ∧ ∃ s', s.commit w h = (s', .done) ∧
        s'.txn h = { s.txn h with state := .committed, locks := ∅ } ∧
        s'.active = s.active.erase (s.txn h).id ∧ ∀ k, (s'.queue k).has (s.txn h).id = false) ∧
    (s.Balanced h → m.isInTime (s.txn h).locks.size = true →
      ∃ s₁, commitStruck m w s h = (s₁, .failed (.notActive (s.txn h).id .aborted)) ∧
        (s₁.txn h).state = .aborted ∧ (s₁.txn h).reason = some .deadlock ∧
        s₁.active = s.active ∧ ∀ w' : Walk, w'.Complete → ∃ s', s₁.abort w' h = (s', .done) ∧
          s'.txn h = { s.txn h with state := .aborted, reason := some .deadlock, locks := ∅ } ∧
          s'.active = s.active.erase (s.txn h).id ∧ ∀ k, (s'.queue k).has (s.txn h).id = false) ∧
    (∀ config, Reachable config (fun _ e => e.SetsNoState) s → (s.txn h).reason = none) ∧
    ∀ config past, Run config (fun s e => e.FreshId s ∧ e.SetsNoState) past s →
      Begun h past → s.active[(s.txn h).id]? = some h := by
  have length : (s.txn h).locks.size = (w.locks s h).length := by
    rw [(complete.locks s h).length_eq, List.length_map]
    exact Std.ExtTreeSet.length_toList.symm
  rw [length]
  refine ⟨fun config tableOf reach noCall => reach.books.balanced known noCall,
    fun balanced late => balanced.commitStruck_late complete known active late,
    fun balanced inTime => ?_, fun config reach => ?_,
    fun config past run begun => run.enlisted.listed h begun active⟩
  · obtain ⟨s₁, failed, struck⟩ := balanced.commitStruck_in_time complete known active inTime
    refine ⟨s₁, failed, ?_, ?_, struck.active, fun w' complete' => struck.abort_done complete'⟩
    · rw [struck.txn]
    · rw [struck.txn]
  · by_contra reasoned
    rw [reach.reasoned_of_setsNoState h reasoned] at active
    cases active

/-- For instance when two rows and their table are to be given back, and the abort comes with one of
the three locks left, or after the last of them but with the transaction committed already. -/
theorem commit_or_deadlock_abort_of_row_writer :
    let begun := (fresh {}).after .ascending (.op (.begin .repeatableRead))
    let s := begun.afterAll .ascending
      [.op (.lock ⟨1, 0, .intentionExclusive, .table 5⟩),
        .op (.lock ⟨2, 0, .exclusive, .row 5 ⟨0, 0⟩⟩), .op (.lock ⟨3, 0, .shared, .row 5 ⟨0, 1⟩⟩)]
    let inTime : Moment := .within (.releasing 1)
    let late : Moment := .within .committed
    (∃ s₁ s', commitStruck inTime .ascending s 0 = (s₁, .failed (.notActive 0 .aborted)) ∧
      s₁.abort .ascending 0 = (s', .done) ∧ (s'.txn 0).reason = some .deadlock ∧
      s'.active = s.active.erase 0 ∧ (s'.queue (.table 5)).has 0 = false) ∧
    (∃ s', commitStruck late .ascending s 0 = (s', .done) ∧ (s'.txn 0).state = .committed ∧
      s'.active = s.active.erase 0 ∧ (s'.queue (.table 5)).has 0 = false) ∧
    (s.txn 0).reason = none ∧ s.active[0]? = some 0 := by
  intro begun s inTime late
  obtain ⟨later, run⟩ : ∃ later, Run {} (fun s e => e.Fair (fun _ => 5) s ∧ e.SetsNoState)
      (later ++ [(fresh {}, .op (.begin .repeatableRead))]) s :=
    Run.afterAll Walk.complete_ascending
      (.next .fresh Walk.complete_ascending (by decide +kernel)) (by decide +kernel)
  have reach := run.reachable
  have known : 0 < s.txns.size := by decide +kernel
  have active : (s.txn 0).state.isTerminal = false := by decide +kernel
  have id : (s.txn 0).id = 0 := by decide +kernel
  have ends := commit_or_deadlock_abort Walk.complete_ascending known active
  rw [id] at ends
  have balanced : s.Balanced 0 :=
    (ends late).1 {} (fun _ => 5) (reach.mono fun _ _ => And.left) (by decide +kernel)
  obtain ⟨-, -, struck, unreasoned, listed⟩ := ends inTime
  refine ⟨?_, ?_, unreasoned {} (reach.mono fun _ _ => And.right),
    listed {} _ (run.mono fun _ _ allowed => ⟨allowed.1.freshId, allowed.2⟩)
      ⟨fresh {}, .repeatableRead, by simp, rfl⟩⟩
  · obtain ⟨s₁, failed, -, -, -, aborts⟩ := struck balanced (by decide +kernel)
    obtain ⟨s', done, ended, gone, none⟩ := aborts .ascending Walk.complete_ascending
    exact ⟨s₁, s', failed, done, by rw [ended], gone, none _⟩
  · obtain ⟨same, s', done, ended, gone, none⟩ := (ends late).2.1 balanced (by decide +kernel)
    exact ⟨s', same.trans done, by rw [ended], gone, none _⟩

/-- A reason stays on record when the state is set by hand, and whoever was aborted is no longer
active then. And when clients make two lock calls at a time, a commit may leave the second request
behind that the transaction has in a queue, though locks and granted requests agree. -/
theorem commit_may_leave_something :
    let refused := (fresh {}).afterAll .ascending
      [.op (.begin .repeatableRead), .op (.unlock 0 (.table 1) false), .op (.setState 0 .growing)]
    let ended := (fresh {}).afterAll .ascending
      [.op (.begin .repeatableRead), .op (.abort 0), .op (.setState 0 .growing)]
    let doubled := (fresh {}).afterAll .ascending
      [.op (.begin .repeatableRead), .op (.begin .repeatableRead),
        .op (.lock ⟨2, 0, .exclusive, .table 1⟩), .op (.lock ⟨3, 1, .intentionShared, .table 1⟩),
        .op (.lock ⟨4, 1, .intentionShared, .table 1⟩), .op (.unlock 0 (.table 1) false),
        .wake 3, .wake 4]
    (Reachable {} (fun s e => e.Fair (fun _ => 1) s) refused ∧ refused.Agrees ∧
      (refused.txn 0).state = .growing ∧ ¬ refused.HasCall 0 ∧
      (let (s', outcome) := commitStruck .after .ascending refused 0;
        outcome = .done ∧ (s'.txn 0).reason = some .attemptedUnlockButNoLockHeld)) ∧
    (Reachable {} (fun s e => e.Fair (fun _ => 1) s) ended ∧ ended.Agrees ∧
      (ended.txn 0).state = .growing ∧ ¬ ended.HasCall 0 ∧
      (let (s', outcome) := commitStruck .before .ascending ended 0;
        outcome = .failed (.notActive 0 .aborted) ∧ s'.active[0]? = none)) ∧
    Reachable {} (fun s e => e.FreshId s ∧ e.KnowsTables (fun _ => 1) ∧ e.SetsNoState) doubled ∧
      doubled.Agrees ∧ doubled.isQuiet = true ∧ (doubled.txn 1).state = .growing ∧
      ¬ doubled.HasCall 1 ∧
      let (s', outcome) := commitStruck .after .ascending doubled 1
      outcome = .done ∧ (s'.txn 1).locks.toList = [] ∧ (s'.queue (.table 1)).has 1 = true := by
  intro refused ended doubled
  have complete := Walk.complete_ascending
  have reach : Reachable {} (fun s e => e.Fair (fun _ => 1) s) refused :=
    Reachable.afterAll complete .fresh (by decide +kernel)
  have reach' : Reachable {} (fun s e => e.Fair (fun _ => 1) s) ended :=
    Reachable.afterAll complete .fresh (by decide +kernel)
  have reach'' : Reachable {}
      (fun s e => e.FreshId s ∧ e.KnowsTables (fun _ => 1) ∧ e.SetsNoState) doubled :=
    Reachable.afterAll complete .fresh (by decide +kernel)
  refine ⟨⟨reach, ?_⟩, ⟨reach', ?_⟩, reach'', ?_⟩
  · decide +kernel
  · decide +kernel
  · decide +kernel

end TwoPhaseLocking.Engine
