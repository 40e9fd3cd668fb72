import TwoPhaseLocking.Proofs.Ascent
import TwoPhaseLocking.Proofs.Schedule

/-! # One transaction is served

What becomes of a transaction that locks something new, takes what it has waited for, or commits. Of
the others nothing becomes meanwhile, but that their calls may be told something.
-/

namespace TwoPhaseLocking.Engine

variable {tableOf : RowId → TableId} {s s' s'' : Engine} {h h' : Handle} {t t' : Transaction}
  {stats stats' : Stats} {c : LockCall} {w : Walk} {id : TxnId}
  {asleep asleep' : Sleeper → Prop}

/-- The call sleeps, whatever it has been told. -/
def Asleep (s : Engine) (u : Sleeper) : Prop := ∃ v ∈ s.sleepers, v.hushed = u

/-- The transaction has become `t`, and nothing has become of the others. These calls sleep, and the
counters are as `stats` says. -/
structure Served (s : Engine) (h : Handle) (t : Transaction) (asleep : Sleeper → Prop)
    (stats : Stats) (s' : Engine) : Prop where
  size : s'.txns.size = s.txns.size
  own : s'.txn h = t
  others : ∀ h', h' ≠ h → s'.txn h' = s.txn h'
  nextId : s'.nextId = s.nextId
  active : s'.active = s.active
  asleep : ∀ u, s'.Asleep u ↔ asleep u
  stats : s'.stats = stats

theorem Served.refl (s : Engine) (h : Handle) : s.Served h (s.txn h) s.Asleep s.stats s :=
  ⟨rfl, rfl, fun _ _ => rfl, rfl, rfl, fun _ => .rfl, rfl⟩

theorem Served.trans (first : s.Served h t asleep stats s')
    (second : s'.Served h t' asleep' stats' s'') : s.Served h t' asleep' stats' s'' where
  size := second.size.trans first.size
  own := second.own
  others h' other := (second.others h' other).trans (first.others h' other)
  nextId := second.nextId.trans first.nextId
  active := second.active.trans first.active
  asleep := second.asleep
  stats := second.stats

theorem Served.ids (served : s.Served h t asleep stats s') (same : t.id = (s.txn h).id)
    (h' : Handle) : (s'.txn h').id = (s.txn h').id := by
  by_cases own : h' = h
  · rw [own, served.own, same]
  · rw [served.others h' own]

theorem asleep_grantAndNotify {k : QueueKey} {u : Sleeper} :
    (s.grantAndNotify k).Asleep u ↔ s.Asleep u := by
  rw [Asleep, sleepers_grantAndNotify]
  simp [Asleep, Sleeper.tell, Sleeper.hushed]

theorem isUsable_eq (known : h < s.txns.size) : s.isUsable h = (s.txn h).kept := by
  rw [isUsable, txn, Array.getD_eq_getD_getElem?, Array.getElem?_eq_getElem known]
  rfl

theorem exists_register (s : Engine) (h : Handle) :
    ∃ registry, s.register h = { s with registry } := by
  unfold register
  split
  · exact ⟨s.registry, rfl⟩
  · exact ⟨_, rfl⟩

/-- A lock call for something new is granted, or falls asleep. -/
theorem Reaches.served (reaches : s.Reaches c)
    (free : (s.txn c.handle).locks.mode? c.resource = none) :
    (s.lock c).2 = .returned true ∧ s.Served c.handle ((s.txn c.handle).record c.resource c.mode)
        s.Asleep s.stats.lockRequest.immediateGrant (s.lock c).1 ∨
      (s.lock c).2 = .asleep ∧ s.Served c.handle (s.txn c.handle)
        (fun u => s.Asleep u ∨ u = c.sleeper none) s.stats.lockRequest.wait (s.lock c).1 := by
  obtain ⟨registry, registered⟩ := s.exists_register c.handle
  let s₁ := (({ s with registry }.updateQueue c.resource.key id).tally
    Stats.lockRequest).pushRequest c
  have entered : s.lock c = s₁.await c none := by
    rw [lock_reaching reaches, free, registered]
    rfl
  have live : (s₁.txn c.handle).isAborted = false := isAborted_of_active reaches.active
  rw [entered]
  cases granted : ((s₁.queue c.resource.key).grant).isGranted (s₁.txn c.handle).id with
  | true =>
    rw [await_granted live granted]
    refine .inl ⟨rfl, ?_⟩
    exact {
      size := size_updateTxn ..
      own := txn_updateTxn_self (lt_size_of_isUsable reaches.usable)
      others := fun h' other => txn_updateTxn_of_ne other
      nextId := rfl
      active := rfl
      asleep := fun u => asleep_grantAndNotify (s := s₁)
      stats := rfl }
  | false =>
    rw [await_waits live granted]
    refine .inr ⟨rfl, ?_⟩
    exact {
      size := rfl
      own := rfl
      others := fun _ _ => rfl
      nextId := rfl
      active := rfl
      asleep := fun u => by
        have before := asleep_grantAndNotify (s := s₁) (k := c.resource.key) (u := u)
        rw [Asleep] at before ⊢
        simp only [addSleeper, List.mem_append, List.mem_singleton, or_and_right, exists_or,
          exists_eq_left]
        exact or_congr before eq_comm
      stats := rfl }

/-- A call that wakes has its lock, or sleeps on, unless its transaction is aborted. -/
theorem Books.wake_served (books : s.Books tableOf) (n : Nat)
    (live : ∀ v ∈ s.sleepers, (s.txn v.handle).isAborted = false) :
    (s.wake n).2 = none ∧
        (∀ h, s.Served h (s.txn h) s.Asleep s.stats (s.wake n).1) ∨
      ∃ v, s.Asleep v ∧ v.call = n ∧ (s.wake n).2 = some ⟨n, true⟩ ∧
        s.Served v.handle ((s.txn v.handle).record v.resource v.mode)
          (fun u => s.Asleep u ∧ u.handle ≠ v.handle) s.stats (s.wake n).1 := by
  unfold wake
  split
  · exact .inl ⟨rfl, fun h => .refl s h⟩
  rename_i v found
  have there := List.mem_of_find?_eq_some found
  have mine : v.call = n := by
    have able := List.find?_some found
    rw [Bool.and_eq_true, beq_iff_eq] at able
    exact able.1
  split
  · have ended := conclude_live (s := s.getUp v) (c := v.lockCall) (live v there)
    rw [getUp] at ended
    rw [finishSleeper, ended]
    refine .inr ⟨v.hushed, ⟨v, there, rfl⟩, mine, by rw [← mine]; rfl, ?_⟩
    exact {
      size := size_updateTxn ..
      own := txn_updateTxn_self (books.known v there)
      others := fun h' other => txn_updateTxn_of_ne other
      nextId := rfl
      active := rfl
      asleep := fun u => by
        change (∃ x ∈ (s.getUp v).sleepers, x.hushed = u) ↔ _
        rw [books.sleepers_getUp there]
        constructor
        · rintro ⟨x, still, rfl⟩
          obtain ⟨x', asleep, kept⟩ := List.mem_filterMap.1 still
          split at kept
          · cases kept
          · rename_i other
            cases kept
            exact ⟨⟨x, asleep, rfl⟩, other⟩
        · rintro ⟨⟨x, asleep, rfl⟩, other⟩
          exact ⟨x, List.mem_filterMap.2 ⟨x, asleep, if_neg other⟩, rfl⟩
      stats := rfl }
  · refine .inl ⟨rfl, fun h => ⟨rfl, rfl, fun _ _ => rfl, rfl, rfl, fun u => ?_, rfl⟩⟩
    change (∃ x ∈ s.sleepers.replace v v.hushed, x.hushed = u) ↔ _
    rw [books.sleepers_hushed there]
    constructor
    · rintro ⟨x, still, rfl⟩
      obtain ⟨x', asleep, kept⟩ := List.mem_filterMap.1 still
      refine ⟨x', asleep, ?_⟩
      split at kept <;> cases kept <;> rfl
    · rintro ⟨x, asleep, rfl⟩
      by_cases same : x.handle = v.handle
      · exact ⟨x.hushed, List.mem_filterMap.2 ⟨x, asleep, if_pos same⟩, rfl⟩
      · exact ⟨x, List.mem_filterMap.2 ⟨x, asleep, if_neg same⟩, rfl⟩

theorem iterate_unlock (n : Nat) (t : Stats) :
    Stats.unlock^[n] t = { t with unlocks := t.unlocks + .ofNat n } := by
  induction n generalizing t with
  | zero => simp
  | succ n ih =>
    rw [Function.iterate_succ_apply, ih, UInt64.ofNat_add, Stats.unlock]
    simp only [Stats.mk.injEq, true_and, and_true]
    rw [UInt64.add_assoc, UInt64.add_comm 1]
    rfl

theorem served_give (id : TxnId) (known : h < s.txns.size) (l : Lock) :
    s.Served h ((s.txn h).forget l.resource l.mode) s.Asleep s.stats.unlock
      ((Stroke.give id h l).apply s) where
  size := size_updateTxn ..
  own := txn_updateTxn_self known
  others h' other := txn_updateTxn_of_ne other
  nextId := rfl
  active := rfl
  asleep u := by simp [Asleep, Stroke.apply, Stroke.give, Sleeper.tell, Sleeper.hushed]
  stats := rfl

theorem served_giveEach (id : TxnId) (known : h < s.txns.size) (mode : Resource → Mode)
    (rs : List Resource) :
    ∃ t, s.Served h t s.Asleep (Stats.unlock^[rs.length] s.stats)
      (rs.foldl (fun s r => (Stroke.give id h ⟨r, mode r⟩).apply s) s) := by
  induction rs generalizing s with
  | nil => exact ⟨_, .refl s h⟩
  | cons r rs ih =>
    have first := served_give id known ⟨r, mode r⟩
    obtain ⟨t, rest⟩ := ih (first.size ▸ known)
    refine ⟨t, { first.trans rest with asleep := fun u => ?_, stats := ?_ }⟩
    · exact (rest.asleep u).trans (first.asleep u)
    · rw [List.length_cons, Function.iterate_succ_apply, ← first.stats]
      exact rest.stats

/-- A commit of a running transaction gives back its locks, each by an unlock. Its client lets go of
it then. -/
theorem Books.commit_served (books : s.Books tableOf) (complete : w.Complete)
    (known : h < s.txns.size) (active : (s.txn h).state.isTerminal = false) :
    ∃ s', s.commit w h = (s', .done) ∧ s'.isUsable h = s.isUsable h ∧
      Served { s with active := s.active.erase (s.txn h).id } h
        { s.txn h with locks := ∅, state := .committed, kept := false } s.Asleep
        (Stats.unlock^[(s.txn h).locks.toList.length] s.stats) (s'.letGo h) := by
  obtain ⟨mode, held⟩ := (books.owes complete h).exists_modes
  obtain ⟨s₁, done, ended, -⟩ := books.releaseEach_done (books.owes complete h)
  obtain ⟨t, given⟩ := served_giveEach (s.txn h).id known mode (w.locks s h)
  have same := done.symm.trans (books.releaseEach_eq (books.owes complete h) rfl mode held)
  rw [← (Prod.mk.inj same).1] at given
  have known₁ : h < s₁.txns.size := given.size ▸ known
  have known₂ : h < (s₁.updateTxn h (·.commit)).txns.size := by rwa [size_updateTxn]
  have ended₂ : (s₁.updateTxn h (·.commit)).txn h =
      { s.txn h with locks := ∅, state := .committed } := by
    rw [txn_updateTxn_self known₁, ended, Transaction.commit, if_neg (by simp [active])]
  refine ⟨(s₁.updateTxn h (·.commit)).retire (s.txn h).id, ?_, ?_, ?_⟩
  · simp [commit, commitWith, active, done, ended]
  · refine (isUsable_eq (s := s₁.updateTxn h (·.commit)) known₂).trans ?_
    rw [ended₂, isUsable_eq known]
  have count : (w.locks s h).length = (s.txn h).locks.toList.length := by
    rw [(complete.locks s h).length_eq, List.length_map]
  exact {
    size := (size_updateTxn ..).trans ((size_updateTxn ..).trans given.size)
    own := (txn_updateTxn_self known₂).trans (congrArg (fun t => { t with kept := false }) ended₂)
    others := fun h' other => (txn_updateTxn_of_ne other).trans
      ((txn_updateTxn_of_ne other).trans (given.others h' other))
    nextId := given.nextId
    active := congrArg (·.erase (s.txn h).id) given.active
    asleep := given.asleep
    stats := count ▸ given.stats }

/-- Where nobody waits in a circle and nobody is aborted, a pass does nothing but count itself. -/
theorem DeadlockFree.detect_eq (free : s.DeadlockFree) (complete : w.Complete)
    (live : ∀ h, (s.txn h).isAborted = false) :
    s.detect w = ({ s.tally Stats.detectionPass with graph := ∅ }, []) := by
  have none : ((s.tally Stats.detectionPass).waitGraph w).breakCycles.1 = [] :=
    WaitGraph.breakCycles_eq_nil_iff.2 ((acyclic_waitGraph_iff complete).2 free)
  have stranded (ks : List QueueKey) : (s.tally Stats.detectionPass).strandedIn ks = [] := by
    refine List.filter_eq_nil_iff.2 fun id _ => ?_
    simp [isDoomed, live]
  rw [waitGraph] at none
  simp only [detect, none, stranded, sacrifice]
  rfl

end TwoPhaseLocking.Engine
