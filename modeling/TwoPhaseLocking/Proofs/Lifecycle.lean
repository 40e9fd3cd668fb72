import Mathlib.Data.Set.Card
import TwoPhaseLocking.Proofs.Leftovers
import TwoPhaseLocking.Proofs.Phases

/-! # The life of a transaction

A transaction grows, may then shrink, and ends committed or aborted, once and for all. Who has
committed has left nothing behind. The transactions that a look-up by identifier finds are those
that have been begun here and neither committed nor aborted with success since.
-/

namespace TwoPhaseLocking

/-- The first state may lead to the second, be it at once or later on. -/
def TxnState.MayBecome : TxnState → TxnState → Prop
  | growing, _ => True
  | shrinking, later => later ≠ growing
  | committed, later => later = committed
  | aborted, later => later = aborted

theorem TxnState.MayBecome.refl (state : TxnState) : state.MayBecome state := by
  cases state <;> simp [MayBecome]

theorem TxnState.MayBecome.trans {a b c : TxnState} (first : a.MayBecome b)
    (second : b.MayBecome c) : a.MayBecome c := by
  cases a <;> cases b <;> simp_all [MayBecome]

theorem TxnState.MayBecome.running {a b : TxnState} (leads : a.MayBecome b)
    (running : b.isTerminal = false) : a.isTerminal = false := by
  cases a with
  | growing | shrinking => rfl
  | committed | aborted =>
    rw [leads] at running
    cases running

/-- No mark leads back, but for setting a state. -/
theorem Mark.mayBecome {k : Mark} (sets : ∀ state, k ≠ .setState state) (t : Transaction) :
    t.state.MayBecome (k.apply t).state := by
  cases k with
  | abort reason =>
    rw [apply, Transaction.state_abort]
    cases t.state <;> simp [TxnState.MayBecome]
  | shrink =>
    rw [apply, Transaction.beginShrinking]
    split
    · rename_i growing
      simp [growing, TxnState.MayBecome]
    · exact .refl _
  | commit =>
    rw [apply, Transaction.commit]
    split
    · exact .refl _
    · cases state : t.state <;> simp_all [TxnState.MayBecome]
  | setState state => exact absurd rfl (sets state)
  | letGo => exact .refl _

/-- Whoever has a reason on record for being aborted is aborted. -/
def Transaction.Reasoned (t : Transaction) : Prop := t.reason ≠ none → t.state = .aborted

theorem Mark.reasoned {k : Mark} (sets : ∀ state, k ≠ .setState state) {t : Transaction}
    (reasoned : t.Reasoned) : (k.apply t).Reasoned := by
  cases k with
  | abort reason =>
    rw [apply, Transaction.abort]
    split
    · exact reasoned
    · exact fun _ => rfl
  | shrink =>
    rw [apply, Transaction.beginShrinking]
    split
    · rename_i growing
      intro reason
      rw [reasoned reason] at growing
      cases growing
    · exact reasoned
  | commit =>
    rw [apply, Transaction.commit]
    split
    · exact reasoned
    · rename_i active
      intro reason
      simp [reasoned reason] at active
  | setState state => exact absurd rfl (sets state)
  | letGo => exact reasoned

namespace Engine

variable {tableOf : RowId → TableId} {config : Config} {s s' s₀ : Engine} {m : Move}
  {h h' : Handle} {w : Walk} {e : Event} {past : List (Engine × Event)} {id : TxnId}

theorem sets_of_causes (set : e.SetsNoState) (causes : e.Causes s₀ s m) (h : Handle)
    (state : TxnState) : m ≠ .mark h (.setState state) := by
  rintro rfl
  obtain ⟨-, rfl⟩ := causes
  exact set

theorem Does.mayBecome (does : s.Does m s') (sets : ∀ h state, m ≠ .mark h (.setState state)) :
    (s.txn h).state.MayBecome (s'.txn h).state := by
  rcases Nat.lt_or_ge h s.txns.size with lt | le
  · rcases does.txn_eq lt with eq | ⟨k, rfl, eq⟩
    · rw [eq]
      exact .refl _
    · rw [eq]
      exact k.mayBecome (by simpa using sets h) _
  · rw [txn_of_size_le s h le]
    trivial

theorem Does.reasoned (does : s.Does m s') (sets : ∀ h state, m ≠ .mark h (.setState state))
    (reasoned : (s.txn h).Reasoned) : (s'.txn h).Reasoned := by
  rcases Nat.lt_or_ge h s.txns.size with lt | le
  · rcases does.txn_eq lt with eq | ⟨k, rfl, eq⟩
    · rw [eq]
      exact reasoned
    · rw [eq]
      exact k.reasoned (by simpa using sets h) reasoned
  · rcases does.new_eq le with eq | ⟨id, iso, eq⟩
    · rw [eq]
      exact fun reason => absurd rfl reason
    · rw [eq]
      exact fun reason => absurd rfl reason

theorem mayBecome_of_path (path : Path (e.Causes s₀) s s') (set : e.SetsNoState) :
    (s.txn h).state.MayBecome (s'.txn h).state := by
  refine path.keeps (P := fun s' => (s.txn h).state.MayBecome (s'.txn h).state) ?_ (.refl _)
  exact fun _ _ _ before does causes => before.trans (does.mayBecome (sets_of_causes set causes))

theorem mayBecome_after (set : e.SetsNoState) :
    (s.txn h).state.MayBecome ((s.after w e).txn h).state :=
  mayBecome_of_path (after_path w e) set

/-- Whatever has been the state of a transaction in a run may have become what it is now. -/
theorem Run.mayBecome (run : Run config (fun s e => e.Fair tableOf s ∧ e.Undisturbed s ∧
      e.SetsNoState) past s) :
    ∀ before ∈ past, ∀ h, (before.1.txn h).state.MayBecome (s.txn h).state := by
  induction run with
  | fresh => simp
  | @next past s w e _ _ allowed ih =>
    intro before there h
    have now := mayBecome_after (w := w) (h := h) (s := s) allowed.2.2
    rcases List.mem_cons.1 there with rfl | there
    · exact now
    · exact (ih before there h).trans now

theorem Does.size_eq (does : s.Does m s') (begins : ∀ iso, m ≠ .begin iso)
    (adopts : ∀ id iso, m ≠ .adopt id iso) : s'.txns.size = s.txns.size := by
  cases does with
  | begin => exact absurd rfl (begins _)
  | adopt => exact absurd rfl (adopts _ _)
  | mark | swap | give | take => exact size_updateTxn ..
  | register => rw [txns_register]
  | side alike => rw [alike.txns]
  | _ => rfl

/-- A transaction grows when an event has begun it. -/
theorem growing_after (le : s.txns.size ≤ h) : ((s.after w e).txn h).state = .growing := by
  by_cases begins : ∃ iso, e = .op (.begin iso)
  · obtain ⟨iso, rfl⟩ := begins
    exact (Does.begin : s.Does (.begin iso) (s.begin iso)).new_growing le
  by_cases adopts : ∃ id iso, e = .op (.adopt id iso)
  · obtain ⟨id, iso, rfl⟩ := adopts
    exact (Does.adopt : s.Does (.adopt id iso) (s.adopt id iso)).new_growing le
  have unknown : (s.after w e).txns.size ≤ h := by
    refine (after_path w e).keeps (P := fun s' => s'.txns.size ≤ h) ?_ le
    intro s₁ m s₂ le does causes
    refine Nat.le_trans (Nat.le_of_eq (does.size_eq ?_ ?_)) le
    · rintro iso rfl
      exact begins ⟨iso, causes.2⟩
    · rintro id iso rfl
      exact adopts ⟨id, iso, causes.2⟩
  rw [txn_of_size_le _ h unknown]
  rfl

theorem Reachable.reasoned_of_setsNoState (reach : Reachable config (fun _ e => e.SetsNoState) s)
    (h : Handle) : (s.txn h).Reasoned := by
  refine reach.keeps (P := fun s => (s.txn h).Reasoned) ?_ ?_
  · rw [txn_of_size_le (Engine.fresh config) h (Nat.zero_le h)]
    exact fun reason => absurd rfl reason
  · intro s₀ e set s m s' reasoned does causes
    exact does.reasoned (sets_of_causes set causes) reasoned

theorem Reachable.reasoned (reach : Reachable config (fun s e => e.Fair tableOf s ∧
      e.Undisturbed s ∧ e.SetsNoState) s) (h : Handle) : (s.txn h).Reasoned :=
  (reach.mono fun _ _ allowed => allowed.2.2).reasoned_of_setsNoState h

/-- The operation that the event is ends the transaction, in whatever order it walks. -/
def Ends (s : Engine) (e : Event) (h : Handle) : Prop :=
  ∃ o, e = .op o ∧ (o = .commit h ∨ o = .abort h) ∧
    ∃ w : Walk, w.Complete ∧ (s.perform w o).2 = .done

/-- The transaction was begun in the run, and has not been ended since. -/
def Open (h : Handle) : List (Engine × Event) → Prop
  | [] => False
  | (s, e) :: past =>
    (∃ iso, e = .op (.begin iso)) ∧ s.txns.size = h ∨ Open h past ∧ ¬ s.Ends e h

/-- The active transactions are those that are open, by their identifiers. -/
structure Listed (past : List (Engine × Event)) (s : Engine) : Prop where
  known : ∀ h, Open h past → h < s.txns.size
  listed : ∀ id h, s.active[id]? = some h ↔ (s.txn h).id = id ∧ Open h past

/-- Nothing but a beginning and an end changes the list of active transactions. -/
theorem Does.active_eq (does : s.Does m s') (begins : ∀ iso, m ≠ .begin iso)
    (retires : ∀ id, m ≠ .retire id) : s'.active = s.active := by
  cases does with
  | begin => exact absurd rfl (begins _)
  | retire => exact absurd rfl (retires _)
  | register =>
    unfold Engine.register
    split <;> rfl
  | side alike => exact alike.active
  | _ => rfl

theorem active_of_path {ok : Engine → Move → Prop} (path : Path ok s s')
    (begins : ∀ s iso, ¬ ok s (.begin iso)) (retires : ∀ s id, ¬ ok s (.retire id)) :
    s'.active = s.active := by
  refine path.keeps (P := fun s' => s'.active = s.active) ?_ rfl
  intro s₁ m s₂ same does allowed
  refine (does.active_eq ?_ ?_).trans same
  · rintro iso rfl
    exact begins s₁ iso allowed
  · rintro id rfl
    exact retires s₁ id allowed

theorem active_abortAndWake : (s.abortAndWake w h).active = s.active := by
  have path : Path (fun _ m => m = .mark h (.abort none) ∨ ∃ k, m = .notify k) s
      (s.abortAndWake w h) := abortAndWake_path w (.inl rfl) fun _ k => .inr ⟨k, rfl⟩
  exact active_of_path path (by simp) (by simp)

theorem active_releaseEach (rs : List Resource) :
    (releaseEach (fun _ s => s) s h rs).1.active = s.active :=
  active_of_path (releaseEach_causes rs) (by simp [Event.Causes]) (by simp [Event.Causes])

/-- A commit that succeeds strikes its transaction off the list, which has committed then. -/
theorem commit_strikes (known : h < s.txns.size) :
    (s.commit w h).2 = .done ∧ (s.commit w h).1.active = s.active.erase (s.txn h).id ∧
        ((s.commit w h).1.txn h).state = .committed ∨
      (s.commit w h).2 ≠ .done ∧ (s.commit w h).1.active = s.active := by
  have active := active_releaseEach (s := s) (h := h) (w.locks s h)
  have known₁ := Nat.lt_of_lt_of_le known
    (size_le_of_path (releaseEach_causes (s := s) (h := h) (w.locks s h)))
  rw [commit, commitWith]
  split
  · exact .inr ⟨by simp, rfl⟩
  · dsimp only
    split
    · rename_i s₁ e failed
      rw [failed] at active
      exact .inr ⟨by simp, active⟩
    · rename_i s₁ done
      rw [done] at active known₁
      split
      · exact .inr ⟨by simp, active⟩
      · rename_i running
        refine .inl ⟨rfl, congrArg (·.erase (s.txn h).id) active, ?_⟩
        change ((s₁.updateTxn h (·.commit)).txn h).state = .committed
        rw [txn_updateTxn_self known₁, Transaction.commit, if_neg running]

/-- An abort that succeeds does too, and its transaction is aborted then. -/
theorem abort_strikes (known : h < s.txns.size) :
    (s.abort w h).2 = .done ∧ (s.abort w h).1.active = s.active.erase (s.txn h).id ∧
        ((s.abort w h).1.txn h).state = .aborted ∨
      (s.abort w h).2 ≠ .done ∧ (s.abort w h).1.active = s.active := by
  rw [abort]
  split
  · exact .inr ⟨by simp, rfl⟩
  · rename_i unfinished
    have active := (active_releaseEach (s := s.abortAndWake w h) (h := h)
      (w.locks (s.abortAndWake w h) h)).trans active_abortAndWake
    have ended := mayBecome_of_path (h := h) (releaseAll_path (s := s.abortAndWake w h) (h := h) w)
      trivial
    rw [txn_abortAndWake known, Transaction.state_abort, if_neg unfinished] at ended
    change (releaseAll w (s.abortAndWake w h) h).1.active = s.active at active
    split
    · rename_i s₁ e failed
      rw [failed] at active
      exact .inr ⟨by simp, active⟩
    · rename_i s₁ done
      rw [done] at active ended
      exact .inl ⟨rfl, congrArg (·.erase (s.txn h).id) active, ended⟩

theorem perform_of_handle {o : Op} (handle : o.handle? = some h) : s.perform w o =
    if s.isUsable h then s.carryOut w o else (s, .noSuchTransaction) := by
  rw [perform, handle, Option.all_some]

theorem handle_of_end {o : Op} (mine : o = .commit h ∨ o = .abort h) : o.handle? = some h := by
  rcases mine with rfl | rfl <;> rfl

theorem ofOutcome_eq_done {outcome : Outcome} :
    Reply.ofOutcome .done outcome = .done ↔ outcome = .done := by
  cases outcome <;> simp [Reply.ofOutcome]

/-- If an operation ends its transaction, it strikes it off the list, and leaves it committed or
aborted. -/
theorem active_of_end {o : Op} (mine : o = .commit h ∨ o = .abort h) :
    (s.perform w o).2 = .done ∧ h < s.txns.size ∧
        (s.perform w o).1.active = s.active.erase (s.txn h).id ∧
        ((s.perform w o).1.txn h).state.isTerminal = true ∨
      (s.perform w o).2 ≠ .done ∧ (s.perform w o).1.active = s.active := by
  rw [perform_of_handle (handle_of_end mine)]
  split
  · rename_i usable
    have known := lt_size_of_isUsable usable
    rcases mine with rfl | rfl
    · rcases commit_strikes (w := w) known with ⟨done, struck, ended⟩ | ⟨failed, same⟩
      · exact .inl ⟨ofOutcome_eq_done.2 done, known, struck, TxnState.isTerminal_iff.2 (.inl ended)⟩
      · exact .inr ⟨mt ofOutcome_eq_done.1 failed, same⟩
    · rcases abort_strikes (w := w) known with ⟨done, struck, ended⟩ | ⟨failed, same⟩
      · exact .inl ⟨ofOutcome_eq_done.2 done, known, struck, TxnState.isTerminal_iff.2 (.inr ended)⟩
      · exact .inr ⟨mt ofOutcome_eq_done.1 failed, same⟩
  · exact .inr ⟨by simp, rfl⟩

/-- As long as the books are right, whether it does is no matter of the walk. -/
theorem Books.end_done (books : s.Books tableOf) {o : Op} (mine : o = .commit h ∨ o = .abort h) :
    (∀ w : Walk, w.Complete → (s.perform w o).2 = .done) ∨
      ∀ w : Walk, (s.perform w o).2 ≠ .done := by
  simp only [perform_of_handle (handle_of_end mine)]
  split
  · rename_i usable
    rcases mine with rfl | rfl
    · cases active : (s.txn h).state.isTerminal with
      | true =>
        right
        simp [carryOut, commit, commitWith, active, Reply.ofOutcome]
      | false =>
        refine .inl fun w complete => ?_
        obtain ⟨s₁, released, -⟩ := books.commit_released complete active
        simp [carryOut, released, Reply.ofOutcome]
    · by_cases committed : (s.txn h).state = .committed
      · right
        simp [carryOut, abort, committed, Reply.ofOutcome]
      · refine .inl fun w complete => ?_
        have known := lt_size_of_isUsable usable
        obtain ⟨s₁, released, -⟩ := books.abort_released complete known committed
        simp [carryOut, released, Reply.ofOutcome]
  · exact .inr fun _ => by simp

theorem active_after_other (begins : ∀ iso, e ≠ .op (.begin iso))
    (ends : ∀ h o, e = .op o → o ≠ .commit h ∧ o ≠ .abort h) : (s.after w e).active = s.active := by
  refine active_of_path (after_path w e) (fun s₁ iso causes => begins iso causes.2) ?_
  rintro s₁ id ⟨-, h, -, rfl | ⟨rfl, -⟩⟩
  · exact (ends h _ rfl).1 rfl
  · exact (ends h _ rfl).2 rfl

/-- Nobody is struck off the list but whoever is committed or aborted then. -/
theorem active_after (begins : ∀ iso, e ≠ .op (.begin iso)) :
    (s.after w e).active = s.active ∨ ∃ h < s.txns.size,
      (s.after w e).active = s.active.erase (s.txn h).id ∧
        ((s.after w e).txn h).state.isTerminal = true := by
  by_cases ends : ∃ h o, e = .op o ∧ (o = .commit h ∨ o = .abort h)
  · obtain ⟨h, o, rfl, mine⟩ := ends
    rcases active_of_end (w := w) mine with ⟨-, known, struck, ended⟩ | ⟨-, same⟩
    · exact .inr ⟨h, known, struck, ended⟩
    · exact .inl same
  · push Not at ends
    exact .inl (active_after_other begins ends)

theorem listed_fresh (config : Config) : (fresh config).Listed [] where
  known := by simp [Open]
  listed := by simp [Open, fresh]

/-- What keeps the list as it is keeps it right. -/
theorem Listed.unchanged (listed : s.Listed past) (size : s.txns.size ≤ s'.txns.size)
    (ids : ∀ h < s.txns.size, (s'.txn h).id = (s.txn h).id) (active : s'.active = s.active)
    (begins : ∀ iso, e ≠ .op (.begin iso)) (ends : ∀ h, ¬ s.Ends e h) :
    s'.Listed ((s, e) :: past) := by
  have same (h : Handle) : Open h ((s, e) :: past) ↔ Open h past := by
    simp [Open, begins, ends]
  constructor
  case known =>
    intro h there
    exact Nat.lt_of_lt_of_le (listed.known h ((same h).1 there)) size
  case listed =>
    intro id h
    rw [active, listed.listed id h, same]
    refine and_congr_left fun there => ?_
    rw [ids h (listed.known h there)]

theorem ids_after (h : Handle) (known : h < s.txns.size) :
    h < (s.after w e).txns.size ∧ ((s.after w e).txn h).id = (s.txn h).id := by
  refine (after_path w e).keeps (P := fun s' => h < s'.txns.size ∧ (s'.txn h).id = (s.txn h).id) ?_
    ⟨known, rfl⟩
  rintro s₁ m s₂ ⟨lt, same⟩ does -
  exact ⟨Nat.lt_of_lt_of_le lt does.size_le, (does.id_eq lt).trans same⟩

theorem size_le_after : s.txns.size ≤ (s.after w e).txns.size := size_le_of_path (after_path w e)

/-- Somebody new is listed under an identifier that nobody has. -/
theorem Listed.begin {iso : Isolation} (listed : s.Listed past)
    (fresh : ∀ t ∈ s.txns, t.id ≠ s.nextId) :
    (s.begin iso).Listed ((s, .op (.begin iso)) :: past) := by
  have opens (h : Handle) :
      Open h ((s, .op (.begin iso)) :: past) ↔ s.txns.size = h ∨ Open h past := by
    simp [Open, Ends]
  have txn (h : Handle) : (s.begin iso).txn h =
      if h = s.txns.size then Transaction.start s.nextId iso else s.txn h := txn_push s _ h
  constructor
  case known =>
    intro h there
    have size : (s.begin iso).txns.size = s.txns.size + 1 := Array.size_push _
    rw [size]
    rcases (opens h).1 there with rfl | before
    · exact Nat.lt_succ_self _
    · exact Nat.lt_succ_of_lt (listed.known h before)
  case listed =>
    intro id h
    change (s.active.insert s.nextId s.txns.size)[id]? = some h ↔ _
    rw [Std.ExtTreeMap.getElem?_insert, opens, txn]
    simp only [Std.compare_eq_iff_eq]
    by_cases new : h = s.txns.size
    · rw [if_pos new]
      by_cases own : s.nextId = id
      · simp [own, new, Transaction.start]
      · rw [if_neg own]
        refine iff_of_false (fun there => ?_) fun both => own both.1
        exact Nat.ne_of_lt (listed.known h ((listed.listed id h).1 there).2) new
    · rw [if_neg new, or_iff_right (Ne.symm new)]
      by_cases own : s.nextId = id
      · rw [if_pos own]
        refine iff_of_false (fun there => new (Option.some.inj there).symm) fun both => ?_
        exact fresh _ (txn_mem (listed.known h both.2)) (both.1.trans own.symm)
      · rw [if_neg own]
        exact listed.listed id h

theorem Ends.eq {o : Op} (mine : o = .commit h ∨ o = .abort h) (ends : s.Ends (.op o) h') :
    h' = h := by
  obtain ⟨o', eq, mine', -⟩ := ends
  cases eq
  rcases mine with rfl | rfl <;> simpa [eq_comm] using mine'

/-- The transaction that is ended is struck off the list. -/
theorem Listed.end (listed : s.Listed past) (books : s.Books tableOf) (complete : w.Complete)
    {o : Op} (mine : o = .commit h ∨ o = .abort h) :
    (s.after w (.op o)).Listed ((s, .op o) :: past) := by
  have begins (iso : Isolation) : Event.op o ≠ .op (.begin iso) := by
    rcases mine with rfl | rfl <;> simp
  rcases active_of_end (s := s) (w := w) mine with ⟨done, known, struck, -⟩ | ⟨failed, same⟩
  · have opens (h' : Handle) : Open h' ((s, .op o) :: past) ↔ Open h' past ∧ h' ≠ h := by
      simp only [Open, begins, exists_false, false_and, false_or]
      refine and_congr_right fun _ => not_congr ⟨Ends.eq mine, ?_⟩
      rintro rfl
      exact ⟨o, rfl, mine, w, complete, done⟩
    constructor
    case known =>
      intro h' there
      exact Nat.lt_of_lt_of_le (listed.known h' ((opens h').1 there).1) size_le_after
    case listed =>
      have ids (h' : Handle) (lt : h' < s.txns.size) :
          ((s.perform w o).1.txn h').id = (s.txn h').id := (ids_after (e := .op o) h' lt).2
      intro id h'
      rw [after, struck, Std.ExtTreeMap.getElem?_erase, opens]
      simp only [Std.compare_eq_iff_eq]
      by_cases own : (s.txn h).id = id
      · rw [if_pos own]
        refine iff_of_false (Option.some_ne_none h').symm ?_
        rintro ⟨same, before, other⟩
        have lt := listed.known h' before
        exact other (books.ids h' h lt known ((ids h' lt).symm.trans (same.trans own.symm)))
      · rw [if_neg own, listed.listed id h']
        constructor
        · rintro ⟨rfl, before⟩
          refine ⟨ids h' (listed.known h' before), before, ?_⟩
          rintro rfl
          exact own rfl
        · rintro ⟨same, before, -⟩
          exact ⟨(ids h' (listed.known h' before)).symm.trans same, before⟩
  · refine listed.unchanged size_le_after (fun h known => (ids_after h known).2) same begins ?_
    rintro h' ⟨o', eq, -, w', -, done⟩
    cases eq
    rcases books.end_done mine with always | never
    · exact failed (always w complete)
    · exact never w' done

theorem Listed.after (listed : s.Listed past) (books : s.Books tableOf) (complete : w.Complete)
    (fair : e.Fair tableOf s) : (s.after w e).Listed ((s, e) :: past) := by
  by_cases begins : ∃ iso, e = .op (.begin iso)
  · obtain ⟨iso, rfl⟩ := begins
    exact listed.begin fair.freshId
  by_cases ends : ∃ h o, e = .op o ∧ (o = .commit h ∨ o = .abort h)
  · obtain ⟨h, o, rfl, mine⟩ := ends
    exact listed.end books complete mine
  push Not at begins ends
  refine listed.unchanged size_le_after (fun h known => (ids_after h known).2)
    (active_after_other begins ends) begins ?_
  rintro h ⟨o, rfl, mine, -⟩
  exact mine.elim (ends h o rfl).1 (ends h o rfl).2

theorem Run.listed (run : Run config (fun s e => e.Fair tableOf s) past s) :
    s.Books tableOf ∧ s.Listed past := by
  induction run with
  | fresh => exact ⟨books_fresh config, listed_fresh config⟩
  | next _ complete fair ih => exact ⟨ih.1.after fair _, ih.2.after ih.1 complete fair⟩

/-- There are as many entries in the list as transactions that are open. -/
theorem Listed.size (listed : s.Listed past) : {h | Open h past}.encard = s.active.size := by
  have mem (h : Handle) : h ∈ s.active.toList.map (·.2) ↔ Open h past := by
    simp only [List.mem_map, Prod.exists, exists_eq_right,
      Std.ExtTreeMap.mem_toList_iff_getElem?_eq_some, listed.listed]
    exact ⟨fun ⟨_, _, there⟩ => there, fun there => ⟨_, rfl, there⟩⟩
  have distinct : s.active.toList.Nodup := by
    refine (Std.ExtTreeMap.distinct_keys_toList (t := s.active)).imp fun {a b} distinct same => ?_
    rw [same] at distinct
    exact distinct Std.ReflCmp.compare_self
  have nodup : (s.active.toList.map (·.2)).Nodup := by
    refine distinct.map_on fun a ha b hb same => Prod.ext ?_ same
    have own := ((listed.listed a.1 a.2).1 (Std.ExtTreeMap.mem_toList_iff_getElem?_eq_some.1 ha)).1
    have own' := ((listed.listed b.1 b.2).1 (Std.ExtTreeMap.mem_toList_iff_getElem?_eq_some.1 hb)).1
    rw [← own, ← own', same]
  have all : {h | Open h past} = ((s.active.toList.map (·.2)).toFinset : Set Handle) := by
    ext h
    simp [← mem]
  rw [all, Set.encard_coe_eq_coe_finsetCard, List.toFinset_card_of_nodup nodup, List.length_map,
    Std.ExtTreeMap.length_toList]

/-- In every run whose clients do nothing but abort or let go of a transaction while a call of it
sleeps, and set no states: a transaction grows when it is new, and whatever has been its state may
have become what it is now. Only an aborted one has a reason on record, and nothing is left of one
that has committed. A look-up by identifier finds the transactions that have been begun here and
neither committed nor aborted with success since, and there are as many active ones as of these. -/
theorem life_cycle (run : Run config
    (fun s e => e.Fair tableOf s ∧ e.Undisturbed s ∧ e.SetsNoState) past s) :
    (∀ w e h, s.txns.size ≤ h → ((s.after w e).txn h).state = .growing) ∧
    (∀ before ∈ past, ∀ h, (before.1.txn h).state.MayBecome (s.txn h).state) ∧
    (∀ h, (s.txn h).reason ≠ none → (s.txn h).state = .aborted) ∧
    (∀ h, (s.txn h).state = .committed → s.Gone h) ∧
    (∀ id h, s.get id = .ok h ↔ (s.txn h).id = id ∧ Open h past) ∧
    {h | Open h past}.encard = s.active.size := by
  have reach := run.reachable
  have fairly : Run config (fun s e => e.Fair tableOf s) past s := run.mono fun _ _ => And.left
  have fair := fairly.reachable
  obtain ⟨books, listed⟩ := fairly.listed
  have cleared := reach.cleared
  refine ⟨fun w e h => growing_after, run.mayBecome, fun h => reach.reasoned h, ?_, ?_, listed.size⟩
  · intro h committed
    have known := lt_size_of_grown (h := h) (s := s) (by rw [committed]; decide)
    refine books.gone fair.marked known (cleared.cleared h committed) fun asleep => ?_
    exact cleared.enrolled.uncommitted h (hasCall_iff.1 asleep) committed
  · intro id h
    rw [← listed.listed, get]
    cases s.active[id]? <;> simp

/-- For instance when the first of three has given back a lock and committed, the second was aborted
for unlocking what he had not locked, and the third runs on. -/
theorem life_cycle_of_three :
    let s := (fresh {}).afterAll .ascending
      [.op (.begin .repeatableRead), .op (.begin .repeatableRead), .op (.begin .repeatableRead),
        .op (.lock ⟨3, 0, .exclusive, .table 1⟩), .op (.lock ⟨4, 0, .shared, .table 2⟩),
        .op (.unlock 0 (.table 1) false), .op (.unlock 1 (.table 1) false), .op (.commit 0)]
    (s.txn 0).state = .committed ∧ s.Gone 0 ∧
      (s.txn 1).reason = some .attemptedUnlockButNoLockHeld ∧ (s.txn 1).state = .aborted ∧
      ∃ past, Run {} (fun s e => e.Fair (fun _ => 1) s ∧ e.Undisturbed s ∧ e.SetsNoState) past s ∧
        (¬ Open 0 past ∧ Open 1 past ∧ Open 2 past) ∧ {h | Open h past}.encard = 2 := by
  intro s
  have reach : Reachable {}
      (fun s e => e.Fair (fun _ => 1) s ∧ e.Undisturbed s ∧ e.SetsNoState) s :=
    Reachable.afterAll Walk.complete_ascending .fresh (by decide +kernel)
  obtain ⟨past, run⟩ := reach.exists_run
  obtain ⟨-, -, reasoned, gone, found, count⟩ := life_cycle run
  have committed : (s.txn 0).state = .committed := by decide +kernel
  have reason : (s.txn 1).reason = some .attemptedUnlockButNoLockHeld := by decide +kernel
  refine ⟨committed, gone 0 committed, reason, reasoned 1 (by simp [reason]), past, run,
    ⟨fun there => ?_, ((found 1 1).1 (by decide +kernel)).2, ((found 2 2).1 (by decide +kernel)).2⟩,
    ?_⟩
  · have listed := (found 0 0).2 ⟨by decide +kernel, there⟩
    exact absurd listed (by decide +kernel)
  · have two : s.active.size = 2 := by decide +kernel
    rw [count, two]
    rfl

end Engine

end TwoPhaseLocking
