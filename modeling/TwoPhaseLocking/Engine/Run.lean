import TwoPhaseLocking.Engine.Operation

/-! # Runs

A run of a lock manager is a sequence of events: operations of its clients, and notified
calls that look at their queues. Passes of the background detector are detection passes
like any other. Nothing else changes the state, but for the clock. What the clients of a
run may do is given by a condition on the state they do it in.
-/

namespace TwoPhaseLocking

inductive Event where
  | op (op : Op)
  /-- The notified call with this number looks at its queue. -/
  | wake (call : Nat)
deriving DecidableEq, Repr

namespace Engine

def after (w : Walk) (s : Engine) : Event → Engine
  | .op op => (s.perform w op).1
  | .wake call => (s.wake call).1

def afterAll (w : Walk) (s : Engine) (es : List Event) : Engine :=
  es.foldl (after w) s

/-- The states that a new lock manager can come to by events that `may` allows. In what
order queues and locks are walked through may be different at each event. -/
inductive Reachable (config : Config) (may : Engine → Event → Prop) : Engine → Prop where
  | fresh : Reachable config may (fresh config)
  | next {s : Engine} {w : Walk} {e : Event} :
      Reachable config may s → w.Complete → may s e → Reachable config may (s.after w e)

def HasCall (s : Engine) (h : Handle) : Prop := ∃ w ∈ s.sleepers, w.handle = h

instance (s : Engine) (h : Handle) : Decidable (s.HasCall h) :=
  inferInstanceAs (Decidable (∃ w ∈ s.sleepers, w.handle = h))

variable {config : Config} {may may' : Engine → Event → Prop} {s : Engine}

/-- An invariant that every allowed event keeps holds in every reachable state. -/
theorem Reachable.invariant {P : Engine → Prop} (start : P (Engine.fresh config))
    (keep : ∀ s w e, P s → may s e → P (s.after w e)) (reach : Reachable config may s) :
    P s := by
  induction reach with
  | fresh => exact start
  | next _ _ allowed ih => exact keep _ _ _ ih allowed

theorem Reachable.mono (le : ∀ s e, may s e → may' s e) (reach : Reachable config may s) :
    Reachable config may' s := by
  induction reach with
  | fresh => exact .fresh
  | next _ complete allowed ih => exact .next ih complete (le _ _ allowed)

/-- Each event of a list is allowed in the state that those before it lead to. -/
def Allows (w : Walk) (may : Engine → Event → Prop) : Engine → List Event → Prop
  | _, [] => True
  | s, e :: es => may s e ∧ Allows w may (s.after w e) es

instance decidableAllows (w : Walk) (may : Engine → Event → Prop) [∀ s e, Decidable (may s e)]
    (s : Engine) : (es : List Event) → Decidable (Allows w may s es)
  | [] => .isTrue trivial
  | e :: es =>
    have := decidableAllows w may (s.after w e) es
    inferInstanceAs (Decidable (may s e ∧ Allows w may (s.after w e) es))

theorem Reachable.afterAll {w : Walk} (complete : w.Complete) (reach : Reachable config may s)
    {es : List Event} (allowed : Allows w may s es) : Reachable config may (s.afterAll w es) := by
  induction es generalizing s with
  | nil => exact reach
  | cons e es ih => exact ih (.next reach complete allowed.1) allowed.2

/-- A run and the state it has come to, with the states it went through and what happened in
each of them, the latest first. -/
inductive Run (config : Config) (may : Engine → Event → Prop) :
    List (Engine × Event) → Engine → Prop where
  | fresh : Run config may [] (fresh config)
  | next {past : List (Engine × Event)} {s : Engine} {w : Walk} {e : Event} :
      Run config may past s → w.Complete → may s e → Run config may ((s, e) :: past) (s.after w e)

theorem Run.mono {past : List (Engine × Event)} (le : ∀ s e, may s e → may' s e)
    (run : Run config may past s) : Run config may' past s := by
  induction run with
  | fresh => exact .fresh
  | next _ complete allowed ih => exact .next ih complete (le _ _ allowed)

theorem Run.reachable {past : List (Engine × Event)} (run : Run config may past s) :
    Reachable config may s := by
  induction run with
  | fresh => exact .fresh
  | next _ complete allowed ih => exact .next ih complete allowed

theorem Reachable.exists_run (reach : Reachable config may s) : ∃ past, Run config may past s := by
  induction reach with
  | fresh => exact ⟨[], .fresh⟩
  | next _ complete allowed ih =>
    obtain ⟨past, run⟩ := ih
    exact ⟨_, run.next complete allowed⟩

theorem Run.afterAll {w : Walk} {past : List (Engine × Event)} (complete : w.Complete)
    (run : Run config may past s) {es : List Event} (allowed : Allows w may s es) :
    ∃ later, Run config may (later ++ past) (s.afterAll w es) := by
  induction es generalizing past s with
  | nil => exact ⟨[], run⟩
  | cons e es ih =>
    obtain ⟨later, run'⟩ := ih (run.next complete allowed.1) allowed.2
    exact ⟨later ++ [(s, e)], List.append_cons later (s, e) past ▸ run'⟩

end Engine

/-- The operation does nothing to its transaction but abort it or let go of it. -/
def Op.onlyAborts : Op → Bool
  | abort _ | abortAndWake _ | letGo _ => true
  | setState _ state => state == .aborted
  | _ => false

namespace Event

/-- A new transaction gets an identifier that no other has. -/
def FreshId (s : Engine) : Event → Prop
  | op (.adopt id _) => ∀ t ∈ s.txns, t.id ≠ id
  | op (.begin _) => ∀ t ∈ s.txns, t.id ≠ s.nextId
  | _ => True

/-- A lock call goes by a number that no sleeping call and no queued request has. -/
def FreshNumber (s : Engine) : Event → Prop
  | op (.lock c) =>
    (∀ w ∈ s.sleepers, w.call ≠ c.number) ∧ ∀ k, ∀ r ∈ (s.queue k).requests, r.call ≠ c.number
  | _ => True

/-- Nobody makes a lock call for a transaction that has one asleep. -/
def OneCall (s : Engine) : Event → Prop
  | op (.lock c) => ¬ s.HasCall c.handle
  | _ => True

/-- Each row is spoken of with the table it belongs to. -/
def KnowsTables (tableOf : RowId → TableId) : Event → Prop
  | op (.lock c) => c.resource.Known tableOf
  | op (.unlock _ resource _) => resource.Known tableOf
  | _ => True

/-- What keeping books takes: new identifiers for new transactions, one lock call at a time,
and rows named with their tables. -/
structure Fair (tableOf : RowId → TableId) (s : Engine) (e : Event) : Prop where
  freshId : e.FreshId s
  oneCall : e.OneCall s
  knowsTables : e.KnowsTables tableOf

/-- Nobody unlocks anything of a transaction, or commits it, while a call of it sleeps. -/
def KeepsLocks (s : Engine) : Event → Prop
  | op (.unlock h ..) | op (.releaseAll h) | op (.commit h) => ¬ s.HasCall h
  | _ => True

/-- While a call of a transaction sleeps, the transaction is only let go of or aborted, in
whatever way. -/
def OnlyAborted (s : Engine) : Event → Prop
  | op o => ∀ h ∈ o.handle?, s.HasCall h → o.onlyAborts = true
  | wake _ => True

/-- While a call of a transaction sleeps, the transaction is only aborted or let go of. -/
def Undisturbed (s : Engine) : Event → Prop
  | op (.abort _) | op (.abortAndWake _) | op (.letGo _) => True
  | op o => ∀ h, o.handle? = some h → ¬ s.HasCall h
  | wake _ => True

/-- Nobody strikes a transaction off the register by hand. -/
def KeepsRegister : Event → Prop
  | op (.unregister _) => False
  | _ => True

/-- Nobody sets the state of a transaction. -/
def SetsNoState : Event → Prop
  | op (.setState ..) => False
  | _ => True

/-- The state of a transaction is set to no other end than to abort it while a call of it sleeps. -/
def SetsAborted (s : Engine) : Event → Prop
  | op (.setState h state) => state = .aborted ∧ s.HasCall h
  | _ => True

theorem SetsNoState.setsAborted {s : Engine} {e : Event} (sets : e.SetsNoState) :
    e.SetsAborted s := by
  cases e with
  | wake => trivial
  | op o =>
    cases o with
    | setState => exact sets.elim
    | _ => trivial

theorem Undisturbed.keepsLocks {s : Engine} {e : Event} (undisturbed : e.Undisturbed s) :
    e.KeepsLocks s := by
  cases e with
  | wake => trivial
  | op o =>
    cases o with
    | unlock | releaseAll | commit => exact undisturbed _ rfl
    | _ => trivial

theorem Undisturbed.onlyAborted {s : Engine} {e : Event} (undisturbed : e.Undisturbed s) :
    e.OnlyAborted s := by
  cases e with
  | wake => trivial
  | op o =>
    cases o with
    | abort | abortAndWake | letGo => exact fun _ _ _ => rfl
    | _ => exact fun h mine asleep => absurd asleep (undisturbed h mine)

variable (tableOf : RowId → TableId) (s : Engine) (e : Event)

instance : Decidable (e.FreshId s) :=
  match e with
  | op (.adopt id _) => inferInstanceAs (Decidable (∀ t ∈ s.txns, t.id ≠ id))
  | op (.begin _) => inferInstanceAs (Decidable (∀ t ∈ s.txns, t.id ≠ s.nextId))
  | op (.letGo _) | op (.lock _) | op (.unlock ..) | op (.releaseAll _) | op (.commit _)
  | op (.abort _) | op (.abortAndWake _) | op (.unregister _) | op (.setState ..) | op .detect
  | op (.addEdge _) | op (.removeEdge _) | op .startDetector | op .stopDetector | wake _ =>
    .isTrue trivial

instance : Decidable (e.FreshNumber s) :=
  match e with
  | op (.lock c) =>
    decidable_of_iff ((∀ w ∈ s.sleepers, w.call ≠ c.number) ∧
        ∀ k ∈ s.queues.keys, ∀ r ∈ (s.queue k).requests, r.call ≠ c.number) <|
      and_congr_right fun _ => ⟨fun fresh k => by
        by_cases there : k ∈ s.queues
        · exact fresh k (Std.ExtTreeMap.mem_keys.2 there)
        · simp [Engine.queue, Std.ExtTreeMap.getD_eq_fallback there], fun fresh k _ => fresh k⟩
  | op (.begin _) | op (.adopt ..) | op (.letGo _) | op (.unlock ..) | op (.releaseAll _)
  | op (.commit _) | op (.abort _) | op (.abortAndWake _) | op (.unregister _) | op (.setState ..)
  | op .detect | op (.addEdge _) | op (.removeEdge _) | op .startDetector | op .stopDetector
  | wake _ => .isTrue trivial

instance : Decidable (e.OneCall s) :=
  match e with
  | op (.lock c) => inferInstanceAs (Decidable (¬ s.HasCall c.handle))
  | op (.begin _) | op (.adopt ..) | op (.letGo _) | op (.unlock ..) | op (.releaseAll _)
  | op (.commit _) | op (.abort _) | op (.abortAndWake _) | op (.unregister _) | op (.setState ..)
  | op .detect | op (.addEdge _) | op (.removeEdge _) | op .startDetector | op .stopDetector
  | wake _ => .isTrue trivial

instance : Decidable (e.KnowsTables tableOf) :=
  match e with
  | op (.lock c) => inferInstanceAs (Decidable (c.resource.Known tableOf))
  | op (.unlock _ r _) => inferInstanceAs (Decidable (r.Known tableOf))
  | op (.begin _) | op (.adopt ..) | op (.letGo _) | op (.releaseAll _) | op (.commit _)
  | op (.abort _) | op (.abortAndWake _) | op (.unregister _) | op (.setState ..) | op .detect
  | op (.addEdge _) | op (.removeEdge _) | op .startDetector | op .stopDetector | wake _ =>
    .isTrue trivial

instance : Decidable (e.Fair tableOf s) :=
  decidable_of_iff (e.FreshId s ∧ e.OneCall s ∧ e.KnowsTables tableOf)
    ⟨fun h => ⟨h.1, h.2.1, h.2.2⟩, fun h => ⟨h.1, h.2, h.3⟩⟩

instance : Decidable (e.KeepsLocks s) :=
  match e with
  | op (.unlock h ..) | op (.releaseAll h) | op (.commit h) =>
    inferInstanceAs (Decidable (¬ s.HasCall h))
  | op (.begin _) | op (.adopt ..) | op (.letGo _) | op (.lock _) | op (.abort _)
  | op (.abortAndWake _) | op (.unregister _) | op (.setState ..) | op .detect | op (.addEdge _)
  | op (.removeEdge _) | op .startDetector | op .stopDetector | wake _ => .isTrue trivial

instance : Decidable (e.Undisturbed s) :=
  match e with
  | op (.lock c) =>
    decidable_of_iff (¬ s.HasCall c.handle)
      ⟨fun free _ eq => Option.some.inj eq ▸ free, fun free => free _ rfl⟩
  | op (.unlock h ..) | op (.releaseAll h) | op (.commit h) | op (.setState h _) =>
    decidable_of_iff (¬ s.HasCall h)
      ⟨fun free _ eq => Option.some.inj eq ▸ free, fun free => free _ rfl⟩
  | op (.abort _) | op (.abortAndWake _) | op (.letGo _) | wake _ => .isTrue trivial
  | op (.begin _) | op (.adopt ..) | op (.unregister _) | op .detect | op (.addEdge _)
  | op (.removeEdge _) | op .startDetector | op .stopDetector => .isTrue nofun

instance : Decidable e.KeepsRegister :=
  match e with
  | op (.unregister _) => .isFalse id
  | op (.begin _) | op (.adopt ..) | op (.letGo _) | op (.lock _) | op (.unlock ..)
  | op (.releaseAll _) | op (.commit _) | op (.abort _) | op (.abortAndWake _) | op (.setState ..)
  | op .detect | op (.addEdge _) | op (.removeEdge _) | op .startDetector | op .stopDetector
  | wake _ => .isTrue trivial

instance : Decidable e.SetsNoState :=
  match e with
  | op (.setState ..) => .isFalse id
  | op (.begin _) | op (.adopt ..) | op (.letGo _) | op (.lock _) | op (.unlock ..)
  | op (.releaseAll _) | op (.commit _) | op (.abort _) | op (.abortAndWake _)
  | op (.unregister _) | op .detect | op (.addEdge _) | op (.removeEdge _) | op .startDetector
  | op .stopDetector | wake _ => .isTrue trivial

instance : Decidable (e.SetsAborted s) :=
  match e with
  | op (.setState h state) => inferInstanceAs (Decidable (state = .aborted ∧ s.HasCall h))
  | op (.begin _) | op (.adopt ..) | op (.letGo _) | op (.lock _) | op (.unlock ..)
  | op (.releaseAll _) | op (.commit _) | op (.abort _) | op (.abortAndWake _)
  | op (.unregister _) | op .detect | op (.addEdge _) | op (.removeEdge _) | op .startDetector
  | op .stopDetector | wake _ => .isTrue trivial

instance : Decidable (e.OnlyAborted s) :=
  match e with
  | op o => inferInstanceAs (Decidable (∀ h ∈ o.handle?, s.HasCall h → o.onlyAborts = true))
  | wake _ => .isTrue trivial

end Event

end TwoPhaseLocking
