import Mathlib.Algebra.Order.BigOperators.Group.List
import TwoPhaseLocking.Proofs.Workers

/-! # One worker moves

A step of one worker leaves everything as the others say. It remains to see to what he says himself:
for a worker who goes on with his transaction, who ends it, and who begins a new one. Two locks that
workers have been given on one resource go together, so nobody is counted beside a writer.
-/

namespace TwoPhaseLocking.Stress

namespace Run

variable {w : Workload} {c : Config} {manager : TwoPhaseLocking.Config} {x x' : Run} {t t' : Nat}
  {a b : Worker} {h h' : Handle} {f : Worker → Worker} {p : Phase} {s' : Engine}
  {u : Transaction} {asleep : Sleeper → Prop} {stats : Stats} {l l' : Lock} {k : QueueKey}
  {writing : Bool} {n : Nat}

theorem Sound.books (sound : x.Sound w c manager) : x.engine.Books RowId.page :=
  (sound.reach.mono fun _ _ allowed => allowed.1).books

theorem Sound.known_of_owned (sound : x.Sound w c manager) (here : x.At t a)
    (mine : a.phase.handle? = some h) : h < x.engine.txns.size :=
  ((sound.fits t a here).txn h mine).known

theorem total_eq_zero {g : Worker → Nat} (none : ∀ t a, x.At t a → g a = 0) : x.total g = 0 := by
  refine List.sum_eq_zero fun n summand => ?_
  obtain ⟨a, there, rfl⟩ := List.mem_map.1 summand
  obtain ⟨t, here⟩ := List.mem_iff_getElem?.1 there
  exact none t a here

theorem self_le_total (here : x.At t a) (g : Worker → Nat) : g a ≤ x.total g :=
  List.le_sum_of_mem (List.mem_map_of_mem (List.mem_of_getElem? here))

theorem total_le {n : Nat} {g : Worker → Nat} (le : ∀ t a, x.At t a → g a ≤ n) :
    x.total g ≤ x.workers.length * n := by
  have sum := List.sum_le_card_nsmul (x.workers.map g) n fun m summand => by
    obtain ⟨a, there, rfl⟩ := List.mem_map.1 summand
    obtain ⟨t, here⟩ := List.mem_iff_getElem?.1 there
    exact le t a here
  rwa [List.length_map, Nat.nsmul_eq_mul] at sum

/-- What a worker sees to who takes a turn. It is about one transaction, his own or a new one, which
he goes on with or leaves without locks. -/
structure Turn (w : Workload) (c : Config) (manager : TwoPhaseLocking.Config) (x x' : Run) (t : Nat)
    (a : Worker) (f : Worker → Worker) (h : Handle) : Prop where
  moved : x'.workers = x.workers.modify t f
  reach : Engine.Reachable manager Mannerly x'.engine
  fits : (f a).Fits w c x'.engine
  own : a.phase.handle? = some h ∨ a.phase.handle? = none ∧ h = x.engine.txns.size
  left : (f a).phase.handle? = some h ∨ (f a).phase.handle? = none ∧
    (x'.engine.txn h).locks = ∅ ∧ (x'.engine.txn h).isAborted = false
  others : ∀ h', h' ≠ h → x'.engine.txn h' = x.engine.txn h'
  id : (x'.engine.txn h).id = h
  size : x.engine.txns.size ≤ x'.engine.txns.size
  known : ∀ h' < x'.engine.txns.size, h' = h ∨ h' < x.engine.txns.size
  nextId : x'.engine.nextId = x'.engine.txns.size
  active : ∀ id h', x'.engine.active[id]? = some h' →
    h' = h ∧ id = h ∧ (f a).phase.handle? = some h ∨ h' ≠ h ∧ x.engine.active[id]? = some h'
  asleep : ∀ v, x'.engine.Asleep v ↔
    x.engine.Asleep v ∧ a.phase.sleeper? t ≠ some v ∨ (f a).phase.sleeper? t = some v
  counts : ∀ k writing, (x'.count k).number writing + a.present k writing =
    (x.count k).number writing + (f a).present k writing
  successful : x'.successful + a.made = x.successful + (f a).made
  failed : x'.failed = x.failed
  begun : x'.engine.txns.size + a.begun = x.engine.txns.size + (f a).begun
  requests : x'.engine.stats.lockRequests + .ofNat (a.asked (c.perTxn w)) =
    x.engine.stats.lockRequests + .ofNat ((f a).asked (c.perTxn w))
  answers : x'.engine.stats.immediateGrants + x'.engine.stats.waits = x'.engine.stats.lockRequests
  plain : x'.engine.stats.upgrades = 0 ∧ x'.engine.stats.abortedWaits = 0

namespace Turn

theorem eq_of_mine (turn : Turn w c manager x x' t a f h)
    (mine : (f a).phase.handle? = some h') : h' = h := by
  rcases turn.left with same | ⟨gone, -⟩
  · exact Option.some.inj (mine.symm.trans same)
  · cases gone.symm.trans mine

/-- The other workers are about other transactions. -/
theorem ne_of_theirs (turn : Turn w c manager x x' t a f h) (sound : x.Sound w c manager)
    (here : x.At t a) (other : t' ≠ t) (there : x.At t' b) (theirs : b.phase.handle? = some h') :
    h' ≠ h := by
  rcases turn.own with mine | ⟨-, new⟩
  · exact fun same => other (sound.apart t' t b a h' there here theirs (same ▸ mine))
  · exact new ▸ Nat.ne_of_lt (sound.known_of_owned there theirs)

/-- The others are left as they are. -/
theorem all_fit (turn : Turn w c manager x x' t a f h) (sound : x.Sound w c manager)
    (here : x.At t a) : ∀ t' b, x'.At t' b → b.Fits w c x'.engine := by
  intro t' b there
  rcases (at_of_modify here turn.moved).1 there with ⟨-, rfl⟩ | ⟨other, there⟩
  · exact turn.fits
  · have before := sound.fits t' b there
    exact { before with
      txn := fun h' theirs => (before.txn h' theirs).frame turn.size
        (turn.others h' (turn.ne_of_theirs sound here other there theirs)) }

theorem apart (turn : Turn w c manager x x' t a f h) (sound : x.Sound w c manager)
    (here : x.At t a) : ∀ t₁ t₂ b₁ b₂ h', x'.At t₁ b₁ → x'.At t₂ b₂ →
      b₁.phase.handle? = some h' → b₂.phase.handle? = some h' → t₁ = t₂ := by
  intro t₁ t₂ b₁ b₂ h' at₁ at₂ about₁ about₂
  rcases (at_of_modify here turn.moved).1 at₁ with ⟨rfl, rfl⟩ | ⟨other₁, there₁⟩
  · rcases (at_of_modify here turn.moved).1 at₂ with ⟨rfl, -⟩ | ⟨other₂, there₂⟩
    · rfl
    · exact absurd (turn.eq_of_mine about₁) (turn.ne_of_theirs sound here other₂ there₂ about₂)
  · rcases (at_of_modify here turn.moved).1 at₂ with ⟨rfl, rfl⟩ | ⟨other₂, there₂⟩
    · exact absurd (turn.eq_of_mine about₂) (turn.ne_of_theirs sound here other₁ there₁ about₁)
    · exact sound.apart t₁ t₂ b₁ b₂ h' there₁ there₂ about₁ about₂

theorem sleeps (turn : Turn w c manager x x' t a f h) (sound : x.Sound w c manager)
    (here : x.At t a) : ∀ v, x'.engine.Asleep v ↔
      ∃ t' b, x'.At t' b ∧ b.phase.sleeper? t' = some v := by
  intro v
  rw [turn.asleep, sound.asleep]
  constructor
  · rintro (⟨⟨t', b, there, sleeps⟩, other⟩ | sleeps)
    · refine ⟨t', b, (at_of_modify here turn.moved).2 (.inr ⟨?_, there⟩), sleeps⟩
      rintro rfl
      cases here.symm.trans there
      exact other sleeps
    · exact ⟨t, f a, (at_of_modify here turn.moved).2 (.inl ⟨rfl, rfl⟩), sleeps⟩
  · rintro ⟨t', b, there, sleeps⟩
    rcases (at_of_modify here turn.moved).1 there with ⟨rfl, rfl⟩ | ⟨other, there⟩
    · exact .inr sleeps
    · refine .inl ⟨⟨t', b, there, sleeps⟩, fun mine => other ?_⟩
      exact (Phase.call_of_sleeper? sleeps).symm.trans (Phase.call_of_sleeper? mine)

theorem owned_self (turn : Turn w c manager x x' t a f h) (here : x.At t a)
    (mine : (f a).phase.handle? = some h) : x'.Owned h :=
  ⟨t, f a, (at_of_modify here turn.moved).2 (.inl ⟨rfl, rfl⟩), mine⟩

/-- Any other transaction has somebody about it as before. -/
theorem owned (turn : Turn w c manager x x' t a f h) (here : x.At t a) (other : h' ≠ h)
    (owned : x.Owned h') : x'.Owned h' := by
  obtain ⟨t', b, there, theirs⟩ := owned
  refine ⟨t', b, (at_of_modify here turn.moved).2 (.inr ⟨?_, there⟩), theirs⟩
  rintro rfl
  cases here.symm.trans there
  rcases turn.own with mine | ⟨none, -⟩
  · exact other (Option.some.inj (theirs.symm.trans mine))
  · cases none.symm.trans theirs

/-- A worker has taken a turn, and everything stays as the workers say. -/
theorem sound (turn : Turn w c manager x x' t a f h) (sound : x.Sound w c manager)
    (here : x.At t a) : x'.Sound w c manager := by
  have total (g : Worker → Nat) := total_of_modify here turn.moved g
  exact {
    reach := turn.reach
    length := by rw [turn.moved, List.length_modify, sound.length]
    fits := turn.all_fit sound here
    apart := turn.apart sound here
    asleep := turn.sleeps sound here
    rest := fun h' => by
      by_cases same : h' = h
      · rw [same]
        exact turn.left.imp (turn.owned_self here) And.right
      · rw [turn.others h' same]
        exact (sound.rest h').imp_left (turn.owned here same)
    active := fun id h' there => by
      rcases turn.active id h' there with ⟨rfl, rfl, mine⟩ | ⟨other, there⟩
      · exact ⟨turn.id, turn.owned_self here mine⟩
      · obtain ⟨own, theirs⟩ := sound.active id h' there
        exact ⟨(congrArg _ (turn.others h' other)).trans own, turn.owned here other theirs⟩
    counts := fun k writing => Nat.add_right_cancel <| (turn.counts k writing).trans <|
      (congrArg (· + _) (sound.counts k writing)).trans (total (·.present k writing)).symm
    successful := Nat.add_right_cancel <| turn.successful.trans <|
      (congrArg (· + _) sound.successful).trans (total (·.made)).symm
    failed := turn.failed.trans sound.failed
    begun := Nat.add_right_cancel <| turn.begun.trans <|
      (congrArg (· + _) sound.begun).trans (total (·.begun)).symm
    ids := fun h' known => by
      by_cases same : h' = h
      · rw [same, turn.id]
      · rw [turn.others h' same]
        exact sound.ids h' ((turn.known h' known).resolve_left same)
    nextId := turn.nextId
    requests := by
      have asked := congrArg UInt64.ofNat (total (·.asked (c.perTxn w)))
      have requests := turn.requests
      rw [UInt64.ofNat_add, UInt64.ofNat_add] at asked
      rw [sound.requests, ← asked] at requests
      exact (UInt64.add_left_inj _).1 requests
    answers := turn.answers
    plain := turn.plain }

end Turn

/-- How a worker who goes on with his transaction changes what there is to tell. -/
structure Advance (w : Workload) (c : Config) (x : Run) (t : Nat) (a : Worker) (h : Handle)
    (p : Phase) (u : Transaction) (asleep : Sleeper → Prop) (stats : Stats)
    (holders : Std.ExtTreeMap QueueKey Holders compare) : Prop where
  id : u.id = (x.engine.txn h).id
  sleeps : ∀ v, asleep v ↔
    x.engine.Asleep v ∧ a.phase.sleeper? t ≠ some v ∨ p.sleeper? t = some v
  counts : ∀ k writing, (holders.getD k {}).number writing + a.present k writing =
    (x.count k).number writing + Worker.present k writing { a with phase := p }
  requests : stats.lockRequests + .ofNat (a.phase.asked (c.perTxn w)) =
    x.engine.stats.lockRequests + .ofNat (p.asked (c.perTxn w))
  answers : stats.immediateGrants + stats.waits = stats.lockRequests
  plain : stats.upgrades = 0 ∧ stats.abortedWaits = 0

/-- A worker goes on with his transaction, and everything stays as the workers say. -/
theorem Sound.advance (sound : x.Sound w c manager) (here : x.At t a)
    (mine : a.phase.handle? = some h) (mine' : p.handle? = some h)
    {holders : Std.ExtTreeMap QueueKey Holders compare}
    (reach : Engine.Reachable manager Mannerly s') (served : x.engine.Served h u asleep stats s')
    (fits : Worker.Fits w c s' { a with phase := p })
    (advance : Advance w c x t a h p u asleep stats holders) :
    Sound w c manager ({ x with engine := s', holders }.setPhase t p) := by
  have known := sound.known_of_owned here mine
  have id : (s'.txn h).id = h := (served.ids advance.id h).trans (sound.ids h known)
  have turn : Turn w c manager x ({ x with engine := s', holders }.setPhase t p) t a
      (fun a => { a with phase := p }) h := {
    moved := rfl
    reach
    fits
    own := .inl mine
    left := .inl mine'
    others := served.others
    id
    size := served.size.ge
    known := fun h' there => .inr (served.size ▸ there)
    nextId := served.nextId.trans (sound.nextId.trans served.size.symm)
    active := fun id' h' there => by
      have before : x.engine.active[id']? = some h' := served.active ▸ there
      by_cases same : h' = h
      · have own := (sound.active id' h' before).1
        rw [same, sound.ids h known] at own
        exact .inl ⟨same, own.symm, mine'⟩
      · exact .inr ⟨same, before⟩
    asleep := fun v => (served.asleep v).trans (advance.sleeps v)
    counts := advance.counts
    successful := rfl
    failed := rfl
    begun := by
      have before : a.phase ≠ .between := fun eq => by simp [eq, Phase.handle?] at mine
      have after : p ≠ .between := fun eq => by simp [eq, Phase.handle?] at mine'
      change s'.txns.size + _ = _
      simp [served.size, Worker.begun, before, after]
    requests := by
      have requests := advance.requests
      change s'.stats.lockRequests + _ = _
      rw [served.stats]
      simp only [Worker.asked, UInt64.ofNat_add]
      grind
    answers := by
      change s'.stats.immediateGrants + s'.stats.waits = s'.stats.lockRequests
      rw [served.stats]
      exact advance.answers
    plain := by
      change s'.stats.upgrades = 0 ∧ s'.stats.abortedWaits = 0
      rw [served.stats]
      exact advance.plain }
  exact turn.sound sound here

/-- A worker ends his transaction, and everything stays as the workers say. -/
theorem Sound.ended {unlocks : UInt64} (sound : x.Sound w c manager)
    (here : x.At t ⟨n, .leaving h [] true⟩)
    (reach : Engine.Reachable manager Mannerly s')
    (served : Engine.Served { x.engine with active := x.engine.active.erase (x.engine.txn h).id } h
      { x.engine.txn h with locks := ∅, state := .committed, kept := false } x.engine.Asleep
      { x.engine.stats with unlocks } s') :
    Sound w c manager ({ x with engine := s' }.endTxn t true) := by
  have known := sound.known_of_owned here rfl
  have own := sound.ids h known
  have turn : Turn w c manager x ({ x with engine := s' }.endTxn t true) t
      ⟨n, .leaving h [] true⟩ (fun a => { made := a.made + 1, phase := .between }) h := {
    moved := rfl
    reach
    fits := Worker.fits_between ((sound.fits t _ here).unfinished Phase.noConfusion)
    own := .inl rfl
    left := by
      change _ ∨ none = none ∧ (s'.txn h).locks = ∅ ∧ (s'.txn h).isAborted = false
      rw [served.own]
      exact .inr ⟨rfl, rfl, rfl⟩
    others := served.others
    id := (served.ids rfl h).trans own
    size := served.size.ge
    known := fun h' there => .inr (served.size ▸ there)
    nextId := served.nextId.trans (sound.nextId.trans served.size.symm)
    active := fun id h' there => by
      change s'.active[id]? = some h' at there
      rw [served.active, Std.ExtTreeMap.getElem?_erase] at there
      split at there
      · cases there
      · rename_i gone
        refine .inr ⟨?_, there⟩
        rintro rfl
        exact gone (Std.LawfulEqCmp.compare_eq_iff_eq.2 (sound.active id h' there).1)
    asleep := fun v => (served.asleep v).trans (by simp [Phase.sleeper?])
    counts := fun k writing => rfl
    successful := by
      change x.successful + 1 + n = x.successful + (n + 1)
      omega
    failed := rfl
    begun := congrArg (· + _) served.size
    requests := by
      change s'.stats.lockRequests + _ = _
      rw [served.stats]
      simp [Worker.asked, Phase.asked, Nat.succ_mul]
    answers := by
      change s'.stats.immediateGrants + s'.stats.waits = s'.stats.lockRequests
      rw [served.stats]
      exact sound.answers
    plain := by
      change s'.stats.upgrades = 0 ∧ s'.stats.abortedWaits = 0
      rw [served.stats]
      exact sound.plain }
  exact turn.sound sound here

theorem begun_le {s : Engine} (fits : a.Fits w c s) : a.begun ≤ c.share := by
  unfold Worker.begun
  split
  · exact fits.made
  · rename_i other
    exact fits.unfinished other

/-- As long as a worker has transactions to make there have not been all. -/
theorem Sound.room (sound : x.Sound w c manager) (here : x.At t ⟨n, .between⟩) (more : n < c.share) :
    x.engine.txns.size < c.operations := by
  have moved : (x.setPhase t .crashed).workers =
      x.workers.modify t fun a => { a with phase := .crashed } := rfl
  have one : (x.setPhase t .crashed).total Worker.begun + n = x.total Worker.begun + (n + 1) :=
    total_of_modify here moved Worker.begun
  have le : (x.setPhase t .crashed).total Worker.begun ≤ c.workers * c.share := by
    refine (total_le fun t' b there => ?_).trans_eq (by rw [moved, List.length_modify, sound.length])
    rcases (at_of_modify here moved).1 there with ⟨-, rfl⟩ | ⟨-, there⟩
    · exact more
    · exact begun_le (sound.fits t' b there)
  have share : c.workers * c.share ≤ c.operations := Nat.mul_div_le c.operations c.workers
  have begun : x.engine.txns.size = x.total Worker.begun := sound.begun
  omega

/-- Transactions go by their numbers, and there has been none with the next one. -/
theorem Sound.freshId (sound : x.Sound w c manager) {isolation : Isolation} :
    (Event.op (.begin isolation)).FreshId x.engine := by
  intro u there
  obtain ⟨h, known, rfl⟩ := Array.mem_iff_getElem.1 there
  have id := sound.ids h known
  rw [Engine.txn, Array.getD_eq_getD_getElem?, Array.getElem?_eq_getElem known] at id
  rw [sound.nextId]
  exact Nat.ne_of_lt (id.trans_lt known)

/-- A worker begins a transaction, and everything stays as the workers say. -/
theorem Sound.begins {i : Nat} {pick : Choice} {goals : List Goal} (sound : x.Sound w c manager)
    (small : c.operations < UInt64.size) (here : x.At t ⟨n, .between⟩) (more : n < c.share)
    (valid : pick.Valid c) (planned : goals = w.goals c i pick) :
    Sound w c manager ({ x with engine := x.engine.begin .repeatableRead }.setPhase t
      (.locking x.engine.txns.size goals [])) := by
  have size : (x.engine.begin .repeatableRead).txns.size = x.engine.txns.size + 1 :=
    Array.size_push _
  have txn (h : Handle) : (x.engine.begin .repeatableRead).txn h =
      if h = x.engine.txns.size then Transaction.start x.engine.nextId .repeatableRead
      else x.engine.txn h := Engine.txn_push x.engine _ h
  have own := (txn x.engine.txns.size).trans (if_pos rfl)
  have phase : Phase.Fits w c (x.engine.begin .repeatableRead)
      (.locking x.engine.txns.size goals []) x.engine.txns.size := {
    known := size ▸ Nat.lt_succ_self _
    kept := by rw [own]; rfl
    growing := by rw [own]; rfl
    isolation := by rw [own]; rfl
    plan := ⟨i, pick, [], valid, planned.symm, fun l => by simp [own, Transaction.start],
      fun _ => List.forall_mem_nil _⟩
    claims := List.forall_mem_nil _
    once := .nil }
  have turn : Turn w c manager x ({ x with engine := x.engine.begin .repeatableRead }.setPhase t
      (.locking x.engine.txns.size goals [])) t ⟨n, .between⟩
      (fun a => { a with phase := .locking x.engine.txns.size goals [] }) x.engine.txns.size := {
    moved := rfl
    reach := sound.reach.next (e := .op (.begin .repeatableRead)) Walk.complete_ascending
      ⟨⟨sound.freshId, trivial, trivial⟩, fun _ eq => (by cases eq), trivial, trivial⟩
    fits :=
      { made := Nat.le_of_lt more, unfinished := fun _ => more, steady := trivial
        txn := fun h mine => Option.some.inj mine ▸ phase }
    own := .inr ⟨rfl, rfl⟩
    left := .inl rfl
    others := fun h' other => (txn h').trans (if_neg other)
    id := (congrArg (·.id) own).trans sound.nextId
    size := size ▸ Nat.le_succ _
    known := fun h' there => (Nat.lt_succ_iff_lt_or_eq.1 (there.trans_eq size)).symm
    nextId := by
      change (x.engine.nextId + 1) % UInt64.size = (x.engine.begin .repeatableRead).txns.size
      rw [size, sound.nextId]
      exact Nat.mod_eq_of_lt (Nat.lt_of_le_of_lt (sound.room here more) small)
    active := fun id h' there => by
      change (x.engine.active.insert x.engine.nextId x.engine.txns.size)[id]? = some h' at there
      rw [Std.ExtTreeMap.getElem?_insert] at there
      split at there
      · rename_i same
        cases there
        rw [← Std.LawfulEqCmp.compare_eq_iff_eq.1 same]
        exact .inl ⟨rfl, sound.nextId, rfl⟩
      · obtain ⟨-, t', b, known, theirs⟩ := sound.active id h' there
        exact .inr ⟨Nat.ne_of_lt (sound.known_of_owned known theirs), there⟩
    asleep := fun v => by
      change x.engine.Asleep v ↔ _
      simp [Phase.sleeper?]
    counts := fun k writing => rfl
    successful := rfl
    failed := rfl
    begun := by
      change (x.engine.begin .repeatableRead).txns.size + n = x.engine.txns.size + (n + 1)
      omega
    requests := by
      have asked : c.perTxn w - goals.length = 0 := by rw [planned, length_goals valid, Nat.sub_self]
      change _ = x.engine.stats.lockRequests + .ofNat (n * c.perTxn w + (c.perTxn w - goals.length))
      rw [asked]
      rfl
    answers := sound.answers
    plain := sound.plain }
  exact turn.sound sound here

theorem count_insert (x : Run) (k k' : QueueKey) (n : Holders) :
    (x.holders.insert k n).getD k' {} = if k = k' then n else x.count k' := by
  simp [Std.ExtTreeMap.getD_insert, count]

theorem number_enter (x : Run) (l : Lock) (k : QueueKey) (writing : Bool) :
    ((x.holders.insert l.resource.key ((x.count l.resource.key).enter l.mode)).getD k {}).number
        writing = (x.count k).number writing + if CountsAs k writing l then 1 else 0 := by
  rw [count_insert]
  by_cases same : l.resource.key = k
  · cases writing <;> by_cases writes : l.mode = .exclusive <;>
      simp [Holders.enter, Holders.number, CountsAs, same, writes]
  · simp [CountsAs, same]

theorem number_exit (x : Run) (l : Lock) (k : QueueKey) (writing : Bool) :
    ((x.holders.insert l.resource.key ((x.count l.resource.key).exit l.mode)).getD k {}).number
        writing = (x.count k).number writing - if CountsAs k writing l then 1 else 0 := by
  rw [count_insert]
  by_cases same : l.resource.key = k
  · cases writing <;> by_cases writes : l.mode = .exclusive <;>
      simp [Holders.exit, Holders.number, CountsAs, same, writes]
  · simp [CountsAs, same]

/-- Two locks that workers have been given on one resource go together. -/
theorem Sound.compatible_of_claims (sound : x.Sound w c manager) (here : x.At t a)
    (there : x.At t' b) (other : t' ≠ t) (mine : a.phase.handle? = some h)
    (theirs : b.phase.handle? = some h') (claimed : l ∈ a.phase.claims)
    (claimed' : l' ∈ b.phase.claims) (same : l'.resource.key = l.resource.key) :
    l.mode.compatible l'.mode = true := by
  have fits := (sound.fits t a here).txn h mine
  have fits' := (sound.fits t' b there).txn h' theirs
  obtain ⟨y, hy, isFor, granted⟩ := sound.books.recorded h _ _ (fits.claims l claimed)
  obtain ⟨y', hy', isFor', granted'⟩ := sound.books.recorded h' _ _ (fits'.claims l' claimed')
  rw [same] at hy'
  have id := sound.books.id_ne fits.known fits'.known fun eq =>
    other (sound.apart t' t b a h there here (eq ▸ theirs) mine)
  rw [← isFor.mode, ← isFor'.mode]
  refine (sound.reach.tidy _).toOrderly.compatible_of_mem hy hy' ?_ granted granted'
  rintro rfl
  exact id (isFor'.txn.symm.trans isFor.txn)

/-- Beside a lock that a worker has been given nobody is counted whom it excludes. -/
theorem Sound.none_present (sound : x.Sound w c manager) (writing : Bool) (here : x.At t a)
    (mine : a.phase.handle? = some h) (claimed : l ∈ a.phase.claims)
    (excludes : ∀ m : Mode, (m == .exclusive) = writing → l.mode.compatible m = false)
    (own : a.present l.resource.key writing = 0) :
    (x.count l.resource.key).number writing = 0 := by
  rw [sound.counts]
  refine total_eq_zero fun t' b there => ?_
  by_cases other : t' = t
  · subst other
    cases here.symm.trans there
    exact own
  · refine List.countP_eq_zero.2 fun l' counted as => ?_
    rw [CountsAs, Bool.and_eq_true, beq_iff_eq, beq_iff_eq] at as
    have claimed' := Phase.counted_subset_claims _ counted
    obtain ⟨h', theirs⟩ := Phase.exists_handle claimed'
    have both := sound.compatible_of_claims here there other mine theirs claimed claimed' as.1
    rw [excludes _ as.2] at both
    cases both

end Run

end TwoPhaseLocking.Stress
