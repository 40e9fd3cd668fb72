import TwoPhaseLocking.Proofs.Advance
import TwoPhaseLocking.Proofs.Counters
import TwoPhaseLocking.Proofs.Drain

/-! # Stress runs have one outcome

As long as everything is as the workers say, whatever a worker does next goes as planned and leaves
it so. Nobody waits in a circle, for tables come before rows, and so detection passes have no victims.
If all slept who are not done yet, somebody among them would have a lock and wait for nothing. Once all
are done there is nobody left whose request could be in a queue.
-/

namespace TwoPhaseLocking.Stress

namespace Run

variable {w : Workload} {c : Config} {manager : TwoPhaseLocking.Config} {x x' : Run} {t t' n : Nat}
  {a b : Worker} {h h' : Handle} {p p' : Phase} {s s' : Engine} {goal : Goal} {todo : List Goal}
  {held : List Lock} {lock : Lock} {asleep : Sleeper → Prop} {stats : Stats}

theorem Sound.live (sound : x.Sound w c manager) (h : Handle) :
    (x.engine.txn h).isAborted = false := by
  rcases sound.rest h with ⟨t, a, here, mine⟩ | ⟨-, live⟩
  · exact Engine.isAborted_of_active (by rw [((sound.fits t a here).txn h mine).growing]; rfl)
  · exact live

/-- Who sleeps is the worker whose transaction it is. -/
theorem Sound.idle (sound : x.Sound w c manager) (here : x.At t a)
    (mine : a.phase.handle? = some h) (awake : a.phase.sleeper? t = none) :
    ¬ x.engine.HasCall h := by
  rintro ⟨v, asleep, rfl⟩
  obtain ⟨t', b, there, sleeps⟩ := (sound.asleep v.hushed).1 ⟨v, asleep, rfl⟩
  have theirs := Phase.handle?_of_sleeper? sleeps
  obtain rfl := sound.apart t t' a b _ here there mine theirs
  cases here.symm.trans there
  rw [awake] at sleeps
  cases sleeps

theorem Sound.usable (sound : x.Sound w c manager) (here : x.At t a)
    (mine : a.phase.handle? = some h) : x.engine.isUsable h = true :=
  have fits := (sound.fits t a here).txn h mine
  (Engine.isUsable_eq fits.known).trans fits.kept

theorem reach_carryOut {o : Op} (reach : Engine.Reachable manager Mannerly s)
    (about : o.handle? = some h) (usable : s.isUsable h = true) (mannerly : Mannerly s (.op o)) :
    Engine.Reachable manager Mannerly (s.carryOut .ascending o).1 := by
  have next := reach.next Walk.complete_ascending mannerly
  rwa [Engine.after, Engine.perform, if_pos (by simp [about, usable])] at next

theorem Sound.reach_lock (sound : x.Sound w c manager) (here : x.At t a)
    (mine : a.phase.handle? = some h) (awake : a.phase.sleeper? t = none)
    (admitted : goal.Admitted x.engine h t) :
    Engine.Reachable manager Mannerly
      (x.engine.lock ⟨t, h, goal.lock.mode, goal.lock.resource⟩).1 :=
  have idle := sound.idle here mine awake
  reach_carryOut (o := .lock ⟨t, h, goal.lock.mode, goal.lock.resource⟩) sound.reach rfl
    (sound.usable here mine)
    ⟨⟨trivial, idle, admitted.known⟩, fun _ eq => Option.some.inj eq ▸ idle, trivial, trivial⟩

/-- A worker who asks nothing of the lock manager. -/
theorem Sound.stay (sound : x.Sound w c manager) (here : x.At t a)
    (mine : a.phase.handle? = some h) (mine' : p.handle? = some h)
    (awake : a.phase.sleeper? t = none) (awake' : p.sleeper? t = none)
    (lasts : a.phase.closing = false) (ahead : p.ahead = a.phase.ahead)
    (claims : p.claims.Subperm a.phase.claims)
    (asked : p.asked (c.perTxn w) = a.phase.asked (c.perTxn w)) (steady : p.Steady)
    {holders : Std.ExtTreeMap QueueKey Holders compare}
    (counts : ∀ k writing, (holders.getD k {}).number writing + a.present k writing =
      (x.count k).number writing + Worker.present k writing { a with phase := p }) :
    Sound w c manager ({ x with holders }.setPhase t p) :=
  have fits := sound.fits t a here
  sound.advance here mine mine' sound.reach (.refl x.engine h)
    (fits.onward mine mine' ((fits.txn h mine).turn lasts ahead claims) steady)
    { id := rfl
      sleeps := fun v => by simp [awake, awake']
      counts
      requests := by rw [asked]
      answers := sound.answers
      plain := sound.plain }

/-- With all locks taken the worker turns to leaving. -/
theorem Sound.depart (sound : x.Sound w c manager) (here : x.At t ⟨n, .locking h [] held⟩) :
    Sound w c manager (x.setPhase t (.leaving h held true)) :=
  sound.stay (p := .leaving h held true) here rfl rfl rfl rfl rfl rfl (.refl _) rfl rfl
    fun _ _ => rfl

/-- A lock that the worker has is one of those claimed on no other account. -/
theorem countP_of_once (claims : p.claims = lock :: held) (fits : p.Fits w c s h)
    (writing : Bool) : held.countP (CountsAs lock.resource.key writing) = 0 := by
  have once := fits.once
  rw [claims, List.map_cons, List.nodup_cons] at once
  refine List.countP_eq_zero.2 fun l there as => once.1 ?_
  rw [CountsAs, Bool.and_eq_true, beq_iff_eq] at as
  exact as.1 ▸ List.mem_map_of_mem there

theorem excludes_of_exclusive {l : Lock} (exclusive : l.mode = .exclusive) (m : Mode) :
    l.mode.compatible m = false := by
  rw [exclusive]
  cases m <;> rfl

/-- The worker is counted in. -/
theorem Sound.enter (sound : x.Sound w c manager) (here : x.At t ⟨n, .entering h lock todo held⟩) :
    Sound w c manager
      ({ x with
        holders := x.holders.insert lock.resource.key
          ((x.count lock.resource.key).enter lock.mode) }.setPhase t
        (.looking h lock (x.count lock.resource.key).writers todo held)) := by
  have fits := (sound.fits t _ here).txn h rfl
  refine sound.stay (p := .looking h lock _ todo held) here rfl rfl rfl rfl rfl rfl (.refl _) rfl
    ?_ fun k writing => ?_
  · intro exclusive
    exact sound.none_present true here rfl List.mem_cons_self
      (fun m _ => excludes_of_exclusive exclusive m) (countP_of_once rfl fits true)
  · rw [number_enter, Worker.present, Worker.present, Phase.counted, Phase.counted,
      List.countP_cons]
    omega

/-- Nobody is there who should not be. -/
theorem Sound.no_clash {before : Nat} (sound : x.Sound w c manager)
    (here : x.At t ⟨n, .looking h lock before todo held⟩) :
    (x.count lock.resource.key).clash lock.mode before = false := by
  have fits := sound.fits t _ here
  have rest := countP_of_once rfl (fits.txn h rfl)
  unfold Holders.clash
  split
  · rename_i exclusive
    have alone : before = 0 := fits.steady exclusive
    have none := sound.none_present false here rfl List.mem_cons_self
      (fun m _ => excludes_of_exclusive exclusive m)
      (by simp [Worker.present, Phase.counted, rest, CountsAs, exclusive])
    change (x.count lock.resource.key).readers = 0 at none
    simp [alone, none]
  · rename_i shared
    have none := sound.none_present true here rfl List.mem_cons_self
      (fun m writes => by
        rw [beq_iff_eq.1 writes]
        cases lock.mode <;> rfl)
      (by simp [Worker.present, Phase.counted, rest, CountsAs, shared])
    change (x.count lock.resource.key).writers = 0 at none
    simp [none]

/-- The worker has looked, and goes on. -/
theorem Sound.look {before : Nat} (sound : x.Sound w c manager)
    (here : x.At t ⟨n, .looking h lock before todo held⟩) :
    Sound w c manager (x.setPhase t (.locking h todo (held ++ [lock]))) := by
  have moved : (held ++ [lock]).Perm (lock :: held) := List.perm_append_singleton lock held
  refine sound.stay (p := .locking h todo (held ++ [lock])) here rfl rfl rfl rfl rfl rfl
    moved.subperm rfl trivial fun k writing => congrArg _ ?_
  exact (moved.countP_eq _).symm

/-- The worker is counted out. -/
theorem Sound.exit (sound : x.Sound w c manager)
    (here : x.At t ⟨n, .leaving h (lock :: held) true⟩) :
    Sound w c manager
      ({ x with
        holders := x.holders.insert lock.resource.key
          ((x.count lock.resource.key).exit lock.mode) }.setPhase t (.leaving h held true)) := by
  refine sound.stay (p := .leaving h held true) here rfl rfl rfl rfl rfl rfl
    (List.sublist_cons_self _ _).subperm rfl rfl fun k writing => ?_
  have there := self_le_total here (·.present k writing)
  rw [← sound.counts] at there
  rw [number_exit]
  simp only [Worker.present, Phase.counted, List.countP_cons] at there ⊢
  omega

/-- The worker has been given the lock that came next. -/
theorem Sound.granted (sound : x.Sound w c manager) (here : x.At t a)
    (mine : a.phase.handle? = some h) (next : a.phase.ahead = goal :: todo)
    (claims : a.phase.claims = held) (counted : a.phase.counted = held)
    (reach : Engine.Reachable manager Mannerly s')
    (served : x.engine.Served h ((x.engine.txn h).record goal.lock.resource goal.lock.mode) asleep
      stats s')
    (sleeps : ∀ v, asleep v ↔ x.engine.Asleep v ∧ a.phase.sleeper? t ≠ some v)
    (requests : stats.lockRequests + .ofNat (a.phase.asked (c.perTxn w)) =
      x.engine.stats.lockRequests + .ofNat (c.perTxn w - todo.length))
    (answers : stats.immediateGrants + stats.waits = stats.lockRequests)
    (plain : stats.upgrades = 0 ∧ stats.abortedWaits = 0) :
    Sound w c manager ({ x with engine := s' }.returned t true h goal todo held) := by
  have onward (p : Phase) (after : p = .entering h goal.lock todo held ∨ p = .locking h todo held) :
      Sound w c manager ({ x with engine := s' }.setPhase t p) := by
    have fits := sound.fits t a here
    have claims' : p.claims = a.phase.claims ∨ p.claims = goal.lock :: a.phase.claims := by
      rw [claims]
      rcases after with rfl | rfl
      · exact .inr rfl
      · exact .inl rfl
    have phase : p.Fits w c s' h :=
      (fits.txn h mine).granted sound.books next ((fits.txn h mine).admitted next t) served.size
        served.own (by rcases after with rfl | rfl <;> rfl) claims'
    have mine' : p.handle? = some h := by rcases after with rfl | rfl <;> rfl
    refine sound.advance here mine mine' reach served (fits.onward mine mine' phase ?_)
      { id := rfl, sleeps := fun v => ?_, counts := fun k writing => ?_, requests := ?_,
        answers, plain }
    · rcases after with rfl | rfl <;> trivial
    · rw [sleeps]
      rcases after with rfl | rfl <;> simp [Phase.sleeper?]
    · rw [Worker.present, counted]
      rcases after with rfl | rfl <;> rfl
    · rw [requests]
      rcases after with rfl | rfl <;> rfl
  rw [returned, if_neg (by simp)]
  split
  · exact onward _ (.inl rfl)
  · exact onward _ (.inr rfl)

/-- The worker asks for his next lock, and gets it or falls asleep. -/
theorem Sound.ask (sound : x.Sound w c manager) {pick : Choice}
    (here : x.At t ⟨n, .locking h (goal :: todo) held⟩) :
    Sound w c manager (x.step w c t pick) := by
  have fits := sound.fits t _ here
  have phase := fits.txn h rfl
  have admitted := phase.admitted rfl t
  have reach := sound.reach_lock here rfl rfl admitted
  have fewer : UInt64.ofNat (c.perTxn w - todo.length) =
      .ofNat (c.perTxn w - (goal :: todo).length) + 1 := by
    have lt := phase.length_lt rfl
    rw [← UInt64.ofNat_one, ← UInt64.ofNat_add, List.length_cons]
    congr 1
    omega
  have here' : x.workers[t]? = some ⟨n, .locking h (goal :: todo) held⟩ := here
  rcases admitted.reaches.served admitted.free with ⟨reply, served⟩ | ⟨reply, served⟩
  · have next : x.step w c t pick = { x with engine :=
        (x.engine.lock ⟨t, h, goal.lock.mode, goal.lock.resource⟩).1 }.returned t true h goal todo
          held := by
      simp only [step, here', reply]
    rw [next]
    refine sound.granted here rfl rfl rfl rfl reach served (fun v => by simp [Phase.sleeper?]) ?_ ?_
      sound.plain
    · rw [fewer]
      change x.engine.stats.lockRequests + 1 + .ofNat (c.perTxn w - (goal :: todo).length) = _
      grind
    · change x.engine.stats.immediateGrants + 1 + x.engine.stats.waits =
        x.engine.stats.lockRequests + 1
      rw [← sound.answers]
      grind
  · have next : x.step w c t pick = { x with engine :=
        (x.engine.lock ⟨t, h, goal.lock.mode, goal.lock.resource⟩).1 }.setPhase t
          (.waiting h goal todo held) := by
      simp only [step, here', reply]
    rw [next]
    refine sound.advance (p := .waiting h goal todo held) here rfl rfl reach served
      (fits.onward rfl rfl ?_ trivial)
      { id := rfl, sleeps := fun v => ?_, counts := fun _ _ => rfl, requests := ?_, answers := ?_,
        plain := sound.plain }
    · exact (phase.frame served.size.ge served.own).turn rfl rfl (.refl _)
    · simp [Phase.sleeper?, LockCall.sleeper, eq_comm]
    · change x.engine.stats.lockRequests + 1 + .ofNat (c.perTxn w - (goal :: todo).length) =
        x.engine.stats.lockRequests + .ofNat (c.perTxn w - todo.length)
      rw [fewer]
      grind
    · change x.engine.stats.immediateGrants + (x.engine.stats.waits + 1) =
        x.engine.stats.lockRequests + 1
      rw [← sound.answers]
      grind

theorem setPhase_self (here : x.At t a) : x.setPhase t a.phase = x := by
  have same : (x.workers.modify t fun b => { b with phase := a.phase }) = x.workers := by
    refine List.ext_getElem? fun t' => ?_
    rw [List.getElem?_modify]
    split
    · rename_i eq
      rw [← eq, show x.workers[t]? = some a from here]
      rfl
    · simp
  rw [setPhase, same]

/-- Of the calls asleep the one about the worker's transaction is his own. -/
theorem Sound.handle_eq_iff (sound : x.Sound w c manager) (here : x.At t a) {u v : Sleeper}
    (sleeps : a.phase.sleeper? t = some v) (asleep : x.engine.Asleep u) :
    u.handle = v.handle ↔ u = v := by
  refine ⟨fun same => ?_, fun same => same ▸ rfl⟩
  obtain ⟨t', b, there, sleeps'⟩ := (sound.asleep u).1 asleep
  obtain rfl := sound.apart t t' a b v.handle here there (Phase.handle?_of_sleeper? sleeps)
    (same ▸ Phase.handle?_of_sleeper? sleeps')
  cases here.symm.trans there
  exact Option.some.inj (sleeps'.symm.trans sleeps)

/-- The worker looks whether he has been given the lock that he waits for. -/
theorem Sound.wake (sound : x.Sound w c manager) {pick : Choice}
    (here : x.At t ⟨n, .waiting h goal todo held⟩) : Sound w c manager (x.step w c t pick) := by
  have fits := sound.fits t _ here
  have phase := fits.txn h rfl
  have here' : x.workers[t]? = some ⟨n, .waiting h goal todo held⟩ := here
  have reach : Engine.Reachable manager Mannerly (x.engine.wake t).1 :=
    sound.reach.next (e := .wake t) Walk.complete_ascending
      ⟨⟨trivial, trivial, trivial⟩, trivial, trivial, trivial⟩
  rcases sound.books.wake_served t fun v _ => sound.live v.handle with
    ⟨none, served⟩ | ⟨v, asleep, call, done, served⟩
  · have stay := sound.advance (p := .waiting h goal todo held) here rfl rfl reach (served h)
      (fits.onward rfl rfl (phase.frame (served h).size.ge (served h).own) trivial)
      { id := rfl, sleeps := fun v => ?_, counts := fun _ _ => rfl, requests := rfl,
        answers := sound.answers, plain := sound.plain }
    · have next : x.step w c t pick = { x with engine := (x.engine.wake t).1 } := by
        simp only [step, here', none]
      rw [next]
      exact setPhase_self (x := { x with engine := (x.engine.wake t).1 }) here ▸ stay
    · have own (mine : Phase.sleeper? t (.waiting h goal todo held) = some v) : x.engine.Asleep v :=
        (sound.asleep v).2 ⟨t, _, here, mine⟩
      tauto
  · obtain ⟨t', b, there, sleeps⟩ := (sound.asleep v).1 asleep
    obtain rfl : t = t' := call.symm.trans (Phase.call_of_sleeper? sleeps)
    cases here.symm.trans there
    cases sleeps
    have next : x.step w c t pick = { x with engine := (x.engine.wake t).1 }.returned t true h goal
        todo held := by
      simp only [step, here', done]
    rw [next]
    refine sound.granted here rfl rfl rfl rfl reach served (fun u => ?_) rfl sound.answers
      sound.plain
    refine and_congr_right fun asleep => not_congr ?_
    rw [sound.handle_eq_iff here rfl asleep]
    simp [Phase.sleeper?, eq_comm]

/-- The worker has left, and commits. -/
theorem Sound.finish (sound : x.Sound w c manager) {pick : Choice}
    (here : x.At t ⟨n, .leaving h [] true⟩) : Sound w c manager (x.step w c t pick) := by
  have phase := (sound.fits t _ here).txn h rfl
  have idle := sound.idle here rfl rfl
  have usable := sound.usable here rfl
  obtain ⟨s', committed, kept, served⟩ := sound.books.commit_served Walk.complete_ascending
    phase.known (by rw [phase.growing]; rfl)
  have reach : Engine.Reachable manager Mannerly s' := by
    have next := reach_carryOut (o := .commit h) sound.reach rfl usable
      ⟨⟨trivial, trivial, trivial⟩, fun _ eq => Option.some.inj eq ▸ idle, trivial, trivial⟩
    rwa [Engine.carryOut, committed] at next
  have reach' : Engine.Reachable manager Mannerly (s'.letGo h) :=
    reach_carryOut (o := .letGo h) reach rfl (kept.trans usable)
      ⟨⟨trivial, trivial, trivial⟩, trivial, trivial, trivial⟩
  have here' : x.workers[t]? = some ⟨n, .leaving h [] true⟩ := here
  have next : x.step w c t pick = { x with engine := s'.letGo h }.endTxn t true := by
    simp only [step, here', committed]
  rw [Engine.iterate_unlock] at served
  rw [next]
  exact sound.ended here reach' served

/-- The worker gives back a lock on his way to commit. -/
theorem Sound.give {r : Resource} {m : Mode} (sound : x.Sound w c manager)
    (here : x.At t ⟨n, .leaving h [] true⟩) (there : (⟨r, m⟩ : Lock) ∈ (x.engine.txn h).locks)
    (rowsFirst : r.isTable = true → (x.engine.txn h).locks.hasRowsOn r.tableId = false) :
    Sound w c manager (x.giveBack t h r) := by
  have fits := sound.fits t _ here
  have phase := fits.txn h rfl
  have idle := sound.idle here rfl rfl
  obtain ⟨m', held⟩ := LockSet.exists_mode? there
  have done := Engine.unlock_done held rowsFirst (sound.books.has_of_mem there)
  rw [Engine.giveBack, Engine.give_eq] at done
  set s' := (Stroke.give (x.engine.txn h).id h ⟨r, m'⟩).apply x.engine
  have served : x.engine.Served h ((x.engine.txn h).forget r m') x.engine.Asleep
      x.engine.stats.unlock s' := Engine.served_give _ phase.known ⟨r, m'⟩
  have reach : Engine.Reachable manager Mannerly s' := by
    have next := reach_carryOut (o := .unlock h r true) sound.reach rfl (sound.usable here rfl)
      ⟨⟨trivial, trivial, sound.books.known_of_mem there⟩, fun _ eq => Option.some.inj eq ▸ idle,
        trivial, trivial⟩
    rwa [Engine.carryOut, done] at next
  have next : x.giveBack t h r = { x with engine := s' } := by rw [Run.giveBack, done]
  have phase' : Phase.Fits w c s' (.leaving h [] true) h := {
    known := served.size ▸ phase.known
    kept := served.own ▸ phase.kept
    growing := served.own ▸ phase.growing
    isolation := served.own ▸ phase.isolation
    plan := by
      obtain ⟨i, pick, done, valid, split, locks, -⟩ := phase.plan
      refine ⟨i, pick, done, valid, split, fun l still => locks l ?_, fun lasts => by cases lasts⟩
      rw [served.own] at still
      exact (LockSet.mem_forget.1 still).2
    claims := List.forall_mem_nil _
    once := .nil }
  rw [next]
  have stays := sound.advance (p := .leaving h [] true) here rfl rfl reach served
    (fits.onward rfl rfl phase' rfl)
    { id := rfl, sleeps := fun v => by simp [Phase.sleeper?], counts := fun _ _ => rfl,
      requests := rfl, answers := sound.answers, plain := sound.plain }
  exact setPhase_self (x := { x with engine := s' }) here ▸ stays

/-- Every step of a worker goes as planned. -/
theorem Sound.step {pick : Choice} (sound : x.Sound w c manager)
    (small : c.operations < UInt64.size) (t : Nat) (valid : pick.Valid c) :
    Sound w c manager (x.step w c t pick) := by
  cases worker : x.workers[t]? with
  | none =>
    simp only [Run.step, worker]
    exact sound
  | some a =>
    obtain ⟨n, phase⟩ := a
    have here : x.At t ⟨n, phase⟩ := worker
    cases phase with
    | between =>
      simp only [Run.step, worker]
      split
      · rename_i more
        exact sound.begins small here more valid rfl
      · exact sound
    | locking h todo held =>
      cases todo with
      | nil =>
        simp only [Run.step, worker]
        exact sound.depart here
      | cons goal todo => exact sound.ask here
    | waiting h goal todo held => exact sound.wake here
    | entering h lock todo held =>
      simp only [Run.step, worker]
      exact sound.enter here
    | looking h lock before todo held =>
      simp only [Run.step, worker, sound.no_clash here]
      exact sound.look here
    | leaving h held commit =>
      obtain rfl : commit = true := (sound.fits t _ here).steady
      cases held with
      | nil => exact sound.finish here
      | cons lock held =>
        simp only [Run.step, worker]
        exact sound.exit here
    | crashed => exact (sound.fits t _ here).steady.elim

theorem Sound.owned_of_backs (sound : x.Sound w c manager) {r : Request}
    (backs : x.engine.Backs h r) : x.Owned h := by
  rcases backs with ⟨-, there⟩ | ⟨v, asleep, rfl, -⟩
  · refine (sound.rest h).resolve_right fun rest => ?_
    rw [rest.1] at there
    exact LockSet.not_mem_empty _ there
  · obtain ⟨t, a, here, sleeps⟩ := (sound.asleep v.hushed).1 ⟨v, asleep, rfl⟩
    have theirs := Phase.handle?_of_sleeper? sleeps
    exact ⟨t, a, here, theirs⟩

/-- A single worker has nobody to wait for. -/
theorem Sound.deadlockFree_of_one (sound : x.Sound w c manager) (one : c.workers = 1) :
    x.engine.DeadlockFree := by
  intro v cycle
  obtain ⟨_, ⟨-, k, edge⟩, -⟩ := Relation.TransGen.head'_iff.1 cycle
  obtain ⟨⟨r, hr, rfl, -⟩, ⟨r', hr', rfl, -⟩, ne⟩ := Queue.mem_waitEdges.1 edge
  obtain ⟨h, -, id, backs⟩ := sound.books.backed k r hr
  obtain ⟨h', -, id', backs'⟩ := sound.books.backed k r' hr'
  obtain ⟨t, a, here, mine⟩ := sound.owned_of_backs backs
  obtain ⟨t', b, there, theirs⟩ := sound.owned_of_backs backs'
  have first {t : Nat} {a : Worker} (here : x.At t a) : t = 0 := by
    have lt := (List.getElem?_eq_some_iff.1 here).1
    rw [sound.length, one] at lt
    exact Nat.lt_one_iff.1 lt
  obtain rfl := first here
  obtain rfl := first there
  cases here.symm.trans there
  cases mine.symm.trans theirs
  exact ne (id'.trans id.symm)

/-- Tables come before rows. -/
def TableFirst (a b : Resource) : Prop := a.isTable = true ∧ b.isRow = true

instance : IsStrictOrder Resource TableFirst where
  irrefl a both := by
    cases a with
    | table => cases both.2
    | row => cases both.1
  trans a b c before after := by
    cases b with
    | table => cases before.2
    | row => cases after.1

/-- Whoever waits for a row has nothing yet but the table. -/
theorem Sound.ascending (sound : x.Sound w c manager) (single : w = .rows → c.batchSize ≤ 1) :
    x.engine.Ascending TableFirst := by
  intro v asleep l there
  obtain ⟨t, ⟨n, phase⟩, here, sleeps⟩ := (sound.asleep v.hushed).1 ⟨v, asleep, rfl⟩
  cases phase with
  | waiting h goal todo held =>
    have own := Option.some.inj sleeps
    obtain ⟨i, pick, done, valid, split, locks⟩ := ((sound.fits t _ here).txn h rfl).exists_plan rfl
    have handle : v.handle = h := (congrArg Sleeper.handle own).symm
    have resource : v.resource = goal.lock.resource := (congrArg Sleeper.resource own).symm
    obtain ⟨g, member, rfl⟩ := (locks l).1 (handle ▸ there)
    rcases goals_split valid split with ⟨rfl, -⟩ | ⟨rows, follows, few⟩
    · cases member
    · obtain ⟨table, row, isRow, -, ⟨g', member', first⟩, -⟩ := follows.row
      obtain ⟨d, rfl⟩ := List.length_eq_one_iff.1
        (Nat.le_antisymm (few.trans (single rows)) (List.length_pos_of_mem member))
      obtain rfl := List.mem_singleton.1 member
      obtain rfl := List.mem_singleton.1 member'
      rw [first, resource, isRow]
      exact ⟨rfl, rfl⟩
  | _ => cases sleeps

/-- Nobody waits in a circle, so a pass leaves everything as it is. -/
theorem Sound.pass {walk : Walk} (sound : x.Sound w c manager) (complete : walk.Complete)
    (free : x.engine.DeadlockFree) :
    Sound w c manager { x with engine := (x.engine.detect walk).1 } := by
  have reach : Engine.Reachable manager Mannerly (x.engine.detect walk).1 :=
    sound.reach.next (e := .op .detect) complete
      ⟨⟨trivial, trivial, trivial⟩, fun _ eq => (by cases eq), trivial, trivial⟩
  rw [free.detect_eq complete sound.live] at reach ⊢
  exact { sound with
    reach
    fits := fun t a here =>
      have fits := sound.fits t a here
      { fits with txn := fun h mine => (fits.txn h mine).frame (Nat.le_refl _) rfl } }

theorem sound_start : Sound w c manager (start c manager) := by
  have idle (t : Nat) (a : Worker) (here : (start c manager).At t a) : a = {} :=
    (List.mem_replicate.1 (List.mem_of_getElem? here)).2
  have total (g : Worker → Nat) (none : g {} = 0) : (start c manager).total g = 0 :=
    total_eq_zero fun t a here => idle t a here ▸ none
  have txn (h : Handle) : (start c manager).engine.txn h = default := by
    simp [start, Engine.fresh, Engine.txn]
  exact {
    reach := .fresh
    length := List.length_replicate
    fits := fun t a here => by
      rw [idle t a here]
      exact Worker.fits_between (Nat.zero_le _)
    apart := fun t t' a b h here there mine => by
      rw [idle t a here] at mine
      cases mine
    asleep := fun u => by
      constructor
      · rintro ⟨v, there, -⟩
        cases there
      · rintro ⟨t, a, here, sleeps⟩
        rw [idle t a here] at sleeps
        cases sleeps
    rest := fun h => .inr (by rw [txn]; exact ⟨rfl, rfl⟩)
    active := fun id h there => by simp [start, Engine.fresh] at there
    counts := fun k writing => by
      rw [total _ rfl]
      cases writing <;> simp [start, count, Holders.number]
    successful := (total _ rfl).symm
    failed := rfl
    begun := (total _ rfl).symm
    ids := fun h known => absurd known (Nat.not_lt_zero h)
    nextId := rfl
    requests := by
      rw [total _ (by simp [Worker.asked, Phase.asked])]
      rfl
    answers := rfl
    plain := ⟨rfl, rfl⟩ }

/-- Nobody waits in a circle if transactions lock tables only, lock one row each, or have but one
worker. -/
theorem Sound.deadlockFree (sound : x.Sound w c manager)
    (orderly : w = .rows → max 1 c.rowsPerTxn = 1 ∨ c.rowCount = 1 ∨ c.workers = 1) :
    x.engine.DeadlockFree := by
  by_cases one : c.workers = 1
  · exact sound.deadlockFree_of_one one
  · refine (sound.ascending fun rows => ?_).deadlockFree sound.books
    rcases orderly rows with one | one | alone
    · exact one ▸ min_le_left _ _
    · exact one ▸ min_le_right _ _
    · exact absurd alone one

theorem Reached.sound (reached : Reached w c manager x) (small : c.operations < UInt64.size)
    (orderly : w = .rows → max 1 c.rowsPerTxn = 1 ∨ c.rowCount = 1 ∨ c.workers = 1) :
    x.Sound w c manager := by
  induction reached with
  | start => exact sound_start
  | step _ valid ih => exact ih.step small _ valid
  | give _ here there rowsFirst ih => exact ih.give here there rowsFirst
  | pass _ complete ih => exact ih.pass complete (ih.deadlockFree orderly)

theorem perm_rotateLeft (l : List Nat) (n : Nat) : (l.rotateLeft n).Perm l := by
  rw [List.rotateLeft]
  dsimp only
  split
  · exact .refl l
  · exact List.perm_append_comm.trans (.of_eq (List.take_append_drop ..))

/-- Workers that take turns pick tables and rows that there are. -/
theorem Reached.turn (reached : Reached w c manager x) : Reached w c manager (x.turn w c) := by
  unfold Run.turn
  generalize List.range c.workers = ts
  induction ts generalizing x with
  | nil => exact reached
  | cons t ts ih =>
    exact ih (reached.step ⟨Nat.mod_lt _ (Nat.lt_of_lt_of_le Nat.zero_lt_one (le_max_left ..)),
      perm_rotateLeft _ _⟩)

theorem Reached.turns (reached : Reached w c manager x) (n : Nat) :
    Reached w c manager (turns w c n x) := by
  induction n generalizing x with
  | zero => exact reached
  | succ n ih =>
    rw [Run.turns]
    split
    · exact reached
    · exact ih reached.turn

theorem reached_complete (w : Workload) (c : Config) : Reached w c {} (complete w c) :=
  Reached.start.turns _

/-- The worker waits for a lock, and has not been told to look whether it is his. -/
def Sleeps (x : Run) (t : Nat) : Prop :=
  (∃ n h goal todo held, x.At t ⟨n, .waiting h goal todo held⟩) ∧
    ∀ v ∈ x.engine.sleepers, v.call = t → v.notified = false

/-- As long as some worker has not made all his transactions, one of those does not sleep. -/
theorem Sound.exists_awake (sound : x.Sound w c manager) (free : x.engine.DeadlockFree)
    (here : x.At t a) (unfinished : a.made ≠ c.share) :
    ∃ t a, x.At t a ∧ a.made ≠ c.share ∧ ¬ x.Sleeps t := by
  by_contra none
  push Not at none
  have busy (t : Nat) (a : Worker) (here : x.At t a) (h : Handle)
      (mine : a.phase.handle? = some h) : x.Sleeps t := by
    refine none t a here (Nat.ne_of_lt ((sound.fits t a here).unfinished fun eq => ?_))
    rw [eq] at mine
    cases mine
  have calls (t : Nat) (a : Worker) (here : x.At t a) (h : Handle)
      (mine : a.phase.handle? = some h) : x.engine.HasCall h := by
    obtain ⟨n, h', goal, todo, held, waits⟩ := (busy t a here h mine).1
    cases here.symm.trans waits
    cases mine
    obtain ⟨v, asleep, hushed⟩ := (sound.asleep _).2 ⟨t, _, here, rfl⟩
    exact ⟨v, asleep, congrArg Sleeper.handle hushed⟩
  have quiet : x.engine.isQuiet = true := by
    refine List.all_eq_true.2 fun v asleep => ?_
    obtain ⟨t', b, there, sleeps⟩ := (sound.asleep v.hushed).1 ⟨v, asleep, rfl⟩
    have own : v.call = t' := Phase.call_of_sleeper? (v := v.hushed) sleeps
    have untold := (busy t' b there _ (Phase.handle?_of_sleeper? sleeps)).2 v asleep own
    rw [untold]
    rfl
  have held : x.engine.Sound RowId.page :=
    ⟨(sound.reach.mono fun _ _ allowed => ⟨allowed.1, allowed.2.1, allowed.2.2.1⟩).watchful,
      (sound.reach.mono fun _ _ allowed => ⟨allowed.1, allowed.2.1, allowed.2.2.2⟩).cleared,
      sound.reach.tidy⟩
  obtain ⟨n, h, goal, todo, rest, waits⟩ := (none t a here unfinished).1
  obtain ⟨h', unready, idle⟩ := held.exists_idle quiet free (.inl (calls t _ waits h rfl))
  obtain ⟨t', b, there, theirs⟩ := (sound.rest h').resolve_right fun rest =>
    unready.resolve_left idle rest.1
  exact idle (calls t' b there h' theirs)

/-- What was asked for has been given back once the queues are empty. -/
theorem Sound.unlocks_of_empty (sound : x.Sound w c manager)
    (empty : ∀ k, (x.engine.queue k).requests = []) :
    x.engine.stats.unlocks = x.engine.stats.immediateGrants + x.engine.stats.waits := by
  have none : x.engine.requests = [] := by
    refine List.eq_nil_iff_forall_not_mem.2 fun r there => ?_
    obtain ⟨k, there⟩ := Engine.mem_requests.1 there
    rw [empty k] at there
    cases there
  obtain ⟨past, run⟩ := (sound.reach.mono fun _ _ allowed => allowed.1).exists_run
  have level : x.engine.surplus = 0 := run.accounts.surplus.trans (Engine.surplus_fresh manager)
  rw [Engine.surplus, none, Stats.standing, sound.plain.1, sound.plain.2, List.length_nil] at level
  change 0 - _ = (0 : UInt64) at level
  grind

theorem Sound.upright (sound : x.Sound w c manager) (here : x.At t a) : a.phase ≠ .crashed := by
  intro crashed
  have steady := (sound.fits t a here).steady
  rw [crashed] at steady
  exact steady

/-- What is left when all workers have made their transactions. -/
theorem Sound.outcome (sound : x.Sound w c manager) (finished : x.isOver c = true) :
    x.successful = c.workers * c.share ∧ x.failed = 0 ∧ x.engine.active.size = 0 ∧
      (∀ k, (x.engine.queue k).requests = []) ∧
      x.engine.stats.lockRequests = .ofNat (x.successful * c.perTxn w) ∧
      x.engine.stats.immediateGrants + x.engine.stats.waits = x.engine.stats.lockRequests ∧
      x.engine.stats.unlocks = x.engine.stats.lockRequests := by
  have all (a : Worker) (there : a ∈ x.workers) : a = ⟨c.share, .between⟩ := by
    obtain ⟨t, here⟩ := List.mem_iff_getElem?.1 there
    have made : a.made = c.share := beq_iff_eq.1 (List.all_eq_true.1 finished a there)
    have between : a.phase = .between := by
      by_contra other
      exact Nat.ne_of_lt ((sound.fits t a here).unfinished other) made
    rw [← made, ← between]
  have workers : x.workers = List.replicate c.workers ⟨c.share, .between⟩ :=
    List.eq_replicate_iff.2 ⟨sound.length, all⟩
  have total (g : Worker → Nat) : x.total g = c.workers * g ⟨c.share, .between⟩ := by
    rw [Run.total, workers, List.map_replicate, List.sum_replicate, Nat.nsmul_eq_mul]
  have nobody (h : Handle) : ¬ x.Owned h := by
    rintro ⟨t, a, here, mine⟩
    rw [all a (List.mem_of_getElem? here)] at mine
    cases mine
  have active : x.engine.active = ∅ := by
    refine Std.ExtTreeMap.ext_getElem? fun id => ?_
    rw [Std.ExtTreeMap.getElem?_empty, Option.eq_none_iff_forall_ne_some]
    exact fun h there => nobody h (sound.active id h there).2
  have successful : x.successful = c.workers * c.share := sound.successful.trans (total _)
  have empty (k : QueueKey) : (x.engine.queue k).requests = [] := by
    refine List.eq_nil_iff_forall_not_mem.2 fun r there => ?_
    obtain ⟨h, -, -, backs⟩ := sound.books.backed k r there
    exact nobody h (sound.owned_of_backs backs)
  refine ⟨successful, sound.failed, by rw [active]; rfl, empty, ?_, sound.answers, ?_⟩
  · rw [sound.requests, total, successful, Worker.asked, Nat.mul_assoc]
    rfl
  · rw [← sound.answers]
    exact sound.unlocks_of_empty empty

/-- In every run of fewer than 2^64 transactions, whatever tables and rows are picked and however the
steps of the workers and detection passes follow upon each other, if transactions lock tables only,
lock one row each, or have but one worker: no worker comes upon anything that must not happen, and as
long as some have not made all their transactions one of those does not sleep. Once all have, every
transaction has committed, none is active, and the queues are empty. Each lock has been asked for once,
granted at once or after a wait, and given back. -/
theorem one_outcome (small : c.operations < UInt64.size)
    (orderly : w = .rows → max 1 c.rowsPerTxn = 1 ∨ c.rowCount = 1 ∨ c.workers = 1)
    (reached : Reached w c manager x) :
    (∀ t a, x.At t a → a.phase ≠ .crashed) ∧
    (∀ t a, x.At t a → a.made ≠ c.share → ∃ t a, x.At t a ∧ a.made ≠ c.share ∧ ¬ x.Sleeps t) ∧
    (x.isOver c = true →
      x.successful = c.workers * c.share ∧ x.failed = 0 ∧ x.engine.active.size = 0 ∧
      (∀ k, (x.engine.queue k).requests = []) ∧
      x.engine.stats.lockRequests = .ofNat (x.successful * c.perTxn w) ∧
      x.engine.stats.immediateGrants + x.engine.stats.waits = x.engine.stats.lockRequests ∧
      x.engine.stats.unlocks = x.engine.stats.lockRequests) := by
  have sound := reached.sound small orderly
  exact ⟨fun t a here => sound.upright here,
    fun t a here => sound.exists_awake (sound.deadlockFree orderly) here, sound.outcome⟩

/-- For instance when two workers, taking turns, want the only row there is. -/
theorem one_outcome_of_two :
    let c : Config := { operations := 4, threads := 2, tables := 1, rowsPerTable := 1 }
    let x := complete .rows c
    x.isOver c = true ∧ x.engine.stats.waits = 3 ∧ x.successful = 4 ∧ x.failed = 0 ∧
      x.engine.active.size = 0 ∧ (∀ k, (x.engine.queue k).requests = []) ∧
      x.engine.stats.lockRequests = 8 ∧ x.engine.stats.unlocks = 8 := by
  intro c x
  have finished : x.isOver c = true := by decide +kernel
  obtain ⟨-, -, ended⟩ :=
    one_outcome (by decide) (fun _ => .inr (.inl rfl)) (reached_complete .rows c)
  obtain ⟨successful, failed, active, empty, requests, -, unlocks⟩ := ended finished
  have four : c.workers * c.share = 4 := by decide
  rw [four] at successful
  rw [successful] at requests
  exact ⟨finished, by decide +kernel, successful, failed, active, empty, requests,
    unlocks.trans requests⟩

end Run

end TwoPhaseLocking.Stress
