import TwoPhaseLocking.Proofs.Leave

/-! # What a grant pass grants

A grant pass grants the longest run of waiting requests, from the head on, that can be held together
and with all that is held already. A second pass has nothing to add. Whether there is a pass after
each arrival or one after all of them, the same requests are granted.
-/

namespace TwoPhaseLocking.Queue

/-- The requests that are still to be granted. -/
def waitingOf (rs : List Request) : List Request := rs.filter (!·.granted)

/-- The requests can be granted one after the other where the modes `held` are: each is compatible
with these and with all requests before it. -/
structure Fitting (held : List Mode) (run : List Request) : Prop where
  withHeld : ∀ r ∈ run, ∀ m ∈ held, r.mode.compatible m = true
  withEarlier : run.Pairwise fun a b => b.mode.compatible a.mode = true

/-- The longest run of requests that can be granted from the head of those that wait. -/
structure LongestRun (held : List Mode) (waiting run : List Request) : Prop where
  initial : run <+: waiting
  fitting : Fitting held run
  longest : ∀ run', run' <+: waiting → Fitting held run' → run'.length ≤ run.length

variable {held : List Mode} {waiting run : List Request} {r : Request}

theorem fitting_nil : Fitting held [] := ⟨by simp, .nil⟩

/-- Once the first is granted its mode is held as well. -/
theorem fitting_cons : Fitting held (r :: run) ↔
    r.mode.compatibleWithAll held = true ∧ Fitting (r.mode :: held) run := by
  rw [Mode.compatibleWithAll_iff]
  constructor
  · rintro ⟨withHeld, withEarlier⟩
    rw [List.pairwise_cons] at withEarlier
    refine ⟨withHeld r List.mem_cons_self, fun x hx m hm => ?_, withEarlier.2⟩
    rcases List.mem_cons.1 hm with rfl | hm
    · exact withEarlier.1 x hx
    · exact withHeld x (List.mem_cons_of_mem r hx) m hm
  · rintro ⟨first, withHeld, withEarlier⟩
    refine ⟨fun x hx m hm => ?_, List.pairwise_cons.2 ⟨fun x hx => ?_, withEarlier⟩⟩
    · rcases List.mem_cons.1 hx with rfl | hx
      · exact first m hm
      · exact withHeld x hx m (List.mem_cons_of_mem _ hm)
    · exact withHeld x hx _ List.mem_cons_self

theorem longestRun_nil : LongestRun held [] [] :=
  ⟨List.prefix_refl [], fitting_nil, fun _ initial _ => initial.length_le⟩

/-- Where the first fits the run goes on behind it. -/
theorem LongestRun.cons (fits : r.mode.compatibleWithAll held = true)
    (rest : LongestRun (r.mode :: held) waiting run) : LongestRun held (r :: waiting) (r :: run) where
  initial := List.cons_prefix_cons.2 ⟨rfl, rest.initial⟩
  fitting := fitting_cons.2 ⟨fits, rest.fitting⟩
  longest run' initial fitting := by
    cases run' with
    | nil => exact Nat.zero_le _
    | cons x run' =>
      obtain ⟨rfl, further⟩ := List.cons_prefix_cons.1 initial
      exact Nat.succ_le_succ (rest.longest run' further (fitting_cons.1 fitting).2)

/-- Where it does not, nobody behind it is granted either. -/
theorem longestRun_stop (unfit : ¬ r.mode.compatibleWithAll held = true) :
    LongestRun held (r :: waiting) [] where
  initial := List.nil_prefix
  fitting := fitting_nil
  longest run' initial fitting := by
    cases run' with
    | nil => exact Nat.le_refl _
    | cons x run' =>
      obtain ⟨rfl, -⟩ := List.cons_prefix_cons.1 initial
      exact absurd (fitting_cons.1 fitting).1 unfit

/-- A pass cuts the requests in two. In front everybody is granted, and those who waited there are
the longest run of all that wait. Behind nothing changes. The induction follows the pass, which holds
one more mode after each request it grants. -/
theorem grantWaiting_cuts (held : List Mode) (rs : List Request) :
    ∃ front back, rs = front ++ back ∧
      (grantWaiting held rs).1 = front.map ({ · with granted := true }) ++ back ∧
      LongestRun held (waitingOf rs) (waitingOf front) ∧
      (grantWaiting held rs).2 = (waitingOf front).length := by
  fun_induction grantWaiting held rs with
  | case1 => exact ⟨[], [], rfl, rfl, longestRun_nil, rfl⟩
  | case2 held r rs granted ih =>
    obtain ⟨front, back, rfl, passed, run, count⟩ := ih
    have same : { r with granted := true } = r := by rw [← granted]
    refine ⟨r :: front, back, rfl, ?_, ?_, ?_⟩
    · simp [passed, same]
    · simpa [waitingOf, granted] using run
    · simpa [waitingOf, granted] using count
  | case3 held r rs waits fits ih =>
    obtain ⟨front, back, rfl, passed, run, count⟩ := ih
    refine ⟨r :: front, back, rfl, ?_, ?_, ?_⟩
    · simp [passed]
    · simpa [waitingOf, waits] using run.cons fits
    · simpa [waitingOf, waits] using count
  | case4 held r rs waits unfit =>
    refine ⟨[], r :: rs, rfl, rfl, ?_, rfl⟩
    simpa [waitingOf, waits] using longestRun_stop unfit

variable {q : Queue}

/-- Whether there was a pass before some join at the tail makes no difference to one after that. -/
theorem grantBehind_grant {late : List Request} (waiting : ∀ a ∈ late, a.granted = false) :
    grantBehind [] (q.grant.requests ++ late) = grantBehind [] (q.requests ++ late) := by
  have same : grantBehind [] (q.grant.requests.filter (fun _ => true) ++ late) =
      grantBehind [] (q.requests.filter (fun _ => true) ++ late) :=
    grantBehind_filter (fun _ => true) waiting nofun fun a ha granted =>
      mem_heldModes.2 ⟨a, ha, granted, rfl⟩
  rwa [List.filter_true, List.filter_true] at same

theorem grant_push_grant (waits : r.granted = false) :
    (q.grant.push r).grant = (q.push r).grant := by
  have same := grantBehind_grant (q := q) fun a (ha : a ∈ [r]) => List.mem_singleton.1 ha ▸ waits
  exact congrArg (Queue.mk · q.upgrading) same

theorem grant_grant (q : Queue) : q.grant.grant = q.grant := by
  have same := grantBehind_grant (q := q) fun a (ha : a ∈ []) => absurd ha List.not_mem_nil
  rw [List.append_nil, List.append_nil] at same
  exact congrArg (Queue.mk · q.upgrading) same

/-- A pass that changes nothing has granted nothing. -/
theorem grantCount_eq_zero (same : q.grant = q) : q.grantCount = 0 := by
  obtain ⟨front, back, cut, passed, -, count⟩ := grantWaiting_cuts q.heldModes q.requests
  have unchanged : front.map ({ · with granted := true }) ++ back = front ++ back := by
    rw [← passed, ← cut]
    exact congrArg requests same
  have each := (List.append_cancel_right unchanged).trans front.map_id.symm
  rw [grantCount, count, waitingOf, List.length_eq_zero_iff, List.filter_eq_nil_iff]
  intro r hr
  have granted : true = r.granted := congrArg Request.granted (List.map_inj_left.1 each r hr)
  simp [← granted]

/-- With a pass after each arrival the queue comes to the same as with one pass at the end. -/
theorem foldl_push_grant {rs : List Request} (waiting : ∀ r ∈ rs, r.granted = false) :
    rs.foldl (fun q r => (q.push r).grant) q.grant = (rs.foldl push q).grant := by
  induction rs generalizing q with
  | nil => rfl
  | cons r rs ih =>
    rw [List.foldl_cons, List.foldl_cons, grant_push_grant (waiting r List.mem_cons_self)]
    exact ih fun x hx => waiting x (List.mem_cons_of_mem r hx)

/-- A grant pass cuts the queue in two: in front it grants all that wait, which are the longest run
that goes together with what was held, and behind it leaves everything as it is. A second pass
grants nothing. Requests that come one by one to an empty queue, each followed by a pass, are granted
as if there had been one pass after all of them. -/
theorem grant_longest_run (q : Queue) :
    (∃ front back, q.requests = front ++ back ∧
      q.grant = { q with requests := front.map ({ · with granted := true }) ++ back } ∧
      LongestRun q.heldModes (waitingOf q.requests) (waitingOf front) ∧
      q.grantCount = (waitingOf front).length) ∧
    q.grant.grant = q.grant ∧ q.grant.grantCount = 0 ∧
    ∀ rs : List Request, q.requests = [] → (∀ r ∈ rs, r.granted = false) →
      rs.foldl (fun q r => (q.push r).grant) q = (rs.foldl push q).grant := by
  refine ⟨?_, q.grant_grant, grantCount_eq_zero q.grant_grant, fun rs empty waiting => ?_⟩
  · obtain ⟨front, back, cut, passed, run, count⟩ := grantWaiting_cuts q.heldModes q.requests
    exact ⟨front, back, cut, by rw [grant, passed], run, count⟩
  · obtain ⟨_, upgrading⟩ := q
    cases empty
    exact foldl_push_grant (q := ⟨[], upgrading⟩) waiting

/-- For instance, behind a reader the second reader is let in and the writer is not, so the third
reader has to wait for him. -/
theorem grant_longest_run_up_to_writer :
    (ofList [⟨1, 1, .shared, .table 1, true⟩, ⟨2, 2, .shared, .table 1, false⟩,
        ⟨3, 3, .exclusive, .table 1, false⟩, ⟨4, 4, .shared, .table 1, false⟩]).grant =
      ofList [⟨1, 1, .shared, .table 1, true⟩, ⟨2, 2, .shared, .table 1, true⟩,
        ⟨3, 3, .exclusive, .table 1, false⟩, ⟨4, 4, .shared, .table 1, false⟩] ∧
    [⟨1, 1, .shared, .table 1, false⟩, ⟨2, 2, .exclusive, .table 1, false⟩].foldl
        (fun q r => (q.push r).grant) {} =
      ofList [⟨1, 1, .shared, .table 1, true⟩, ⟨2, 2, .exclusive, .table 1, false⟩] := by
  refine ⟨by decide +kernel, ?_⟩
  rw [(grant_longest_run {}).2.2.2 _ rfl (by decide)]
  decide +kernel

end TwoPhaseLocking.Queue
