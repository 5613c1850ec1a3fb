import XcWindows.Scsifilt.Conservation

/-!
# Pauses and progress of scsifilt

What moves requests to the ring: `start_requests`, which looks at `pause_count`, and the refill of
`handle_dpc`, which does not. So a pause keeps the schedule only as long as no response is read while
requests wait (`paused_keeps_schedule`).

A request that cannot be prepared waits for a completion to start it. That is enough if the grant
cache of the device has the references of one request beyond those of the ring (`Guarantee`): with
nothing in flight a request can always be prepared.
-/

namespace XcWindows.Scsifilt

open XcWindows.Lib

variable {γ κ ω : Type} {req : Nat → Sfr} {G : GrantOps γ κ ω} {s t : State γ κ}

/-! ## The loops -/

theorem endAll_append (g : γ) (l l' : List κ) : endAll G g (l ++ l') =
    ((endAll G g l).1 && (endAll G (endAll G g l).2 l').1, (endAll G (endAll G g l).2 l').2) := by
  induction l generalizing g with
  | nil => simp [endAll]
  | cons ref l ih => simp [endAll, ih, Bool.and_assoc]

theorem enqueueAll_ok {l : List Nat} (h : s.enqueueAll req l = .ok t) :
    ∃ schedule state, t = { s with schedule, state } := by
  induction l generalizing s with
  | nil => cases h; exact ⟨_, _, rfl⟩
  | cons x l ih =>
    unfold State.enqueueAll at h
    obtain ⟨_, -, h⟩ := bind_ok h
    obtain ⟨schedule, state, rfl⟩ := ih h
    exact ⟨_, _, rfl⟩

/-- `replay_pending_requests` ends the grants of its list. -/
theorem replayLoop_ok {l : List Nat} {n : Nat} (h : s.replayLoop req G l n = .ok t) :
    ∃ world schedule state, t = { s with world, schedule, state } ∧
      endAll G s.world (l.flatMap s.gref) = (true, world) := by
  induction l generalizing s n with
  | nil =>
    unfold State.replayLoop at h
    obtain ⟨_, -, h⟩ := bind_ok h
    cases h
    exact ⟨_, _, _, rfl, rfl⟩
  | cons x l ih =>
    unfold State.replayLoop at h
    obtain ⟨_, -, h⟩ := bind_ok h
    obtain ⟨u, hu, h⟩ := bind_ok h
    obtain ⟨g, hg, rfl⟩ := ungrantRequest_ok hu
    obtain ⟨world, schedule, state, rfl, hw⟩ := ih h
    refine ⟨_, _, _, rfl, ?_⟩
    rw [List.flatMap_cons, endAll_append, hg]
    exact Prod.ext (congrArg Prod.fst hw) (congrArg Prod.snd hw)

theorem abortLoop_ok {l : List Nat} {n expected : Nat} (h : s.abortLoop G expected l n = .ok t) :
    ∃ world state, t = { s with world, state } := by
  induction l generalizing s n with
  | nil =>
    unfold State.abortLoop at h
    obtain ⟨_, -, h⟩ := bind_ok h
    cases h
    exact ⟨_, _, rfl⟩
  | cons x l ih =>
    unfold State.abortLoop at h
    obtain ⟨_, -, h⟩ := bind_ok h
    obtain ⟨u, hu, h⟩ := bind_ok h
    obtain ⟨g, -, rfl⟩ := ungrantRequest_ok hu
    obtain ⟨world, state, rfl⟩ := ih h
    exact ⟨_, _, rfl⟩

/-! ## A pause keeps the schedule -/

/-- Every request was moved to the ring when `pause_count` was 0. -/
def Languish (s : State γ κ) : Prop := ∀ move ∈ s.moves, move.2 = 0

theorem Languish.moved {m : List Nat} (h : Languish s) (hm : Moved s t m)
    (hp : s.pauseCount = 0 ∨ m = []) : Languish t := by
  intro move hmove
  rw [hm.moves] at hmove
  rcases List.mem_append.mp hmove with hmove | hmove
  · rw [List.mem_reverse, List.mem_map] at hmove
    obtain ⟨x, hx, rfl⟩ := hmove
    rcases hp with hp | rfl
    · exact hp
    · cases hx
  · exact h move hmove

theorem Languish.startRequests (h : Languish s) (hs : s.startRequests req G = .ok t) :
    Languish t := by
  rcases startRequests_ok hs with rfl | ⟨hp, -, u, m, hm, rfl⟩
  · exact h
  · exact (h.moved hm (.inl hp) : Languish u)

theorem Languish.unpause (h : Languish s) (hs : s.unpauseDatapath req G = .ok t) : Languish t := by
  unfold State.unpauseDatapath at hs
  simp only at hs
  split at hs
  · exact Languish.startRequests (s := { s with pauseCount := s.pauseCount - 1 }) h hs
  · cases hs
    exact h

/-- A response is read only when the datapath is not paused or no request waits. -/
def RefillsUnpaused (s : State γ κ) : Act κ ω → Prop
  | .dpcResponse => s.pauseCount = 0 ∨ s.schedule.requests = []
  | _ => True

instance (s : State γ κ) : ∀ a : Act κ ω, Decidable (RefillsUnpaused s a) := by
  rintro ⟨⟩
  all_goals first | exact instDecidableTrue | exact inferInstanceAs (Decidable (_ ∨ _))

/-- A refill moves a request that waits, with the `pause_count` there is. -/
theorem refill_moves (h : s.refill req G = .ok t) :
    t.moves = s.moves ∨ s.schedule.requests ≠ [] ∧ ∃ x, t.moves = (x, s.pauseCount) :: s.moves := by
  unfold State.refill at h
  rcases s.schedule.getNextRequest_cases with ⟨hn, -⟩ | ⟨x, rest, hn, hc⟩
  · rw [hn] at h
    cases h
    exact .inl rfl
  · rw [hn] at h
    have hne : s.schedule.requests ≠ [] := by
      rw [← s.schedule.requests_flip, Schedule.requests, hc]
      exact List.cons_ne_nil _ _
    obtain ⟨⟨done, u⟩, hst, h⟩ := bind_ok h
    obtain ⟨-, ⟨rfl, v, hp, rfl⟩ | ⟨rfl, hp⟩⟩ := startThisRequest_ok hst
    · rcases prepareRequest_ok hp with ⟨-, g, refs, -, rfl⟩ | ⟨hb, -⟩
      · cases h
        exact .inr ⟨hne, x, rfl⟩
      · cases hb
    · rcases prepareRequest_ok hp with ⟨hb, -⟩ | ⟨-, g, -, rfl⟩
      · cases hb
      · cases h
        exact .inl rfl

theorem Languish.handleResponse {d : Dpc} {r : SharedRing (BlkifRequest κ) BlkifResponse}
    (h : Languish s) (hok : s.pauseCount = 0 ∨ s.schedule.requests = [])
    (hs : s.handleResponse req G d r = .ok t) : Languish t := by
  unfold State.handleResponse at hs
  split at hs
  · cases hs
  · next resp hresp =>
    obtain ⟨_, -, hs⟩ := bind_ok hs
    obtain ⟨u, hu, hs⟩ := bind_ok hs
    obtain ⟨g, -, rfl⟩ := ungrantRequest_ok hu
    have hm := refill_moves hs
    change t.moves = s.moves ∨ s.schedule.requests ≠ [] ∧
      ∃ x, t.moves = (x, s.pauseCount) :: s.moves at hm
    unfold Languish
    rcases hm with hm | ⟨hne, x, hm⟩
    · rw [hm]
      exact h
    · rw [hm, List.forall_mem_cons]
      exact ⟨hok.resolve_right hne, h⟩

theorem Languish.act [DecidableEq κ] {a : Act κ ω} (h : Languish s)
    (hok : RefillsUnpaused s a) (ha : act req G s a = some (.ok t)) : Languish t := by
  cases a with
  | schedule n =>
    simp only [Scsifilt.act] at ha
    split at ha
    · have ha := Option.some.inj ha
      unfold State.scheduleRequests at ha
      obtain ⟨u, hu, ha⟩ := bind_ok ha
      obtain ⟨schedule, state, rfl⟩ := enqueueAll_ok hu
      exact Languish.startRequests (s := { s with allocated := s.allocated + n, schedule, state }) h ha
    · cases ha
  | dpcBegin =>
    simp only [Scsifilt.act] at ha
    split at ha
    · split at ha
      · cases ha; exact h
      · split at ha
        · cases ha; exact h
        · cases ha; exact h
    · cases ha
  | dpcResponse =>
    simp only [Scsifilt.act] at ha
    split at ha
    · split at ha
      · exact h.handleResponse hok (Option.some.inj ha)
      · cases ha
    · cases ha
  | dpcCheck =>
    simp only [Scsifilt.act] at ha
    split at ha
    · split at ha
      · split at ha
        · cases ha; exact h
        · split at ha
          · cases ha; exact h
          · cases ha; exact h
      · cases ha
    · cases ha
  | finish x =>
    simp only [Scsifilt.act] at ha
    split at ha
    · obtain ⟨_, -, ha⟩ := bind_ok (Option.some.inj ha)
      cases ha
      exact h
    · cases ha
  | pauseDatapath =>
    simp only [Scsifilt.act] at ha
    split at ha
    · obtain ⟨_, -, ha⟩ := bind_ok (Option.some.inj ha)
      cases ha
      exact h
    · cases ha
  | unpauseDatapath =>
    simp only [Scsifilt.act] at ha
    split at ha
    · exact Languish.unpause (s := { s with pauses := s.pauses - 1 }) h (Option.some.inj ha)
    · cases ha
  | connectRing order frame =>
    simp only [Scsifilt.act] at ha
    split at ha
    · split at ha
      · obtain ⟨g, refs, b, rfl⟩ := grantRing_ok (Option.some.inj ha)
        exact h
      · cases ha
    · cases ha
  | connectFail =>
    simp only [Scsifilt.act] at ha
    split at ha
    · cases ha; exact h
    · split at ha
      · cases ha; exact h
      · cases ha
    · cases ha
  | replayGrab =>
    simp only [Scsifilt.act] at ha
    split at ha
    · cases ha; exact h
    · cases ha
  | replayEnqueue =>
    simp only [Scsifilt.act] at ha
    split at ha
    · split at ha
      · obtain ⟨u, hu, ha⟩ := bind_ok (Option.some.inj ha)
        obtain ⟨_, -, ha⟩ := bind_ok ha
        cases ha
        obtain ⟨world, schedule, state, rfl, -⟩ := replayLoop_ok hu
        exact h
      · cases ha
    · cases ha
  | lateUnpause =>
    simp only [Scsifilt.act] at ha
    split at ha
    · exact Languish.unpause
        (s := { s with connect := .idle, suspendPauses := s.suspendPauses - 1 }) h
        (Option.some.inj ha)
    · cases ha
  | lateSkip =>
    simp only [Scsifilt.act] at ha
    split at ha
    · exact Languish.unpause (s := { s with suspendPauses := s.suspendPauses - 1 }) h
        (Option.some.inj ha)
    · cases ha
  | setPower d => cases ha; exact h
  | abortGrab =>
    have ha := Option.some.inj ha
    split at ha
    · obtain ⟨_, -, ha⟩ := bind_ok ha
      cases ha
      exact h
    · cases ha; exact h
  | abortWalk entry =>
    simp only [Scsifilt.act] at ha
    split at ha
    · obtain ⟨world, state, rfl⟩ := abortLoop_ok (Option.some.inj ha)
      exact h
    · cases ha
  | backTake =>
    obtain ⟨r, -, hr⟩ := Option.map_eq_some_iff.mp ha
    cases hr
    exact h
  | backAnswer x =>
    simp only [Scsifilt.act] at ha
    split at ha
    · split at ha
      · cases ha; exact h
      · cases ha
    · cases ha
  | other w => cases ha; exact h
  | pauseReturns | earlySuspend | noticeDehibernated | dehibernatedReplay | connectBegin | close =>
    simp only [Scsifilt.act] at ha
    split at ha
    · cases ha; exact h
    · cases ha

/-- As long as no response is read while the datapath is paused and requests wait, a request is only
ever moved to the ring when `pause_count` is 0. -/
theorem paused_keeps_schedule [DecidableEq κ] {g : γ}
    (h : (machine req G g).Reach RefillsUnpaused s) : ∀ move ∈ s.moves, move.2 = 0 := by
  apply h.inv (I := Languish) (fun _ hm => absurd hm List.not_mem_nil)
  intro s a t hi hok hst
  unfold machine step at hst
  simp only at hst
  split at hst
  · cases hst
  · obtain ⟨e, he, rfl⟩ := Option.map_eq_some_iff.mp hst
    cases e with
    | ok t => exact hi.act hok he
    | error c => exact hi

/-- A request waits in the schedule for the end of a pause. -/
theorem paused_keeps_schedule_run :
    ∃ s, (machine readsDown plentiful 0).Reach RefillsUnpaused s ∧ s.moves.length = 2 ∧
      s.completions = [0] ∧ ∀ move ∈ s.moves, move.2 = 0 := by
  obtain ⟨s, hr, hp⟩ := Machine.exists_reach (machine readsDown plentiful 0) RefillsUnpaused
    (fun s => s.moves.length = 2 ∧ s.completions = [0])
    [.connectBegin .pauser, .connectRing 0 5, .replayGrab, .replayEnqueue, .unpauseDatapath,
      .schedule 1, .pauseDatapath, .backTake, .backAnswer ⟨0, .read, 100, [1]⟩, .dpcBegin,
      .dpcResponse, .dpcCheck, .dpcCheck, .finish 0, .pauseReturns, .schedule 1, .unpauseDatapath]
    (by decide +kernel)
  simp only [decide_eq_true_eq] at hp
  exact ⟨s, hr, hp.1, hp.2, paused_keeps_schedule hr⟩

/-- `pause_datapath` waits for a request on the ring; meanwhile another is scheduled, and stays
where it is until `handle_dpc` reads the response and puts it on the ring. -/
theorem refill_ignores_pause :
    ¬∀ s, (machine readsDown plentiful 0).Reach Machine.Any s → ∀ move ∈ s.moves, move.2 = 0 := by
  intro hall
  obtain ⟨s, hr, hp⟩ := Machine.exists_reach (machine readsDown plentiful 0) Machine.Any
    (fun s => s.moves = [(1, 1), (0, 0)] ∧ s.pauseCount = 1)
    [.connectBegin .pauser, .connectRing 0 5, .replayGrab, .replayEnqueue, .unpauseDatapath,
      .schedule 1, .pauseDatapath, .schedule 1, .backTake, .backAnswer ⟨0, .read, 100, [1]⟩,
      .dpcBegin, .dpcResponse] (by decide +kernel)
  simp only [decide_eq_true_eq] at hp
  have := hall s hr (1, 1) (by rw [hp.1]; exact List.mem_cons_self)
  cases this

/-! ## The grants of the device -/

/-- What a grant cache promises: it counts what is held from it, and a grant fails only when at least
`least` references are held. -/
structure Guarantee (G : GrantOps γ κ ω) (Good : γ → Prop) (held : γ → Nat) (least : Nat) :
    Prop where
  grant_some : ∀ {g g' pfn mode ref}, Good g →
    G.grantForeignAccessCache g pfn mode = (some ref, g') → Good g' ∧ held g' = held g + 1
  grant_none : ∀ {g g' pfn mode}, Good g → G.grantForeignAccessCache g pfn mode = (none, g') →
    Good g' ∧ held g' = held g ∧ (pfn < 4294967296 → least ≤ held g)
  end_true : ∀ {g g' ref}, Good g → G.endForeignAccessCache g ref = (true, g') →
    Good g' ∧ held g' + 1 = held g
  end_false : ∀ {g g' ref}, Good g → G.endForeignAccessCache g ref = (false, g') → Good g'
  other : ∀ {g w}, Good g → Good (G.other w g) ∧ held (G.other w g) = held g

section Grants
variable {Good : γ → Prop} {held : γ → Nat} {least : Nat} (hG : Guarantee G Good held least)
include hG

theorem Guarantee.endAll_good {g : γ} (h : Good g) (refs : List κ) : Good (endAll G g refs).2 := by
  induction refs generalizing g with
  | nil => exact h
  | cons ref refs ih =>
    rcases he : G.endForeignAccessCache g ref with ⟨_ | _, g'⟩
    · simp only [endAll, he]
      exact ih (hG.end_false h he)
    · simp only [endAll, he]
      exact ih (hG.end_true h he).1

theorem Guarantee.endAll_true {g g' : γ} (h : Good g) {refs : List κ}
    (he : endAll G g refs = (true, g')) : Good g' ∧ held g' + refs.length = held g := by
  induction refs generalizing g with
  | nil => cases he; exact ⟨h, rfl⟩
  | cons ref refs ih =>
    rcases h1 : G.endForeignAccessCache g ref with ⟨_ | _, g1⟩
    · simp [endAll, h1] at he
    · obtain ⟨hg1, hh1⟩ := hG.end_true h h1
      simp only [endAll, h1, Bool.true_and] at he
      obtain ⟨hg', hh'⟩ := ih hg1 he
      exact ⟨hg', by rw [List.length_cons]; omega⟩

theorem Guarantee.prepareLoop_some {g g' : γ} (h : Good g) {mode : Gnttab.GrantMode}
    {refs refs' : List κ} {pfns : List Nat}
    (hp : prepareLoop G mode g refs pfns = .ok (some refs', g')) :
    Good g' ∧ held g' + refs.length = held g + refs'.length := by
  induction pfns generalizing g refs with
  | nil => cases hp; exact ⟨h, rfl⟩
  | cons pfn pfns ih =>
    unfold prepareLoop at hp
    split at hp
    · next ref g1 h1 =>
      obtain ⟨hg1, hh1⟩ := hG.grant_some h h1
      obtain ⟨hg', hh'⟩ := ih hg1 hp
      rw [List.length_append, List.length_singleton] at hh'
      exact ⟨hg', by omega⟩
    · simp only at hp
      split at hp <;> cases hp

/-- A failed `prepare_request` gives everything back. -/
theorem Guarantee.prepareLoop_none {g g' : γ} (h : Good g) {mode : Gnttab.GrantMode}
    {refs : List κ} {pfns : List Nat} (hp : prepareLoop G mode g refs pfns = .ok (none, g')) :
    Good g' ∧ held g' + refs.length = held g := by
  induction pfns generalizing g refs with
  | nil => cases hp
  | cons pfn pfns ih =>
    unfold prepareLoop at hp
    split at hp
    · next ref g1 h1 =>
      obtain ⟨hg1, hh1⟩ := hG.grant_some h h1
      obtain ⟨hg', hh'⟩ := ih hg1 hp
      rw [List.length_append, List.length_singleton] at hh'
      exact ⟨hg', by omega⟩
    · next g1 h1 =>
      obtain ⟨hg1, hh1, -⟩ := hG.grant_none h h1
      rcases hend : endAll G g1 refs.reverse with ⟨_ | _, g2⟩
      · simp [hend] at hp
      · simp only [hend, if_true, Except.ok.injEq, Prod.mk.injEq, true_and] at hp
        subst hp
        obtain ⟨hg', hh'⟩ := hG.endAll_true hg1 hend
        rw [List.length_reverse] at hh'
        exact ⟨hg', by omega⟩

/-- With enough references left, `prepare_request` succeeds. -/
theorem Guarantee.prepareLoop_enough {g : γ} (h : Good g) (mode : Gnttab.GrantMode) (refs : List κ)
    {pfns : List Nat} (hlt : ∀ p ∈ pfns, p < 4294967296) (hroom : held g + pfns.length ≤ least) :
    ∃ refs' g', prepareLoop G mode g refs pfns = .ok (some refs', g') := by
  induction pfns generalizing g refs with
  | nil => exact ⟨_, _, rfl⟩
  | cons pfn pfns ih =>
    rw [List.length_cons] at hroom
    unfold prepareLoop
    split
    · next ref g1 h1 =>
      obtain ⟨hg1, hh1⟩ := hG.grant_some h h1
      exact ih hg1 _ (fun p hp => hlt p (List.mem_cons_of_mem _ hp)) (by omega)
    · next g1 h1 =>
      have := (hG.grant_none h h1).2.2 (hlt pfn List.mem_cons_self)
      omega

end Grants

/-- The references that the ring and the requests on it have. -/
def State.refs (s : State γ κ) : Nat :=
  (s.ringGref.filterMap id).length +
    ((s.inflightRequests ++ s.needingReplay).flatMap s.gref).length

/-- What is held from the grant cache is what the ring and the requests have, unless a page of an old
ring could not be taken back. -/
structure Stock (Good : γ → Prop) (held : γ → Nat) (s : State γ κ) : Prop where
  good : Good s.world
  pages : s.ringGref.length = maxRingPages
  held : s.ringLeaked = false → held s.world = s.refs

theorem flatMap_update {f : Nat → List κ} {x : Nat} {v : List κ} {l : List Nat} (h : x ∉ l) :
    l.flatMap (Function.update f x v) = l.flatMap f := by
  refine List.flatMap_congr fun y hy => ?_
  exact Function.update_of_ne (ne_of_mem_of_not_mem hy h) ..

section Stock
variable {Good : γ → Prop} {held : γ → Nat} {least : Nat} (hG : Guarantee G Good held least)
  {hand : List Nat} {x : Nat} {b : Bool}

/-- The same requests have the same references, wherever they are. -/
theorem Stock.perm (h : Stock Good held s) (hw : t.world = s.world) (hr : t.ringGref = s.ringGref)
    (hl : t.ringLeaked = s.ringLeaked) (hg : t.gref = s.gref)
    (hp : (t.inflightRequests ++ t.needingReplay).Perm (s.inflightRequests ++ s.needingReplay)) :
    Stock Good held t := by
  refine ⟨hw ▸ h.good, by rw [hr]; exact h.pages, fun hn => ?_⟩
  rw [hl] at hn
  rw [hw, h.held hn, State.refs, State.refs, hr, hg, (hp.flatMap_right s.gref).length_eq]

include hG

/-- A request that waits has no references yet. -/
theorem Stock.startThisRequest (h : Stock Good held s) (hl : Lists s hand)
    (hx : x ∈ s.schedule.requests)
    (hs : ({ s with schedule := s.schedule.flip } : State γ κ).startThisRequest req G x
      = .ok (b, t)) : Stock Good held t := by
  have hnot : x ∉ s.inflightRequests ++ s.needingReplay := by
    intro hm
    have h1 := hl.queued x hx
    rw [hl.submitted x hm] at h1
    cases h1
  obtain ⟨-, ⟨-, u, hp, rfl⟩ | ⟨-, hp⟩⟩ := startThisRequest_ok hs
  · rcases prepareRequest_ok hp with ⟨-, g, refs, hloop, rfl⟩ | ⟨hb, -⟩
    · obtain ⟨hgood, hheld⟩ := hG.prepareLoop_some h.good hloop
      refine ⟨hgood, h.pages, fun hn => ?_⟩
      have hs := h.held hn
      have e1 := flatMap_update (f := s.gref) (v := refs) (l := s.inflightRequests)
        (fun hm => hnot (List.mem_append_left _ hm))
      have e2 := flatMap_update (f := s.gref) (v := refs) (l := s.needingReplay)
        (fun hm => hnot (List.mem_append_right _ hm))
      simp only [State.refs, List.flatMap_append, List.length_append] at hs
      change held g = (s.ringGref.filterMap id).length + ((s.inflightRequests ++ [x] ++
        s.needingReplay).flatMap (Function.update s.gref x refs)).length
      simp only [List.flatMap_append, List.flatMap_cons, List.flatMap_nil, List.append_nil,
        List.length_append, e1, e2, Function.update_self]
      rw [List.length_nil, Nat.add_zero] at hheld
      change held g = held s.world + refs.length at hheld
      omega
    · cases hb
  · rcases prepareRequest_ok hp with ⟨hb, -⟩ | ⟨-, g, hloop, rfl⟩
    · cases hb
    · obtain ⟨hgood, hheld⟩ := hG.prepareLoop_none h.good hloop
      refine ⟨hgood, h.pages, fun hn => ?_⟩
      exact hheld.trans (h.held hn)

/-- The loop of `start_requests` keeps the stock. -/
theorem Stock.startLoop {n : Nat} (h : Stock Good held s) (hl : Lists s hand)
    (hs : State.startLoop req G n s = .ok t) : Stock Good held t := by
  induction n generalizing s with
  | zero => cases hs; exact h
  | succ n ih =>
    unfold State.startLoop at hs
    split at hs
    · cases hs; exact h
    · next hfull =>
      rcases s.schedule.getNextRequest_cases with ⟨hn, -⟩ | ⟨x, rest, hn, hc⟩
      · rw [hn] at hs
        cases hs
        exact { h with }
      · rw [hn] at hs
        obtain ⟨⟨done, u⟩, hst, hs⟩ := bind_ok hs
        have hx : x ∈ s.schedule.requests := by
          rw [← s.schedule.requests_flip, Schedule.requests, hc]
          exact List.mem_append_left _ List.mem_cons_self
        have hu := h.startThisRequest hG hl hx hst
        have hm := startThisRequest_moved hc (not_full hfull) hst
        simp only at hs
        split at hs
        · exact ih hu (hl.moved hm) hs
        · cases hs; exact hu

theorem Stock.startRequests (h : Stock Good held s) (hl : Lists s hand)
    (hs : s.startRequests req G = .ok t) : Stock Good held t := by
  unfold State.startRequests at hs
  split at hs
  · cases hs; exact h
  · split at hs
    · cases hs; exact h
    · obtain ⟨u, hu, hs⟩ := bind_ok hs
      cases hs
      exact { h.startLoop hG hl hu with }

theorem Stock.refill (h : Stock Good held s) (hl : Lists s hand)
    (hs : s.refill req G = .ok t) : Stock Good held t := by
  unfold State.refill at hs
  rcases s.schedule.getNextRequest_cases with ⟨hn, -⟩ | ⟨x, rest, hn, hc⟩
  · rw [hn] at hs
    cases hs
    exact { h with }
  · rw [hn] at hs
    obtain ⟨⟨done, u⟩, hst, hs⟩ := bind_ok hs
    have hx : x ∈ s.schedule.requests := by
      rw [← s.schedule.requests_flip, Schedule.requests, hc]
      exact List.mem_append_left _ List.mem_cons_self
    have hu := h.startThisRequest hG hl hx hst
    cases done with
    | true => cases hs; exact { hu with }
    | false => cases hs; exact hu

/-- The references of a response's request are taken back. -/
theorem Stock.processResponse {d : Dpc} {r : SharedRing (BlkifRequest κ) BlkifResponse} {g : γ}
    (h : Stock Good held s) (hl : Lists s []) (hx : x ∈ s.inflightRequests)
    (he : endAll G s.world (s.gref x) = (true, g)) :
    Stock Good held (({ s with world := g } : State γ κ).processResponse d r x) := by
  obtain ⟨hgood, hheld⟩ := hG.endAll_true h.good he
  refine ⟨hgood, h.pages, fun hn => ?_⟩
  have hs := h.held hn
  have herase : s.requestsNeedingReplay.erase x = s.requestsNeedingReplay :=
    List.erase_of_not_mem (List.count_eq_zero.mp (hl.inflight_only hx).1)
  have hp := ((List.perm_cons_erase hx).flatMap_right s.gref).length_eq
  rw [List.flatMap_cons, List.length_append] at hp
  simp only [State.refs, State.needingReplay, List.flatMap_append, List.length_append] at hs
  simp only [State.refs, State.processResponse, State.unlink, State.needingReplay, herase,
    List.flatMap_append, List.length_append]
  omega

/-- A list that is replayed gives its references back. -/
theorem Stock.replay {o : Owner} {l : List Nat} {n : Nat} {g : γ} {schedule : Schedule}
    {state : Nat → SfrState} (h : Stock Good held s) (hc : s.connect = .replaying o l n)
    (he : endAll G s.world (l.flatMap s.gref) = (true, g)) :
    Stock Good held { s with connect := .replayed o, world := g, schedule, state } := by
  obtain ⟨hgood, hheld⟩ := hG.endAll_true h.good he
  refine ⟨hgood, h.pages, fun hn => ?_⟩
  have hs := h.held hn
  have hreq : (Connect.replayed o).requests = [] := by cases o <;> rfl
  simp only [State.refs, State.needingReplay, hc, Connect.requests, List.flatMap_append,
    List.length_append] at hs
  simp only [State.refs, State.needingReplay, hreq, List.flatMap_append, List.length_append,
    List.flatMap_nil, List.length_nil]
  omega

/-- `ungrant_ring` empties entries of `ring_gref`. -/
theorem Stock.ungrantRing (h : Stock Good held s) : Stock Good held (s.ungrantRing G) := by
  constructor
  case good => exact hG.endAll_good h.good _
  case pages =>
    have := h.pages
    simp only [State.ungrantRing, State.ungrantRingLoop, List.length_append, List.length_replicate,
      List.length_take, List.length_drop]
    omega
  case held =>
    intro hn
    rcases he : endAll G s.world ((s.ringGref.take (2 ^ s.ringOrder)).filterMap id) with
      ⟨_ | _, g⟩
    · simp only [State.ungrantRing, State.ungrantRingLoop, he, Bool.not_false, Bool.or_true] at hn
      cases hn
    simp only [State.ungrantRing, State.ungrantRingLoop, he, Bool.not_true, Bool.or_false] at hn
    have hs := h.held hn
    obtain ⟨-, hheld⟩ := hG.endAll_true h.good he
    have hsplit : (s.ringGref.filterMap id).length =
        ((s.ringGref.take (2 ^ s.ringOrder)).filterMap id).length +
          ((s.ringGref.drop (2 ^ s.ringOrder)).filterMap id).length := by
      rw [← List.length_append, ← List.filterMap_append, List.take_append_drop]
    have hnone : ((List.replicate (s.ringGref.take (2 ^ s.ringOrder)).length (none : Option κ) ++
        s.ringGref.drop (2 ^ s.ringOrder)).filterMap id).length =
          ((s.ringGref.drop (2 ^ s.ringOrder)).filterMap id).length := by
      rw [List.filterMap_append, List.length_append]
      simp
    simp only [State.refs] at hs
    simp only [State.refs, State.ungrantRing, State.ungrantRingLoop, he, hnone]
    change held g = _ + ((s.inflightRequests ++ s.needingReplay).flatMap s.gref).length
    omega

theorem Guarantee.grantRingLoop {g g' : γ} (h : Good g) {frame n : Nat} {refs : List (Option κ)}
    (hs : State.grantRingLoop G g frame n = .ok (refs, g')) :
    Good g' ∧ refs.length = n ∧ (refs.filterMap id).length = n ∧ held g' = held g + n := by
  induction n generalizing g frame refs with
  | zero => cases hs; exact ⟨h, rfl, rfl, rfl⟩
  | succ n ih =>
    unfold State.grantRingLoop at hs
    split at hs
    · next ref g1 h1 =>
      obtain ⟨hg1, hh1⟩ := hG.grant_some h h1
      obtain ⟨⟨refs1, g2⟩, h2, hs⟩ := bind_ok hs
      cases hs
      obtain ⟨hg2, hl, hf, hh2⟩ := ih hg1 h2
      refine ⟨hg2, by rw [List.length_cons, hl], ?_, by omega⟩
      simp only [List.filterMap_cons, id, List.length_cons]
      exact congrArg (· + 1) hf
    · cases hs

/-- `grant_ring` fills entries that `ungrant_ring` has emptied. -/
theorem Stock.grantRing {frame : Nat} (h : Stock Good held s) (ho : s.ringOrder ≤ 2)
    (hs : s.grantRing G frame = .ok t) : Stock Good held t := by
  have hu := h.ungrantRing hG
  unfold State.grantRing at hs
  obtain ⟨⟨refs, g⟩, hloop, hs⟩ := bind_ok hs
  cases hs
  obtain ⟨hgood, hl, hf, hh⟩ := hG.grantRingLoop hu.good hloop
  have hpow : 2 ^ s.ringOrder ≤ maxRingPages := by
    have : s.ringOrder = 0 ∨ s.ringOrder = 1 ∨ s.ringOrder = 2 := by omega
    rcases this with e | e | e <;> rw [e] <;> decide
  have hpages := hu.pages
  have hord : (s.ungrantRing G).ringOrder = s.ringOrder := rfl
  refine ⟨hgood, ?_, fun hn => ?_⟩
  · simp only [List.length_append, hl, List.length_drop, hord]
    omega
  · have hsum := hu.held hn
    have hnone : ((s.ungrantRing G).ringGref.filterMap id).length =
        (((s.ungrantRing G).ringGref.drop (2 ^ s.ringOrder)).filterMap id).length := by
      have hlen : (s.ringGref.take (2 ^ s.ringOrder)).length = 2 ^ s.ringOrder := by
        rw [List.length_take, h.pages]
        omega
      have e : (s.ungrantRing G).ringGref = List.replicate (2 ^ s.ringOrder) none ++
          s.ringGref.drop (2 ^ s.ringOrder) := by
        simp only [State.ungrantRing, State.ungrantRingLoop, hlen]
      rw [e, List.filterMap_append, List.drop_left' List.length_replicate, List.length_append]
      simp
    simp only [State.refs] at hsum
    change held g = ((refs ++ (s.ungrantRing G).ringGref.drop (2 ^ s.ringOrder)).filterMap
      id).length + ((s.inflightRequests ++ s.needingReplay).flatMap s.gref).length
    rw [List.filterMap_append, List.length_append, hf, hord]
    change held (s.ungrantRing G).world = _ + ((s.inflightRequests ++ s.needingReplay).flatMap
      s.gref).length at hsum
    rw [hord] at hh
    omega

end Stock

/-! ## A waiting request has one in flight before it -/

/-- `late_suspend_cb` has taken the list of requests to be replayed. -/
def Connect.lateReplay : Connect → Nat
  | .replaying .late _ _ | .connected => 1
  | _ => 0

/-- Requests that have to be replayed keep a ring paused, once `replay_pending_requests` has run on
it; none is being aborted. -/
structure Replays (s : State γ κ) : Prop where
  paused : s.ring.isSome → (∀ o, s.connect ≠ .ringUp o) → s.requestsNeedingReplay ≠ [] →
    s.connect.lateReplay < s.suspendPauses + s.dehibernating.length
  aborting : s.aborting = []

/-- If requests wait on a ring that is not paused, some are in flight. -/
def Live (s : State γ κ) : Prop :=
  s.ringLeaked = false → s.pauseCount = 0 → s.ring.isSome → s.schedule.requests ≠ [] →
    s.inflightRequests ≠ []

theorem Live.congr (h : Live s) (hl : t.ringLeaked = s.ringLeaked)
    (hp : t.pauseCount = s.pauseCount) (hr : t.ring.isSome = s.ring.isSome)
    (hs : t.schedule = s.schedule) (hi : t.inflightRequests = s.inflightRequests) : Live t := by
  unfold Live
  rw [hl, hp, hr, hs, hi]
  exact h

theorem live_of_paused (h : t.pauseCount ≠ 0) : Live t := fun _ h0 => absurd h0 h

theorem live_of_noRing (h : t.ring = none) : Live t := fun _ _ hr => by
  rw [h] at hr
  cases hr

/-- A connection in the hands of a caller holds the data path paused. -/
theorem pauseCount_ne_zero {o : Owner} (hi : Inv s) (hown : s.connect.owner = some o) :
    s.pauseCount ≠ 0 := by
  have hpc := hi.pauses.pauseCount
  cases o with
  | late => have := hi.pauses.late hown; omega
  | pauser => have := hi.pauses.pauser hown; omega

/-- Without a pause nothing has to be replayed. -/
theorem Replays.needingReplay (h : Replays s) (hi : Inv s) (hr : s.ring.isSome)
    (hp : s.pauseCount = 0) : s.needingReplay = [] := by
  have hpc := hi.pauses.pauseCount
  have hrep : s.requestsNeedingReplay = [] := by
    by_contra hne
    have := h.paused hr (fun o hc => pauseCount_ne_zero hi (by rw [hc]; rfl) hp) hne
    omega
  have hdeh : s.dehibernating = [] := List.length_eq_zero_iff.mp (by omega)
  have hcon : s.connect.requests = [] := by
    cases hc : s.connect with
    | replaying o l n => exact absurd hp (pauseCount_ne_zero hi (by rw [hc]; rfl))
    | idle => rfl
    | freed => rfl
    | ringUp => rfl
    | connected => rfl
  rw [State.needingReplay, hrep, hdeh, hcon, h.aborting]
  rfl

theorem Replays.moved {m : List Nat} (h : Replays s) (hm : Moved s t m) : Replays t := by
  refine hm.elim fun world gref schedule ring infl nr state moves hm => ?_
  refine { h with paused := fun hr => h.paused ?_ }
  rw [Option.isSome_iff_ne_none] at hr ⊢
  exact mt hm.noRing hr

theorem Replays.ring {r : SharedRing (BlkifRequest κ) BlkifResponse} (h : Replays s)
    (hr : s.ring.isSome) : Replays { s with ring := some r } :=
  { h with paused := fun _ => h.paused hr }

theorem Replays.push (h : Replays s) : Replays s.pushRequests :=
  { h with paused := fun hr => h.paused (by simpa [State.pushRequests] using hr) }

/-- A ring with nothing in flight is not full. -/
theorem Inv.not_full (h : Inv s) (hinf : s.inflightRequests = []) (hp : s.pauseCount = 0) :
    ∀ r ∈ s.ring, ¬r.full := by
  intro r hr hfull
  obtain ⟨a, unread, taken, queued, hh, hperm, -⟩ := h.onRing.ring r hr
  have hpc := h.pauses.pauseCount
  have hstale : s.stale = false := by
    by_contra hs
    have := h.pauses.stale (Option.isSome_of_mem hr) (by simpa using hs)
    omega
  have hlen := (hperm hstale).length_eq
  rw [hinf] at hlen
  simp only [List.length_append, List.length_map, List.length_nil] at hlen
  have hent := hh.full_iff.mp hfull
  have hpos := hh.pos
  rw [List.length_nil] at hent
  omega

section Live
variable {Good : γ → Prop} {held : γ → Nat} {x : Nat} {rest : List Nat} {b : Bool}
  (hG : Guarantee G Good held (blkifMaxSegmentsPerRequest + maxRingPages))
include hG

/-- With nothing in flight a request can be started. -/
theorem starts_alone (hS : Stock Good held s) (hi : s.inflightRequests = [])
    (hn : s.needingReplay = []) (hl : s.ringLeaked = false)
    (hs : ({ s with schedule := s.schedule.flip } : State γ κ).startThisRequest req G x
      = .ok (b, t)) : b = true := by
  have hheld := hS.held hl
  have hring : (s.ringGref.filterMap id).length ≤ maxRingPages := by
    rw [← hS.pages]
    exact List.length_filterMap_le _ _
  simp only [State.refs, hi, hn, List.append_nil, List.flatMap_nil, List.length_nil,
    Nat.add_zero] at hheld
  have hseg := (req x).nrSegments_le
  obtain ⟨-, ⟨hb, -⟩ | ⟨-, hp⟩⟩ := startThisRequest_ok hs
  · exact hb
  · rcases prepareRequest_ok hp with ⟨hb, -⟩ | ⟨-, g, hloop, -⟩
    · cases hb
    · obtain ⟨refs, g', hloop'⟩ := hG.prepareLoop_enough hS.good
        (if (req x).operation = .read then .rw else .ro) [] (req x).pfn_lt (by omega)
      rw [hloop'] at hloop
      cases hloop

/-- A refill that finds nothing in flight starts a request. -/
theorem refill_live (hi : Inv s) (hS : Stock Good held s) (hR : Replays s) (hr : s.ring.isSome)
    (hroom : ∀ r ∈ s.ring, ¬r.full) (hs : s.refill req G = .ok t) : Live t := by
  unfold State.refill at hs
  rcases s.schedule.getNextRequest_cases with ⟨hn, hnil⟩ | ⟨x, rest, hn, hc⟩
  · rw [hn] at hs
    cases hs
    intro _ _ _ hne
    exact absurd ((Schedule.requests_flip _).trans hnil) hne
  · rw [hn] at hs
    obtain ⟨⟨done, u⟩, hst, hs⟩ := bind_ok hs
    have hm := startThisRequest_moved hc hroom hst
    cases done with
    | true =>
      cases hs
      intro _ _ _ _ hnil
      have : s.inflightRequests ++ [x] = [] := hm.inflight.symm.trans hnil
      simp at this
    | false =>
      cases hs
      intro hl hp _ _ hnil
      have hfr := hm.frame
      have hl' : s.ringLeaked = false := by rw [hfr] at hl; exact hl
      have hp' : s.pauseCount = 0 := by rw [hfr] at hp; exact hp
      have hnil' : s.inflightRequests = [] := by
        have := hm.inflight.symm.trans hnil
        simpa using this
      have := starts_alone hG hS hnil' (hR.needingReplay hi hr hp') hl' hst
      cases this

/-- So does `start_requests`. -/
theorem startRequests_live (hi : Inv s) (hS : Stock Good held s) (hR : Replays s)
    (hs : s.startRequests req G = .ok t) : Live t := by
  unfold State.startRequests at hs
  split at hs
  · next hp => cases hs; exact live_of_paused hp
  · next hp =>
    split at hs
    · next hr => cases hs; exact live_of_noRing (Option.isNone_iff_eq_none.mp hr)
    · next hr =>
      obtain ⟨u, hu, hs⟩ := bind_ok hs
      cases hs
      obtain ⟨m, hm⟩ := startLoop_moved hu
      intro hl _ _ hne hnil
      have hp' : s.pauseCount = 0 := not_not.mp hp
      have hfr := hm.frame
      have hl' : s.ringLeaked = false := by
        have : u.ringLeaked = false := hl
        rw [hfr] at this
        exact this
      obtain ⟨hinf, rfl⟩ : s.inflightRequests = [] ∧ m = [] :=
        List.append_eq_nil_iff.mp (hm.inflight.symm.trans hnil)
      -- nothing was moved, so the first turn of the loop was the last
      have hpos : s.schedule.curSched.length + s.schedule.nextSched.length ≠ 0 := by
        intro h0
        rw [← List.length_append, List.length_eq_zero_iff] at h0
        have hperm := hm.schedule
        rw [Schedule.requests, h0] at hperm
        exact hne (List.nil_perm.mp hperm)
      obtain ⟨n, hn⟩ := Nat.exists_eq_succ_of_ne_zero hpos
      rw [hn] at hu
      unfold State.startLoop at hu
      have hroom := hi.not_full hinf hp'
      rw [if_neg] at hu
      · rcases s.schedule.getNextRequest_cases with ⟨-, he⟩ | ⟨x, rest, hx, hc⟩
        · have := congrArg List.length he
          simp only [Schedule.requests, List.length_append, List.length_nil] at this
          exact hpos this
        · rw [hx] at hu
          obtain ⟨⟨done, v⟩, hst, hu⟩ := bind_ok hu
          have hsome := Option.isSome_iff_ne_none.mpr (mt Option.isNone_iff_eq_none.mpr hr)
          obtain rfl := starts_alone hG hS hinf (hR.needingReplay hi hsome hp') hl' hst
          obtain ⟨m', hm'⟩ := startLoop_moved hu
          have h1 := (startThisRequest_moved hc hroom hst).inflight
          have h2 := hm'.inflight.symm.trans hnil
          rw [h1] at h2
          simp at h2
      · intro hfull
        obtain ⟨r, hr'⟩ := Option.ne_none_iff_exists'.mp (mt Option.isNone_iff_eq_none.mpr hr)
        exact hroom r hr' (hfull r hr')

/-- The device is not being removed, and `Reconnects`. -/
def KeepsDevice (s : State γ κ) : Act κ ω → Prop
  | .abortGrab => False
  | .lateSkip => s.ring = none
  | _ => True

omit hG in
instance (s : State γ κ) : ∀ a : Act κ ω, Decidable (KeepsDevice s a) := by
  rintro ⟨⟩
  all_goals first | exact instDecidableTrue | exact instDecidableFalse |
    exact inferInstanceAs (Decidable (s.ring = none))

omit hG in
theorem KeepsDevice.reconnects {a : Act κ ω} (h : KeepsDevice s a) : Reconnects s a := by
  cases a with
  | lateSkip => exact h
  | _ => trivial

/-- What keeps the schedule going. -/
structure Flow (Good : γ → Prop) (held : γ → Nat) (s : State γ κ) : Prop where
  stock : Stock Good held s
  replays : Replays s
  live : Live s

theorem Flow.startRequests (hS : Stock Good held s) (hR : Replays s) (hi : Inv s)
    (hs : s.startRequests req G = .ok t) : Flow Good held t := by
  refine ⟨hS.startRequests hG hi.lists hs, ?_, startRequests_live hG hi hS hR hs⟩
  rcases startRequests_ok hs with rfl | ⟨-, -, u, m, hm, rfl⟩
  · exact hR
  · exact (hR.moved hm).push

theorem Flow.unpause (hS : Stock Good held s) (hR : Replays s)
    (hi : Inv { s with pauseCount := s.pauseCount - 1 })
    (hs : s.unpauseDatapath req G = .ok t) : Flow Good held t := by
  unfold State.unpauseDatapath at hs
  simp only at hs
  split at hs
  · exact Flow.startRequests hG (s := { s with pauseCount := s.pauseCount - 1 }) { hS with } { hR with } hi hs
  · next hp =>
    cases hs
    exact ⟨{ hS with }, { hR with }, live_of_paused hp⟩

theorem Flow.handleResponse {d : Dpc} {r : SharedRing (BlkifRequest κ) BlkifResponse}
    (h : Flow Good held s) (hi : Inv s) (hd : s.dpc = some d) (hr : s.ring = some r)
    (hp : r.rspCons ≠ d.prod) (hs : s.handleResponse req G d r = .ok t) : Flow Good held t := by
  obtain ⟨resp, hresp, hx, hroom, hinv⟩ := hi.response hd hr hp
  unfold State.handleResponse at hs
  rw [hresp] at hs
  obtain ⟨_, -, hs⟩ := bind_ok hs
  obtain ⟨u, hu, hs⟩ := bind_ok hs
  obtain ⟨g, hg, rfl⟩ := ungrantRequest_ok hu
  have hroom' : ∀ q ∈ (({ s with world := g } : State γ κ).processResponse d r resp.id).ring,
      ¬q.full := by
    rintro q hq
    obtain rfl := Option.some.inj hq
    exact hroom
  have hS : Stock Good held (({ s with world := g } : State γ κ).processResponse d r resp.id) :=
    h.stock.processResponse hG hi.lists hx hg
  have hR : Replays (({ s with world := g } : State γ κ).processResponse d r resp.id) := by
    refine { h.replays with
      paused := fun _ hc hne => h.replays.paused (by rw [hr]; rfl) hc fun he => hne ?_ }
    simp only [State.processResponse, State.unlink, he]
    rfl
  refine ⟨hS.refill hG (hinv g).lists hs, ?_, refill_live hG (hinv g) hS hR rfl hroom' hs⟩
  rcases refill_ok hroom' hs with ⟨g', rfl⟩ | ⟨v, x, -, hm, rfl⟩
  · exact { hR with }
  · exact (hR.moved hm).push

omit hG in
theorem Flow.earlySuspend (h : Flow Good held s) (hc : s.connect = .idle) :
    Flow Good held { s with
      pauseCount := s.pauseCount + 1, suspendPauses := s.suspendPauses + 1
      requestsNeedingReplay := s.requestsNeedingReplay ++ s.inflightRequests
      inflightRequests := []
      nrReplayOutstanding := u32 (s.nrReplayOutstanding + s.nrInflight)
      nrInflight := 0, stale := true } := by
  refine ⟨h.stock.perm rfl rfl rfl rfl ?_, ⟨fun _ _ _ => ?_, h.replays.aborting⟩,
    live_of_paused (Nat.succ_ne_zero _)⟩
  · rw [List.perm_iff_count]
    intro x
    simp only [State.needingReplay, List.count_append, List.count_nil]
    omega
  · simp only [hc, Connect.lateReplay]
    omega

omit hG in
theorem Flow.noticeDehibernated (h : Flow Good held s) :
    Flow Good held { s with
      pauseCount := s.pauseCount + 1
      dehibernating := (s.inflightRequests, s.nrInflight) :: s.dehibernating
      inflightRequests := [], nrInflight := 0, stale := true } := by
  refine ⟨h.stock.perm rfl rfl rfl rfl ?_, ⟨fun hr hc hne => ?_, h.replays.aborting⟩,
    live_of_paused (Nat.succ_ne_zero _)⟩
  · rw [List.perm_iff_count]
    intro x
    simp only [State.needingReplay, List.count_append, List.count_nil, List.flatMap_cons]
    omega
  · have := h.replays.paused hr hc hne
    simp only [List.length_cons]
    omega

omit hG in
theorem Flow.dehibernatedReplay {e : List Nat × Nat} (h : Flow Good held s) (hi : Inv s)
    (he : e ∈ s.dehibernating) :
    Flow Good held { s with
      dehibernating := s.dehibernating.erase e
      requestsNeedingReplay := s.requestsNeedingReplay ++ e.1
      nrReplayOutstanding := u32 (s.nrReplayOutstanding + e.2)
      suspendPauses := s.suspendPauses + 1 } := by
  have hlen := List.length_erase_of_mem he
  have hpos := List.length_pos_of_mem he
  refine ⟨h.stock.perm rfl rfl rfl rfl ?_, ⟨fun _ _ _ => ?_, h.replays.aborting⟩,
    h.live.congr rfl rfl rfl rfl rfl⟩
  · have hperm := (List.perm_cons_erase he).flatMap_right (fun e => e.1)
    rw [List.flatMap_cons] at hperm
    rw [List.perm_iff_count]
    intro x
    have hc := hperm.count_eq x
    simp only [List.count_append] at hc
    simp only [State.needingReplay, List.count_append, hc]
    omega
  · have hlate := hi.pauses.late
    simp only [hlen]
    cases hc : s.connect with
    | connected => simp [hc, Connect.owner] at hlate; simp only [Connect.lateReplay]; omega
    | idle => simp only [Connect.lateReplay]; omega
    | freed o => simp only [Connect.lateReplay]; omega
    | ringUp o => simp only [Connect.lateReplay]; omega
    | replaying o =>
      cases o <;> simp [hc, Connect.owner] at hlate <;> simp only [Connect.lateReplay] <;> omega

theorem Flow.connectRing {o : Owner} {order frame : Nat} (h : Flow Good held s) (hi : Inv s)
    (hc : s.connect = .freed o) (ho : order ≤ 2)
    (hs : State.grantRing G { s with
      ring := some (.fresh (32 * 2 ^ order)), ringOrder := order, stale := false
      connect := .ringUp o } frame = .ok t) : Flow Good held t := by
  have hS : Stock Good held { s with
      ring := some (.fresh (32 * 2 ^ order)), ringOrder := order, stale := false
      connect := .ringUp o } := by
    refine h.stock.perm rfl rfl rfl rfl ?_
    simp [State.needingReplay, hc, Connect.requests]
  have hpause : s.pauseCount ≠ 0 := pauseCount_ne_zero hi (by rw [hc]; rfl)
  have ht := hS.grantRing hG ho hs
  obtain ⟨g, refs, b, rfl⟩ := grantRing_ok hs
  exact ⟨ht, ⟨fun _ hc _ => absurd rfl (hc o), h.replays.aborting⟩, live_of_paused hpause⟩

omit hG in
/-- A connection that fails before the ring is up. -/
theorem Flow.connectFreed {o : Owner} (h : Flow Good held s) (hc : s.connect = .freed o) :
    Flow Good held { s with connect := .idle } := by
  refine ⟨h.stock.perm rfl rfl rfl rfl ?_, ⟨fun hr _ hne => ?_, h.replays.aborting⟩,
    h.live.congr rfl rfl rfl rfl rfl⟩
  · simp [State.needingReplay, hc, Connect.requests]
  · have := h.replays.paused hr (by simp [hc]) hne
    simp only [Connect.lateReplay]
    omega

/-- One that fails with the ring up. -/
theorem Flow.connectRingUp {o : Owner} (h : Flow Good held s) (hc : s.connect = .ringUp o) :
    Flow Good held { s.ungrantRing G with ring := none, connect := .idle } := by
  refine ⟨(h.stock.ungrantRing hG).perm rfl rfl rfl rfl ?_, ⟨(fun hr => absurd hr Bool.false_ne_true), h.replays.aborting⟩,
    live_of_noRing rfl⟩
  simp [State.ungrantRing, State.needingReplay, hc, Connect.requests]

theorem Flow.replayEnqueue {o : Owner} {l : List Nat} {n : Nat} (h : Flow Good held s)
    (hi : Inv s) (hc : s.connect = .replaying o l n)
    (hs : State.replayLoop req G { s with connect := .replayed o } l n = .ok t) :
    Flow Good held t := by
  have hpause : s.pauseCount ≠ 0 := pauseCount_ne_zero hi (by rw [hc]; rfl)
  obtain ⟨world, schedule, state, rfl, he⟩ := replayLoop_ok hs
  refine ⟨h.stock.replay hG hc he, ⟨fun hr _ hne => ?_, h.replays.aborting⟩, live_of_paused hpause⟩
  have := h.replays.paused hr (by simp [hc]) hne
  rw [hc] at this
  cases o <;> exact this

theorem Flow.lateUnpause (h : Flow Good held s) (hi : Inv s) (hc : s.connect = .connected)
    (hs : State.unpauseDatapath req G
      { s with connect := .idle, suspendPauses := s.suspendPauses - 1 } = .ok t) :
    Flow Good held t := by
  have hS : Stock Good held { s with connect := .idle, suspendPauses := s.suspendPauses - 1 } := by
    refine h.stock.perm rfl rfl rfl rfl ?_
    simp [State.needingReplay, hc, Connect.requests]
  have hR : Replays { s with connect := .idle, suspendPauses := s.suspendPauses - 1 } := by
    refine ⟨fun hr _ hne => ?_, h.replays.aborting⟩
    have := h.replays.paused hr (by simp [hc]) hne
    rw [hc] at this
    simp only [Connect.lateReplay] at this ⊢
    omega
  exact Flow.unpause hG hS hR (hi.lateUnpause hc) hs

/-- Every step keeps the schedule going. -/
theorem Flow.act [DecidableEq κ] {a : Act κ ω} (h : Flow Good held s) (hi : Inv s)
    (hok : KeepsDevice s a) (ha : act req G s a = some (.ok t)) : Flow Good held t := by
  cases a with
  | schedule n =>
    simp only [Scsifilt.act] at ha
    split at ha
    · have ha := Option.some.inj ha
      obtain ⟨u, hu, hinv⟩ := hi.schedule req n
      rw [State.scheduleRequests, hu] at ha
      obtain ⟨schedule, state, rfl⟩ := enqueueAll_ok hu
      exact Flow.startRequests hG (s := { s with allocated := s.allocated + n, schedule, state })
        { h.stock with } { h.replays with } hinv ha
    · cases ha
  | dpcBegin =>
    simp only [Scsifilt.act] at ha
    split at ha
    · split at ha
      · cases ha; exact h
      · split at ha
        · cases ha; exact h
        · cases ha
          exact ⟨{ h.stock with }, { h.replays with }, h.live.congr rfl rfl rfl rfl rfl⟩
    · cases ha
  | dpcResponse =>
    simp only [Scsifilt.act] at ha
    split at ha
    · next d r hd hr =>
      split at ha
      · next hp => exact h.handleResponse hG hi hd hr hp (Option.some.inj ha)
      · cases ha
    · cases ha
  | dpcCheck =>
    simp only [Scsifilt.act] at ha
    split at ha
    · next d r hd hr =>
      split at ha
      · split at ha
        · cases ha
          exact ⟨{ h.stock with }, { h.replays with }, h.live.congr rfl rfl rfl rfl rfl⟩
        · split at ha
          · cases ha
            exact ⟨{ h.stock with }, { h.replays with }, h.live.congr rfl rfl rfl rfl rfl⟩
          · cases ha
            exact ⟨{ h.stock with }, { h.replays.ring (by rw [hr]; rfl) with },
              h.live.congr rfl rfl (by rw [hr]; rfl) rfl rfl⟩
      · cases ha
    · cases ha
  | finish x =>
    simp only [Scsifilt.act] at ha
    split at ha
    · obtain ⟨_, -, ha⟩ := bind_ok (Option.some.inj ha)
      cases ha
      exact ⟨{ h.stock with }, { h.replays with }, h.live.congr rfl rfl rfl rfl rfl⟩
    · cases ha
  | pauseDatapath =>
    simp only [Scsifilt.act] at ha
    split at ha
    · obtain ⟨_, -, ha⟩ := bind_ok (Option.some.inj ha)
      cases ha
      exact ⟨{ h.stock with }, { h.replays with }, live_of_paused (Nat.succ_ne_zero _)⟩
    · cases ha
  | pauseReturns =>
    simp only [Scsifilt.act] at ha
    split at ha
    · cases ha
      exact ⟨{ h.stock with }, { h.replays with }, h.live.congr rfl rfl rfl rfl rfl⟩
    · cases ha
  | unpauseDatapath =>
    simp only [Scsifilt.act] at ha
    split at ha
    · next hg =>
      exact Flow.unpause hG (s := { s with pauses := s.pauses - 1 }) { h.stock with }
        { h.replays with } (hi.unpause hg.2) (Option.some.inj ha)
    · cases ha
  | earlySuspend =>
    simp only [Scsifilt.act] at ha
    split at ha
    · next hg => cases ha; exact h.earlySuspend hg.2
    · cases ha
  | noticeDehibernated =>
    simp only [Scsifilt.act] at ha
    split at ha
    · cases ha; exact h.noticeDehibernated
    · cases ha
  | dehibernatedReplay entry =>
    simp only [Scsifilt.act] at ha
    split at ha
    · next he => cases ha; exact h.dehibernatedReplay hi he
    · cases ha
  | connectBegin o =>
    simp only [Scsifilt.act] at ha
    split at ha
    · next hg =>
      cases ha
      refine ⟨h.stock.perm rfl rfl rfl rfl ?_, ⟨(fun hr => absurd hr Bool.false_ne_true), h.replays.aborting⟩,
        live_of_noRing rfl⟩
      simp [State.needingReplay, hg.1, Connect.requests]
    · cases ha
  | connectRing order frame =>
    simp only [Scsifilt.act] at ha
    split at ha
    · next o hc =>
      split at ha
      · next hg => exact h.connectRing hG hi hc hg.2 (Option.some.inj ha)
      · cases ha
    · cases ha
  | connectFail =>
    simp only [Scsifilt.act] at ha
    split at ha
    · next o hc => cases ha; exact h.connectFreed hc
    · next o hc =>
      split at ha
      · cases ha; exact h.connectRingUp hG hc
      · cases ha
    · cases ha
  | replayGrab =>
    simp only [Scsifilt.act] at ha
    split at ha
    · next o hc =>
      cases ha
      refine ⟨h.stock.perm rfl rfl rfl rfl ?_, ⟨fun _ _ hne => absurd rfl hne, h.replays.aborting⟩,
        h.live.congr rfl rfl rfl rfl rfl⟩
      rw [List.perm_iff_count]
      intro x
      simp only [State.needingReplay, hc, Connect.requests, List.count_append, List.count_nil]
      omega
    · cases ha
  | replayEnqueue =>
    simp only [Scsifilt.act] at ha
    split at ha
    · next o l n hc =>
      split at ha
      · obtain ⟨u, hu, ha⟩ := bind_ok (Option.some.inj ha)
        obtain ⟨_, -, ha⟩ := bind_ok ha
        cases ha
        exact h.replayEnqueue hG hi hc hu
      · cases ha
    · cases ha
  | lateUnpause =>
    simp only [Scsifilt.act] at ha
    split at ha
    · next hg => exact h.lateUnpause hG hi hg.1 (Option.some.inj ha)
    · cases ha
  | close =>
    simp only [Scsifilt.act] at ha
    split at ha
    · cases ha
      exact ⟨{ h.stock.ungrantRing hG with },
        { h.replays with paused := fun hr => absurd hr Bool.false_ne_true }, live_of_noRing rfl⟩
    · cases ha
  | lateSkip =>
    simp only [Scsifilt.act] at ha
    split at ha
    · next hg =>
      have hR : Replays { s with suspendPauses := s.suspendPauses - 1 } := by
        refine { h.replays with paused := fun hr => ?_ }
        rw [show s.ring = none from hok] at hr
        cases hr
      exact Flow.unpause hG (s := { s with suspendPauses := s.suspendPauses - 1 })
        { h.stock with } hR (hi.lateSkip hok hg.2.1 hg.2.2.1) (Option.some.inj ha)
    · cases ha
  | setPower d =>
    cases ha
    exact ⟨{ h.stock with }, { h.replays with }, h.live.congr rfl rfl rfl rfl rfl⟩
  | abortGrab => exact absurd hok id
  | abortWalk entry =>
    simp only [Scsifilt.act, h.replays.aborting] at ha
    simp at ha
  | backTake =>
    obtain ⟨r', hr', hr⟩ := Option.map_eq_some_iff.mp ha
    obtain ⟨r, hsr, -⟩ := Option.bind_eq_some_iff.mp hr'
    cases hr
    exact ⟨{ h.stock with }, h.replays.ring (by rw [hsr]; rfl),
      h.live.congr rfl rfl (by rw [hsr]; rfl) rfl rfl⟩
  | backAnswer x =>
    simp only [Scsifilt.act] at ha
    split at ha
    · next r hr =>
      split at ha
      · cases ha
        exact ⟨{ h.stock with }, h.replays.ring (by rw [hr]; rfl),
          h.live.congr rfl rfl (by rw [hr]; rfl) rfl rfl⟩
      · cases ha
    · cases ha
  | other w =>
    cases ha
    obtain ⟨hgood, hheld⟩ := hG.other (w := w) h.stock.good
    refine ⟨⟨hgood, h.stock.pages, fun hn => hheld.trans (h.stock.held hn)⟩, { h.replays with },
      h.live.congr rfl rfl rfl rfl rfl⟩

/-- With a grant cache that keeps its promise, waiting requests have one in flight before them. -/
theorem live_of_guarantee [DecidableEq κ] {g : γ} (hg : Good g) (h0 : held g = 0)
    (h : (machine req G g).Reach KeepsDevice s) : Live s := by
  have hinv : Flow Good held s ∧ Inv s := by
    refine h.inv (I := fun s => Flow Good held s ∧ Inv s) ⟨⟨⟨hg, rfl, fun _ => ?_⟩,
      ⟨?_, rfl⟩, live_of_noRing rfl⟩, inv_init g⟩ ?_
    · exact h0
    · intro hr
      cases hr
    · intro s a t hi hok hst
      unfold machine step at hst
      simp only at hst
      split at hst
      · cases hst
      · obtain ⟨e, he, rfl⟩ := Option.map_eq_some_iff.mp hst
        have hsafe := hi.2.act hok.reconnects he
        cases e with
        | ok t => exact ⟨hi.1.act hG hi.2 hok he, hsafe⟩
        | error c =>
          exact ⟨⟨{ hi.1.stock with }, { hi.1.replays with }, hi.1.live.congr rfl rfl rfl rfl rfl⟩,
            hi.2.crash hsafe⟩
  exact hinv.1.live

end Live

end XcWindows.Scsifilt
