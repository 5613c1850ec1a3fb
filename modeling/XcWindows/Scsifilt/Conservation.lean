import Mathlib.Data.List.Nodup
import XcWindows.Scsifilt.Datapath

/-!
# No request of scsifilt is lost

Every request is in one place, in the state that belongs there, and the counters are the lengths of
their lists. `Lists` is that invariant, `Pauses` says who has paused the datapath and what is quiet
meanwhile, and `OnRing` that the requests on the shared ring are those in flight. What can be moved
from the schedule to the ring is said once, in `Moved`.
-/

namespace XcWindows.Scsifilt

open XcWindows.Lib
open Function (update update_of_ne update_self)

variable {γ κ ω : Type}

/-! ## The schedule -/

namespace Schedule

variable {sched : Schedule} {x : Nat}

def requests (sched : Schedule) : List Nat := sched.curSched ++ sched.nextSched

/-- The count is right. -/
def Counted (sched : Schedule) : Prop := sched.nrScheduled = sched.requests.length

theorem requests_flip (sched : Schedule) : sched.flip.requests = sched.requests := by
  unfold flip
  split
  · next h => simp [requests, h]
  · rfl

theorem nrScheduled_flip (sched : Schedule) : sched.flip.nrScheduled = sched.nrScheduled := by
  unfold flip
  split <;> rfl

theorem insert_perm (sector : Nat → Nat) (x : Nat) (l : List Nat) :
    (insert sector x l).Perm (x :: l) := by
  induction l with
  | nil => exact .refl _
  | cons y l ih =>
    unfold insert
    split
    · exact .refl _
    · exact (ih.cons y).trans (.swap x y l)

/-- `enqueue_request` adds the request. -/
theorem enqueueRequest_perm (sector : Nat → Nat) (sched : Schedule) (x : Nat) :
    (enqueueRequest sector sched x).requests.Perm (x :: sched.requests) ∧
      (enqueueRequest sector sched x).nrScheduled = sched.nrScheduled + 1 := by
  have hr := requests_flip { sched with nrScheduled := sched.nrScheduled + 1 }
  have hn := nrScheduled_flip { sched with nrScheduled := sched.nrScheduled + 1 }
  unfold enqueueRequest
  generalize ({ sched with nrScheduled := sched.nrScheduled + 1 } : Schedule).flip = f at hr hn
  have hr : f.curSched ++ f.nextSched = sched.requests := hr
  simp only
  split
  · next h =>
    rw [h, List.nil_append] at hr
    exact ⟨by simp [requests, hr], hn⟩
  · rw [← hr]
    split
    · exact ⟨((insert_perm sector x _).append_left _).trans List.perm_middle, hn⟩
    · exact ⟨(insert_perm sector x _).append_right _, hn⟩

/-- `get_next_request` returns a request of the schedule, if there is one. -/
theorem getNextRequest_cases (sched : Schedule) :
    (sched.getNextRequest = (none, sched.flip) ∧ sched.requests = []) ∨
      ∃ x rest, sched.getNextRequest = (some x, sched.flip) ∧ sched.flip.curSched = x :: rest := by
  unfold getNextRequest
  cases h : sched.flip.curSched with
  | nil =>
    refine .inl ⟨rfl, ?_⟩
    unfold flip at h
    split at h
    · next hc =>
      have hn : sched.nextSched = [] := h
      rw [requests, hc, hn]; rfl
    · next hc => exact absurd h hc
  | cons x rest => exact .inr ⟨x, rest, rfl, rfl⟩

theorem remove_perm (h : x ∈ sched.curSched) : sched.requests.Perm (x :: (sched.remove x).requests) := by
  unfold remove requests
  rw [if_pos h, ← List.cons_append]
  exact (List.perm_cons_erase h).append_right _

theorem Counted.remove (h : sched.Counted) (hx : x ∈ sched.curSched) : (sched.remove x).Counted := by
  have hl := (remove_perm hx).length_eq
  rw [List.length_cons] at hl
  unfold Counted at h ⊢
  rw [show (sched.remove x).nrScheduled = sched.nrScheduled - 1 from rfl]
  omega

theorem Counted.flip (h : sched.Counted) : sched.flip.Counted := by
  unfold Counted
  rw [nrScheduled_flip, requests_flip]
  exact h

end Schedule

/-! ## What the functions do -/

section Functions
variable {req : Nat → Sfr} {G : GrantOps γ κ ω} {s t : State γ κ} {c : Crash} {b : Bool} {x : Nat}

theorem prepareLoop_error {mode : Gnttab.GrantMode} {g : γ} {refs : List κ} {pfns : List Nat}
    (h : prepareLoop G mode g refs pfns = .error c) : c = .grant := by
  induction pfns generalizing g refs with
  | nil => cases h
  | cons p ps ih =>
    unfold prepareLoop at h
    split at h
    · exact ih h
    · simp only at h
      split at h
      · cases h
      · exact (Except.error.inj h).symm

theorem prepareRequest_ok (h : s.prepareRequest req G x = .ok (b, t)) :
    (b = true ∧ ∃ g refs, prepareLoop G (if (req x).operation = .read then .rw else .ro) s.world []
        (req x).pfns = .ok (some refs, g) ∧
        t = { s with world := g, gref := update s.gref x refs }) ∨
      (b = false ∧ ∃ g, prepareLoop G (if (req x).operation = .read then .rw else .ro) s.world []
        (req x).pfns = .ok (none, g) ∧ t = { s with world := g }) := by
  unfold State.prepareRequest at h
  obtain ⟨⟨refs?, g⟩, hl, h⟩ := bind_ok h
  cases refs? with
  | some refs => cases h; exact .inl ⟨rfl, g, refs, hl, rfl⟩
  | none => cases h; exact .inr ⟨rfl, g, hl, rfl⟩

theorem startThisRequest_ok (h : s.startThisRequest req G x = .ok (b, t)) :
    s.state x = .queued ∧
      ((b = true ∧ ∃ u, s.prepareRequest req G x = .ok (true, u) ∧ t = u.submit req x) ∨
        (b = false ∧ s.prepareRequest req G x = .ok (false, t))) := by
  unfold State.startThisRequest at h
  obtain ⟨_, ha, h⟩ := bind_ok h
  obtain ⟨⟨done, u⟩, hp, h⟩ := bind_ok h
  refine ⟨xmAssert_ok ha, ?_⟩
  cases done with
  | true => cases h; exact .inl ⟨rfl, u, hp, rfl⟩
  | false => cases h; exact .inr ⟨rfl, hp⟩

theorem startThisRequest_error (h : s.startThisRequest req G x = .error c) :
    c = .grant ∨ s.state x ≠ .queued := by
  unfold State.startThisRequest at h
  rcases bind_error h with ha | ⟨_, -, h⟩
  · exact .inr (xmAssert_error ha).1
  · rcases bind_error h with hp | ⟨⟨done, u⟩, -, h⟩
    · unfold State.prepareRequest at hp
      rcases bind_error hp with hl | ⟨⟨refs?, g⟩, -, hp⟩
      · exact .inl (prepareLoop_error hl)
      · cases refs? <;> cases hp
    · cases done <;> cases h

theorem ungrantRequest_ok (h : s.ungrantRequest G x = .ok t) :
    ∃ g, endAll G s.world (s.gref x) = (true, g) ∧ t = { s with world := g } := by
  unfold State.ungrantRequest at h
  simp only at h
  split at h
  · next ha => cases h; exact ⟨_, Prod.ext ha rfl, rfl⟩
  · cases h

theorem ungrantRequest_error (h : s.ungrantRequest G x = .error c) : c = .grant := by
  unfold State.ungrantRequest at h
  simp only at h
  split at h
  · cases h
  · exact (Except.error.inj h).symm

/-- What was moved from the schedule to the ring, in order; nothing else has changed. -/
structure Moved (s t : State γ κ) (m : List Nat) : Prop where
  frame : t = { s with
    world := t.world, gref := t.gref, schedule := t.schedule, ring := t.ring
    inflightRequests := t.inflightRequests, nrInflight := t.nrInflight, state := t.state
    moves := t.moves }
  schedule : s.schedule.requests.Perm (m ++ t.schedule.requests)
  counted : s.schedule.Counted → t.schedule.Counted
  inflight : t.inflightRequests = s.inflightRequests ++ m
  nrInflight : ∀ n, s.nrInflight = u32 n → t.nrInflight = u32 (n + m.length)
  queued : ∀ x ∈ m, s.state x = .queued
  submitted : ∀ x ∈ m, t.state x = .submitted
  others : ∀ x, x ∉ m → t.state x = s.state x
  moves : t.moves = (m.map fun x => (x, s.pauseCount)).reverse ++ s.moves
  noRing : s.ring = none → t.ring = none
  ring : ∀ r, s.ring = some r → ∃ r', t.ring = some r' ∧ ∀ {a unread taken queued pvt},
    r.Holds a unread taken queued pvt → ∃ es, es.map (·.id) = m ∧
      r'.Holds a unread taken queued (pvt ++ es)

/-- Only the fields that a move changes have to be considered. -/
theorem Moved.elim {P : State γ κ → Prop} {m : List Nat} (h : Moved s t m)
    (k : ∀ world gref schedule ring inflightRequests nrInflight state moves,
      Moved s { s with world, gref, schedule, ring, inflightRequests, nrInflight, state, moves } m →
        P { s with world, gref, schedule, ring, inflightRequests, nrInflight, state, moves }) :
    P t := by
  have hf := h.frame
  rw [hf]
  apply k
  rw [← hf]
  exact h

theorem Moved.refl (s : State γ κ) : Moved s s [] where
  frame := rfl
  schedule := .refl _
  counted h := h
  inflight := (List.append_nil _).symm
  nrInflight _ h := h
  queued _ h := absurd h List.not_mem_nil
  submitted _ h := absurd h List.not_mem_nil
  others _ _ := rfl
  moves := rfl
  noRing h := h
  ring r h := ⟨r, h, fun hh => ⟨[], rfl, by rw [List.append_nil]; exact hh⟩⟩

theorem Moved.trans {u : State γ κ} {m n : List Nat} (h1 : Moved s t m) (h2 : Moved t u n) :
    Moved s u (m ++ n) where
  frame := by
    have hf := h2.frame
    rw [h1.frame] at hf
    exact hf
  schedule := by
    rw [List.append_assoc]
    exact h1.schedule.trans (h2.schedule.append_left m)
  counted h := h2.counted (h1.counted h)
  inflight := by rw [h2.inflight, h1.inflight, List.append_assoc]
  nrInflight k h := by
    rw [List.length_append, ← Nat.add_assoc]
    exact h2.nrInflight _ (h1.nrInflight k h)
  queued x hx := by
    rcases List.mem_append.mp hx with hx | hx
    · exact h1.queued x hx
    · have hq := h2.queued x hx
      by_cases hm : x ∈ m
      · rw [h1.submitted x hm] at hq
        cases hq
      · rwa [h1.others x hm] at hq
  submitted x hx := by
    by_cases hn : x ∈ n
    · exact h2.submitted x hn
    · rw [h2.others x hn]
      exact h1.submitted x ((List.mem_append.mp hx).resolve_right hn)
  others x hx := by
    rw [List.mem_append, not_or] at hx
    rw [h2.others x hx.2, h1.others x hx.1]
  moves := by
    have hp : t.pauseCount = s.pauseCount := by rw [h1.frame]
    rw [h2.moves, h1.moves, hp, List.map_append, List.reverse_append, List.append_assoc]
  noRing h := h2.noRing (h1.noRing h)
  ring r hr := by
    obtain ⟨r1, hr1, k1⟩ := h1.ring r hr
    obtain ⟨r2, hr2, k2⟩ := h2.ring r1 hr1
    refine ⟨r2, hr2, fun hh => ?_⟩
    obtain ⟨es, he, hh⟩ := k1 hh
    obtain ⟨es', he', hh⟩ := k2 hh
    exact ⟨es ++ es', by rw [List.map_append, he, he'], by rw [← List.append_assoc]; exact hh⟩

/-- The schedules may be flipped and references granted without a request moving. -/
theorem Moved.idle (g : γ) (gref : Nat → List κ) :
    Moved s { s with world := g, gref, schedule := s.schedule.flip } [] :=
  { Moved.refl s with
    frame := rfl
    schedule := by rw [List.nil_append, Schedule.requests_flip]
    counted := fun h => h.flip }

theorem Moved.submit {rest : List Nat} (hc : s.schedule.curSched = x :: rest)
    (hq : s.state x = .queued) (hroom : ∀ r ∈ s.ring, ¬r.full) : Moved s (s.submit req x) [x] where
  frame := rfl
  schedule := Schedule.remove_perm (by rw [hc]; exact List.mem_cons_self)
  counted h := h.remove (by rw [hc]; exact List.mem_cons_self)
  inflight := rfl
  nrInflight n h := by
    rw [← u32_add, ← h]
    rfl
  queued y hy := by rw [List.mem_singleton.mp hy]; exact hq
  submitted y hy := by rw [List.mem_singleton.mp hy]; exact update_self ..
  others y hy := update_of_ne (fun e => hy (List.mem_singleton.mpr e)) ..
  moves := rfl
  noRing h := by simp [State.submit, State.copyRequestToRing, h]
  ring r hr := by
    refine ⟨_, by simp only [State.submit, State.copyRequestToRing, hr]; rfl, fun hh => ?_⟩
    refine ⟨[⟨x, (req x).operation, (req x).startSector, s.gref x⟩], rfl, hh.put ?_ _⟩
    have hne := mt hh.full_iff.mpr (hroom r hr)
    have := hh.fits
    omega

/-- A request that `get_next_request` returned was started, or could not be prepared. -/
theorem startThisRequest_moved {rest : List Nat} (hc : s.schedule.flip.curSched = x :: rest)
    (hroom : ∀ r ∈ s.ring, ¬r.full)
    (h : ({ s with schedule := s.schedule.flip } : State γ κ).startThisRequest req G x
      = .ok (b, t)) : Moved s t (if b then [x] else []) := by
  obtain ⟨hq, ⟨rfl, u, hp, ht⟩ | ⟨rfl, hp⟩⟩ := startThisRequest_ok h
  · rcases prepareRequest_ok hp with ⟨-, g, refs, -, hu⟩ | ⟨hb, -⟩
    · rw [ht, hu]
      exact (Moved.idle g _).trans (Moved.submit hc hq hroom)
    · cases hb
  · rcases prepareRequest_ok hp with ⟨hb, -⟩ | ⟨-, g, -, ht⟩
    · cases hb
    · rw [ht]
      exact Moved.idle g s.gref

theorem not_full (h : ¬∀ r ∈ s.ring, r.full) : ∀ r ∈ s.ring, ¬r.full := by
  intro r hr hf
  refine h fun r' hr' => ?_
  rw [Option.mem_def] at hr hr'
  obtain rfl := Option.some.inj (hr.symm.trans hr')
  exact hf

theorem Moved.nodup {m : List Nat} (h : Moved s t m) (hn : s.schedule.requests.Nodup) :
    t.schedule.requests.Nodup := (List.nodup_append.mp (h.schedule.nodup_iff.mp hn)).2.1

/-- What stays in the schedule is in the same state. -/
theorem Moved.still_queued {m : List Nat} (h : Moved s t m) (hn : s.schedule.requests.Nodup)
    (hq : ∀ x ∈ s.schedule.requests, s.state x = .queued) :
    ∀ x ∈ t.schedule.requests, t.state x = .queued := by
  intro x hx
  have hd := (List.nodup_append.mp (h.schedule.nodup_iff.mp hn)).2.2
  rw [h.others x fun hm => hd x hm x hx rfl]
  exact hq x (h.schedule.mem_iff.mpr (List.mem_append_right _ hx))

theorem startLoop_moved {n : Nat} (h : State.startLoop req G n s = .ok t) : ∃ m, Moved s t m := by
  induction n generalizing s with
  | zero => cases h; exact ⟨[], .refl _⟩
  | succ n ih =>
    unfold State.startLoop at h
    split at h
    · cases h; exact ⟨[], .refl _⟩
    · next hfull =>
      have hroom := not_full hfull
      rcases s.schedule.getNextRequest_cases with ⟨hn, -⟩ | ⟨x, rest, hn, hc⟩
      · rw [hn] at h
        cases h
        exact ⟨[], Moved.idle s.world s.gref⟩
      · rw [hn] at h
        obtain ⟨⟨done, u⟩, hst, h⟩ := bind_ok h
        have hm := startThisRequest_moved hc hroom hst
        simp only at h
        split at h
        · obtain ⟨m, hm'⟩ := ih h
          exact ⟨_, hm.trans hm'⟩
        · cases h; exact ⟨_, hm⟩

/-- The loop can only fail for a grant. -/
theorem startLoop_error {n : Nat} (hnd : s.schedule.requests.Nodup)
    (hq : ∀ x ∈ s.schedule.requests, s.state x = .queued)
    (h : State.startLoop req G n s = .error c) : c = .grant := by
  induction n generalizing s with
  | zero => cases h
  | succ n ih =>
    unfold State.startLoop at h
    split at h
    · cases h
    · next hfull =>
      have hroom := not_full hfull
      rcases s.schedule.getNextRequest_cases with ⟨hn, -⟩ | ⟨x, rest, hn, hc⟩
      · rw [hn] at h
        cases h
      · rw [hn] at h
        have hx : x ∈ s.schedule.requests := by
          rw [← s.schedule.requests_flip, Schedule.requests, hc]
          exact List.mem_append_left _ List.mem_cons_self
        rcases bind_error h with h | ⟨⟨done, u⟩, hst, h⟩
        · exact (startThisRequest_error h).resolve_right fun hne => hne (hq x hx)
        · have hm := startThisRequest_moved hc hroom hst
          simp only at h
          split at h
          · exact ih (hm.nodup hnd) (hm.still_queued hnd hq) h
          · cases h

/-- What `start_requests` does: it moves requests only when the datapath is not paused. -/
theorem startRequests_ok (h : s.startRequests req G = .ok t) :
    t = s ∨ s.pauseCount = 0 ∧ s.ring.isSome ∧ ∃ u m, Moved s u m ∧ t = u.pushRequests := by
  unfold State.startRequests at h
  split at h
  · cases h; exact .inl rfl
  · next hp =>
    split at h
    · cases h; exact .inl rfl
    · next hr =>
      obtain ⟨u, hl, h⟩ := bind_ok h
      cases h
      obtain ⟨m, hm⟩ := startLoop_moved hl
      rw [Option.isNone_iff_eq_none] at hr
      exact .inr ⟨not_not.mp hp, Option.isSome_iff_ne_none.mpr hr, u, m, hm, rfl⟩

theorem startRequests_error (hnd : s.schedule.requests.Nodup)
    (hq : ∀ x ∈ s.schedule.requests, s.state x = .queued)
    (h : s.startRequests req G = .error c) : c = .grant := by
  unfold State.startRequests at h
  split at h
  · cases h
  · split at h
    · cases h
    · rcases bind_error h with h | ⟨u, -, h⟩
      · exact startLoop_error hnd hq h
      · cases h

/-- Requests were added to the schedule; nothing else has changed but the grants. -/
structure Enqueued (s t : State γ κ) (l : List Nat) : Prop where
  frame : t = { s with world := t.world, schedule := t.schedule, state := t.state }
  schedule : t.schedule.requests.Perm (l ++ s.schedule.requests)
  counted : s.schedule.Counted → t.schedule.Counted
  queued : ∀ x ∈ l, t.state x = .queued
  others : ∀ x, x ∉ l → t.state x = s.state x

theorem Enqueued.elim {P : State γ κ → Prop} {l : List Nat} (h : Enqueued s t l)
    (k : ∀ world schedule state, Enqueued s { s with world, schedule, state } l →
      P { s with world, schedule, state }) : P t := by
  have hf := h.frame
  rw [hf]
  apply k
  rw [← hf]
  exact h

theorem Enqueued.refl (s : State γ κ) : Enqueued s s [] :=
  ⟨rfl, .refl _, id, fun _ h => absurd h List.not_mem_nil, fun _ _ => rfl⟩

theorem Enqueued.cons {g : γ} {l : List Nat}
    (h : Enqueued (({ s with world := g } : State γ κ).enqueueRequest req x) t l) :
    Enqueued s t (x :: l) := by
  obtain ⟨hp, hn⟩ := Schedule.enqueueRequest_perm (fun y => (req y).startSector) s.schedule x
  constructor
  case frame => exact h.frame
  case schedule =>
    exact h.schedule.trans ((hp.append_left l).trans List.perm_middle)
  case counted =>
    intro hc
    apply h.counted
    have hl := hp.length_eq
    unfold Schedule.Counted at hc ⊢
    simp only [State.enqueueRequest, hn, hl, List.length_cons, hc]
  case queued =>
    intro y hy
    by_cases hm : y ∈ l
    · exact h.queued y hm
    · rw [h.others y hm, (List.mem_cons.mp hy).resolve_right hm]
      exact update_self ..
  case others =>
    intro y hy
    rw [List.mem_cons, not_or] at hy
    rw [h.others y hy.2]
    exact update_of_ne hy.1 ..

theorem enqueueAll_spec (req : Nat → Sfr) {l : List Nat} (hnd : l.Nodup) (hi : ∀ x ∈ l, s.state x = .initialised) :
    ∃ t, s.enqueueAll req l = .ok t ∧ Enqueued s t l := by
  induction l generalizing s with
  | nil => exact ⟨s, rfl, .refl s⟩
  | cons x l ih =>
    rw [List.nodup_cons] at hnd
    obtain ⟨t, ht, he⟩ := ih (s := s.enqueueRequest req x) hnd.2 fun y hy => by
      rw [← hi y (List.mem_cons_of_mem _ hy)]
      exact update_of_ne (ne_of_mem_of_not_mem hy hnd.1) ..
    refine ⟨t, ?_, Enqueued.cons (g := s.world) he⟩
    unfold State.enqueueAll xmAssert
    rw [if_pos (hi x List.mem_cons_self)]
    exact ht

theorem sub32_succ (n : Nat) : sub32 (u32 (n + 1)) 1 = u32 n := by
  simp only [sub32, u32]
  omega

/-- `replay_pending_requests` schedules all of its list, unless a grant cannot be ended. -/
theorem replayLoop_spec (req : Nat → Sfr) (G : GrantOps γ κ ω) {l : List Nat} (hnd : l.Nodup)
    (hs : ∀ x ∈ l, s.state x = .submitted) :
    s.replayLoop req G l (u32 l.length) = .error .grant ∨
      ∃ t, s.replayLoop req G l (u32 l.length) = .ok t ∧ Enqueued s t l := by
  induction l generalizing s with
  | nil => exact .inr ⟨s, rfl, .refl s⟩
  | cons x l ih =>
    rw [List.nodup_cons] at hnd
    rw [List.length_cons, State.replayLoop, xmAssert_bind (hs x List.mem_cons_self), sub32_succ]
    cases hu : s.ungrantRequest G x with
    | error c => exact .inl (by rw [ungrantRequest_error hu]; rfl)
    | ok u =>
      obtain ⟨g, -, rfl⟩ := ungrantRequest_ok hu
      have hst : ∀ y ∈ l, (({ s with world := g } : State γ κ).enqueueRequest req x).state y
          = .submitted := fun y hy => by
        rw [← hs y (List.mem_cons_of_mem _ hy)]
        exact update_of_ne (ne_of_mem_of_not_mem hy hnd.1) ..
      rcases ih hnd.2 hst with h | ⟨t, ht, he⟩
      · exact .inl h
      · exact .inr ⟨t, ht, he.cons⟩

/-- `abort_pending_requests` marks all of its list, unless a grant cannot be ended. -/
theorem abortLoop_spec {l : List Nat} (n : Nat) (hnd : l.Nodup)
    (hs : ∀ x ∈ l, s.state x = .submitted) :
    s.abortLoop G (u32 (n + l.length)) l (u32 n) = .error .grant ∨
      ∃ g st, s.abortLoop G (u32 (n + l.length)) l (u32 n) = .ok { s with world := g, state := st } ∧
        (∀ x ∈ l, st x = .processed) ∧ ∀ x, x ∉ l → st x = s.state x := by
  induction l generalizing s n with
  | nil =>
    refine .inr ⟨s.world, s.state, ?_, fun _ h => absurd h List.not_mem_nil, fun _ _ => rfl⟩
    rw [State.abortLoop, xmAssert_bind (show u32 n = u32 (n + ([] : List Nat).length) from rfl)]
  | cons x l ih =>
    rw [List.nodup_cons] at hnd
    rw [State.abortLoop, xmAssert_bind (hs x List.mem_cons_self), u32_add, List.length_cons,
      ← Nat.add_assoc, Nat.add_right_comm]
    cases hu : s.ungrantRequest G x with
    | error c => exact .inl (by rw [ungrantRequest_error hu]; rfl)
    | ok u =>
      obtain ⟨g, -, rfl⟩ := ungrantRequest_ok hu
      have hst : ∀ y ∈ l, update s.state x .processed y = .submitted := fun y hy => by
        rw [← hs y (List.mem_cons_of_mem _ hy)]
        exact update_of_ne (ne_of_mem_of_not_mem hy hnd.1) ..
      rcases ih (s := { s with world := g, state := update s.state x .processed })
        (n + 1) hnd.2 hst with h | ⟨g', st, ht, h1, h2⟩
      · exact .inl h
      · refine .inr ⟨g', st, ht, fun y hy => ?_, fun y hy => ?_⟩
        · by_cases hm : y ∈ l
          · exact h1 y hm
          · rw [h2 y hm, (List.mem_cons.mp hy).resolve_right hm]
            exact update_self ..
        · rw [List.mem_cons, not_or] at hy
          rw [h2 y hy.2]
          exact update_of_ne hy.1 ..

end Functions

/-! ## The invariant -/

namespace Connect

/-- The list that `replay_pending_requests` has. -/
def requests : Connect → List Nat
  | .replaying _ l _ => l
  | _ => []

/-- The new ring is up, and `late_suspend_cb` will unpause. -/
def lateRing : Connect → Nat
  | .ringUp .late | .replaying .late _ _ | .connected => 1
  | _ => 0

end Connect

namespace State

/-- The requests to be replayed: on the list of the device or in the hands of a function that took
them from a list. -/
def needingReplay (s : State γ κ) : List Nat :=
  s.requestsNeedingReplay ++ s.dehibernating.flatMap (·.1) ++ s.connect.requests ++
    s.aborting.flatMap (·.1)

/-- The requests that have their result. -/
def completionList (s : State γ κ) : List Nat :=
  (s.dpc.elim [] Dpc.completedRequests) ++ s.finishing

/-- Where requests are. -/
def places (s : State γ κ) : List Nat :=
  s.schedule.requests ++ s.inflightRequests ++ s.needingReplay ++ s.completionList ++ s.completions

end State

/-- Every request is in one place, in the state that belongs there, or in the `hand` of the function
that is running. -/
structure Lists (s : State γ κ) (hand : List Nat) : Prop where
  places : (hand ++ s.places).Perm (List.range s.allocated)
  initialised : ∀ x, s.allocated ≤ x → s.state x = .initialised
  queued : ∀ x ∈ s.schedule.requests, s.state x = .queued
  submitted : ∀ x ∈ s.inflightRequests ++ s.needingReplay, s.state x = .submitted
  processed : ∀ x ∈ s.completionList, s.state x = .processed
  complete : ∀ x ∈ s.completions, s.state x = .complete
  counted : s.schedule.Counted
  nrInflight : s.nrInflight = u32 s.inflightRequests.length
  nrReplayOutstanding : s.nrReplayOutstanding = u32 s.requestsNeedingReplay.length
  locals : ∀ e ∈ s.dehibernating ++ s.aborting, e.2 = u32 e.1.length
  replaying : ∀ o l n, s.connect = .replaying o l n → n = u32 l.length

/-- Who has paused the datapath. While a pause is complete nothing is in flight, and the system is
not stopped by an assertion on a state. -/
structure Pauses (s : State γ κ) : Prop where
  running : s.crashed ≠ some .state
  pauseCount : s.pauseCount = s.suspendPauses + s.pauses + s.draining + s.dehibernating.length
  quiet : 0 < s.suspendPauses + s.pauses + s.dehibernating.length →
    s.inflightRequests = [] ∧ s.dpc = none
  late : s.connect.owner = some .late → 0 < s.suspendPauses
  pauser : s.connect.owner = some .pauser → 0 < s.pauses
  stale : s.ring.isSome → s.stale → s.connect.lateRing < s.suspendPauses + s.dehibernating.length

/-- The requests on the ring are those in flight. -/
structure OnRing (s : State γ κ) : Prop where
  noRing : s.ring = none → s.inflightRequests = [] ∧ s.dpc = none
  ring : ∀ r, s.ring = some r → ∃ a unread taken queued, r.Holds a unread taken queued [] ∧
    (s.stale = false → (unread.map BlkifResponse.id ++ (taken ++ queued).map BlkifRequest.id).Perm
      s.inflightRequests) ∧
    ∀ d, s.dpc = some d → s.stale = false ∧ ∃ m, m ≤ unread.length ∧ d.prod = u32 (a + m)

structure Inv (s : State γ κ) : Prop where
  lists : Lists s []
  pauses : Pauses s
  onRing : OnRing s

theorem inv_init (g : γ) : Inv (init g : State γ κ) := by
  constructor
  case lists => constructor <;> simp [init, State.places, State.needingReplay, State.completionList,
    Schedule.requests, Schedule.Counted, Connect.requests]
  case pauses => constructor <;> simp [init, Connect.owner]
  case onRing => constructor <;> simp [init]

/-! ## Moves keep the invariant -/

section Steps
variable {req : Nat → Sfr} {G : GrantOps γ κ ω} {s t : State γ κ} {c : Crash} {x : Nat}
  {hand m : List Nat}

theorem Lists.nodup (h : Lists s hand) : (hand ++ s.places).Nodup :=
  h.places.nodup_iff.mpr List.nodup_range

theorem Lists.schedule_nodup (h : Lists s hand) : s.schedule.requests.Nodup := by
  have hn := (List.nodup_append.mp h.nodup).2.1
  unfold State.places at hn
  iterate 4 rw [List.nodup_append] at hn; replace hn := hn.1
  exact hn

theorem Lists.not_hand (h : Lists s hand) (hx : x ∈ s.places) : x ∉ hand :=
  fun hm => (List.nodup_append.mp h.nodup).2.2 x hm x hx rfl

theorem Lists.moved (h : Lists s hand) (hm : Moved s t m) : Lists t hand := by
  refine hm.elim (P := (Lists · hand))
    fun world gref schedule ring infl nr state moves hm => ?_
  have keep : ∀ x, s.state x ≠ .queued → state x = s.state x :=
    fun x hx => hm.others x fun hmem => hx (hm.queued x hmem)
  constructor
  case places =>
    refine List.Perm.trans ?_ h.places
    rw [List.perm_iff_count]
    intro x
    have h1 := hm.schedule.count_eq x
    have h2 := congrArg (List.count x) hm.inflight
    simp only [List.count_append] at h1 h2
    simp only [State.places, List.count_append, h1, h2, State.needingReplay, State.completionList]
    omega
  case initialised =>
    intro x hx
    have hi := h.initialised x hx
    exact (keep x (by rw [hi]; simp)).trans hi
  case queued => exact hm.still_queued h.schedule_nodup h.queued
  case submitted =>
    intro x hx
    by_cases hxm : x ∈ m
    · exact hm.submitted x hxm
    · have hs : s.state x = .submitted := by
        apply h.submitted x
        have hinf := hm.inflight
        simp only at hinf
        rw [hinf, List.append_assoc, List.mem_append, List.mem_append] at hx
        rw [List.mem_append]
        exact hx.imp_right (·.resolve_left hxm)
      exact (keep x (by rw [hs]; simp)).trans hs
  case processed =>
    intro x hx
    have hp := h.processed x hx
    exact (keep x (by rw [hp]; simp)).trans hp
  case complete =>
    intro x hx
    have hp := h.complete x hx
    exact (keep x (by rw [hp]; simp)).trans hp
  case counted => exact hm.counted h.counted
  case nrInflight =>
    rw [hm.inflight, List.length_append]
    exact hm.nrInflight _ h.nrInflight
  case nrReplayOutstanding => exact h.nrReplayOutstanding
  case locals => exact h.locals
  case replaying => exact h.replaying

theorem Lists.push (h : Lists s hand) : Lists s.pushRequests hand := { h with }

theorem Pauses.moved (h : Pauses s)
    (hp : 0 < s.suspendPauses + s.pauses + s.dehibernating.length → m = []) (hm : Moved s t m) :
    Pauses t := by
  refine hm.elim fun world gref schedule ring infl nr state moves hm => ?_
  refine { h with quiet := fun hq => ?_, stale := fun hr => h.stale ?_ }
  · obtain ⟨hi, hd⟩ := h.quiet hq
    exact ⟨by rw [hm.inflight, hi, hp hq]; rfl, hd⟩
  · rw [Option.isSome_iff_ne_none] at hr ⊢
    exact mt hm.noRing hr

theorem Pauses.push (h : Pauses s) : Pauses s.pushRequests :=
  { h with stale := fun hr => h.stale (by simpa [State.pushRequests] using hr) }

theorem OnRing.moved (h : OnRing s) (hr : s.ring.isSome) (hm : Moved s t m) :
    OnRing t.pushRequests := by
  obtain ⟨r, hr⟩ := Option.isSome_iff_exists.mp hr
  refine hm.elim (P := fun t => OnRing t.pushRequests)
    fun world gref schedule ring infl nr state moves hm => ?_
  obtain ⟨r', hr', k⟩ := hm.ring r hr
  obtain ⟨a, unread, taken, queued, hh, hperm, hdpc⟩ := h.ring r hr
  obtain ⟨es, he, hh'⟩ := k hh
  simp only at hr'
  constructor
  case noRing =>
    intro hn
    simp [State.pushRequests, hr'] at hn
  case ring =>
    intro q hq
    obtain rfl : r'.pushRequests = q := by simpa [State.pushRequests, hr'] using hq
    refine ⟨a, unread, taken, queued ++ es, hh'.pushRequests, fun hs => ?_, hdpc⟩
    have hinf := hm.inflight
    simp only [State.pushRequests] at hinf ⊢
    rw [hinf, ← List.append_assoc, List.map_append, ← List.append_assoc, he]
    exact (hperm hs).append_right m

theorem Inv.startRequests (h : Inv s) (hs : s.startRequests req G = .ok t) : Inv t := by
  rcases startRequests_ok hs with rfl | ⟨hp, hr, u, m, hm, rfl⟩
  · exact h
  · have hpc := h.pauses.pauseCount
    exact ⟨(h.lists.moved hm).push, (h.pauses.moved (by omega) hm).push, h.onRing.moved hr hm⟩

theorem Inv.startRequests_error (h : Inv s) (hs : s.startRequests req G = .error c) : c = .grant :=
  Scsifilt.startRequests_error h.lists.schedule_nodup h.lists.queued hs

/-- What was in hand is now in the schedule. -/
theorem Lists.enqueued (h : Lists s hand) (he : Enqueued s t hand) : Lists t [] := by
  refine he.elim (P := (Lists · [])) fun world schedule state he => ?_
  have keep : ∀ x ∈ s.places, state x = s.state x := fun x hx => he.others x (h.not_hand hx)
  constructor
  case places =>
    refine List.Perm.trans ?_ h.places
    rw [List.perm_iff_count]
    intro x
    have h1 := he.schedule.count_eq x
    simp only [List.count_append] at h1
    simp only [State.places, List.count_append, h1, State.needingReplay, State.completionList,
      List.count_nil]
    omega
  case initialised =>
    intro x hx
    refine (he.others x fun hm => ?_).trans (h.initialised x hx)
    have hr := h.places.mem_iff.mp (List.mem_append_left _ hm)
    rw [List.mem_range] at hr
    exact absurd hx (Nat.not_le.mpr hr)
  case queued =>
    intro x hx
    rcases List.mem_append.mp (he.schedule.mem_iff.mp hx) with hx | hx
    · exact he.queued x hx
    · rw [← h.queued x hx]
      exact keep x (by simp only [State.places, List.mem_append]; grind)
  case submitted =>
    intro x hx
    rw [← h.submitted x hx]
    have hx := List.mem_append.mp hx
    exact keep x (by simp only [State.places, List.mem_append]; tauto)
  case processed =>
    intro x hx
    rw [← h.processed x hx]
    apply keep x
    simp only [State.places, List.mem_append]
    exact .inl (.inr hx)
  case complete =>
    intro x hx
    rw [← h.complete x hx]
    apply keep x
    simp only [State.places, List.mem_append]
    exact .inr hx
  case counted => exact he.counted h.counted
  case nrInflight => exact h.nrInflight
  case nrReplayOutstanding => exact h.nrReplayOutstanding
  case locals => exact h.locals
  case replaying => exact h.replaying

theorem Pauses.enqueued (h : Pauses s) (he : Enqueued s t hand) : Pauses t :=
  he.elim fun _ _ _ _ => { h with }

theorem OnRing.enqueued (h : OnRing s) (he : Enqueued s t hand) : OnRing t :=
  he.elim fun _ _ _ _ => { h with }

/-- Requests that were just set up are in the hand of `schedule_requests`. -/
theorem Lists.allocate (h : Lists s []) (n : Nat) :
    Lists { s with allocated := s.allocated + n } (List.range' s.allocated n) := by
  refine { h with places := ?_, initialised := fun x hx => ?_ }
  · have hr : List.range (s.allocated + n) = List.range s.allocated ++ List.range' s.allocated n := by
      rw [List.range_eq_range', List.range_eq_range', ← List.range'_append_1, Nat.zero_add]
    rw [hr]
    exact List.perm_append_comm.trans (h.places.append_right _)
  · exact h.initialised x (Nat.le_trans (Nat.le_add_right _ _) hx)

theorem Inv.schedule (req : Nat → Sfr) (n : Nat) (h : Inv s) :
    ∃ u, ({ s with allocated := s.allocated + n } : State γ κ).enqueueAll req
        (List.range' s.allocated n) = .ok u ∧ Inv u := by
  have hi : ∀ x ∈ List.range' s.allocated n, s.state x = .initialised := fun x hx =>
    h.lists.initialised x (List.mem_range'_1.mp hx).1
  obtain ⟨u, hu, he⟩ := enqueueAll_spec req
    (s := { s with allocated := s.allocated + n }) List.nodup_range' hi
  have hp : Pauses { s with allocated := s.allocated + n } := { h.pauses with }
  have ho : OnRing { s with allocated := s.allocated + n } := { h.onRing with }
  exact ⟨u, hu, (h.lists.allocate n).enqueued he, hp.enqueued he, ho.enqueued he⟩

/-! ## `handle_dpc` -/

theorem Inv.dpcBegin {r : SharedRing (BlkifRequest κ) BlkifResponse} (h : Inv s)
    (hd : s.dpc = none) (hr : s.ring = some r) (hp : ¬(s.pauseCount ≠ 0 ∧ s.nrInflight = 0)) :
    Inv { s with dpc := some ⟨r.rspProd, [], false⟩ } := by
  have hpc := h.pauses.pauseCount
  have hnot : ¬0 < s.suspendPauses + s.pauses + s.dehibernating.length := by
    intro hq
    refine hp ⟨by omega, ?_⟩
    rw [h.lists.nrInflight, (h.pauses.quiet hq).1]
    rfl
  refine ⟨?_, { h.pauses with quiet := fun hq => absurd hq hnot }, ?_⟩
  · have hc : ({ s with dpc := some ⟨r.rspProd, [], false⟩ } : State γ κ).completionList =
        s.completionList := by
      simp [State.completionList, hd]
    refine { h.lists with places := ?_, processed := fun x hx => ?_ }
    · simp only [State.places, hc]
      exact h.lists.places
    · rw [hc] at hx
      exact h.lists.processed x hx
  · constructor
    case noRing => intro hn; rw [show s.ring = none from hn] at hr; cases hr
    case ring =>
      intro q hq
      obtain rfl := Option.some.inj (hr.symm.trans hq)
      obtain ⟨a, unread, taken, queued, hh, hperm, -⟩ := h.onRing.ring r hr
      refine ⟨a, unread, taken, queued, hh, hperm, fun d hd => ?_⟩
      obtain rfl := Option.some.inj hd
      refine ⟨?_, unread.length, Nat.le_refl _, hh.rspProd⟩
      by_contra hs
      have := h.pauses.stale (by rw [hr]; rfl) (by simpa using hs)
      omega

/-- The refill of `handle_dpc` moves at most one request. -/
theorem refill_ok (hroom : ∀ r ∈ s.ring, ¬r.full) (h : s.refill req G = .ok t) :
    (∃ g, t = { s with world := g, schedule := s.schedule.flip }) ∨
      ∃ u x, x ∈ s.schedule.requests ∧ Moved s u [x] ∧ t = u.pushRequests := by
  unfold State.refill at h
  rcases s.schedule.getNextRequest_cases with ⟨hn, -⟩ | ⟨x, rest, hn, hc⟩
  · rw [hn] at h
    cases h
    exact .inl ⟨s.world, rfl⟩
  · rw [hn] at h
    obtain ⟨⟨done, u⟩, hst, h⟩ := bind_ok h
    have hm := startThisRequest_moved hc hroom hst
    cases done with
    | true =>
      cases h
      refine .inr ⟨u, x, ?_, hm, rfl⟩
      rw [← s.schedule.requests_flip, Schedule.requests, hc]
      exact List.mem_append_left _ List.mem_cons_self
    | false =>
      cases h
      obtain ⟨-, ⟨hb, -⟩ | ⟨-, hp⟩⟩ := startThisRequest_ok hst
      · cases hb
      · rcases prepareRequest_ok hp with ⟨hb, -⟩ | ⟨-, g, -, ht⟩
        · cases hb
        · exact .inl ⟨g, ht⟩

theorem refill_error (hq : ∀ x ∈ s.schedule.requests, s.state x = .queued)
    (h : s.refill req G = .error c) : c = .grant := by
  unfold State.refill at h
  rcases s.schedule.getNextRequest_cases with ⟨hn, -⟩ | ⟨x, rest, hn, hc⟩
  · rw [hn] at h
    cases h
  · rw [hn] at h
    rcases bind_error h with h | ⟨⟨done, u⟩, -, h⟩
    · refine (startThisRequest_error h).resolve_right fun hne => hne (hq x ?_)
      rw [← s.schedule.requests_flip, Schedule.requests, hc]
      exact List.mem_append_left _ List.mem_cons_self
    · cases done <;> cases h

/-- A request in flight is nowhere else. -/
theorem Lists.inflight_only (h : Lists s []) (hx : x ∈ s.inflightRequests) :
    s.requestsNeedingReplay.count x = 0 ∧ s.inflightRequests.count x = 1 := by
  have hc := h.places.count_eq x
  have h1 := List.nodup_iff_count_le_one.mp (List.nodup_range (n := s.allocated)) x
  have h2 := List.count_pos_iff.mpr hx
  simp only [State.places, State.needingReplay, List.count_append, List.nil_append] at hc
  omega

/-- The request of a response goes from the ring to the completed ones. -/
theorem Lists.processResponse {d : Dpc} {r : SharedRing (BlkifRequest κ) BlkifResponse} {g : γ}
    (h : Lists s []) (hd : s.dpc = some d) (hx : x ∈ s.inflightRequests) :
    Lists (({ s with world := g } : State γ κ).processResponse d r x) [] := by
  obtain ⟨hrep, hone⟩ := h.inflight_only hx
  have hne : ∀ y, s.state y ≠ .submitted → update s.state x .processed y = s.state y := by
    intro y hy
    refine update_of_ne (fun e => hy ?_) ..
    rw [e]
    exact h.submitted x (List.mem_append_left _ hx)
  have herase : s.requestsNeedingReplay.erase x = s.requestsNeedingReplay :=
    List.erase_of_not_mem (List.count_eq_zero.mp hrep)
  constructor
  case places =>
    refine List.Perm.trans ?_ h.places
    rw [List.perm_iff_count]
    intro y
    have hp := (List.perm_cons_erase hx).count_eq y
    rw [List.count_cons] at hp
    simp only [State.places, State.needingReplay, State.completionList, State.processResponse,
      State.unlink, herase, hd, Option.elim_some, List.count_append, List.count_cons,
      List.count_nil, List.nil_append, hp]
    omega
  case initialised =>
    intro y hy
    have hi := h.initialised y hy
    exact (hne y (by rw [hi]; simp)).trans hi
  case queued =>
    intro y hy
    have hi := h.queued y hy
    exact (hne y (by rw [hi]; simp)).trans hi
  case submitted =>
    intro y hy
    -- what is left is not the request of the response
    have hyx : y ≠ x := by
      rintro rfl
      have hc := h.places.count_eq y
      have h1 := List.nodup_iff_count_le_one.mp (List.nodup_range (n := s.allocated)) y
      have hpos := List.count_pos_iff.mpr hy
      simp only [State.processResponse, State.unlink, State.needingReplay, herase,
        List.count_append, List.count_erase_self] at hpos
      simp only [State.places, State.needingReplay, List.count_append, List.nil_append] at hc
      omega
    refine (update_of_ne hyx ..).trans (h.submitted y ?_)
    simp only [State.processResponse, State.unlink, State.needingReplay, herase] at hy
    rcases List.mem_append.mp hy with hy | hy
    · exact List.mem_append_left _ (List.mem_of_mem_erase hy)
    · exact List.mem_append_right _ hy
  case processed =>
    intro y hy
    by_cases hyx : y = x
    · rw [hyx]
      exact update_self ..
    · refine (update_of_ne hyx ..).trans (h.processed y ?_)
      simp only [State.completionList, State.processResponse, State.unlink, hd, Option.elim_some,
        List.mem_append, List.mem_singleton] at hy ⊢
      grind
  case complete =>
    intro y hy
    have hi := h.complete y hy
    exact (hne y (by rw [hi]; simp)).trans hi
  case counted => exact h.counted
  case nrInflight =>
    have hlen := (List.perm_cons_erase hx).length_eq
    simp only [State.processResponse, State.unlink, h.nrInflight, hlen]
    exact sub32_succ _
  case nrReplayOutstanding =>
    simp only [State.processResponse, State.unlink, herase]
    exact h.nrReplayOutstanding
  case locals => exact h.locals
  case replaying => exact h.replaying

/-- The count of the requests in flight does not wrap. -/
theorem Inv.nrInflight (h : Inv s) : s.nrInflight = s.inflightRequests.length := by
  rw [h.lists.nrInflight]
  apply Nat.mod_eq_of_lt
  cases hr : s.ring with
  | none => simp [(h.onRing.noRing hr).1]
  | some r =>
    obtain ⟨a, unread, taken, queued, hh, hperm, -⟩ := h.onRing.ring r hr
    cases hs : s.stale with
    | true =>
      have hst := h.pauses.stale (by rw [hr]; rfl) hs
      simp [(h.pauses.quiet (by omega)).1]
    | false =>
      have hlen := (hperm hs).length_eq
      have hfits := hh.fits
      have hlt := hh.lt
      simp only [List.length_append, List.length_map, List.length_nil] at hlen hfits
      omega

/-- The response `handle_dpc` finds is to a request in flight, and reading it makes room. -/
theorem Inv.response {d : Dpc} {r : SharedRing (BlkifRequest κ) BlkifResponse} (h : Inv s)
    (hd : s.dpc = some d) (hr : s.ring = some r) (hp : r.rspCons ≠ d.prod) :
    ∃ resp, r.getResponse = some resp ∧ resp.id ∈ s.inflightRequests ∧ ¬r.consume.full ∧
      ∀ g, Inv (({ s with world := g } : State γ κ).processResponse d r resp.id) := by
  obtain ⟨a, unread, taken, queued, hh, hperm, hdpc⟩ := h.onRing.ring r hr
  obtain ⟨hs, m, hm, hprod⟩ := hdpc d hd
  have hm0 : m ≠ 0 := by
    rintro rfl
    exact hp (hh.rspCons.trans hprod.symm)
  cases unread with
  | nil => simp at hm; omega
  | cons y rest =>
    have hx : y.id ∈ s.inflightRequests := by
      apply (hperm hs).mem_iff.mp
      rw [List.map_cons, List.cons_append]
      exact List.mem_cons_self
    have hfits := hh.fits
    rw [List.length_cons] at hfits hm
    refine ⟨y, hh.getResponse, hx, ?_, fun g => ⟨h.lists.processResponse hd hx, ?_, ?_⟩⟩
    · rw [hh.consume.full_iff]
      simp only [SharedRing.consume]
      omega
    · refine { h.pauses with
        quiet := fun hq => ?_, stale := fun _ => h.pauses.stale (by rw [hr]; rfl) }
      have hn := (h.pauses.quiet hq).2
      rw [hd] at hn
      cases hn
    · constructor
      case noRing => intro hn; cases hn
      case ring =>
        intro q hq
        obtain rfl := Option.some.inj hq
        refine ⟨a + 1, rest, taken, queued, hh.consume, fun _ => ?_, fun d' hd' => ?_⟩
        · apply (List.perm_cons y.id).mp
          exact (hperm hs).trans (List.perm_cons_erase hx)
        · obtain rfl := Option.some.inj hd'
          refine ⟨hs, m - 1, by omega, ?_⟩
          rw [show a + 1 + (m - 1) = a + m by omega]
          exact hprod

theorem Inv.refill (h : Inv s) (hd : s.dpc.isSome) (hring : s.ring.isSome)
    (hroom : ∀ r ∈ s.ring, ¬r.full) (hs : s.refill req G = .ok t) : Inv t := by
  rcases refill_ok hroom hs with ⟨g, rfl⟩ | ⟨u, x, -, hm, rfl⟩
  · exact ⟨h.lists.moved (Moved.idle g s.gref), { h.pauses with }, { h.onRing with }⟩
  · refine ⟨(h.lists.moved hm).push, (h.pauses.moved (fun hq => ?_) hm).push, h.onRing.moved hring hm⟩
    rw [(h.pauses.quiet hq).2] at hd
    cases hd

/-- One turn of `handle_dpc` keeps the invariant. -/
theorem Inv.handleResponse {d : Dpc} {r : SharedRing (BlkifRequest κ) BlkifResponse} (h : Inv s)
    (hd : s.dpc = some d) (hr : s.ring = some r) (hp : r.rspCons ≠ d.prod) :
    s.handleResponse req G d r = .error .grant ∨
      ∃ t, s.handleResponse req G d r = .ok t ∧ Inv t := by
  obtain ⟨resp, hresp, hx, hroom, hinv⟩ := h.response hd hr hp
  unfold State.handleResponse
  rw [hresp]
  simp only [xmAssert, if_pos (h.lists.submitted _ (List.mem_append_left _ hx))]
  cases hu : s.ungrantRequest G resp.id with
  | error c => exact .inl (by rw [ungrantRequest_error hu]; rfl)
  | ok u =>
    obtain ⟨g, -, rfl⟩ := ungrantRequest_ok hu
    have hi := hinv g
    have hroom' : ∀ q ∈ (({ s with world := g } : State γ κ).processResponse d r resp.id).ring,
        ¬q.full := by
      rintro q hq
      obtain rfl := Option.some.inj hq
      exact hroom
    cases hf : (({ s with world := g } : State γ κ).processResponse d r resp.id).refill req G with
    | error c => exact .inl (by rw [← refill_error hi.lists.queued hf]; exact hf)
    | ok t => exact .inr ⟨t, hf, hi.refill rfl rfl hroom' hf⟩

theorem Inv.dpcCheck {d : Dpc} {r : SharedRing (BlkifRequest κ) BlkifResponse} (h : Inv s)
    (hd : s.dpc = some d) (hr : s.ring = some r) (final : Bool) (event : Nat) :
    Inv { s with dpc := some { d with prod := r.rspProd, finalCheck := final }
                 ring := some { r with rspEvent := event } } := by
  have hc : ({ s with dpc := some { d with prod := r.rspProd, finalCheck := final }
                      ring := some { r with rspEvent := event } } : State γ κ).completionList =
      s.completionList := by
    simp [State.completionList, hd]
  refine ⟨{ h.lists with places := ?_, processed := ?_ }, ?_, ?_⟩
  · simp only [State.places, hc]
    exact h.lists.places
  · rw [hc]
    exact h.lists.processed
  · refine { h.pauses with
      quiet := fun hq => ?_, stale := fun _ => h.pauses.stale (by rw [hr]; rfl) }
    rw [(h.pauses.quiet hq).2] at hd
    cases hd
  · constructor
    case noRing => intro hn; cases hn
    case ring =>
      intro q hq
      obtain rfl := Option.some.inj hq
      obtain ⟨a, unread, taken, queued, hh, hperm, hdpc⟩ := h.onRing.ring r hr
      refine ⟨a, unread, taken, queued, { hh with }, hperm, fun d' hd' => ?_⟩
      obtain rfl := Option.some.inj hd'
      exact ⟨(hdpc d hd).1, unread.length, Nat.le_refl _, hh.rspProd⟩

theorem Inv.dpcReturn {d : Dpc} (h : Inv s) (hd : s.dpc = some d) :
    Inv { s with dpc := none, finishing := s.finishing ++ d.completedRequests } := by
  refine ⟨{ h.lists with places := ?_, processed := fun x hx => h.lists.processed x ?_ }, ?_, ?_⟩
  · refine List.Perm.trans ?_ h.lists.places
    rw [List.perm_iff_count]
    intro x
    simp only [State.places, State.needingReplay, State.completionList, hd, Option.elim_some,
      Option.elim_none, List.count_append, List.count_nil]
    omega
  · simp only [State.completionList, hd, Option.elim_some, Option.elim_none, List.mem_append] at hx ⊢
    simpa [or_comm] using hx
  · exact { h.pauses with quiet := fun hq => ⟨(h.pauses.quiet hq).1, rfl⟩ }
  · refine ⟨fun hn => ⟨(h.onRing.noRing hn).1, rfl⟩, fun q hq => ?_⟩
    obtain ⟨a, unread, taken, queued, hh, hperm, -⟩ := h.onRing.ring q hq
    exact ⟨a, unread, taken, queued, hh, hperm, fun _ hd' => nomatch hd'⟩

theorem Inv.finish (h : Inv s) (hx : x ∈ s.finishing) :
    s.state x = .processed ∧
      Inv { s with finishing := s.finishing.erase x, completions := s.completions ++ [x]
                   state := update s.state x .complete } := by
  have hst : s.state x = .processed := h.lists.processed x (List.mem_append_right _ hx)
  have hne : ∀ y, s.state y ≠ .processed → update s.state x .complete y = s.state y := by
    intro y hy
    exact update_of_ne (fun e => hy (by rw [e]; exact hst)) ..
  refine ⟨hst, ?_, { h.pauses with }, { h.onRing with }⟩
  constructor
  case places =>
    refine List.Perm.trans ?_ h.lists.places
    rw [List.perm_iff_count]
    intro y
    have hp := (List.perm_cons_erase hx).count_eq y
    rw [List.count_cons] at hp
    simp only [State.places, State.needingReplay, State.completionList, List.count_append,
      List.count_cons, List.count_nil, hp]
    omega
  case initialised =>
    intro y hy
    have hi := h.lists.initialised y hy
    exact (hne y (by rw [hi]; simp)).trans hi
  case queued =>
    intro y hy
    have hi := h.lists.queued y hy
    exact (hne y (by rw [hi]; simp)).trans hi
  case submitted =>
    intro y hy
    have hi := h.lists.submitted y hy
    exact (hne y (by rw [hi]; simp)).trans hi
  case processed =>
    intro y hy
    have hyx : y ≠ x := by
      rintro rfl
      have hc := h.lists.places.count_eq y
      have h1 := List.nodup_iff_count_le_one.mp (List.nodup_range (n := s.allocated)) y
      have hpos := List.count_pos_iff.mpr hy
      have hpos' := List.count_pos_iff.mpr hx
      simp only [State.completionList, List.count_append, List.count_erase_self] at hpos
      simp only [State.places, State.completionList, List.count_append, List.nil_append] at hc
      omega
    refine (update_of_ne hyx ..).trans (h.lists.processed y ?_)
    rcases List.mem_append.mp hy with hy | hy
    · exact List.mem_append_left _ hy
    · exact List.mem_append_right _ (List.mem_of_mem_erase hy)
  case complete =>
    intro y hy
    by_cases hyx : y = x
    · rw [hyx]
      exact update_self ..
    · refine (update_of_ne hyx ..).trans (h.lists.complete y ?_)
      exact (List.mem_append.mp hy).resolve_right fun hm => hyx (List.mem_singleton.mp hm)
  case counted => exact h.lists.counted
  case nrInflight => exact h.lists.nrInflight
  case nrReplayOutstanding => exact h.lists.nrReplayOutstanding
  case locals => exact h.lists.locals
  case replaying => exact h.lists.replaying

/-! ## Pauses and migrations -/

/-- The ring no longer has anything in flight. -/
theorem OnRing.takenAway (h : OnRing s) (hd : s.dpc = none) (hr : t.ring = s.ring)
    (hd' : t.dpc = s.dpc) (hs : t.stale = true) (hi : t.inflightRequests = []) : OnRing t := by
  rw [hd] at hd'
  refine ⟨fun _ => ⟨hi, hd'⟩, fun r hr' => ?_⟩
  obtain ⟨a, unread, taken, queued, hh, -, -⟩ := h.ring r (hr ▸ hr')
  refine ⟨a, unread, taken, queued, hh, fun hn => ?_, fun d hn => ?_⟩
  · rw [hs] at hn
    cases hn
  · rw [hd'] at hn
    cases hn

/-- A connection goes on without taking or returning requests. -/
theorem Lists.connect (h : Lists s hand) {c : Connect} (hr : c.requests = s.connect.requests)
    (hl : ∀ o l n, c ≠ .replaying o l n) : Lists { s with connect := c } hand := by
  have hn : ({ s with connect := c } : State γ κ).needingReplay = s.needingReplay := by
    simp only [State.needingReplay, hr]
  refine { h with places := ?_, submitted := ?_, replaying := fun o l n e => absurd e (hl o l n) }
  · simp only [State.places, hn]
    exact h.places
  · rw [hn]
    exact h.submitted

/-- The requests on the ring are to be replayed. -/
theorem Inv.earlySuspend (h : Inv s) (hd : s.dpc = none) (hc : s.connect = .idle) :
    Inv { s with
      pauseCount := s.pauseCount + 1, suspendPauses := s.suspendPauses + 1
      requestsNeedingReplay := s.requestsNeedingReplay ++ s.inflightRequests
      inflightRequests := []
      nrReplayOutstanding := u32 (s.nrReplayOutstanding + s.nrInflight)
      nrInflight := 0, stale := true } := by
  have hl := h.lists
  have hp := h.pauses
  refine ⟨{ hl with
    places := ?_, submitted := fun x hx => hl.submitted x ?_
    nrInflight := rfl, nrReplayOutstanding := ?_ }, ?_, ?_⟩
  · refine List.Perm.trans ?_ hl.places
    rw [List.perm_iff_count]
    intro x
    simp only [State.places, State.needingReplay, State.completionList, List.count_append,
      List.count_nil]
    omega
  · simp only [State.needingReplay, List.mem_append] at hx ⊢
    simp only [List.not_mem_nil, false_or] at hx
    grind
  · simp only [List.length_append, hl.nrReplayOutstanding, hl.nrInflight]
    exact (Nat.add_mod _ _ _).symm
  · have hpc := hp.pauseCount
    refine { hp with
      pauseCount := ?_, quiet := fun _ => ⟨rfl, hd⟩, late := ?_, stale := fun _ _ => ?_ }
    · simp only
      omega
    · exact fun _ => Nat.succ_pos _
    · simp only [hc, Connect.lateRing]
      omega
  · exact h.onRing.takenAway hd rfl rfl rfl rfl

theorem Inv.noticeDehibernated (h : Inv s) (hd : s.dpc = none) :
    Inv { s with
      pauseCount := s.pauseCount + 1
      dehibernating := (s.inflightRequests, s.nrInflight) :: s.dehibernating
      inflightRequests := [], nrInflight := 0, stale := true } := by
  have hl := h.lists
  have hp := h.pauses
  refine ⟨{ hl with
    places := ?_, submitted := fun x hx => hl.submitted x ?_
    nrInflight := rfl, locals := ?_ }, ?_, ?_⟩
  · refine List.Perm.trans ?_ hl.places
    rw [List.perm_iff_count]
    intro x
    simp only [State.places, State.needingReplay, State.completionList, List.count_append,
      List.count_nil, List.flatMap_cons]
    omega
  · simp only [State.needingReplay, List.mem_append, List.flatMap_cons, List.not_mem_nil,
      false_or] at hx ⊢
    grind
  · intro e he
    rcases List.mem_cons.mp he with rfl | he
    · exact hl.nrInflight
    · exact hl.locals e he
  · have hpc := hp.pauseCount
    refine { hp with pauseCount := ?_, quiet := fun _ => ⟨rfl, hd⟩, stale := fun _ _ => ?_ }
    · simp only [List.length_cons]
      omega
    · have hlate := hp.late
      simp only [List.length_cons]
      cases hc : s.connect with
      | connected => simp [hc, Connect.owner] at hlate; simp only [Connect.lateRing]; omega
      | idle => simp only [Connect.lateRing]; omega
      | freed o => simp only [Connect.lateRing]; omega
      | ringUp o =>
        cases o <;> simp [hc, Connect.owner] at hlate <;> simp only [Connect.lateRing] <;> omega
      | replaying o =>
        cases o <;> simp [hc, Connect.owner] at hlate <;> simp only [Connect.lateRing] <;> omega
  · exact h.onRing.takenAway hd rfl rfl rfl rfl

theorem Inv.dehibernatedReplay {e : List Nat × Nat} (h : Inv s) (he : e ∈ s.dehibernating) :
    Inv { s with
      dehibernating := s.dehibernating.erase e
      requestsNeedingReplay := s.requestsNeedingReplay ++ e.1
      nrReplayOutstanding := u32 (s.nrReplayOutstanding + e.2)
      suspendPauses := s.suspendPauses + 1 } := by
  have hl := h.lists
  have hp := h.pauses
  have hperm := (List.perm_cons_erase he).flatMap_right (fun e => e.1)
  rw [List.flatMap_cons] at hperm
  have hlen := List.length_erase_of_mem he
  have hpos := List.length_pos_of_mem he
  refine ⟨{ hl with
    places := ?_, submitted := fun x hx => hl.submitted x ?_, nrReplayOutstanding := ?_
    locals := fun q hq => hl.locals q ?_ }, ?_, { h.onRing with }⟩
  · refine List.Perm.trans ?_ hl.places
    rw [List.perm_iff_count]
    intro x
    have hc := hperm.count_eq x
    simp only [List.count_append] at hc
    simp only [State.places, State.needingReplay, State.completionList, List.count_append, hc]
    omega
  · have hm := hperm.mem_iff (a := x)
    simp only [State.needingReplay, List.mem_append] at hx hm ⊢
    grind
  · simp only [List.length_append, hl.nrReplayOutstanding, hl.locals e (List.mem_append_left _ he)]
    exact (Nat.add_mod _ _ _).symm
  · exact (List.mem_append.mp hq).elim
      (fun hm => List.mem_append_left _ (List.mem_of_mem_erase hm)) (List.mem_append_right _)
  · have hpc := hp.pauseCount
    refine { hp with
      pauseCount := ?_, quiet := fun hq => hp.quiet ?_, late := ?_, stale := fun hr hs => ?_ }
    · simp only [hlen]
      omega
    · simp only [hlen] at hq
      omega
    · exact fun _ => Nat.succ_pos _
    · have := hp.stale hr hs
      simp only [hlen]
      omega

theorem Inv.pauseReturns (h : Inv s) (hd : s.dpc = none) (hpos : 0 < s.draining)
    (hn : s.nrInflight = 0) :
    Inv { s with draining := s.draining - 1, pauses := s.pauses + 1 } := by
  have hp := h.pauses
  have hpc := hp.pauseCount
  rw [h.nrInflight, List.length_eq_zero_iff] at hn
  refine ⟨{ h.lists with }, ?_, { h.onRing with }⟩
  refine { hp with pauseCount := ?_, quiet := fun _ => ⟨hn, hd⟩, pauser := ?_ }
  · simp only
    omega
  · exact fun _ => Nat.succ_pos _

/-- A pause of a caller ends. -/
theorem Inv.unpause (h : Inv s) (hpos : s.connect.pausers < s.pauses) :
    Inv { s with pauses := s.pauses - 1, pauseCount := s.pauseCount - 1 } := by
  have hp := h.pauses
  have hpc := hp.pauseCount
  refine ⟨{ h.lists with }, ?_, { h.onRing with }⟩
  refine { hp with pauseCount := ?_, quiet := fun hq => hp.quiet ?_, pauser := ?_ }
  · simp only
    omega
  · simp only at hq
    omega
  · intro ho
    rw [Connect.pausers, if_pos ho] at hpos
    simp only
    omega

/-- The pause of a migration ends after a connection. -/
theorem Inv.lateUnpause (h : Inv s) (hc : s.connect = .connected) :
    Inv { s with connect := .idle, suspendPauses := s.suspendPauses - 1
                 pauseCount := s.pauseCount - 1 } := by
  have hp := h.pauses
  have hpc := hp.pauseCount
  have hl := hp.late (by rw [hc]; rfl)
  have hr : s.connect.requests = [] := by rw [hc]; rfl
  refine ⟨{ h.lists.connect (c := .idle) hr.symm (fun _ _ _ e => nomatch e) with }, ?_,
    { h.onRing with }⟩
  refine { hp with
    pauseCount := ?_, quiet := fun hq => hp.quiet ?_, late := ?_, pauser := ?_
    stale := fun hr hs => ?_ }
  · simp only
    omega
  · simp only at hq
    omega
  · exact fun hn => nomatch hn
  · exact fun hn => nomatch hn
  · have := hp.stale hr hs
    rw [hc] at this
    simp only [Connect.lateRing] at this ⊢
    omega

/-- Without a ring the pause of a migration may end at any time. -/
theorem Inv.lateSkip (h : Inv s) (hr : s.ring = none) (hpos : 0 < s.suspendPauses)
    (hc : s.connect.owner ≠ some .late) :
    Inv { s with suspendPauses := s.suspendPauses - 1, pauseCount := s.pauseCount - 1 } := by
  have hp := h.pauses
  have hpc := hp.pauseCount
  refine ⟨{ h.lists with }, ?_, { h.onRing with }⟩
  refine { hp with
    pauseCount := ?_, quiet := fun _ => h.onRing.noRing hr, late := fun e => absurd e hc
    stale := fun hs => ?_ }
  · simp only
    omega
  · rw [show s.ring = none from hr] at hs
    cases hs

theorem Inv.unpauseDatapath (h : Inv { s with pauseCount := s.pauseCount - 1 }) :
    s.unpauseDatapath req G = .error .grant ∨ ∃ t, s.unpauseDatapath req G = .ok t ∧ Inv t := by
  unfold State.unpauseDatapath
  simp only
  split
  · cases hs : ({ s with pauseCount := s.pauseCount - 1 } : State γ κ).startRequests req G with
    | error c => exact .inl (by rw [h.startRequests_error hs])
    | ok t => exact .inr ⟨t, rfl, h.startRequests hs⟩
  · exact .inr ⟨_, rfl, h⟩

/-! ## Connections -/

/-- The ring goes away while nothing is in flight. -/
theorem OnRing.free (hq : s.inflightRequests = [] ∧ s.dpc = none) (hr : t.ring = none)
    (hi : t.inflightRequests = s.inflightRequests) (hd : t.dpc = s.dpc) : OnRing t := by
  rw [← hi, ← hd] at hq
  refine ⟨fun _ => hq, fun r hr' => ?_⟩
  rw [hr] at hr'
  cases hr'

theorem OnRing.fresh {n : Nat} (hq : s.inflightRequests = [] ∧ s.dpc = none) (hn : 0 < n)
    (hlt : n < 4294967296) (hdvd : n ∣ 4294967296) (hr : t.ring = some (.fresh n))
    (hi : t.inflightRequests = s.inflightRequests) (hd : t.dpc = s.dpc) : OnRing t := by
  rw [← hi, ← hd] at hq
  refine ⟨fun _ => hq, fun r hr' => ?_⟩
  obtain rfl := Option.some.inj (hr.symm.trans hr')
  refine ⟨0, [], [], [], SharedRing.holds_fresh hn hlt hdvd, fun _ => ?_, fun d hd' => ?_⟩
  · rw [hq.1]
    exact .refl _
  · rw [hq.2] at hd'
    cases hd'

theorem Pauses.quiet_of_owner (h : Pauses s) {o : Owner} (ho : s.connect.owner = some o) :
    s.inflightRequests = [] ∧ s.dpc = none := by
  apply h.quiet
  cases o with
  | late => have := h.late ho; omega
  | pauser => have := h.pauser ho; omega

theorem Inv.connectBegin {o : Owner} (h : Inv s) (hc : s.connect = .idle)
    (hpos : 0 < s.pausesOf o) :
    Inv { s with ring := none, connect := .freed o } := by
  have hp := h.pauses
  have hl := h.lists.connect (c := .freed o) (by rw [hc]; rfl) (fun _ _ _ e => nomatch e)
  have hq : s.inflightRequests = [] ∧ s.dpc = none := by
    apply hp.quiet
    cases o <;> simp only [State.pausesOf] at hpos <;> omega
  refine ⟨{ hl with }, ?_, OnRing.free hq rfl rfl rfl⟩
  refine { hp with late := ?_, pauser := ?_, stale := fun hr => nomatch hr }
  · intro e
    simp only [Connect.owner, Option.some.injEq] at e
    subst e
    exact hpos
  · intro e
    simp only [Connect.owner, Option.some.injEq] at e
    subst e
    exact hpos

theorem grantRingLoop_error {g : γ} {frame n : Nat}
    (h : State.grantRingLoop G g frame n = .error c) : c = .grant := by
  induction n generalizing g frame with
  | zero => cases h
  | succ n ih =>
    unfold State.grantRingLoop at h
    split at h
    · rcases bind_error h with h | ⟨_, -, h⟩
      · exact ih h
      · cases h
    · exact (Except.error.inj h).symm

theorem grantRing_ok {frame : Nat} (h : s.grantRing G frame = .ok t) :
    ∃ world ringGref ringLeaked, t = { s with world, ringGref, ringLeaked } := by
  unfold State.grantRing at h
  obtain ⟨⟨refs, g⟩, -, h⟩ := bind_ok h
  cases h
  exact ⟨_, _, _, rfl⟩

theorem grantRing_error {frame : Nat} (h : s.grantRing G frame = .error c) : c = .grant := by
  unfold State.grantRing at h
  rcases bind_error h with h | ⟨_, -, h⟩
  · exact grantRingLoop_error h
  · cases h

theorem Inv.connectRing {o : Owner} {order : Nat} {g : γ} {refs : List (Option κ)} {b : Bool}
    (h : Inv s) (hc : s.connect = .freed o) (ho : order ≤ 2) :
    Inv { s with ring := some (.fresh (32 * 2 ^ order)), ringOrder := order, stale := false
                 connect := .ringUp o, world := g, ringGref := refs, ringLeaked := b } := by
  have hp := h.pauses
  have hown : s.connect.owner = some o := by rw [hc]; rfl
  have hl := h.lists.connect (c := .ringUp o) (by rw [hc]; rfl) (fun _ _ _ e => nomatch e)
  refine ⟨{ hl with }, ?_, ?_⟩
  · refine { hp with
      late := fun e => hp.late (hown.trans e), pauser := fun e => hp.pauser (hown.trans e)
      stale := fun _ hs => nomatch hs }
  · have : order = 0 ∨ order = 1 ∨ order = 2 := by omega
    refine OnRing.fresh (hp.quiet_of_owner hown) ?_ ?_ ?_ rfl rfl rfl <;>
      rcases this with rfl | rfl | rfl <;> decide

/-- A connection is given up; its caller stays paused. -/
theorem Inv.connectFail {o : Owner} (h : Inv s) (hc : s.connect = .freed o ∨ s.connect = .ringUp o) :
    Inv { s with connect := .idle } ∧ s.inflightRequests = [] ∧ s.dpc = none := by
  have hp := h.pauses
  have hown : s.connect.owner = some o := by rcases hc with e | e <;> rw [e] <;> rfl
  have hr : s.connect.requests = [] := by rcases hc with e | e <;> rw [e] <;> rfl
  refine ⟨⟨h.lists.connect hr.symm (fun _ _ _ e => nomatch e), ?_, { h.onRing with }⟩,
    hp.quiet_of_owner hown⟩
  refine { hp with
    late := fun e => (by cases e), pauser := fun e => (by cases e), stale := fun hr hs => ?_ }
  have := hp.stale hr hs
  simp only [Connect.lateRing]
  omega

/-- The ring is freed while nothing is in flight. -/
theorem Inv.ringFree {g : γ} {refs : List (Option κ)} {b : Bool} (h : Inv s)
    (hq : s.inflightRequests = [] ∧ s.dpc = none) :
    Inv { s with ring := none, world := g, ringGref := refs, ringLeaked := b } :=
  ⟨{ h.lists with }, { h.pauses with stale := fun hr => nomatch hr }, OnRing.free hq rfl rfl rfl⟩

/-- `replay_pending_requests` takes the list. -/
theorem Inv.replayGrab {o : Owner} (h : Inv s) (hc : s.connect = .ringUp o) :
    Inv { s with
      connect := .replaying o s.requestsNeedingReplay s.nrReplayOutstanding
      requestsNeedingReplay := [], nrReplayOutstanding := 0 } := by
  have hl := h.lists
  have hp := h.pauses
  have hown : s.connect.owner = some o := by rw [hc]; rfl
  refine ⟨{ hl with
    places := ?_, submitted := fun x hx => hl.submitted x ?_, nrReplayOutstanding := rfl
    replaying := ?_ }, ?_, { h.onRing with }⟩
  · refine List.Perm.trans ?_ hl.places
    rw [List.perm_iff_count]
    intro x
    simp only [State.places, State.needingReplay, State.completionList, Connect.requests, hc,
      List.count_append, List.count_nil]
    omega
  · simp only [State.needingReplay, Connect.requests, hc, List.mem_append, List.not_mem_nil,
      or_false, false_or] at hx ⊢
    grind
  · intro o' l n e
    cases e
    exact hl.nrReplayOutstanding
  · refine { hp with
      late := fun e => hp.late (hown.trans e), pauser := fun e => hp.pauser (hown.trans e)
      stale := fun hr hs => ?_ }
    have := hp.stale hr hs
    rw [hc] at this
    cases o <;> simp only [Connect.lateRing] at this ⊢ <;> omega

/-- The list is in the hand of `replay_pending_requests`. -/
theorem Lists.replay {o : Owner} {l : List Nat} {n : Nat} {c : Connect} (h : Lists s [])
    (hc : s.connect = .replaying o l n) (hl : ∀ o l n, c ≠ .replaying o l n) :
    Lists { s with connect := c } l := by
  refine { h with
    places := ?_, submitted := fun x hx => h.submitted x ?_
    replaying := fun o l n e => absurd e (hl o l n) }
  · refine List.Perm.trans ?_ h.places
    rw [List.perm_iff_count]
    intro x
    simp only [State.places, State.needingReplay, State.completionList, hc, Connect.requests,
      List.count_append, List.count_nil, List.nil_append]
    omega
  · simp only [State.needingReplay, hc, Connect.requests, List.mem_append, List.not_mem_nil,
      or_false] at hx ⊢
    grind

/-- `replay_pending_requests` puts its list back in the schedule. -/
theorem Inv.replayEnqueue (req : Nat → Sfr) (G : GrantOps γ κ ω) {o : Owner} {l : List Nat} {n : Nat}
    (h : Inv s)
    (hc : s.connect = .replaying o l n) :
    ({ s with connect := .replayed o } : State γ κ).replayLoop req G l n = .error .grant ∨
      ∃ t, ({ s with connect := .replayed o } : State γ κ).replayLoop req G l n = .ok t ∧ Inv t ∧
        t.nrInflight = 0 := by
  have hp := h.pauses
  have hown : s.connect.owner = some o := by rw [hc]; rfl
  obtain rfl := h.lists.replaying o l n hc
  have hl : Lists { s with connect := .replayed o } l := by
    apply h.lists.replay hc
    cases o <;> simp [Connect.replayed]
  have hp' : Pauses { s with connect := .replayed o } := by
    have hst := hp.stale
    rw [hc] at hst
    cases o with
    | late =>
      exact { hp with
        late := fun _ => hp.late hown, pauser := fun e => (by cases e), stale := hst }
    | pauser =>
      exact { hp with
        late := fun e => (by cases e), pauser := fun e => (by cases e), stale := hst }
  have ho : OnRing { s with connect := .replayed o } := { h.onRing with }
  have hnd : l.Nodup := (List.nodup_append.mp hl.nodup).1
  have hsub : ∀ x ∈ l, s.state x = .submitted := fun x hx => h.lists.submitted x (by
    simp only [State.needingReplay, hc, Connect.requests, List.mem_append]
    grind)
  rcases replayLoop_spec req G (s := { s with connect := .replayed o }) hnd hsub with
    he | ⟨t, ht, he⟩
  · exact .inl he
  · refine .inr ⟨t, ht, ⟨hl.enqueued he, hp'.enqueued he, ho.enqueued he⟩, ?_⟩
    have hn : t.nrInflight = s.nrInflight := by rw [he.frame]
    rw [hn, h.nrInflight, (hp.quiet_of_owner hown).1]
    rfl

theorem Inv.abortGrab (h : Inv s) :
    Inv { s with
      aborting := (s.requestsNeedingReplay, s.nrReplayOutstanding) :: s.aborting
      requestsNeedingReplay := [], nrReplayOutstanding := 0 } := by
  have hl := h.lists
  refine ⟨{ hl with
    places := ?_, submitted := fun x hx => hl.submitted x ?_, nrReplayOutstanding := rfl
    locals := ?_ }, { h.pauses with }, { h.onRing with }⟩
  · refine List.Perm.trans ?_ hl.places
    rw [List.perm_iff_count]
    intro x
    simp only [State.places, State.needingReplay, State.completionList, List.count_append,
      List.count_nil, List.flatMap_cons]
    omega
  · simp only [State.needingReplay, List.mem_append, List.flatMap_cons, List.not_mem_nil,
      false_or] at hx ⊢
    grind
  · intro e he
    rcases List.mem_append.mp he with he | he
    · exact hl.locals e (List.mem_append_left _ he)
    · rcases List.mem_cons.mp he with rfl | he
      · exact hl.nrReplayOutstanding
      · exact hl.locals e (List.mem_append_right _ he)

/-- `abort_pending_requests` gives its list to `finish_requests`. -/
theorem Inv.abortWalk {e : List Nat × Nat} (h : Inv s) (he : e ∈ s.aborting) :
    ({ s with aborting := s.aborting.erase e, finishing := s.finishing ++ e.1 }
        : State γ κ).abortLoop G e.2 e.1 0 = .error .grant ∨
      ∃ t, ({ s with aborting := s.aborting.erase e, finishing := s.finishing ++ e.1 }
        : State γ κ).abortLoop G e.2 e.1 0 = .ok t ∧ Inv t := by
  have hl := h.lists
  have hperm := (List.perm_cons_erase he).flatMap_right (fun e => e.1)
  rw [List.flatMap_cons] at hperm
  have hcount : ∀ x, s.places.count x ≤ 1 := fun x => by
    rw [← List.nil_append s.places, hl.places.count_eq]
    exact List.nodup_iff_count_le_one.mp List.nodup_range x
  have hsub : ∀ x ∈ e.1, s.state x = .submitted := fun x hx => hl.submitted x (by
    have := hperm.mem_iff.mpr (List.mem_append_left _ hx)
    simp only [State.needingReplay, List.mem_append]
    grind)
  have hnd : e.1.Nodup := by
    rw [List.nodup_iff_count_le_one]
    intro x
    have h1 := hcount x
    have h2 := hperm.count_eq x
    simp only [State.places, State.needingReplay, List.count_append] at h1 h2
    omega
  have hlen : u32 (0 + e.1.length) = e.2 := by
    rw [Nat.zero_add, hl.locals e (List.mem_append_right _ he)]
  rcases hlen ▸ abortLoop_spec (G := G)
      (s := { s with aborting := s.aborting.erase e, finishing := s.finishing ++ e.1 })
      0 hnd hsub with hg | ⟨g, st, ht, hin, hout⟩
  · exact .inl hg
  · refine .inr ⟨_, ht, ?_, { h.pauses with }, { h.onRing with }⟩
    have keep : ∀ y, s.state y ≠ .submitted → st y = s.state y :=
      fun y hy => hout y fun hm => hy (hsub y hm)
    constructor
    case places =>
      refine List.Perm.trans ?_ hl.places
      rw [List.perm_iff_count]
      intro x
      have hc := hperm.count_eq x
      simp only [List.count_append] at hc
      simp only [State.places, State.needingReplay, State.completionList, List.count_append, hc]
      omega
    case initialised =>
      intro y hy
      have hi := hl.initialised y hy
      exact (keep y (by rw [hi]; simp)).trans hi
    case queued =>
      intro y hy
      have hi := hl.queued y hy
      exact (keep y (by rw [hi]; simp)).trans hi
    case submitted =>
      intro y hy
      have hny : y ∉ e.1 := by
        intro hm
        have h1 := hcount y
        have h2 := hperm.count_eq y
        have h3 := List.count_pos_iff.mpr hm
        have h4 := List.count_pos_iff.mpr hy
        simp only [State.places, State.needingReplay, List.count_append] at h1 h2 h4
        omega
      refine (hout y hny).trans (hl.submitted y ?_)
      have hm := hperm.mem_iff (a := y)
      simp only [State.needingReplay, List.mem_append] at hy hm ⊢
      grind
    case processed =>
      intro y hy
      by_cases hm : y ∈ e.1
      · exact hin y hm
      · refine (hout y hm).trans (hl.processed y ?_)
        simp only [State.completionList, List.mem_append] at hy ⊢
        grind
    case complete =>
      intro y hy
      have hi := hl.complete y hy
      exact (keep y (by rw [hi]; simp)).trans hi
    case counted => exact hl.counted
    case nrInflight => exact hl.nrInflight
    case nrReplayOutstanding => exact hl.nrReplayOutstanding
    case locals =>
      intro q hq
      rcases List.mem_append.mp hq with hq | hq
      · exact hl.locals q (List.mem_append_left _ hq)
      · exact hl.locals q (List.mem_append_right _ (List.mem_of_mem_erase hq))
    case replaying => exact hl.replaying

theorem Inv.backTake {r r' : SharedRing (BlkifRequest κ) BlkifResponse} (h : Inv s)
    (hr : s.ring = some r) (ht : r.take = some r') : Inv { s with ring := some r' } := by
  refine ⟨{ h.lists with }, { h.pauses with stale := fun _ => h.pauses.stale (by rw [hr]; rfl) },
    ⟨(fun hn => nomatch hn), fun q hq => ?_⟩⟩
  obtain rfl := Option.some.inj hq
  obtain ⟨a, unread, taken, queued, hh, hperm, hd⟩ := h.onRing.ring r hr
  obtain ⟨x, rest, rfl, hh'⟩ := hh.take_some ht
  refine ⟨a, unread, taken ++ [x], rest, hh', fun hs => ?_, hd⟩
  rw [List.append_assoc]
  exact hperm hs

theorem Inv.backAnswer [DecidableEq κ] {r : SharedRing (BlkifRequest κ) BlkifResponse}
    {x : BlkifRequest κ} (h : Inv s) (hr : s.ring = some r) (hx : x ∈ r.taken) :
    Inv { s with ring := some (r.answer x ⟨x.id⟩) } := by
  refine ⟨{ h.lists with }, { h.pauses with stale := fun _ => h.pauses.stale (by rw [hr]; rfl) },
    ⟨(fun hn => nomatch hn), fun q hq => ?_⟩⟩
  obtain rfl := Option.some.inj hq
  obtain ⟨a, unread, taken, queued, hh, hperm, hd⟩ := h.onRing.ring r hr
  rw [hh.has] at hx
  refine ⟨a, unread ++ [⟨x.id⟩], taken.erase x, queued, hh.answer hx _, fun hs => ?_, fun d hd' => ?_⟩
  · refine List.Perm.trans ?_ (hperm hs)
    have hp := ((List.perm_cons_erase hx).map BlkifRequest.id)
    rw [List.perm_iff_count]
    intro y
    have hc := hp.count_eq y
    simp only [List.map_cons, List.count_cons] at hc
    simp only [List.map_append, List.map_cons, List.map_nil, List.count_append, List.count_cons,
      List.count_nil, hc]
    omega
  · obtain ⟨hs, m, hm, hp⟩ := hd d hd'
    exact ⟨hs, m, by rw [List.length_append]; omega, hp⟩

/-! ## Over whole runs -/

/-- A call that keeps the invariant, or stops at an assertion that is not on a state. -/
def Safe (e : Except Crash (State γ κ)) : Prop :=
  match e with
  | .ok t => Inv t
  | .error c => c ≠ .state

theorem safe_of_spec {e : Except Crash (State γ κ)} (h : e = .error .grant ∨ ∃ t, e = .ok t ∧ Inv t) :
    Safe e := by
  rcases h with rfl | ⟨t, rfl, h⟩
  · simp [Safe]
  · exact h

theorem Inv.start_safe (h : Inv s) : Safe (s.startRequests req G) := by
  cases hs : s.startRequests req G with
  | error c => simp [Safe, h.startRequests_error hs]
  | ok t => exact h.startRequests hs

/-- `late_suspend_cb` reconnects before it unpauses, unless there is no ring. -/
def Reconnects (s : State γ κ) : Act κ ω → Prop
  | .lateSkip => s.ring = none
  | _ => True

instance (s : State γ κ) : ∀ a : Act κ ω, Decidable (Reconnects s a) := by
  rintro ⟨⟩
  all_goals first | exact instDecidableTrue | exact inferInstanceAs (Decidable (s.ring = none))

theorem Inv.act [DecidableEq κ] {a : Act κ ω} {e : Except Crash (State γ κ)} (h : Inv s)
    (hok : Reconnects s a) (ha : act req G s a = some e) : Safe e := by
  cases a with
  | schedule n =>
    obtain ⟨-, ha⟩ := Option.ite_none_right_eq_some.mp ha
    obtain rfl := Option.some.inj ha
    obtain ⟨u, hu, hi⟩ := h.schedule req n
    rw [State.scheduleRequests, hu]
    exact hi.start_safe
  | dpcBegin =>
    obtain ⟨hd, ha⟩ := Option.ite_none_right_eq_some.mp ha
    split at ha
    · obtain rfl := Option.some.inj ha; exact h
    · next r hr =>
      split at ha
      · obtain rfl := Option.some.inj ha; exact h
      · next hp =>
        obtain rfl := Option.some.inj ha
        exact h.dpcBegin (Option.isNone_iff_eq_none.mp hd) hr hp
  | dpcResponse =>
    simp only [Scsifilt.act] at ha
    split at ha
    · next d r hd hr =>
      split at ha
      · next hp =>
        obtain rfl := Option.some.inj ha
        exact safe_of_spec (h.handleResponse hd hr hp)
      · cases ha
    · cases ha
  | dpcCheck =>
    simp only [Scsifilt.act] at ha
    split at ha
    · next d r hd hr =>
      split at ha
      · next hcons =>
        split at ha
        · obtain rfl := Option.some.inj ha
          have hi := h.dpcCheck hd hr false r.rspEvent
          rwa [show some { r with rspEvent := r.rspEvent } = s.ring from hr.symm] at hi
        · next hun =>
          split at ha
          · obtain rfl := Option.some.inj ha
            exact h.dpcReturn hd
          · obtain rfl := Option.some.inj ha
            have hi := h.dpcCheck hd hr true (u32 (r.rspCons + 1))
            have hd' : ({ d with prod := r.rspProd, finalCheck := true } : Dpc) =
                { d with finalCheck := true } := by
              unfold SharedRing.hasUnconsumedResponses at hun
              rw [← not_not.mp hun, hcons]
            rwa [hd'] at hi
      · cases ha
    · cases ha
  | finish x =>
    obtain ⟨hx, ha⟩ := Option.ite_none_right_eq_some.mp ha
    obtain rfl := Option.some.inj ha
    obtain ⟨hst, hi⟩ := h.finish hx
    rw [xmAssert_bind hst]
    exact hi
  | pauseDatapath =>
    obtain ⟨-, ha⟩ := Option.ite_none_right_eq_some.mp ha
    obtain rfl := Option.some.inj ha
    unfold xmAssert
    split
    · refine ⟨{ h.lists with }, { h.pauses with pauseCount := ?_ }, { h.onRing with }⟩
      have := h.pauses.pauseCount
      simp only
      omega
    · exact fun e => nomatch e
  | pauseReturns =>
    obtain ⟨hg, ha⟩ := Option.ite_none_right_eq_some.mp ha
    obtain rfl := Option.some.inj ha
    exact h.pauseReturns (Option.isNone_iff_eq_none.mp hg.1) hg.2.1 hg.2.2
  | unpauseDatapath =>
    obtain ⟨hg, ha⟩ := Option.ite_none_right_eq_some.mp ha
    obtain rfl := Option.some.inj ha
    exact safe_of_spec (Inv.unpauseDatapath (h.unpause hg.2))
  | earlySuspend =>
    obtain ⟨hg, ha⟩ := Option.ite_none_right_eq_some.mp ha
    obtain rfl := Option.some.inj ha
    exact h.earlySuspend (Option.isNone_iff_eq_none.mp hg.1) hg.2
  | noticeDehibernated =>
    obtain ⟨hg, ha⟩ := Option.ite_none_right_eq_some.mp ha
    obtain rfl := Option.some.inj ha
    exact h.noticeDehibernated (Option.isNone_iff_eq_none.mp hg)
  | dehibernatedReplay entry =>
    obtain ⟨he, ha⟩ := Option.ite_none_right_eq_some.mp ha
    obtain rfl := Option.some.inj ha
    exact h.dehibernatedReplay he
  | connectBegin o =>
    obtain ⟨hg, ha⟩ := Option.ite_none_right_eq_some.mp ha
    obtain rfl := Option.some.inj ha
    exact h.connectBegin hg.1 hg.2
  | connectRing order frame =>
    simp only [Scsifilt.act] at ha
    split at ha
    · next o hc =>
      split at ha
      · next hg =>
        obtain rfl := Option.some.inj ha
        generalize hs : State.grantRing G _ frame = e
        cases e with
        | error c =>
          rw [grantRing_error hs]
          exact fun e => nomatch e
        | ok t =>
          obtain ⟨g, refs, b, rfl⟩ := grantRing_ok hs
          exact h.connectRing hc hg.2
      · cases ha
    · cases ha
  | connectFail =>
    simp only [Scsifilt.act] at ha
    split at ha
    · next o hc =>
      obtain rfl := Option.some.inj ha
      exact (h.connectFail (.inl hc)).1
    · next o hc =>
      split at ha
      · obtain rfl := Option.some.inj ha
        obtain ⟨hi, hq⟩ := h.connectFail (.inr hc)
        exact hi.ringFree hq
      · cases ha
    · cases ha
  | replayGrab =>
    simp only [Scsifilt.act] at ha
    split at ha
    · next o hc =>
      obtain rfl := Option.some.inj ha
      exact h.replayGrab hc
    · cases ha
  | replayEnqueue =>
    simp only [Scsifilt.act] at ha
    split at ha
    · next o l n hc =>
      split at ha
      · obtain rfl := Option.some.inj ha
        rcases h.replayEnqueue req G hc with he | ⟨t, ht, hi, hn⟩
        · rw [he]
          exact fun e => nomatch e
        · rw [ht]
          rw [bind_eq rfl, xmAssert_bind hn]
          exact hi
      · cases ha
    · cases ha
  | lateUnpause =>
    obtain ⟨hg, ha⟩ := Option.ite_none_right_eq_some.mp ha
    obtain rfl := Option.some.inj ha
    exact safe_of_spec (Inv.unpauseDatapath (h.lateUnpause hg.1))
  | lateSkip =>
    obtain ⟨hg, ha⟩ := Option.ite_none_right_eq_some.mp ha
    obtain rfl := Option.some.inj ha
    exact safe_of_spec (Inv.unpauseDatapath (h.lateSkip hok hg.2.1 hg.2.2.1))
  | setPower d =>
    obtain rfl := Option.some.inj ha
    exact ⟨{ h.lists with }, { h.pauses with }, { h.onRing with }⟩
  | close =>
    obtain ⟨hg, ha⟩ := Option.ite_none_right_eq_some.mp ha
    obtain rfl := Option.some.inj ha
    exact h.ringFree (h.pauses.quiet (by omega))
  | abortGrab =>
    obtain rfl := Option.some.inj ha
    split
    · next hnil =>
      have hn : s.nrReplayOutstanding = 0 := by rw [h.lists.nrReplayOutstanding, hnil]; rfl
      rw [xmAssert_bind hn]
      exact h
    · exact h.abortGrab
  | abortWalk entry =>
    obtain ⟨hg, ha⟩ := Option.ite_none_right_eq_some.mp ha
    obtain rfl := Option.some.inj ha
    exact safe_of_spec (h.abortWalk hg.1)
  | backTake =>
    obtain ⟨r', hr', rfl⟩ := Option.map_eq_some_iff.mp ha
    obtain ⟨r, hr, ht⟩ := Option.bind_eq_some_iff.mp hr'
    exact h.backTake hr ht
  | backAnswer x =>
    simp only [Scsifilt.act] at ha
    split at ha
    · next r hr =>
      split at ha
      · next hx =>
        obtain rfl := Option.some.inj ha
        exact h.backAnswer hr hx
      · cases ha
    · cases ha
  | other w =>
    obtain rfl := Option.some.inj ha
    exact ⟨{ h.lists with }, { h.pauses with }, { h.onRing with }⟩

theorem Inv.crash {c : Crash} (h : Inv s) (hc : c ≠ .state) : Inv { s with crashed := some c } :=
  ⟨{ h.lists with }, { h.pauses with running := fun e => hc (Option.some.inj e) }, { h.onRing with }⟩

theorem inv_of_reach [DecidableEq κ] {g : γ} (h : (machine req G g).Reach Reconnects s) :
    Inv s := by
  apply h.inv (inv_init g)
  intro s a t hi hok hst
  unfold machine step at hst
  simp only at hst
  split at hst
  · cases hst
  · obtain ⟨e, he, rfl⟩ := Option.map_eq_some_iff.mp hst
    have hsafe := hi.act hok he
    cases e with
    | ok t => exact hsafe
    | error c => exact hi.crash hsafe

/-- The ring is connected to a back end that serves it. -/
def State.Connected (s : State γ κ) (r : SharedRing (BlkifRequest κ) BlkifResponse) : Prop :=
  s.ring = some r ∧ s.stale = false

/-- Whatever is scheduled, answered, replayed and aborted, and wherever migrations strike, as long as
`late_suspend_cb` finds no ring if it does not reconnect: every request is in the schedule, on the
ring, waiting to be replayed, on a completion list or completed, once and in one of these, in the
state that belongs there; the counters are right; no assertion on a state fails; and on a connected
ring the requests in flight are the slots in use, which are no more than the ring has, with every
unread response in its slot. -/
theorem requests_conserved [DecidableEq κ] {g : γ} (h : (machine req G g).Reach Reconnects s) :
    (s.schedule.requests ++ s.inflightRequests ++ s.needingReplay ++ s.completionList ++
        s.completions).Perm (List.range s.allocated) ∧
    (∀ x ∈ s.schedule.requests, s.state x = .queued) ∧
    (∀ x ∈ s.inflightRequests ++ s.needingReplay, s.state x = .submitted) ∧
    (∀ x ∈ s.completionList, s.state x = .processed) ∧
    s.schedule.nrScheduled = s.schedule.requests.length ∧
    s.nrInflight = s.inflightRequests.length ∧
    s.nrReplayOutstanding = u32 s.requestsNeedingReplay.length ∧
    s.crashed ≠ some .state ∧
    ∀ r, s.Connected r →
      sub32 r.reqProdPvt r.rspCons = s.nrInflight ∧ s.nrInflight ≤ r.nrEnts ∧
      ∀ i, i < sub32 r.rspProd r.rspCons →
        ∃ resp, r.slot ((r.rspCons + i) % r.nrEnts) = .inr resp ∧ resp.id ∈ s.inflightRequests := by
  have hi := inv_of_reach h
  have hl := hi.lists
  refine ⟨hl.places, hl.queued, hl.submitted, hl.processed, hl.counted, hi.nrInflight,
    hl.nrReplayOutstanding, hi.pauses.running, fun r hc => ?_⟩
  obtain ⟨a, unread, taken, queued, hh, hperm, -⟩ := hi.onRing.ring r hc.1
  have hp := hperm hc.2
  have hlen : unread.length + taken.length + queued.length = s.nrInflight := by
    have := hp.length_eq
    simp only [List.length_append, List.length_map] at this
    rw [hi.nrInflight, ← this]
    omega
  have hfits := hh.fits
  rw [List.length_nil, Nat.add_zero, hlen] at hfits
  refine ⟨by rw [hh.prod_sub_cons]; exact hlen, hfits, fun i hlt => ?_⟩
  rw [hh.rsp_sub_cons] at hlt
  have hw := congrArg (fun l => l[i]?) hh.responses
  simp only [List.getElem?_map, List.getElem?_eq_getElem hlt, Option.map_some] at hw
  rw [List.getElem?_eq_getElem (by simpa using hlt), getElem_window] at hw
  refine ⟨unread[i], ?_, ?_⟩
  · rw [hh.rspCons, ← Nat.mod_add_mod, u32_mod hh.dvd, Nat.mod_add_mod]
    exact Option.some.inj hw
  · refine hp.mem_iff.mp (List.mem_append_left _ (List.mem_map_of_mem (List.getElem_mem hlt)))

end Steps

section Witness

/-- Grants that never fail, numbered from the ones there are. -/
def plentiful : GrantOps Nat Nat Unit where
  grantForeignAccessCache g _ _ := (some g, g + 1)
  endForeignAccessCache g _ := (true, g)
  other _ g := g

/-- Reads of one page each, of sectors in decreasing order. -/
def readsDown (x : Nat) : Sfr := ⟨.read, 100 - x, [7], by decide, by decide⟩

/-- The first request is answered; of the others one is replayed after a migration and completed,
one is aborted after the next, and one is still in the schedule. -/
theorem requests_conserved_run :
    ∃ s, (machine readsDown plentiful 0).Reach Reconnects s ∧
      s.completions = [0, 2] ∧ s.finishing = [1] ∧ s.schedule.requests = [3] ∧
      (s.schedule.requests ++ s.inflightRequests ++ s.needingReplay ++ s.completionList ++
        s.completions).Perm (List.range s.allocated) ∧ s.crashed ≠ some .state := by
  obtain ⟨s, hr, hp⟩ := Machine.exists_reach (machine readsDown plentiful 0) Reconnects
    (fun s => s.completions = [0, 2] ∧ s.finishing = [1] ∧ s.schedule.requests = [3])
    [.connectBegin .pauser, .connectRing 0 5, .replayGrab, .replayEnqueue, .unpauseDatapath,
      .schedule 3, .backTake, .backTake, .backAnswer ⟨0, .read, 100, [1]⟩, .dpcBegin, .dpcResponse,
      .dpcCheck, .dpcCheck, .finish 0, .earlySuspend, .connectBegin .late, .connectRing 1 9,
      .replayGrab, .replayEnqueue, .lateUnpause, .backTake, .backTake,
      .backAnswer ⟨2, .read, 98, [6]⟩, .dpcBegin, .dpcResponse, .dpcCheck, .dpcCheck, .finish 2,
      .earlySuspend, .schedule 1, .abortGrab, .abortWalk ([1], 1)] (by decide +kernel)
  simp only [decide_eq_true_eq] at hp
  have hc := requests_conserved hr
  exact ⟨s, hr, hp.1, hp.2.1, hp.2.2, hc.1, hc.2.2.2.2.2.2.2.1⟩

/-- A request is on the ring when a power-down has stored the new power state and a migration
strikes: `late_suspend_cb` unpauses the old ring, and `handle_dpc` counts the response there. -/
theorem requests_miscounted :
    ¬∀ s, (machine readsDown plentiful 0).Reach Machine.Any s →
      s.nrInflight = s.inflightRequests.length ∧
        s.nrReplayOutstanding = s.requestsNeedingReplay.length := by
  intro hall
  obtain ⟨s, hr, hp⟩ := Machine.exists_reach (machine readsDown plentiful 0) Machine.Any
    (fun s => s.inflightRequests = [] ∧ s.nrInflight = 4294967295 ∧
      s.requestsNeedingReplay = [] ∧ s.nrReplayOutstanding = 1)
    [.connectBegin .pauser, .connectRing 0 5, .replayGrab, .replayEnqueue, .setPower .d0,
      .unpauseDatapath, .schedule 1, .backTake, .backAnswer ⟨0, .read, 100, [1]⟩, .setPower .d3,
      .earlySuspend, .lateSkip, .dpcBegin, .dpcResponse] (by decide +kernel)
  simp only [decide_eq_true_eq] at hp
  have hc := (hall s hr).1
  rw [hp.1, hp.2.1] at hc
  cases hc

end Witness

end XcWindows.Scsifilt
