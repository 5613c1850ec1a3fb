import XcWindows.Xenbus.Receive

/-!
# Progress of the XenStore receiver

When `receive_from_xenstored` should be called again, and the loop of the DPC that does so.
`CanProcess` says what there is to do with the bytes on the ring. The two states in which the answer
is wrong: bytes are to be thrown away and the ring is empty, which is answered with `TRUE` for ever,
and a reply whose payload is complete is only marked so, which is answered with `FALSE` although a
message may be behind it. The latter is the state behind the header of an empty reply.
-/

namespace XcWindows.Xenbus.Receive

open XcWindows.Lib

namespace Rx

variable (s : Rx)

/-- Something can be processed with the bytes present. -/
def CanProcess : Prop :=
  if s.consResponseDiscardBytes ≠ 0 then 0 < s.bytesAvail
  else
    match s.currentRxReq with
    | some a =>
      0 < s.bytesAvail ∨ (s.req a).replyPayloadReceived = (s.req a).replyHeader.len
    | none => s.HeaderReady

/-- The parser is not left with nothing to throw away, nor with a complete reply in front of a
message. -/
def Sound : Prop :=
  (s.consResponseDiscardBytes ≠ 0 → 0 < s.bytesAvail) ∧
    (s.consResponseDiscardBytes = 0 → ∀ a, s.currentRxReq = some a →
      (s.req a).replyPayloadReceived = (s.req a).replyHeader.len → ¬ s.HeaderReady)

/-- Bytes were taken from the ring, or a message was completed. -/
def Progress (t : Rx) : Prop :=
  t.rspCons ≠ s.rspCons ∨
    ∃ a, s.currentRxReq = some a ∧ t.currentRxReq = none ∧ (t.req a).xenbusReplied = true

/-- The answer of a call is right. -/
def AnswerOk (alloc : Bool) : Prop :=
  ∀ b t, s.receiveFromXenstored alloc = .ok (b, t) → if b then s.Progress t else ¬ t.CanProcess

end Rx

/-! ## One call -/

section Call

variable {s t : Rx} {a n : Nat} {alloc b : Bool}

theorem copyPayload_zero (req : RxReq) : s.copyPayload req 0 = .ok req.replyPayload := by
  unfold Rx.copyPayload
  simp only
  split
  · rw [Nat.zero_min, memcpyFromRing_eq _ (Nat.zero_le _)]
    rfl
  · rfl

theorem receive_complete (alloc : Bool) (h : s.Wf) (hd : s.consResponseDiscardBytes = 0)
    (hc : s.currentRxReq = some a)
    (hl : (s.req a).replyPayloadReceived = (s.req a).replyHeader.len) :
    ∃ t, s.receiveFromXenstored alloc = .ok (false, t) ∧ t.rsp = s.rsp ∧ t.rspCons = s.rspCons ∧
      t.rspProd = s.rspProd ∧ t.currentRxReq = none ∧ t.consResponseDiscardBytes = 0 := by
  have hn : s.payloadAvail (s.req a) = 0 := by
    rw [payloadAvail_eq h hc, hl]
    omega
  have hu : u32 s.rspCons = s.rspCons := Nat.mod_eq_of_lt h.cons
  have hr : ∃ t, s.receivePayload a = .ok (t, s.rspCons) ∧ t.rsp = s.rsp ∧
      t.rspProd = s.rspProd ∧ t.currentRxReq = none ∧ t.consResponseDiscardBytes = 0 := by
    unfold Rx.receivePayload
    simp only [hn, copyPayload_zero, Except.bind, Nat.add_zero, hl, Nat.le_refl, if_true, hu]
    exact ⟨_, rfl, rfl, rfl, rfl, hd⟩
  obtain ⟨t, ht, h1, h2, h3, h4⟩ := hr
  refine ⟨{ t with rspCons := s.rspCons }, ?_, h1, rfl, h2, h3, h4⟩
  unfold Rx.receiveFromXenstored
  rw [if_neg (not_not.mpr hd)]
  simp [hc, ht, Except.map]

theorem receive_taken (h : s.Wf) (hs : s.Sound) (hcall : s.receiveFromXenstored alloc = .ok (b, t)) :
    ∃ n, n ≤ s.bytesAvail ∧ t.rspProd = s.rspProd ∧ t.rspCons = u32 (s.rspCons + n) ∧
      (b = true ↔ 0 < n) ∧ (n = 0 → ¬ t.CanProcess) := by
  rcases receiveFromXenstored_ok hcall with ⟨hd, rfl, rfl⟩ | ⟨hd, u, cons, rfl, rfl, hstep⟩
  · have h0 := hs.1 hd
    exact ⟨_, Nat.min_le_left _ _, rfl, rfl, iff_of_true rfl (by omega), fun hn => by omega⟩
  -- the answer tells whether `cons` has moved
  have hmoved : ∀ {n}, n ≤ s.bytesAvail → cons = u32 (s.rspCons + n) →
      (decide (s.rspCons ≠ cons) = true ↔ 0 < n) := by
    intro n hn hcons
    rw [decide_eq_true_iff, hcons]
    refine ⟨fun hne => ?_, fun h0 => Ne.symm (u32_add_ne h h0 hn)⟩
    rcases Nat.eq_zero_or_pos n with rfl | h0
    · exact absurd (Nat.mod_eq_of_lt h.cons).symm hne
    · exact h0
  rcases hstep with ⟨a, hc, hstep⟩ | ⟨hc, hstep⟩
  · obtain ⟨payload, -, hle, hcons, hu⟩ := receivePayload_ok hstep
    have hn : s.payloadAvail (s.req a) ≤ s.bytesAvail := Nat.min_le_left _ _
    refine ⟨_, hn, by rw [hu]; rfl, hcons, hmoved hn hcons, fun h0 => ?_⟩
    -- no byte was taken: there was none, or the payload was complete
    rw [h0, Nat.add_zero, show u32 s.rspCons = s.rspCons from Nat.mod_eq_of_lt h.cons] at hcons
    subst hcons
    rw [hu, h0, Nat.add_zero]
    by_cases hl : (s.req a).replyPayloadReceived = (s.req a).replyHeader.len
    · simp only [Rx.CanProcess, Rx.setReq, hd, hl, ne_eq, not_true_eq_false, if_false, if_true]
      exact hs.2 hd a hc hl
    · rw [payloadAvail_eq h hc] at h0
      have havail : s.bytesAvail = 0 := by omega
      simp only [Rx.CanProcess, Rx.setReq, hd, hl, ne_eq, not_true_eq_false, if_false,
        Function.update_self]
      rintro (hp | hp)
      · exact absurd hp (by simpa [Rx.bytesAvail] using havail)
      · exact hp.elim
  · rcases receiveHeader_ok hstep with ⟨rfl, rfl, hnot⟩ | ⟨hr, hw, hcons, watches, rfl⟩ |
      ⟨hr, -, -, hcons, rfl⟩ | ⟨a, hr, -, -, hcons, rfl⟩
    · refine ⟨0, Nat.zero_le _, rfl, (Nat.mod_eq_of_lt h.cons).symm, by simp, fun _ => ?_⟩
      show ¬ u.CanProcess
      rw [Rx.CanProcess, if_neg (not_not.mpr hd)]
      simp only [hc]
      exact hnot
    · rw [Nat.add_assoc] at hcons
      exact ⟨_, hr.2 hw, rfl, hcons, hmoved (hr.2 hw) hcons, fun h0 => by simp at h0⟩
    · exact ⟨_, hr.1, rfl, hcons, hmoved hr.1 hcons, fun h0 => by cases h0⟩
    · exact ⟨_, hr.1, rfl, hcons, hmoved hr.1 hcons, fun h0 => by cases h0⟩

theorem receive_stuck (alloc : Bool) (h : s.Wf) (hd : s.consResponseDiscardBytes ≠ 0) (h0 : s.bytesAvail = 0) :
    s.receiveFromXenstored alloc = .ok (true, s) := by
  have hu : u32 s.rspCons = s.rspCons := Nat.mod_eq_of_lt h.cons
  rw [Rx.receiveFromXenstored, if_pos hd, h0]
  simp only [Nat.zero_min, Nat.add_zero, Nat.sub_zero, hu]

theorem answerOk_iff (h : s.Wf) : s.AnswerOk alloc ↔ s.Sound := by
  constructor
  · refine fun hok => ⟨fun hd => ?_, fun hd a hc hl hready => ?_⟩
    · by_contra h0
      rcases hok _ _ (receive_stuck alloc h hd (by omega)) with hne | ⟨a, h1, h2, -⟩
      · exact hne rfl
      · rw [h1] at h2
        cases h2
    · obtain ⟨t, hcall, h1, h2, h3, h4, h5⟩ := receive_complete alloc h hd hc hl
      refine hok _ _ hcall ?_
      simp only [Rx.CanProcess, h4, h5, ne_eq, not_true_eq_false, if_false]
      exact (headerReady_congr h1 h2 h3).mpr hready
  · intro hs b t hcall
    obtain ⟨n, hn, -, hcons, hb, hidle⟩ := receive_taken h hs hcall
    split
    · next hb' =>
      refine .inl ?_
      rw [hcons]
      exact u32_add_ne h (hb.mp hb') hn
    · next hb' => exact hidle (by by_contra h0; exact hb' (hb.mpr (by omega)))

end Call

/-! ## The loop of the DPC -/

/-- `while (receive_from_xenstored())`, from the call `k` on; `none` when it takes more than `fuel`
calls. `alloc k` tells whether the call can allocate. -/
def receiveLoop (alloc : Nat → Bool) : Nat → Nat → Rx → Option (Except Fault Rx)
  | 0, _, _ => none
  | fuel + 1, k, s =>
    match s.receiveFromXenstored (alloc k) with
    | .error e => some (.error e)
    | .ok (true, t) => receiveLoop alloc fuel (k + 1) t
    | .ok (false, t) => some (.ok t)

/-- The loop comes from the state `s` before the call `k` to the state `t`. -/
inductive Visits (alloc : Nat → Bool) : Nat → Rx → Rx → Prop where
  | refl (k : Nat) (s : Rx) : Visits alloc k s s
  | call {k : Nat} {s t u : Rx} : s.receiveFromXenstored (alloc k) = .ok (true, t) →
      Visits alloc (k + 1) t u → Visits alloc k s u

/-- The loop ends, and with nothing left to do. -/
def LoopOk (alloc : Nat → Bool) (k : Nat) (s : Rx) : Prop :=
  ∃ fuel r, receiveLoop alloc fuel k s = some r ∧ ∀ t, r = .ok t → ¬ t.CanProcess

section Loop

variable {s : Rx} {alloc : Nat → Bool} {k : Nat}

theorem loopOk_of_sound (h : s.Wf) (hs : ∀ t, Visits alloc k s t → t.Sound) :
    LoopOk alloc k s := by
  induction hn : s.bytesAvail using Nat.strongRecOn generalizing s k with
  | ind n ih =>
    have hsound := hs s (.refl k s)
    cases hcall : s.receiveFromXenstored (alloc k) with
    | error e => exact ⟨1, .error e, by simp [receiveLoop, hcall], nofun⟩
    | ok r =>
      obtain ⟨b, t⟩ := r
      obtain ⟨m, hm, hp, hc, hb, hidle⟩ := receive_taken h hsound hcall
      cases b with
      | false =>
        refine ⟨1, .ok t, by simp [receiveLoop, hcall], fun u hu => ?_⟩
        obtain rfl := Except.ok.inj hu
        exact hidle (by by_contra h0; exact absurd (hb.mpr (by omega)) (by decide))
      | true =>
        have h0 := hb.mp rfl
        have hlt : t.bytesAvail < n := by
          rw [bytesAvail_take hp hc hm]
          omega
        obtain ⟨fuel, r, hloop, hr⟩ := ih _ hlt (h.receive hcall)
          (fun u hu => hs u (.call hcall hu)) rfl
        exact ⟨fuel + 1, r, by simpa [receiveLoop, hcall] using hloop, hr⟩

theorem sound_of_loop {fuel : Nat} {r : Except Fault Rx} (h : s.Wf)
    (hloop : receiveLoop alloc fuel k s = some r) (hr : ∀ t, r = .ok t → ¬ t.CanProcess) :
    ∀ t, Visits alloc k s t → t.Sound := by
  induction fuel generalizing s k with
  | zero => cases hloop
  | succ fuel ih =>
    -- a state is sound when its call does not spin and answers right
    have hsound : s.AnswerOk (alloc k) → s.Sound := (answerOk_iff h).mp
    intro t hv
    rw [receiveLoop] at hloop
    cases hcall : s.receiveFromXenstored (alloc k) with
    | error e =>
      cases hv with
      | refl => exact hsound fun b t h' => by rw [hcall] at h'; cases h'
      | call h' => rw [hcall] at h'; cases h'
    | ok res =>
      obtain ⟨b, u⟩ := res
      rw [hcall] at hloop
      cases b with
      | false =>
        obtain rfl := Option.some.inj hloop
        cases hv with
        | refl =>
          refine hsound fun b t h' => ?_
          rw [hcall] at h'
          cases h'
          exact hr _ rfl
        | call h' => rw [hcall] at h'; cases h'
      | true =>
        have hu := ih (h.receive hcall) hloop
        cases hv with
        | refl =>
          refine ⟨fun hd => ?_, fun hd a hc hl hready => ?_⟩
          · by_contra h0
            have hstuck := receive_stuck (alloc k) h hd (by omega)
            rw [hcall] at hstuck
            cases hstuck
            exact h0 ((hu s (.refl _ s)).1 hd)
          · obtain ⟨t, hfalse, -⟩ := receive_complete (alloc k) h hd hc hl
            rw [hcall] at hfalse
            cases hfalse
        | call h' hv' =>
          rw [hcall] at h'
          cases h'
          exact hu t hv'

/-- A call's answer is right iff its state is sound, and the loop of the DPC ends with nothing left
to do iff every state it comes to is. -/
theorem receive_progress (h : s.Wf) (alloc : Nat → Bool) :
    (∀ b, s.AnswerOk b ↔ s.Sound) ∧
      (LoopOk alloc 0 s ↔ ∀ t, Visits alloc 0 s t → t.Sound) :=
  ⟨fun _ => answerOk_iff h, fun ⟨_, _, hloop, hr⟩ => sound_of_loop h hloop hr, loopOk_of_sound h⟩

/-- An empty ring and nothing under way. -/
theorem receive_progress_idle :
    (∀ b, (Rx.init 16 fun _ => []).AnswerOk b ↔ (Rx.init 16 fun _ => []).Sound) ∧
      (LoopOk (fun _ => true) 0 (Rx.init 16 fun _ => []) ↔
        ∀ t, Visits (fun _ => true) 0 (Rx.init 16 fun _ => []) t → t.Sound) :=
  receive_progress ⟨by decide, by decide, fun a ha => by cases ha⟩ fun _ => true

/-- Five bytes to throw away and an empty ring: the loop never ends. An empty reply that is not
marked complete, in front of another header: the loop ends before the header. -/
theorem receive_progress_fails :
    ¬ LoopOk (fun _ => true) 0
        { Rx.init 0 fun _ => [] with consResponseDiscardBytes := 5 } ∧
      ¬ LoopOk (fun _ => true) 0
        { Rx.init 0 fun _ => [] with rspProd := 16, pending := [0], currentRxReq := some 0 } := by
  constructor
  · rintro ⟨fuel, r, hloop, hr⟩
    have := (sound_of_loop ⟨by decide, by decide, fun a ha => by cases ha⟩ hloop hr _
      (.refl _ _)).1 (by decide)
    exact absurd this (by decide)
  · rintro ⟨fuel, r, hloop, hr⟩
    have hwf : Rx.Wf { Rx.init 0 fun _ => [] with
        rspProd := 16, pending := [0], currentRxReq := some 0 } :=
      ⟨by decide, by decide, fun a _ => ⟨Nat.le_refl _, (by decide : 0 < 4294967296)⟩⟩
    exact (sound_of_loop hwf hloop hr _ (.refl _ _)).2 rfl 0 rfl rfl ⟨by decide, by decide⟩

end Loop

end XcWindows.Xenbus.Receive
