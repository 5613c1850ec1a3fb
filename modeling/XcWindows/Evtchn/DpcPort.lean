import XcWindows.Lib.Machine

/-!
# A DPC event-channel port

`xenutil/evtchn.c`: the interrupt handler masks a pending DPC port and queues its DPC, the DPC
calls the port's handler until the pending bit stays clear and unmasks the port, and
`EvtchnPortStop` unhooks the port, waits for the interrupt handler and then for the DPC. The
interrupt handler and the DPC run on CPU 0: the DPC goes on only while no interrupt is being
handled. Xen sets the pending bit whenever it likes; other threads raise, unmask or stop the port,
any number of them at once.
-/

namespace XcWindows.Evtchn

open Lib
open Function (update update_of_ne update_self)

/-- Where `EvtchnHandleInterrupt` is, as far as this port is concerned. -/
inductive InterruptPc where
  | idle
  | top
  | exchange
  | readPending
  | readMask (pending : Bool)
  | lookup
  -- FireHandler
  | mask
  | insert
  | increment
  /-- no handler: `EvtchnClearEvtchn` -/
  | clear
  | exit
deriving DecidableEq

/-- Where `DpcPortDpcHandler` is. -/
inductive DpcPc where
  | none
  | test
  | handler
  | unmask
  | testBit
  | decrement
  | mask
deriving DecidableEq

/-- Where a call of `EvtchnPortStop` is. -/
inductive StopPc where
  | idle
  | acquire
  | close
  | unhook
  | synchronize
  | stopping
  | wait
  | clear
  | done
deriving DecidableEq

/-- Where a call of `EvtchnRaiseLocally` is. -/
inductive RaisePc where
  | idle
  | readMask
  | setMasked
  | readAgain
  | maskAgain
  | mask
  | set
  | unmask
deriving DecidableEq

/-- Where a call of `EvtchnPortUnmask` is. -/
inductive UnmaskPc where
  | idle
  | unmask
  | testAndClear
deriving DecidableEq

structure Port where
  /-- `class`: `EVTCHN_CLASS_ALIEN` rather than `EVTCHN_CLASS_INTERDOMAIN_DPC` -/
  alien : Bool
  -- shared with Xen
  evtchnPending : Bool
  evtchnMask : Bool
  evtchnUpcallPending : Bool
  evtchnPendingSel : Bool
  bound : Bool
  /-- `EventChannelHandlers` has the port -/
  hooked : Bool
  eventChannelLock : Bool
  interruptLive : Bool
  insertCount : Int
  stopping : Bool
  xenPort : Bool
  handler : Bool
  queued : Bool
  interrupt : InterruptPc
  dpc : DpcPc
  stop : Nat → StopPc
  raise : Nat → RaisePc
  unmask : Nat → UnmaskPc

inductive Act where
  /-- the remote domain sends an event -/
  | send
  /-- another port becomes pending -/
  | other
  | interrupt
  | startDpc
  | dpc
  | stop (i : Nat)
  | raise (i : Nat)
  | unmask (i : Nat)

namespace Port

variable (s : Port)

/-- Xen tells the domain about a pending port. -/
def upcall (yes : Bool) : Port :=
  { s with
    evtchnUpcallPending := s.evtchnUpcallPending || yes
    evtchnPendingSel := s.evtchnPendingSel || yes }

/-- The next step of `EvtchnHandleInterrupt`. -/
def interruptStep : Option Port :=
  match s.interrupt with
  | .idle => some { s with interruptLive := true, interrupt := .top }
  | .top =>
    some <|
      if s.evtchnUpcallPending then { s with evtchnUpcallPending := false, interrupt := .exchange }
      else { s with interrupt := .exit }
  | .exchange =>
    some { s with
      evtchnPendingSel := false
      interrupt := if s.evtchnPendingSel then .readPending else .top }
  | .readPending => some { s with interrupt := .readMask s.evtchnPending }
  | .readMask pending =>
    some { s with interrupt := if pending && !s.evtchnMask then .lookup else .top }
  | .lookup => some { s with interrupt := if s.hooked then .mask else .clear }
  | .mask => some { s with evtchnMask := true, interrupt := .insert }
  | .insert =>
    some <|
      if s.queued then { s with interrupt := .top }
      else { s with queued := true, interrupt := .increment }
  | .increment =>
    if s.stopping then none
    else some { s with insertCount := s.insertCount + 1, interrupt := .top }
  | .clear => some { s with evtchnPending := false, interrupt := .top }
  | .exit => some { s with interruptLive := false, interrupt := .idle }

/-- The next step of `DpcPortDpcHandler`. -/
def dpcStep : Option Port :=
  match s.dpc with
  | .none => none
  | .test =>
    some <|
      if s.evtchnPending then { s with evtchnPending := false, dpc := .handler }
      else { s with dpc := .unmask }
  | .handler => if s.handler then some { s with dpc := .test } else none
  | .unmask => some { s with evtchnMask := false, dpc := .testBit }
  | .testBit => some { s with dpc := if s.evtchnPending then .mask else .decrement }
  | .decrement => some { s with insertCount := s.insertCount - 1, dpc := .none }
  | .mask => some { s with evtchnMask := true, dpc := .test }

def setStop (i : Nat) (pc : StopPc) : Port := { s with stop := update s.stop i pc }

def setRaise (i : Nat) (pc : RaisePc) : Port := { s with raise := update s.raise i pc }

def setUnmask (i : Nat) (pc : UnmaskPc) : Port := { s with unmask := update s.unmask i pc }

/-- The next step of `EvtchnPortStop`. -/
def stopStep (i : Nat) : Option Port :=
  match s.stop i with
  | .idle => some (s.setStop i .acquire)
  | .acquire =>
    some <|
      if s.eventChannelLock then s
      else { s.setStop i (if s.hooked then .close else .unhook) with eventChannelLock := true }
  -- EVTCHNOP_close
  | .close => some { s.setStop i .unhook with bound := false }
  | .unhook => some { s.setStop i .synchronize with hooked := false, eventChannelLock := false }
  | .synchronize => some (if s.interruptLive then s else s.setStop i .stopping)
  | .stopping => some { s.setStop i .wait with stopping := true }
  | .wait => some (if s.insertCount ≠ 0 then s else s.setStop i .clear)
  | .clear => some { s.setStop i .done with xenPort := false, handler := false }
  | .done => none

/-- The next step of `EvtchnRaiseLocally`; Xen refuses to unmask a closed port. -/
def raiseStep (i : Nat) : Port :=
  match s.raise i with
  | .idle => if s.xenPort then s.setRaise i .readMask else s
  | .readMask => s.setRaise i (if s.evtchnMask then .setMasked else .mask)
  | .setMasked => { s.setRaise i .readAgain with evtchnPending := true }
  | .readAgain => s.setRaise i (if s.evtchnMask then .idle else .maskAgain)
  | .maskAgain => { s.setRaise i .unmask with evtchnMask := true }
  | .mask => { s.setRaise i .set with evtchnMask := true }
  | .set => { s.setRaise i .unmask with evtchnPending := true }
  | .unmask =>
    if s.bound then { (s.upcall s.evtchnPending).setRaise i .idle with evtchnMask := false }
    else s.setRaise i .idle

/-- The next step of `EvtchnPortUnmask`, which asserts that the port is not `INTERDOMAIN_DPC`. -/
def unmaskStep (i : Nat) : Option Port :=
  match s.unmask i with
  | .idle =>
    if s.alien then some (if s.xenPort then s.setUnmask i .unmask else s) else none
  | .unmask => some { s.setUnmask i .testAndClear with evtchnMask := false }
  | .testAndClear => some { s.setUnmask i .idle with evtchnPending := false }

/-- On CPU 0 the interrupt handler holds the DPC up. -/
def step : Act → Option Port
  | .send => some { s.upcall (!s.evtchnMask) with evtchnPending := true }
  | .other => some (s.upcall true)
  | .interrupt => s.interruptStep
  | .startDpc =>
    if s.interrupt = .idle ∧ s.dpc = .none ∧ s.queued = true then
      some { s with queued := false, dpc := .test }
    else none
  | .dpc => if s.interrupt = .idle then s.dpcStep else none
  | .stop i => s.stopStep i
  | .raise i => some (s.raiseStep i)
  | .unmask i => s.unmaskStep i

end Port

/-- A port that `register_handler` has just hooked and unmasked. -/
def dpcPort (alien : Bool) : Machine Port Act where
  init :=
    { alien
      evtchnPending := false
      evtchnMask := false
      evtchnUpcallPending := false
      evtchnPendingSel := false
      bound := true
      hooked := true
      eventChannelLock := false
      interruptLive := false
      insertCount := 0
      stopping := false
      xenPort := true
      handler := true
      queued := false
      interrupt := .idle
      dpc := .none
      stop := fun _ => .idle
      raise := fun _ => .idle
      unmask := fun _ => .idle }
  step := Port.step

/-! ## The invariant -/

/-- The interrupt handler has a pointer to the port. -/
def InterruptPc.holds : InterruptPc → Bool
  | .mask | .insert | .increment => true
  | _ => false

/-- The DPC is going to look at the pending bit again before it unmasks the port. -/
def DpcPc.minds : DpcPc → Bool
  | .test | .handler | .unmask | .mask => true
  | .none | .testBit | .decrement => false

/-- The raise is going to ask Xen to unmask the port. -/
def RaisePc.minds : RaisePc → Bool
  | .set | .unmask => true
  | _ => false

/-- `EvtchnPortStop` has unhooked the port. -/
def StopPc.unhooked : StopPc → Bool
  | .synchronize | .stopping | .wait | .clear | .done => true
  | .idle | .acquire | .close | .unhook => false

/-- `EvtchnPortStop` has waited for the interrupt handler. -/
def StopPc.synchronized : StopPc → Bool
  | .stopping | .wait | .clear | .done => true
  | .idle | .acquire | .close | .unhook | .synchronize => false

/-- `EvtchnPortStop` has waited for the DPC. -/
def StopPc.drained : StopPc → Bool
  | .clear | .done => true
  | .idle | .acquire | .close | .unhook | .synchronize | .stopping | .wait => false

/-- Somebody is going to unmask the port and to look at what was pending. -/
def Minded (s : Port) : Prop :=
  s.queued = true ∨ s.dpc.minds = true ∨ s.interrupt = .insert ∨ ∃ i, (s.raise i).minds = true

structure PortOk (s : Port) : Prop where
  count : s.insertCount + (if s.interrupt = .increment then 1 else 0) =
    (if s.queued then 1 else 0) + if s.dpc = .none then 0 else 1
  minded : s.bound = true → s.evtchnMask = true → Minded s
  live : s.interrupt ≠ .idle → s.interruptLive = true
  unhooked : ∀ i, (s.stop i).unhooked = true → s.hooked = false
  synchronized : ∀ i, (s.stop i).synchronized = true → s.interrupt.holds = false
  drained : ∀ i, (s.stop i).drained = true → s.queued = false ∧ s.dpc = .none
  stops : s.stopping = true → s.hooked = false ∧ s.interrupt.holds = false

section Steps

variable {s t : Port}

theorem Minded.keep (h : Minded s) (hq : t.queued = s.queued) (hd : t.dpc = s.dpc)
    (hr : t.raise = s.raise) (hi : s.interrupt = .insert → t.interrupt = .insert) : Minded t := by
  rcases h with h | h | h | h
  · exact .inl (hq.trans h)
  · exact .inr (.inl (by rw [hd]; exact h))
  · exact .inr (.inr (.inl (hi h)))
  · exact .inr (.inr (.inr (by rw [hr]; exact h)))

theorem PortOk.scan {pc : InterruptPc} {live pending upcall sel : Bool} (h : PortOk s)
    (h1 : s.interrupt ≠ .insert) (h2 : s.interrupt ≠ .increment) (hpc : pc.holds = false)
    (hl : pc ≠ .idle → live = true) :
    PortOk { s with
      evtchnPending := pending
      evtchnUpcallPending := upcall
      evtchnPendingSel := sel
      interruptLive := live
      interrupt := pc } := by
  refine ⟨?_, fun hh hm => ?_, hl, h.unhooked, fun _ _ => hpc, h.drained, fun hst => ⟨(h.stops hst).1, hpc⟩⟩
  · have hne : pc ≠ .increment := by rintro rfl; cases hpc
    have hc := h.count
    rw [if_neg h2] at hc
    rw [if_neg hne]
    exact hc
  · exact (h.minded hh hm).keep rfl rfl rfl fun e => absurd e h1

theorem PortOk.fire (h : PortOk s) (hs : s.interruptStep = some t)
    (hi : s.interrupt = .lookup ∧ s.hooked = true ∨ s.interrupt.holds = true) : PortOk t := by
  -- nobody has waited for the interrupt handler yet
  have hns : ∀ i, (s.stop i).synchronized ≠ true := by
    intro i hsy
    rcases hi with ⟨-, hh⟩ | hi
    · have : (s.stop i).unhooked = true := by
        cases hp : s.stop i <;> rw [hp] at hsy <;> first | rfl | cases hsy
      rw [h.unhooked i this] at hh
      cases hh
    · rw [h.synchronized i hsy] at hi
      cases hi
  have hnd : ∀ i, (s.stop i).drained ≠ true := by
    intro i hd
    apply hns i
    cases hp : s.stop i <;> rw [hp] at hd <;> first | rfl | cases hd
  have hnst : s.stopping ≠ true := by
    intro hst
    obtain ⟨h1, h2⟩ := h.stops hst
    rcases hi with ⟨-, hh⟩ | hi
    · rw [h1] at hh; cases hh
    · rw [h2] at hi; cases hi
  have hlive : s.interruptLive = true := by
    apply h.live
    rintro e
    rcases hi with ⟨hi, -⟩ | hi
    · rw [e] at hi; cases hi
    · rw [e] at hi; cases hi
  have hc := h.count
  have hne : ∀ pc, s.interrupt = pc → pc ≠ .insert → s.interrupt = .insert → False :=
    fun _ e hn e' => hn (e.symm.trans e')
  unfold Port.interruptStep at hs
  cases hpc : s.interrupt with
  | lookup =>
    have hh : s.hooked = true := by
      rcases hi with ⟨-, hh⟩ | hi
      · exact hh
      · rw [hpc] at hi; cases hi
    rw [hpc, if_neg (by simp)] at hc
    simp only [hpc] at hs
    rw [if_pos hh] at hs
    cases hs
    exact ⟨hc, fun hb hm => (h.minded hb hm).keep rfl rfl rfl fun e => (hne _ hpc (by simp) e).elim,
      fun _ => hlive, h.unhooked, fun i hsy => absurd hsy (hns i), h.drained,
      fun hst => absurd hst hnst⟩
  | mask =>
    rw [hpc, if_neg (by simp)] at hc
    simp only [hpc] at hs
    cases hs
    exact ⟨hc, fun _ _ => .inr (.inr (.inl rfl)), fun _ => hlive, h.unhooked,
      fun i hsy => absurd hsy (hns i), h.drained, fun hst => absurd hst hnst⟩
  | insert =>
    rw [hpc, if_neg (by simp)] at hc
    simp only [hpc] at hs
    by_cases hq : s.queued = true
    · rw [if_pos hq] at hs
      cases hs
      exact ⟨hc, fun _ _ => .inl hq, fun _ => hlive, h.unhooked, fun i hsy => absurd hsy (hns i),
        h.drained, fun hst => absurd hst hnst⟩
    · rw [if_neg hq] at hs hc
      cases hs
      refine ⟨?_, fun _ _ => .inl rfl, fun _ => hlive, h.unhooked, fun i hsy => absurd hsy (hns i),
        fun i hd => absurd hd (hnd i), fun hst => absurd hst hnst⟩
      simp only [if_true]
      omega
  | increment =>
    rw [hpc, if_pos rfl] at hc
    simp only [hpc] at hs
    rw [if_neg hnst] at hs
    cases hs
    refine ⟨?_, fun hb hm => (h.minded hb hm).keep rfl rfl rfl fun e => (hne _ hpc (by simp) e).elim,
      fun _ => hlive, h.unhooked, fun i hsy => absurd hsy (hns i), h.drained,
      fun hst => absurd hst hnst⟩
    rw [if_neg (by simp)]
    dsimp only
    omega
  | _ =>
    rw [hpc] at hi
    rcases hi with ⟨hi, -⟩ | hi <;> cases hi

theorem PortOk.interrupt (h : PortOk s) (hs : s.interruptStep = some t) : PortOk t := by
  by_cases hf : s.interrupt = .lookup ∧ s.hooked = true ∨ s.interrupt.holds = true
  · exact h.fire hs hf
  have h1 : s.interrupt ≠ .insert := by
    intro e; rw [e] at hf; exact hf (.inr rfl)
  have h2 : s.interrupt ≠ .increment := by
    intro e; rw [e] at hf; exact hf (.inr rfl)
  have hlive : ∀ {pc}, s.interrupt = pc → pc ≠ .idle → s.interruptLive = true := by
    intro pc e hn
    apply h.live
    rw [e]
    exact hn
  unfold Port.interruptStep at hs
  cases hi : s.interrupt with
  | mask | insert | increment => rw [hi] at hf; exact absurd (.inr rfl) hf
  | idle =>
    simp only [hi] at hs
    cases hs
    exact h.scan h1 h2 rfl fun _ => rfl
  | top =>
    simp only [hi] at hs
    split at hs <;> cases hs <;> exact h.scan h1 h2 rfl fun _ => hlive hi (by simp)
  | exchange =>
    simp only [hi] at hs
    cases hs
    refine h.scan h1 h2 ?_ fun _ => hlive hi (by simp)
    split <;> rfl
  | readPending | clear =>
    simp only [hi] at hs
    cases hs
    exact h.scan h1 h2 rfl fun _ => hlive hi (by simp)
  | readMask pending =>
    simp only [hi] at hs
    cases hs
    refine h.scan h1 h2 ?_ fun _ => hlive hi (by simp)
    split <;> rfl
  | lookup =>
    have hh : s.hooked ≠ true := fun hh => hf (.inl ⟨hi, hh⟩)
    simp only [hi] at hs
    rw [if_neg hh] at hs
    cases hs
    exact h.scan h1 h2 rfl fun _ => hlive hi (by simp)
  | exit =>
    simp only [hi] at hs
    cases hs
    exact h.scan h1 h2 rfl fun e => absurd rfl e

theorem PortOk.startDpc (h : PortOk s) (hd : s.dpc = .none) (hq : s.queued = true) :
    PortOk { s with queued := false, dpc := .test } := by
  refine ⟨?_, fun _ _ => .inr (.inl rfl), h.live, h.unhooked, h.synchronized, fun i hdr => ?_,
    h.stops⟩
  · have hc := h.count
    rw [hd, hq] at hc
    exact hc
  · rw [(h.drained i hdr).1] at hq
    cases hq

theorem PortOk.handle {pc : DpcPc} {pending mask : Bool} (h : PortOk s) (hd : s.dpc ≠ .none)
    (hpc : pc ≠ .none)
    (hm : mask = true → pc.minds = true ∨ s.evtchnMask = true ∧ s.dpc.minds = false) :
    PortOk { s with evtchnPending := pending, evtchnMask := mask, dpc := pc } := by
  refine ⟨?_, fun hb hk => ?_, h.live, h.unhooked, h.synchronized, fun i hdr => ?_, h.stops⟩
  · have hc := h.count
    rw [if_neg hd] at hc
    rw [if_neg hpc]
    exact hc
  · rcases hm hk with hm | ⟨hm, hn⟩
    · exact .inr (.inl hm)
    · rcases h.minded hb hm with h | h | h | h
      · exact .inl h
      · rw [hn] at h; cases h
      · exact .inr (.inr (.inl h))
      · exact .inr (.inr (.inr h))
  · exact absurd (h.drained i hdr).2 hd

theorem PortOk.dpc (h : PortOk s) (hs : s.dpcStep = some t) : PortOk t := by
  have hne : ∀ {pc}, s.dpc = pc → pc ≠ .none → s.dpc ≠ .none := fun e hn => by rw [e]; exact hn
  unfold Port.dpcStep at hs
  cases hd : s.dpc with
  | none => simp only [hd] at hs; cases hs
  | test =>
    simp only [hd] at hs
    split at hs <;> cases hs <;>
      exact h.handle (hne hd (by simp)) (by simp) fun _ => .inl rfl
  | handler =>
    simp only [hd] at hs
    split at hs
    · cases hs
      exact h.handle (hne hd (by simp)) (by simp) fun _ => .inl rfl
    · cases hs
  | unmask =>
    simp only [hd] at hs
    cases hs
    exact h.handle (hne hd (by simp)) (by simp) (by simp)
  | testBit =>
    simp only [hd] at hs
    cases hs
    refine h.handle (hne hd (by simp)) (by split <;> simp) fun hm => .inr ⟨hm, by rw [hd]; rfl⟩
  | mask =>
    simp only [hd] at hs
    cases hs
    exact h.handle (hne hd (by simp)) (by simp) fun _ => .inl rfl
  | decrement =>
    simp only [hd] at hs
    cases hs
    refine ⟨?_, fun hb hk => ?_, h.live, h.unhooked, h.synchronized, fun i hdr => ?_, h.stops⟩
    · have hc := h.count
      rw [hd] at hc
      simp only [reduceCtorEq, if_false, if_true] at hc ⊢
      omega
    · rcases h.minded hb hk with h | h | h | h
      · exact .inl h
      · rw [hd] at h; cases h
      · exact .inr (.inr (.inl h))
      · exact .inr (.inr (.inr h))
    · rw [(h.drained i hdr).2] at hd
      cases hd

theorem PortOk.setStop {i : Nat} {pc : StopPc} (h : PortOk s)
    (h1 : pc.unhooked = true → s.hooked = false)
    (h2 : pc.synchronized = true → s.interrupt.holds = false)
    (h3 : pc.drained = true → s.queued = false ∧ s.dpc = .none) : PortOk (s.setStop i pc) := by
  refine ⟨h.count, h.minded, h.live, fun j hj => ?_, fun j hj => ?_, fun j hj => ?_, h.stops⟩
  all_goals
    simp only [Port.setStop] at hj
    by_cases e : j = i
    · subst e
      rw [update_self] at hj
      first | exact h1 hj | exact h2 hj | exact h3 hj
    · rw [update_of_ne e] at hj
      first | exact h.unhooked j hj | exact h.synchronized j hj | exact h.drained j hj

theorem PortOk.stop {i : Nat} (h : PortOk s) (hs : s.stopStep i = some t) : PortOk t := by
  unfold Port.stopStep at hs
  cases hp : s.stop i with
  | done => simp only [hp] at hs; cases hs
  | idle =>
    simp only [hp] at hs
    cases hs
    exact h.setStop (by simp [StopPc.unhooked]) (by simp [StopPc.synchronized])
      (by simp [StopPc.drained])
  | acquire =>
    simp only [hp] at hs
    split at hs
    · cases hs
      exact h
    · cases hs
      have h' : PortOk (s.setStop i (if s.hooked then .close else .unhook)) := by
        split <;>
          exact h.setStop (by simp [StopPc.unhooked]) (by simp [StopPc.synchronized])
            (by simp [StopPc.drained])
      exact ⟨h'.count, h'.minded, h'.live, h'.unhooked, h'.synchronized, h'.drained, h'.stops⟩
  | close =>
    simp only [hp] at hs
    cases hs
    have h' : PortOk (s.setStop i .unhook) :=
      h.setStop (by simp [StopPc.unhooked]) (by simp [StopPc.synchronized])
        (by simp [StopPc.drained])
    exact ⟨h'.count, fun hb => absurd hb (by simp), h'.live, h'.unhooked, h'.synchronized,
      h'.drained, h'.stops⟩
  | unhook =>
    simp only [hp] at hs
    cases hs
    have h0 : PortOk { s with hooked := false, eventChannelLock := false } :=
      ⟨h.count, h.minded, h.live, fun _ _ => rfl, h.synchronized, h.drained,
        fun hst => ⟨rfl, (h.stops hst).2⟩⟩
    exact h0.setStop (fun _ => rfl) (by simp [StopPc.synchronized]) (by simp [StopPc.drained])
  | synchronize =>
    simp only [hp] at hs
    split at hs
    · cases hs
      exact h
    · next hl =>
      cases hs
      -- no interrupt is being handled, so nobody has a pointer to the port
      have hi : s.interrupt = .idle := by
        by_contra hne
        exact hl (h.live hne)
      exact h.setStop (fun _ => h.unhooked i (by rw [hp]; rfl)) (fun _ => by rw [hi]; rfl)
        (by simp [StopPc.drained])
  | stopping =>
    simp only [hp] at hs
    cases hs
    have hu := h.unhooked i (by rw [hp]; rfl)
    have hy := h.synchronized i (by rw [hp]; rfl)
    have h' : PortOk (s.setStop i .wait) :=
      h.setStop (fun _ => hu) (fun _ => hy) (by simp [StopPc.drained])
    exact ⟨h'.count, h'.minded, h'.live, h'.unhooked, h'.synchronized, h'.drained,
      fun _ => ⟨hu, hy⟩⟩
  | wait =>
    simp only [hp] at hs
    split at hs
    · cases hs
      exact h
    · next hz =>
      cases hs
      have hu := h.unhooked i (by rw [hp]; rfl)
      have hy := h.synchronized i (by rw [hp]; rfl)
      refine h.setStop (fun _ => hu) (fun _ => hy) fun _ => ?_
      have hne : s.interrupt ≠ .increment := by
        intro e
        rw [e] at hy
        cases hy
      have hc := h.count
      rw [if_neg hne, not_not.mp hz] at hc
      by_cases hq : s.queued = true
      · rw [if_pos hq] at hc
        split at hc <;> omega
      · rw [if_neg hq] at hc
        by_cases hd : s.dpc = .none
        · exact ⟨by simpa using hq, hd⟩
        · rw [if_neg hd] at hc
          omega
  | clear =>
    simp only [hp] at hs
    cases hs
    have h' : PortOk (s.setStop i .done) :=
      h.setStop (fun _ => h.unhooked i (by rw [hp]; rfl))
        (fun _ => h.synchronized i (by rw [hp]; rfl)) fun _ => h.drained i (by rw [hp]; rfl)
    exact ⟨h'.count, h'.minded, h'.live, h'.unhooked, h'.synchronized, h'.drained, h'.stops⟩

theorem PortOk.setRaise {i : Nat} {pc : RaisePc} {pending mask upcall sel : Bool} (h : PortOk s)
    (hm : s.bound = true → mask = true →
      pc.minds = true ∨ s.evtchnMask = true ∧ (s.raise i).minds = false) :
    PortOk { s.setRaise i pc with
      evtchnPending := pending
      evtchnMask := mask
      evtchnUpcallPending := upcall
      evtchnPendingSel := sel } := by
  refine ⟨h.count, fun hb hk => ?_, h.live, h.unhooked, h.synchronized, h.drained, h.stops⟩
  rcases hm hb hk with hm | ⟨hm, hn⟩
  · refine .inr (.inr (.inr ⟨i, ?_⟩))
    show (update s.raise i pc i).minds = true
    rw [update_self]
    exact hm
  · rcases h.minded hb hm with h | h | h | ⟨j, hj⟩
    · exact .inl h
    · exact .inr (.inl h)
    · exact .inr (.inr (.inl h))
    · refine .inr (.inr (.inr ⟨j, ?_⟩))
      have hne : j ≠ i := by
        rintro rfl
        rw [hn] at hj
        cases hj
      show (update s.raise i pc j).minds = true
      rw [update_of_ne hne]
      exact hj

theorem PortOk.raise (h : PortOk s) (i : Nat) : PortOk (s.raiseStep i) := by
  have hn : ∀ {pc}, s.raise i = pc → pc.minds = false → (s.raise i).minds = false :=
    fun e hn => by rw [e]; exact hn
  unfold Port.raiseStep
  cases hp : s.raise i with
  | idle =>
    dsimp only
    split
    · exact h.setRaise fun _ hm => .inr ⟨hm, hn hp rfl⟩
    · exact h
  | readMask | readAgain => exact h.setRaise fun _ hm => .inr ⟨hm, hn hp rfl⟩
  | setMasked => exact h.setRaise fun _ hm => .inr ⟨hm, hn hp rfl⟩
  | maskAgain | mask | set => exact h.setRaise fun _ _ => .inl rfl
  | unmask =>
    dsimp only
    split
    · exact h.setRaise fun _ hm => absurd hm (by simp)
    · next hb => exact h.setRaise fun hb' _ => absurd hb' hb

theorem PortOk.shared {pending mask upcall sel : Bool} {unmask : Nat → UnmaskPc} (h : PortOk s)
    (hm : mask = true → s.evtchnMask = true) :
    PortOk { s with
      evtchnPending := pending
      evtchnMask := mask
      evtchnUpcallPending := upcall
      evtchnPendingSel := sel
      unmask := unmask } :=
  ⟨h.count, fun hb hk => (h.minded hb (hm hk)).keep rfl rfl rfl id, h.live, h.unhooked,
    h.synchronized, h.drained, h.stops⟩

theorem PortOk.unmask {i : Nat} (h : PortOk s) (hs : s.unmaskStep i = some t) : PortOk t := by
  unfold Port.unmaskStep at hs
  cases hp : s.unmask i with
  | idle =>
    simp only [hp] at hs
    split at hs
    · cases hs
      split
      · exact h.shared id
      · exact h
    · cases hs
  | unmask =>
    simp only [hp] at hs
    cases hs
    exact h.shared (by simp)
  | testAndClear =>
    simp only [hp] at hs
    cases hs
    exact h.shared id

theorem PortOk.step {a : Act} (h : PortOk s) (hs : s.step a = some t) : PortOk t := by
  cases a with
  | send => cases hs; exact h.shared id
  | other => cases hs; exact h.shared id
  | interrupt => exact h.interrupt hs
  | startDpc =>
    simp only [Port.step] at hs
    split at hs
    · next hc =>
      cases hs
      exact h.startDpc hc.2.1 hc.2.2
    · cases hs
  | dpc =>
    simp only [Port.step] at hs
    split at hs
    · exact h.dpc hs
    · cases hs
  | stop i => exact h.stop hs
  | raise i => cases hs; exact h.raise i
  | unmask i => exact h.unmask hs

theorem portOk_init (alien : Bool) : PortOk (dpcPort alien).init :=
  ⟨rfl, fun _ hm => absurd hm (by simp [dpcPort]), fun h => absurd rfl h,
    fun _ h => absurd h (by simp [dpcPort, StopPc.unhooked]),
    fun _ h => absurd h (by simp [dpcPort, StopPc.synchronized]),
    fun _ h => absurd h (by simp [dpcPort, StopPc.drained]),
    fun h => absurd h (by simp [dpcPort])⟩

end Steps

theorem portOk_reach {alien : Bool} {s : Port} (h : Machine.Reach (dpcPort alien) Machine.Any s) :
    PortOk s :=
  h.inv (portOk_init alien) fun _ _ _ hi _ hs => hi.step hs

/-! ## Runs of the port -/

theorem stop_done_step {s t : Port} {a : Act} {i : Nat} (hd : s.stop i = .done)
    (hs : s.step a = some t) : t.stop i = .done := by
  cases a with
  | send | other => cases hs; exact hd
  | interrupt =>
    simp only [Port.step, Port.interruptStep] at hs
    split at hs <;> try split at hs
    all_goals cases hs
    all_goals exact hd
  | startDpc =>
    simp only [Port.step] at hs
    split at hs <;> cases hs
    exact hd
  | dpc =>
    simp only [Port.step, Port.dpcStep] at hs
    split at hs
    · split at hs <;> try split at hs
      all_goals cases hs
      all_goals exact hd
    · cases hs
  | stop j =>
    simp only [Port.step] at hs
    by_cases e : i = j
    · subst e
      simp only [Port.stopStep, hd] at hs
      cases hs
    · have hu : ∀ pc, update s.stop j pc i = .done := fun pc => by
        rw [update_of_ne e]
        exact hd
      simp only [Port.stopStep, Port.setStop] at hs
      split at hs <;> cases hs
      all_goals first | exact hu _ | split <;> first | exact hu _ | exact hd
  | raise j =>
    cases hs
    simp only [Port.raiseStep]
    split <;> first | exact hd | split <;> exact hd
  | unmask j =>
    simp only [Port.step, Port.unmaskStep] at hs
    split at hs <;> try split at hs
    all_goals cases hs
    all_goals first | exact hd | split <;> exact hd

/-- A raise has masked the port and not yet asked Xen to unmask it. -/
def Raising (s : Port) : Prop := ∃ i, (s.raise i).minds = true

/-- For every interleaving: the insert count is the number of DPCs queued and running, but for the
one that `FireHandler` has queued and not yet counted; a bound port that is pending and masked has
its DPC queued or running, but for `FireHandler` between masking it and queueing the DPC and for a
raise between masking it and asking Xen to unmask it; once a call of `EvtchnPortStop` has returned
neither the interrupt handler nor the DPC has or can find the port, and it stays so. -/
theorem dpc_port (alien : Bool) {s : Port} (h : Machine.Reach (dpcPort alien) Machine.Any s) :
    (s.insertCount + (if s.interrupt = .increment then 1 else 0) =
      (if s.queued then 1 else 0) + if s.dpc = .none then 0 else 1) ∧
    (s.bound = true → s.evtchnPending = true → s.evtchnMask = true →
      (s.queued = true ∨ s.dpc ≠ .none) ∨ s.interrupt = .insert ∨ Raising s) ∧
    ∀ i, s.stop i = .done →
      (s.hooked = false ∧ s.interrupt.holds = false ∧ s.queued = false ∧ s.dpc = .none) ∧
      ∀ a t, s.step a = some t → t.stop i = .done := by
  have ho := portOk_reach h
  refine ⟨ho.count, fun hb _ hm => ?_, fun i hd => ?_⟩
  · rcases ho.minded hb hm with h | h | h | h
    · exact .inl (.inl h)
    · refine .inl (.inr ?_)
      intro e
      rw [e] at h
      cases h
    · exact .inr (.inl h)
    · exact .inr (.inr h)
  · have hp := ho.drained i (by rw [hd]; rfl)
    refine ⟨⟨ho.unhooked i (by rw [hd]; rfl), ho.synchronized i (by rw [hd]; rfl), hp.1, hp.2⟩, ?_⟩
    exact fun a t hs => stop_done_step hd hs

/-- An event is handled and the port is stopped. -/
theorem dpc_port_run :
    ∃ s, Machine.Reach (dpcPort false) Machine.Any s ∧ s.stop 0 = .done ∧
      s.hooked = false ∧ s.interrupt.holds = false ∧ s.queued = false ∧ s.dpc = .none := by
  obtain ⟨s, hr, hd⟩ :=
    Machine.exists_reach (dpcPort false) Machine.Any (fun s => decide (s.stop 0 = .done))
      (List.flatten
        [[.send], .replicate 9 .interrupt, .replicate 4 (.stop 0),
          .replicate 2 .interrupt, [.stop 0, .stop 0, .startDpc], .replicate 6 .dpc, [.stop 0, .stop 0]])
      (by decide +kernel)
  have hd := of_decide_eq_true hd
  exact ⟨s, hr, hd, ((dpc_port false hr).2.2 0 hd).1⟩

/-- The interrupt handler has queued the DPC and not counted it; a raise has the port masked and
pending, and no DPC is queued or running. -/
theorem dpc_port_windows :
    (∃ s, Machine.Reach (dpcPort false) Machine.Any s ∧
      s.insertCount ≠ (if s.queued then 1 else 0) + if s.dpc = .none then 0 else 1) ∧
    ∃ s, Machine.Reach (dpcPort false) Machine.Any s ∧ s.evtchnPending = true ∧
      s.evtchnMask = true ∧ s.queued = false ∧ s.dpc = .none := by
  constructor
  · obtain ⟨s, hr, hd⟩ :=
      Machine.exists_reach (dpcPort false) Machine.Any
        (fun s => decide
          (s.insertCount ≠ (if s.queued then 1 else 0) + if s.dpc = .none then 0 else 1))
        (.send :: .replicate 8 .interrupt) (by decide +kernel)
    exact ⟨s, hr, of_decide_eq_true hd⟩
  · obtain ⟨s, hr, hd⟩ :=
      Machine.exists_reach (dpcPort false) Machine.Any
        (fun s => decide (s.evtchnPending = true ∧ s.evtchnMask = true ∧ s.queued = false ∧
          s.dpc = .none))
        (.replicate 4 (.raise 0)) (by decide +kernel)
    exact ⟨s, hr, of_decide_eq_true hd⟩

end XcWindows.Evtchn
