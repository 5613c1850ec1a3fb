import XcWindows.Lib.Machine

/-!
# The wakeup ioctl

`wakeup_scsiport`, `restart_thread`, `send_wakeup`, `send_scsiport_ioctl` and `complete_wakeup` of
`scsifilt/scsifilt.c`: a request is noted in `need_wakeup`, the restart thread turns the note into
`wakeup_pending` and sends an ioctl, whose completion clears it. What can fail before the ioctl is issued
leaves `wakeup_pending` behind: nobody looks at the result of `send_scsiport_ioctl`. From then on every
request is suppressed (`stuck_suppresses`).

One action is a critical section of `wakeup_lock` or one of the calls that may fail. The other work of the
thread, and the tag with which a failed `IoAllocateIrp` gives the remove lock back, are left out.
-/

namespace XcWindows.Scsifilt.WakeupIoctl

open XcWindows.Lib

/-- `XENVBD_IOCTL_SIGNATURE`, with its terminator. -/
def xenvbdIoctlSignature : List Nat := [99, 116, 120, 120, 118, 98, 100, 0]

/-- `SRB_IO_CONTROL`, of which the completion reads only `Signature`. -/
structure SrbIoControl where
  signature : List Nat
deriving DecidableEq

/-- Where `restart_thread` is in a turn: it waits, or it is in `send_wakeup` before the call named. -/
inductive Pc where
  | waiting
  | allocateIoctl
  | allocateCtxt (ioctl : SrbIoControl)
  | acquireRemoveLock (ioctl : SrbIoControl)
  | allocateIrp (ioctl : SrbIoControl)
  | callDriver (ioctl : SrbIoControl)
deriving DecidableEq

structure State where
  /-- `sizeof(XENVBD_IOCTL_SIGNATURE)`, which is that of a pointer. -/
  pointerSize : Nat
  needWakeup : Bool
  wakeupPending : Bool
  event : Bool
  pc : Pc
  /-- The ioctls that the lower driver has. -/
  outstanding : List SrbIoControl
  assertFailed : Bool
deriving DecidableEq

inductive Action where
  | wakeup
  /-- Somebody else sets the event of the thread. -/
  | kick
  /-- The thread goes on; `ok` is the result of what it calls. -/
  | thread (ok : Bool)
  /-- The lower driver completes the first ioctl, `complete_scsiport_ioctl`. -/
  | complete

/-- The header as `send_wakeup` fills it in. -/
def wakeupIoctl (pointerSize : Nat) : SrbIoControl :=
  ⟨xenvbdIoctlSignature.take pointerSize ++ List.replicate (8 - pointerSize) 0⟩

def wakeupScsiport (s : State) : State :=
  if s.needWakeup || s.wakeupPending then s else { s with needWakeup := true, event := true }

/-- The critical section of `restart_thread`. -/
def restartThread (s : State) : State :=
  if s.needWakeup then
    { s with
      needWakeup := false
      assertFailed := s.assertFailed || s.wakeupPending
      wakeupPending := true
      pc := .allocateIoctl }
  else s

/-- One call of `send_wakeup` and `send_scsiport_ioctl`; a failure ends the turn. -/
def sendWakeup (s : State) (ok : Bool) : State :=
  match s.pc with
  | .waiting => s
  | .allocateIoctl =>
    { s with pc := if ok then .allocateCtxt (wakeupIoctl s.pointerSize) else .waiting }
  | .allocateCtxt ioctl => { s with pc := if ok then .acquireRemoveLock ioctl else .waiting }
  | .acquireRemoveLock ioctl => { s with pc := if ok then .allocateIrp ioctl else .waiting }
  | .allocateIrp ioctl => { s with pc := if ok then .callDriver ioctl else .waiting }
  | .callDriver ioctl => { s with outstanding := s.outstanding ++ [ioctl], pc := .waiting }

def completeWakeup (s : State) (ioctl : SrbIoControl) (rest : List SrbIoControl) : State :=
  { s with
    assertFailed := s.assertFailed ||
      decide (ioctl.signature.take s.pointerSize ≠ xenvbdIoctlSignature.take s.pointerSize) ||
      !s.wakeupPending
    wakeupPending := false
    outstanding := rest }

def step (s : State) : Action → Option State
  | .wakeup => some (wakeupScsiport s)
  | .kick => some { s with event := true }
  | .thread ok =>
    if s.pc ≠ .waiting then some (sendWakeup s ok)
    else if s.event then some (restartThread { s with event := false })
    else none
  | .complete =>
    match s.outstanding with
    | [] => none
    | ioctl :: rest => some (completeWakeup s ioctl rest)

def machine (pointerSize : Nat) : Machine State Action where
  init := ⟨pointerSize, false, false, false, .waiting, [], false⟩
  step := step

/-- `wakeup_pending` only while an ioctl is on its way or outstanding, a noted request has the thread's
event, and no assertion has failed. -/
structure Good (s : State) : Prop where
  pending : s.wakeupPending = true → s.pc ≠ .waiting ∨ s.outstanding ≠ []
  noted : s.needWakeup = true → s.event = true
  asserts : s.assertFailed = false

/-- Nothing fails between the critical section and `IoCallDriver`. -/
def Sends (_ : State) (a : Action) : Prop := a ≠ .thread false

/-- The header that the thread is about to send. -/
def Pc.ioctls : Pc → List SrbIoControl
  | .waiting | .allocateIoctl => []
  | .allocateCtxt i | .acquireRemoveLock i | .allocateIrp i | .callDriver i => [i]

structure Inv (n : Nat) (s : State) : Prop where
  size : s.pointerSize = n
  pending : s.wakeupPending = decide (s.pc ≠ .waiting ∨ s.outstanding ≠ [])
  one : s.pc = .waiting ∧ s.outstanding.length ≤ 1 ∨ s.outstanding = []
  apart : s.needWakeup = true → s.wakeupPending = false
  noted : s.needWakeup = true → s.event = true
  sent : ∀ i ∈ s.pc.ioctls ++ s.outstanding, i = wakeupIoctl n
  asserts : s.assertFailed = false

theorem Inv.good {n : Nat} {s : State} (h : Inv n s) : Good s := by
  refine ⟨?_, h.noted, h.asserts⟩
  intro hp
  rw [h.pending, decide_eq_true_eq] at hp
  exact hp

theorem take_wakeupIoctl {n : Nat} (h : n ≤ 8) :
    (wakeupIoctl n).signature.take n = xenvbdIoctlSignature.take n := by
  have hlen : (xenvbdIoctlSignature.take n).length = n := by
    rw [List.length_take]
    exact Nat.min_eq_left h
  exact List.take_left' hlen

theorem Inv.wakeup {n : Nat} {s : State} (h : Inv n s) : Inv n (wakeupScsiport s) := by
  unfold wakeupScsiport
  split
  · exact h
  · next hn =>
    have hp : s.wakeupPending = false := by
      simp only [Bool.or_eq_true, not_or, Bool.not_eq_true] at hn
      exact hn.2
    exact ⟨h.size, h.pending, h.one, fun _ => hp, fun _ => rfl, h.sent, h.asserts⟩

theorem Inv.restart {n : Nat} {s : State} (h : Inv n s) :
    Inv n (restartThread { s with event := false }) := by
  unfold restartThread
  split
  · next hneed =>
    have hp := h.apart hneed
    have hnone : s.outstanding = [] := by
      have := h.pending
      rw [hp, eq_comm, decide_eq_false_iff_not, not_or, not_not] at this
      simpa using this.2
    refine ⟨h.size, ?_, Or.inr hnone, fun hf => ?_, fun hf => ?_, ?_, ?_⟩
    · simp
    · cases hf
    · cases hf
    · simp [Pc.ioctls, hnone]
    · simp [h.asserts, hp]
  · next hneed =>
    exact ⟨h.size, h.pending, h.one, h.apart, fun hn => absurd hn hneed, h.sent, h.asserts⟩

theorem Inv.sending {n : Nat} {s : State} (h : Inv n s) (hw : s.pc ≠ .waiting) :
    s.outstanding = [] ∧ s.wakeupPending = true ∧ s.needWakeup = false := by
  have hp : s.wakeupPending = true := by
    rw [h.pending, decide_eq_true_eq]
    exact Or.inl hw
  refine ⟨h.one.resolve_left fun hone => hw hone.1, hp, ?_⟩
  by_contra hneed
  rw [h.apart (by simpa using hneed)] at hp
  cases hp

theorem Inv.advance {n : Nat} {s : State} (h : Inv n s) (hw : s.pc ≠ .waiting) {pc : Pc}
    (hpc : pc ≠ .waiting) (hi : ∀ i ∈ pc.ioctls, i = wakeupIoctl n) : Inv n { s with pc } := by
  obtain ⟨hnone, hp, hneed⟩ := h.sending hw
  refine ⟨h.size, ?_, Or.inr hnone, h.apart, h.noted, ?_, h.asserts⟩
  · simp only [hp, true_eq_decide_iff]
    exact Or.inl hpc
  · simpa [hnone] using hi

theorem Inv.send {n : Nat} {s : State} (h : Inv n s) (hw : s.pc ≠ .waiting) :
    Inv n (sendWakeup s true) := by
  obtain ⟨hnone, hp, hneed⟩ := h.sending hw
  have hsent := h.sent
  cases hpc : s.pc with
  | waiting => exact absurd hpc hw
  | allocateIoctl =>
    simp only [sendWakeup, hpc, if_true]
    refine h.advance hw (by simp) ?_
    simp [Pc.ioctls, h.size]
  | allocateCtxt ioctl | acquireRemoveLock ioctl | allocateIrp ioctl =>
    simp only [sendWakeup, hpc, if_true]
    refine h.advance hw (by simp) ?_
    simpa [hpc, hnone, Pc.ioctls] using hsent
  | callDriver ioctl =>
    simp only [sendWakeup, hpc, hnone, List.nil_append]
    refine ⟨h.size, ?_, Or.inl ⟨rfl, Nat.le_refl _⟩, h.apart, h.noted, ?_, h.asserts⟩
    · simp [hp]
    · simpa [hpc, hnone, Pc.ioctls] using hsent

theorem Inv.complete {n : Nat} (hn : n ≤ 8) {s : State} (h : Inv n s) {ioctl : SrbIoControl}
    {rest : List SrbIoControl} (hout : s.outstanding = ioctl :: rest) :
    Inv n (completeWakeup s ioctl rest) := by
  have hone := h.one
  rw [hout] at hone
  obtain ⟨hwait, hlen⟩ := hone.resolve_right (by simp)
  have hrest : rest = [] := List.length_eq_zero_iff.mp (by simpa using hlen)
  have hp : s.wakeupPending = true := by
    rw [h.pending, decide_eq_true_eq, hout]
    exact Or.inr (by simp)
  have hsig : ioctl = wakeupIoctl n := h.sent ioctl (by simp [hout])
  refine ⟨h.size, ?_, ?_, fun _ => rfl, h.noted, ?_, ?_⟩
  · simp [completeWakeup, hwait, hrest]
  · exact Or.inr hrest
  · simp [completeWakeup, hwait, hrest, Pc.ioctls]
  · simp [completeWakeup, h.asserts, hp, hsig, h.size, take_wakeupIoctl hn]

theorem Inv.step {n : Nat} (hn : n ≤ 8) {s t : State} {a : Action} (h : Inv n s) (hok : Sends s a)
    (hst : step s a = some t) : Inv n t := by
  cases a with
  | wakeup =>
    cases hst
    exact h.wakeup
  | kick =>
    cases hst
    exact ⟨h.size, h.pending, h.one, h.apart, fun _ => rfl, h.sent, h.asserts⟩
  | thread ok =>
    obtain rfl : ok = true := by
      cases ok with
      | true => rfl
      | false => exact absurd rfl hok
    simp only [WakeupIoctl.step] at hst
    split at hst
    · next hw =>
      cases hst
      exact h.send hw
    · next hw =>
      split at hst
      · cases hst
        exact h.restart
      · cases hst
  | complete =>
    cases hout : s.outstanding with
    | nil =>
      simp only [WakeupIoctl.step, hout] at hst
      cases hst
    | cons ioctl rest =>
      simp only [WakeupIoctl.step, hout] at hst
      cases hst
      exact h.complete hn hout

theorem inv_init (n : Nat) : Inv n (machine n).init := by
  refine ⟨rfl, ?_, Or.inr rfl, fun h => ?_, fun h => ?_, ?_, rfl⟩
  · rfl
  · cases h
  · cases h
  · simp [machine, Pc.ioctls]

/-- **No request is suppressed by one that was not sent**, where a pointer has at most eight bytes and
nothing fails before an ioctl is issued. -/
theorem wakeup_good {n : Nat} (hn : n ≤ 8) {s : State} (h : (machine n).Reach Sends s) : Good s :=
  (h.inv (inv_init n) fun _ _ _ hi hok hst => hi.step hn hok hst).good

/-- `wakeup_pending` without an ioctl. -/
structure Stuck (s : State) : Prop where
  pending : s.wakeupPending = true
  waiting : s.pc = .waiting
  none : s.outstanding = []
  need : s.needWakeup = false

theorem stuck_suppresses {s t : State} {a : Action} (h : Stuck s) (hst : step s a = some t) : Stuck t := by
  cases a with
  | wakeup =>
    cases hst
    rw [wakeupScsiport, h.pending, Bool.or_true, if_pos rfl]
    exact h
  | kick =>
    cases hst
    exact ⟨h.pending, h.waiting, h.none, h.need⟩
  | thread ok =>
    simp only [step] at hst
    split at hst
    · next hw => exact absurd h.waiting hw
    · split at hst
      · cases hst
        rw [restartThread, if_neg (by simp [h.need])]
        exact ⟨h.pending, h.waiting, h.none, h.need⟩
      · cases hst
  | complete =>
    simp only [step, h.none] at hst
    cases hst

theorem wakeup_good_sent : ∃ s, ((machine 8).Reach Sends s ∧ Good s) ∧
    s.wakeupPending = true ∧ s.outstanding ≠ [] := by
  obtain ⟨s, hs, hp⟩ := Machine.exists_reach_of_forall (machine 8) Sends
    (fun s => s.wakeupPending && !s.outstanding.isEmpty)
    [.wakeup, .thread true, .thread true, .thread true, .thread true, .thread true, .thread true]
    (by simp [Sends]) (by decide)
  have hp : s.wakeupPending = true ∧ s.outstanding ≠ [] := by simpa using hp
  exact ⟨s, ⟨hs, wakeup_good (Nat.le_refl 8) hs⟩, hp⟩

/-- The allocation of the ioctl fails: the flag stays without an ioctl. -/
theorem wakeup_lost : ∃ s, (machine 8).Reach Machine.Any s ∧ Stuck s ∧ ¬Good s := by
  obtain ⟨s, hs, hp⟩ := Machine.exists_reach_of_forall (machine 8) Machine.Any
    (fun s => s.wakeupPending && decide (s.pc = .waiting) && s.outstanding.isEmpty && !s.needWakeup)
    [.wakeup, .thread true, .thread false] (by simp [Machine.Any]) (by decide)
  have hp : ((s.wakeupPending = true ∧ s.pc = .waiting) ∧ s.outstanding = []) ∧ s.needWakeup = false := by
    simpa using hp
  obtain ⟨⟨⟨hpend, hwait⟩, hnone⟩, hneed⟩ := hp
  refine ⟨s, hs, ⟨hpend, hwait, hnone, hneed⟩, fun hgood => ?_⟩
  rcases hgood.pending hpend with h | h
  · exact h hwait
  · exact h hnone

end XcWindows.Scsifilt.WakeupIoctl
