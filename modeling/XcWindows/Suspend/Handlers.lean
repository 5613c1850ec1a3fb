import Mathlib.Data.List.Nodup
import Mathlib.Logic.Function.Basic
import XcWindows.Lib.Machine

/-!
# Suspend handlers

`EvtchnRegisterSuspendHandler`, `EvtchnUnregisterSuspendHandler`, and what the suspend thread does with
the handlers in `xenutil/suspend.c`: the four passes of `InvokeSuspendHandlers` in `DoSuspend`, and
`SuspendCleanup`. While the system is quiesced only the suspend thread runs. Otherwise handlers are
registered while it does not hold `SuspendHandlersLock`, and are unregistered at any moment:
`EvtchnUnregisterSuspendHandler` takes no lock, and returns without waiting for a pass. The walk that
looks for a handler to run reads nothing that others write but the `defunct` it asserts, and is one
step.
-/

namespace XcWindows.Suspend.Handlers

open Lib
open Function (update_of_ne update_self)

inductive CbType where
  | preSuspendEarly
  | preSuspendLate
  | suspendEarly
  | suspendLate
deriving DecidableEq

/-- The pass is made while the system is quiesced. -/
def CbType.quiesced : CbType → Bool
  | .preSuspendLate | .suspendEarly => true
  | .preSuspendEarly | .suspendLate => false

/-- How far a client is with a handler. -/
inductive Client where
  | unused
  | registered
  /-- `defunct` is set -/
  | unregistering
  /-- `EvtchnUnregisterSuspendHandler` has returned -/
  | returned
deriving DecidableEq

structure Handler where
  cbType : CbType
  defunct : Bool
  pendingRun : Bool
  running : Bool
  client : Client
  /-- registered when the pass began, and not unregistered since -/
  live : Bool
  /-- how often the callback was started in the pass -/
  invoked : Nat
deriving DecidableEq

inductive Assertion where
  | cbType
  | defunct
  | pending
  /-- `pending == 0` at the end -/
  | done
  | cleanup
deriving DecidableEq

/-- Where the suspend thread is. -/
inductive Pc where
  | idle
  | cleanStart
  | clean (rest : List Nat)
  /-- `InvokeSuspendHandlers` is called -/
  | enter (ty : CbType)
  /-- the first walk, with the handlers it has not seen -/
  | mark (ty : CbType) (rest : List Nat)
  /-- it is to set `pending_run` of `h` -/
  | marking (ty : CbType) (h : Nat) (rest : List Nat)
  /-- it is to call `h` -/
  | direct (ty : CbType) (h : Nat) (rest : List Nat)
  | directRunning (ty : CbType) (h : Nat) (rest : List Nat)
  /-- `retry:` in `InvokeSuspendHandlers` -/
  | retry (ty : CbType)
  /-- the lock is released, `h` is to be called -/
  | run (ty : CbType) (h : Nat)
  | running (ty : CbType) (h : Nat)
  /-- the callback has returned -/
  | ran (ty : CbType) (h : Nat)
  | done (ty : CbType)
  /-- `InvokeSuspendHandlers` has returned -/
  | finished (ty : CbType)
  | failed (a : Assertion)
deriving DecidableEq

namespace Pc

/-- The pass that is under way, or was the last. -/
def ty : Pc → Option CbType
  | .enter ty | .mark ty _ | .marking ty _ _ | .direct ty _ _ | .directRunning ty _ _ | .retry ty |
    .run ty _ | .running ty _ | .ran ty _ | .done ty | .finished ty => some ty
  | .idle | .cleanStart | .clean _ | .failed _ => none

/-- The other threads are stopped. -/
def quiesced (pc : Pc) : Bool := pc.ty.any CbType.quiesced

/-- The suspend thread has `SuspendHandlersLock`. -/
def locked : Pc → Bool
  | .clean _ => true
  | .mark ty _ | .marking ty _ _ => !ty.quiesced
  | _ => false

end Pc

structure State where
  handler : Nat → Handler
  count : Nat
  list : List Nat
  pc : Pc
  /-- `pending` in `InvokeSuspendHandlers` -/
  pending : Nat
  /-- a callback was started after its handler was unregistered -/
  late : Bool

inductive Act where
  /-- the suspend thread, which may find a reason to suspend, or a suspend cancelled -/
  | thread (choice : Bool)
  | register (ty : CbType)
  | unregister (h : Nat)
  /-- `EvtchnUnregisterSuspendHandler` returns -/
  | unregistered (h : Nat)
deriving DecidableEq

namespace State

variable (s : State)

def set (h : Nat) (x : Handler) : State := { s with handler := Function.update s.handler h x }

def goto (pc : Pc) : State := { s with pc }

/-- The call of a pass. -/
def begin (ty : CbType) : State :=
  { s with
    handler := fun h =>
      { s.handler h with live := decide (h ∈ s.list) && !(s.handler h).defunct, invoked := 0 }
    pc := .enter ty }

/-- `sh->cb` -/
def invoke (h : Nat) : State :=
  { s.set h { s.handler h with invoked := (s.handler h).invoked + 1 } with
    late := s.late || decide ((s.handler h).client = .returned) }

/-- The walk from `retry:` in `InvokeSuspendHandlers`, until the lock is released. -/
def retry (ty : CbType) : State :=
  match s.list.find? fun h => (s.handler h).pendingRun with
  | none => s.goto (.done ty)
  | some h =>
    if (s.handler h).cbType ≠ .preSuspendEarly ∧ (s.handler h).cbType ≠ .suspendLate then
      s.goto (.failed .cbType)
    else if (s.handler h).defunct then s.goto (.failed .defunct)
    else (s.set h { s.handler h with pendingRun := false, running := true }).goto (.run ty h)

/-- The next step of the suspend thread. -/
def threadStep (choice : Bool) : Option State :=
  match s.pc with
  | .idle => some (if choice then s.begin .preSuspendEarly else s.goto .cleanStart)
  | .cleanStart => some (s.goto (.clean s.list))
  | .clean [] => some (s.goto .idle)
  | .clean (h :: rest) =>
    some <|
      if !(s.handler h).defunct then s.goto (.clean rest)
      else if (s.handler h).pendingRun || (s.handler h).running then s.goto (.failed .cleanup)
      else { s with list := s.list.erase h, pc := .cleanStart }
  | .enter ty => some { s with pending := 0, pc := .mark ty s.list }
  | .mark ty [] =>
    some (s.goto (if ty.quiesced || decide (s.pending = 0) then .done ty else .retry ty))
  | .mark ty (h :: rest) =>
    some <|
      if (s.handler h).cbType ≠ ty ∨ (s.handler h).defunct = true then s.goto (.mark ty rest)
      else if ty.quiesced then s.goto (.direct ty h rest)
      else s.goto (.marking ty h rest)
  | .marking ty h rest =>
    some { s.set h { s.handler h with pendingRun := true } with
      pending := s.pending + 1, pc := .mark ty rest }
  | .direct ty h rest => some ((s.invoke h).goto (.directRunning ty h rest))
  | .directRunning ty _ rest => some (s.goto (.mark ty rest))
  | .retry ty => some (s.retry ty)
  | .run ty h => some ((s.invoke h).goto (.running ty h))
  | .running ty h => some (s.goto (.ran ty h))
  | .ran ty h =>
    some <|
      if s.pending = 0 then s.goto (.failed .pending)
      else { s.set h { s.handler h with running := false } with
        pending := s.pending - 1, pc := .retry ty }
  | .done ty => some (s.goto (if s.pending = 0 then .finished ty else .failed .done))
  | .finished .preSuspendEarly => some (s.begin .preSuspendLate)
  | .finished .preSuspendLate => some (if choice then s.goto .cleanStart else s.begin .suspendEarly)
  | .finished .suspendEarly => some (s.begin .suspendLate)
  | .finished .suspendLate => some (s.goto .cleanStart)
  | .failed _ => none

def step : Act → Option State
  | .thread choice => s.threadStep choice
  | .register ty =>
    if s.pc.quiesced || s.pc.locked then none
    else
      some { s.set s.count ⟨ty, false, false, false, .registered, false, 0⟩ with
        count := s.count + 1, list := s.list ++ [s.count] }
  | .unregister h =>
    if !s.pc.quiesced ∧ (s.handler h).client = .registered then
      some (s.set h { s.handler h with defunct := true, client := .unregistering, live := false })
    else none
  | .unregistered h =>
    if !s.pc.quiesced ∧ (s.handler h).client = .unregistering then
      some (s.set h { s.handler h with client := .returned })
    else none

end State

/-- No handlers; the suspend thread waits. -/
def handlersMachine : Machine State Act where
  init :=
    { handler := fun _ => ⟨.suspendEarly, false, false, false, .unused, false, 0⟩, count := 0,
      list := [], pc := .idle, pending := 0, late := false }
  step := State.step

/-- The pass has decided to run the handler and has not called it yet. -/
def State.Committed (s : State) (h : Nat) : Prop :=
  (s.handler h).pendingRun = true ∨ (∃ ty rest, s.pc = .marking ty h rest) ∨ ∃ ty, s.pc = .run ty h

/-- No handler is unregistered that a pass is about to run. -/
def UnregisterOk (s : State) : Act → Prop
  | .unregister h => ¬ s.Committed h
  | .thread _ | .register _ | .unregistered _ => True

/-! ## The invariant -/

namespace Pc

/-- The handlers that the pass will come to without a mark. -/
def ahead (list : List Nat) : Pc → List Nat
  | .enter _ => list
  | .mark _ rest | .directRunning _ _ rest => rest
  | .marking _ h rest | .direct _ h rest => h :: rest
  | .run _ h => [h]
  | _ => []

/-- The handler that has `running` set. -/
def active : Pc → Option Nat
  | .run _ h | .running _ h | .ran _ h => some h
  | _ => none

/-- The pass has handlers marked. -/
def marks : Pc → Bool
  | .mark ty _ | .direct ty _ _ | .directRunning ty _ _ => !ty.quiesced
  | .marking _ _ _ | .retry _ | .run _ _ | .running _ _ | .ran _ _ => true
  | _ => false

/-- No pass is under way. -/
def between : Pc → Bool
  | .idle | .cleanStart | .clean _ | .finished _ => true
  | _ => false

/-- There is no last pass either. -/
def outside : Pc → Bool
  | .idle | .cleanStart | .clean _ => true
  | _ => false

/-- No handler is chosen and not called yet. -/
def quiet : Pc → Bool
  | .marking _ _ _ | .run _ _ | .direct _ _ _ | .failed .defunct => false
  | _ => true

/-- `pending` is in use. -/
def counts : Pc → Bool
  | .mark _ _ | .marking _ _ _ | .direct _ _ _ | .directRunning _ _ _ | .retry _ | .run _ _ |
    .running _ _ | .ran _ _ | .done _ => true
  | _ => false

end Pc

theorem Pc.between_eq {pc : Pc} (h : pc.between = true) : pc.marks = false ∧ pc.active = none := by
  cases pc <;> first | exact ⟨rfl, rfl⟩ | cases h

theorem Pc.outside_eq {pc : Pc} (h : pc.outside = true) (list : List Nat) :
    pc.ty = none ∧ pc.ahead list = [] ∧ pc.active = none ∧ pc.marks = false ∧ pc.counts = false := by
  cases pc <;> first | exact ⟨rfl, rfl, rfl, rfl, rfl⟩ | cases h

/-- How many more times a pass is going to call the handler. -/
def State.todo (s : State) (h : Nat) : Nat :=
  (if (s.handler h).pendingRun then 1 else 0) + (s.pc.ahead s.list).count h

/-- What holds at every moment of a run. -/
structure Ok (s : State) : Prop where
  nodup : s.list.Nodup
  known : ∀ h ∈ s.list, h < s.count
  ahead : (s.pc.ahead s.list).Sublist s.list
  unmarked : ∀ h ∈ s.pc.ahead s.list, (s.handler h).pendingRun = false
  marked : ∀ h, (s.handler h).pendingRun = true →
    h ∈ s.list ∧ s.pc.ty = some (s.handler h).cbType ∧ s.pc.marks = true
  marks : ∀ ty, s.pc.marks = true → s.pc.ty = some ty → ty.quiesced = false
  running : ∀ h, (s.handler h).running = true ↔ s.pc.active = some h
  active : ∀ h, s.pc.active = some h → h ∈ s.list
  pending : s.pc.counts = true → s.pending =
    s.list.countP (fun h => (s.handler h).pendingRun) + if s.pc.active.isSome then 1 else 0
  live : ∀ h, (s.handler h).live = true → h ∈ s.list ∧ (s.handler h).defunct = false
  once : ∀ h, (s.handler h).live = true → s.pc.ty = some (s.handler h).cbType →
    (s.handler h).invoked + s.todo h = 1
  chosen : ∀ ty h rest, s.pc = .marking ty h rest → (s.handler h).cbType = ty

variable {s t : State} {h : Nat} {ty : CbType}

theorem Ok.goto (ok : Ok s) (hh : t.handler = s.handler) (hc : t.count = s.count)
    (hl : t.list = s.list) (hahead : (t.pc.ahead s.list).Sublist s.list)
    (hun : ∀ h ∈ t.pc.ahead s.list, (s.handler h).pendingRun = false)
    (hmark : ∀ h, (s.handler h).pendingRun = true → t.pc.ty = s.pc.ty ∧ t.pc.marks = true)
    (hmarks : ∀ ty, t.pc.marks = true → t.pc.ty = some ty → ty.quiesced = false)
    (hact : t.pc.active = s.pc.active)
    (hpend : t.pc.counts = true → t.pending =
      s.list.countP (fun h => (s.handler h).pendingRun) + if s.pc.active.isSome then 1 else 0)
    (honce : ∀ h, (s.handler h).live = true → t.pc.ty = some (s.handler h).cbType →
      s.pc.ty = some (s.handler h).cbType ∧ (t.pc.ahead s.list).count h = (s.pc.ahead s.list).count h)
    (hch : ∀ ty h rest, t.pc = .marking ty h rest → (s.handler h).cbType = ty) : Ok t := by
  refine ⟨hl ▸ ok.nodup, ?_, ?_, ?_, ?_, hmarks, ?_, ?_, ?_, ?_, ?_, ?_⟩
  · rw [hl, hc]
    exact ok.known
  · rw [hl]
    exact hahead
  · rw [hl, hh]
    exact hun
  · rw [hl, hh]
    intro h hp
    obtain ⟨h1, h2, -⟩ := ok.marked h hp
    exact ⟨h1, (hmark h hp).1.trans h2, (hmark h hp).2⟩
  · rw [hh, hact]
    exact ok.running
  · rw [hl, hact]
    exact ok.active
  · rw [hl, hh, hact]
    exact hpend
  · rw [hl, hh]
    exact ok.live
  · intro h hlive hty
    rw [hh] at hlive hty ⊢
    obtain ⟨h1, h2⟩ := honce h hlive hty
    have := ok.once h hlive h1
    unfold State.todo at this ⊢
    rw [hh, hl, h2]
    exact this
  · rw [hh]
    exact hch

theorem Ok.no_marks (ok : Ok s) (hm : s.pc.marks = false) (h : Nat) :
    (s.handler h).pendingRun = false := by
  by_contra hp
  have := (ok.marked h (by simpa using hp)).2.2
  rw [hm] at this
  cases this

theorem Ok.countP_zero (ok : Ok s) (hm : s.pc.marks = false) :
    s.list.countP (fun h => (s.handler h).pendingRun) = 0 := by
  rw [List.countP_eq_zero]
  intro h _
  simp [ok.no_marks hm h]

theorem Ok.leave {pc : Pc} (ok : Ok s) (hb : s.pc.between = true) (ho : pc.outside = true) :
    Ok (s.goto pc) := by
  obtain ⟨hm, ha⟩ := Pc.between_eq hb
  obtain ⟨hty, hahead, hact, hmarks, hcounts⟩ := Pc.outside_eq ho s.list
  refine ok.goto rfl rfl rfl ?_ ?_ ?_ ?_ (hact.trans ha.symm) ?_ ?_ ?_
  · simp [State.goto, hahead]
  · simp [State.goto, hahead]
  · intro h hp
    rw [ok.no_marks hm h] at hp
    cases hp
  · intro ty hm'
    rw [show (s.goto pc).pc.marks = false from hmarks] at hm'
    cases hm'
  · intro hc
    rw [show (s.goto pc).pc.counts = false from hcounts] at hc
    cases hc
  · intro h _ ht
    rw [show (s.goto pc).pc.ty = none from hty] at ht
    cases ht
  · rintro ty h rest rfl
    cases hty

theorem Ok.begin (ok : Ok s) (hb : s.pc.between = true) : Ok (s.begin ty) := by
  obtain ⟨hm, ha⟩ := Pc.between_eq hb
  have hp := ok.no_marks hm
  refine ⟨ok.nodup, ok.known, List.Sublist.refl _, fun h _ => hp h, fun h hq => ?_,
    fun _ hq => by simp [State.begin, Pc.marks] at hq, fun h => ?_,
    fun _ hq => by simp [State.begin, Pc.active] at hq,
    fun hq => by simp [State.begin, Pc.counts] at hq, fun h hq => ?_, fun h hq _ => ?_,
    fun _ _ _ hq => by simp [State.begin] at hq⟩
  · have hq' : (s.handler h).pendingRun = true := hq
    rw [hp h] at hq'
    cases hq'
  · have := ok.running h
    rw [ha] at this
    exact this
  · simpa [State.begin] using hq
  · have hmem : h ∈ s.list := by
      simp only [State.begin, Bool.and_eq_true, decide_eq_true_eq] at hq
      exact hq.1
    have hc : s.list.count h = 1 := List.count_eq_one_of_mem ok.nodup hmem
    show 0 + ((if (s.handler h).pendingRun then 1 else 0) + s.list.count h) = 1
    rw [hp h, hc]
    rfl

theorem countP_update {l : List Nat} (f : Nat → Handler) (x : Handler) (hn : l.Nodup) (hm : h ∈ l) :
    l.countP (fun a => (Function.update f h x a).pendingRun) +
        (if (f h).pendingRun then 1 else 0) =
      l.countP (fun a => (f a).pendingRun) + if x.pendingRun then 1 else 0 := by
  have hp := List.perm_cons_erase hm
  have hrest : (l.erase h).countP (fun a => (Function.update f h x a).pendingRun) =
      (l.erase h).countP fun a => (f a).pendingRun := by
    refine List.countP_congr fun a ha => ?_
    rw [update_of_ne]
    rintro rfl
    exact hn.not_mem_erase ha
  rw [hp.countP_eq, hp.countP_eq, List.countP_cons, List.countP_cons, hrest, update_self]
  omega

theorem Ok.update {x : Handler} (ok : Ok s) (hh : t.handler = Function.update s.handler h x)
    (hc : t.count = s.count) (hl : t.list = s.list) (hty : t.pc.ty = s.pc.ty)
    (hmarks : t.pc.marks = s.pc.marks) (hcb : x.cbType = (s.handler h).cbType)
    (hlive : x.live = true → (s.handler h).live = true ∧ x.defunct = (s.handler h).defunct)
    (hsub : (t.pc.ahead s.list).Sublist s.list)
    (hcount : ∀ k, k ≠ h → (t.pc.ahead s.list).count k = (s.pc.ahead s.list).count k)
    (hun : h ∈ t.pc.ahead s.list → x.pendingRun = false)
    (hmark : x.pendingRun = true →
      h ∈ s.list ∧ s.pc.ty = some (s.handler h).cbType ∧ s.pc.marks = true)
    (hrun : x.running = true ↔ t.pc.active = some h)
    (hact : ∀ k, k ≠ h → (t.pc.active = some k ↔ s.pc.active = some k))
    (hmem : t.pc.active = some h → h ∈ s.list)
    (hpend : t.pc.counts = true → t.pending =
      s.list.countP (fun k => (Function.update s.handler h x k).pendingRun) +
        if t.pc.active.isSome then 1 else 0)
    (honce : (s.handler h).live = true → s.pc.ty = some (s.handler h).cbType →
      x.invoked + ((if x.pendingRun then 1 else 0) + (t.pc.ahead s.list).count h) = 1)
    (hch : ∀ ty k rest, t.pc = .marking ty k rest → s.pc = .marking ty k rest) : Ok t := by
  have hself : t.handler h = x := by rw [hh, update_self]
  have hne : ∀ k, k ≠ h → t.handler k = s.handler k := fun k hk => by rw [hh, update_of_ne hk]
  refine ⟨hl ▸ ok.nodup, ?_, ?_, ?_, ?_, ?_, ?_, ?_, ?_, ?_, ?_, ?_⟩
  · rw [hl, hc]
    exact ok.known
  · rw [hl]
    exact hsub
  · rw [hl]
    intro k hk
    by_cases hkh : k = h
    · subst hkh
      rw [hself]
      exact hun hk
    · rw [hne k hkh]
      refine ok.unmarked k (List.count_pos_iff.mp ?_)
      rw [← hcount k hkh]
      exact List.count_pos_iff.mpr hk
  · intro k hk
    rw [hl, hty, hmarks]
    by_cases hkh : k = h
    · subst hkh
      rw [hself] at hk ⊢
      rw [hcb]
      exact hmark hk
    · rw [hne k hkh] at hk ⊢
      exact ok.marked k hk
  · rw [hty, hmarks]
    exact ok.marks
  · intro k
    by_cases hkh : k = h
    · subst hkh
      rw [hself]
      exact hrun
    · rw [hne k hkh]
      exact (ok.running k).trans (hact k hkh).symm
  · rw [hl]
    intro k hk
    by_cases hkh : k = h
    · subst hkh
      exact hmem hk
    · exact ok.active k ((hact k hkh).mp hk)
  · rw [hl, hh]
    exact hpend
  · intro k hk
    rw [hl]
    by_cases hkh : k = h
    · subst hkh
      rw [hself] at hk ⊢
      obtain ⟨hk', hd⟩ := hlive hk
      rw [hd]
      exact ok.live k hk'
    · rw [hne k hkh] at hk ⊢
      exact ok.live k hk
  · intro k hk hkt
    unfold State.todo
    rw [hl]
    by_cases hkh : k = h
    · subst hkh
      rw [hself] at hk hkt ⊢
      rw [hty, hcb] at hkt
      exact honce (hlive hk).1 hkt
    · rw [hne k hkh] at hk hkt ⊢
      rw [hcount k hkh]
      exact ok.once k hk (hty ▸ hkt)
  · intro ty k rest hk
    have := ok.chosen ty k rest (hch ty k rest hk)
    by_cases hkh : k = h
    · subst hkh
      rw [hself, hcb]
      exact this
    · rw [hne k hkh]
      exact this

theorem countP_update_of_eq {l : List Nat} (f : Nat → Handler) {x : Handler}
    (hx : x.pendingRun = (f h).pendingRun) :
    l.countP (fun a => (Function.update f h x a).pendingRun) = l.countP fun a => (f a).pendingRun := by
  refine List.countP_congr fun a _ => ?_
  by_cases hah : a = h
  · subst hah
    rw [update_self, hx]
  · rw [update_of_ne hah]

theorem Ok.marking {rest : List Nat} (ok : Ok s) (hpc : s.pc = .marking ty h rest) :
    Ok { s.set h { s.handler h with pendingRun := true } with
      pending := s.pending + 1, pc := .mark ty rest } := by
  have hq : ty.quiesced = false := ok.marks ty (by rw [hpc]; rfl) (by rw [hpc]; rfl)
  have hcb : (s.handler h).cbType = ty := ok.chosen ty h rest hpc
  have hsub : (h :: rest).Sublist s.list := by
    have := ok.ahead
    rwa [hpc] at this
  have hnd := hsub.nodup ok.nodup
  have hp : (s.handler h).pendingRun = false := ok.unmarked h (by rw [hpc]; exact List.mem_cons_self)
  have hm : h ∈ s.list := hsub.subset List.mem_cons_self
  refine ok.update (h := h) rfl rfl rfl ?_ ?_ rfl (fun hl => ⟨hl, rfl⟩) ((List.sublist_cons_self ..).trans hsub)
    ?_ ?_ ?_ ?_ ?_ ?_ ?_ ?_ ?_
  · rw [hpc]
    rfl
  · rw [hpc]
    show (!ty.quiesced) = true
    rw [hq]
    rfl
  · intro k hk
    rw [hpc]
    exact (List.count_cons_of_ne hk.symm).symm
  · intro hmem
    exact absurd hmem (List.nodup_cons.mp hnd).1
  · intro _
    rw [hpc, hcb]
    exact ⟨hm, rfl, rfl⟩
  · have := ok.running h
    rw [hpc] at this
    exact this
  · intro k _
    rw [hpc]
    exact Iff.rfl
  · intro hact
    cases hact
  · intro _
    have h1 := countP_update s.handler { s.handler h with pendingRun := true } ok.nodup hm
    have h2 := ok.pending (by rw [hpc]; rfl)
    rw [hpc] at h2
    rw [hp] at h1
    simp only [Pc.active, Option.isSome_none, if_true, Bool.false_eq_true, if_false] at h1 h2 ⊢
    omega
  · intro hlive hty
    have := ok.once h hlive hty
    unfold State.todo at this
    rw [hpc, hp] at this
    have hc : rest.count h = 0 := List.count_eq_zero.mpr (List.nodup_cons.mp hnd).1
    have hc' : (h :: rest).count h = rest.count h + 1 := List.count_cons_self
    simp only [Pc.ahead, hc', hc, Bool.false_eq_true, if_false, if_true] at this ⊢
    omega
  · intro _ _ _ hpc'
    cases hpc'

theorem Ok.invoke {pc : Pc} (ok : Ok s) (hty : pc.ty = s.pc.ty) (hmarks : pc.marks = s.pc.marks)
    (hact : pc.active = s.pc.active) (hcounts : s.pc.counts = true)
    (hahead : s.pc.ahead s.list = h :: pc.ahead s.list)
    (hch : ∀ ty k rest, pc ≠ .marking ty k rest) : Ok ((s.invoke h).goto pc) := by
  have hsub : (h :: pc.ahead s.list).Sublist s.list := hahead ▸ ok.ahead
  have hnd := hsub.nodup ok.nodup
  have hp : (s.handler h).pendingRun = false := ok.unmarked h (by rw [hahead]; exact List.mem_cons_self)
  refine ok.update (h := h) rfl rfl rfl hty hmarks rfl (fun hl => ⟨hl, rfl⟩)
    ((List.sublist_cons_self ..).trans hsub) ?_ ?_ ?_ ?_ ?_ ?_ ?_ ?_ ?_
  · intro k hk
    rw [hahead]
    exact (List.count_cons_of_ne hk.symm).symm
  · intro _
    exact hp
  · intro hpr
    exact ok.marked h hpr
  · exact (ok.running h).trans (by rw [← hact]; rfl)
  · intro k _
    rw [← hact]
    exact Iff.rfl
  · intro _
    exact hsub.subset List.mem_cons_self
  · intro _
    have h1 := countP_update_of_eq (l := s.list) (h := h)
      (x := { s.handler h with invoked := (s.handler h).invoked + 1 }) s.handler rfl
    refine (ok.pending hcounts).trans ?_
    rw [← hact]
    exact congrArg (· + _) h1.symm
  · intro hlive ht
    have := ok.once h hlive ht
    unfold State.todo at this
    rw [hp, hahead, List.count_cons_self] at this
    show (s.handler h).invoked + 1 + ((if (s.handler h).pendingRun then 1 else 0) + _) = 1
    rw [hp]
    show _ + (_ + (pc.ahead s.list).count h) = 1
    omega
  · intro ty k rest hpc
    exact absurd hpc (hch ty k rest)

theorem Ok.take (ok : Ok s) (hpc : s.pc = .retry ty) (hp : (s.handler h).pendingRun = true) :
    Ok ((s.set h { s.handler h with pendingRun := false, running := true }).goto (.run ty h)) := by
  obtain ⟨hm, hty, -⟩ := ok.marked h hp
  refine ok.update (h := h) rfl rfl rfl ?_ ?_ rfl (fun hl => ⟨hl, rfl⟩) (List.singleton_sublist.mpr hm)
    ?_ ?_ ?_ ?_ ?_ ?_ ?_ ?_ ?_
  · rw [hpc]
    rfl
  · rw [hpc]
    rfl
  · intro k hk
    rw [hpc]
    exact List.count_cons_of_ne hk.symm
  · intro _
    rfl
  · intro hpr
    cases hpr
  · exact ⟨fun _ => rfl, fun _ => rfl⟩
  · intro k hk
    rw [hpc]
    exact ⟨fun e => absurd (Option.some.inj e).symm hk, fun e => by cases e⟩
  · intro _
    exact hm
  · intro _
    have h1 := countP_update s.handler { s.handler h with pendingRun := false, running := true }
      ok.nodup hm
    have h2 := ok.pending (by rw [hpc]; rfl)
    rw [hpc] at h2
    rw [hp] at h1
    simp only [Pc.active, Option.isSome_none, if_true, Bool.false_eq_true, if_false, Nat.add_zero]
      at h1 h2
    exact h2.trans h1.symm
  · intro hlive ht
    have := ok.once h hlive ht
    unfold State.todo at this
    rw [hpc, hp] at this
    simpa [State.goto, Pc.ahead] using this
  · intro _ _ _ hpc'
    cases hpc'

/-- A callback that was run without the lock has returned. -/
theorem Ok.ran (ok : Ok s) (hpc : s.pc = .ran ty h) :
    Ok { s.set h { s.handler h with running := false } with
      pending := s.pending - 1, pc := .retry ty } := by
  refine ok.update (h := h) rfl rfl rfl ?_ ?_ rfl (fun hl => ⟨hl, rfl⟩) (List.nil_sublist _)
    ?_ ?_ ?_ ?_ ?_ ?_ ?_ ?_ ?_
  · rw [hpc]
    rfl
  · rw [hpc]
    rfl
  · intro k _
    rw [hpc]
    rfl
  · intro hmem
    cases hmem
  · intro hpr
    exact ok.marked h hpr
  · exact ⟨fun e => (by cases e), fun e => (by cases e)⟩
  · intro k hk
    rw [hpc]
    exact ⟨fun e => (by cases e), fun e => absurd (Option.some.inj e).symm hk⟩
  · intro e
    cases e
  · intro _
    have h2 := ok.pending (by rw [hpc]; rfl)
    rw [hpc] at h2
    have h1 := countP_update_of_eq (l := s.list) (h := h) (x := { s.handler h with running := false })
      s.handler rfl
    simp only [Pc.active, Option.isSome_some, if_true] at h2
    show s.pending - 1 = _ + 0
    omega
  · intro hlive ht
    have := ok.once h hlive ht
    unfold State.todo at this
    rw [hpc] at this
    exact this
  · intro _ _ _ hpc'
    cases hpc'

theorem Ok.erase {rest : List Nat} (ok : Ok s) (hpc : s.pc = .clean rest)
    (hd : (s.handler h).defunct = true) : Ok { s with list := s.list.erase h, pc := .cleanStart } := by
  have hm := ok.no_marks (by rw [hpc]; rfl)
  refine ⟨ok.nodup.erase h, fun k hk => ok.known k (List.mem_of_mem_erase hk), List.nil_sublist _,
    ?_, fun k hk => ?_, ?_, fun k => ?_, ?_, ?_, fun k hk => ?_, ?_, ?_⟩
  · intro k hk
    cases hk
  · exact absurd hk (by rw [hm k]; decide)
  · intro _ hk
    cases hk
  · have := ok.running k
    rw [hpc] at this
    exact this
  · intro k hk
    cases hk
  · intro hk
    cases hk
  · obtain ⟨h1, h2⟩ := ok.live k hk
    refine ⟨(List.mem_erase_of_ne ?_).mpr h1, h2⟩
    rintro rfl
    rw [hd] at h2
    cases h2
  · intro k _ hk
    cases hk
  · intro _ _ _ hk
    cases hk

theorem Ok.stay {pc pc' : Pc} (ok : Ok s) (hpc : s.pc = pc) (hty : pc'.ty = pc.ty)
    (hact : pc'.active = pc.active) (hcounts : pc.counts = true)
    (hsub : (pc'.ahead s.list).Sublist (pc.ahead s.list))
    (hcount : ∀ h, (s.handler h).live = true → pc.ty = some (s.handler h).cbType →
      (pc'.ahead s.list).count h = (pc.ahead s.list).count h)
    (hmark : ∀ h, (s.handler h).pendingRun = true → pc'.marks = true)
    (hmarks : pc'.marks = true → pc.marks = true)
    (hch : ∀ ty h rest, pc' = .marking ty h rest → (s.handler h).cbType = ty) : Ok (s.goto pc') := by
  subst hpc
  exact ok.goto rfl rfl rfl (hsub.trans ok.ahead) (fun h hh => ok.unmarked h (hsub.subset hh))
    (fun h hh => ⟨hty, hmark h hh⟩) (fun ty hm ht => ok.marks ty (hmarks hm) (hty.symm.trans ht)) hact
    (fun _ => ok.pending hcounts)
    (fun h hl ht => ⟨hty.symm.trans ht, hcount h hl (hty.symm.trans ht)⟩) hch

theorem Ok.enter (ok : Ok s) (hpc : s.pc = .enter ty) :
    Ok { s with pending := 0, pc := .mark ty s.list } := by
  have hm := ok.no_marks (by rw [hpc]; rfl)
  have hz := ok.countP_zero (by rw [hpc]; rfl)
  refine ok.goto rfl rfl rfl (List.Sublist.refl _) (fun h _ => hm h) (fun h hh => ?_) (fun ty' ht hty => ?_)
    ?_ (fun _ => ?_) (fun h _ ht => ?_) (fun _ _ _ hk => nomatch hk)
  · rw [hm h] at hh
    cases hh
  · cases hty
    simpa [Pc.marks] using ht
  · rw [hpc]
    rfl
  · rw [hz, hpc]
    rfl
  · rw [hpc]
    exact ⟨ht, rfl⟩

theorem Ok.marked_all (ok : Ok s) (hpc : s.pc = .mark ty []) :
    Ok (s.goto (if ty.quiesced || decide (s.pending = 0) then .done ty else .retry ty)) := by
  have hp := ok.pending (by rw [hpc]; rfl)
  split
  · next hc =>
    refine ok.stay hpc rfl rfl rfl (List.Sublist.refl _) (fun _ _ _ => rfl) (fun h hh => ?_)
      (fun hk => nomatch hk) (fun _ _ _ hk => nomatch hk)
    exfalso
    rcases (Bool.or_eq_true ..).mp hc with hq | hz
    · have := ok.no_marks (by rw [hpc]; simpa [Pc.marks] using hq) h
      rw [hh] at this
      cases this
    · have := List.countP_pos_iff (p := fun h => (s.handler h).pendingRun).mpr ⟨h, (ok.marked h hh).1, hh⟩
      rw [of_decide_eq_true hz] at hp
      omega
  · next hc =>
    have hq : ty.quiesced = false := by
      cases hq : ty.quiesced
      · rfl
      · simp [hq] at hc
    exact ok.stay hpc rfl rfl rfl (List.Sublist.refl _) (fun _ _ _ => rfl) (fun _ _ => rfl)
      (fun _ => by simp [Pc.marks, hq]) (fun _ _ _ hk => nomatch hk)

theorem Ok.skip {rest : List Nat} (ok : Ok s) (hpc : s.pc = .mark ty (h :: rest))
    (hs : (s.handler h).cbType ≠ ty ∨ (s.handler h).defunct = true) : Ok (s.goto (.mark ty rest)) := by
  refine ok.stay hpc rfl rfl rfl (List.sublist_cons_self ..) (fun k hl ht => ?_) (fun k hk => ?_)
    (fun hk => hk) (fun _ _ _ hk => nomatch hk)
  · refine (List.count_cons_of_ne ?_).symm
    rintro rfl
    rcases hs with hs | hs
    · exact hs (Option.some.inj ht).symm
    · rw [(ok.live h hl).2] at hs
      cases hs
  · have := (ok.marked k hk).2.2
    rwa [hpc] at this

theorem Ok.choose {rest : List Nat} (ok : Ok s) (hpc : s.pc = .mark ty (h :: rest))
    (hs : ¬ ((s.handler h).cbType ≠ ty ∨ (s.handler h).defunct = true)) :
    Ok (s.goto (if ty.quiesced then .direct ty h rest else .marking ty h rest)) := by
  have hcb : (s.handler h).cbType = ty := by
    by_contra hc
    exact hs (.inl hc)
  cases hq : ty.quiesced with
  | true =>
    refine ok.stay hpc rfl rfl rfl (List.Sublist.refl _) (fun _ _ _ => rfl) (fun k hk => ?_)
      (fun hk => hk) (fun _ _ _ hk => nomatch hk)
    have := ok.no_marks (by rw [hpc]; simpa [Pc.marks] using hq) k
    rw [hk] at this
    cases this
  | false =>
    refine ok.stay hpc rfl rfl rfl (List.Sublist.refl _) (fun _ _ _ => rfl) (fun _ _ => rfl)
      (fun _ => by simp [Pc.marks, hq]) (fun ty' k rest' hk => ?_)
    cases hk
    exact hcb

theorem Ok.direct_done {rest : List Nat} (ok : Ok s) (hpc : s.pc = .directRunning ty h rest) :
    Ok (s.goto (.mark ty rest)) := by
  refine ok.stay hpc rfl rfl rfl (List.Sublist.refl _) (fun _ _ _ => rfl) (fun k hk => ?_)
    (fun hk => hk) (fun _ _ _ hk => nomatch hk)
  have := (ok.marked k hk).2.2
  rwa [hpc] at this

theorem Ok.retry (ok : Ok s) (hpc : s.pc = .retry ty) :
    (∃ h, (s.handler h).pendingRun = true ∧ (s.handler h).defunct = true ∧
        s.retry ty = s.goto (.failed .defunct)) ∨
      Ok (s.retry ty) ∧ (s.retry ty = s.goto (.done ty) ∨
        ∃ h, (s.handler h).pendingRun = true ∧ (s.handler h).defunct = false ∧
          s.retry ty =
            (s.set h { s.handler h with pendingRun := false, running := true }).goto (.run ty h)) := by
  unfold State.retry
  cases hf : s.list.find? fun h => (s.handler h).pendingRun with
  | none =>
    refine .inr ⟨ok.stay hpc rfl rfl rfl (List.Sublist.refl _) (fun _ _ _ => rfl) (fun k hk => ?_)
      (fun hk => nomatch hk) (fun _ _ _ hk => nomatch hk), .inl rfl⟩
    exact absurd hk (List.find?_eq_none.mp hf k (ok.marked k hk).1)
  | some h =>
    have hp : (s.handler h).pendingRun = true :=
      List.find?_some (p := fun h => (s.handler h).pendingRun) hf
    have hty := (ok.marked h hp).2.1
    have hq := ok.marks ty (by rw [hpc]; rfl) (by rw [hpc]; rfl)
    rw [hpc] at hty
    obtain rfl : ty = (s.handler h).cbType := Option.some.inj hty
    have hcb : ¬ ((s.handler h).cbType ≠ .preSuspendEarly ∧ (s.handler h).cbType ≠ .suspendLate) := by
      revert hq
      cases (s.handler h).cbType <;> decide
    simp only [hcb, if_false]
    split
    · next hd => exact .inl ⟨h, hp, hd, rfl⟩
    · next hd => exact .inr ⟨ok.take hpc hp, .inr ⟨h, hp, by simpa using hd, rfl⟩⟩

/-- Nothing has failed but the assertion on `defunct`. -/
def Fine (s : State) : Prop := s.pc = .failed .defunct ∨ Ok s ∧ ∀ a, s.pc ≠ .failed a

theorem Ok.thread {choice : Bool} (ok : Ok s) (ht : s.threadStep choice = some t) : Fine t := by
  unfold State.threadStep at ht
  split at ht
  · next hpc =>
    obtain rfl := Option.some.inj ht
    cases choice
    · exact .inr ⟨ok.leave (by rw [hpc]; rfl) rfl, nofun⟩
    · exact .inr ⟨ok.begin (by rw [hpc]; rfl), nofun⟩
  · next hpc =>
    obtain rfl := Option.some.inj ht
    exact .inr ⟨ok.leave (by rw [hpc]; rfl) rfl, nofun⟩
  · next hpc =>
    obtain rfl := Option.some.inj ht
    exact .inr ⟨ok.leave (by rw [hpc]; rfl) rfl, nofun⟩
  · next h rest hpc =>
    obtain rfl := Option.some.inj ht
    have hm := ok.no_marks (by rw [hpc]; rfl) h
    have hr : (s.handler h).running = false := by
      cases hr : (s.handler h).running with
      | false => rfl
      | true =>
        have := (ok.running h).mp hr
        rw [hpc] at this
        cases this
    rw [hm, hr]
    cases hd : (s.handler h).defunct with
    | true => exact .inr ⟨ok.erase hpc hd, nofun⟩
    | false => exact .inr ⟨ok.leave (by rw [hpc]; rfl) rfl, nofun⟩
  · next ty hpc =>
    obtain rfl := Option.some.inj ht
    exact .inr ⟨ok.enter hpc, nofun⟩
  · next ty hpc =>
    obtain rfl := Option.some.inj ht
    refine .inr ⟨ok.marked_all hpc, fun a ha => ?_⟩
    simp only [State.goto] at ha
    split at ha <;> cases ha
  · next ty h rest hpc =>
    obtain rfl := Option.some.inj ht
    split
    · next hs => exact .inr ⟨ok.skip hpc hs, nofun⟩
    · next hs =>
      have := ok.choose hpc hs
      split
      · next hq =>
        rw [hq] at this
        exact .inr ⟨this, nofun⟩
      · next hq =>
        rw [if_neg hq] at this
        exact .inr ⟨this, nofun⟩
  · next ty h rest hpc =>
    obtain rfl := Option.some.inj ht
    exact .inr ⟨ok.marking hpc, nofun⟩
  · next ty h rest hpc =>
    obtain rfl := Option.some.inj ht
    refine .inr ⟨ok.invoke ?_ ?_ ?_ ?_ ?_ nofun, nofun⟩ <;> rw [hpc] <;> rfl
  · next ty h rest hpc =>
    obtain rfl := Option.some.inj ht
    exact .inr ⟨ok.direct_done hpc, nofun⟩
  · next ty hpc =>
    obtain rfl := Option.some.inj ht
    rcases ok.retry hpc with ⟨h, _, _, h2⟩ | ⟨h1, h2 | ⟨h, _, _, h2⟩⟩
    · rw [h2]
      exact .inl rfl
    · refine .inr ⟨h1, ?_⟩
      rw [h2]
      nofun
    · refine .inr ⟨h1, ?_⟩
      rw [h2]
      nofun
  · next ty h hpc =>
    obtain rfl := Option.some.inj ht
    refine .inr ⟨ok.invoke ?_ ?_ ?_ ?_ ?_ nofun, nofun⟩ <;> rw [hpc] <;> rfl
  · next ty h hpc =>
    obtain rfl := Option.some.inj ht
    exact .inr ⟨ok.stay hpc rfl rfl rfl (List.Sublist.refl _) (fun _ _ _ => rfl) (fun _ _ => rfl)
      (fun hk => hk) nofun, nofun⟩
  · next ty h hpc =>
    obtain rfl := Option.some.inj ht
    have hp := ok.pending (by rw [hpc]; rfl)
    rw [hpc] at hp
    rw [if_neg (by rw [hp]; exact Nat.succ_ne_zero _)]
    exact .inr ⟨ok.ran hpc, nofun⟩
  · next ty hpc =>
    obtain rfl := Option.some.inj ht
    have hp := ok.pending (by rw [hpc]; rfl)
    rw [ok.countP_zero (by rw [hpc]; rfl), hpc] at hp
    rw [if_pos (show s.pending = 0 from hp)]
    refine .inr ⟨ok.stay hpc rfl rfl rfl (List.Sublist.refl _) (fun _ _ _ => rfl) (fun k hk => ?_)
      (fun hk => nomatch hk) nofun, nofun⟩
    rw [ok.no_marks (by rw [hpc]; rfl) k] at hk
    cases hk
  · next hpc =>
    obtain rfl := Option.some.inj ht
    exact .inr ⟨ok.begin (by rw [hpc]; rfl), nofun⟩
  · next hpc =>
    obtain rfl := Option.some.inj ht
    cases choice
    · exact .inr ⟨ok.begin (by rw [hpc]; rfl), nofun⟩
    · exact .inr ⟨ok.leave (by rw [hpc]; rfl) rfl, nofun⟩
  · next hpc =>
    obtain rfl := Option.some.inj ht
    exact .inr ⟨ok.begin (by rw [hpc]; rfl), nofun⟩
  · next hpc =>
    obtain rfl := Option.some.inj ht
    exact .inr ⟨ok.leave (by rw [hpc]; rfl) rfl, nofun⟩
  · cases ht

theorem Ok.client {x : Handler} (ok : Ok s) (hcb : x.cbType = (s.handler h).cbType)
    (hp : x.pendingRun = (s.handler h).pendingRun) (hr : x.running = (s.handler h).running)
    (hi : x.invoked = (s.handler h).invoked)
    (hlive : x.live = true → (s.handler h).live = true ∧ x.defunct = (s.handler h).defunct) :
    Ok (s.set h x) := by
  refine ok.update (h := h) rfl rfl rfl rfl rfl hcb hlive ok.ahead (fun _ _ => rfl) ?_ ?_ ?_
    (fun _ _ => Iff.rfl) (ok.active h) ?_ ?_ (fun _ _ _ hk => hk)
  · rw [hp]
    exact ok.unmarked h
  · rw [hp]
    exact ok.marked h
  · rw [hr]
    exact ok.running h
  · rw [countP_update_of_eq s.handler hp]
    exact ok.pending
  · rw [hp, hi]
    exact ok.once h

theorem ahead_register (pc : Pc) (list : List Nat) (c : Nat) :
    pc.ahead (list ++ [c]) = pc.ahead list ∨
      pc.ahead (list ++ [c]) = list ++ [c] ∧ pc.ahead list = list := by
  cases pc with
  | enter => exact .inr ⟨rfl, rfl⟩
  | _ => exact .inl rfl

theorem Ok.register {x : Handler} (ok : Ok s) (hp : x.pendingRun = false) (hr : x.running = false)
    (hlive : x.live = false) (hh : t.handler = Function.update s.handler s.count x)
    (hc : t.count = s.count + 1) (hl : t.list = s.list ++ [s.count]) (hpc : t.pc = s.pc)
    (hpending : t.pending = s.pending) : Ok t := by
  have hnew : s.count ∉ s.list := fun hm => Nat.lt_irrefl _ (ok.known _ hm)
  have hself : t.handler s.count = x := by rw [hh, update_self]
  have hne : ∀ k, k ≠ s.count → t.handler k = s.handler k := fun k hk => by
    rw [hh, update_of_ne hk]
  have hold : ∀ k ∈ s.list, t.handler k = s.handler k := fun k hk => hne k fun e => hnew (e ▸ hk)
  have hahead := ahead_register s.pc s.list s.count
  refine ⟨?_, fun k hk => ?_, ?_, fun k hk => ?_, fun k hk => ?_, hpc ▸ ok.marks, fun k => ?_,
    fun k hk => ?_, fun hct => ?_, fun k hk => ?_, fun k hk ht => ?_, fun ty k rest hk => ?_⟩
  · rw [hl]
    refine List.nodup_append.mpr ⟨ok.nodup, List.nodup_singleton _, fun a ha b hb => ?_⟩
    rintro rfl
    exact hnew (List.mem_singleton.mp hb ▸ ha)
  · rw [hl] at hk
    rw [hc]
    rcases List.mem_append.mp hk with hk | hk
    · exact Nat.lt_succ_of_lt (ok.known k hk)
    · rw [List.mem_singleton.mp hk]
      exact Nat.lt_succ_self _
  · rw [hpc, hl]
    rcases hahead with ha | ⟨ha, -⟩
    · rw [ha]
      exact ok.ahead.trans (List.sublist_append_left ..)
    · rw [ha]
  · by_cases hks : k = s.count
    · rw [hks, hself, hp]
    · rw [hne k hks]
      refine ok.unmarked k ?_
      rw [hpc, hl] at hk
      rcases hahead with ha | ⟨ha, hb⟩
      · rwa [ha] at hk
      · rw [ha] at hk
        rw [hb]
        exact (List.mem_append.mp hk).resolve_right fun h => hks (List.mem_singleton.mp h)
  · by_cases hks : k = s.count
    · rw [hks, hself, hp] at hk
      cases hk
    · rw [hne k hks] at hk ⊢
      rw [hl, hpc]
      obtain ⟨h1, h2⟩ := ok.marked k hk
      exact ⟨List.mem_append_left _ h1, h2⟩
  · rw [hpc]
    by_cases hks : k = s.count
    · rw [hks, hself, hr]
      exact ⟨fun e => (by cases e), fun e => absurd (ok.active _ e) hnew⟩
    · rw [hne k hks]
      exact ok.running k
  · rw [hpc] at hk
    rw [hl]
    exact List.mem_append_left _ (ok.active k hk)
  · rw [hpc] at hct
    rw [hpc, hl, hpending, ok.pending hct, List.countP_append, List.countP_singleton, hself, hp]
    refine congrArg (· + _) (List.countP_congr fun k hk => ?_)
    rw [hold k hk]
  · by_cases hks : k = s.count
    · rw [hks, hself, hlive] at hk
      cases hk
    · rw [hne k hks] at hk ⊢
      rw [hl]
      obtain ⟨h1, h2⟩ := ok.live k hk
      exact ⟨List.mem_append_left _ h1, h2⟩
  · by_cases hks : k = s.count
    · rw [hks, hself, hlive] at hk
      cases hk
    · rw [hne k hks] at hk ht ⊢
      rw [hpc] at ht
      have hcount : (s.pc.ahead (s.list ++ [s.count])).count k = (s.pc.ahead s.list).count k := by
        rcases hahead with ha | ⟨ha, hb⟩
        · rw [ha]
        · rw [ha, hb, List.count_append, List.count_singleton, if_neg (by simpa using Ne.symm hks)]
          rfl
      have := ok.once k hk ht
      unfold State.todo at this ⊢
      rw [hpc, hl, hne k hks, hcount]
      exact this
  · rw [hpc] at hk
    rw [hold k (ok.ahead.subset (by rw [hk]; exact List.mem_cons_self))]
    exact ok.chosen ty k rest hk

theorem Fine.step {a : Act} (fine : Fine s) (ht : s.step a = some t) : Fine t := by
  cases a with
  | thread choice =>
    rcases fine with hpc | ⟨ok, -⟩
    · rw [State.step, State.threadStep, hpc] at ht
      cases ht
    · exact ok.thread ht
  | register ty =>
    simp only [State.step] at ht
    split at ht
    · cases ht
    · obtain rfl := Option.some.inj ht
      exact fine.imp id fun ⟨ok, hf⟩ => ⟨ok.register rfl rfl rfl rfl rfl rfl rfl rfl, hf⟩
  | unregister h =>
    obtain ⟨-, ht⟩ := Option.ite_none_right_eq_some.mp ht
    obtain rfl := Option.some.inj ht
    exact fine.imp id fun ⟨ok, hf⟩ => ⟨ok.client rfl rfl rfl rfl nofun, hf⟩
  | unregistered h =>
    obtain ⟨-, ht⟩ := Option.ite_none_right_eq_some.mp ht
    obtain rfl := Option.some.inj ht
    exact fine.imp id fun ⟨ok, hf⟩ => ⟨ok.client rfl rfl rfl rfl fun hl => ⟨hl, rfl⟩, hf⟩

theorem fine_init : Fine handlersMachine.init := by
  refine .inr ⟨⟨List.nodup_nil, ?_, List.Sublist.refl _, ?_, ?_, ?_, ?_, ?_, ?_, ?_, ?_, ?_⟩, nofun⟩ <;>
    simp [handlersMachine, Pc.ahead, Pc.marks, Pc.active, Pc.counts, Pc.ty]

/-! ## Unregistration at other moments -/

/-- What holds while no handler is unregistered that a pass is about to run. -/
structure Calm (s : State) : Prop where
  committed : ∀ h, s.Committed h → (s.handler h).defunct = false
  direct : ∀ ty h rest, s.pc = .direct ty h rest → ty.quiesced = true ∧ (s.handler h).defunct = false
  gone : ∀ h, (s.handler h).client = .unregistering ∨ (s.handler h).client = .returned →
    (s.handler h).defunct = true
  late : s.late = false
  safe : s.pc ≠ .failed .defunct

theorem Calm.keep (calm : Calm s) (hd : ∀ k, (t.handler k).defunct = (s.handler k).defunct)
    (hc : ∀ k, (t.handler k).client = (s.handler k).client)
    (hp : ∀ k, (t.handler k).pendingRun = true → s.Committed k)
    (hmarking : ∀ ty k rest, t.pc = .marking ty k rest → (s.handler k).defunct = false)
    (hrun : ∀ ty k, t.pc = .run ty k → (s.handler k).defunct = false)
    (hdirect : ∀ ty k rest, t.pc = .direct ty k rest → ty.quiesced = true ∧ (s.handler k).defunct = false)
    (hlate : t.late = false) (hsafe : t.pc ≠ .failed .defunct) : Calm t := by
  refine ⟨fun k hk => ?_, fun ty k rest hk => ?_, fun k hk => ?_, hlate, hsafe⟩
  · rw [hd]
    rcases hk with hk | ⟨ty, rest, hk⟩ | ⟨ty, hk⟩
    · exact calm.committed k (hp k hk)
    · exact hmarking ty k rest hk
    · exact hrun ty k hk
  · rw [hd]
    exact hdirect ty k rest hk
  · rw [hc] at hk
    rw [hd]
    exact calm.gone k hk

theorem Pc.quiet_ne {pc : Pc} (hq : pc.quiet = true) :
    (∀ ty k rest, pc ≠ .marking ty k rest) ∧ (∀ ty k, pc ≠ .run ty k) ∧
      (∀ ty k rest, pc ≠ .direct ty k rest) ∧ pc ≠ .failed .defunct := by
  refine ⟨fun ty k rest h => ?_, fun ty k h => ?_, fun ty k rest h => ?_, fun h => ?_⟩ <;>
    · rw [h] at hq
      cases hq

theorem Calm.goto (calm : Calm s) (hh : t.handler = s.handler) (hl : t.late = s.late)
    (hq : t.pc.quiet = true) : Calm t := by
  obtain ⟨hmarking, hrun, hdirect, hsafe⟩ := Pc.quiet_ne hq
  exact calm.keep (fun k => by rw [hh]) (fun k => by rw [hh]) (fun k hk => .inl (by rwa [hh] at hk))
    (fun ty k rest hk => absurd hk (hmarking ty k rest)) (fun ty k hk => absurd hk (hrun ty k))
    (fun ty k rest hk => absurd hk (hdirect ty k rest)) (hl.trans calm.late) hsafe

theorem Calm.begin (calm : Calm s) : Calm (s.begin ty) :=
  calm.keep (fun _ => rfl) (fun _ => rfl) (fun _ hk => .inl hk) nofun nofun nofun calm.late nofun

theorem set_field {α : Type} (f : Handler → α) {x : Handler} (hx : f x = f (s.handler h)) (k : Nat) :
    f ((s.set h x).handler k) = f (s.handler k) := by
  show f (Function.update s.handler h x k) = _
  by_cases hk : k = h
  · rw [hk, update_self, hx]
  · rw [update_of_ne hk]

theorem Calm.invoke {pc : Pc} (calm : Calm s) (hd : (s.handler h).defunct = false)
    (hq : pc.quiet = true) : Calm ((s.invoke h).goto pc) := by
  obtain ⟨hmarking, hrun, hdirect, hsafe⟩ := Pc.quiet_ne hq
  refine calm.keep (set_field Handler.defunct rfl) (set_field Handler.client rfl) (fun k hk => .inl ?_)
    (fun ty k rest hk => absurd hk (hmarking ty k rest)) (fun ty k hk => absurd hk (hrun ty k))
    (fun ty k rest hk => absurd hk (hdirect ty k rest)) ?_ hsafe
  · exact (set_field Handler.pendingRun (h := h)
      (x := { s.handler h with invoked := (s.handler h).invoked + 1 }) rfl k).symm.trans hk
  · have hc : (s.handler h).client ≠ .returned := fun hc => by
      rw [calm.gone h (.inr hc)] at hd
      cases hd
    show (s.late || decide ((s.handler h).client = .returned)) = false
    rw [calm.late, decide_eq_false hc]
    rfl

theorem Calm.thread {choice : Bool} (ok : Ok s) (calm : Calm s) (ht : s.threadStep choice = some t) :
    Calm t := by
  unfold State.threadStep at ht
  split at ht
  · obtain rfl := Option.some.inj ht
    cases choice
    · exact calm.goto rfl rfl rfl
    · exact calm.begin
  · obtain rfl := Option.some.inj ht
    exact calm.goto rfl rfl rfl
  · obtain rfl := Option.some.inj ht
    exact calm.goto rfl rfl rfl
  · obtain rfl := Option.some.inj ht
    split
    · exact calm.goto rfl rfl rfl
    · split
      · exact calm.goto rfl rfl rfl
      · exact calm.goto rfl rfl rfl
  · obtain rfl := Option.some.inj ht
    exact calm.goto rfl rfl rfl
  · obtain rfl := Option.some.inj ht
    split
    · exact calm.goto rfl rfl rfl
    · exact calm.goto rfl rfl rfl
  · next ty h rest hpc =>
    obtain rfl := Option.some.inj ht
    split
    · exact calm.goto rfl rfl rfl
    · next hs =>
      have hd : (s.handler h).defunct = false := by
        cases hd : (s.handler h).defunct
        · rfl
        · exact absurd (.inr hd) hs
      split
      · next hq =>
        refine calm.keep (fun _ => rfl) (fun _ => rfl) (fun _ hk => .inl hk) nofun nofun
          (fun ty k rest hk => ?_) calm.late nofun
        cases hk
        exact ⟨hq, hd⟩
      · refine calm.keep (fun _ => rfl) (fun _ => rfl) (fun _ hk => .inl hk) (fun ty k rest hk => ?_)
          nofun nofun calm.late nofun
        cases hk
        exact hd
  · next ty h rest hpc =>
    obtain rfl := Option.some.inj ht
    refine calm.keep (set_field Handler.defunct rfl) (set_field Handler.client rfl) (fun k hk => ?_)
      nofun nofun nofun calm.late nofun
    by_cases hkh : k = h
    · subst hkh
      exact .inr (.inl ⟨ty, rest, hpc⟩)
    · refine .inl ?_
      rw [← hk]
      exact congrArg Handler.pendingRun (update_of_ne hkh ..).symm
  · next ty h rest hpc =>
    obtain rfl := Option.some.inj ht
    exact calm.invoke (calm.direct ty h rest hpc).2 rfl
  · obtain rfl := Option.some.inj ht
    exact calm.goto rfl rfl rfl
  · next ty hpc =>
    obtain rfl := Option.some.inj ht
    rcases ok.retry hpc with ⟨h, hp, hd, h2⟩ | ⟨-, h2 | ⟨h, hp, hd, h2⟩⟩
    · rw [calm.committed h (.inl hp)] at hd
      cases hd
    · rw [h2]
      exact calm.goto rfl rfl rfl
    · rw [h2]
      refine calm.keep (set_field Handler.defunct rfl) (set_field Handler.client rfl) (fun k hk => .inl ?_)
        nofun (fun ty k hk => ?_) nofun calm.late nofun
      · by_cases hkh : k = h
        · exact hkh ▸ hp
        · rw [← hk]
          exact congrArg Handler.pendingRun (update_of_ne hkh ..).symm
      · cases hk
        exact hd
  · next ty h hpc =>
    obtain rfl := Option.some.inj ht
    exact calm.invoke (calm.committed h (.inr (.inr ⟨ty, hpc⟩))) rfl
  · obtain rfl := Option.some.inj ht
    exact calm.goto rfl rfl rfl
  · next ty h hpc =>
    obtain rfl := Option.some.inj ht
    split
    · exact calm.goto rfl rfl rfl
    · refine calm.keep (set_field Handler.defunct rfl) (set_field Handler.client rfl) (fun k hk => .inl ?_)
        nofun nofun nofun calm.late nofun
      exact (set_field Handler.pendingRun (h := h) (x := { s.handler h with running := false })
        rfl k).symm.trans hk
  · obtain rfl := Option.some.inj ht
    split
    · exact calm.goto rfl rfl rfl
    · exact calm.goto rfl rfl rfl
  · obtain rfl := Option.some.inj ht
    exact calm.begin
  · obtain rfl := Option.some.inj ht
    cases choice
    · exact calm.begin
    · exact calm.goto rfl rfl rfl
  · obtain rfl := Option.some.inj ht
    exact calm.begin
  · obtain rfl := Option.some.inj ht
    exact calm.goto rfl rfl rfl
  · cases ht

theorem Calm.client {x : Handler} (calm : Calm s) (hh : t.handler = Function.update s.handler h x)
    (hpc : t.pc = s.pc) (hl : t.late = s.late)
    (hp : x.pendingRun = true → (s.handler h).pendingRun = true)
    (hd : s.Committed h ∨ (∃ ty rest, s.pc = .direct ty h rest) → x.defunct = false)
    (hg : x.client = .unregistering ∨ x.client = .returned → x.defunct = true) : Calm t := by
  have hself : t.handler h = x := by rw [hh, update_self]
  have hne : ∀ k, k ≠ h → t.handler k = s.handler k := fun k hk => by rw [hh, update_of_ne hk]
  refine ⟨fun k hk => ?_, fun ty k rest hk => ?_, fun k hk => ?_, hl.trans calm.late, hpc ▸ calm.safe⟩
  · unfold State.Committed at hk
    rw [hpc] at hk
    by_cases hkh : k = h
    · subst hkh
      rw [hself] at hk ⊢
      exact hd (.inl (hk.imp_left hp))
    · rw [hne k hkh] at hk ⊢
      exact calm.committed k hk
  · rw [hpc] at hk
    by_cases hkh : k = h
    · subst hkh
      rw [hself]
      exact ⟨(calm.direct ty k rest hk).1, hd (.inr ⟨ty, rest, hk⟩)⟩
    · rw [hne k hkh]
      exact calm.direct ty k rest hk
  · by_cases hkh : k = h
    · rw [hkh, hself] at hk ⊢
      exact hg hk
    · rw [hne k hkh] at hk ⊢
      exact calm.gone k hk

theorem Calm.step {a : Act} (fine : Fine s) (calm : Calm s) (hok : UnregisterOk s a)
    (ht : s.step a = some t) : Calm t := by
  cases a with
  | thread choice =>
    rcases fine with hpc | ⟨ok, -⟩
    · exact absurd hpc calm.safe
    · exact calm.thread ok ht
  | register ty =>
    simp only [State.step] at ht
    split at ht
    · cases ht
    · obtain rfl := Option.some.inj ht
      exact calm.client rfl rfl rfl nofun (fun _ => rfl) nofun
  | unregister h =>
    obtain ⟨⟨hq, -⟩, ht⟩ := Option.ite_none_right_eq_some.mp ht
    obtain rfl := Option.some.inj ht
    refine calm.client rfl rfl rfl id (fun hc => ?_) (fun _ => rfl)
    rcases hc with hc | ⟨ty, rest, hc⟩
    · exact absurd hc hok
    · rw [hc] at hq
      have := (calm.direct ty h rest hc).1
      simp [Pc.quiesced, Pc.ty, this] at hq
  | unregistered h =>
    obtain ⟨⟨-, hu⟩, ht⟩ := Option.ite_none_right_eq_some.mp ht
    obtain rfl := Option.some.inj ht
    refine calm.client rfl rfl rfl id (fun hc => ?_) (fun _ => calm.gone h (.inl hu))
    rcases hc with hc | ⟨ty, rest, hc⟩
    · exact calm.committed h hc
    · exact (calm.direct ty h rest hc).2

theorem calm_init : Calm handlersMachine.init :=
  ⟨fun _ _ => rfl, nofun, nofun, rfl, nofun⟩

/-- The handlers that were there for a whole pass of their type have been called once. -/
def EachOnce (s : State) : Prop :=
  ∀ ty, s.pc = .finished ty → ∀ h, (s.handler h).live = true → (s.handler h).cbType = ty →
    (s.handler h).invoked = 1

theorem Fine.eachOnce (fine : Fine s) : EachOnce s := by
  intro ty hpc h hlive hty
  rcases fine with hf | ⟨ok, -⟩
  · rw [hpc] at hf
    cases hf
  · have := ok.once h hlive (by rw [hpc, hty]; rfl)
    unfold State.todo at this
    rw [ok.no_marks (by rw [hpc]; rfl), hpc] at this
    exact this

/-- In every run a pass calls each of its handlers once, and no assertion fails but `!sh->defunct`. In
a run in which no handler is unregistered while a pass is about to run it, no assertion fails, and no
handler is called that was unregistered. -/
theorem suspend_handlers (s : State) :
    (Machine.Reach handlersMachine Machine.Any s →
      EachOnce s ∧ ∀ a, s.pc = .failed a → a = .defunct) ∧
    (Machine.Reach handlersMachine UnregisterOk s →
      EachOnce s ∧ s.late = false ∧ ∀ a, s.pc ≠ .failed a) := by
  have hall : ∀ s, Machine.Reach handlersMachine Machine.Any s → Fine s := fun s hr =>
    hr.inv (I := Fine) fine_init fun _ _ _ fine _ ht => fine.step ht
  refine ⟨fun hr => ⟨(hall s hr).eachOnce, fun a ha => ?_⟩, fun hr => ?_⟩
  · rcases hall s hr with hf | ⟨-, hf⟩
    · rw [ha] at hf
      exact Pc.failed.inj hf
    · exact absurd ha (hf a)
  · obtain ⟨fine, calm⟩ := hr.inv (I := fun s => Fine s ∧ Calm s) ⟨fine_init, calm_init⟩
      fun _ _ _ h hok ht => ⟨h.1.step ht, h.2.step h.1 hok ht⟩
    refine ⟨fine.eachOnce, calm.late, fun a ha => ?_⟩
    rcases fine with hf | ⟨-, hf⟩
    · exact calm.safe hf
    · exact hf a ha

/-- A handler that stays registered is called once. -/
theorem suspend_handlers_pass :
    ∃ s : State, s.pc = .finished .preSuspendEarly ∧ (s.handler 0).invoked = 1 ∧ s.late = false := by
  obtain ⟨s, hr, hs⟩ := Machine.exists_reach_of_forall handlersMachine UnregisterOk
    (fun s => decide (s.pc = .finished .preSuspendEarly ∧ (s.handler 0).live = true ∧
      (s.handler 0).cbType = .preSuspendEarly))
    (.register .preSuspendEarly :: List.replicate 11 (.thread true)) (by
      intro a ha s
      rcases List.mem_cons.mp ha with rfl | ha
      · trivial
      · rw [List.eq_of_mem_replicate ha]
        trivial) (by decide)
  obtain ⟨h1, h2, h3⟩ := of_decide_eq_true hs
  obtain ⟨honce, hlate, -⟩ := (suspend_handlers s).2 hr
  exact ⟨s, h1, honce _ h1 0 h2 h3, hlate⟩

/-- A handler is unregistered after the first walk has marked it, and the second finds it defunct; or
after the lock was dropped, and is called later. -/
theorem suspend_handlers_unregister :
    (¬ ∀ s, Machine.Reach handlersMachine Machine.Any s → ∀ a, s.pc ≠ .failed a) ∧
      ¬ ∀ s, Machine.Reach handlersMachine Machine.Any s → s.late = false := by
  constructor <;> intro hall
  · obtain ⟨s, hr, hs⟩ := Machine.exists_reach handlersMachine Machine.Any
      (fun s => decide (s.pc = .failed .defunct))
      [.register .preSuspendEarly, .thread true, .thread true, .thread true, .thread true,
        .unregister 0, .unregistered 0, .thread true, .thread true] (by decide)
    exact hall s hr _ (of_decide_eq_true hs)
  · obtain ⟨s, hr, hs⟩ := Machine.exists_reach handlersMachine Machine.Any (fun s => s.late)
      [.register .preSuspendEarly, .thread true, .thread true, .thread true, .thread true, .thread true,
        .thread true, .unregister 0, .unregistered 0, .thread true] (by decide)
    rw [hall s hr] at hs
    cases hs

end XcWindows.Suspend.Handlers
