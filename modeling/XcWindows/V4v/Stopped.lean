import Mathlib.Data.List.Basic
import XcWindows.Lib.Machine
import XcWindows.V4v.Bind

/-!
# The stopped device

What `V4vDispatchRead`, `V4vDispatchWrite` and `V4vDispatchDeviceControl` of `xenv4v` do with the
device state that `V4vStopDevice` stores, down to the calls that take the lock of a ring, hand a
ring to the hypervisor or send. A dispatch reads the states of the device and of the context when it
comes in; what it does after that comes out one effect at a time, with other dispatches and the PnP
handlers between them.
-/

namespace XcWindows.V4v.Stopped

open Lib
open XcWindows.V4v.Bind (File RingId RingObject Memory)

abbrev devStopped : BitVec 32 := 0x00000000

abbrev devStarted : BitVec 32 := 0x00000001

abbrev peekDgram : BitVec 32 := 0x00000001
abbrev peekStream : BitVec 32 := 0x00000002
abbrev peekAccept : BitVec 32 := 0x00010000
abbrev peekSyn : BitVec 32 := 0x00100000
abbrev peekAck : BitVec 32 := 0x00200000
abbrev peekRst : BitVec 32 := 0x00400000
abbrev peekRead : BitVec 32 := 0x01000000
abbrev peekWrite : BitVec 32 := 0x02000000
abbrev peekIoctl : BitVec 32 := 0x04000000

/-- `XENV4V_RST_MAGIC` and `XENV4V_ACK_MAGIC`, of a 64-bit build -/
abbrev rstMagic : BitVec 64 := 0x512862fb6f91f1bd
abbrev ackMagic : BitVec 64 := 0x9236baf013ce4bb9

/-- `sizeof (V4V_DATAGRAM)` -/
abbrev datagramSize : Nat := 6

abbrev somaxconn : Nat := 128

def ntStatus : Bind.Status → NtStatus
  | .success => .success
  | .invalidHandle => .invalidHandle
  | .invalidDeviceRequest => .invalidDeviceRequest
  | .invalidParameter => .invalidParameter
  | .noMemory => .noMemory
  | .unsuccessful => .unsuccessful

/-- The calls that take the lock of a ring or give it to the hypervisor. -/
inductive RingUse where
  | datagramReads | preConnectReads | connectorReads | listenerReads
  | contextWrites | notify | dumpRing | ringId | registerRing
deriving DecidableEq

inductive Effect where
  | insert (flags : BitVec 32) (insertHead : Bool)
  | complete (status : NtStatus)
  /-- the receive event is set or cleared -/
  | event (signaled : Bool)
  /-- a context gets another state and perhaps another type -/
  | store (type : Option CtxType) (state : CtxState)
  | startTimer
  | stopTimer
  | workItem
  | ring (use : RingUse)
  | sendReset
deriving DecidableEq

/-- The effects that use a ring or send. -/
def Effect.touches : Effect → Bool
  | .ring _ | .sendReset => true
  | _ => false

/-- All that there is to see of a request that is only queued or rejected. -/
def Effect.quiet : Effect → Bool
  | .insert _ _ | .event _ => true
  | .complete status => !status.ntSuccess
  | _ => false

inductive InfoType where
  | unset | localInfo | peerInfo
deriving DecidableEq

/-- `IoControlCode`; `thunk` is the 32-bit form of a code. -/
inductive IoControlCode where
  | initFile (thunk : Bool) | bind | listen | accept (thunk : Bool) | connect | wait | disconnect
  | getInfo | dumpRing | other
deriving DecidableEq

/-- An IOCTL and what its buffer says; `lengthOk` is whether the input buffer has the length of the
structure that the code names. -/
structure Ioctl where
  code : IoControlCode
  lengthOk : Bool
  rxEvent : Bool
  ringLength : Nat
  ringId : RingId
  backlog : Nat
  infoType : InfoType

inductive Request where
  | read (length : Nat)
  /-- `dcs` are `DriverContext[0]` and `DriverContext[1]` as they come in -/
  | write (length : Nat) (dcs : BitVec 64 × BitVec 64)
  | deviceControl (ioctl : Ioctl)

/-- What a dispatch finds and what the calls it makes return. -/
structure Env where
  file : File
  accepter : File
  rings : List RingObject
  mem : Memory
  random : Nat
  register : Bool
  /-- `MmGetSystemAddressForMdlSafe` -/
  mapped : Bool
  insert : NtStatus
  preConnect : Bool
  /-- whether a read took something out of the ring -/
  notify : Bool
  /-- the lengths in the data queue of an accepter -/
  dataList : List Nat
  /-- the queued stream reads of the file: length, and whether one waits for a SYN or an ACK -/
  reads : List (Nat × Bool)
  /-- the state that `V4vProcessContextReads` finds -/
  later : CtxState
  /-- `ObReferenceObjectByHandle`, for the event and for the file of an accept -/
  event : Bind.Status
  fileHandle : Bind.Status
  synList : Bool
  synCount : Nat
  /-- the queued accepts of the listener, and what `V4vSendAcknowledge` says for each -/
  accepts : Nat
  acks : List Bool

/-! ## The code -/

/-- `V4vProcessAccepterReads` with `notify` `FALSE`: what it does, and `*pntfy`. -/
def v4vProcessAccepterReads : List Nat → List (Nat × Bool) → List Effect × Bool
  | [], _ => ([.event false], false)
  | _ :: _, [] => ([.event true], false)
  | length :: data, (len, preStream) :: reads =>
    if preStream then
      let (es, ntfy) := v4vProcessAccepterReads (length :: data) reads
      (.complete .invalidDeviceRequest :: es, ntfy)
    else if len < length then
      let (es, ntfy) := v4vProcessAccepterReads (length :: data) reads
      (.complete .bufferOverflow :: es, ntfy)
    else
      let (es, _) := v4vProcessAccepterReads data reads
      (.complete .success :: es, true)

def v4vProcessContextReads (env : Env) (val : CtxState) : List Effect :=
  match val with
  | .bound => [.ring .datagramReads]
  | .connecting | .waiting =>
    .ring .preConnectReads :: if env.preConnect then [.ring .connectorReads] else []
  | .connected => [.ring .connectorReads]
  | .listening | .passive => [.ring .listenerReads]
  | .accepted => (v4vProcessAccepterReads env.dataList env.reads).1
  | _ => []

def v4vDoAccepts : Nat → Nat → List Bool → List Effect
  | 0, _, _ => [.event false]
  | _ + 1, 0, _ => [.event true]
  | synCount + 1, accepts + 1, acks =>
    .store none .accepted ::
      ((if acks.headD true then [Effect.workItem, .complete .success]
        else [.complete .noMemory, .store none .disconnected]) ++
      v4vDoAccepts synCount accepts acks.tail)

/-- The rest of a read or a write: the IRP is queued, then `drive`. -/
def queueThen (env : Env) (flags : BitVec 32) (insertHead : Bool) (drive : List Effect) :
    NtStatus × List Effect :=
  if env.insert.ntSuccess then (.pending, .insert flags insertHead :: drive)
  else (env.insert, [.insert flags insertHead, .complete env.insert])

def simpleComplete (status : NtStatus) : NtStatus × List Effect := (status, [.complete status])

def v4vDispatchWrite (ds : BitVec 32) (env : Env) (length : Nat) (dcs : BitVec 64 × BitVec 64) :
    NtStatus × List Effect :=
  let val := env.file.state
  let write (flags : BitVec 32) (insertHead : Bool) :=
    if 0 < length ∧ env.mapped = false then simpleComplete .noMemory
    else queueThen env flags insertHead
      (if ds &&& devStopped = 0 then [.ring .contextWrites] else [])
  match val with
  | .bound =>
    if length < datagramSize then simpleComplete .bufferTooSmall
    else write (peekDgram ||| peekWrite) false
  | .connected | .accepted | .listening | .passive =>
    if dcs.1 = peekRst.setWidth 64 ∧ dcs.2 = rstMagic then
      write (peekStream ||| peekWrite ||| peekRst) true
    else if dcs.1 = peekAck.setWidth 64 ∧ dcs.2 = ackMagic then
      write (peekStream ||| peekWrite ||| peekAck) false
    else if val = .listening ∨ val = .passive then simpleComplete .invalidDeviceRequest
    else write (peekStream ||| peekWrite) false
  | .disconnected => simpleComplete .virtualCircuitClosed
  | _ => simpleComplete .invalidDeviceRequest

def v4vDispatchRead (ds : BitVec 32) (env : Env) (length : Nat) : NtStatus × List Effect :=
  let val := env.file.state
  let notify (ntfy : Bool) : List Effect := if ntfy then [.ring .notify] else []
  if 0 < length ∧ env.mapped = false then simpleComplete .noMemory
  else
    match val with
    | .bound =>
      if length < datagramSize then simpleComplete .bufferTooSmall
      else queueThen env (peekDgram ||| peekRead) false
        (if ds &&& devStopped ≠ 0 then [] else .ring .datagramReads :: notify env.notify)
    | .connecting | .waiting | .connected | .accepted =>
      if length = 0 then simpleComplete .success
      else queueThen env (peekStream ||| peekRead) false
        (if ds &&& devStopped ≠ 0 then []
        else if val = .connecting ∨ val = .waiting then
          .ring .preConnectReads ::
            ((if env.preConnect then [.ring .connectorReads] else []) ++ notify env.notify)
        else if val = .connected then .ring .connectorReads :: notify env.notify
        else
          let (es, ntfy) := v4vProcessAccepterReads env.dataList env.reads
          es ++ notify ntfy)
    | .disconnected => simpleComplete .virtualCircuitClosed
    | _ => simpleComplete .invalidDeviceRequest

/-- `V4vCtrlInitializeFile`, by what it does to the context. -/
def initFile (ctx : File) (rxEvent : Bool) (ringLength : Nat) (reference : Bind.Status) :
    NtStatus × List Effect :=
  let status := (Bind.v4vCtrlInitializeFile (some ctx) rxEvent ringLength reference).1
  (ntStatus status, if status = .success then [.store none .idle] else [])

/-- `V4vCtrlBind`, by what it does to the ring and the context. Until it is registered the ring is
memory that only the dispatch knows. -/
def bindFile (env : Env) (ringId : RingId) : NtStatus × List Effect :=
  let status := (Bind.v4vCtrlBind env.rings env.file ringId env.mem env.random env.register).1
  (ntStatus status,
    match status with
    | .success => [.ring .registerRing, .store (some .datagram) .bound]
    | .unsuccessful => [.ring .registerRing]
    | _ => [])

def v4vCtrlListen (env : Env) (backlog : Nat) : NtStatus × List Effect :=
  if env.file.state ≠ .bound then (.invalidDeviceRequest, [])
  else if backlog > somaxconn then (.invalidParameter, [])
  else if env.synList = false then (.noMemory, [])
  else (.success, [.store (some .listener) .listening])

def v4vCtrlAccept (env : Env) (lengthOk rxEvent : Bool) : NtStatus × List Effect :=
  if env.file.state ≠ .listening then (.invalidDeviceRequest, [])
  else if lengthOk = false then (.invalidParameter, [])
  else if env.fileHandle ≠ .success then (ntStatus env.fileHandle, [])
  else
    let (status, es) := initFile env.accepter rxEvent env.file.ringLength env.event
    if status.ntSuccess = false then (status, es)
    else
      let es := es ++ [Effect.store (some .accepter) .accepting,
        .insert (peekStream ||| peekAccept ||| peekIoctl) false]
      if env.insert.ntSuccess then
        (.pending, es ++ v4vDoAccepts env.synCount env.accepts env.acks)
      else (env.insert, es)

def v4vCtrlConnect (env : Env) : NtStatus × List Effect :=
  if env.file.state ≠ .bound then (.invalidDeviceRequest, [])
  else
    let es := [.store (some .connector) .connecting, .startTimer,
      .insert (peekStream ||| peekWrite ||| peekSyn ||| peekIoctl) false]
    if env.insert.ntSuccess then (.pending, es ++ [Effect.ring .contextWrites])
    else (env.insert, es ++ [Effect.stopTimer, .store none .disconnected])

def v4vCtrlConnectWait (env : Env) : NtStatus × List Effect :=
  if env.file.state ≠ .bound then (.invalidDeviceRequest, [])
  else
    let es := [.store (some .connector) .waiting,
      .insert (peekStream ||| peekRead ||| peekSyn ||| peekIoctl) false]
    if env.insert.ntSuccess then (.pending, es ++ v4vProcessContextReads env env.later)
    else (env.insert, es ++ [Effect.store none .disconnected])

def v4vCtrlDisconnect (env : Env) : NtStatus × List Effect :=
  match env.file.state with
  | .connected | .accepted => (.success, [.sendReset, .store none .disconnected])
  | _ => (.invalidDeviceRequest, [])

/-- The states in which a context has a ring that `V4vCtrlDumpRing` and `V4vCtrlGetInfo` look at. -/
def hasRing : CtxState → Bool
  | .bound | .listening | .waiting | .connecting | .connected | .accepted => true
  | _ => false

def v4vCtrlGetInfo (env : Env) (type : InfoType) : NtStatus × List Effect :=
  match type, env.file.state with
  | .peerInfo, .connecting | .peerInfo, .connected | .peerInfo, .accepted => (.success, [])
  | .localInfo, val =>
    if hasRing val then (.success, [.ring .ringId]) else (.invalidDeviceRequest, [])
  | _, _ => (.invalidDeviceRequest, [])

def v4vCtrlDumpRing (env : Env) : NtStatus × List Effect :=
  if hasRing env.file.state then (.success, [.ring .dumpRing]) else (.invalidDeviceRequest, [])

/-- The switch of `V4vDispatchDeviceControl`. -/
def ioctlRequest (env : Env) (ioctl : Ioctl) : NtStatus × List Effect :=
  let checked (ctrl : NtStatus × List Effect) :=
    if ioctl.lengthOk then ctrl else (.invalidParameter, [])
  match ioctl.code with
  | .initFile _ => checked (initFile env.file ioctl.rxEvent ioctl.ringLength env.event)
  | .bind => checked (bindFile env ioctl.ringId)
  | .listen => checked (v4vCtrlListen env ioctl.backlog)
  | .accept _ => v4vCtrlAccept env ioctl.lengthOk ioctl.rxEvent
  | .connect => checked (v4vCtrlConnect env)
  | .wait => checked (v4vCtrlConnectWait env)
  | .disconnect => v4vCtrlDisconnect env
  | .getInfo => checked (v4vCtrlGetInfo env ioctl.infoType)
  | .dumpRing => v4vCtrlDumpRing env
  | .other => (.invalidParameter, [])

/-- An IOCTL that is not pending is completed. -/
def finish (ctrl : NtStatus × List Effect) : NtStatus × List Effect :=
  (ctrl.1, ctrl.2 ++ if ctrl.1 ≠ .pending then [.complete ctrl.1] else [])

def v4vDispatchDeviceControl (ds : BitVec 32) (env : Env) (ioctl : Ioctl) :
    NtStatus × List Effect :=
  if ds &&& devStopped ≠ 0 then simpleComplete .invalidDeviceState
  else finish (ioctlRequest env ioctl)

def dispatch (ds : BitVec 32) (env : Env) : Request → NtStatus × List Effect
  | .read length => v4vDispatchRead ds env length
  | .write length dcs => v4vDispatchWrite ds env length dcs
  | .deviceControl ioctl => v4vDispatchDeviceControl ds env ioctl

/-! ## What a dispatch does in the stopped state -/

theorem and_devStopped (ds : BitVec 32) : ds &&& devStopped = 0 := BitVec.and_zero

/-- A queued read can take the first entry of an accepter's data queue. -/
def served (data : List Nat) (reads : List (Nat × Bool)) : Bool :=
  data.head?.any fun length => reads.any fun r => !r.2 && decide (length ≤ r.1)

/-- `DriverContext` marks a RST or an ACK of the driver itself. -/
def internal (dcs : BitVec 64 × BitVec 64) : Bool :=
  (dcs.1 = peekRst.setWidth 64 && dcs.2 = rstMagic) ||
    (dcs.1 = peekAck.setWidth 64 && dcs.2 = ackMagic)

/-- A file whose context is `ctx` can be set up. -/
def canInit (rxEvent : Bool) (reference : Bind.Status) : Bool :=
  rxEvent && decide (reference = .success)

/-- A bind gets as far as the hypercall. -/
def canRegister (env : Env) (ringId : RingId) : Bool :=
  decide (env.file.state = .idle) &&
    (decide (ringId.addr.domain = Bind.domidNone) ||
      decide (ringId.addr.domain = Bind.domidInvalidCompat)) &&
    (Bind.v4vAllocateRing env.mem env.file.ringLength).isSome &&
    (decide (ringId.addr.port = Bind.portNone) ||
      !Bind.v4vRingIdInUse (env.rings.map (·.id)) ringId)

/-- The request passes the checks of its handler, so that more happens than that it is queued or
rejected. -/
def readActs (env : Env) (length : Nat) : Bool :=
  (decide (length = 0) || env.mapped) &&
    match env.file.state with
    | .bound => decide (datagramSize ≤ length) && env.insert.ntSuccess
    | .connecting | .waiting | .connected => decide (length = 0) || env.insert.ntSuccess
    | .accepted => decide (length = 0) || env.insert.ntSuccess && served env.dataList env.reads
    | _ => false

def writeActs (env : Env) (length : Nat) (dcs : BitVec 64 × BitVec 64) : Bool :=
  (decide (length = 0) || env.mapped) && env.insert.ntSuccess &&
    match env.file.state with
    | .bound => decide (datagramSize ≤ length)
    | .connected | .accepted => true
    | .listening | .passive => internal dcs
    | _ => false

def ioctlActs (env : Env) (ioctl : Ioctl) : Bool :=
  match ioctl.code with
  | .initFile _ => ioctl.lengthOk && canInit ioctl.rxEvent env.event
  | .bind => ioctl.lengthOk && canRegister env ioctl.ringId
  | .listen => ioctl.lengthOk && (decide (env.file.state = .bound) &&
      decide (ioctl.backlog ≤ somaxconn) && env.synList)
  | .accept _ => ioctl.lengthOk && decide (env.file.state = .listening) &&
      decide (env.fileHandle = .success) && canInit ioctl.rxEvent env.event
  | .connect | .wait => ioctl.lengthOk && decide (env.file.state = .bound)
  | .disconnect => decide (env.file.state = .connected) || decide (env.file.state = .accepted)
  | .getInfo => ioctl.lengthOk &&
      match ioctl.infoType with
      | .peerInfo => decide (env.file.state = .connecting) ||
          decide (env.file.state = .connected) || decide (env.file.state = .accepted)
      | .localInfo => hasRing env.file.state
      | .unset => false
  | .dumpRing => hasRing env.file.state
  | .other => false

def acts (env : Env) : Request → Bool
  | .read length => readActs env length
  | .write length dcs => writeActs env length dcs
  | .deviceControl ioctl => ioctlActs env ioctl

section Dispatch
variable {env : Env} {es drive : List Effect} {flags : BitVec 32} {insertHead : Bool}
  {status : NtStatus}

theorem quiet_queueThen :
    (queueThen env flags insertHead drive).2.all Effect.quiet =
      !(env.insert.ntSuccess && !drive.all Effect.quiet) := by
  unfold queueThen
  split
  · next h => simp [h, Effect.quiet]
  · next h => simp [h, Effect.quiet]

theorem quiet_simpleComplete :
    (simpleComplete status).2.all Effect.quiet = !status.ntSuccess := by
  simp [simpleComplete, Effect.quiet]

theorem accepterReads_quiet (data : List Nat) (reads : List (Nat × Bool)) :
    (v4vProcessAccepterReads data reads).1.all Effect.quiet = !served data reads ∧
      (v4vProcessAccepterReads data reads).2 = served data reads := by
  induction reads generalizing data with
  | nil => cases data <;> exact ⟨rfl, rfl⟩
  | cons r reads ih =>
    obtain ⟨len, preStream⟩ := r
    cases data with
    | nil => exact ⟨rfl, rfl⟩
    | cons length data =>
      unfold v4vProcessAccepterReads
      obtain ⟨hq, hn⟩ := ih (length :: data)
      split
      · next hpre =>
        subst hpre
        simpa [served, Effect.quiet, NtStatus.ntSuccess] using And.intro hq hn
      · next hpre =>
        split
        · next hlt =>
          have hle : ¬ length ≤ len := by omega
          simpa [served, Effect.quiet, NtStatus.ntSuccess, hpre, hle] using And.intro hq hn
        · next hlt =>
          have hle : length ≤ len := by omega
          simp [served, Effect.quiet, NtStatus.ntSuccess, hpre, hle]

theorem quiet_finish {ctrl : NtStatus × List Effect} :
    (finish ctrl).2.all Effect.quiet =
      (ctrl.2.all Effect.quiet && (decide (ctrl.1 = .pending) || !ctrl.1.ntSuccess)) := by
  unfold finish
  by_cases h : ctrl.1 = .pending
  · simp [h]
  · simp [h, Effect.quiet]

theorem unmapped {length : Nat} (h : 0 < length ∧ env.mapped = false) :
    (decide (length = 0) || env.mapped) = false := by
  simp [h.2, Nat.pos_iff_ne_zero.mp h.1]

theorem mapped {length : Nat} (h : ¬ (0 < length ∧ env.mapped = false)) :
    (decide (length = 0) || env.mapped) = true := by
  rw [not_and_or, Nat.not_lt, Nat.le_zero, Bool.not_eq_false] at h
  simpa using h

theorem quiet_fail (h : status.ntSuccess = false) :
    (finish (status, [])).2.all Effect.quiet = true := by
  rw [quiet_finish]
  simp [h]

theorem ntStatus_success {s : Bind.Status} : (ntStatus s).ntSuccess = decide (s = .success) := by
  cases s <;> rfl

theorem ntStatus_pending (s : Bind.Status) : ntStatus s ≠ .pending := by
  cases s <;> simp [ntStatus]

theorem initFile_status (ctx : File) (rxEvent : Bool) (ringLength : Nat)
    (reference : Bind.Status) :
    (Bind.v4vCtrlInitializeFile (some ctx) rxEvent ringLength reference).1 = .success ↔
      canInit rxEvent reference = true := by
  cases rxEvent with
  | false => simp [Bind.v4vCtrlInitializeFile, canInit]
  | true =>
    by_cases h : reference = .success
    · simp [Bind.v4vCtrlInitializeFile, canInit, h]
    · simp [Bind.v4vCtrlInitializeFile, canInit, h]

theorem initFile_quiet {ctx : File} {rxEvent : Bool} {ringLength : Nat}
    {reference : Bind.Status} :
    (finish (initFile ctx rxEvent ringLength reference)).2.all Effect.quiet =
      !canInit rxEvent reference := by
  have hiff := initFile_status ctx rxEvent ringLength reference
  rw [quiet_finish]
  simp only [initFile, ntStatus_success, ntStatus_pending]
  by_cases h : canInit rxEvent reference = true
  · simp [hiff.mpr h, h, Effect.quiet]
  · simp [mt hiff.mp h, h]

theorem bind_registers {ringId : RingId} {status : Bind.Status}
    (h : (Bind.v4vCtrlBind env.rings env.file ringId env.mem env.random env.register).1 = status) :
    canRegister env ringId = decide (status = .success ∨ status = .unsuccessful) := by
  subst h
  unfold canRegister Bind.v4vCtrlBind
  split
  · next hstate => simp [hstate]
  · next hstate =>
    have hstate : env.file.state = .idle := not_not.mp hstate
    split
    · next hdomain => simp [hdomain.1, hdomain.2]
    · next hdomain =>
      have hdomain : ringId.addr.domain = Bind.domidNone ∨
          ringId.addr.domain = Bind.domidInvalidCompat := by
        rwa [not_and_or, not_not, not_not] at hdomain
      split
      · next halloc => simp [halloc]
      · next robj halloc =>
        simp only
        split
        · next hused => simp [hused.1, hused.2]
        · next hused =>
          have hfree : ringId.addr.port = Bind.portNone ∨
              Bind.v4vRingIdInUse (env.rings.map (·.id)) ringId = false := by
            rwa [not_and_or, not_not, Bool.not_eq_true] at hused
          split <;> simpa [hstate, hdomain, halloc] using hfree

theorem bind_quiet {ringId : RingId} :
    (finish (bindFile env ringId)).2.all Effect.quiet = !canRegister env ringId := by
  unfold bindFile
  generalize hs :
    (Bind.v4vCtrlBind env.rings env.file ringId env.mem env.random env.register).1 = status
  rw [bind_registers hs]
  cases status <;> rfl

theorem listen_quiet {backlog : Nat} :
    (finish (v4vCtrlListen env backlog)).2.all Effect.quiet =
      !(decide (env.file.state = .bound) && decide (backlog ≤ somaxconn) && env.synList) := by
  unfold v4vCtrlListen
  split
  · next h =>
    rw [quiet_fail rfl]
    simp [h]
  · next h =>
    split
    · next hb =>
      rw [quiet_fail rfl]
      simp [Nat.not_le.mpr hb]
    · next hb =>
      split
      · next hs =>
        rw [quiet_fail rfl]
        simp [hs]
      · next hs =>
        have hb : backlog ≤ somaxconn := by omega
        have hs : env.synList = true := by simpa using hs
        have h : env.file.state = .bound := by simpa using h
        simp [h, hb, hs, quiet_finish, Effect.quiet]

theorem accept_quiet {lengthOk rxEvent : Bool} :
    (finish (v4vCtrlAccept env lengthOk rxEvent)).2.all Effect.quiet =
      !(lengthOk && decide (env.file.state = .listening) &&
        decide (env.fileHandle = .success) && canInit rxEvent env.event) := by
  unfold v4vCtrlAccept
  split
  · next h =>
    rw [quiet_fail rfl]
    simp [h]
  · next h =>
    have h : env.file.state = .listening := by simpa using h
    split
    · next hl =>
      rw [quiet_fail rfl]
      simp [hl]
    · next hl =>
      have hl : lengthOk = true := by simpa using hl
      split
      · next hf =>
        rw [quiet_fail (by simpa [ntStatus_success] using hf)]
        simp [hf]
      · next hf =>
        have hf : env.fileHandle = .success := by simpa using hf
        have hiff := initFile_status env.accepter rxEvent env.file.ringLength env.event
        simp only [h, hl, hf, decide_true, Bool.and_self, Bool.true_and]
        split
        · exact initFile_quiet
        · next hs =>
          have hinit : canInit rxEvent env.event = true := by
            rw [← hiff]
            simpa [initFile, ntStatus_success] using hs
          rw [hinit, quiet_finish]
          split <;> simp [Effect.quiet]

theorem connect_quiet :
    (finish (v4vCtrlConnect env)).2.all Effect.quiet = !decide (env.file.state = .bound) := by
  unfold v4vCtrlConnect
  split
  · next h =>
    rw [quiet_fail rfl]
    simp [h]
  · next h =>
    have h : env.file.state = .bound := by simpa using h
    rw [quiet_finish]
    split <;> simp [h, Effect.quiet]

theorem connectWait_quiet :
    (finish (v4vCtrlConnectWait env)).2.all Effect.quiet = !decide (env.file.state = .bound) := by
  unfold v4vCtrlConnectWait
  split
  · next h =>
    rw [quiet_fail rfl]
    simp [h]
  · next h =>
    have h : env.file.state = .bound := by simpa using h
    rw [quiet_finish]
    split <;> simp [h, Effect.quiet]

theorem disconnect_quiet :
    (finish (v4vCtrlDisconnect env)).2.all Effect.quiet =
      !(decide (env.file.state = .connected) || decide (env.file.state = .accepted)) := by
  unfold v4vCtrlDisconnect
  cases env.file.state <;> rfl

theorem getInfo_quiet {type : InfoType} :
    (finish (v4vCtrlGetInfo env type)).2.all Effect.quiet =
      !(match type with
        | .peerInfo => decide (env.file.state = .connecting) ||
            decide (env.file.state = .connected) || decide (env.file.state = .accepted)
        | .localInfo => hasRing env.file.state
        | .unset => false) := by
  unfold v4vCtrlGetInfo
  cases type with
  | unset => rfl
  | localInfo => cases env.file.state <;> rfl
  | peerInfo => cases env.file.state <;> rfl

theorem dumpRing_quiet :
    (finish (v4vCtrlDumpRing env)).2.all Effect.quiet = !hasRing env.file.state := by
  unfold v4vCtrlDumpRing
  cases env.file.state <;> rfl

theorem ioctl_quiet {ds : BitVec 32} {ioctl : Ioctl} :
    (v4vDispatchDeviceControl ds env ioctl).2.all Effect.quiet = !ioctlActs env ioctl := by
  -- the length check in front of a handler
  have hchecked : ∀ (ctrl : NtStatus × List Effect) (b : Bool),
      (finish ctrl).2.all Effect.quiet = !b →
      (finish (if ioctl.lengthOk then ctrl else (.invalidParameter, []))).2.all Effect.quiet =
        !(ioctl.lengthOk && b) := by
    intro ctrl b hb
    by_cases hl : ioctl.lengthOk = true
    · rw [if_pos hl, hb, hl, Bool.true_and]
    · rw [if_neg hl, quiet_fail rfl]
      simp [hl]
  rw [v4vDispatchDeviceControl, if_neg (not_not_intro (and_devStopped ds))]
  unfold ioctlRequest ioctlActs
  cases ioctl.code with
  | initFile thunk => exact hchecked _ _ initFile_quiet
  | bind => exact hchecked _ _ bind_quiet
  | listen => exact hchecked _ _ listen_quiet
  | accept thunk => exact accept_quiet
  | connect => exact hchecked _ _ connect_quiet
  | wait => exact hchecked _ _ connectWait_quiet
  | disconnect => exact disconnect_quiet
  | getInfo => exact hchecked _ _ getInfo_quiet
  | dumpRing => exact dumpRing_quiet
  | other => rfl

theorem write_quiet {ds : BitVec 32} {length : Nat} {dcs : BitVec 64 × BitVec 64} :
    (v4vDispatchWrite ds env length dcs).2.all Effect.quiet = !writeActs env length dcs := by
  unfold v4vDispatchWrite writeActs
  extract_lets val write
  have hwrite : ∀ flags insertHead, (write flags insertHead).2.all Effect.quiet =
      !((decide (length = 0) || env.mapped) && env.insert.ntSuccess) := by
    intro flags insertHead
    simp only [write]
    split
    · next h =>
      rw [quiet_simpleComplete, unmapped h]
      rfl
    · next h =>
      rw [quiet_queueThen, if_pos (and_devStopped ds), mapped h]
      simp [Effect.quiet]
  -- the streams, of which only connectors and accepters may write themselves
  have hstream : ∀ own : Bool, (own = false ↔ val = .listening ∨ val = .passive) →
      (if dcs.1 = peekRst.setWidth 64 ∧ dcs.2 = rstMagic then
          write (peekStream ||| peekWrite ||| peekRst) true
        else if dcs.1 = peekAck.setWidth 64 ∧ dcs.2 = ackMagic then
          write (peekStream ||| peekWrite ||| peekAck) false
        else if val = .listening ∨ val = .passive then simpleComplete .invalidDeviceRequest
        else write (peekStream ||| peekWrite) false).2.all Effect.quiet =
        !((decide (length = 0) || env.mapped) && env.insert.ntSuccess &&
          (own || internal dcs)) := by
    intro own hown
    split
    · next h => rw [hwrite]; simp [internal, h.1, h.2]
    · next hr =>
      split
      · next h => rw [hwrite]; simp [internal, h.1, h.2]
      · next ha =>
        have hint : internal dcs = false := by
          rw [not_and] at hr ha
          simpa [internal] using And.intro hr ha
        split
        · next h => rw [quiet_simpleComplete, hown.mpr h, hint]; simp [NtStatus.ntSuccess]
        · next h =>
          have hown : own = true := by simpa using mt hown.mp h
          rw [hwrite, hown]
          simp
  cases hv : env.file.state with
  | bound =>
    simp only [val, hv]
    split
    · next hl => rw [quiet_simpleComplete]; simp [NtStatus.ntSuccess, Nat.not_le.mpr hl]
    · next hl => rw [hwrite]; simp [Nat.not_lt.mp hl]
  | connected => simpa [val, hv] using hstream true (by simp [val, hv])
  | accepted => simpa [val, hv] using hstream true (by simp [val, hv])
  | listening => simpa [val, hv] using hstream false (by simp [val, hv])
  | passive => simpa [val, hv] using hstream false (by simp [val, hv])
  | _ => simp [val, hv, simpleComplete, Effect.quiet, NtStatus.ntSuccess]

theorem read_quiet {ds : BitVec 32} {length : Nat} :
    (v4vDispatchRead ds env length).2.all Effect.quiet = !readActs env length := by
  unfold v4vDispatchRead readActs
  extract_lets val notify
  split
  · next h =>
    rw [quiet_simpleComplete, unmapped h]
    rfl
  · next h =>
    rw [mapped h, Bool.true_and]
    have hds : ¬ (ds &&& devStopped ≠ 0) := not_not_intro (and_devStopped ds)
    -- a stream read that is queued and then driven
    have hstream : ∀ drive : List Effect,
        (if length = 0 then simpleComplete .success
          else queueThen env (peekStream ||| peekRead) false drive).2.all Effect.quiet =
          !(decide (length = 0) || env.insert.ntSuccess && !drive.all Effect.quiet) := by
      intro drive
      split
      · next h0 => rw [quiet_simpleComplete]; simp [NtStatus.ntSuccess, h0]
      · next h0 => rw [quiet_queueThen]; simp [h0]
    cases hv : env.file.state with
    | bound =>
      simp only [val, hv, if_neg hds]
      split
      · next hl => rw [quiet_simpleComplete]; simp [NtStatus.ntSuccess, Nat.not_le.mpr hl]
      · next hl => rw [quiet_queueThen]; simp [Effect.quiet, Nat.not_lt.mp hl]
    | connecting =>
      simp only [val, hv]
      rw [hstream, if_neg hds]
      simp [Effect.quiet]
    | waiting =>
      simp only [val, hv]
      rw [hstream, if_neg hds]
      simp [Effect.quiet]
    | connected =>
      simp only [val, hv]
      rw [hstream, if_neg hds]
      simp [Effect.quiet]
    | accepted =>
      obtain ⟨hquiet, hntfy⟩ := accepterReads_quiet env.dataList env.reads
      simp only [val, hv]
      rw [hstream, if_neg hds]
      -- the notify comes only after a read that got data
      have hdrive : ((v4vProcessAccepterReads env.dataList env.reads).1 ++
          notify (v4vProcessAccepterReads env.dataList env.reads).2).all Effect.quiet =
          !served env.dataList env.reads := by
        rw [List.all_append, hquiet, hntfy]
        cases served env.dataList env.reads <;> rfl
      simp [hdrive]
    | _ => simp [val, hv, simpleComplete, Effect.quiet, NtStatus.ntSuccess]

theorem dispatch_quiet (ds : BitVec 32) (env : Env) (r : Request) :
    (dispatch ds env r).2.all Effect.quiet = !acts env r := by
  cases r with
  | read length => exact read_quiet
  | write length dcs => exact write_quiet
  | deviceControl ioctl => exact ioctl_quiet

end Dispatch

/-! ## Runs -/

/-- A dispatch under way: whether it came in while the device was stopped, and what it does next. -/
structure Call where
  late : Bool
  rest : List Effect
deriving DecidableEq

/-- An effect, whether the device was stopped then, and whether it is of a late request. -/
structure Entry where
  effect : Effect
  stopped : Bool
  late : Bool
deriving DecidableEq

structure Device where
  state : BitVec 32
  /-- ghost: between `V4vStopDevice` and the next start -/
  stopped : Bool
  calls : List Call
  log : List Entry

inductive Act where
  | stopDevice
  | startDevice (ok : Bool)
  | dispatch (env : Env) (r : Request)
  /-- the next effect of a dispatch -/
  | run (k : Call)

namespace Device

variable (s : Device)

def step : Act → Option Device
  | .stopDevice => some { s with state := devStopped, stopped := true }
  | .startDevice ok =>
    some (if ok then { s with state := devStarted, stopped := false } else s)
  | .dispatch env r =>
    some { s with calls := ⟨s.stopped, (Stopped.dispatch s.state env r).2⟩ :: s.calls }
  | .run k =>
    if k ∈ s.calls then
      match k.rest with
      | [] => some { s with calls := s.calls.erase k }
      | e :: es =>
        some { s with
          calls := ⟨k.late, es⟩ :: s.calls.erase k
          log := s.log ++ [⟨e, s.stopped, k.late⟩] }
    else none

end Device

/-- The device after `AddDevice`. -/
def deviceMachine : Machine Device Act where
  init := ⟨devStopped, false, [], []⟩
  step := Device.step

/-- The condition on a step: a request that passes its checks does not come in while the device is
stopped, and the device is not stopped while a dispatch has a ring to use or an RST to send. -/
def Careful (s : Device) : Act → Prop
  | .stopDevice => ∀ k ∈ s.calls, ∀ e ∈ k.rest, e.touches = false
  | .dispatch env r => s.stopped = true → acts env r = false
  | _ => True

instance (s : Device) : (a : Act) → Decidable (Careful s a)
  | .stopDevice =>
    inferInstanceAs (Decidable (∀ k ∈ s.calls, ∀ e ∈ k.rest, e.touches = false))
  | .dispatch env r => inferInstanceAs (Decidable (s.stopped = true → acts env r = false))
  | .startDevice _ | .run _ => inferInstanceAs (Decidable True)

theorem Effect.quiet_touches {e : Effect} (h : e.quiet = true) : e.touches = false := by
  cases e with
  | ring use => cases h
  | sendReset => cases h
  | _ => rfl

/-- What may still happen to an effect. -/
def Harmless (stopped late : Bool) (e : Effect) : Prop :=
  (stopped = true → e.touches = false) ∧ (late = true → e.quiet = true)

structure Windowed (s : Device) : Prop where
  calls : ∀ k ∈ s.calls, ∀ e ∈ k.rest, Harmless s.stopped k.late e
  log : ∀ p ∈ s.log, Harmless p.stopped p.late p.effect

theorem Windowed.step {s t : Device} {a : Act} (h : Windowed s) (hok : Careful s a)
    (hs : s.step a = some t) : Windowed t := by
  cases a with
  | stopDevice =>
    cases hs
    exact ⟨fun k hk e he => ⟨fun _ => hok k hk e he, (h.calls k hk e he).2⟩, h.log⟩
  | startDevice ok =>
    cases hs
    cases ok with
    | false => exact h
    | true => exact ⟨fun k hk e he => ⟨nofun, (h.calls k hk e he).2⟩, h.log⟩
  | dispatch env r =>
    cases hs
    refine ⟨fun k hk e he => ?_, h.log⟩
    rcases List.mem_cons.mp hk with rfl | hk
    · have hquiet : s.stopped = true → e.quiet = true := by
        intro hst
        have hall := dispatch_quiet s.state env r
        rw [hok hst, Bool.not_false, List.all_eq_true] at hall
        exact hall e he
      exact ⟨fun hst => Effect.quiet_touches (hquiet hst), hquiet⟩
    · exact h.calls k hk e he
  | run k =>
    simp only [Device.step] at hs
    split at hs
    · next hk =>
      have hold : ∀ k' ∈ s.calls.erase k, ∀ e ∈ k'.rest, Harmless s.stopped k'.late e :=
        fun k' hk' => h.calls k' (List.mem_of_mem_erase hk')
      split at hs
      · cases hs
        exact ⟨hold, h.log⟩
      · next e es hrest =>
        cases hs
        have hke := h.calls k hk
        rw [hrest] at hke
        refine ⟨fun k' hk' e' he' => ?_, fun p hp => ?_⟩
        · rcases List.mem_cons.mp hk' with rfl | hk'
          · exact hke e' (.tail _ he')
          · exact hold k' hk' e' he'
        · rcases List.mem_append.mp hp with hp | hp
          · exact h.log p hp
          · obtain rfl := List.mem_singleton.mp hp
            exact hke e (.head _)
    · cases hs

/-- In every run whose steps meet the condition, no read, write or IOCTL dispatch uses a ring or
sends between a stop and the next start, and a request that came in between is only queued or
rejected. -/
theorem stopped_window {s : Device} (h : Machine.Reach deviceMachine Careful s) :
    ∀ p ∈ s.log, (p.stopped = true → p.effect.touches = false) ∧
      (p.late = true → p.effect.quiet = true) := by
  have hw : Windowed s := h.inv ⟨nofun, nofun⟩ fun _ _ _ hw hok hs => hw.step hok hs
  exact hw.log

/-- A file in some state, whose IRPs can be queued; nothing waits for it. -/
def fileEnv (state : CtxState) : Env where
  file := ⟨state, .unspecified, 4096, true, none⟩
  accepter := ⟨.uninitialized, .unspecified, 0, false, none⟩
  rings := []
  mem := Bind.roomy
  random := 0
  register := true
  mapped := true
  insert := .success
  preConnect := false
  notify := false
  dataList := []
  reads := []
  later := state
  event := .success
  fileHandle := .success
  synList := true
  synCount := 0
  accepts := 0
  acks := []

/-- A write on a started device drives its ring; a read of an accepter without data that comes in
after the stop is queued. -/
theorem stopped_window_run : ∃ s, Machine.Reach deviceMachine Careful s ∧
    (⟨.ring .contextWrites, false, false⟩ ∈ s.log ∧
      ⟨.insert (peekStream ||| peekRead) false, true, true⟩ ∈ s.log) ∧
    ∀ p ∈ s.log, (p.stopped = true → p.effect.touches = false) ∧
      (p.late = true → p.effect.quiet = true) := by
  obtain ⟨s, hs, hp⟩ := Machine.exists_reach deviceMachine Careful
    (fun s => decide (⟨.ring .contextWrites, false, false⟩ ∈ s.log ∧
      ⟨.insert (peekStream ||| peekRead) false, true, true⟩ ∈ s.log))
    [.startDevice true, .dispatch (fileEnv .connected) (.write 10 (0, 0)),
      .run ⟨false, [.insert (peekStream ||| peekWrite) false, .ring .contextWrites]⟩,
      .run ⟨false, [.ring .contextWrites]⟩, .stopDevice,
      .dispatch (fileEnv .accepted) (.read 10),
      .run ⟨true, [.insert (peekStream ||| peekRead) false, .event false]⟩]
    (by decide +kernel)
  exact ⟨s, hs, of_decide_eq_true hp, stopped_window hs⟩

/-- A write that comes in after the stop drives its ring all the same. -/
theorem stopped_writes : ¬ ∀ s, Machine.Reach deviceMachine Machine.Any s →
    ∀ p ∈ s.log, (p.stopped = true → p.effect.touches = false) ∧
      (p.late = true → p.effect.quiet = true) := by
  intro hall
  obtain ⟨s, hs, hp⟩ := Machine.exists_reach deviceMachine Machine.Any
    (fun s => decide (⟨.ring .contextWrites, true, true⟩ ∈ s.log))
    [.startDevice true, .stopDevice, .dispatch (fileEnv .connected) (.write 10 (0, 0)),
      .run ⟨true, [.insert (peekStream ||| peekWrite) false, .ring .contextWrites]⟩,
      .run ⟨true, [.ring .contextWrites]⟩]
    (by decide +kernel)
  have h := (hall s hs _ (of_decide_eq_true hp)).1 rfl
  cases h

end XcWindows.V4v.Stopped
