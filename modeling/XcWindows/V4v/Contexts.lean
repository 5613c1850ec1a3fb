import Mathlib.Algebra.GroupWithZero.Nat
import XcWindows.Lib.Machine
import XcWindows.Lib.Num
import XcWindows.V4v.Listener

/-!
# References to contexts

Who holds a reference to a v4v context and when it is dropped: `xenv4v/create.c`, the IOCTLs of
`ioctl.c`, the cancellation in `csq.c` and the passes over `V4vGetAllContexts` in `xenv4v.c` and
`rw.c`. The state is every context ever created and what is under way: a function on some thread
between two of its steps, a pended IRP, a snapshot of the context list. Each step names the item it
advances, so that all of them interleave. Taking the context lock is one step together with what is
done under it; `V4vReleaseContextInternal` reads the type of the context before that, in a step of
its own, and goes on with `k` when it has returned. The dispatch routines take no reference to the
context of their file: each check, each store to the type or the state and each insertion of an IRP
is a step, and the handle may be closed in between.

A step that touches a context whose count is zero, other than to free it, is a `fault`.
-/

namespace XcWindows.V4v.Contexts

open Lib

structure Ctx where
  alive : Bool
  refc : Nat
  linked : Bool
  handle : Bool
  type : CtxType
  state : CtxState
  listenerContext : Option Nat
deriving DecidableEq

inductive IrpKind where
  /-- pended in the queue as a read; a connect that waits for the ACK is one too -/
  | read
  | write
  /-- a write taken from the queue by a pass that is about to send it -/
  | sending
deriving DecidableEq

def IrpKind.queued : IrpKind → CtxState → Bool
  | .read, .bound | .read, .connecting | .read, .waiting | .read, .connected | .read, .accepted
  | .write, .bound | .write, .connected | .write, .accepted => true
  | _, _ => false

inductive AcceptPc where
  | lookup
  | addRef
  | initializeFile
  | addRefListener
  | attach
  | insert
  | failed
deriving DecidableEq

inductive CompletePc where
  | release
  | state
  | acknowledge
deriving DecidableEq

inductive CleanupPc where
  | start
  | unlink
  | handle
deriving DecidableEq

inductive DispatchPc where
  | initializeFile
  -- V4vCtrlBind
  | bindCheck | bindType | bindState
  -- V4vCtrlListen
  | listenCheck | listenType | listenState
  -- V4vCtrlConnect
  | connectCheck | connectType | connectState | connectInsert
  -- V4vCtrlConnectWait
  | waitCheck | waitType | waitState | waitInsert
  -- V4vCtrlDisconnect
  | disconnectCheck | disconnectState
  | acceptCheck (a : Nat)
  | pend (kind : IrpKind)
  | insert (kind : IrpKind)
  | process
deriving DecidableEq

def DispatchPc.entry : DispatchPc → Bool
  | initializeFile | bindCheck | listenCheck | connectCheck | waitCheck | disconnectCheck
  | acceptCheck _ | pend .read | pend .write => true
  | _ => false

inductive Call where
  | done
  | dispatch (c : Nat) (pc : DispatchPc)
  | accept (l a : Nat) (pc : AcceptPc)
  | pending (l a : Nat)
  /-- `V4vCsqCompleteCanceledIrp` of an accept IRP -/
  | cancelled (l a : Nat)
  | doAccepts (l : Nat)
  /-- `V4vDoAccepts` with an accept IRP in hand; `o` is the snapshot of the pass that called it -/
  | complete (o : Option (List Nat)) (l a : Nat) (pc : CompletePc)
  | irp (kind : IrpKind) (c : Nat)
  | cleanup (c : Nat) (pc : CleanupPc)
  | release (c : Nat) (k : Call)
  | drop (c : Nat) (val : CtxType) (k : Call)
  | free (c : Nat) (k : Call)
  /-- a pass with the contexts of `V4vGetAllContexts` it has not put back -/
  | pass (cs : List Nat)
  /-- a pass with the context of `V4vGetContextByConnectionId` -/
  | reader (cs : List Nat) (a : Nat)
deriving DecidableEq

structure Device where
  ctx : Nat → Ctx
  count : Nat
  calls : List Call
  fault : Bool

inductive Act where
  | create
  | dispatch (c : Nat) (pc : DispatchPc)
  | turn (c : Nat) (kind kind' : IrpKind)
  | finish (c : Nat) (kind : IrpKind)
  | snapshot (ok : Bool)
  | transition (k : Call) (c : Nat) (state : CtxState)
  | send (k : Call) (c : Nat)
  | lookup (cs : List Nat) (a : Nat)
  | take (k : Call) (l a : Nat)
  | cleanup (c : Nat)
  | run (k : Call) (ok : Bool)

namespace Device

variable (s : Device)

def set (c : Nat) (x : Ctx) : Device := { s with ctx := Function.update s.ctx c x }

/-- The call `k` goes on as `ks`. -/
def put (k : Call) (ks : List Call) : Device := { s with calls := ks ++ s.calls.erase k }

def setState (c : Nat) (state : CtxState) : Device := s.set c { s.ctx c with state }

def setType (c : Nat) (type : CtxType) : Device := s.set c { s.ctx c with type }

/-- An IRP is inserted, and the call `k` goes on as `k'`. -/
def queue (k : Call) (kind : IrpKind) (c : Nat) (k' : Call) : Device := s.put k [.irp kind c, k']

def addRef (c : Nat) : Device := s.set c { s.ctx c with refc := (s.ctx c).refc + 1 }

def live (c : Nat) : Bool := (s.ctx c).alive && (s.ctx c).refc != 0

def touch (c : Nat) (t : Device) : Option Device :=
  some (if s.live c then t else { s with fault := true })

/-- `V4vReleaseContextInternal` from the decrement on, with the type it has read: the context after
it, whether the count is zero. -/
def dropped (c : Nat) (val : CtxType) : Ctx :=
  if val = .listener ∧ (s.ctx c).refc - 1 = 1 then
    { s.ctx c with refc := 0, linked := false }
  else { s.ctx c with refc := (s.ctx c).refc - 1 }

/-- How the release goes on: with the listener of an accepter that is freed, then with `k`. -/
def afterDrop (c : Nat) (val : CtxType) (k : Call) : Option Call :=
  if (s.dropped c val).refc = 0 then
    if val = .accepter then (s.ctx c).listenerContext.map fun l => .release l (.free c k)
    else some (.free c k)
  else some k

def dropRef (k : Call) (c : Nat) (val : CtxType) (k' : Call) : Option Device :=
  s.touch c
    (match s.afterDrop c val k' with
    | some k'' => (s.set c (s.dropped c val)).put k [k'']
    | none => { s with fault := true })

def contextList : List Nat := (List.range s.count).filter fun c => (s.ctx c).linked

end Device

def streamType : CtxType → Bool
  | .listener | .connector | .accepter => true
  | .unspecified | .datagram => false

/-- Where `V4vDoAccepts` goes on after an accept. -/
def Call.back (o : Option (List Nat)) (l : Nat) : Call :=
  match o with
  | none => .doAccepts l
  | some cs => .pass cs

/-- The pass has the context in its snapshot; the IRP, the dispatch routine or the ACK belongs to the
context. -/
def Call.worksOn (c : Nat) : Call → Bool
  | .pass cs => cs.contains c
  | .reader cs a => cs.contains c || a == c
  | .irp .sending d | .dispatch d _ | .complete _ _ d .acknowledge => d == c
  | _ => false

/-- The origin of a call of `V4vDoAccepts` for the listener `l`. -/
def Call.origin (l : Nat) : Call → Option (Option (List Nat))
  | .doAccepts l' => if l' = l then some none else none
  | .pass cs => if l ∈ cs then some (some cs) else none
  | _ => none

namespace Device

variable (s : Device)

/-- The next step of a dispatch routine on `c`, which is the call `k`. -/
def runDispatch (ok : Bool) (k : Call) (c : Nat) : DispatchPc → Option Device
  | .initializeFile => s.touch c ((if ok then s.setState c .idle else s).put k [.done])
  | .bindCheck =>
    s.touch c (s.put k [if (s.ctx c).state = .idle then .dispatch c .bindType else .done])
  | .bindType =>
    s.touch c
      (if ok then (s.setType c .datagram).put k [.dispatch c .bindState] else s.put k [.done])
  | .bindState => s.touch c ((s.setState c .bound).put k [.done])
  | .listenCheck =>
    s.touch c (s.put k [if (s.ctx c).state = .bound then .dispatch c .listenType else .done])
  | .listenType =>
    s.touch c
      (if ok then (s.setType c .listener).put k [.dispatch c .listenState] else s.put k [.done])
  | .listenState => s.touch c ((s.setState c .listening).put k [.done])
  | .connectCheck =>
    s.touch c (s.put k [if (s.ctx c).state = .bound then .dispatch c .connectType else .done])
  | .connectType => s.touch c ((s.setType c .connector).put k [.dispatch c .connectState])
  | .connectState => s.touch c ((s.setState c .connecting).put k [.dispatch c .connectInsert])
  | .connectInsert =>
    if ok then some (s.queue k .write c (.dispatch c .process))
    else s.touch c ((s.setState c .disconnected).put k [.done])
  | .waitCheck =>
    s.touch c (s.put k [if (s.ctx c).state = .bound then .dispatch c .waitType else .done])
  | .waitType => s.touch c ((s.setType c .connector).put k [.dispatch c .waitState])
  | .waitState => s.touch c ((s.setState c .waiting).put k [.dispatch c .waitInsert])
  | .waitInsert =>
    if ok then some (s.queue k .read c (.dispatch c .process))
    else s.touch c ((s.setState c .disconnected).put k [.done])
  | .disconnectCheck =>
    s.touch c
      (s.put k
        [if (s.ctx c).state = .connected ∨ (s.ctx c).state = .accepted then
          .dispatch c .disconnectState
        else .done])
  | .disconnectState => s.touch c ((s.setState c .disconnected).put k [.done])
  | .acceptCheck a =>
    s.touch c (s.put k [if (s.ctx c).state = .listening then .accept c a .lookup else .done])
  | .pend kind =>
    s.touch c
      (s.put k
        [if kind.queued (s.ctx c).state = true ∧ ok = true then .dispatch c (.insert kind)
        else .done])
  | .insert kind =>
    some (if ok then s.queue k kind c (.dispatch c .process) else s.put k [.done])
  | .process => s.touch c (s.put k [.done])

def runCall (ok : Bool) : Call → Option Device
  | .done => none
  | k@(.dispatch c pc) => s.runDispatch ok k c pc
  | k@(.accept l a .lookup) =>
    some (s.put k [if (s.ctx a).handle then .accept l a .addRef else .done])
  | k@(.accept l a .addRef) => s.touch a ((s.addRef a).put k [.accept l a .initializeFile])
  | k@(.accept l a .initializeFile) =>
    s.touch a
      (if ok then (s.setState a .idle).put k [.accept l a .addRefListener]
      else s.put k [.release a (.accept l a .failed)])
  | k@(.accept l a .addRefListener) => s.touch l ((s.addRef l).put k [.accept l a .attach])
  | k@(.accept l a .attach) =>
    s.touch a
      ((s.set a
        { s.ctx a with listenerContext := some l, type := .accepter, state := .accepting }).put k
          [.accept l a .insert])
  | k@(.accept l a .insert) =>
    some (s.put k (if ok then [.pending l a, .doAccepts l] else [.done]))
  | k@(.accept _ _ .failed) => some (s.put k [.done])
  | k@(.pending l a) => some (s.put k [.cancelled l a])
  | k@(.cancelled l a) =>
    if s.live l then
      s.touch a
        (s.put k [if (s.ctx a).state = .accepting then .release a .done else .done])
    else some { s with fault := true }
  | k@(.doAccepts l) => s.touch l (s.put k [.done])
  | k@(.complete o l a .release) =>
    if s.live l then s.touch a (s.put k [.release a (.complete o l a .state)])
    else some { s with fault := true }
  | k@(.complete o l a .state) =>
    s.touch a ((s.setState a .accepted).put k [.complete o l a .acknowledge])
  | k@(.complete o l a .acknowledge) =>
    s.touch a ((if ok then s else s.setState a .disconnected).put k [.back o l])
  | .irp _ _ => none
  | k@(.cleanup c .start) =>
    s.touch c
      (if (s.ctx c).type = .listener then (s.setState c .passive).put k [.release c .done]
      else (s.setState c .closed).put k [.cleanup c .unlink])
  -- the list entry goes and its reference with it, under one lock
  | k@(.cleanup c .unlink) =>
    (s.set c { s.ctx c with linked := false }).dropRef k c (s.ctx c).type (.cleanup c .handle)
  | k@(.cleanup c .handle) => some (s.put k [.release c .done])
  | k@(.release c k') => s.touch c (s.put k [.drop c (s.ctx c).type k'])
  | k@(.drop c val k') => s.dropRef k c val k'
  -- V4vCancelAllFileIrps and the memory
  | k@(.free c k') =>
    some
      (if (s.ctx c).alive then
        { s.set c { s.ctx c with alive := false } with
          calls := k' :: (s.calls.erase k).filter (· ≠ .irp .write c) }
      else { s with fault := true })
  | k@(.pass []) => some (s.put k [.done])
  -- V4vPutAllContexts, under one lock
  | k@(.pass (c :: cs)) => s.dropRef k c (s.ctx c).type (.pass cs)
  | k@(.reader cs a) => s.touch a (s.put k [.release a (.pass cs)])

def uses (c : Nat) (k : Call) : Bool := decide (k ∈ s.calls) && k.worksOn c

def step : Act → Option Device
  | .create =>
    some { (s.set s.count ⟨true, 2, true, true, .unspecified, .uninitialized, none⟩) with
      count := s.count + 1 }
  | .dispatch c pc =>
    if (s.ctx c).handle = true ∧ pc.entry = true then
      some { s with calls := .dispatch c pc :: s.calls }
    else none
  | .turn c kind kind' =>
    if .irp kind c ∈ s.calls then s.touch c (s.put (.irp kind c) [.irp kind' c]) else none
  | .finish c kind =>
    if .irp kind c ∈ s.calls then s.touch c (s.put (.irp kind c) [.done]) else none
  | .snapshot ok =>
    some
      (if ok ∧ s.contextList ≠ [] then
        { s with
          ctx := fun c =>
            if c ∈ s.contextList then { s.ctx c with refc := (s.ctx c).refc + 1 } else s.ctx c
          calls := .pass s.contextList :: s.calls }
      else s)
  | .transition k c state =>
    if s.uses c k = true ∧
      (state = .disconnected ∧ streamType (s.ctx c).type = true ∨
        state = .connected ∧ (s.ctx c).type = .connector)
    then s.touch c (s.setState c state) else none
  | .send k c =>
    if s.uses c k = true then s.touch c { s with calls := .irp .write c :: s.calls } else none
  | .lookup cs a =>
    if .pass cs ∈ s.calls ∧ a ∈ s.contextList ∧ (s.ctx a).state = .accepted ∧
        (s.ctx a).type = .accepter
    then some ((s.addRef a).put (.pass cs) [.reader cs a]) else none
  | .take k l a =>
    match k.origin l with
    | none => none
    | some o =>
      if k ∈ s.calls ∧ .pending l a ∈ s.calls then
        some { s with calls := .complete o l a .release :: (s.calls.erase k).erase (.pending l a) }
      else none
  | .cleanup c =>
    if (s.ctx c).handle then
      some { s.set c { s.ctx c with handle := false } with calls := .cleanup c .start :: s.calls }
    else none
  | .run k ok => if k ∈ s.calls then s.runCall ok k else none

end Device

def deviceMachine : Machine Device Act where
  init := ⟨fun _ => ⟨false, 0, false, false, .unspecified, .uninitialized, none⟩, 0, [], false⟩
  step := Device.step

/-! ## The condition -/

/-- A dispatch routine on the file; an ACCEPT that names the context, up to the completion of its
IRP. -/
def Call.names (c : Nat) : Call → Bool
  | .dispatch d _ => d == c
  | .accept l a pc => l == c || (a == c && pc != .lookup)
  | .pending _ a | .cancelled _ a => a == c
  | .doAccepts l => l == c
  | .complete o l a _ => a == c || (o.isNone && l == c)
  | .release _ k | .drop _ _ k | .free _ k => k.names c
  | .done | .irp _ _ | .cleanup _ _ | .pass _ | .reader _ _ => false

/-- An ACCEPT has made the context IDLE and not attached it yet. -/
def Call.initialized (c : Nat) : Call → Nat
  | .accept _ a pc => if a = c ∧ (pc = .addRefListener ∨ pc = .attach) then 1 else 0
  | .release _ k | .drop _ _ k | .free _ k => k.initialized c
  | .done | .dispatch _ _ | .pending _ _ | .cancelled _ _ | .doAccepts _ | .complete _ _ _ _
  | .irp _ _ | .cleanup _ _ | .pass _ | .reader _ _ => 0

/-- `V4vCtrlInitializeFile` finds the context as it should. -/
def Uninitialized (s : Device) (c : Nat) : Prop :=
  (s.ctx c).state = .uninitialized ∨ (s.ctx c).state = .idle

instance (s : Device) (c : Nat) : Decidable (Uninitialized s c) :=
  inferInstanceAs (Decidable (_ ∨ _))

def Roleless (s : Device) (c : Nat) : Prop :=
  (s.ctx c).state = .bound ∧ streamType (s.ctx c).type = false

instance (s : Device) (c : Nat) : Decidable (Roleless s c) :=
  inferInstanceAs (Decidable (_ ∧ _))

/-- A release with the type `val` drops the last reference; a listener is then kept by the list
alone. No read of the context is pended, no write is being sent. -/
def Quiet (s : Device) (c : Nat) (val : CtxType) : Prop :=
  (s.ctx c).refc = 1 ∨ val = .listener ∧ (s.ctx c).refc = 2 →
    .irp .read c ∉ s.calls ∧ .irp .sending c ∉ s.calls

instance (s : Device) (c : Nat) (val : CtxType) : Decidable (Quiet s c val) :=
  inferInstanceAs (Decidable (_ → _))

/-- A store of a dispatch routine finds its file as the check has: still IDLE, and in no ACCEPT, or
still BOUND without a role. -/
def CarefulDispatch (s : Device) (ok : Bool) (c : Nat) : DispatchPc → Prop
  | .initializeFile => ok = true → Uninitialized s c
  | .bindType => ok = true → (s.ctx c).state = .idle
  | .bindState => (s.ctx c).state = .idle ∧ ∀ k ∈ s.calls, k.initialized c = 0
  | .listenType => ok = true → Roleless s c
  | .connectType | .waitType => Roleless s c
  | _ => True

/-- The next step of a call is one that keeps the references right. -/
def CarefulCall (s : Device) (ok : Bool) : Call → Prop
  | .dispatch c pc => CarefulDispatch s ok c pc
  | .accept _ a .initializeFile =>
    ok = true → Uninitialized s a ∧ ∀ k ∈ s.calls, k.initialized a = 0
  | .accept _ _ .insert => ok = true
  | .cancelled _ a => (s.ctx a).state = .accepting
  | .drop c val _ => Quiet s c val
  | .pass (c :: _) => Quiet s c (s.ctx c).type
  | _ => True

/-- A dispatch routine is not overtaken by another one between a check and its stores; a context is
initialized once; a handle is not closed before the dispatch routines on it have returned and an
ACCEPT that names it has completed; the accept IRP can be queued, and is cancelled only while its
accepter is ACCEPTING; the last reference does not go while a read is pended or a write being sent,
and a pended write is then left to the release. -/
def Careful (s : Device) : Act → Prop
  | .cleanup c => ∀ k ∈ s.calls, k.names c = false
  | .turn c _ _ | .finish c _ => (s.ctx c).refc ≠ 0
  | .run k ok => CarefulCall s ok k
  | _ => True

instance (s : Device) (ok : Bool) (c : Nat) : DecidablePred (CarefulDispatch s ok c)
  | .initializeFile => inferInstanceAs (Decidable (_ → Uninitialized s c))
  | .bindType => inferInstanceAs (Decidable (_ → _ = _))
  | .bindState => inferInstanceAs (Decidable (_ ∧ ∀ k ∈ s.calls, _))
  | .listenType => inferInstanceAs (Decidable (_ → Roleless s c))
  | .connectType | .waitType => inferInstanceAs (Decidable (Roleless s c))
  | .bindCheck | .listenCheck | .listenState | .connectCheck | .connectState | .connectInsert
  | .waitCheck | .waitState | .waitInsert | .disconnectCheck | .disconnectState | .acceptCheck _
  | .pend _ | .insert _ | .process => isTrue trivial

instance (s : Device) (ok : Bool) : DecidablePred (CarefulCall s ok)
  | .dispatch c pc => inferInstanceAs (Decidable (CarefulDispatch s ok c pc))
  | .accept _ _ .initializeFile => inferInstanceAs (Decidable (_ → _ ∧ ∀ k ∈ s.calls, _))
  | .accept _ _ .insert => inferInstanceAs (Decidable (_ = _))
  | .cancelled _ _ => inferInstanceAs (Decidable (_ = _))
  | .drop c val _ => inferInstanceAs (Decidable (Quiet s c val))
  | .pass (c :: _) => inferInstanceAs (Decidable (Quiet s c (s.ctx c).type))
  | .accept _ _ .lookup | .accept _ _ .addRef | .accept _ _ .addRefListener | .accept _ _ .attach
  | .accept _ _ .failed | .done | .pending _ _ | .doAccepts _ | .complete _ _ _ _ | .irp _ _
  | .cleanup _ _ | .release _ _ | .free _ _ | .pass [] | .reader _ _ => isTrue trivial

instance (s : Device) : DecidablePred (Careful s)
  | .cleanup _ => inferInstanceAs (Decidable (∀ k ∈ s.calls, _))
  | .turn c _ _ | .finish c _ => inferInstanceAs (Decidable ((s.ctx c).refc ≠ 0))
  | .run k ok => inferInstanceAs (Decidable (CarefulCall s ok k))
  | .create | .dispatch _ _ | .snapshot _ | .transition _ _ _ | .send _ _ | .lookup _ _
  | .take _ _ _ => isTrue trivial

/-! ## Holders -/

def Call.holds (c : Nat) : Call → Nat
  | .accept l a pc =>
    (match pc with
      | .initializeFile | .addRefListener | .attach | .insert => if a = c then 1 else 0
      | .lookup | .addRef | .failed => 0) +
    if l = c ∧ pc = .attach then 1 else 0
  | .pending _ a | .cancelled _ a => if a = c then 1 else 0
  | .complete o _ a pc =>
    (o.getD []).count c + if a = c ∧ pc = .release then 1 else 0
  | .cleanup d _ => if d = c then 1 else 0
  | .release d k | .drop d _ k => (if d = c then 1 else 0) + k.holds c
  | .free _ k => k.holds c
  | .pass cs => cs.count c
  | .reader cs a => cs.count c + if a = c then 1 else 0
  | .done | .dispatch _ _ | .doAccepts _ | .irp _ _ => 0

def Call.frees (c : Nat) : Call → Nat
  | .free d k => (if d = c then 1 else 0) + k.frees c
  | .release _ k | .drop _ _ k => k.frees c
  | .done | .dispatch _ _ | .accept _ _ _ | .pending _ _ | .cancelled _ _ | .doAccepts _
  | .complete _ _ _ _ | .irp _ _ | .cleanup _ _ | .pass _ | .reader _ _ => 0

def Call.unlinks (c : Nat) : Call → Nat
  | .cleanup d pc => if d = c ∧ pc ≠ .handle then 1 else 0
  | .release _ k | .drop _ _ k | .free _ k => k.unlinks c
  | .done | .dispatch _ _ | .accept _ _ _ | .pending _ _ | .cancelled _ _ | .doAccepts _
  | .complete _ _ _ _ | .irp _ _ | .pass _ | .reader _ _ => 0

namespace Device

variable (s : Device)

def total (f : Call → Nat) : Nat := (s.calls.map f).sum

def attached (c : Nat) : Nat :=
  Nat.count (fun a => (s.ctx a).refc ≠ 0 ∧ (s.ctx a).listenerContext = some c) s.count

/-- The holders of a reference to `c`: the list link, the open handle, the calls, IRPs and
snapshots, and the attached accepters. -/
def holders (c : Nat) : Nat :=
  (if (s.ctx c).linked then 1 else 0) + (if (s.ctx c).handle then 1 else 0) +
    s.total (Call.holds c) + s.attached c

end Device

end XcWindows.V4v.Contexts
