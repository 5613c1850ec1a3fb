import XcWindows.Lib.Machine
import XcWindows.Xenbus.Integers

/-!
# Ending a XenStore transaction

`__xenbus_transaction_start`, the operations of `xenutil/xenbus.c`, `xenutil/evtchn.c` and
`xenutil/gntmap.c` in a transaction, `abort_all_transactions` and `__xenbus_transaction_end`, over
statuses as they are: `STATUS_OBJECT_NAME_EXISTS`, which `EEXIST` is mapped to, passes `NT_SUCCESS`.
An operation is told to fail the transaction with what it returns (`Op.run_eq`), and the first error
stays (`Recorded`). `__xenbus_transaction_end` reads it only if xenstored, or the submission, has no
error of its own for the request.
-/

namespace XcWindows.Xenbus.TransactionEnd

open Lib

abbrev Ntstatus := UInt32

def ntSuccess (status : Ntstatus) : Bool := status < 0x80000000

abbrev statusSuccess : Ntstatus := 0
abbrev statusUnsuccessful : Ntstatus := 0xC0000001
abbrev statusInvalidHandle : Ntstatus := 0xC0000008
abbrev statusInvalidParameter : Ntstatus := 0xC000000D
abbrev statusObjectNameNotFound : Ntstatus := 0xC0000034
abbrev statusDataError : Ntstatus := 0xC000003E
abbrev statusInsufficientResources : Ntstatus := 0xC000009A
abbrev statusDeviceNotReady : Ntstatus := 0xC00000A3
abbrev statusInternalError : Ntstatus := 0xC00000E5
abbrev statusRetry : Ntstatus := 0xC000022D

def xsdErrors : List (String × Ntstatus) :=
  [("EINVAL", statusInvalidParameter),
   ("EACCES", 0xC0000022),
   ("EEXIST", 0x40000000),
   ("EISDIR", 0xC00000BA),
   ("ENOENT", statusObjectNameNotFound),
   ("ENOMEM", 0xC0000017),
   ("ENOSPC", 0xC000007F),
   ("EIO", statusDataError),
   ("ENOTEMPTY", 0xC0000101),
   ("ENOSYS", 0xC000001C),
   ("EROFS", statusInternalError),
   ("EBUSY", 0x80000011),
   ("EAGAIN", statusRetry),
   ("EISCONN", 0xC000023B),
   ("E2BIG", 0xC000007F)]

def getError (msg : String) : Ntstatus :=
  match xsdErrors.find? fun e => msg = e.1 with
  | some e => e.2
  | none => statusInternalError

/-- What becomes of a request. -/
inductive Answer where
  | noParavirt
  /-- `start_operation` does not allow new operations -/
  | refused
  /-- `XS_ERROR`; there may have been no memory for the message -/
  | error (msg : Option String)
  | ok (payload : List UInt8)
deriving DecidableEq

namespace Answer

/-- What `submit_request_and_await_result` returns. -/
def status : Answer → Ntstatus
  | .noParavirt => statusUnsuccessful
  | .refused => statusDeviceNotReady
  | .error (some msg) => getError msg
  | .error none => statusInsufficientResources
  | .ok _ => statusSuccess

def payload : Answer → List UInt8
  | .error (some msg) => msg.toUTF8.toList ++ [0]
  | .ok payload => payload
  | .noParavirt | .refused | .error none => []

end Answer

/-- `xenbus_transaction_t` -/
inductive Xbt where
  | nil
  | null
  | valid (status : Ntstatus)
deriving DecidableEq

namespace Xbt

/-- `xenbus_fail_transaction` -/
def fail (xbt : Xbt) (status : Ntstatus) : Xbt :=
  match xbt with
  | .valid old => .valid (if old = statusSuccess then status else old)
  | .nil | .null => xbt

def transactionStatus : Xbt → Ntstatus
  | .nil => statusSuccess
  | .null => statusInsufficientResources
  | .valid status => status

/-- The body of `abort_all_transactions`. -/
def abort : Xbt → Xbt
  | .valid status => .valid (if ntSuccess status then statusRetry else status)
  | xbt => xbt

end Xbt

/-! ## The operations

`status` is `transaction_status(xbt)` as an operation finds it when it is called, `xbt` the transaction
when the request is answered: there may have been a resume in between. -/

def xenbusWriteBin (status : Ntstatus) (xbt : Xbt) (answer : Answer) : Xbt × Ntstatus :=
  if !ntSuccess status then (xbt, status)
  else if !ntSuccess answer.status then (xbt.fail answer.status, answer.status)
  else (xbt, answer.status)

def xenbusRemove : Ntstatus → Xbt → Answer → Xbt × Ntstatus := xenbusWriteBin

/-- `xenbus_ls`, where `alloc` tells whether there is memory for the list and all its strings -/
def xenbusLs (status : Ntstatus) (xbt : Xbt) (answer : Answer) (alloc : Bool) : Xbt × Ntstatus :=
  if !ntSuccess status then (xbt, status)
  else if !ntSuccess answer.status then (xbt.fail answer.status, answer.status)
  else if alloc then (xbt, statusSuccess)
  else (xbt.fail statusInsufficientResources, statusInsufficientResources)

def xenbusReadBinNoFail (status : Ntstatus) (answer : Answer) : Ntstatus :=
  if !ntSuccess status then status else answer.status

def xenbusReadBin (status : Ntstatus) (xbt : Xbt) (answer : Answer) : Xbt × Ntstatus :=
  let res := xenbusReadBinNoFail status answer
  if !ntSuccess res then (xbt.fail res, res) else (xbt, res)

def xenbusRead (status : Ntstatus) (xbt : Xbt) (answer : Answer) (alloc : Bool) : Xbt × Ntstatus :=
  let (xbt, stat) := xenbusReadBin status xbt answer
  if !ntSuccess stat then (xbt, stat)
  else if !alloc then (xbt.fail statusInsufficientResources, statusInsufficientResources)
  else (xbt, statusSuccess)

/-- `xenbus_printf`; `alloc` is `Xmvasprintf` -/
def xenbusPrintf (status : Ntstatus) (xbt : Xbt) (alloc : Bool) (answer : Answer) : Xbt × Ntstatus :=
  if !alloc then (xbt.fail statusInsufficientResources, statusInsufficientResources)
  else xenbusWriteBin status xbt answer

/-- `xm_strtoll` in base 10 -/
def strtoll (buf : List UInt8) : Nat × Bool := strtollLoop 10 buf (0, false)

/-- `xenbus_read_int`, with what it leaves in `*res` -/
def xenbusReadInt (status : Ntstatus) (xbt : Xbt) (answer : Answer) : Xbt × Ntstatus × Nat :=
  let (xbt, stat) := xenbusReadBin status xbt answer
  if !ntSuccess stat then (xbt, stat, 0)
  else if (strtoll answer.payload).2 then (xbt.fail statusDataError, statusDataError, 0)
  else (xbt, statusSuccess, (strtoll answer.payload).1)

/-- A number that is read and has to pass a test: what `xenbus_read_state` and the like make of
`xenbus_read_int`. -/
def readChecked (good : Nat → Bool) (status : Ntstatus) (xbt : Xbt) (answer : Answer) :
    Xbt × Ntstatus :=
  let (xbt, stat, res) := xenbusReadInt status xbt answer
  if !ntSuccess stat then (xbt, stat)
  else if !good res then (xbt.fail statusDataError, statusDataError)
  else (xbt, stat)

def xenbusReadState : Ntstatus → Xbt → Answer → Xbt × Ntstatus :=
  readChecked fun res => !(decide (res > xenbusStateClosed) || decide (res = 0))

def xenbusReadEvtchnPort : Ntstatus → Xbt → Answer → Xbt × Ntstatus :=
  readChecked fun res => !decide (res ≠ u32 res)

def xenbusReadGrantRef : Ntstatus → Xbt → Answer → Xbt × Ntstatus :=
  readChecked fun res => !(decide (res ≠ u32 res) || decide (res = 0))

def xenbusReadDomainId (status : Ntstatus) (xbt : Xbt) (answer : Answer) : Xbt × Ntstatus :=
  let (xbt, res) := xenbusReadBin status xbt answer
  if !ntSuccess res then (xbt, res)
  else if domidFirstReserved ≤ (strtoll answer.payload).1 then
    (xbt.fail statusInvalidParameter, statusInvalidParameter)
  else (xbt, res)

def xenbusReadFeatureFlag (status : Ntstatus) (xbt : Xbt) (answer : Answer) : Xbt × Ntstatus :=
  let res := xenbusReadBinNoFail status answer
  if res = statusObjectNameNotFound then (xbt, statusSuccess)
  else if !ntSuccess res then (xbt.fail res, res)
  else if answer.payload = [48] ∨ answer.payload = [49] then (xbt, res)
  else (xbt.fail statusDataError, statusDataError)

def xenbusWriteEvtchnPort (status : Ntstatus) (xbt : Xbt) (xenPort : Int) (alloc : Bool)
    (answer : Answer) : Xbt × Ntstatus :=
  if xenPort = -1 then (xbt.fail statusInvalidHandle, statusInvalidHandle)
  else xenbusPrintf status xbt alloc answer

/-- The operations. `xenbus_write` and `xenbus_write_feature_flag` are `xenbus_write_bin`,
`xenbus_write_state` and `xenbus_write_grant_ref` are `xenbus_printf`, and `xenbus_change_state` in a
transaction is `xenbus_read_state` and then `xenbus_write_state`. -/
inductive Op where
  | ls (answer : Answer) (alloc : Bool)
  | readBin (answer : Answer)
  | read (answer : Answer) (alloc : Bool)
  | writeBin (answer : Answer)
  | remove (answer : Answer)
  | printf (alloc : Bool) (answer : Answer)
  | readInt (answer : Answer)
  | readState (answer : Answer)
  | readDomainId (answer : Answer)
  | readFeatureFlag (answer : Answer)
  | readEvtchnPort (answer : Answer)
  | readGrantRef (answer : Answer)
  | writeEvtchnPort (xenPort : Int) (alloc : Bool) (answer : Answer)
deriving DecidableEq

/-- The transaction after an operation, and what the operation returns. -/
def Op.run (status : Ntstatus) (xbt : Xbt) : Op → Xbt × Ntstatus
  | .ls answer alloc => xenbusLs status xbt answer alloc
  | .readBin answer => xenbusReadBin status xbt answer
  | .read answer alloc => xenbusRead status xbt answer alloc
  | .writeBin answer => xenbusWriteBin status xbt answer
  | .remove answer => xenbusRemove status xbt answer
  | .printf alloc answer => xenbusPrintf status xbt alloc answer
  | .readInt answer =>
    ((xenbusReadInt status xbt answer).1, (xenbusReadInt status xbt answer).2.1)
  | .readState answer => xenbusReadState status xbt answer
  | .readDomainId answer => xenbusReadDomainId status xbt answer
  | .readFeatureFlag answer => xenbusReadFeatureFlag status xbt answer
  | .readEvtchnPort answer => xenbusReadEvtchnPort status xbt answer
  | .readGrantRef answer => xenbusReadGrantRef status xbt answer
  | .writeEvtchnPort xenPort alloc answer => xenbusWriteEvtchnPort status xbt xenPort alloc answer

/-! ## Transactions under way -/

/-- A transaction that was begun: what it is to the code, and the errors so far, of its operations
and of resumes, in their order. -/
structure Trans where
  xbt : Xbt
  errors : List Ntstatus
deriving DecidableEq

namespace Trans

/-- The status `status` is returned by an operation that leaves `xbt`. -/
def after (t : Trans) (r : Xbt × Ntstatus) : Trans :=
  ⟨r.1, if ntSuccess r.2 then t.errors else t.errors ++ [r.2]⟩

/-- A resume, which goes over the list of open transactions. -/
def resume (t : Trans) : Trans :=
  match t.xbt with
  | .valid _ => ⟨t.xbt.abort, t.errors ++ [statusRetry]⟩
  | .nil | .null => t

end Trans

/-- What `__xenbus_transaction_start` asserts about the reply. -/
def ValidId (payload : List UInt8) : Prop :=
  payload.length < 16 ∧ payload.getLast? = some 0 ∧
    (strtoll payload.dropLast).2 = false ∧ (strtoll payload.dropLast).1 < 4294967296

instance (payload : List UInt8) : Decidable (ValidId payload) :=
  inferInstanceAs (Decidable (_ ∧ _))

/-- A call of `xenbus_transaction_start` and what follows it. -/
inductive Slot where
  | unused
  | starting (t : Trans)
  | started (t : Trans)
  | working (t : Trans) (op : Op) (status : Ntstatus)
  | ending (t : Trans) (abort : Bool)
  | ended (t : Trans) (answer : Option Answer) (res : Ntstatus)
deriving DecidableEq

namespace Slot

/-- `work` was allocated, or the transaction is null. -/
def start (alloc : Bool) : Slot → Option Slot
  | .unused =>
    some <|
      if alloc then .starting ⟨.valid statusSuccess, []⟩
      else .started ⟨.null, [statusInsufficientResources]⟩
  | _ => none

/-- The rest of `__xenbus_transaction_start`; `none` is a failed assertion. The text of an error that
passes `NT_SUCCESS` is no transaction id. -/
def startReply (answer : Answer) : Slot → Option Slot
  | .starting t =>
    match answer with
    | .ok payload => if ValidId payload then some (.started t) else none
    | answer =>
      if ntSuccess answer.status then none
      else some (.started (t.after (t.xbt.fail answer.status, answer.status)))
  | _ => none

/-- An operation is called. -/
def op (op : Op) : Slot → Option Slot
  | .started t => some (.working t op t.xbt.transactionStatus)
  | _ => none

/-- It returns. -/
def opDone : Slot → Option Slot
  | .working t op status => some (.started (t.after (op.run status t.xbt)))
  | _ => none

/-- `__xenbus_transaction_end` up to the request -/
def endTrans (abort : Bool) : Slot → Option Slot
  | .started t =>
    match t.xbt with
    | .nil => none
    | .null => some (.ended t none statusInsufficientResources)
    | .valid status => some (.ending t (abort || !ntSuccess status))
  | _ => none

/-- The rest of `__xenbus_transaction_end` -/
def endReply (answer : Answer) : Slot → Option Slot
  | .ending t _ =>
    let res := answer.status
    let res := if ntSuccess res then t.xbt.transactionStatus else res
    some (.ended t (some answer) res)
  | _ => none

def resume : Slot → Slot
  | .starting t => .starting t.resume
  | .started t => .started t.resume
  | .working t op status => .working t.resume op status
  | .ending t abort => .ending t.resume abort
  | .unused => .unused
  | .ended t answer res => .ended t answer res

end Slot

inductive Act where
  | start (h : Nat) (alloc : Bool)
  | startReply (h : Nat) (answer : Answer)
  | op (h : Nat) (op : Op)
  | opDone (h : Nat)
  | endTrans (h : Nat) (abort : Bool)
  | endReply (h : Nat) (answer : Answer)
  | resume
deriving DecidableEq

/-- The transaction of the call `h` takes a step. -/
def act (s : Nat → Slot) (h : Nat) (f : Slot → Option Slot) : Option (Nat → Slot) :=
  (f (s h)).map (Function.update s h)

def step (s : Nat → Slot) : Act → Option (Nat → Slot)
  | .start h alloc => act s h (Slot.start alloc)
  | .startReply h answer => act s h (Slot.startReply answer)
  | .op h op => act s h (Slot.op op)
  | .opDone h => act s h Slot.opDone
  | .endTrans h abort => act s h (Slot.endTrans abort)
  | .endReply h answer => act s h (Slot.endReply answer)
  | .resume => some fun h => (s h).resume

/-- Any number of transactions, one for each call of `xenbus_transaction_start`. -/
def transMachine : Machine (Nat → Slot) Act where
  init := fun _ => .unused
  step := step

/-! ## The transaction of the readers

`Transaction` names the statuses that the readers of nodes tell apart. This is the same transaction, with
the statuses as numbers. -/

theorem ne_zero_of_failed {e : Ntstatus} (he : ntSuccess e = false) : e ≠ 0 := by
  rintro rfl
  revert he
  decide

def ntError : NtError → Ntstatus
  | .dataError => statusDataError
  | .invalidParameter => statusInvalidParameter
  | .insufficientResources => statusInsufficientResources
  | .xenstored code => code

def ntStatus : NtStatus → Ntstatus
  | .success => statusSuccess
  | .error e => ntError e

def numbered : Xenbus.Xbt → Xbt
  | .nil => .nil
  | .null => .null
  | .valid status => .valid (ntStatus status)

def replyStatus : Reply → NtStatus
  | .ok _ => .success
  | .error e => .error e

/-- What is called an error fails `NT_SUCCESS`. -/
def Bad : NtStatus → Prop
  | .success => True
  | .error e => ntSuccess (ntError e) = false

/-- The answer of xenstored is the reply that the readers go by. -/
structure Gives (answer : Answer) (reply : Reply) : Prop where
  status : answer.status = ntStatus (replyStatus reply)
  bad : Bad (replyStatus reply)

theorem transactionStatus_numbered (xbt : Xenbus.Xbt) :
    (numbered xbt).transactionStatus = ntStatus xbt.transactionStatus := by
  cases xbt <;> rfl

theorem fail_numbered {xbt : Xenbus.Xbt} (h : Bad xbt.transactionStatus) (e : NtError) :
    numbered (xbt.fail e) = (numbered xbt).fail (ntError e) := by
  cases xbt with
  | nil => rfl
  | null => rfl
  | valid status =>
    cases status with
    | success => rfl
    | error e' =>
      -- the error that is there is not `STATUS_SUCCESS`, and stays
      have hne : ntError e' ≠ statusSuccess := ne_zero_of_failed h
      exact congrArg Xbt.valid (if_neg hne).symm

theorem xenbusReadBin_numbered {xbt : Xenbus.Xbt} {reply : Reply} {answer : Answer}
    (h : Bad xbt.transactionStatus) (hr : Gives answer reply) :
    xenbusReadBin (numbered xbt).transactionStatus (numbered xbt) answer =
      (numbered (Xenbus.xenbusReadBin xbt reply).1,
        ntStatus (replyStatus (Xenbus.xenbusReadBin xbt reply).2)) := by
  rw [transactionStatus_numbered]
  unfold xenbusReadBin xenbusReadBinNoFail Xenbus.xenbusReadBin Reply.under
  cases hs : xbt.transactionStatus with
  | error e =>
    rw [hs] at h
    have hbad : ntSuccess (ntError e) = false := h
    simp only [ntStatus, hbad, Bool.not_false, if_true, replyStatus, fail_numbered (hs ▸ h)]
  | success =>
    have hok : ntSuccess statusSuccess = true := by decide
    have hst := hr.status
    have hb := hr.bad
    cases reply with
    | ok buf => simp [ntStatus, hok, hst, replyStatus]
    | error e =>
      have hbad : ntSuccess (ntError e) = false := hb
      simp [ntStatus, hok, hst, replyStatus, hbad, fail_numbered h]

/-! ## What is recorded -/

variable {status : Ntstatus} {xbt : Xbt}

/-- An operation succeeds and leaves the transaction, or fails it with the error it returns. -/
def Fails (xbt : Xbt) (r : Xbt × Ntstatus) : Prop :=
  r.1 = if ntSuccess r.2 then xbt else xbt.fail r.2

/-- An operation found no error, or one that stays. -/
def Found (status : Ntstatus) (xbt : Xbt) : Prop :=
  ntSuccess status = true ∨ xbt.fail status = xbt

theorem fails_writeBin (h : Found status xbt) (answer : Answer) :
    Fails xbt (xenbusWriteBin status xbt answer) := by
  unfold Fails xenbusWriteBin
  unfold Found at h
  grind

theorem fails_ls (h : Found status xbt) (answer : Answer) (alloc : Bool) :
    Fails xbt (xenbusLs status xbt answer alloc) := by
  unfold Fails xenbusLs
  unfold Found at h
  have hres : ntSuccess statusInsufficientResources = false := by decide
  have hok : ntSuccess statusSuccess = true := by decide
  grind

theorem fails_readBin (status : Ntstatus) (xbt : Xbt) (answer : Answer) :
    Fails xbt (xenbusReadBin status xbt answer) := by
  unfold Fails xenbusReadBin
  grind

theorem Fails.andThen {r r' : Xbt × Ntstatus} (h : Fails xbt r)
    (hbad : ntSuccess r.2 = false → r' = r) (hok : ntSuccess r.2 = true → Fails r.1 r') :
    Fails xbt r' := by
  cases hs : ntSuccess r.2 with
  | false => rw [hbad hs]; exact h
  | true =>
    have hx : r.1 = xbt := by rw [h, hs, if_pos rfl]
    rw [← hx]
    exact hok hs

theorem fails_of_bad (h : ntSuccess status = false) (xbt : Xbt) :
    Fails xbt (xbt.fail status, status) := by
  simp [Fails, h]

theorem fails_of_ok (h : ntSuccess status = true) (xbt : Xbt) : Fails xbt (xbt, status) := by
  simp [Fails, h]

theorem fails_read (status : Ntstatus) (xbt : Xbt) (answer : Answer) (alloc : Bool) :
    Fails xbt (xenbusRead status xbt answer alloc) := by
  refine (fails_readBin status xbt answer).andThen (fun h => ?_) fun h => ?_
  · simp [xenbusRead, h]
  · cases alloc
    · simpa [xenbusRead, h] using fails_of_bad (by decide) _
    · simpa [xenbusRead, h] using fails_of_ok (by decide) _

theorem fails_printf (h : Found status xbt) (alloc : Bool) (answer : Answer) :
    Fails xbt (xenbusPrintf status xbt alloc answer) := by
  cases alloc
  · exact fails_of_bad (by decide) xbt
  · exact fails_writeBin h answer

theorem fails_readInt (status : Ntstatus) (xbt : Xbt) (answer : Answer) :
    Fails xbt ((xenbusReadInt status xbt answer).1, (xenbusReadInt status xbt answer).2.1) := by
  refine (fails_readBin status xbt answer).andThen (fun h => ?_) fun h => ?_
  · simp [xenbusReadInt, h]
  · cases he : (strtoll answer.payload).2
    · simpa [xenbusReadInt, h, he] using fails_of_ok (by decide) _
    · simpa [xenbusReadInt, h, he] using fails_of_bad (by decide) _

theorem fails_readChecked (good : Nat → Bool) (status : Ntstatus) (xbt : Xbt) (answer : Answer) :
    Fails xbt (readChecked good status xbt answer) := by
  refine (fails_readInt status xbt answer).andThen (fun h => ?_) fun h => ?_
  · simp [readChecked, h]
  · cases hg : good (xenbusReadInt status xbt answer).2.2
    · simpa [readChecked, h, hg] using fails_of_bad (by decide) _
    · simpa [readChecked, h, hg] using fails_of_ok h _

theorem fails_readState (status : Ntstatus) (xbt : Xbt) (answer : Answer) :
    Fails xbt (xenbusReadState status xbt answer) := by
  rw [xenbusReadState]
  exact fails_readChecked ..

theorem fails_readEvtchnPort (status : Ntstatus) (xbt : Xbt) (answer : Answer) :
    Fails xbt (xenbusReadEvtchnPort status xbt answer) := by
  rw [xenbusReadEvtchnPort]
  exact fails_readChecked ..

theorem fails_readGrantRef (status : Ntstatus) (xbt : Xbt) (answer : Answer) :
    Fails xbt (xenbusReadGrantRef status xbt answer) := by
  rw [xenbusReadGrantRef]
  exact fails_readChecked ..

theorem fails_readDomainId (status : Ntstatus) (xbt : Xbt) (answer : Answer) :
    Fails xbt (xenbusReadDomainId status xbt answer) := by
  refine (fails_readBin status xbt answer).andThen (fun h => ?_) fun h => ?_
  · simp [xenbusReadDomainId, h]
  · by_cases hd : domidFirstReserved ≤ (strtoll answer.payload).1
    · simpa [xenbusReadDomainId, h, hd] using fails_of_bad (by decide) _
    · simpa [xenbusReadDomainId, h, hd] using fails_of_ok h _

theorem fails_readFeatureFlag (status : Ntstatus) (xbt : Xbt) (answer : Answer) :
    Fails xbt (xenbusReadFeatureFlag status xbt answer) := by
  simp only [xenbusReadFeatureFlag]
  split
  · exact fails_of_ok (by decide) xbt
  · split
    · next h => exact fails_of_bad (by simpa using h) xbt
    · next h =>
      split
      · exact fails_of_ok (by simpa using h) xbt
      · exact fails_of_bad (by decide) xbt

theorem fails_writeEvtchnPort (h : Found status xbt) (xenPort : Int) (alloc : Bool)
    (answer : Answer) : Fails xbt (xenbusWriteEvtchnPort status xbt xenPort alloc answer) := by
  unfold xenbusWriteEvtchnPort
  split
  · exact fails_of_bad (by decide) xbt
  · exact fails_printf h alloc answer

theorem Op.run_fails (h : Found status xbt) (op : Op) : Fails xbt (op.run status xbt) := by
  cases op with
  | ls answer alloc => exact fails_ls h answer alloc
  | readBin answer => exact fails_readBin status xbt answer
  | read answer alloc => exact fails_read status xbt answer alloc
  | writeBin answer => exact fails_writeBin h answer
  | remove answer => exact fails_writeBin h answer
  | printf alloc answer => exact fails_printf h alloc answer
  | readInt answer => exact fails_readInt status xbt answer
  | readState answer => exact fails_readState status xbt answer
  | readDomainId answer => exact fails_readDomainId status xbt answer
  | readFeatureFlag answer => exact fails_readFeatureFlag status xbt answer
  | readEvtchnPort answer => exact fails_readEvtchnPort status xbt answer
  | readGrantRef answer => exact fails_readGrantRef status xbt answer
  | writeEvtchnPort xenPort alloc answer => exact fails_writeEvtchnPort h xenPort alloc answer

/-- The first error is what the transaction has for a status. -/
structure Recorded (t : Trans) : Prop where
  bad : ∀ e ∈ t.errors, ntSuccess e = false
  first :
    t.xbt = .valid (t.errors.head?.getD statusSuccess) ∨
      t.xbt = .null ∧ t.errors.head? = some statusInsufficientResources

variable {t : Trans}

theorem Recorded.append (h : Recorded t) {e : Ntstatus} (he : ntSuccess e = false) :
    Recorded ⟨t.xbt.fail e, t.errors ++ [e]⟩ := by
  refine ⟨?_, ?_⟩
  · intro e' he'
    rcases List.mem_append.mp he' with he' | he'
    · exact h.bad e' he'
    · rw [List.mem_singleton.mp he']
      exact he
  · rcases h.first with hx | ⟨hx, he'⟩
    · left
      rw [hx]
      cases hl : t.errors with
      | nil => simp [Xbt.fail]
      | cons a l =>
        have ha := h.bad a (by simp [hl])
        have hne := ne_zero_of_failed ha
        simp [Xbt.fail, hne]
    · exact .inr ⟨by simp [hx, Xbt.fail], by simp [he']⟩

theorem Recorded.after (h : Recorded t) {r : Xbt × Ntstatus} (hr : Fails t.xbt r) :
    Recorded (t.after r) := by
  unfold Trans.after
  unfold Fails at hr
  cases hs : ntSuccess r.2 with
  | true =>
    rw [hs, if_pos rfl] at hr
    rw [if_pos rfl, hr]
    exact h
  | false =>
    rw [hs, if_neg (by decide)] at hr
    rw [if_neg (by decide), hr]
    exact h.append hs

theorem Recorded.found (h : Recorded t) : Found t.xbt.transactionStatus t.xbt := by
  rcases h.first with hx | ⟨hx, -⟩
  · cases hl : t.errors with
    | nil => exact .inl (by rw [hx, hl]; decide)
    | cons a l =>
      have ha := h.bad a (by simp [hl])
      have hne := ne_zero_of_failed ha
      exact .inr (by simp [hx, hl, Xbt.transactionStatus, Xbt.fail])
  · exact .inr (by simp [hx, Xbt.fail])

theorem Recorded.resume (h : Recorded t) : Recorded t.resume := by
  have heq : t.xbt.abort = t.xbt.fail statusRetry := by
    rcases h.first with hx | ⟨hx, -⟩
    · cases hl : t.errors with
      | nil => simp [hx, hl, Xbt.abort, Xbt.fail, ntSuccess]
      | cons a l =>
        have ha := h.bad a (by simp [hl])
        have hne := ne_zero_of_failed ha
        simp [hx, hl, Xbt.abort, Xbt.fail, ha, hne]
    · simp [hx, Xbt.abort, Xbt.fail]
  unfold Trans.resume
  split
  · rw [heq]
    exact h.append (by decide)
  · exact h
  · exact h

theorem Found.abort (h : Found status xbt) : Found status xbt.abort := by
  rcases h with h | h
  · exact .inl h
  · cases xbt with
    | nil | null => exact .inr rfl
    | valid old =>
      by_cases hs : ntSuccess old
      · have hne : statusRetry ≠ statusSuccess := by decide
        exact .inr (by simp [Xbt.abort, Xbt.fail, hs, hne])
      · exact .inr (by simpa [Xbt.abort, hs] using h)

/-- What `__xenbus_transaction_end` returns for a transaction whose first error is `e`. -/
def endStatus (e : Ntstatus) : Option Answer → Ntstatus
  | none => e
  | some answer => if ntSuccess answer.status then e else answer.status

/-- What holds of a call at every moment. -/
def Slot.Ok : Slot → Prop
  | .unused => True
  | .starting t => Recorded t
  | .started t => Recorded t
  | .working t _ status => Recorded t ∧ Found status t.xbt
  | .ending t _ => Recorded t ∧ t.xbt ≠ .null
  | .ended t answer res =>
    (∀ e ∈ t.errors, ntSuccess e = false) ∧ ∀ e, t.errors.head? = some e → res = endStatus e answer

variable {x y : Slot}

theorem Slot.Ok.start {alloc : Bool} (hy : x.start alloc = some y) : y.Ok := by
  cases x <;> simp only [Slot.start, Option.some.injEq, reduceCtorEq] at hy
  subst hy
  cases alloc
  · refine ⟨fun e he => ?_, .inr ⟨rfl, rfl⟩⟩
    rw [List.mem_singleton.mp he]
    rfl
  · exact ⟨by simp, .inl rfl⟩

theorem Slot.Ok.startReply {answer : Answer} (h : x.Ok) (hy : x.startReply answer = some y) :
    y.Ok := by
  cases x <;> simp only [Slot.startReply, reduceCtorEq] at hy
  next t =>
    cases answer with
    | ok payload =>
      obtain ⟨-, hy⟩ := Option.ite_none_right_eq_some.mp hy
      obtain rfl := Option.some.inj hy
      exact h
    | noParavirt | refused | error _ =>
      obtain ⟨hs, hy⟩ := Option.ite_none_left_eq_some.mp hy
      obtain rfl := Option.some.inj hy
      exact Recorded.after h (fails_of_bad (by simpa using hs) _)

theorem Slot.Ok.endTrans {abort : Bool} (h : x.Ok) (hy : x.endTrans abort = some y) : y.Ok := by
  cases x <;> simp only [Slot.endTrans, reduceCtorEq] at hy
  next t =>
    have hr : Recorded t := h
    split at hy
    · cases hy
    · next hx =>
      obtain rfl := Option.some.inj hy
      refine ⟨hr.bad, fun e he => ?_⟩
      rcases hr.first with hv | ⟨-, hn⟩
      · rw [hx] at hv
        cases hv
      · exact Option.some.inj (hn.symm.trans he)
    · next hx =>
      obtain rfl := Option.some.inj hy
      exact ⟨hr, by simp [hx]⟩

theorem Slot.Ok.endReply {answer : Answer} (h : x.Ok) (hy : x.endReply answer = some y) : y.Ok := by
  cases x <;> simp only [Slot.endReply, Option.some.injEq, reduceCtorEq] at hy
  next t _ =>
    obtain ⟨hr, hne⟩ := h
    subst hy
    refine ⟨hr.bad, fun e he => ?_⟩
    rcases hr.first with hv | ⟨hn, -⟩
    · simp [endStatus, hv, he, Xbt.transactionStatus]
    · exact absurd hn hne

theorem Slot.Ok.resume (h : x.Ok) : x.resume.Ok := by
  have hnull : ∀ t : Trans, t.xbt ≠ .null → t.resume.xbt ≠ .null := by
    intro t ht
    unfold Trans.resume
    split <;> simp_all [Xbt.abort]
  have hfound : ∀ (t : Trans) (status : Ntstatus), Found status t.xbt → Found status t.resume.xbt := by
    intro t status ht
    unfold Trans.resume
    split
    · exact ht.abort
    · exact ht
    · exact ht
  cases x with
  | unused | ended t answer res => exact h
  | starting t | started t => exact Recorded.resume h
  | working t op status => exact ⟨h.1.resume, hfound t status h.2⟩
  | ending t abort => exact ⟨h.1.resume, hnull t h.2⟩

theorem ok_act {s s' : Nat → Slot} {h : Nat} {f : Slot → Option Slot} (hs : ∀ k, (s k).Ok)
    (hf : ∀ y, f (s h) = some y → y.Ok) (ht : act s h f = some s') (k : Nat) : (s' k).Ok := by
  obtain ⟨y, hy, rfl⟩ := Option.map_eq_some_iff.mp ht
  by_cases hk : k = h
  · subst hk
    simpa using hf y hy
  · simpa [hk] using hs k

theorem ok_step {s s' : Nat → Slot} {a : Act} (hs : ∀ k, (s k).Ok) (ht : step s a = some s')
    (k : Nat) : (s' k).Ok := by
  cases a with
  | start h alloc => exact ok_act hs (fun _ hy => Slot.Ok.start hy) ht k
  | startReply h answer => exact ok_act hs (fun _ hy => (hs h).startReply hy) ht k
  | op h op =>
    refine ok_act hs (fun y hy => ?_) ht k
    have hh := hs h
    revert hh hy
    cases s h <;> simp only [Slot.op, Option.some.injEq, reduceCtorEq, false_implies]
    rintro rfl hh
    exact ⟨hh, Recorded.found hh⟩
  | opDone h =>
    refine ok_act hs (fun y hy => ?_) ht k
    have hh := hs h
    revert hh hy
    cases s h <;> simp only [Slot.opDone, Option.some.injEq, reduceCtorEq, false_implies]
    rintro rfl hh
    exact hh.1.after (Op.run_fails hh.2 _)
  | endTrans h abort => exact ok_act hs (fun _ hy => (hs h).endTrans hy) ht k
  | endReply h answer => exact ok_act hs (fun _ hy => (hs h).endReply hy) ht k
  | resume =>
    obtain rfl := Option.some.inj ht
    exact (hs k).resume

/-- A transaction that was ended with errors is never reported as a success, and its first error is
what is reported unless the request to end it has an error of its own. -/
theorem transaction_end_iff {s : Nat → Slot} (hr : Machine.Reach transMachine Machine.Any s)
    {h : Nat} {t : Trans} {answer : Option Answer} {res : Ntstatus}
    (hh : s h = .ended t answer res) :
    (t.errors ≠ [] → ntSuccess res = false) ∧
      ((∀ e, t.errors.head? = some e → res = e) ↔
        ∀ a, answer = some a → ∀ e, t.errors.head? = some e →
          ntSuccess a.status = true ∨ a.status = e) := by
  have hok : (s h).Ok := by
    refine Machine.Reach.inv (I := fun s => ∀ k, (s k).Ok) (fun _ => trivial) ?_ hr h
    exact fun s a t hs _ ht => ok_step hs ht
  rw [hh] at hok
  obtain ⟨hbad, hres⟩ := hok
  cases hl : t.errors with
  | nil => simp
  | cons e l =>
    have he : ntSuccess e = false := hbad e (by simp [hl])
    have hres : res = endStatus e answer := hres e (by simp [hl])
    subst hres
    cases answer with
    | none => simpa [endStatus] using he
    | some a => cases ha : ntSuccess a.status <;> simp [endStatus, ha, he]

/-- A suspend and resume while the transaction is open: xenstored no longer knows it, and that is
what the caller is told, not to try again. -/
theorem transaction_end_not_retry :
    ¬ ∀ s, Machine.Reach transMachine Machine.Any s → ∀ h t answer res,
      s h = .ended t answer res → ∀ e, t.errors.head? = some e → res = e := by
  intro hall
  obtain ⟨s, hr, hs⟩ := Machine.exists_reach transMachine Machine.Any
    (fun s => s 0 = .ended ⟨.valid statusRetry, [statusRetry]⟩ (some (.error (some "ENOENT")))
      statusObjectNameNotFound)
    [.start 0 true, .startReply 0 (.ok [49, 0]), .resume, .endTrans 0 false,
      .endReply 0 (.error (some "ENOENT"))] (by decide)
  have := hall s hr 0 _ _ _ (of_decide_eq_true hs) statusRetry rfl
  revert this
  decide

/-- `transaction_end_iff` after a failed write, when xenstored takes the abort. -/
theorem transaction_end_failed_write :
    ∃ s, Machine.Reach transMachine Machine.Any s ∧
      (((∀ e, [(0xC0000022 : Ntstatus)].head? = some e → (0xC0000022 : Ntstatus) = e) ↔
        ∀ a, some (Answer.ok [79, 75, 0]) = some a → ∀ e,
          [(0xC0000022 : Ntstatus)].head? = some e → ntSuccess a.status = true ∨ a.status = e)) := by
  obtain ⟨s, hr, hs⟩ := Machine.exists_reach transMachine Machine.Any
    (fun s => s 0 = .ended ⟨.valid 0xC0000022, [0xC0000022]⟩ (some (.ok [79, 75, 0])) 0xC0000022)
    [.start 0 true, .startReply 0 (.ok [49, 0]), .op 0 (.writeBin (.error (some "EACCES"))),
      .opDone 0, .endTrans 0 false, .endReply 0 (.ok [79, 75, 0])] (by decide)
  exact ⟨s, hr, (transaction_end_iff hr (of_decide_eq_true hs)).2⟩

end XcWindows.Xenbus.TransactionEnd
