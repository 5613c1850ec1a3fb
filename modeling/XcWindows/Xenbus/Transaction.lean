import Mathlib.Data.List.Basic

/-!
# XenStore transactions

What the operations of `xenutil/xenbus.c` share: the status of the transaction they run in, which
`xenbus_fail_transaction` sets once, and `xenbus_read_bin`. A transaction that was ended with an
error stays on it; nil and null transactions have no status of their own.
-/

namespace XcWindows.Xenbus

/-- The statuses that fail `NT_SUCCESS`. -/
inductive NtError where
  | dataError | invalidParameter | insufficientResources
  /-- what the error names of xenstored are mapped to -/
  | xenstored (code : UInt32)
deriving DecidableEq

inductive NtStatus where
  | success
  | error (e : NtError)
deriving DecidableEq

/-- `xenbus_transaction_t` -/
inductive Xbt where
  | nil
  | null
  | valid (status : NtStatus)
deriving DecidableEq

namespace Xbt

/-- `xenbus_fail_transaction` -/
def fail (e : NtError) : Xbt → Xbt
  | .valid .success => .valid (.error e)
  | xbt => xbt

def transactionStatus : Xbt → NtStatus
  | .nil => .success
  | .null => .error .insufficientResources
  | .valid status => status

/-- The transaction, if there is one, has failed. -/
def Failed (xbt : Xbt) : Prop := xbt ≠ .valid .success

theorem failed_fail (xbt : Xbt) (e : NtError) : (xbt.fail e).Failed := by
  rcases xbt with _ | _ | _ | e <;> simp [fail, Failed]

end Xbt

/-- What `submit_request_and_await_result` gives: the payload of the reply, or an error. -/
abbrev Reply := Except NtError (List UInt8)

/-- The reply to a request of the transaction, which is only made in one that has not failed. -/
def Reply.under (xbt : Xbt) (reply : Reply) : Reply :=
  match xbt.transactionStatus with
  | .success => reply
  | .error e => .error e

def xenbusReadBin (xbt : Xbt) (reply : Reply) : Xbt × Reply :=
  match reply.under xbt with
  | .ok buf => (xbt, .ok buf)
  | .error e => (xbt.fail e, .error e)

theorem xenbusReadBin_cases (xbt : Xbt) (reply : Reply) :
    (∃ value, xbt.transactionStatus = .success ∧ reply = .ok value ∧
      xenbusReadBin xbt reply = (xbt, .ok value)) ∨
    ∃ e, xenbusReadBin xbt reply = (xbt.fail e, .error e) ∧
      ∀ value, ¬ (xbt.transactionStatus = .success ∧ reply = .ok value) := by
  unfold xenbusReadBin Reply.under
  cases hs : xbt.transactionStatus with
  | error e => exact .inr ⟨e, rfl, by simp⟩
  | success =>
    cases reply with
    | error e => exact .inr ⟨e, rfl, by simp⟩
    | ok value => exact .inl ⟨value, rfl, rfl, rfl⟩

end XcWindows.Xenbus
