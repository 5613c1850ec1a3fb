import XcWindows.Lib.Machine

/-!
# What the drivers share

Assertions, stops, page size and status codes, as `inc/xsapi.h` and the headers of Windows have them.
-/

namespace XcWindows

open Lib

abbrev pageSize : Nat := 4096

inductive NtStatus where
  | success | pending | bufferOverflow | bufferTooSmall | noMemory | quotaExceeded
  | invalidParameter | invalidHandle | invalidDeviceRequest | invalidDeviceState
  | virtualCircuitClosed | unsuccessful | insufficientResources | deletePending
deriving DecidableEq

/-- `NT_SUCCESS` -/
def NtStatus.ntSuccess : NtStatus → Bool
  | .success | .pending => true
  | _ => false

/-- A failed assertion or a null pointer, or a loop that has no end. -/
inductive Crash where
  | bugCheck
  | spin
deriving DecidableEq

/-- `XM_ASSERT`; the system stops with `c`. -/
def xmAssert {ε : Type} (p : Prop) [Decidable p] (c : ε) : Except ε Unit :=
  if p then .ok () else .error c

section Assert
variable {ε α : Type} {p : Prop} [Decidable p] {c : ε} {f : Unit → Except ε α}

theorem xmAssert_pos (h : p) : xmAssert p c = .ok () := if_pos h

theorem xmAssert_neg (h : ¬p) : xmAssert p c = .error c := if_neg h

theorem xmAssert_ok {u : Unit} (h : xmAssert p c = .ok u) : p := by
  unfold xmAssert at h
  split at h
  · assumption
  · cases h

theorem xmAssert_error {e : ε} (h : xmAssert p c = .error e) : ¬p ∧ e = c := by
  unfold xmAssert at h
  split at h
  · cases h
  · next hp => exact ⟨hp, (Except.error.inj h).symm⟩

theorem xmAssert_bind (h : p) (f : Unit → Except ε α) : xmAssert p c >>= f = f () :=
  bind_eq (xmAssert_pos h) f

theorem xmAssert_cases (f : Unit → Except ε α) :
    (xmAssert p c >>= f) = .error c ∨ p ∧ (xmAssert p c >>= f) = f () := by
  by_cases hp : p
  · exact .inr ⟨hp, xmAssert_bind hp f⟩
  · refine .inl ?_
    rw [xmAssert_neg hp]
    rfl

theorem xmAssert_bind_ok {a : α} (h : xmAssert p c >>= f = .ok a) : p ∧ f () = .ok a := by
  obtain ⟨_, hp, h⟩ := bind_ok h
  exact ⟨xmAssert_ok hp, h⟩

theorem xmAssert_bind_error {e : ε} (h : xmAssert p c >>= f = .error e) :
    ¬p ∧ e = c ∨ f () = .error e := by
  rcases bind_error h with hp | ⟨_, -, h⟩
  · exact .inl (xmAssert_error hp)
  · exact .inr h

end Assert

end XcWindows
