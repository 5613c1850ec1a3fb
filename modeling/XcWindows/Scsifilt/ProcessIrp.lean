import XcWindows.Scsifilt.RequestSplit

/-!
# An IRP is taken on

`filter_process_irp` of `scsifilt/datapath.c`: the remove lock, the requests from the lookaside list, and
their initialisation, each of which can fail and then has to give back what there is; an IRP for which all
is there is scheduled. A transfer length of zero passes for a request of no sectors, and a long one can
wrap.
-/

namespace XcWindows.Scsifilt.Irp

open Lib
open XcWindows.Xenvbd (Disk)

/-- What scsifilt has acquired. -/
structure Held where
  removeLocks : Nat
  /-- `cur_outstanding` -/
  requests : Nat
  bounceBuffers : Nat
deriving DecidableEq

/-- How `filter_process_irp` returns. -/
inductive Outcome where
  | completed (status : NtStatus) (held : Held)
  | scheduled (requests : List Sfri) (nrScheduled nrOutstanding : Nat) (held : Held)

/-- `release_request`, of a request with a bounce buffer or without -/
def releaseRequest (h : Held) (bounceBuffer : Option Nat) : Held :=
  { h with
    requests := h.requests - 1
    bounceBuffers := if bounceBuffer.isSome then h.bounceBuffers - 1 else h.bounceBuffers }

def releaseRequests (h : Held) (bounceBuffers : List (Option Nat)) : Held := bounceBuffers.foldl releaseRequest h

/-- The loop of `allocate_requests`, and whether it succeeded. -/
def allocateLoop (ans : Answers) : Nat → Nat → Held → Bool × Held
  | 0, _, h => (true, h)
  | nr + 1, nrAllocated, h =>
    if ans.request nrAllocated then allocateLoop ans nr (nrAllocated + 1) { h with requests := h.requests + 1 }
    else (false, releaseRequests h (List.replicate nrAllocated none))

def allocateRequests (ans : Answers) (nrNeeded : Nat) (h : Held) : Bool × Held := allocateLoop ans nrNeeded 0 h

/-- The bounce buffers of the requests in the list, of which not all need be initialised. -/
def Initialised.bounceBuffers (r : Initialised) (nrRequests : Nat) : List (Option Nat) :=
  r.requests.map Sfri.bounceBuffer ++ List.replicate (nrRequests - r.requests.length) none

/-- With the bounce buffers that `initialise_requests` allocated. -/
def Held.bounced (h : Held) (bounceBuffers : List (Option Nat)) : Held :=
  { h with bounceBuffers := h.bounceBuffers + bounceBuffers.countP Option.isSome }

/-- `filter_process_irp` once it has its requests -/
def processRequests (disk : Disk) (srb : Srb) (mem : Memory) (ans : Answers) (nrRequests : Nat) (h : Held) :
    Except Fault Outcome :=
  match initialiseRequests disk srb mem ans nrRequests with
  | .error f => .error f
  | .ok r =>
    let h := h.bounced (r.bounceBuffers nrRequests)
    if !r.success then
      let h := releaseRequests h (r.bounceBuffers nrRequests)
      .ok (.completed .insufficientResources { h with removeLocks := h.removeLocks - 1 })
    else if r.requests.length = nrRequests then .ok (.scheduled r.requests nrRequests r.requests.length h)
    else .error .outstanding

def filterProcessIrp (wide : Bool) (disk : Disk) (srb : Srb) (mem : Memory) (ans : Answers) (h : Held) :
    Except Fault Outcome :=
  if !ans.removeLock then .ok (.completed .deletePending h)
  else
    let nrRequests := countRequestsForSrb wide disk srb
    match allocateRequests ans nrRequests { h with removeLocks := h.removeLocks + 1 } with
    | (false, h) => .ok (.completed .insufficientResources { h with removeLocks := h.removeLocks - 1 })
    | (true, h) => processRequests disk srb mem ans nrRequests h

/-- The IRP is completed and all is released, or there are requests that will complete it. -/
def Finishes (h : Held) : Except Fault Outcome → Prop
  | .error _ => False
  | .ok (.completed _ h') => h' = h
  | .ok (.scheduled rs nrScheduled nrOutstanding h') =>
    1 ≤ nrScheduled ∧ nrOutstanding = nrScheduled ∧ rs.length = nrScheduled ∧
      h' = ⟨h.removeLocks + 1, h.requests + nrScheduled,
        h.bounceBuffers + (rs.map Sfri.bounceBuffer).countP Option.isSome⟩

/-- There is no memory for request `k`, which is to be bounced. -/
def NoBuffer (disk : Disk) (srb : Srb) (ans : Answers) (k : Nat) : Prop :=
  useBounce disk srb = true ∧ (ans.systemAddress k = false ∨
    ans.bounceBuffer k (max (u32 (disk.sectorSize * timesAt disk srb k)) pageSize) = none)

variable {disk : Disk} {srb : Srb} {mem : Memory} {ans : Answers}

/-! ## What is given back -/

theorem releaseRequests_eq (h : Held) (bs : List (Option Nat)) : releaseRequests h bs =
    ⟨h.removeLocks, h.requests - bs.length, h.bounceBuffers - bs.countP Option.isSome⟩ := by
  unfold releaseRequests
  induction bs generalizing h with
  | nil => rfl
  | cons b bs ih =>
    rw [List.foldl_cons, ih]
    cases b with
    | none => simp [releaseRequest]; omega
    | some b => simp [releaseRequest]; omega

theorem allocateLoop_spec (ans : Answers) (nr k : Nat) (h : Held) (hk : k ≤ h.requests) :
    ((∃ j, k ≤ j ∧ j < k + nr ∧ ans.request j = false) ∧
      allocateLoop ans nr k h = (false, { h with requests := h.requests - k })) ∨
    ((∀ j, k ≤ j → j < k + nr → ans.request j = true) ∧
      allocateLoop ans nr k h = (true, { h with requests := h.requests + nr })) := by
  induction nr generalizing k h with
  | zero => exact .inr ⟨fun j hkj hj => by omega, rfl⟩
  | succ nr ih =>
    unfold allocateLoop
    cases hreq : ans.request k with
    | false =>
      refine .inl ⟨⟨k, Nat.le_refl k, by omega, hreq⟩, ?_⟩
      rw [if_neg Bool.false_ne_true, releaseRequests_eq]
      simp [List.countP_replicate]
    | true =>
      rw [if_pos rfl]
      obtain ⟨⟨j, hkj, hj, hno⟩, heq⟩ | ⟨hall, heq⟩ := ih (k + 1) { h with requests := h.requests + 1 } (by
        simp only
        omega)
      · refine .inl ⟨⟨j, by omega, by omega, hno⟩, ?_⟩
        rw [heq]
        simp
      · refine .inr ⟨fun j hkj hj => ?_, ?_⟩
        · obtain rfl | hlt := Nat.eq_or_lt_of_le hkj
          · exact hreq
          · exact hall j hlt (by omega)
        · rw [heq]
          simp only [Prod.mk.injEq, true_and, Held.mk.injEq, and_true]
          omega

theorem requestLoop_length (fresh k done off : Nat) {r : Initialised}
    (h : requestLoop disk srb mem ans fresh k done off = .ok r) : r.requests.length ≤ fresh := by
  induction fresh generalizing k done off r with
  | zero =>
    unfold requestLoop at h
    dsimp only at h
    split at h
    · cases h
    · obtain rfl := Except.ok.inj h
      exact Nat.le_refl 0
  | succ fresh ih =>
    unfold requestLoop at h
    dsimp only at h
    split at h
    · split at h
      · cases h
      · obtain rfl := Except.ok.inj h
        exact Nat.zero_le _
      · next sfri _ =>
        cases hrest : requestLoop disk srb mem ans fresh (k + 1)
            (done + min (getNrSectorsFromSrb srb - done)
              (blkifMaxSegmentsPerRequest * XcWindows.Xenvbd.nrSectorsPerPage disk - off)) 0 with
        | error f =>
          rw [hrest] at h
          cases h
        | ok r' =>
          rw [hrest] at h
          obtain rfl := Except.ok.inj h
          exact Nat.succ_le_succ (ih _ _ _ hrest)
    · obtain rfl := Except.ok.inj h
      exact Nat.zero_le _

theorem length_bounceBuffers {r : Initialised} {n : Nat} (h : r.requests.length ≤ n) :
    (r.bounceBuffers n).length = n := by
  simp [Initialised.bounceBuffers]
  omega

theorem release_bounced (h : Held) {bs : List (Option Nat)} {n : Nat} (hlen : bs.length = n) :
    releaseRequests (Held.bounced ⟨h.removeLocks, h.requests + n, h.bounceBuffers⟩ bs) bs = h := by
  rw [releaseRequests_eq, Held.bounced, hlen]
  simp

/-! ## When it finishes -/

theorem sfriAt_none_iff (k : Nat) : sfriAt disk srb mem ans k = none ↔ NoBuffer disk srb ans k := by
  unfold sfriAt NoBuffer
  dsimp only
  split
  case isTrue hbounce =>
    rw [and_iff_right hbounce]
    cases ans.systemAddress k with
    | false => simp
    | true => simp
  case isFalse hbounce => exact iff_of_false nofun fun h => hbounce h.1

theorem finishes_of_initialised {nr : Nat} {r : Initialised} (h : Held)
    (hr : initialiseRequests disk srb mem ans nr = .ok r) :
    Finishes h (processRequests disk srb mem ans nr ⟨h.removeLocks + 1, h.requests + nr, h.bounceBuffers⟩) ↔
      (r.success = true → 1 ≤ nr ∧ r.requests.length = nr) := by
  have hlen : r.requests.length ≤ nr := requestLoop_length nr 0 0 _ hr
  unfold processRequests
  rw [hr]
  dsimp only
  cases hsuccess : r.success with
  | false =>
    refine iff_of_true ?_ nofun
    have hrelease := release_bounced { h with removeLocks := h.removeLocks + 1 } (length_bounceBuffers hlen)
    dsimp only at hrelease
    rw [Bool.not_false, if_pos rfl, hrelease]
    rfl
  | true =>
    rw [Bool.not_true, if_neg Bool.false_ne_true]
    by_cases heq : r.requests.length = nr
    · rw [if_pos heq]
      have hcount : (r.bounceBuffers nr).countP Option.isSome =
          (r.requests.map Sfri.bounceBuffer).countP Option.isSome := by
        simp [Initialised.bounceBuffers, heq]
      simp [Finishes, Held.bounced, heq, hcount]
    · rw [if_neg heq]
      exact iff_of_false id fun h => heq (h rfl).2

theorem finishes_of_error {nr : Nat} {f : Fault} (h : Held)
    (hr : initialiseRequests disk srb mem ans nr = .error f) (h' : Held) :
    ¬Finishes h (processRequests disk srb mem ans nr h') := by
  unfold processRequests
  rw [hr]
  exact id

theorem count_of_no_sectors (wide : Bool) (hn : getNrSectorsFromSrb srb = 0)
    (hbounce : useBounce disk srb = true) : countRequestsForSrb wide disk srb = 0 := by
  unfold countRequestsForSrb
  simp only [hn, hbounce, Nat.mul_zero, if_true]
  rfl

theorem processRequests_finishes (wide : Bool) (disk : Disk) (srb : Srb) (mem : Memory) (ans : Answers)
    (h : Held) :
    Finishes h (processRequests disk srb mem ans (countRequestsForSrb wide disk srb)
        ⟨h.removeLocks + 1, h.requests + countRequestsForSrb wide disk srb, h.bounceBuffers⟩) ↔
      (∃ k < countRequestsForSrb wide disk srb, NoBuffer disk srb ans k) ∨
      (0 < getNrSectorsFromSrb srb ∧ NoWrap wide disk srb) := by
  obtain hn | hn := Nat.eq_zero_or_pos (getNrSectorsFromSrb srb)
  · -- no request is filled in
    have hloop : initialiseRequests disk srb mem ans (countRequestsForSrb wide disk srb) = .ok ⟨[], true⟩ := by
      have hall : requestLoop disk srb mem ans (countRequestsForSrb wide disk srb) 0
          (getNrSectorsFromSrb srb) (sectorOffInPage disk srb) = .ok ⟨[], true⟩ := requestLoop_all _ _ _
      rwa [hn] at hall
    rw [finishes_of_initialised h hloop]
    refine iff_of_false (fun hall => ?_) ?_
    · obtain ⟨hpos, hlen⟩ := hall rfl
      simp only [List.length_nil] at hlen
      omega
    · rintro (⟨k, hk, hbounce, -⟩ | ⟨hpos, -⟩)
      · rw [count_of_no_sectors wide hn hbounce] at hk
        omega
      · omega
  · have hcount := countRequestsForSrb_spec wide disk srb
    have hle : countRequestsForSrb wide disk srb ≤ nrRequests disk srb := by omega
    have hfails : Fails disk srb mem ans 0 (countRequestsForSrb wide disk srb) ↔
        ∃ k < countRequestsForSrb wide disk srb, NoBuffer disk srb ans k := by
      simp only [Fails, sfriAt_none_iff, Nat.zero_le, true_and]
    have hloop := requestLoop_spec disk mem ans hn (countRequestsForSrb wide disk srb) 0 (Nat.zero_le _)
    rw [doneAt_zero, Nat.zero_add, Nat.min_eq_right hle, hfails] at hloop
    have hpos : 0 < nrRequests disk srb :=
      (pages_nrPages perRequest_pos _ _ 0).2 (by omega)
    obtain ⟨hno, rs, hrs⟩ | ⟨hno, hall, rs, hrs, hmap⟩ | ⟨hno, hlt, hrs⟩ := hloop
    · rw [finishes_of_initialised h hrs]
      exact iff_of_true nofun (.inl hno)
    · rw [finishes_of_initialised h hrs]
      have hlen := congrArg List.length hmap
      simp only [List.length_map, List.length_range'] at hlen
      refine iff_of_true (fun _ => ⟨by omega, ?_⟩) (.inr ⟨hn, ?_⟩)
      · dsimp only
        omega
      · obtain ⟨hwrap, -⟩ | ⟨-, hlt⟩ := hcount
        · exact hwrap
        · omega
    · refine iff_of_false (finishes_of_error h hrs _) ?_
      rintro (hno' | ⟨-, hwrap⟩)
      · exact hno hno'
      · obtain ⟨-, heq⟩ | ⟨hwrap', -⟩ := hcount
        · omega
        · exact hwrap' hwrap

/-- An IRP is finished just if something fails in time, or it has sectors and these can be counted. -/
theorem filter_process_irp_finishes_iff (wide : Bool) (disk : Disk) (srb : Srb) (mem : Memory) (ans : Answers)
    (h : Held) : Finishes h (filterProcessIrp wide disk srb mem ans h) ↔
      ans.removeLock = false ∨
      (∃ k < countRequestsForSrb wide disk srb, ans.request k = false) ∨
      (∃ k < countRequestsForSrb wide disk srb, NoBuffer disk srb ans k) ∨
      (0 < getNrSectorsFromSrb srb ∧ NoWrap wide disk srb) := by
  unfold filterProcessIrp
  cases ans.removeLock with
  | false => exact iff_of_true rfl (.inl rfl)
  | true =>
    rw [Bool.not_true, if_neg Bool.false_ne_true, or_iff_right (by simp)]
    dsimp only
    unfold allocateRequests
    obtain ⟨⟨k, -, hk, hno⟩, heq⟩ | ⟨hall, heq⟩ := allocateLoop_spec ans (countRequestsForSrb wide disk srb) 0
      { h with removeLocks := h.removeLocks + 1 } (Nat.zero_le _)
    · rw [heq]
      exact iff_of_true rfl (.inl ⟨k, by omega, hno⟩)
    · rw [heq, or_iff_right]
      · exact processRequests_finishes wide disk srb mem ans h
      · rintro ⟨k, hk, hno⟩
        rw [hall k (Nat.zero_le k) (by omega)] at hno
        cases hno

theorem scheduled_inv {wide : Bool} {h h' : Held} {rs : List Sfri} {nr out : Nat}
    (hrun : filterProcessIrp wide disk srb mem ans h = .ok (.scheduled rs nr out h')) :
    nr = countRequestsForSrb wide disk srb ∧ out = nr ∧ rs.length = nr ∧
      initialiseRequests disk srb mem ans nr = .ok ⟨rs, true⟩ ∧
      h' = ⟨h.removeLocks + 1, h.requests + nr,
        h.bounceBuffers + (rs.map Sfri.bounceBuffer).countP Option.isSome⟩ := by
  unfold filterProcessIrp at hrun
  cases hlock : ans.removeLock with
  | false =>
    rw [hlock] at hrun
    cases hrun
  | true =>
    rw [hlock, Bool.not_true, if_neg Bool.false_ne_true] at hrun
    dsimp only at hrun
    unfold allocateRequests at hrun
    obtain ⟨-, heq⟩ | ⟨-, heq⟩ := allocateLoop_spec ans (countRequestsForSrb wide disk srb) 0
      { h with removeLocks := h.removeLocks + 1 } (Nat.zero_le _)
    · rw [heq] at hrun
      cases hrun
    · rw [heq] at hrun
      dsimp only at hrun
      unfold processRequests at hrun
      split at hrun
      · cases hrun
      next r hr =>
        obtain ⟨rs', success⟩ := r
        dsimp only at hrun
        cases success with
        | false => cases hrun
        | true =>
          rw [Bool.not_true, if_neg Bool.false_ne_true] at hrun
          split at hrun
          case isFalse => cases hrun
          case isTrue hlen =>
            cases hrun
            refine ⟨rfl, hlen, hlen, hr, ?_⟩
            simp [Held.bounced, Initialised.bounceBuffers, hlen]

/-- READ (12) of no sectors. -/
def noSectors (dataBuffer : Nat) : Srb := read12 dataBuffer fun _ => 0

/-- A read of no sectors is pending without a request that would complete it; if its buffer is in the middle
of a page an assertion fires, and so it does for a read of nearly four gigabytes. -/
theorem extremes_do_not_finish :
    filterProcessIrp true usualSectors (noSectors 4096) (flat 0 4096 (by decide)) plenty ⟨0, 0, 0⟩ =
      .ok (.scheduled [] 0 0 ⟨1, 0, 0⟩) ∧
    ¬Finishes ⟨0, 0, 0⟩
      (filterProcessIrp true usualSectors (noSectors 4096) (flat 0 4096 (by decide)) plenty ⟨0, 0, 0⟩) ∧
    filterProcessIrp true usualSectors (noSectors 4608) (flat 0 4096 (by decide)) plenty ⟨0, 0, 0⟩ =
      .error .outstanding ∧
    filterProcessIrp true usualSectors largeBuffer (flat 1 4294966784 (by decide)) plenty ⟨0, 0, 0⟩ =
      .error .requests := by
  refine ⟨rfl, ?_, rfl, rfl⟩
  rintro ⟨hpos, -⟩
  exact absurd hpos (by decide)

end XcWindows.Scsifilt.Irp
