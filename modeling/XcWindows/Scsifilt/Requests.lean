import Mathlib.Data.Nat.Prime.Basic
import XcWindows.Scsifilt.Datapath
import XcWindows.Xenvbd.SegmentSteps

/-!
# The requests of an IRP

What `scsifilt/datapath.c` makes of a read or a write: `count_requests_for_srb`, which says how many
requests it takes, and `initialise_requests`, which fills them in. The requests that `allocate_requests`
gave are fresh, so that only their number matters. What the memory manager answers is a parameter: the
description of the data buffer (`Memory`) and which calls succeed (`Answers`).
-/

namespace XcWindows.Scsifilt.Irp

open Lib
open XcWindows.Xenvbd (Disk nrSectorsPerPage)
open XcWindows.Xenvbd.Requests (bigEndian)

/-- The CDBs that `handle_scsi` passes on to `filter_process_irp`. -/
def readWrite (cdb : Nat → UInt8) (cdbLength : Nat) : Bool :=
  cdbLength == 6 && (cdb 0 == 0x08 || cdb 0 == 0x0A) ||
  cdbLength == 10 && (cdb 0 == 0x28 || cdb 0 == 0x2A) ||
  cdbLength == 12 && (cdb 0 == 0xA8 || cdb 0 == 0xAA) ||
  cdbLength == 16 && (cdb 0 == 0x88 || cdb 0 == 0x8A)

/-- `SCSI_REQUEST_BLOCK` of a read or a write -/
structure Srb where
  cdb : Nat → UInt8
  cdbLength : Nat
  dataBuffer : Nat
  accepted : readWrite cdb cdbLength = true

/-- The MDL of an IRP, and the system address space that it is mapped to. -/
structure Memory where
  startVa : Nat
  byteOffset : Nat
  byteCount : Nat
  /-- `MmGetMdlPfnArray` -/
  pfn : Nat → Nat
  mappedSystemVa : Nat
  /-- the frame of a page of system address space -/
  frame : Nat → Nat
  startVa_page : startVa % pageSize = 0
  size_le : byteOffset + byteCount ≤ 4294967296
  mapped : ∀ i < byteCount, frame ((mappedSystemVa + i) / pageSize) * pageSize + (mappedSystemVa + i) % pageSize =
    pfn ((byteOffset + i) / pageSize) * pageSize + (byteOffset + i) % pageSize

def Memory.physicalAddress (mem : Memory) (v : Nat) : Nat := mem.frame (v / pageSize) * pageSize + v % pageSize

/-- Where the MDL has the byte of an address. -/
def Memory.mdlAddress (mem : Memory) (v : Nat) : Nat :=
  mem.pfn ((v - mem.startVa) / pageSize) * pageSize + v % pageSize

/-- Which calls succeed for the `k`th request. -/
structure Answers where
  removeLock : Bool
  /-- `ExAllocateFromNPagedLookasideList` -/
  request : Nat → Bool
  systemAddress : Nat → Bool
  /-- `XmAllocateMemory`, of a size; from a page on it is page-aligned -/
  bounceBuffer : Nat → Nat → Option Nat
  page_aligned : ∀ k size b, pageSize ≤ size → bounceBuffer k size = some b → b % pageSize = 0

/-- What stops the machine. -/
inductive Fault where
  | requests
  /-- `segment_idx < BLKIF_MAX_SEGMENTS_PER_REQUEST` -/
  | segments
  | outstanding
deriving DecidableEq

/-- `fragments[..]` -/
structure Fragment where
  pfn : Nat
  startSect : Nat
  lastSect : Nat
deriving DecidableEq

/-- `struct scsifilt_request_internal`, once it is initialised -/
structure Sfri where
  operation : BlkifOp
  startSector : Nat
  fragments : List Fragment
  byteCount : Nat
  bounceBuffer : Option Nat
  mdlVa : Option Nat
  /-- the data were copied to the bounce buffer -/
  copied : Bool

/-- Conversion to `uint8_t`. -/
abbrev u8 (n : Nat) : Nat := n % 256

/-! ## The CDB -/

def getNrSectorsFromSrb (srb : Srb) : Nat :=
  match srb.cdbLength with
  | 6 => (srb.cdb 4).toNat
  | 10 => bigEndian srb.cdb 7 2
  | 12 => bigEndian srb.cdb 6 4
  | 16 => bigEndian srb.cdb 10 4
  | _ => 0

def startSector (srb : Srb) : Nat :=
  match srb.cdbLength with
  | 6 => (srb.cdb 1).toNat % 32 * 65536 + bigEndian srb.cdb 2 2
  | 10 => bigEndian srb.cdb 2 4
  | 12 => bigEndian srb.cdb 2 4
  | 16 => bigEndian srb.cdb 2 8
  | _ => 0

def operation (srb : Srb) : BlkifOp :=
  match srb.cdbLength with
  | 6 => if srb.cdb 0 = 0x08 then .read else .write
  | 10 => if srb.cdb 0 = 0x28 then .read else .write
  | 12 => if srb.cdb 0 = 0xA8 then .read else .write
  | _ => if srb.cdb 0 = 0x88 then .read else .write

def useBounce (disk : Disk) (srb : Srb) : Bool := srb.dataBuffer &&& (disk.sectorSize - 1) != 0

/-! ## `count_requests_for_srb` -/

/-- Arithmetic in `ULONG_PTR`, of 64 bits or of 32. -/
def ulongPtr (wide : Bool) (n : Nat) : Nat := if wide then u64 n else u32 n

def countRequestsForSrb (wide : Bool) (disk : Disk) (srb : Srb) : Nat :=
  let byteCount := u32 (disk.sectorSize * getNrSectorsFromSrb srb)
  let nrPages :=
    if useBounce disk srb then u32 (byteCount + (pageSize - 1)) / pageSize
    else u32 (ulongPtr wide (byteCount + srb.dataBuffer % pageSize + (pageSize - 1)) / pageSize)
  u32 (nrPages + (blkifMaxSegmentsPerRequest - 1)) / blkifMaxSegmentsPerRequest

/-! ## `initialise_requests` -/

/-- The loop over the pages of a request: `mk` is the fragment of the sectors from `done` on, of which
the first is at `off` in its page. -/
def fragmentLoop (perPage nrSectors : Nat) (mk : Nat → Nat → Nat → Fragment) :
    Nat → Nat → Nat → Except Fault (List Fragment)
  | room, done, off =>
    if done < nrSectors then
      match room with
      | 0 => .error .segments
      | room + 1 =>
        let sectorsThisSegment := min (nrSectors - done) (perPage - off)
        (fragmentLoop perPage nrSectors mk room (done + sectorsThisSegment) 0).map
          (mk done sectorsThisSegment off :: ·)
    else .ok []

def mdlVaToPfn (mem : Memory) (va : Nat) : Nat := mem.pfn (u32 (va - mem.startVa) / pageSize)

def mapSrbDataBuffer (mem : Memory) (srb : Srb) : Nat :=
  mem.mappedSystemVa + (srb.dataBuffer - (mem.startVa + mem.byteOffset))

section Initialise
variable (disk : Disk) (srb : Srb) (mem : Memory) (ans : Answers)

/-- `initialise_sfri_bounce`; `none` if there is no memory. -/
def initialiseSfriBounce (k sectorOffset nrSectors : Nat) : Except Fault (Option Sfri) :=
  let byteCount := u32 (disk.sectorSize * nrSectors)
  if !ans.systemAddress k then .ok none
  else
    match ans.bounceBuffer k (max byteCount pageSize) with
    | none => .ok none
    | some bounceBuffer =>
      (fragmentLoop (nrSectorsPerPage disk) nrSectors (fun done sectorsThisSegment _ =>
        ⟨mem.physicalAddress (bounceBuffer + u32 (done * disk.sectorSize)) / pageSize, 0,
          u8 (u8 sectorsThisSegment + 255)⟩) blkifMaxSegmentsPerRequest 0 0).map fun fragments =>
        some ⟨operation srb, u64 (startSector srb + sectorOffset), fragments, byteCount, some bounceBuffer,
          some (mapSrbDataBuffer mem srb + u32 (sectorOffset * disk.sectorSize)),
          operation srb == .write⟩

def initialiseSfriNonbounce (sectorOffset nrSectors : Nat) : Except Fault (Option Sfri) :=
  let sectorPageOff := (srb.dataBuffer + u32 (sectorOffset * disk.sectorSize)) % pageSize / disk.sectorSize
  (fragmentLoop (nrSectorsPerPage disk) nrSectors (fun done sectorsThisSegment off =>
    ⟨mdlVaToPfn mem (srb.dataBuffer + u32 ((sectorOffset + done) * disk.sectorSize)), u8 off,
      u8 (sectorsThisSegment + off - 1)⟩) blkifMaxSegmentsPerRequest 0 sectorPageOff).map fun fragments =>
    some ⟨operation srb, u64 (startSector srb + sectorOffset), fragments,
      u32 (disk.sectorSize * nrSectors), none, none, false⟩

def initialiseSfri (k sectorOffset nrSectors : Nat) : Except Fault (Option Sfri) :=
  if useBounce disk srb then initialiseSfriBounce disk srb mem ans k sectorOffset nrSectors
  else initialiseSfriNonbounce disk srb mem sectorOffset nrSectors

/-- `sector_off_in_page` before the first request -/
def sectorOffInPage : Nat :=
  if useBounce disk srb then 0 else srb.dataBuffer % pageSize / disk.sectorSize

/-- The requests that were initialised, and whether all were. -/
structure Initialised where
  requests : List Sfri
  success : Bool

/-- The loop over the requests, of which some are still fresh; `k` are done. -/
def requestLoop : Nat → Nat → Nat → Nat → Except Fault Initialised
  | fresh, k, done, off =>
    let nrSectors := getNrSectorsFromSrb srb
    if done < nrSectors then
      match fresh with
      | 0 => .error .requests
      | fresh + 1 =>
        let sectorsThisTime :=
          min (nrSectors - done) (blkifMaxSegmentsPerRequest * nrSectorsPerPage disk - off)
        match initialiseSfri disk srb mem ans k done sectorsThisTime with
        | .error f => .error f
        | .ok none => .ok ⟨[], false⟩
        | .ok (some sfri) =>
          (requestLoop fresh (k + 1) (done + sectorsThisTime) 0).map fun r =>
            { r with requests := sfri :: r.requests }
    else .ok ⟨[], true⟩

/-- `initialise_requests`; `nr_outstanding` is the number of those that were initialised. -/
def initialiseRequests (nrRequests : Nat) : Except Fault Initialised :=
  requestLoop disk srb mem ans nrRequests 0 0 (sectorOffInPage disk srb)

end Initialise

/-! ## The loops -/

open XcWindows.Xenvbd (sectors_per_page)
open XcWindows.Xenvbd.Requests (sectorsAt firstSectAt Pages sectorsAt_zero sectorsAt_le sectorsAt_all sectorsAt_lt
  sectorsAt_succ firstSectAt_lt)

/-- In how many pages of `P` sectors `n` sectors are, from sector `o` of the first on. -/
def nrPages (P o n : Nat) : Nat := (o + n + (P - 1)) / P

theorem pages_nrPages {P : Nat} (hP : 0 < P) (o n : Nat) : Pages P o n (nrPages P o n) := by
  intro k
  unfold nrPages
  rw [Nat.lt_div_iff_mul_lt hP]
  omega

theorem nrPages_le {P o n m : Nat} (hP : 0 < P) (h : o + n ≤ m * P) : nrPages P o n ≤ m := by
  have := (pages_nrPages hP o n m).1
  omega

/-- How many sectors are in page `k`. -/
def countAt (P o n k : Nat) : Nat := sectorsAt P o n (k + 1) - sectorsAt P o n k

theorem sectorsAt_countAt {P o n : Nat} (ho : o < P) (k : Nat) :
    sectorsAt P o n k + min (n - sectorsAt P o n k) (P - firstSectAt o k) = sectorsAt P o n (k + 1) ∧
    min (n - sectorsAt P o n k) (P - firstSectAt o k) = countAt P o n k := by
  unfold countAt
  rw [sectorsAt_succ ho]
  omega

theorem firstSectAt_succ (o k : Nat) : firstSectAt o (k + 1) = 0 := if_neg (Nat.succ_ne_zero k)

/-- The fragments of the pages from the `k`th on. -/
def fragmentsFrom (P o n k : Nat) (mk : Nat → Nat → Nat → Fragment) : List Fragment :=
  (List.range' k (nrPages P o n - k)).map fun j => mk (sectorsAt P o n j) (countAt P o n j) (firstSectAt o j)

theorem fragmentLoop_spec {P o n : Nat} (ho : o < P) (hn : 0 < n) (mk : Nat → Nat → Nat → Fragment) (room k : Nat)
    (hk : k ≤ nrPages P o n) (hroom : nrPages P o n ≤ k + room) :
    fragmentLoop P n mk room (sectorsAt P o n k) (firstSectAt o k) = .ok (fragmentsFrom P o n k mk) := by
  have hpages := pages_nrPages (Nat.zero_lt_of_lt ho) o n
  induction room generalizing k with
  | zero =>
    obtain rfl : k = nrPages P o n := by omega
    unfold fragmentLoop fragmentsFrom
    rw [if_neg (by rw [sectorsAt_all hpages]; exact Nat.lt_irrefl n), Nat.sub_self]
    rfl
  | succ room ih =>
    unfold fragmentLoop fragmentsFrom
    obtain rfl | hlt := Nat.eq_or_lt_of_le hk
    · rw [if_neg (by rw [sectorsAt_all hpages]; exact Nat.lt_irrefl n), Nat.sub_self]
      rfl
    · obtain ⟨hdone, hcount⟩ := sectorsAt_countAt (n := n) ho k
      have hnext := ih (k + 1) hlt (by omega)
      rw [firstSectAt_succ] at hnext
      rw [if_pos (sectorsAt_lt hpages ho hn hlt)]
      dsimp only
      rw [hdone, hnext, hcount]
      obtain ⟨m, hm⟩ : ∃ m, nrPages P o n - k = m + 1 := ⟨nrPages P o n - k - 1, by omega⟩
      have hm' : nrPages P o n - (k + 1) = m := by omega
      rw [hm, List.range'_succ, List.map_cons]
      unfold fragmentsFrom
      rw [hm']
      rfl

/-! ## The requests -/

section Requests
variable (disk : Disk) (srb : Srb) (mem : Memory) (ans : Answers)

/-- How many sectors a request can have. -/
def sectorsPerRequest : Nat := blkifMaxSegmentsPerRequest * nrSectorsPerPage disk

/-- How many requests the sectors take, and how many sectors are before request `k` and in it. -/
def nrRequests : Nat :=
  nrPages (sectorsPerRequest disk) (sectorOffInPage disk srb) (getNrSectorsFromSrb srb)

def doneAt (k : Nat) : Nat :=
  sectorsAt (sectorsPerRequest disk) (sectorOffInPage disk srb) (getNrSectorsFromSrb srb) k

def timesAt (k : Nat) : Nat :=
  countAt (sectorsPerRequest disk) (sectorOffInPage disk srb) (getNrSectorsFromSrb srb) k

/-- Where in its page request `k` begins. -/
def offAt (k : Nat) : Nat := firstSectAt (sectorOffInPage disk srb) k

/-- A fragment of a bounce buffer. -/
def bounceFragment (bounceBuffer : Nat) (done sectorsThisSegment _off : Nat) : Fragment :=
  ⟨mem.physicalAddress (bounceBuffer + u32 (done * disk.sectorSize)) / pageSize, 0,
    u8 (u8 sectorsThisSegment + 255)⟩

/-- A fragment of the data buffer. -/
def nonbounceFragment (sectorOffset done sectorsThisSegment off : Nat) : Fragment :=
  ⟨mdlVaToPfn mem (srb.dataBuffer + u32 ((sectorOffset + done) * disk.sectorSize)), u8 off,
    u8 (sectorsThisSegment + off - 1)⟩

/-- What request `k` is initialised to, if there is memory. -/
def sfriAt (k : Nat) : Option Sfri :=
  let byteCount := u32 (disk.sectorSize * timesAt disk srb k)
  let startSector := u64 (startSector srb + doneAt disk srb k)
  if useBounce disk srb then
    if !ans.systemAddress k then none
    else
      (ans.bounceBuffer k (max byteCount pageSize)).map fun bounceBuffer =>
        ⟨operation srb, startSector,
          fragmentsFrom (nrSectorsPerPage disk) 0 (timesAt disk srb k) 0 (bounceFragment disk mem bounceBuffer),
          byteCount, some bounceBuffer,
          some (mapSrbDataBuffer mem srb + u32 (doneAt disk srb k * disk.sectorSize)), operation srb == .write⟩
  else
    some ⟨operation srb, startSector,
      fragmentsFrom (nrSectorsPerPage disk) (offAt disk srb k) (timesAt disk srb k) 0
        (nonbounceFragment disk srb mem (doneAt disk srb k)),
      byteCount, none, none, false⟩

variable {disk srb mem ans}

theorem perPage_mul (disk : Disk) : nrSectorsPerPage disk * disk.sectorSize = pageSize := sectors_per_page

theorem perPage_pos : 0 < nrSectorsPerPage disk := by
  have := perPage_mul disk
  by_contra h0
  simp [Nat.eq_zero_of_not_pos h0] at this

theorem sectorOffInPage_lt (disk : Disk) (srb : Srb) : sectorOffInPage disk srb < nrSectorsPerPage disk := by
  unfold sectorOffInPage
  split
  · exact perPage_pos
  · refine Nat.div_lt_of_lt_mul ?_
    rw [Nat.mul_comm, sectors_per_page]
    exact Nat.mod_lt _ (by decide)

theorem sectorOffInPage_lt_request (disk : Disk) (srb : Srb) : sectorOffInPage disk srb < sectorsPerRequest disk := by
  have := sectorOffInPage_lt disk srb
  simp only [sectorsPerRequest, blkifMaxSegmentsPerRequest]
  omega

theorem perRequest_pos : 0 < sectorsPerRequest disk := Nat.mul_pos (by decide) perPage_pos

theorem doneAt_zero : doneAt disk srb 0 = 0 := sectorsAt_zero

theorem doneAt_lt (hn : 0 < getNrSectorsFromSrb srb) {k : Nat} (hk : k < nrRequests disk srb) :
    doneAt disk srb k < getNrSectorsFromSrb srb :=
  sectorsAt_lt (pages_nrPages perRequest_pos _ _) (sectorOffInPage_lt_request disk srb) hn hk

theorem doneAt_nrRequests : doneAt disk srb (nrRequests disk srb) = getNrSectorsFromSrb srb :=
  sectorsAt_all (pages_nrPages perRequest_pos _ _)

theorem doneAt_succ (disk : Disk) (srb : Srb) (k : Nat) :
    doneAt disk srb k + timesAt disk srb k = doneAt disk srb (k + 1) := by
  have h := sectorsAt_countAt (n := getNrSectorsFromSrb srb)
    (sectorOffInPage_lt_request disk srb) k
  rw [h.2] at h
  exact h.1

theorem timesAt_eq (k : Nat) : timesAt disk srb k =
    min (getNrSectorsFromSrb srb - doneAt disk srb k) (sectorsPerRequest disk - offAt disk srb k) :=
  (sectorsAt_countAt (sectorOffInPage_lt_request disk srb) k).2.symm

theorem offAt_lt (disk : Disk) (srb : Srb) (k : Nat) : offAt disk srb k < nrSectorsPerPage disk :=
  firstSectAt_lt (sectorOffInPage_lt disk srb)

theorem timesAt_pos (hn : 0 < getNrSectorsFromSrb srb) {k : Nat} (hk : k < nrRequests disk srb) :
    0 < timesAt disk srb k := by
  have hdone := doneAt_lt hn hk
  have hoff := offAt_lt disk srb k
  rw [timesAt_eq]
  simp only [sectorsPerRequest, blkifMaxSegmentsPerRequest]
  omega

theorem offAt_add_timesAt_le (disk : Disk) (srb : Srb) (k : Nat) :
    offAt disk srb k + timesAt disk srb k ≤ blkifMaxSegmentsPerRequest * nrSectorsPerPage disk := by
  have hoff := offAt_lt disk srb k
  rw [timesAt_eq]
  simp only [sectorsPerRequest, blkifMaxSegmentsPerRequest]
  omega

theorem land_sectorSize (disk : Disk) (v : Nat) : v &&& (disk.sectorSize - 1) = v % disk.sectorSize := by
  obtain ⟨k, -, hk⟩ := (Nat.dvd_prime_pow Nat.prime_two).1 (show disk.sectorSize ∣ 2 ^ 12 from disk.dvd)
  rw [hk, Nat.and_two_pow_sub_one_eq_mod]

theorem useBounce_iff : useBounce disk srb = true ↔ ¬disk.sectorSize ∣ srb.dataBuffer := by
  rw [useBounce, land_sectorSize, bne_iff_ne, Nat.dvd_iff_mod_eq_zero]

theorem sectorOffInPage_bounced (h : useBounce disk srb = true) : sectorOffInPage disk srb = 0 := if_pos h

theorem sectorOffInPage_mul (h : useBounce disk srb = false) :
    sectorOffInPage disk srb * disk.sectorSize = srb.dataBuffer % pageSize := by
  have hdvd : disk.sectorSize ∣ srb.dataBuffer := by
    by_contra hno
    rw [useBounce_iff.2 hno] at h
    cases h
  rw [sectorOffInPage, if_neg (by simp [h])]
  exact Nat.div_mul_cancel ((Nat.dvd_mod_iff disk.dvd).2 hdvd)

theorem mod_u32 (v : Nat) : (srb.dataBuffer + u32 v) % pageSize = (srb.dataBuffer + v) % pageSize := by
  simp only [u32, pageSize]
  omega

theorem mod_sectorsAt {Q o n v k : Nat} (hQ : pageSize ∣ Q * disk.sectorSize) (ho : o < Q)
    (hv : v % pageSize = o * disk.sectorSize) (hlt : sectorsAt Q o n k < n) :
    (v + sectorsAt Q o n k * disk.sectorSize) % pageSize = firstSectAt o k * disk.sectorSize := by
  cases k with
  | zero => simpa [sectorsAt_zero, firstSectAt] using hv
  | succ k =>
    have hle : Q ≤ (k + 1) * Q := Nat.le_mul_of_pos_left _ (Nat.succ_pos k)
    have hdone : sectorsAt Q o n (k + 1) = (k + 1) * Q - o := by
      unfold sectorsAt at hlt ⊢
      omega
    have hsum : sectorsAt Q o n (k + 1) * disk.sectorSize + v % pageSize = (k + 1) * (Q * disk.sectorSize) := by
      rw [hv, ← Nat.add_mul, hdone, Nat.sub_add_cancel (by omega), Nat.mul_assoc]
    obtain ⟨c, hc⟩ := Nat.dvd_trans hQ (Nat.dvd_mul_left (Q * disk.sectorSize) (k + 1))
    rw [hc] at hsum
    rw [firstSectAt_succ, Nat.zero_mul]
    simp only [pageSize] at hsum ⊢
    omega

theorem dvd_sectorsPerRequest (disk : Disk) : pageSize ∣ sectorsPerRequest disk * disk.sectorSize := by
  rw [sectorsPerRequest, Nat.mul_assoc, sectors_per_page]
  exact Nat.dvd_mul_left _ _

theorem offAt_mul (hn : 0 < getNrSectorsFromSrb srb) (h : useBounce disk srb = false) {k : Nat}
    (hk : k < nrRequests disk srb) :
    (srb.dataBuffer + doneAt disk srb k * disk.sectorSize) % pageSize = offAt disk srb k * disk.sectorSize :=
  mod_sectorsAt (dvd_sectorsPerRequest disk) (sectorOffInPage_lt_request disk srb) (sectorOffInPage_mul h).symm
    (doneAt_lt hn hk)

theorem offAt_eq (hn : 0 < getNrSectorsFromSrb srb) (h : useBounce disk srb = false) {k : Nat}
    (hk : k < nrRequests disk srb) :
    (srb.dataBuffer + u32 (doneAt disk srb k * disk.sectorSize)) % pageSize / disk.sectorSize =
      offAt disk srb k := by
  rw [mod_u32, offAt_mul hn h hk, Nat.mul_div_cancel _ disk.pos]

theorem fragmentLoop_request {o n : Nat} (ho : o < nrSectorsPerPage disk) (hn : 0 < n)
    (hle : o + n ≤ blkifMaxSegmentsPerRequest * nrSectorsPerPage disk) (mk : Nat → Nat → Nat → Fragment) :
    fragmentLoop (nrSectorsPerPage disk) n mk blkifMaxSegmentsPerRequest 0 o =
      .ok (fragmentsFrom (nrSectorsPerPage disk) o n 0 mk) := by
  have hroom := nrPages_le perPage_pos hle
  have h := fragmentLoop_spec ho hn mk blkifMaxSegmentsPerRequest 0 (Nat.zero_le _) (by omega)
  rwa [sectorsAt_zero] at h

theorem initialiseSfri_eq (hn : 0 < getNrSectorsFromSrb srb) {k : Nat} (hk : k < nrRequests disk srb) :
    initialiseSfri disk srb mem ans k (doneAt disk srb k) (timesAt disk srb k) =
      .ok (sfriAt disk srb mem ans k) := by
  have hpos := timesAt_pos hn hk
  have hle := offAt_add_timesAt_le disk srb k
  unfold initialiseSfri sfriAt
  cases hbounce : useBounce disk srb with
  | true =>
    have hle' : 0 + timesAt disk srb k ≤ blkifMaxSegmentsPerRequest * nrSectorsPerPage disk := by
      rw [Nat.zero_add]
      exact Nat.le_trans (Nat.le_add_left _ _) hle
    simp only [if_true]
    unfold initialiseSfriBounce
    dsimp only
    cases ans.systemAddress k with
    | false => rfl
    | true =>
      cases ans.bounceBuffer k (max (u32 (disk.sectorSize * timesAt disk srb k)) pageSize) with
      | none => rfl
      | some b =>
        have hloop := fragmentLoop_request perPage_pos hpos hle' (bounceFragment disk mem b)
        change Except.map _ (fragmentLoop _ _ (bounceFragment disk mem b) _ _ _) = _
        rw [hloop]
        rfl
  | false =>
    have hloop := fragmentLoop_request (offAt_lt disk srb k) hpos hle
      (nonbounceFragment disk srb mem (doneAt disk srb k))
    unfold initialiseSfriNonbounce
    rw [offAt_eq hn hbounce hk]
    change Except.map _ (fragmentLoop _ _ (nonbounceFragment disk srb mem (doneAt disk srb k)) _ _ _) = _
    rw [hloop]
    rfl

theorem requestLoop_succ (hn : 0 < getNrSectorsFromSrb srb) {k : Nat} (hk : k < nrRequests disk srb)
    (fresh : Nat) :
    requestLoop disk srb mem ans (fresh + 1) k (doneAt disk srb k) (offAt disk srb k) =
      match sfriAt disk srb mem ans k with
      | none => .ok ⟨[], false⟩
      | some sfri =>
        (requestLoop disk srb mem ans fresh (k + 1) (doneAt disk srb (k + 1)) (offAt disk srb (k + 1))).map
          fun r => { r with requests := sfri :: r.requests } := by
  conv_lhs => unfold requestLoop
  have hmin : min (getNrSectorsFromSrb srb - doneAt disk srb k)
      (blkifMaxSegmentsPerRequest * nrSectorsPerPage disk - offAt disk srb k) = timesAt disk srb k :=
    (timesAt_eq k).symm
  simp only
  rw [if_pos (doneAt_lt hn hk), hmin, initialiseSfri_eq hn hk, doneAt_succ, offAt, firstSectAt_succ]
  cases sfriAt disk srb mem ans k <;> rfl

theorem requestLoop_all (fresh k : Nat) (off : Nat) :
    requestLoop disk srb mem ans fresh k (getNrSectorsFromSrb srb) off = .ok ⟨[], true⟩ := by
  unfold requestLoop
  simp

/-- There is no memory for one of the requests from `k` up to `m`. -/
def Fails (disk : Disk) (srb : Srb) (mem : Memory) (ans : Answers) (k m : Nat) : Prop :=
  ∃ j, k ≤ j ∧ j < m ∧ sfriAt disk srb mem ans j = none

theorem requestLoop_spec (disk : Disk) (mem : Memory) (ans : Answers)
    (hn : 0 < getNrSectorsFromSrb srb) (fresh k : Nat) (hk : k ≤ nrRequests disk srb) :
    (Fails disk srb mem ans k (min (nrRequests disk srb) (k + fresh)) ∧ ∃ rs,
      requestLoop disk srb mem ans fresh k (doneAt disk srb k) (offAt disk srb k) = .ok ⟨rs, false⟩) ∨
    (¬Fails disk srb mem ans k (min (nrRequests disk srb) (k + fresh)) ∧ nrRequests disk srb ≤ k + fresh ∧
      ∃ rs, requestLoop disk srb mem ans fresh k (doneAt disk srb k) (offAt disk srb k) = .ok ⟨rs, true⟩ ∧
        rs.map some = (List.range' k (nrRequests disk srb - k)).map (sfriAt disk srb mem ans)) ∨
    (¬Fails disk srb mem ans k (min (nrRequests disk srb) (k + fresh)) ∧ k + fresh < nrRequests disk srb ∧
      requestLoop disk srb mem ans fresh k (doneAt disk srb k) (offAt disk srb k) = .error .requests) := by
  induction fresh generalizing k with
  | zero =>
    have hno : ¬Fails disk srb mem ans k (min (nrRequests disk srb) (k + 0)) := by
      rintro ⟨j, hkj, hj, -⟩
      omega
    obtain rfl | hlt := Nat.eq_or_lt_of_le hk
    · rw [doneAt_nrRequests, requestLoop_all]
      exact .inr (.inl ⟨hno, by omega, [], rfl, by simp⟩)
    · refine .inr (.inr ⟨hno, hlt, ?_⟩)
      unfold requestLoop
      simp only
      rw [if_pos (doneAt_lt hn hlt)]
  | succ fresh ih =>
    obtain rfl | hlt := Nat.eq_or_lt_of_le hk
    · rw [doneAt_nrRequests, requestLoop_all]
      refine .inr (.inl ⟨?_, by omega, [], rfl, by simp⟩)
      rintro ⟨j, hkj, hj, -⟩
      omega
    rw [requestLoop_succ hn hlt]
    have hsum : k + 1 + fresh = k + (fresh + 1) := by omega
    cases hsfri : sfriAt disk srb mem ans k with
    | none => exact .inl ⟨⟨k, Nat.le_refl k, by omega, hsfri⟩, [], rfl⟩
    | some sfri =>
      -- the first request that fails is not this one
      have hfails : Fails disk srb mem ans k (min (nrRequests disk srb) (k + (fresh + 1))) ↔
          Fails disk srb mem ans (k + 1) (min (nrRequests disk srb) (k + (fresh + 1))) := by
        constructor
        · rintro ⟨j, hkj, hj, hnone⟩
          obtain rfl | hlt := Nat.eq_or_lt_of_le hkj
          · rw [hsfri] at hnone
            cases hnone
          · exact ⟨j, hlt, hj, hnone⟩
        · rintro ⟨j, hkj, hj, hnone⟩
          exact ⟨j, by omega, hj, hnone⟩
      rw [hfails]
      have h := ih (k + 1) hlt
      rw [hsum] at h
      obtain ⟨hf, rs, hrs⟩ | ⟨hf, hle, rs, hrs, hmap⟩ | ⟨hf, hle, herr⟩ := h
      · exact .inl ⟨hf, sfri :: rs, by rw [hrs]; rfl⟩
      · refine .inr (.inl ⟨hf, hle, sfri :: rs, by rw [hrs]; rfl, ?_⟩)
        have hlen : nrRequests disk srb - k = nrRequests disk srb - (k + 1) + 1 := by omega
        rw [hlen, List.range'_succ, List.map_cons, List.map_cons, hmap, hsfri]
      · exact .inr (.inr ⟨hf, hle, by rw [herr]; rfl⟩)

end Requests

end XcWindows.Scsifilt.Irp
