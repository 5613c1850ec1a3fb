import Mathlib.Data.List.GetD
import XcWindows.Xenvbd.RequestLoops
import XcWindows.Xenvbd.SrbConservation

/-!
# The turns of the inner loops

What a turn of the inner loop of `PrepareSrb` and of `PrepareBouncedSrb` does, for an SRB of whole
sectors that has no more than 22 pages. Segment `k` has the sectors from `doneAt k` to `doneAt (k + 1)`;
the first of an aligned SRB may begin inside its page, at sector `o`.
-/

namespace XcWindows.Xenvbd.Requests

open Lib
open XcWindows.Gnttab (GrantMode GrantRef nullGrantRef xenGrantRef)

/-! ## Sectors in pages -/

section Pages
variable {P o n N k : Nat}

/-- The sectors of the first `k` pages, when the first begins with sector `o` of its page. -/
def sectorsAt (P o n k : Nat) : Nat := min n (k * P - o)

/-- Where the sectors begin in page `k`. -/
def firstSectAt (o k : Nat) : Nat := if k = 0 then o else 0

theorem sectorsAt_zero : sectorsAt P o n 0 = 0 := by
  simp [sectorsAt]

theorem sectorsAt_le : sectorsAt P o n k ≤ n := Nat.min_le_left ..

/-- `n` sectors are in `N` pages. -/
def Pages (P o n N : Nat) : Prop := ∀ k, k < N ↔ k * P < o + n

theorem sectorsAt_all (h : Pages P o n N) : sectorsAt P o n N = n := by
  have := mt (h N).mpr (Nat.lt_irrefl N)
  unfold sectorsAt
  omega

theorem sectorsAt_lt (h : Pages P o n N) (ho : o < P) (hn : 0 < n) (hk : k < N) :
    sectorsAt P o n k < n := by
  have := (h k).mp hk
  unfold sectorsAt
  rcases Nat.eq_zero_or_pos k with rfl | hpos
  · omega
  · have : P ≤ k * P := Nat.le_mul_of_pos_left P hpos
    omega

theorem firstSectAt_lt (ho : o < P) : firstSectAt o k < P := by
  unfold firstSectAt
  split <;> omega

theorem sectorsAt_succ (ho : o < P) : sectorsAt P o n (k + 1) =
    sectorsAt P o n k + min (n - sectorsAt P o n k) (P - firstSectAt o k) := by
  unfold sectorsAt firstSectAt
  rw [Nat.succ_mul]
  rcases Nat.eq_zero_or_pos k with rfl | hpos
  · simp only [if_true, Nat.zero_mul]
    omega
  · have : P ≤ k * P := Nat.le_mul_of_pos_left P hpos
    rw [if_neg (by omega)]
    omega

theorem sectorsAt_mono {l : Nat} (h : k ≤ l) : sectorsAt P o n k ≤ sectorsAt P o n l := by
  have := Nat.mul_le_mul_right P h
  unfold sectorsAt
  omega

end Pages

/-! ## The loops of an SRB -/

variable {target : Target} {srb : Srb} {mem : Memory srb}

/-- Whole sectors, and no more pages than two requests have segments for. -/
structure Srb.Fits (disk : Disk) (srb : Srb) : Prop where
  pos : 0 < srb.dataTransferLength
  dvd : disk.sectorSize ∣ srb.dataTransferLength
  pages : (srb.dataBuffer % pageSize + srb.dataTransferLength + 4095) / pageSize ≤ maxSegmentsPerSrb

section Fits
variable {disk : Disk}

theorem Srb.Fits.length_eq (h : srb.Fits disk) :
    nrSectors disk srb * disk.sectorSize = srb.dataTransferLength := Nat.div_mul_cancel h.dvd

theorem Srb.Fits.nrSectors_pos (h : srb.Fits disk) : 0 < nrSectors disk srb :=
  Nat.div_pos (Nat.le_of_dvd h.pos h.dvd) disk.pos

theorem Srb.Fits.length_le (h : srb.Fits disk) : srb.dataTransferLength ≤ 90112 := by
  have := h.pages
  simp only [pageSize, maxSegmentsPerSrb] at this
  omega

theorem Srb.Fits.nrSegments_eq (h : srb.Fits disk) : srb.nrSegments =
    (srb.dataBuffer % pageSize + srb.dataTransferLength + 4095) / pageSize := by
  have := h.length_le
  have hm : srb.dataBuffer % pageSize < 4096 := Nat.mod_lt _ (by decide)
  simp only [Srb.nrSegments, btopr, pageSize, u32] at *
  omega

theorem Srb.Fits.nrBouncedSegments_eq (h : srb.Fits disk) :
    srb.nrBouncedSegments = (srb.dataTransferLength + 4095) / pageSize := by
  have := h.length_le
  simp only [Srb.nrBouncedSegments, btopr, pageSize] at *
  omega

theorem pages_of_sectors (disk : Disk) (o n : Nat) :
    Pages (nrSectorsPerPage disk) o n ((o * disk.sectorSize + n * disk.sectorSize + 4095) / pageSize) := by
  intro k
  have hmul : k * pageSize = k * nrSectorsPerPage disk * disk.sectorSize := by
    rw [Nat.mul_assoc, sectors_per_page]
  refine Iff.trans ?_ (Nat.mul_lt_mul_right disk.pos)
  rw [← hmul, Nat.add_mul]
  simp only [pageSize]
  omega

theorem nrSectorsPerPage_pos : 0 < nrSectorsPerPage disk :=
  Nat.div_pos (Nat.le_of_dvd (by decide) disk.dvd) disk.pos

theorem nrSectorsPerPage_le : nrSectorsPerPage disk ≤ 4096 := Nat.div_le_self ..

end Fits

theorem physToPfn_eq {pfn off : Nat} (h : pfn < 4294967296) (ho : off < pageSize) :
    physToPfn (pfn * pageSize + off) = pfn := by
  simp only [pageSize] at ho
  have hlow : u32 (pfn * pageSize + off) >>> 12 = pfn % 1048576 := by
    rw [Nat.shiftRight_eq_div_pow]
    simp only [u32, pageSize]
    omega
  have hhigh : (pfn * pageSize + off) / 4294967296 = pfn / 1048576 := by
    simp only [pageSize]
    omega
  unfold physToPfn
  rw [hlow, hhigh, Nat.or_comm, ← Nat.shiftLeft_add_eq_or_of_lt (by omega), Nat.shiftLeft_eq]
  simp only [u32]
  omega

/-- Reference `k` of those that the cache can give. -/
def refAt (w : Resources) (k : Nat) : GrantRef := w.grants.getD k nullGrantRef

/-- Bounce buffer `k` of those that are free. -/
def bidAt (w : Resources) (k : Nat) : Nat := w.bounce.getD k 0

theorem refAt_ne {w : Resources} {k : Nat} (hk : k < w.grants.length) (hnull : nullGrantRef ∉ w.grants) :
    refAt w k ≠ nullGrantRef := by
  intro he
  rw [refAt, List.getD_eq_getElem _ _ hk] at he
  exact hnull (he ▸ List.getElem_mem hk)

theorem drop_eq_getD {α : Type} {l : List α} {d : α} {k : Nat} (hk : k < l.length) :
    l.drop k = l.getD k d :: l.drop (k + 1) := by
  rw [List.getD_eq_getElem _ _ hk]
  exact List.drop_eq_getElem_cons hk

section Segments
variable (disk : Disk) (srb : Srb)

/-- The sector of its page at which an aligned buffer begins. -/
def startSect : Nat := srb.dataBuffer % pageSize / disk.sectorSize

/-- The sectors before segment `k`. -/
def doneAt (o k : Nat) : Nat := sectorsAt (nrSectorsPerPage disk) o (nrSectors disk srb) k

/-- How many sectors segment `k` has. -/
def countAt (o k : Nat) : Nat := doneAt disk srb o (k + 1) - doneAt disk srb o k

/-- Where they are in the buffer. -/
def vaddrAt (o k : Nat) : Nat := srb.dataBuffer + doneAt disk srb o k * disk.sectorSize

variable {disk srb} {o k : Nat}

theorem countAt_eq (ho : o < nrSectorsPerPage disk) : countAt disk srb o k =
    min (nrSectors disk srb - doneAt disk srb o k) (nrSectorsPerPage disk - firstSectAt o k) := by
  unfold countAt doneAt
  rw [sectorsAt_succ ho]
  omega

theorem doneAt_zero : doneAt disk srb o 0 = 0 := sectorsAt_zero

theorem doneAt_mono {l : Nat} (h : k ≤ l) : doneAt disk srb o k ≤ doneAt disk srb o l :=
  sectorsAt_mono h

theorem doneAt_succ : doneAt disk srb o (k + 1) = doneAt disk srb o k + countAt disk srb o k := by
  have : doneAt disk srb o k ≤ doneAt disk srb o (k + 1) := doneAt_mono (Nat.le_succ k)
  unfold countAt
  omega

/-- A segment is not empty, and is inside its page. -/
theorem countAt_bounds {N : Nat} (h : srb.Fits disk) (ho : o < nrSectorsPerPage disk)
    (hN : Pages (nrSectorsPerPage disk) o (nrSectors disk srb) N) (hk : k < N) :
    0 < countAt disk srb o k ∧ firstSectAt o k + countAt disk srb o k ≤ nrSectorsPerPage disk := by
  have hlt : doneAt disk srb o k < nrSectors disk srb := sectorsAt_lt hN ho h.nrSectors_pos hk
  have := firstSectAt_lt (k := k) ho
  rw [countAt_eq ho]
  omega

/-- The numbers of a segment fit in 32 bits. -/
theorem doneAt_bounds (h : srb.Fits disk) :
    doneAt disk srb o k ≤ 90112 ∧ doneAt disk srb o k * disk.sectorSize ≤ 90112 := by
  have hle : doneAt disk srb o k ≤ nrSectors disk srb := sectorsAt_le
  have h1 := Nat.mul_le_mul_right disk.sectorSize hle
  have h2 := Nat.le_mul_of_pos_right (doneAt disk srb o k) disk.pos
  have := h.length_le
  rw [h.length_eq] at h1
  omega

theorem countAt_mul_le (h : srb.Fits disk) :
    doneAt disk srb o k * disk.sectorSize + countAt disk srb o k * disk.sectorSize ≤
      srb.dataTransferLength := by
  rw [← Nat.add_mul, ← doneAt_succ, ← h.length_eq]
  exact Nat.mul_le_mul_right _ sectorsAt_le

/-- What a turn of the inner loop computes. -/
theorem sectorsThisTime_eq (h : srb.Fits disk) (ho : o < nrSectorsPerPage disk) :
    min (sub32 (nrSectors disk srb) (doneAt disk srb o k))
      (sub32 (nrSectorsPerPage disk) (firstSectAt o k)) = countAt disk srb o k := by
  have hle : doneAt disk srb o k ≤ nrSectors disk srb := sectorsAt_le
  have hf := firstSectAt_lt (k := k) ho
  have hP : nrSectorsPerPage disk ≤ 4096 := nrSectorsPerPage_le
  have hn := Nat.le_mul_of_pos_right (nrSectors disk srb) disk.pos
  have := h.length_le
  rw [h.length_eq] at hn
  rw [countAt_eq ho]
  simp only [sub32]
  omega

theorem startSect_mul (ha : disk.sectorSize ∣ srb.dataBuffer) :
    startSect disk srb * disk.sectorSize = srb.dataBuffer % pageSize :=
  Nat.div_mul_cancel ((Nat.dvd_mod_iff disk.dvd).mpr ha)

theorem startSect_lt (ha : disk.sectorSize ∣ srb.dataBuffer) :
    startSect disk srb < nrSectorsPerPage disk := by
  rw [← Nat.mul_lt_mul_right disk.pos, sectors_per_page, startSect_mul ha]
  exact Nat.mod_lt _ (by decide)

theorem vaddrAt_mod (ha : disk.sectorSize ∣ srb.dataBuffer) (hlt : doneAt disk srb (startSect disk srb) k <
    nrSectors disk srb) :
    vaddrAt disk srb (startSect disk srb) k % pageSize =
      firstSectAt (startSect disk srb) k * disk.sectorSize := by
  have hoff := startSect_mul ha
  have ho := startSect_lt ha
  unfold vaddrAt firstSectAt
  split
  · next hk =>
    rw [hk, doneAt_zero, Nat.zero_mul, Nat.add_zero, hoff]
  · next hk =>
    have hle : startSect disk srb ≤ k * nrSectorsPerPage disk :=
      ho.le.trans (Nat.le_mul_of_pos_left _ (Nat.pos_of_ne_zero hk))
    have hd : doneAt disk srb (startSect disk srb) k = k * nrSectorsPerPage disk - startSect disk srb := by
      unfold doneAt sectorsAt at hlt ⊢
      omega
    rw [hd, next_page_offset hoff hle, Nat.zero_mul]

end Segments

section Aligned
variable (target : Target) (mem : Memory srb) (w : Resources) (o : Nat)

def alignedGrant (k : Nat) : Grant :=
  ⟨refAt w k, target.backendId, mem.frame (vaddrAt target.disk srb o k / pageSize), srb.mode⟩

def alignedResources (k : Nat) : Resources :=
  { w with
    grants := w.grants.drop k, granted := w.granted ++ (List.range k).map (alignedGrant target mem w o) }

def alignedAt (srb : Srb) (k : Nat) (seg : Segment) : Segment :=
  { seg with
    gref := refAt w k
    firstSect := firstSectAt o k
    lastSect := firstSectAt o k + countAt target.disk srb o k - 1 }

variable {target mem w o} {N k : Nat}

theorem physicalAddress_mod (v : Nat) : mem.physicalAddress v % pageSize = v % pageSize := by
  simp only [Memory.physicalAddress, pageSize]
  omega

theorem segment_le_length (mem : Memory srb) (h : srb.Fits target.disk)
    (ha : target.disk.sectorSize ∣ srb.dataBuffer) (ho : startSect target.disk srb = o)
    (hN : Pages (nrSectorsPerPage target.disk) o (nrSectors target.disk srb) N) (hk : k < N) :
    countAt target.disk srb o k * target.disk.sectorSize ≤ mem.length (vaddrAt target.disk srb o k) := by
  subst ho
  have hlt : doneAt target.disk srb _ k < nrSectors target.disk srb :=
    sectorsAt_lt hN (startSect_lt ha) h.nrSectors_pos hk
  have hb := countAt_bounds h (startSect_lt ha) hN hk
  have hmod := vaddrAt_mod ha hlt
  have hsum := countAt_mul_le (k := k) (o := startSect target.disk srb) h
  have hpos : 0 < countAt target.disk srb (startSect target.disk srb) k * target.disk.sectorSize :=
    Nat.mul_pos hb.1 target.disk.pos
  have hpage := Nat.mul_le_mul_right target.disk.sectorSize hb.2
  rw [Nat.add_mul, sectors_per_page, ← hmod] at hpage
  refine Nat.le_trans ?_ (mem.le_length _ ?_ ?_) <;> unfold vaddrAt at * <;> omega

/-- A turn of the inner loop of `PrepareSrb`, but for the grant. -/
theorem alignedSegment_eq (h : srb.Fits target.disk)
    (ha : target.disk.sectorSize ∣ srb.dataBuffer) (ho : startSect target.disk srb = o)
    (hN : Pages (nrSectorsPerPage target.disk) o (nrSectors target.disk srb) N) (hk : k < N)
    (seg : Segment) (w' : Resources) :
    alignedSegment target mem seg ⟨doneAt target.disk srb o k, w'⟩ = (do
      let g := w'.grantForeignAccess target.backendId
        (mem.frame (vaddrAt target.disk srb o k / pageSize)) srb.mode
      xmAssert (g.1 ≠ nullGrantRef) .grantRef
      .ok (some ({ seg with
        gref := g.1
        firstSect := firstSectAt o k
        lastSect := firstSectAt o k + countAt target.disk srb o k - 1 },
        ⟨doneAt target.disk srb o (k + 1), g.2⟩))) := by
  have hlen := segment_le_length mem h ha ho hN hk
  subst ho
  have ho := startSect_lt ha
  have hlt : doneAt target.disk srb _ k < nrSectors target.disk srb :=
    sectorsAt_lt hN ho h.nrSectors_pos hk
  have hb := countAt_bounds h ho hN hk
  have hP : nrSectorsPerPage target.disk ≤ 4096 := nrSectorsPerPage_le
  have hd := doneAt_bounds (k := k) (o := startSect target.disk srb) h
  have hsum := countAt_mul_le (k := k) (o := startSect target.disk srb) h
  have hlen' := h.length_le
  have hv : srb.dataBuffer +
      u32 (doneAt target.disk srb (startSect target.disk srb) k * target.disk.sectorSize) =
        vaddrAt target.disk srb (startSect target.disk srb) k := by
    rw [vaddrAt, show u32 _ = _ from Nat.mod_eq_of_lt (by omega)]
  have hfirst : u32 (mem.physicalAddress (vaddrAt target.disk srb (startSect target.disk srb) k) %
      pageSize / target.disk.sectorSize) = firstSectAt (startSect target.disk srb) k := by
    rw [physicalAddress_mod, vaddrAt_mod ha hlt, Nat.mul_div_cancel _ target.disk.pos]
    exact Nat.mod_eq_of_lt (by omega)
  have hpfn : physToPfn (mem.physicalAddress (vaddrAt target.disk srb (startSect target.disk srb) k)) =
      mem.frame (vaddrAt target.disk srb (startSect target.disk srb) k / pageSize) :=
    physToPfn_eq (mem.frame_lt _) (Nat.mod_lt _ (by decide))
  have hcount : u32 (countAt target.disk srb (startSect target.disk srb) k * target.disk.sectorSize) =
      countAt target.disk srb (startSect target.disk srb) k * target.disk.sectorSize :=
    Nat.mod_eq_of_lt (by omega)
  unfold alignedSegment
  simp only [hv, hfirst, hpfn, sectorsThisTime_eq h ho, hcount]
  rw [xmAssert, if_pos hlen, doneAt_succ]
  have hlast : sub32 (firstSectAt (startSect target.disk srb) k +
      countAt target.disk srb (startSect target.disk srb) k) 1 =
      firstSectAt (startSect target.disk srb) k +
        countAt target.disk srb (startSect target.disk srb) k - 1 := by
    simp only [sub32]
    omega
  have hnext : u32 (doneAt target.disk srb (startSect target.disk srb) k +
      countAt target.disk srb (startSect target.disk srb) k) =
      doneAt target.disk srb (startSect target.disk srb) k +
        countAt target.disk srb (startSect target.disk srb) k :=
    Nat.mod_eq_of_lt (by omega)
  rw [hlast, hnext]
  rfl

theorem grantForeignAccess_some {ref : GrantRef} {grants : List GrantRef} (h : w.grants = ref :: grants)
    (domid frame : Nat) (mode : GrantMode) : w.grantForeignAccess domid frame mode =
      (ref, { w with grants, granted := w.granted ++ [⟨ref, domid, frame, mode⟩] }) := by
  unfold Resources.grantForeignAccess
  rw [h]

theorem grantForeignAccess_none (h : w.grants = []) (domid frame : Nat) (mode : GrantMode) :
    w.grantForeignAccess domid frame mode = (nullGrantRef, w) := by
  unfold Resources.grantForeignAccess
  rw [h]

theorem alignedResources_zero : alignedResources target mem w o 0 = w := by
  simp [alignedResources]

theorem aligned_steps {K : Nat} (mem : Memory srb) (h : srb.Fits target.disk)
    (ha : target.disk.sectorSize ∣ srb.dataBuffer) (ho : startSect target.disk srb = o)
    (hN : Pages (nrSectorsPerPage target.disk) o (nrSectors target.disk srb) N) (hK : K ≤ N)
    (hg : K ≤ w.grants.length) (hnull : nullGrantRef ∉ w.grants) :
    Steps (alignedSegment target mem) (doneAt target.disk srb o) (alignedResources target mem w o)
      (alignedAt target w o srb) K := by
  intro k hk seg
  have hd : (alignedResources target mem w o k).grants = refAt w k :: w.grants.drop (k + 1) :=
    drop_eq_getD (by omega)
  rw [alignedSegment_eq h ha ho hN (by omega), grantForeignAccess_some hd]
  simp only [xmAssert, if_pos (refAt_ne (by omega : k < w.grants.length) hnull)]
  have hnext : alignedResources target mem w o (k + 1) =
      { alignedResources target mem w o k with
        grants := w.grants.drop (k + 1)
        granted := (alignedResources target mem w o k).granted ++ [alignedGrant target mem w o k] } := by
    simp only [alignedResources, List.range_succ, List.map_append, List.map_singleton,
      List.append_assoc]
  rw [hnext]
  rfl

/-- The cache has no reference for the next segment. -/
theorem aligned_refused (h : srb.Fits target.disk)
    (ha : target.disk.sectorSize ∣ srb.dataBuffer) (ho : startSect target.disk srb = o)
    (hN : Pages (nrSectorsPerPage target.disk) o (nrSectors target.disk srb) N)
    (hg : w.grants.length < N) (seg : Segment) :
    alignedSegment target mem seg ⟨doneAt target.disk srb o w.grants.length,
      alignedResources target mem w o w.grants.length⟩ = .error .grantRef := by
  rw [alignedSegment_eq h ha ho hN hg, grantForeignAccess_none (List.drop_length ..)]
  rfl

end Aligned

section Bounced
variable (target : Target) (mem : Memory srb) (w : Resources)

def bouncedGrant (k : Nat) : Grant :=
  ⟨refAt w k, target.backendId, mem.bounceFrame (bidAt w k), srb.mode⟩

def bouncedCopy (srb : Srb) (k : Nat) : Copy :=
  ⟨bidAt w k, vaddrAt target.disk srb 0 k, countAt target.disk srb 0 k * target.disk.sectorSize⟩

def bouncedResources (k : Nat) : Resources :=
  ⟨w.grants.drop k, w.bounce.drop k, w.granted ++ (List.range k).map (bouncedGrant target mem w),
    w.copied ++ (List.range k).map (bouncedCopy target w srb), w.copiedBack⟩

def bouncedAt (srb : Srb) (k : Nat) (_ : Segment) : Segment :=
  ⟨refAt w k, 0, countAt target.disk srb 0 k - 1, bidAt w k,
    doneAt target.disk srb 0 k * target.disk.sectorSize,
    countAt target.disk srb 0 k * target.disk.sectorSize⟩

variable {target mem w} {N k : Nat}

theorem firstSectAt_zero : firstSectAt 0 k = 0 := by
  unfold firstSectAt
  split <;> rfl

/-- A turn of the inner loop of `PrepareBouncedSrb` that gets bounce buffer `bid`, but for the grant. -/
theorem bouncedSegment_eq (h : srb.Fits target.disk)
    (hN : Pages (nrSectorsPerPage target.disk) 0 (nrSectors target.disk srb) N) (hk : k < N)
    (seg : Segment) {w' : Resources} {bid : Nat} {bounce : List Nat} (hb : w'.bounce = bid :: bounce) :
    bouncedSegment target mem seg ⟨doneAt target.disk srb 0 k, w'⟩ = (do
      let g := (({ w' with bounce } : Resources).memcpy bid (vaddrAt target.disk srb 0 k)
        (countAt target.disk srb 0 k * target.disk.sectorSize)).grantForeignAccess target.backendId
          (mem.bounceFrame bid) srb.mode
      xmAssert (g.1 ≠ nullGrantRef) .grantRef
      .ok (some (⟨g.1, 0, countAt target.disk srb 0 k - 1, bid,
        doneAt target.disk srb 0 k * target.disk.sectorSize,
        countAt target.disk srb 0 k * target.disk.sectorSize⟩,
        ⟨doneAt target.disk srb 0 (k + 1), g.2⟩))) := by
  have ho : 0 < nrSectorsPerPage target.disk := nrSectorsPerPage_pos
  have hbd := countAt_bounds h ho hN hk
  have hP : nrSectorsPerPage target.disk ≤ 4096 := nrSectorsPerPage_le
  have hd := doneAt_bounds (k := k) (o := 0) h
  have hsum := countAt_mul_le (k := k) (o := 0) h
  have hlen := h.length_le
  have hcount : min (sub32 (nrSectors target.disk srb) (doneAt target.disk srb 0 k))
      (nrSectorsPerPage target.disk) = countAt target.disk srb 0 k := by
    have := sectorsThisTime_eq (k := k) h ho
    rw [firstSectAt_zero] at this
    rw [← this]
    simp only [sub32]
    omega
  have hoff : u32 (doneAt target.disk srb 0 k * target.disk.sectorSize) =
      doneAt target.disk srb 0 k * target.disk.sectorSize := Nat.mod_eq_of_lt (by omega)
  have hbytes : u32 (countAt target.disk srb 0 k * target.disk.sectorSize) =
      countAt target.disk srb 0 k * target.disk.sectorSize := Nat.mod_eq_of_lt (by omega)
  have hpfn : physToPfn (mem.bounceFrame bid * pageSize) = mem.bounceFrame bid := by
    have hp : 0 < pageSize := by decide
    have := physToPfn_eq (mem.bounceFrame_lt bid) hp
    rwa [Nat.add_zero] at this
  have hlast : sub32 (countAt target.disk srb 0 k) 1 = countAt target.disk srb 0 k - 1 := by
    simp only [sub32]
    omega
  have hnext : u32 (doneAt target.disk srb 0 k + countAt target.disk srb 0 k) =
      doneAt target.disk srb 0 k + countAt target.disk srb 0 k := Nat.mod_eq_of_lt (by omega)
  unfold bouncedSegment Resources.allocateBounceBuffer
  simp only [hb, hcount, hoff, hbytes, hpfn, hlast]
  rw [hnext, ← doneAt_succ]
  rfl

theorem bouncedResources_zero : bouncedResources target mem w 0 = w := by
  simp [bouncedResources]

theorem bounced_steps {K : Nat} (mem : Memory srb) (h : srb.Fits target.disk)
    (hN : Pages (nrSectorsPerPage target.disk) 0 (nrSectors target.disk srb) N) (hK : K ≤ N)
    (hb : K ≤ w.bounce.length) (hg : K ≤ w.grants.length) (hnull : nullGrantRef ∉ w.grants) :
    Steps (bouncedSegment target mem) (doneAt target.disk srb 0) (bouncedResources target mem w)
      (bouncedAt target w srb) K := by
  intro k hk seg
  have hd : (bouncedResources target mem w k).bounce = bidAt w k :: w.bounce.drop (k + 1) :=
    drop_eq_getD (by omega)
  have hd' : w.grants.drop k = refAt w k :: w.grants.drop (k + 1) := drop_eq_getD (by omega)
  rw [bouncedSegment_eq h hN (by omega) seg hd, grantForeignAccess_some hd']
  simp only [xmAssert, if_pos (refAt_ne (by omega : k < w.grants.length) hnull)]
  have hnext : bouncedResources target mem w (k + 1) =
      ⟨w.grants.drop (k + 1), w.bounce.drop (k + 1),
        (bouncedResources target mem w k).granted ++ [bouncedGrant target mem w k],
        (bouncedResources target mem w k).copied ++ [bouncedCopy target w srb k], w.copiedBack⟩ := by
    simp only [bouncedResources, List.range_succ, List.map_append, List.map_singleton,
      List.append_assoc]
  rw [hnext]
  rfl

theorem bounced_refused (h : srb.Fits target.disk)
    (hN : Pages (nrSectorsPerPage target.disk) 0 (nrSectors target.disk srb) N)
    (hg : w.grants.length < N) (hb : w.grants.length < w.bounce.length) (seg : Segment) :
    bouncedSegment target mem seg ⟨doneAt target.disk srb 0 w.grants.length,
      bouncedResources target mem w w.grants.length⟩ = .error .grantRef := by
  have hd : (bouncedResources target mem w w.grants.length).bounce =
      bidAt w w.grants.length :: w.bounce.drop (w.grants.length + 1) := drop_eq_getD hb
  rw [bouncedSegment_eq h hN hg seg hd, grantForeignAccess_none (List.drop_length ..)]
  rfl

end Bounced

end XcWindows.Xenvbd.Requests
