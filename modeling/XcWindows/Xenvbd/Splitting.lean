import XcWindows.Lib.Blocks
import XcWindows.Xenvbd.SegmentSteps

/-!
# The requests of an SRB are the SRB

What `PrepareSrb` and `PrepareBouncedSrb` make of an SRB of whole sectors that has no more than 22
pages: requests that together have the sectors and the data of the SRB, in its order.
-/

namespace XcWindows.Xenvbd.Requests

open Lib
open XcWindows.Gnttab (GrantMode GrantRef nullGrantRef xenGrantRef)

/-- How many sectors a segment is for. -/
def Segment.nrSectors (seg : Segment) : Nat := seg.lastSect + 1 - seg.firstSect

/-- The sectors of the disk that a request is for, in the order of its segments. -/
def Request.sectors (r : Request) : List Nat :=
  (List.range (r.segments.map Segment.nrSectors).sum).map fun k => u64 (r.firstSector + k)

namespace SrbExtension

def requests (e : SrbExtension) : List Request := (List.range e.nrRequests).map e.request

def segments (e : SrbExtension) : List Segment := e.requests.flatMap Request.segments

end SrbExtension

/-- The requests of an SRB that begins at sector `start`. -/
structure Split (target : Target) (srb : Srb) (start : Nat) (e : SrbExtension) : Prop where
  nrRequests : 1 ≤ e.nrRequests ∧ e.nrRequests ≤ 2
  nrSegments : ∀ r ∈ e.requests, 1 ≤ r.nrSegments ∧ r.nrSegments ≤ 11
  operation : ∀ r ∈ e.requests, r.operation = srb.operation ∧ r.handle = target.handle
  /-- a segment has sectors, of one page -/
  segment : ∀ seg ∈ e.segments, seg.firstSect ≤ seg.lastSect ∧
    seg.lastSect < nrSectorsPerPage target.disk
  /-- a request begins after the sectors of the requests before -/
  firstSector : ∀ i < e.nrRequests, (e.request i).firstSector =
    u64 (start + (((e.requests.take i).flatMap Request.segments).map Segment.nrSectors).sum)
  sectors : e.requests.flatMap Request.sectors =
    (List.range' start (nrSectors target.disk srb)).map u64
  id : ∀ i < e.nrRequests, srbOfId (copyToReq (e.request i)).id = srb.address ∧
    indexOfId (copyToReq (e.request i)).id = i
  /-- the ring has room for sector numbers below 256 -/
  ring : 16 ≤ target.disk.sectorSize → ∀ r ∈ e.requests,
    (copyToReq r).nrSegments = r.nrSegments ∧ (copyToReq r).sectorNumber = r.firstSector ∧
      (copyToReq r).seg = r.segments.map fun seg => (xenGrantRef seg.gref, seg.firstSect, seg.lastSect)

/-- The bytes of memory that a segment gives access to. -/
def bytesOf (disk : Disk) (x : Segment × Grant) : List Nat :=
  List.range' (x.2.frame * pageSize + x.1.firstSect * disk.sectorSize) (x.1.nrSectors * disk.sectorSize)

/-- The back end has access to the data buffer. -/
def AlignedData (target : Target) {srb : Srb} (mem : Memory srb) (w w' : Resources)
    (e : SrbExtension) : Prop :=
  ∃ gs, w'.granted = w.granted ++ gs ∧ gs.map Grant.ref = e.segments.map Segment.gref ∧
    (∀ g ∈ gs, g.domid = target.backendId ∧ g.mode = srb.mode) ∧
    (e.segments.zip gs).flatMap (bytesOf target.disk) =
      (List.range' srb.dataBuffer srb.dataTransferLength).map mem.physicalAddress

/-- The back end has access to bounce buffers, with the data buffer in pieces. -/
structure BouncedData (target : Target) {srb : Srb} (mem : Memory srb) (w w' : Resources)
    (e : SrbExtension) : Prop where
  buffers : w.bounce = e.segments.map Segment.bid ++ w'.bounce
  granted : w'.granted = w.granted ++ e.segments.map fun seg =>
    ⟨seg.gref, target.backendId, mem.bounceFrame seg.bid, srb.mode⟩
  copied : w'.copied = w.copied ++ e.segments.map fun seg =>
    ⟨seg.bid, srb.dataBuffer + seg.offset, seg.length⟩
  whole : ∀ seg ∈ e.segments, seg.firstSect = 0 ∧ seg.length = seg.nrSectors * target.disk.sectorSize
  bytes : e.segments.flatMap (fun seg => List.range' seg.offset seg.length) =
    List.range srb.dataTransferLength

/-! ## From the loops -/

/-- Request and segment of a turn. -/
theorem turn_div {i j : Nat} (hj : j < 11) : (11 * i + j) / 11 = i ∧ (11 * i + j) % 11 = j := by
  omega

section Loops
variable {target : Target} {srb : Srb} {start N R o : Nat} {S : Nat → Segment → Segment}
  {old request : Nat → Request}

/-- The segment of turn `k`. -/
def segmentAt (S : Nat → Segment → Segment) (old : Nat → Request) (k : Nat) : Segment :=
  S k ((old (k / 11)).seg (k % 11))

theorem IsRequest.segments {i : Nat} {D : Nat → Nat} {old r : Request} {olds : Nat → Request}
    (h : IsRequest target srb start D S N i old r) (ho : olds i = old) : r.segments =
      (List.range (min (N - 11 * i) 11)).map fun j => segmentAt S olds (11 * i + j) := by
  unfold Request.segments
  rw [h.nrSegments]
  refine List.map_congr_left fun j hj => ?_
  have hj' := List.mem_range.mp hj
  obtain ⟨h1, h2⟩ := turn_div (i := i) (j := j) (by omega)
  rw [h.seg j (by rw [h.nrSegments]; exact hj'), segmentAt, h1, h2, ho]

theorem segments_take {D : Nat → Nat} (h : ∀ i < R, IsRequest target srb start D S N i (old i) (request i)) :
    ((List.range R).map request).flatMap Request.segments =
      (List.range (min N (11 * R))).map (segmentAt S old) := by
  rw [← flatMap_blocks, List.flatMap_map]
  refine List.flatMap_congr fun i hi => ?_
  exact (h i (List.mem_range.mp hi)).segments rfl

theorem sum_nrSectors {disk : Disk} {a n : Nat} {seg : Nat → Segment}
    (hs : ∀ k < n, (seg (a + k)).nrSectors = countAt disk srb o (a + k)) :
    (((List.range n).map fun j => seg (a + j)).map Segment.nrSectors).sum =
      doneAt disk srb o (a + n) - doneAt disk srb o a := by
  rw [List.map_map, ← (sum_pieces (n := n) fun k _ => doneAt_mono (Nat.le_succ (a + k))).1]
  refine congrArg List.sum (List.map_congr_left fun k hk => ?_)
  exact hs k (List.mem_range.mp hk)

end Loops

/-! ## Identifiers -/

theorem id_eq_add {a i : Nat} (ha : a % 4 = 0) (hi : i < 4) : a ||| i = a + i := by
  have : a = (a / 4) <<< 2 := by
    rw [Nat.shiftLeft_eq]
    omega
  rw [this, ← Nat.shiftLeft_add_eq_or_of_lt hi]

theorem id_decode {a i : Nat} (ha : a % 4 = 0) (hi : i < 4) :
    srbOfId (a ||| i) = a ∧ indexOfId (a ||| i) = i := by
  have hand : (a ||| i) &&& 3 = i := by
    rw [id_eq_add ha hi, show (a + i) &&& 3 = (a + i) % 4 from Nat.and_two_pow_sub_one_eq_mod _ 2]
    omega
  refine ⟨?_, hand⟩
  rw [srbOfId, hand, id_eq_add ha hi, Nat.add_sub_cancel]

/-! ## The requests -/

section Split
variable {target : Target} {srb : Srb} {start N R o : Nat} {S : Nat → Segment → Segment}
  {old request : Nat → Request}

/-- The segments are those of the pages. -/
def OnPages (disk : Disk) (srb : Srb) (o N : Nat) (S : Nat → Segment → Segment) : Prop :=
  ∀ k < N, ∀ seg, (S k seg).firstSect = firstSectAt o k ∧
    (S k seg).lastSect = firstSectAt o k + countAt disk srb o k - 1

theorem OnPages.nrSectors (hS : OnPages target.disk srb o N S) (h : srb.Fits target.disk)
    (ho : o < nrSectorsPerPage target.disk)
    (hN : Pages (nrSectorsPerPage target.disk) o (nrSectors target.disk srb) N) {k : Nat} (hk : k < N) :
    (segmentAt S old k).nrSectors = countAt target.disk srb o k := by
  obtain ⟨h1, h2⟩ := hS k hk ((old (k / 11)).seg (k % 11))
  have := countAt_bounds h ho hN hk
  unfold Segment.nrSectors segmentAt
  omega

theorem segments_eq {D : Nat → Nat} (hR : N ≤ 11 * R)
    (hr : ∀ i < R, IsRequest target srb start D S N i (old i) (request i)) (b : Bool) :
    SrbExtension.segments ⟨request, R, b⟩ = (List.range N).map (segmentAt S old) := by
  have := segments_take hr
  rwa [Nat.min_eq_left hR] at this

theorem request_sectors (h : srb.Fits target.disk) (ho : o < nrSectorsPerPage target.disk)
    (hN : Pages (nrSectorsPerPage target.disk) o (nrSectors target.disk srb) N)
    (hS : OnPages target.disk srb o N S) {i : Nat}
    (hr : IsRequest target srb start (doneAt target.disk srb o) S N i (old i) (request i)) :
    (request i).sectors = (List.range' (start + doneAt target.disk srb o (min N (11 * i)))
      (doneAt target.disk srb o (min N (11 * (i + 1))) -
        doneAt target.disk srb o (min N (11 * i)))).map u64 := by
  have hsum : ((request i).segments.map Segment.nrSectors).sum =
      doneAt target.disk srb o (min N (11 * (i + 1))) - doneAt target.disk srb o (min N (11 * i)) := by
    have hs : ∀ k < min (N - 11 * i) 11, (segmentAt S old (11 * i + k)).nrSectors =
        countAt target.disk srb o (11 * i + k) := fun k hk => hS.nrSectors h ho hN (by omega)
    rw [hr.segments rfl, sum_nrSectors hs]
    rcases Nat.le_total N (11 * i) with hle | hle
    · rw [show 11 * i + min (N - 11 * i) 11 = 11 * i by omega, show min N (11 * (i + 1)) = N by omega,
        show min N (11 * i) = N by omega, Nat.sub_self, Nat.sub_self]
    · rw [show min N (11 * (i + 1)) = 11 * i + min (N - 11 * i) 11 by omega, Nat.min_eq_right hle]
  unfold Request.sectors
  rw [hsum, hr.firstSector, List.range'_eq_map_range, List.map_map]
  refine List.map_congr_left fun k _ => ?_
  simp only [Function.comp, u64, Nat.mod_add_mod]

/-- Request `i` begins after the segments of the requests before. -/
theorem request_firstSector (h : srb.Fits target.disk) (ho : o < nrSectorsPerPage target.disk)
    (hN : Pages (nrSectorsPerPage target.disk) o (nrSectors target.disk srb) N)
    (hS : OnPages target.disk srb o N S)
    (hr : ∀ i < R, IsRequest target srb start (doneAt target.disk srb o) S N i (old i) (request i))
    {i : Nat} (hi : i < R) (b : Bool) :
    (request i).firstSector = u64 (start +
      (((SrbExtension.requests ⟨request, R, b⟩).take i).flatMap Request.segments |>.map
        Segment.nrSectors).sum) := by
  have htake : (SrbExtension.requests ⟨request, R, b⟩).take i = (List.range i).map request := by
    rw [SrbExtension.requests, ← List.map_take, List.take_range, Nat.min_eq_left (Nat.le_of_lt hi)]
  have hs : ∀ k < min N (11 * i), (segmentAt S old (0 + k)).nrSectors =
      countAt target.disk srb o (0 + k) := fun k hk => hS.nrSectors h ho hN (by omega)
  have hsum := sum_nrSectors hs
  simp only [Nat.zero_add] at hsum
  rw [htake, segments_take fun j hj => hr j (Nat.lt_trans hj hi), hsum, (hr i hi).firstSector,
    doneAt_zero, Nat.sub_zero]

theorem requests_sectors (h : srb.Fits target.disk) (ho : o < nrSectorsPerPage target.disk)
    (hN : Pages (nrSectorsPerPage target.disk) o (nrSectors target.disk srb) N)
    (hS : OnPages target.disk srb o N S) (hR : N ≤ 11 * R)
    (hr : ∀ i < R, IsRequest target srb start (doneAt target.disk srb o) S N i (old i) (request i))
    (b : Bool) : (SrbExtension.requests ⟨request, R, b⟩).flatMap Request.sectors =
      (List.range' start (nrSectors target.disk srb)).map u64 := by
  rw [SrbExtension.requests, List.flatMap_map]
  have hpieces := (flatMap_pieces (D := fun i => doneAt target.disk srb o (min N (11 * i))) (n := R)
    (fun i _ => doneAt_mono (by omega)) start).1
  have hall : doneAt target.disk srb o (min N (11 * R)) = nrSectors target.disk srb := by
    rw [Nat.min_eq_left hR]
    exact sectorsAt_all hN
  simp only [hall, Nat.mul_zero, Nat.min_zero, doneAt_zero, Nat.add_zero, Nat.sub_zero] at hpieces
  rw [← hpieces, List.map_flatMap]
  exact List.flatMap_congr fun i hi => request_sectors h ho hN hS (hr i (List.mem_range.mp hi))

theorem request_id {D : Nat → Nat} {i : Nat} (hr : IsRequest target srb start D S N i (old i) (request i))
    (hi : i < 4) : srbOfId (copyToReq (request i)).id = srb.address ∧
      indexOfId (copyToReq (request i)).id = i := by
  have hlt : srb.address ||| i < 18446744073709551616 :=
    Nat.or_lt_two_pow (n := 64) srb.isUlongPtr (by omega)
  have hid : (copyToReq (request i)).id = srb.address ||| i := by
    rw [copyToReq, hr.id]
    exact Nat.mod_eq_of_lt hlt
  rw [hid]
  exact id_decode srb.aligned hi

theorem request_ring (h : srb.Fits target.disk) (ho : o < nrSectorsPerPage target.disk)
    (hN : Pages (nrSectorsPerPage target.disk) o (nrSectors target.disk srb) N)
    (hS : OnPages target.disk srb o N S) {D : Nat → Nat} {i : Nat}
    (hr : IsRequest target srb start D S N i (old i) (request i)) (hss : 16 ≤ target.disk.sectorSize) :
    (copyToReq (request i)).nrSegments = (request i).nrSegments ∧
      (copyToReq (request i)).sectorNumber = (request i).firstSector ∧
      (copyToReq (request i)).seg =
        (request i).segments.map fun seg => (xenGrantRef seg.gref, seg.firstSect, seg.lastSect) := by
  have hP : nrSectorsPerPage target.disk ≤ 256 := by
    have h1 : nrSectorsPerPage target.disk * target.disk.sectorSize = pageSize := sectors_per_page
    have h2 := Nat.mul_le_mul_left (nrSectorsPerPage target.disk) hss
    simp only [pageSize] at h1
    omega
  refine ⟨Nat.mod_eq_of_lt ?_, ?_, List.map_congr_left fun seg hs => ?_⟩
  · rw [hr.nrSegments]
    omega
  · show u64 _ = _
    rw [hr.firstSector]
    exact Nat.mod_mod ..
  · rw [hr.segments rfl] at hs
    obtain ⟨j, hj, rfl⟩ := List.mem_map.mp hs
    have hj' := List.mem_range.mp hj
    obtain ⟨h1, h2⟩ := hS (11 * i + j) (by omega)
      ((old ((11 * i + j) / 11)).seg ((11 * i + j) % 11))
    have := countAt_bounds h ho hN (k := 11 * i + j) (by omega)
    have h3 : (segmentAt S old (11 * i + j)).firstSect < 256 := by
      rw [segmentAt]
      omega
    have h4 : (segmentAt S old (11 * i + j)).lastSect < 256 := by
      rw [segmentAt]
      omega
    rw [Nat.mod_eq_of_lt h3, Nat.mod_eq_of_lt h4]

theorem split_of_requests (h : srb.Fits target.disk) (ho : o < nrSectorsPerPage target.disk)
    (hN : Pages (nrSectorsPerPage target.disk) o (nrSectors target.disk srb) N) (hN22 : N ≤ 22)
    (hS : OnPages target.disk srb o N S)
    (hr : ∀ i < nrRequestsFor N,
      IsRequest target srb start (doneAt target.disk srb o) S N i (old i) (request i)) (b : Bool) :
    Split target srb start ⟨request, nrRequestsFor N, b⟩ := by
  have hpos : 0 < N := (hN 0).mpr (by
    have := h.nrSectors_pos
    omega)
  have hR : N ≤ 11 * nrRequestsFor N ∧ 11 * nrRequestsFor N < N + 11 := by
    simp only [nrRequestsFor, maxSegmentsPerRequest]
    omega
  generalize nrRequestsFor N = R at hr hR ⊢
  have hseg := segments_eq hR.1 hr b
  have hmem : ∀ r ∈ SrbExtension.requests ⟨request, R, b⟩, ∃ i < R, request i = r := by
    intro r hm
    obtain ⟨i, hi, rfl⟩ := List.mem_map.mp hm
    exact ⟨i, List.mem_range.mp hi, rfl⟩
  have hR2 : 1 ≤ R ∧ R ≤ 2 := by omega
  refine ⟨hR2, fun r hm => ?_, fun r hm => ?_, fun seg hm => ?_, fun i hi => ?_, ?_, fun i hi => ?_,
    fun hss r hm => ?_⟩
  · obtain ⟨i, hi, rfl⟩ := hmem r hm
    rw [(hr i hi).nrSegments]
    omega
  · obtain ⟨i, hi, rfl⟩ := hmem r hm
    exact ⟨(hr i hi).operation, (hr i hi).handle⟩
  · rw [hseg] at hm
    obtain ⟨k, hk, rfl⟩ := List.mem_map.mp hm
    obtain ⟨h1, h2⟩ := hS k (List.mem_range.mp hk) ((old (k / 11)).seg (k % 11))
    have := countAt_bounds h ho hN (List.mem_range.mp hk)
    rw [segmentAt]
    omega
  · exact request_firstSector h ho hN hS hr hi b
  · exact requests_sectors h ho hN hS hR.1 hr b
  · exact request_id (hr i hi) (Nat.lt_of_lt_of_le hi (hR2.2.trans (by decide)))
  · obtain ⟨i, hi, rfl⟩ := hmem r hm
    exact request_ring h ho hN hS (hr i hi) hss

end Split

/-! ## The data -/

section Data
variable {target : Target} {srb : Srb} {mem : Memory srb} {w : Resources} {N o : Nat}
  {old : Nat → Request} {e : SrbExtension}

theorem physicalAddress_add {v k : Nat} (h : v % pageSize + k < pageSize) :
    mem.physicalAddress (v + k) = mem.frame (v / pageSize) * pageSize + (v % pageSize + k) := by
  have hdiv : (v + k) / pageSize = v / pageSize := by
    simp only [pageSize] at *
    omega
  have hmod : (v + k) % pageSize = v % pageSize + k := by
    simp only [pageSize] at *
    omega
  rw [Memory.physicalAddress, hdiv, hmod]

theorem alignedAt_onPages : OnPages target.disk srb o N (alignedAt target w o srb) :=
  fun _ _ _ => ⟨rfl, rfl⟩

theorem bouncedAt_onPages : OnPages target.disk srb 0 N (bouncedAt target w srb) :=
  fun k _ _ => ⟨firstSectAt_zero.symm, by rw [firstSectAt_zero, Nat.zero_add]; rfl⟩

theorem bytesOf_aligned (h : srb.Fits target.disk) (ha : target.disk.sectorSize ∣ srb.dataBuffer)
    (ho : startSect target.disk srb = o)
    (hN : Pages (nrSectorsPerPage target.disk) o (nrSectors target.disk srb) N) {k : Nat} (hk : k < N) :
    bytesOf target.disk (segmentAt (alignedAt target w o srb) old k, alignedGrant target mem w o k) =
      (List.range' (vaddrAt target.disk srb o k)
        (countAt target.disk srb o k * target.disk.sectorSize)).map mem.physicalAddress := by
  subst ho
  have ho := startSect_lt ha
  have hmod := vaddrAt_mod (k := k) ha (sectorsAt_lt hN ho h.nrSectors_pos hk)
  have hpage := Nat.mul_le_mul_right target.disk.sectorSize (countAt_bounds h ho hN hk).2
  rw [Nat.add_mul, sectors_per_page, ← hmod] at hpage
  unfold bytesOf
  rw [alignedAt_onPages.nrSectors h ho hN hk, List.range'_eq_map_range, List.range'_eq_map_range,
    List.map_map]
  refine List.map_congr_left fun j hj => ?_
  have hj' := List.mem_range.mp hj
  show mem.frame (vaddrAt target.disk srb _ k / pageSize) * pageSize +
    firstSectAt (startSect target.disk srb) k * target.disk.sectorSize + j = mem.physicalAddress _
  rw [physicalAddress_add (by omega), ← hmod, Nat.add_assoc]

/-- The pieces of the data buffer. -/
theorem flatMap_vaddrAt (h : srb.Fits target.disk)
    (hN : Pages (nrSectorsPerPage target.disk) o (nrSectors target.disk srb) N) (b : Nat) :
    (List.range N).flatMap (fun k => List.range' (b + doneAt target.disk srb o k * target.disk.sectorSize)
      (countAt target.disk srb o k * target.disk.sectorSize)) = List.range' b srb.dataTransferLength := by
  have := flatMap_pieces_mul (D := doneAt target.disk srb o) (n := N)
    (fun k _ => doneAt_mono (Nat.le_succ k)) b target.disk.sectorSize
  rw [doneAt_zero, show doneAt target.disk srb o N = nrSectors target.disk srb from sectorsAt_all hN,
    Nat.zero_mul, Nat.sub_zero, h.length_eq] at this
  exact this

theorem aligned_data (h : srb.Fits target.disk) (ha : target.disk.sectorSize ∣ srb.dataBuffer)
    (ho : startSect target.disk srb = o)
    (hN : Pages (nrSectorsPerPage target.disk) o (nrSectors target.disk srb) N)
    (he : e.segments = (List.range N).map (segmentAt (alignedAt target w o srb) old)) :
    AlignedData target mem w (alignedResources target mem w o N) e := by
  refine ⟨(List.range N).map (alignedGrant target mem w o), rfl, ?_, fun g hg => ?_, ?_⟩
  · rw [he, List.map_map, List.map_map]
    rfl
  · obtain ⟨k, -, rfl⟩ := List.mem_map.mp hg
    exact ⟨rfl, rfl⟩
  · rw [he, List.zip_map', List.flatMap_map, ← flatMap_vaddrAt h hN, List.map_flatMap]
    exact List.flatMap_congr fun k hk => bytesOf_aligned h ha ho hN (List.mem_range.mp hk)

theorem bounced_data (h : srb.Fits target.disk)
    (hN : Pages (nrSectorsPerPage target.disk) 0 (nrSectors target.disk srb) N)
    (hb : N ≤ w.bounce.length)
    (he : e.segments = (List.range N).map (segmentAt (bouncedAt target w srb) old)) :
    BouncedData target mem w (bouncedResources target mem w N) e := by
  refine ⟨?_, ?_, ?_, fun seg hseg => ?_, ?_⟩
  · have hbids : e.segments.map Segment.bid = w.bounce.take N := by
      rw [he, List.map_map]
      refine List.ext_getElem (by simp [hb]) fun k h1 h2 => ?_
      have hk : k < w.bounce.length := by
        simp only [List.length_take] at h2
        omega
      simp only [List.getElem_map, List.getElem_range, Function.comp, List.getElem_take]
      exact List.getD_eq_getElem _ _ hk
    rw [hbids]
    exact (List.take_append_drop N w.bounce).symm
  · rw [he, List.map_map]
    rfl
  · rw [he, List.map_map]
    rfl
  · rw [he] at hseg
    obtain ⟨k, hk, rfl⟩ := List.mem_map.mp hseg
    refine ⟨rfl, ?_⟩
    rw [bouncedAt_onPages.nrSectors h nrSectorsPerPage_pos hN (List.mem_range.mp hk)]
    rfl
  · have := flatMap_vaddrAt h hN 0
    simp only [Nat.zero_add] at this
    rw [he, List.flatMap_map]
    exact this.trans List.range_eq_range'.symm

end Data

/-! ## Preparing -/

section Prepare
variable {target : Target} {srb : Srb} {mem : Memory srb} {s : State} {start : Nat}

theorem aligned_pages (h : srb.Fits target.disk) (ha : target.disk.sectorSize ∣ srb.dataBuffer) :
    Pages (nrSectorsPerPage target.disk) (startSect target.disk srb) (nrSectors target.disk srb)
      srb.nrSegments := by
  rw [h.nrSegments_eq, ← startSect_mul ha, ← h.length_eq]
  exact pages_of_sectors _ _ _

theorem bounced_pages (h : srb.Fits target.disk) :
    Pages (nrSectorsPerPage target.disk) 0 (nrSectors target.disk srb) srb.nrBouncedSegments := by
  have := pages_of_sectors target.disk 0 (nrSectors target.disk srb)
  rwa [Nat.zero_mul, Nat.zero_add, h.length_eq, ← h.nrBouncedSegments_eq] at this

theorem Srb.Fits.nrSegments_le (h : srb.Fits target.disk) : srb.nrSegments ≤ 22 :=
  h.nrSegments_eq ▸ h.pages

theorem Srb.Fits.nrBouncedSegments_le (h : srb.Fits target.disk) : srb.nrBouncedSegments ≤ 22 := by
  have := h.length_le
  rw [h.nrBouncedSegments_eq]
  simp only [pageSize]
  omega

theorem nrRequestsFor_le (N : Nat) : N ≤ 11 * (0 + nrRequestsFor N) := by
  simp only [nrRequestsFor, maxSegmentsPerRequest]
  omega

theorem prepareSrb_split (h : srb.Fits target.disk) (ha : target.disk.sectorSize ∣ srb.dataBuffer)
    (hs : getStartLogicalBlock srb = .ok start) (hnb : s.ext.bounced = false)
    (hnull : nullGrantRef ∉ s.resources.grants) (hg : srb.nrSegments ≤ s.resources.grants.length) :
    ∃ t, prepareSrb target mem s = .ok t ∧ t.preparedSrbs = s.preparedSrbs ++ [srb.address] ∧
      Split target srb start t.ext ∧ AlignedData target mem s.resources t.resources t.ext := by
  have hN := aligned_pages h ha
  have hle := h.nrSegments_le
  have ho := startSect_lt ha
  have hdone : doneAt target.disk srb (startSect target.disk srb) srb.nrSegments =
      nrSectors target.disk srb := sectorsAt_all hN
  obtain ⟨request, he, hr, -⟩ := (aligned_steps mem h ha rfl hN (Nat.le_refl _) hg hnull).fillRequests
    target srb start (by omega) (i := 0) (nrRequestsFor_le _) s.ext.request
  simp only [Nat.mul_zero, Nat.min_zero, Nat.zero_le, Nat.zero_add, true_implies, doneAt_zero,
    alignedResources_zero] at he hr
  have hb : ¬ srb.nrSegments > maxSegmentsPerSrb := Nat.not_lt_of_le hle
  refine ⟨{ s with
    ext := { s.ext with request, nrRequests := nrRequestsFor srb.nrSegments }
    resources := alignedResources target mem s.resources (startSect target.disk srb) srb.nrSegments
    preparedSrbs := s.preparedSrbs ++ [srb.address] }, ?_, rfl, ?_, ?_⟩
  · simp only [prepareSrb, hnb, hs, he, hdone, xmAssert, bind, Except.bind, hb, Bool.false_eq_true,
      not_false_eq_true, if_true, if_false]
  · exact split_of_requests h ho hN hle alignedAt_onPages hr _
  · exact aligned_data h ha rfl hN (segments_eq (by
      have := nrRequestsFor_le srb.nrSegments
      omega) hr _)

theorem prepareBouncedSrb_split (h : srb.Fits target.disk) (hs : getStartLogicalBlock srb = .ok start)
    (hb : s.ext.bounced = true) (hnull : nullGrantRef ∉ s.resources.grants)
    (hg : srb.nrBouncedSegments ≤ s.resources.grants.length)
    (hbounce : srb.nrBouncedSegments ≤ s.resources.bounce.length) :
    ∃ t, prepareBouncedSrb target mem s = .ok t ∧ t.preparedSrbs = s.preparedSrbs ++ [srb.address] ∧
      Split target srb start t.ext ∧ BouncedData target mem s.resources t.resources t.ext := by
  have hN := bounced_pages h
  have hle := h.nrBouncedSegments_le
  have hdone : doneAt target.disk srb 0 srb.nrBouncedSegments = nrSectors target.disk srb :=
    sectorsAt_all hN
  obtain ⟨request, he, hr, -⟩ := (bounced_steps mem h hN (Nat.le_refl _) hbounce hg hnull).fillRequests
    target srb start (by omega) (i := 0) (nrRequestsFor_le _) s.ext.request
  simp only [Nat.mul_zero, Nat.min_zero, Nat.zero_le, Nat.zero_add, true_implies, doneAt_zero,
    bouncedResources_zero] at he hr
  have hb' : ¬ srb.nrBouncedSegments > maxSegmentsPerSrb := Nat.not_lt_of_le hle
  refine ⟨{ s with
    ext := { s.ext with request, nrRequests := nrRequestsFor srb.nrBouncedSegments }
    resources := bouncedResources target mem s.resources srb.nrBouncedSegments
    preparedSrbs := s.preparedSrbs ++ [srb.address] }, ?_, rfl, ?_, ?_⟩
  · simp only [prepareBouncedSrb, hb, hs, he, hdone, xmAssert, bind, Except.bind, hb', if_true, if_false]
  · exact split_of_requests h nrSectorsPerPage_pos hN hle bouncedAt_onPages hr _
  · exact bounced_data h hN hbounce (segments_eq (by
      have := nrRequestsFor_le srb.nrBouncedSegments
      omega) hr _)

/-- `PrepareSrb` when the cache runs out of references. -/
theorem prepareSrb_refused (h : srb.Fits target.disk) (ha : target.disk.sectorSize ∣ srb.dataBuffer)
    (hs : getStartLogicalBlock srb = .ok start) (hnb : s.ext.bounced = false)
    (hnull : nullGrantRef ∉ s.resources.grants) (hg : s.resources.grants.length < srb.nrSegments) :
    prepareSrb target mem s = .error .grantRef := by
  have hN := aligned_pages h ha
  have hle := h.nrSegments_le
  have he := (aligned_steps mem h ha rfl hN hg.le (Nat.le_refl _) hnull).fillRequests_error
    target srb start (by omega) hg (aligned_refused h ha rfl hN hg) (i := 0)
    (nrRequestsFor_le _) (Nat.zero_le _) s.ext.request
  simp only [Nat.mul_zero, Nat.min_zero, doneAt_zero, alignedResources_zero] at he
  have hb : ¬ srb.nrSegments > maxSegmentsPerSrb := Nat.not_lt_of_le hle
  simp only [prepareSrb, hnb, hs, he, xmAssert, bind, Except.bind, hb, Bool.false_eq_true,
    not_false_eq_true, if_true, if_false]

theorem prepareBouncedSrb_refused (h : srb.Fits target.disk) (hs : getStartLogicalBlock srb = .ok start)
    (hb : s.ext.bounced = true) (hnull : nullGrantRef ∉ s.resources.grants)
    (hg : s.resources.grants.length < srb.nrBouncedSegments)
    (hbounce : s.resources.grants.length < s.resources.bounce.length) :
    prepareBouncedSrb target mem s = .error .grantRef := by
  have hN := bounced_pages h
  have hle := h.nrBouncedSegments_le
  have he := (bounced_steps mem h hN hg.le hbounce.le (Nat.le_refl _) hnull).fillRequests_error
    target srb start (by omega) hg (bounced_refused h hN hg hbounce) (i := 0)
    (nrRequestsFor_le _) (Nat.zero_le _) s.ext.request
  simp only [Nat.mul_zero, Nat.min_zero, doneAt_zero, bouncedResources_zero] at he
  have hb' : ¬ srb.nrBouncedSegments > maxSegmentsPerSrb := Nat.not_lt_of_le hle
  simp only [prepareBouncedSrb, hb, hs, he, xmAssert, bind, Except.bind, hb', if_true, if_false]

/-- An SRB of whole sectors that has at most 22 pages is cut into requests for its sectors and its data,
if the cache has references for them; no assertion fails but that on the reference. -/
theorem request_splitting (mem : Memory srb) (s : State) (h : srb.Fits target.disk)
    (hs : getStartLogicalBlock srb = .ok start) (hnull : nullGrantRef ∉ s.resources.grants) :
    (s.ext.bounced = false → target.disk.sectorSize ∣ srb.dataBuffer →
      (prepareSrb target mem s = .error .grantRef ∧ s.resources.grants.length < srb.nrSegments) ∨
        ∃ t, prepareSrb target mem s = .ok t ∧ t.preparedSrbs = s.preparedSrbs ++ [srb.address] ∧
          Split target srb start t.ext ∧ AlignedData target mem s.resources t.resources t.ext) ∧
    (s.ext.bounced = true → srb.nrBouncedSegments ≤ s.resources.bounce.length →
      (prepareBouncedSrb target mem s = .error .grantRef ∧
          s.resources.grants.length < srb.nrBouncedSegments) ∨
        ∃ t, prepareBouncedSrb target mem s = .ok t ∧
          t.preparedSrbs = s.preparedSrbs ++ [srb.address] ∧
          Split target srb start t.ext ∧ BouncedData target mem s.resources t.resources t.ext) := by
  refine ⟨fun hnb ha => ?_, fun hb hbounce => ?_⟩
  · rcases Nat.lt_or_ge s.resources.grants.length srb.nrSegments with hg | hg
    · exact .inl ⟨prepareSrb_refused h ha hs hnb hnull hg, hg⟩
    · exact .inr (prepareSrb_split h ha hs hnb hnull hg)
  · rcases Nat.lt_or_ge s.resources.grants.length srb.nrBouncedSegments with hg | hg
    · exact .inl ⟨prepareBouncedSrb_refused h hs hb hnull hg (Nat.lt_of_lt_of_le hg hbounce), hg⟩
    · exact .inr (prepareBouncedSrb_split h hs hb hnull hg hbounce)

end Prepare

/-- A READ16 of 96 sectors from sector 7 on, whose data begin 512 bytes before the end of a page. -/
def readSrb : Srb :=
  ⟨4096, fun i => if i = 0 then 0x88 else if i = 9 then 7 else 0, 16, 3584, 49152, by decide, by decide,
    by decide⟩

def readMemory : Memory readSrb where
  frame v := v % 1024
  length v := 52736 - v
  bounceFrame bid := bid % 1024
  frame_lt v := by omega
  bounceFrame_lt bid := by omega
  le_length v _ _ := Nat.min_le_right ..

theorem readTarget_pos : 0 < 512 := by decide

theorem readTarget_dvd : 512 ∣ pageSize := by decide

def readTarget : Target := ⟨⟨512, readTarget_pos, readTarget_dvd⟩, 0, 768⟩

def readState (bounced : Bool) : State :=
  ⟨⟨fun _ => zeroRequest, 0, bounced⟩, ⟨(List.range 22).map fun k => (k + 9) * 1024, List.range 22, [], [], []⟩,
    [], [], false, 0, 0, false⟩

/-- Two requests for 13 pages, or for 12 bounce buffers. -/
theorem request_splitting_read :
    (∃ t, prepareSrb readTarget readMemory (readState false) = .ok t ∧
      Split readTarget readSrb 7 t.ext) ∧
    ∃ t, prepareBouncedSrb readTarget readMemory (readState true) = .ok t ∧
      Split readTarget readSrb 7 t.ext := by
  have hfits : readSrb.Fits readTarget.disk := ⟨by decide, by decide, by decide⟩
  have h1 := request_splitting readMemory (readState false) hfits rfl (by decide)
  have h2 := request_splitting readMemory (readState true) hfits rfl (by decide)
  constructor
  · rcases h1.1 rfl (by decide) with ⟨-, hg⟩ | ⟨t, ht, -, hsplit, -⟩
    · exact absurd hg (by decide)
    · exact ⟨t, ht, hsplit⟩
  · rcases h2.2 rfl (by decide) with ⟨-, hg⟩ | ⟨t, ht, -, hsplit, -⟩
    · exact absurd hg (by decide)
    · exact ⟨t, ht, hsplit⟩

end XcWindows.Xenvbd.Requests
