import XcWindows.Lib.Blocks
import XcWindows.Scsifilt.Requests

/-!
# The requests of an IRP are the IRP

`count_requests_for_srb` says how many requests `initialise_requests` fills in, unless the rounding up to
pages wraps; and these have the sectors and the data of the IRP, in its order. The sectors in a fragment
are counted in a `uint8_t`, which is enough for sectors of 16 bytes and more.
-/

namespace XcWindows.Scsifilt.Irp

open Lib
open XcWindows.Xenvbd (Disk nrSectorsPerPage sectors_per_page)
open XcWindows.Xenvbd.Requests (bigEndian sectorsAt firstSectAt Pages sectorsAt_zero sectorsAt_le sectorsAt_all
  sectorsAt_lt sectorsAt_mono firstSectAt_lt pages_of_sectors)

variable {disk : Disk} {srb : Srb} {mem : Memory} {ans : Answers}

/-! ## What the requests should be -/

/-- How many sectors a fragment is for. -/
def Fragment.nrSectors (f : Fragment) : Nat := f.lastSect + 1 - f.startSect

/-- The bytes of memory of a fragment. -/
def Fragment.bytes (disk : Disk) (f : Fragment) : List Nat :=
  List.range' (f.pfn * pageSize + f.startSect * disk.sectorSize) (f.nrSectors * disk.sectorSize)

namespace Sfri

def nrSectors (r : Sfri) : Nat := (r.fragments.map Fragment.nrSectors).sum

/-- The sectors of the disk, in the order of the fragments. -/
def sectors (r : Sfri) : List Nat := (List.range r.nrSectors).map fun k => u64 (r.startSector + k)

/-- The bytes of memory, in the order of the fragments. -/
def bytes (disk : Disk) (r : Sfri) : List Nat := r.fragments.flatMap (Fragment.bytes disk)

/-- The bytes of the data buffer that a bounced request is for. -/
def source (mem : Memory) (r : Sfri) : List Nat :=
  match r.mdlVa with
  | some v => (List.range' v r.byteCount).map mem.physicalAddress
  | none => []

end Sfri

/-- The bytes of the caller's data buffer. -/
def callerBytes (disk : Disk) (srb : Srb) (mem : Memory) : List Nat :=
  (List.range' srb.dataBuffer (disk.sectorSize * getNrSectorsFromSrb srb)).map mem.mdlAddress

/-- The requests have the bytes of bounce buffers, and these stand for the data buffer. -/
structure Bounced (disk : Disk) (srb : Srb) (mem : Memory) (rs : List Sfri) : Prop where
  buffer : ∀ r ∈ rs, ∃ b, r.bounceBuffer = some b ∧
    r.bytes disk = (List.range' b r.byteCount).map mem.physicalAddress
  copied : ∀ r ∈ rs, r.copied = (operation srb == .write)
  source : rs.flatMap (Sfri.source mem) = callerBytes disk srb mem

/-- The requests have the bytes of the data buffer. -/
structure Direct (disk : Disk) (srb : Srb) (mem : Memory) (rs : List Sfri) : Prop where
  buffer : ∀ r ∈ rs, r.bounceBuffer = none
  bytes : rs.flatMap (Sfri.bytes disk) = callerBytes disk srb mem

structure Split (disk : Disk) (srb : Srb) (mem : Memory) (rs : List Sfri) : Prop where
  operation : ∀ r ∈ rs, r.operation = operation srb
  nrFragments : ∀ r ∈ rs, 1 ≤ r.fragments.length ∧ r.fragments.length ≤ blkifMaxSegmentsPerRequest
  fragment : ∀ r ∈ rs, ∀ f ∈ r.fragments, f.startSect ≤ f.lastSect ∧ f.lastSect < nrSectorsPerPage disk
  byteCount : ∀ r ∈ rs, r.byteCount = r.nrSectors * disk.sectorSize
  sectors : rs.flatMap Sfri.sectors = (List.range' (startSector srb) (getNrSectorsFromSrb srb)).map u64
  data : if useBounce disk srb then Bounced disk srb mem rs else Direct disk srb mem rs

/-- The data buffer is in the MDL. -/
structure Within (disk : Disk) (srb : Srb) (mem : Memory) : Prop where
  start_le : mem.startVa + mem.byteOffset ≤ srb.dataBuffer
  le_end : srb.dataBuffer + disk.sectorSize * getNrSectorsFromSrb srb ≤
    mem.startVa + mem.byteOffset + mem.byteCount

/-- There is memory for the bounce buffers, and for the mappings. -/
def Answers.Bounces (ans : Answers) (n : Nat) : Prop :=
  ∀ k < n, ans.systemAddress k = true ∧ ∀ size, (ans.bounceBuffer k size).isSome = true

/-- As many requests as are counted are filled in, if there is memory, and they are the IRP. -/
def Splits (wide : Bool) (disk : Disk) (srb : Srb) (mem : Memory) (ans : Answers) : Prop :=
  ∃ r, initialiseRequests disk srb mem ans (countRequestsForSrb wide disk srb) = .ok r ∧
    ((useBounce disk srb = true → ans.Bounces (countRequestsForSrb wide disk srb)) → r.success = true) ∧
    (r.success = true → r.requests.length = countRequestsForSrb wide disk srb ∧ Split disk srb mem r.requests)

/-! ## The count -/

/-- The number of bytes that the CDB asks for. -/
def nrBytes (disk : Disk) (srb : Srb) : Nat := disk.sectorSize * getNrSectorsFromSrb srb

/-- The bytes before the data in their first page. -/
def offsetInPage (disk : Disk) (srb : Srb) : Nat := if useBounce disk srb then 0 else srb.dataBuffer % pageSize

/-- The number of bytes, rounded up to pages, is not too large for the arithmetic. -/
def NoWrap (wide : Bool) (disk : Disk) (srb : Srb) : Prop :=
  if wide = true ∧ useBounce disk srb = false then nrBytes disk srb < 4294967296
  else nrBytes disk srb + offsetInPage disk srb + (pageSize - 1) < 4294967296

instance (wide : Bool) : Decidable (NoWrap wide disk srb) := by
  unfold NoWrap
  infer_instance

theorem offsetInPage_eq : offsetInPage disk srb = sectorOffInPage disk srb * disk.sectorSize := by
  unfold offsetInPage
  cases h : useBounce disk srb with
  | true => rw [if_pos rfl, sectorOffInPage_bounced h, Nat.zero_mul]
  | false => rw [if_neg Bool.false_ne_true, sectorOffInPage_mul h]

theorem pages_unique {P o n N N' : Nat} (h : Pages P o n N) (h' : Pages P o n N') : N = N' := by
  have h₁ := (h N).trans (h' N).symm
  have h₂ := (h N').trans (h' N').symm
  omega

theorem nrRequests_eq (disk : Disk) (srb : Srb) : nrRequests disk srb =
    ((offsetInPage disk srb + nrBytes disk srb + (pageSize - 1)) / pageSize +
      (blkifMaxSegmentsPerRequest - 1)) / blkifMaxSegmentsPerRequest := by
  have hpages := pages_of_sectors disk (sectorOffInPage disk srb) (getNrSectorsFromSrb srb)
  have hnr : nrBytes disk srb = getNrSectorsFromSrb srb * disk.sectorSize := Nat.mul_comm _ _
  refine pages_unique (pages_nrPages perRequest_pos _ _) fun k => ?_
  have hmul : k * sectorsPerRequest disk = 11 * k * nrSectorsPerPage disk := by
    rw [sectorsPerRequest, ← Nat.mul_assoc, Nat.mul_comm k 11]
  rw [hmul, ← hpages, ← offsetInPage_eq, ← hnr]
  simp only [pageSize, blkifMaxSegmentsPerRequest]
  omega

theorem offsetInPage_lt (disk : Disk) (srb : Srb) : offsetInPage disk srb < pageSize := by
  unfold offsetInPage
  split
  · decide
  · exact Nat.mod_lt _ (by decide)

theorem countRequestsForSrb_spec (wide : Bool) (disk : Disk) (srb : Srb) :
    (NoWrap wide disk srb ∧ countRequestsForSrb wide disk srb = nrRequests disk srb) ∨
    (¬NoWrap wide disk srb ∧ countRequestsForSrb wide disk srb < nrRequests disk srb) := by
  have hoff := offsetInPage_lt disk srb
  rw [nrRequests_eq]
  unfold NoWrap countRequestsForSrb
  have hbytes : disk.sectorSize * getNrSectorsFromSrb srb = nrBytes disk srb := rfl
  simp only [hbytes]
  have hbounce : useBounce disk srb = true → offsetInPage disk srb = 0 := fun h => if_pos h
  have hpage : useBounce disk srb = false → srb.dataBuffer % pageSize = offsetInPage disk srb :=
    fun h => (if_neg (by simp [h])).symm
  generalize nrBytes disk srb = b at *
  generalize offsetInPage disk srb = o at *
  cases hu : useBounce disk srb with
  | true =>
    simp only [hbounce hu, if_true, Bool.true_eq_false, and_false, if_false, u32, pageSize,
      blkifMaxSegmentsPerRequest]
    omega
  | false =>
    simp only [hpage hu, Bool.false_eq_true, if_false, and_true]
    cases wide with
    | true =>
      simp only [ulongPtr, if_true, u32, u64, pageSize, blkifMaxSegmentsPerRequest] at hoff ⊢
      omega
    | false =>
      simp only [ulongPtr, Bool.false_eq_true, if_false, u32, pageSize, blkifMaxSegmentsPerRequest] at hoff ⊢
      omega

/-! ## Fragments -/

theorem length_fragmentsFrom (P o n : Nat) (mk : Nat → Nat → Nat → Fragment) :
    (fragmentsFrom P o n 0 mk).length = nrPages P o n := by
  simp [fragmentsFrom]

theorem mem_fragmentsFrom {P o n : Nat} {mk : Nat → Nat → Nat → Fragment} {f : Fragment}
    (h : f ∈ fragmentsFrom P o n 0 mk) :
    ∃ j < nrPages P o n, mk (sectorsAt P o n j) (countAt P o n j) (firstSectAt o j) = f := by
  obtain ⟨j, hj, rfl⟩ := List.mem_map.1 h
  rw [List.mem_range'_1] at hj
  exact ⟨j, by omega, rfl⟩

theorem countAt_bounds {P o n j : Nat} (ho : o < P) (hn : 0 < n) (hj : j < nrPages P o n) :
    0 < countAt P o n j ∧ firstSectAt o j + countAt P o n j ≤ P := by
  have hlt := sectorsAt_lt (pages_nrPages (Nat.zero_lt_of_lt ho) o n) ho hn hj
  have hfirst := firstSectAt_lt (k := j) ho
  obtain ⟨-, hcount⟩ := sectorsAt_countAt (n := n) ho j
  omega

theorem flatMap_fragmentsFrom {β : Type} {P o n : Nat} (ho : o < P) (mk : Nat → Nat → Nat → Fragment)
    (g : Fragment → List β) (φ : Nat → β) (b u : Nat)
    (h : ∀ j < nrPages P o n, g (mk (sectorsAt P o n j) (countAt P o n j) (firstSectAt o j)) =
      (List.range' (b + sectorsAt P o n j * u) (countAt P o n j * u)).map φ) :
    (fragmentsFrom P o n 0 mk).flatMap g = (List.range' b (n * u)).map φ := by
  have hpieces := flatMap_pieces_mul (D := fun j => sectorsAt P o n j) (n := nrPages P o n)
    (fun j _ => sectorsAt_mono (Nat.le_succ j)) b u
  simp only [sectorsAt_zero, Nat.zero_mul, Nat.add_zero, Nat.sub_zero,
    sectorsAt_all (pages_nrPages (Nat.zero_lt_of_lt ho) o n)] at hpieces
  rw [← hpieces, List.map_flatMap, fragmentsFrom, Nat.sub_zero, ← List.range_eq_range', List.flatMap_map]
  exact List.flatMap_congr fun j hj => h j (List.mem_range.1 hj)

theorem sum_fragmentsFrom {P o n : Nat} (ho : o < P) (mk : Nat → Nat → Nat → Fragment)
    (h : ∀ j < nrPages P o n,
      (mk (sectorsAt P o n j) (countAt P o n j) (firstSectAt o j)).nrSectors = countAt P o n j) :
    ((fragmentsFrom P o n 0 mk).map Fragment.nrSectors).sum = n := by
  have hsum := (sum_pieces (D := fun j => sectorsAt P o n j) (a := 0) (n := nrPages P o n)
    fun j _ => sectorsAt_mono (Nat.le_succ _)).1
  simp only [Nat.zero_add, sectorsAt_zero, Nat.sub_zero,
    sectorsAt_all (pages_nrPages (Nat.zero_lt_of_lt ho) o n)] at hsum
  refine Eq.trans ?_ hsum
  rw [fragmentsFrom, Nat.sub_zero, ← List.range_eq_range', List.map_map]
  refine congrArg List.sum (List.map_congr_left fun j hj => ?_)
  exact h j (List.mem_range.1 hj)

/-! ## One request -/

theorem map_range' {φ : Nat → Nat} {v n : Nat} (h : ∀ i < n, φ (v + i) = φ v + i) :
    (List.range' v n).map φ = List.range' (φ v) n := by
  rw [List.range'_eq_map_range, List.range'_eq_map_range, List.map_map]
  exact List.map_congr_left fun i hi => h i (List.mem_range.1 hi)

theorem physicalAddress_add {v i : Nat} (h : v % pageSize + i < pageSize) :
    mem.physicalAddress (v + i) = mem.physicalAddress v + i := by
  unfold Memory.physicalAddress
  have hdiv : (v + i) / pageSize = v / pageSize := by
    simp only [pageSize] at h ⊢
    omega
  have hmod : (v + i) % pageSize = v % pageSize + i := by
    simp only [pageSize] at h ⊢
    omega
  rw [hdiv, hmod, Nat.add_assoc]

theorem mdlAddress_add {v i : Nat} (hv : mem.startVa ≤ v) (h : v % pageSize + i < pageSize) :
    mem.mdlAddress (v + i) = mem.mdlAddress v + i := by
  unfold Memory.mdlAddress
  have hstart := mem.startVa_page
  have hdiv : (v + i - mem.startVa) / pageSize = (v - mem.startVa) / pageSize := by
    simp only [pageSize] at h hstart ⊢
    omega
  have hmod : (v + i) % pageSize = v % pageSize + i := by
    simp only [pageSize] at h ⊢
    omega
  rw [hdiv, hmod, Nat.add_assoc]

theorem perPage_le (h16 : 16 ≤ disk.sectorSize) : nrSectorsPerPage disk ≤ 256 := by
  have hpage := perPage_mul disk
  have := Nat.mul_le_mul_left (nrSectorsPerPage disk) h16
  simp only [pageSize] at hpage
  omega

theorem bounceFragment_spec (mem : Memory) (h16 : 16 ≤ disk.sectorSize) (b d : Nat) {c : Nat} (off : Nat) (hc : 0 < c)
    (hle : c ≤ nrSectorsPerPage disk) :
    (bounceFragment disk mem b d c off).startSect = 0 ∧ (bounceFragment disk mem b d c off).lastSect = c - 1 := by
  have hP := perPage_le h16
  refine ⟨rfl, ?_⟩
  simp only [bounceFragment, u8]
  omega

theorem nonbounceFragment_spec (srb : Srb) (mem : Memory) (h16 : 16 ≤ disk.sectorSize) (done d : Nat)
    {c off : Nat} (hc : 0 < c)
    (hle : off + c ≤ nrSectorsPerPage disk) :
    (nonbounceFragment disk srb mem done d c off).startSect = off ∧
      (nonbounceFragment disk srb mem done d c off).lastSect = off + c - 1 := by
  have hP := perPage_le h16
  simp only [nonbounceFragment, u8]
  omega

theorem bounceFragment_bytes (h16 : 16 ≤ disk.sectorSize) {b d c : Nat} (off : Nat) (hc : 0 < c)
    (hle : c ≤ nrSectorsPerPage disk) (hd : d * disk.sectorSize < 4294967296)
    (hpage : (b + d * disk.sectorSize) % pageSize = 0) :
    (bounceFragment disk mem b d c off).bytes disk =
      (List.range' (b + d * disk.sectorSize) (c * disk.sectorSize)).map mem.physicalAddress := by
  obtain ⟨hstart, hlast⟩ := bounceFragment_spec mem h16 b d off hc hle
  have hlen : c * disk.sectorSize ≤ pageSize := by
    rw [← perPage_mul disk]
    exact Nat.mul_le_mul_right _ hle
  have hcount : (bounceFragment disk mem b d c off).nrSectors = c := by
    rw [Fragment.nrSectors, hstart, hlast]
    omega
  have hpfn : (bounceFragment disk mem b d c off).pfn * pageSize = mem.physicalAddress (b + d * disk.sectorSize) := by
    simp only [bounceFragment, u32, Nat.mod_eq_of_lt hd, Memory.physicalAddress, hpage, Nat.add_zero]
    rw [Nat.mul_div_cancel _ (by decide)]
  rw [Fragment.bytes, hcount, hstart, Nat.zero_mul, Nat.add_zero, hpfn,
    map_range' fun i hi => physicalAddress_add (by omega)]

theorem nonbounceFragment_bytes (h16 : 16 ≤ disk.sectorSize) {done d c off : Nat} (hc : 0 < c)
    (hle : off + c ≤ nrSectorsPerPage disk) (hd : (done + d) * disk.sectorSize < 4294967296)
    (hpage : (srb.dataBuffer + (done + d) * disk.sectorSize) % pageSize = off * disk.sectorSize)
    (hstart : mem.startVa ≤ srb.dataBuffer)
    (hend : srb.dataBuffer + (done + d) * disk.sectorSize < mem.startVa + 4294967296) :
    (nonbounceFragment disk srb mem done d c off).bytes disk =
      (List.range' (srb.dataBuffer + (done + d) * disk.sectorSize) (c * disk.sectorSize)).map mem.mdlAddress := by
  obtain ⟨hfirst, hlast⟩ := nonbounceFragment_spec srb mem h16 done d hc hle
  have hlen : off * disk.sectorSize + c * disk.sectorSize ≤ pageSize := by
    rw [← perPage_mul disk, ← Nat.add_mul]
    exact Nat.mul_le_mul_right _ hle
  have hcount : (nonbounceFragment disk srb mem done d c off).nrSectors = c := by
    rw [Fragment.nrSectors, hfirst, hlast]
    omega
  have hpfn : (nonbounceFragment disk srb mem done d c off).pfn * pageSize + off * disk.sectorSize =
      mem.mdlAddress (srb.dataBuffer + (done + d) * disk.sectorSize) := by
    simp only [nonbounceFragment, mdlVaToPfn, Memory.mdlAddress, u32, Nat.mod_eq_of_lt hd, hpage]
    rw [Nat.mod_eq_of_lt (by omega)]
  rw [Fragment.bytes, hcount, hfirst, hpfn, map_range' fun i hi => mdlAddress_add (by omega) (by omega)]

/-- What request `k` is, the memory apart. -/
structure Part (disk : Disk) (srb : Srb) (k : Nat) (r : Sfri) : Prop where
  operation : r.operation = operation srb
  startSector : r.startSector = u64 (startSector srb + doneAt disk srb k)
  nrFragments : 1 ≤ r.fragments.length ∧ r.fragments.length ≤ blkifMaxSegmentsPerRequest
  fragment : ∀ f ∈ r.fragments, f.startSect ≤ f.lastSect ∧ f.lastSect < nrSectorsPerPage disk
  nrSectors : r.nrSectors = timesAt disk srb k
  byteCount : r.byteCount = timesAt disk srb k * disk.sectorSize

theorem timesAt_mul_le (disk : Disk) (srb : Srb) (k : Nat) : timesAt disk srb k * disk.sectorSize ≤ 45056 := by
  have hle := offAt_add_timesAt_le disk srb k
  have hmul := Nat.mul_le_mul_right disk.sectorSize (Nat.le_trans (Nat.le_add_left _ _) hle)
  rwa [Nat.mul_assoc, sectors_per_page] at hmul

theorem u32_byteCount (disk : Disk) (srb : Srb) (k : Nat) :
    u32 (disk.sectorSize * timesAt disk srb k) = timesAt disk srb k * disk.sectorSize := by
  have hle := timesAt_mul_le disk srb k
  rw [Nat.mul_comm]
  apply Nat.mod_eq_of_lt
  omega

theorem fragments_part {o n : Nat} (ho : o < nrSectorsPerPage disk) (hn : 0 < n)
    (hle : o + n ≤ blkifMaxSegmentsPerRequest * nrSectorsPerPage disk) (mk : Nat → Nat → Nat → Fragment)
    (hmk : ∀ d c off, 0 < c → off + c ≤ nrSectorsPerPage disk →
      (mk d c off).lastSect + 1 = (mk d c off).startSect + c ∧ (mk d c off).lastSect < nrSectorsPerPage disk) :
    let fs := fragmentsFrom (nrSectorsPerPage disk) o n 0 mk
    (1 ≤ fs.length ∧ fs.length ≤ blkifMaxSegmentsPerRequest) ∧
      (∀ f ∈ fs, f.startSect ≤ f.lastSect ∧ f.lastSect < nrSectorsPerPage disk) ∧
      (fs.map Fragment.nrSectors).sum = n := by
  have hbounds := fun j (hj : j < nrPages (nrSectorsPerPage disk) o n) => countAt_bounds ho hn hj
  refine ⟨⟨?_, ?_⟩, fun f hf => ?_, sum_fragmentsFrom ho mk fun j hj => ?_⟩
  · rw [length_fragmentsFrom]
    exact ((pages_nrPages perPage_pos o n) 0).2 (by omega)
  · rw [length_fragmentsFrom]
    exact nrPages_le perPage_pos hle
  · obtain ⟨j, hj, rfl⟩ := mem_fragmentsFrom hf
    have h := hmk (sectorsAt (nrSectorsPerPage disk) o n j) _ _ (hbounds j hj).1 (hbounds j hj).2
    have hpos := (hbounds j hj).1
    exact ⟨by omega, h.2⟩
  · have h := hmk (sectorsAt (nrSectorsPerPage disk) o n j) _ _ (hbounds j hj).1 (hbounds j hj).2
    unfold Fragment.nrSectors
    omega

theorem sfriAt_part (h16 : 16 ≤ disk.sectorSize) (hn : 0 < getNrSectorsFromSrb srb) {k : Nat}
    (hk : k < nrRequests disk srb) {r : Sfri} (h : sfriAt disk srb mem ans k = some r) : Part disk srb k r := by
  have hpos := timesAt_pos hn hk
  have hle := offAt_add_timesAt_le disk srb k
  have hcount := u32_byteCount disk srb k
  unfold sfriAt at h
  dsimp only at h
  split at h
  · split at h
    · cases h
    · obtain ⟨b, -, rfl⟩ := Option.map_eq_some_iff.1 h
      have hle' : 0 + timesAt disk srb k ≤ blkifMaxSegmentsPerRequest * nrSectorsPerPage disk := by
        rw [Nat.zero_add]
        exact Nat.le_trans (Nat.le_add_left _ _) hle
      obtain ⟨hlen, hfragment, hsum⟩ := fragments_part perPage_pos hpos hle'
        (bounceFragment disk mem b) fun d c off hc hoff => by
          obtain ⟨h₁, h₂⟩ := bounceFragment_spec mem h16 b d off hc (by omega)
          omega
      exact ⟨rfl, rfl, hlen, hfragment, hsum, hcount⟩
  · obtain rfl := Option.some.inj h
    obtain ⟨hlen, hfragment, hsum⟩ := fragments_part (offAt_lt disk srb k) hpos hle
      (nonbounceFragment disk srb mem (doneAt disk srb k)) fun d c off hc hoff => by
        obtain ⟨h₁, h₂⟩ := nonbounceFragment_spec srb mem h16 (doneAt disk srb k) d hc hoff
        omega
    exact ⟨rfl, rfl, hlen, hfragment, hsum, hcount⟩

theorem sectorsAt_mul_le {P o n j : Nat} : sectorsAt P o n j * disk.sectorSize ≤ n * disk.sectorSize :=
  Nat.mul_le_mul_right _ sectorsAt_le

theorem doneAt_mul_le (disk : Disk) (srb : Srb) (k : Nat) :
    doneAt disk srb k * disk.sectorSize ≤ nrBytes disk srb := by
  rw [nrBytes, Nat.mul_comm disk.sectorSize]
  exact sectorsAt_mul_le

theorem sfriAt_direct (h16 : 16 ≤ disk.sectorSize) (hn : 0 < getNrSectorsFromSrb srb)
    (hbounce : useBounce disk srb = false) (hbytes : nrBytes disk srb < 4294967296)
    (hwithin : Within disk srb mem) {k : Nat} (hk : k < nrRequests disk srb) {r : Sfri}
    (h : sfriAt disk srb mem ans k = some r) :
    r.bounceBuffer = none ∧ r.bytes disk =
      (List.range' (srb.dataBuffer + doneAt disk srb k * disk.sectorSize)
        (timesAt disk srb k * disk.sectorSize)).map mem.mdlAddress := by
  have hpos := timesAt_pos hn hk
  unfold sfriAt at h
  dsimp only at h
  rw [if_neg (by simp [hbounce])] at h
  obtain rfl := Option.some.inj h
  refine ⟨rfl, flatMap_fragmentsFrom (offAt_lt disk srb k) _ _ _ _ _ fun j hj => ?_⟩
  obtain ⟨hcpos, hcle⟩ := countAt_bounds (offAt_lt disk srb k) hpos hj
  have hlt := sectorsAt_lt (pages_nrPages perPage_pos (offAt disk srb k) (timesAt disk srb k))
    (offAt_lt disk srb k) hpos hj
  -- the sectors before this page are not all of them
  have hsum : doneAt disk srb k + sectorsAt (nrSectorsPerPage disk) (offAt disk srb k) (timesAt disk srb k) j <
      getNrSectorsFromSrb srb := by
    have hsucc := doneAt_succ disk srb k
    have hle : doneAt disk srb (k + 1) ≤ getNrSectorsFromSrb srb := sectorsAt_le
    omega
  have hmul := Nat.mul_lt_mul_of_pos_right hsum disk.pos
  have hnr : getNrSectorsFromSrb srb * disk.sectorSize = nrBytes disk srb := Nat.mul_comm _ _
  have hend := hwithin.le_end
  have hsize := mem.size_le
  rw [nrBytes] at hbytes hnr
  rw [Nat.add_assoc, ← Nat.add_mul]
  refine nonbounceFragment_bytes h16 hcpos hcle (by omega) ?_ (by have := hwithin.start_le; omega) (by omega)
  rw [Nat.add_mul, ← Nat.add_assoc]
  exact mod_sectorsAt (by rw [sectors_per_page]) (offAt_lt disk srb k) (offAt_mul hn hbounce hk) hlt

theorem mapSrbDataBuffer_spec (h : Within disk srb mem) {i : Nat} (hi : i < nrBytes disk srb) :
    mem.physicalAddress (mapSrbDataBuffer mem srb + i) = mem.mdlAddress (srb.dataBuffer + i) := by
  have hstart := h.start_le
  have hend := h.le_end
  have hpage := mem.startVa_page
  rw [nrBytes] at hi
  have hsum : mapSrbDataBuffer mem srb + i =
      mem.mappedSystemVa + (srb.dataBuffer - (mem.startVa + mem.byteOffset) + i) := Nat.add_assoc _ _ _
  have hoff : srb.dataBuffer + i - mem.startVa =
      mem.byteOffset + (srb.dataBuffer - (mem.startVa + mem.byteOffset) + i) := by omega
  have hmod : (srb.dataBuffer + i) % pageSize =
      (mem.byteOffset + (srb.dataBuffer - (mem.startVa + mem.byteOffset) + i)) % pageSize := by
    simp only [pageSize] at hpage ⊢
    omega
  rw [Memory.physicalAddress, Memory.mdlAddress, hsum, hoff, hmod]
  exact mem.mapped _ (by omega)

theorem sfriAt_bounced (h16 : 16 ≤ disk.sectorSize) (hn : 0 < getNrSectorsFromSrb srb)
    (hbounce : useBounce disk srb = true) (hbytes : nrBytes disk srb < 4294967296)
    (hwithin : Within disk srb mem) {k : Nat} (hk : k < nrRequests disk srb) {r : Sfri}
    (h : sfriAt disk srb mem ans k = some r) :
    (∃ b, r.bounceBuffer = some b ∧ r.bytes disk = (List.range' b r.byteCount).map mem.physicalAddress) ∧
      r.copied = (operation srb == .write) ∧
      r.source mem = (List.range' (srb.dataBuffer + doneAt disk srb k * disk.sectorSize)
        (timesAt disk srb k * disk.sectorSize)).map mem.mdlAddress := by
  have hpos := timesAt_pos hn hk
  have hcount := (sfriAt_part h16 hn hk h).byteCount
  have htimes := timesAt_mul_le disk srb k
  have hdone := doneAt_mul_le disk srb k
  unfold sfriAt at h
  dsimp only at h
  rw [if_pos hbounce] at h
  split at h
  · cases h
  obtain ⟨b, hb, rfl⟩ := Option.map_eq_some_iff.1 h
  have hpage := ans.page_aligned k _ b (le_max_right _ _) hb
  refine ⟨⟨b, rfl, ?_⟩, rfl, ?_⟩
  · rw [hcount]
    refine flatMap_fragmentsFrom perPage_pos _ _ _ _ _ fun j hj => ?_
    obtain ⟨hcpos, hcle⟩ := countAt_bounds perPage_pos hpos hj
    have hlt := sectorsAt_lt (pages_nrPages perPage_pos 0 (timesAt disk srb k)) perPage_pos hpos hj
    have hmul := Nat.mul_lt_mul_of_pos_right hlt disk.pos
    refine bounceFragment_bytes h16 _ hcpos (by omega) (by omega) ?_
    have hzero := mod_sectorsAt (v := b) (by rw [sectors_per_page]) perPage_pos (by rw [hpage, Nat.zero_mul]) hlt
    rw [hzero, firstSectAt, ite_self, Nat.zero_mul]
  · unfold Sfri.source
    simp only at hcount ⊢
    rw [hcount, List.range'_eq_map_range, List.range'_eq_map_range, List.map_map, List.map_map]
    refine List.map_congr_left fun i hi => ?_
    have hi' := List.mem_range.1 hi
    have hsucc := doneAt_succ disk srb k
    have hnext := doneAt_mul_le disk srb (k + 1)
    rw [← hsucc, Nat.add_mul] at hnext
    simp only [Function.comp, u32]
    rw [Nat.mod_eq_of_lt (by omega), Nat.add_assoc, Nat.add_assoc]
    exact mapSrbDataBuffer_spec hwithin (by omega)

/-! ## All of them -/

theorem flatMap_of_map_some {β : Type} {F : Nat → Option Sfri} {g : Sfri → List β} {G : Nat → List β}
    (l : List Nat) {rs : List Sfri} (h : rs.map some = l.map F)
    (hg : ∀ k ∈ l, ∀ r, F k = some r → g r = G k) : rs.flatMap g = l.flatMap G := by
  induction l generalizing rs with
  | nil =>
    obtain rfl := List.map_eq_nil_iff.1 h
    rfl
  | cons k l ih =>
    obtain ⟨r, rs, rfl⟩ : ∃ r rs', rs = r :: rs' := by
      cases rs with
      | nil => cases h
      | cons r rs => exact ⟨r, rs, rfl⟩
    simp only [List.map_cons, List.cons.injEq] at h
    rw [List.flatMap_cons, List.flatMap_cons, hg k (by simp) r h.1.symm,
      ih h.2 fun j hj => hg j (List.mem_cons_of_mem _ hj)]

theorem mem_of_map_some {F : Nat → Option Sfri} {n : Nat} {rs : List Sfri}
    (h : rs.map some = (List.range' 0 n).map F) {r : Sfri} (hr : r ∈ rs) : ∃ k < n, F k = some r := by
  have hmem : some r ∈ rs.map some := List.mem_map_of_mem hr
  rw [h] at hmem
  obtain ⟨k, hk, hF⟩ := List.mem_map.1 hmem
  rw [List.mem_range'_1] at hk
  exact ⟨k, by omega, hF⟩

theorem flatMap_requests {β : Type} {g : Sfri → List β} (φ : Nat → β) (b u : Nat) {rs : List Sfri}
    (h : rs.map some = (List.range' 0 (nrRequests disk srb)).map (sfriAt disk srb mem ans))
    (hg : ∀ k < nrRequests disk srb, ∀ r, sfriAt disk srb mem ans k = some r →
      g r = (List.range' (b + doneAt disk srb k * u) (timesAt disk srb k * u)).map φ) :
    rs.flatMap g = (List.range' b (getNrSectorsFromSrb srb * u)).map φ := by
  have hpieces := flatMap_pieces_mul (D := doneAt disk srb) (n := nrRequests disk srb)
    (fun k _ => sectorsAt_mono (Nat.le_succ k)) b u
  rw [doneAt_zero, Nat.zero_mul, Nat.add_zero, Nat.sub_zero, doneAt_nrRequests] at hpieces
  rw [← hpieces, List.map_flatMap, List.range_eq_range']
  refine flatMap_of_map_some _ h fun k hk r hr => ?_
  rw [List.mem_range'_1] at hk
  exact hg k (by omega) r hr

theorem NoWrap.lt {wide : Bool} (h : NoWrap wide disk srb) : nrBytes disk srb < 4294967296 := by
  unfold NoWrap at h
  split at h <;> omega

theorem split_of_sfris (h16 : 16 ≤ disk.sectorSize) (hn : 0 < getNrSectorsFromSrb srb)
    (hbytes : nrBytes disk srb < 4294967296) (hwithin : Within disk srb mem) {rs : List Sfri}
    (h : rs.map some = (List.range' 0 (nrRequests disk srb)).map (sfriAt disk srb mem ans)) :
    Split disk srb mem rs := by
  have hpart : ∀ r ∈ rs, ∃ k < nrRequests disk srb, sfriAt disk srb mem ans k = some r ∧ Part disk srb k r := by
    intro r hr
    obtain ⟨k, hk, hs⟩ := mem_of_map_some h hr
    exact ⟨k, hk, hs, sfriAt_part h16 hn hk hs⟩
  have hall : nrBytes disk srb = getNrSectorsFromSrb srb * disk.sectorSize := Nat.mul_comm _ _
  refine ⟨fun r hr => ?_, fun r hr => ?_, fun r hr => ?_, fun r hr => ?_, ?_, ?_⟩
  · obtain ⟨k, -, -, hp⟩ := hpart r hr
    exact hp.operation
  · obtain ⟨k, -, -, hp⟩ := hpart r hr
    exact hp.nrFragments
  · obtain ⟨k, -, -, hp⟩ := hpart r hr
    exact hp.fragment
  · obtain ⟨k, -, -, hp⟩ := hpart r hr
    rw [hp.byteCount, hp.nrSectors]
  · have hs := flatMap_requests (g := Sfri.sectors) u64 (startSector srb) 1 h fun k hk r hr => by
      have hp := sfriAt_part h16 hn hk hr
      rw [Sfri.sectors, hp.nrSectors, hp.startSector, Nat.mul_one, Nat.mul_one, List.range'_eq_map_range,
        List.map_map]
      exact List.map_congr_left fun i _ => Nat.mod_add_mod _ _ _
    rwa [Nat.mul_one] at hs
  · cases hbounce : useBounce disk srb with
    | true =>
      rw [if_pos rfl]
      have hdata := fun k (hk : k < nrRequests disk srb) r (hr : sfriAt disk srb mem ans k = some r) =>
        sfriAt_bounced h16 hn hbounce hbytes hwithin hk hr
      refine ⟨fun r hr => ?_, fun r hr => ?_, ?_⟩
      · obtain ⟨k, hk, hs, -⟩ := hpart r hr
        exact (hdata k hk r hs).1
      · obtain ⟨k, hk, hs, -⟩ := hpart r hr
        exact (hdata k hk r hs).2.1
      · rw [callerBytes, ← nrBytes, hall]
        exact flatMap_requests mem.mdlAddress _ _ h fun k hk r hr => (hdata k hk r hr).2.2
    | false =>
      rw [if_neg Bool.false_ne_true]
      have hdata := fun k (hk : k < nrRequests disk srb) r (hr : sfriAt disk srb mem ans k = some r) =>
        sfriAt_direct h16 hn hbounce hbytes hwithin hk hr
      refine ⟨fun r hr => ?_, ?_⟩
      · obtain ⟨k, hk, hs, -⟩ := hpart r hr
        exact (hdata k hk r hs).1
      · rw [callerBytes, ← nrBytes, hall]
        exact flatMap_requests mem.mdlAddress _ _ h fun k hk r hr => (hdata k hk r hr).2

theorem not_fails {n : Nat} (h : useBounce disk srb = true → ans.Bounces n) : ¬Fails disk srb mem ans 0 n := by
  rintro ⟨k, -, hk, hnone⟩
  unfold sfriAt at hnone
  dsimp only at hnone
  split at hnone
  case isTrue hbounce =>
    obtain ⟨haddress, hbuffer⟩ := h hbounce k hk
    rw [if_neg (by simp [haddress]), Option.map_eq_none_iff] at hnone
    have := hbuffer (max (u32 (disk.sectorSize * timesAt disk srb k)) pageSize)
    rw [hnone] at this
    cases this
  case isFalse => cases hnone

/-- Reads and writes are split into requests that together are the IRP. -/
theorem irp_splitting (wide : Bool) (disk : Disk) (srb : Srb) (mem : Memory) (ans : Answers)
    (h16 : 16 ≤ disk.sectorSize) (hn : 0 < getNrSectorsFromSrb srb) (hwrap : NoWrap wide disk srb)
    (hwithin : Within disk srb mem) : Splits wide disk srb mem ans := by
  have hcount : countRequestsForSrb wide disk srb = nrRequests disk srb := by
    obtain ⟨-, h⟩ | ⟨h, -⟩ := countRequestsForSrb_spec wide disk srb
    · exact h
    · exact absurd hwrap h
  have hloop := requestLoop_spec disk mem ans hn (nrRequests disk srb) 0 (Nat.zero_le _)
  rw [doneAt_zero, Nat.zero_add, Nat.min_self] at hloop
  unfold Splits initialiseRequests
  rw [hcount]
  obtain ⟨hfails, rs, hrs⟩ | ⟨-, -, rs, hrs, hmap⟩ | ⟨-, hlt, -⟩ := hloop
  · exact ⟨_, hrs, fun h => absurd hfails (not_fails h), fun h => by cases h⟩
  · refine ⟨_, hrs, fun _ => rfl, fun _ => ⟨?_, split_of_sfris h16 hn hwrap.lt hwithin hmap⟩⟩
    have hlen := congrArg List.length hmap
    simpa using hlen
  · exact absurd hlt (Nat.lt_irrefl _)

/-! ## Small sectors, and large buffers -/

/-- A buffer at the same address everywhere. -/
def flat (byteOffset byteCount : Nat) (h : byteOffset + byteCount ≤ 4294967296) : Memory where
  startVa := 4096
  byteOffset
  byteCount
  pfn i := 1 + i
  mappedSystemVa := 4096 + byteOffset
  frame v := v
  startVa_page := rfl
  size_le := h
  mapped i _ := by
    simp only [pageSize]
    omega

/-- There is memory for all. -/
def plenty : Answers where
  removeLock := true
  request _ := true
  systemAddress _ := true
  bounceBuffer k _ := some (65536 * (k + 1))
  page_aligned k _ _ _ h := by
    obtain rfl := Option.some.inj h
    simp only [pageSize]
    omega

/-- READ (12) -/
def read12 (dataBuffer : Nat) (nr : Nat → UInt8) : Srb where
  cdb i := if i = 0 then 0xA8 else nr i
  cdbLength := 12
  dataBuffer
  accepted := rfl

/-- One sector, as read. -/
def oneSector (dataBuffer : Nat) : Srb := read12 dataBuffer fun i => if i = 9 then 1 else 0

def smallSectors : Disk := ⟨8, by decide, by decide⟩

theorem usualSectors_pos : 0 < 512 := by decide

theorem usualSectors_dvd : 512 ∣ pageSize := by decide

def usualSectors : Disk := ⟨512, usualSectors_pos, usualSectors_dvd⟩

/-- One sector of 512 bytes. -/
theorem one_sector_splits : Splits true usualSectors (oneSector 4096) (flat 0 4096 (by decide)) plenty :=
  irp_splitting true usualSectors (oneSector 4096) (flat 0 4096 (by decide)) plenty (by decide) (by decide)
    (by decide) ⟨by decide, by decide⟩

/-- A buffer that the CDB and the MDL agree on, of less than four gigabytes. -/
def InRange (disk : Disk) (srb : Srb) (mem : Memory) : Prop :=
  0 < getNrSectorsFromSrb srb ∧
    disk.sectorSize * getNrSectorsFromSrb srb + srb.dataBuffer % pageSize < 4294967296 ∧ Within disk srb mem

theorem small_sector_misplaced :
    initialiseRequests smallSectors (oneSector 6144) (flat 0 4096 (by decide)) plenty 1 =
      .ok ⟨[⟨.read, 0, [⟨1, 0, 0⟩], 8, none, none, false⟩], true⟩ := by
  rfl

/-- 0x7fffff sectors of 512 bytes, one short of four gigabytes. -/
def largeBuffer : Srb := read12 4097 fun i => if i = 7 then 0x7f else if i = 8 ∨ i = 9 then 0xff else 0

/-- A sector of 8 bytes in the middle of its page is lost, and so is a bounced buffer of four gigabytes less
a sector, for which no request is counted. -/
theorem splitting_fails :
    (InRange smallSectors (oneSector 6144) (flat 0 4096 (by decide)) ∧
      ¬Splits true smallSectors (oneSector 6144) (flat 0 4096 (by decide)) plenty) ∧
    (InRange usualSectors largeBuffer (flat 1 4294966784 (by decide)) ∧
      ¬Splits true usualSectors largeBuffer (flat 1 4294966784 (by decide)) plenty) := by
  refine ⟨⟨⟨by decide, by decide, by decide, by decide⟩, ?_⟩, ⟨by decide, by decide, by decide, by decide⟩, ?_⟩
  · rintro ⟨r, hr, -, hsplit⟩
    have hcount : countRequestsForSrb true smallSectors (oneSector 6144) = 1 := by decide
    rw [hcount, small_sector_misplaced] at hr
    obtain rfl := Except.ok.inj hr
    have hdata := (hsplit rfl).2.data
    rw [if_neg (by decide)] at hdata
    exact absurd hdata.bytes (by decide)
  · rintro ⟨r, hr, -, -⟩
    have hcount : countRequestsForSrb true usualSectors largeBuffer = 0 := by decide
    rw [hcount] at hr
    cases hr

end XcWindows.Scsifilt.Irp
