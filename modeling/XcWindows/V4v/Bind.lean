import Mathlib.Data.Nat.Bitwise
import XcWindows.Inc.Xsapi
import XcWindows.V4v.Listener

/-!
# Binding a ring

`V4vCtrlInitializeFile` and `V4vCtrlBind` of `xenv4v/ioctl.c`, with the ring allocation and the port
numbers of `ring.c`. All arithmetic is on 32 bits. A file that was initialised has a ring length;
`V4vAllocateRing` adds the header and counts the pages, and both sums wrap for lengths close to
`2^32`. A ring without a port gets a random one from the upper half of the port numbers, or the
successor of the largest port in use; that wraps as well.
-/

namespace XcWindows.V4v.Bind

open Lib

/-- `struct v4v_ring_id` -/
structure RingId where
  addr : Addr
  partner : Nat
deriving DecidableEq, Repr

abbrev portNone : Nat := 0

abbrev domidNone : Nat := 0x7FF4

abbrev domidInvalidCompat : Nat := 0x7FFF


abbrev ringMult : Nat := 16

/-- `sizeof(v4v_ring_t)`, which is packed. -/
abbrev ringHeader : Nat := 60

inductive Status where
  | success | invalidHandle | invalidDeviceRequest | invalidParameter | noMemory | unsuccessful
deriving DecidableEq, Repr

/-- `XENV4V_RING`: what it says of its ring, the bytes that were allocated for it, and its PFN
list. -/
structure RingObject where
  id : RingId
  len : Nat
  allocated : Nat
  npage : Nat
  pages : List Nat
  refc : Nat
  registered : Bool
deriving DecidableEq, Repr

/-- The part of `XENV4V_CONTEXT` that a bind touches. -/
structure File where
  state : CtxState
  type : CtxType
  ringLength : Nat
  kevReceive : Bool
  ringObject : Option RingObject
deriving DecidableEq, Repr

/-- The non-paged pool and the page tables: whether there is memory for the ring object and for the
PFN list, where a ring of some length goes, and `MmGetPhysicalAddress`. -/
structure Memory where
  robj : Bool
  ring : Nat → Option Nat
  pfnList : Bool
  physical : Nat → Nat

/-! ## The code -/

/-- `V4vCtrlInitializeFile`; `rxEvent` is whether the handle is not `NULL`, `reference` what
`ObReferenceObjectByHandle` says. -/
def v4vCtrlInitializeFile (ctx : Option File) (rxEvent : Bool) (ringLength : Nat)
    (reference : Status) : Status × Option File :=
  match ctx with
  | none => (.invalidHandle, none)
  | some ctx =>
    if rxEvent = false then (.invalidHandle, some ctx)
    else if reference ≠ .success then (reference, some { ctx with kevReceive := false })
    else
      let ringLength :=
        if ringLength > pageSize then u32 (ringLength + ringMult - 1) / ringMult * ringMult
        else pageSize
      (.success, some { ctx with kevReceive := true, ringLength, state := .idle })

/-- The pages of `V4vAllocatePfnList`. -/
def v4vAllocatePfnList (physical : Nat → Nat) (buf npages : Nat) : List Nat :=
  (List.range npages).map fun i => physical (buf + i * pageSize) / pageSize

def v4vAllocateRing (mem : Memory) (ringLength : Nat) : Option RingObject :=
  if mem.robj then
    let length := u32 (ringLength + ringHeader)
    let npages := u32 (length + pageSize - 1) / pageSize
    match mem.ring length with
    | none => none
    | some buf =>
      if mem.pfnList then
        some { id := ⟨⟨portNone, domidNone⟩, 0⟩
               len := ringLength
               allocated := length
               npage := npages
               pages := v4vAllocatePfnList mem.physical buf npages
               refc := 1
               registered := false }
      else none
  else none

/-- `V4vPortInUse`: whether a ring has the port, and the largest port. -/
def v4vPortInUse (port : Nat) : List RingId → Bool → Nat → Bool × Nat
  | [], ret, max => (ret, max)
  | id :: rings, ret, max =>
    v4vPortInUse port rings (if id.addr.port = port then true else ret)
      (if id.addr.port > max then id.addr.port else max)

/-- `V4vRandomPort` with the number that `RtlRandomEx` returns. -/
def v4vRandomPort (random : Nat) : Nat :=
  let port := random ||| 0x80000000
  if port > 0xf0000000 then port - 0x10000000 else port

def v4vSparePortNumber (rings : List RingId) (port : Nat) : Nat :=
  let (used, max) := v4vPortInUse port rings false 0x80000000
  if used then u32 (max + 1) else port

def v4vRingIdInUse (rings : List RingId) (id : RingId) : Bool :=
  rings.any fun r => r.addr.port = id.addr.port && r.partner = id.partner

/-- `V4vCtrlBind`; `register` is what Xen says to the new ring. The context has no ring before, so
that a failed bind has none to release. -/
def v4vCtrlBind (rings : List RingObject) (ctx : File) (ringId : RingId) (mem : Memory)
    (random : Nat) (register : Bool) : Status × List RingObject × File :=
  if ctx.state ≠ .idle then (.invalidDeviceRequest, rings, ctx)
  else if ringId.addr.domain ≠ domidNone ∧ ringId.addr.domain ≠ domidInvalidCompat then
    (.invalidParameter, rings, ctx)
  else
    match v4vAllocateRing mem ctx.ringLength with
    | none => (.noMemory, rings, ctx)
    | some robj =>
      let port := v4vRandomPort random
      let ids := rings.map (·.id)
      if ringId.addr.port ≠ portNone ∧ v4vRingIdInUse ids ringId then
        (.invalidDeviceRequest, rings, ctx)
      else
        let port := if ringId.addr.port = portNone then v4vSparePortNumber ids port
          else ringId.addr.port
        if register then
          let robj := { robj with
            id := { ringId with addr := { ringId.addr with port } }
            registered := true
            refc := robj.refc + 1 }
          (.success, robj :: rings,
            { ctx with ringObject := some robj, type := .datagram, state := .bound })
        else (.unsuccessful, rings, ctx)

/-! ## Port numbers -/

section Ports
variable {rings : List RingId} {port max random : Nat}

theorem portInUse_used (port : Nat) (rings : List RingId) : ∀ ret max,
    (v4vPortInUse port rings ret max).1 = true ↔
      ret = true ∨ ∃ id ∈ rings, id.addr.port = port := by
  induction rings with
  | nil => intro ret max; simp [v4vPortInUse]
  | cons id rings ih =>
    intro ret max
    rw [v4vPortInUse, ih]
    split
    · next h => simp [h]
    · next h => simp [h]

theorem portInUse_max (port : Nat) (rings : List RingId) : ∀ ret max,
    max ≤ (v4vPortInUse port rings ret max).2 ∧
      (∀ id ∈ rings, id.addr.port ≤ (v4vPortInUse port rings ret max).2) ∧
      ((v4vPortInUse port rings ret max).2 = max ∨
        ∃ id ∈ rings, id.addr.port = (v4vPortInUse port rings ret max).2) := by
  induction rings with
  | nil => intro ret max; exact ⟨Nat.le_refl _, by simp, .inl rfl⟩
  | cons id rings ih =>
    intro ret max
    rw [v4vPortInUse]
    obtain ⟨h1, h2, h3⟩ := ih (if id.addr.port = port then true else ret)
      (if id.addr.port > max then id.addr.port else max)
    have hle : max ≤ (if id.addr.port > max then id.addr.port else max) ∧
        id.addr.port ≤ (if id.addr.port > max then id.addr.port else max) := by
      split <;> omega
    refine ⟨by omega, fun r hr => ?_, ?_⟩
    · rcases List.mem_cons.mp hr with rfl | hr
      · omega
      · exact h2 r hr
    · rcases h3 with h3 | ⟨r, hr, he⟩
      · rw [h3]
        split
        · exact .inr ⟨id, by simp, rfl⟩
        · exact .inl rfl
      · exact .inr ⟨r, by simp [hr], he⟩

theorem randomPort_bounds (h : random < 2 ^ 32) :
    0x80000000 ≤ v4vRandomPort random ∧ v4vRandomPort random ≤ 0xf0000000 := by
  have h1 : 0x80000000 ≤ random ||| 0x80000000 := Nat.right_le_or
  have h2 : random ||| 0x80000000 < 2 ^ 32 := Nat.or_lt_two_pow h (by decide)
  unfold v4vRandomPort
  simp only
  split <;> omega

theorem sparePort_used (hports : ∀ id ∈ rings, id.addr.port < 2 ^ 32)
    (hused : ∃ id ∈ rings, id.addr.port = port) :
    ((∃ id ∈ rings, id.addr.port = 0xFFFFFFFF) ∧ v4vSparePortNumber rings port = 0) ∨
      ((∀ id ∈ rings, id.addr.port ≠ 0xFFFFFFFF) ∧ 0x80000000 < v4vSparePortNumber rings port ∧
        ∀ id ∈ rings, id.addr.port < v4vSparePortNumber rings port) := by
  have hu := (portInUse_used port rings false 0x80000000).mpr (.inr hused)
  obtain ⟨h1, h2, h3⟩ := portInUse_max port rings false 0x80000000
  have hspare : v4vSparePortNumber rings port =
      u32 ((v4vPortInUse port rings false 0x80000000).2 + 1) := by
    unfold v4vSparePortNumber
    simp only
    rw [if_pos hu]
  rw [hspare]
  generalize (v4vPortInUse port rings false 0x80000000).2 = m at h1 h2 h3
  have hm : m < 2 ^ 32 := by
    rcases h3 with rfl | ⟨id, hid, rfl⟩
    · decide
    · exact hports id hid
  by_cases htop : ∃ id ∈ rings, id.addr.port = 0xFFFFFFFF
  · obtain ⟨id, hid, he⟩ := htop
    have := h2 id hid
    exact .inl ⟨⟨id, hid, he⟩, by simp only [u32]; omega⟩
  · rw [not_exists] at htop
    have hne : m ≠ 0xFFFFFFFF := by
      rcases h3 with rfl | ⟨id, hid, rfl⟩
      · decide
      · exact fun he => htop id ⟨hid, he⟩
    have hu32 : u32 (m + 1) = m + 1 := by simp only [u32]; omega
    rw [hu32]
    refine .inr ⟨fun id hid he => htop id ⟨hid, he⟩, by omega, fun id hid => ?_⟩
    have := h2 id hid
    omega

theorem sparePort_free (hfree : ¬ ∃ id ∈ rings, id.addr.port = port) :
    v4vSparePortNumber rings port = port := by
  have hu := mt (portInUse_used port rings false 0x80000000).mp (by simpa using hfree)
  unfold v4vSparePortNumber
  simp only
  rw [if_neg hu]

theorem sparePort_unused (hports : ∀ id ∈ rings, id.addr.port < 2 ^ 32) (hrandom : random < 2 ^ 32)
    (hok : ¬ ((∃ id ∈ rings, id.addr.port = v4vRandomPort random) ∧
      ∃ id ∈ rings, id.addr.port = 0xFFFFFFFF)) :
    v4vSparePortNumber rings (v4vRandomPort random) < 2 ^ 32 ∧
      v4vSparePortNumber rings (v4vRandomPort random) ≠ portNone ∧
      ∀ id ∈ rings, id.addr.port ≠ v4vSparePortNumber rings (v4vRandomPort random) := by
  obtain ⟨hlo, hhi⟩ := randomPort_bounds hrandom
  by_cases hused : ∃ id ∈ rings, id.addr.port = v4vRandomPort random
  · rcases sparePort_used hports hused with ⟨htop, -⟩ | ⟨-, hgt, hall⟩
    · exact absurd ⟨hused, htop⟩ hok
    · refine ⟨?_, Nat.ne_of_gt (Nat.lt_trans (by decide) hgt), fun id hid => Nat.ne_of_lt (hall id hid)⟩
      unfold v4vSparePortNumber
      simp only
      split
      · exact Nat.mod_lt _ (by decide)
      · omega
  · rw [sparePort_free hused]
    exact ⟨by omega, Nat.ne_of_gt (Nat.lt_of_lt_of_le (by decide) hlo),
      fun id hid he => hused ⟨id, hid, he⟩⟩

/-- The automatic port is free for every partner and not `V4V_PORT_NONE`, unless the random port and
the largest port are both in use. -/
theorem sparePort_iff (hports : ∀ id ∈ rings, id.addr.port < 2 ^ 32) (hrandom : random < 2 ^ 32)
    (partner : Nat) :
    ((∀ id ∈ rings, id.partner = partner →
        id.addr.port ≠ v4vSparePortNumber rings (v4vRandomPort random)) ∧
      v4vSparePortNumber rings (v4vRandomPort random) ≠ portNone) ↔
    ¬ ((∃ id ∈ rings, id.addr.port = v4vRandomPort random) ∧
      ∃ id ∈ rings, id.addr.port = 0xFFFFFFFF) := by
  constructor
  · rintro ⟨-, hne⟩ ⟨hused, id, hid, he⟩
    rcases sparePort_used hports hused with ⟨-, h0⟩ | ⟨htop, -⟩
    · exact hne h0
    · exact htop id hid he
  · intro hok
    obtain ⟨-, hne, hall⟩ := sparePort_unused hports hrandom hok
    exact ⟨fun id hid _ => hall id hid, hne⟩

/-- A ring at the largest port, and one at the port that a random 5 gives. -/
def topRings : List RingId :=
  [⟨⟨0xFFFFFFFF, domidNone⟩, domidNone⟩, ⟨⟨0x80000005, domidNone⟩, 3⟩]

theorem sparePort_iff_six :
    v4vSparePortNumber topRings (v4vRandomPort 6) ≠ portNone ∧
      ∀ id ∈ topRings, id.partner = 3 →
        id.addr.port ≠ v4vSparePortNumber topRings (v4vRandomPort 6) := by
  have hports : ∀ id ∈ topRings, id.addr.port < 2 ^ 32 := by decide
  have h := (sparePort_iff hports (show 6 < 2 ^ 32 by decide) 3).mpr (by decide)
  exact ⟨h.2, h.1⟩

theorem sparePort_wraps : (∀ id ∈ topRings, id.addr.port < 2 ^ 32) ∧
    v4vSparePortNumber topRings (v4vRandomPort 5) = portNone := by
  decide

end Ports

/-! ## The list of rings -/

section Runs

inductive Act where
  | bind (ctx : File) (ringId : RingId) (mem : Memory) (random : Nat) (register : Bool)
  /-- the last holder of a ring calls `V4vReleaseRing` -/
  | release (i : Nat)

/-- `pde->ringList` under binds and releases. -/
def ringListMachine : Machine (List RingObject) Act where
  init := []
  step rings
    | .bind ctx ringId mem random register =>
      some (v4vCtrlBind rings ctx ringId mem random register).2.1
    | .release i => some (rings.eraseIdx i)

/-- The values fit their types, and an automatic port does not wrap. -/
def NoWrap (rings : List RingObject) : Act → Prop
  | .bind _ ringId _ random _ =>
    ringId.addr.port < 2 ^ 32 ∧ random < 2 ^ 32 ∧
      (ringId.addr.port = portNone → ¬ ((∃ r ∈ rings, r.id.addr.port = v4vRandomPort random) ∧
        ∃ r ∈ rings, r.id.addr.port = 0xFFFFFFFF))
  | .release _ => True

/-- Every ring has a port, and no two have the same port and partner. -/
structure Distinct (rings : List RingObject) : Prop where
  ports : ∀ r ∈ rings, r.id.addr.port < 2 ^ 32 ∧ r.id.addr.port ≠ portNone
  apart : rings.Pairwise fun r r' =>
    ¬ (r.id.addr.port = r'.id.addr.port ∧ r.id.partner = r'.id.partner)

theorem bind_distinct {rings : List RingObject} {ctx : File} {ringId : RingId} {mem : Memory}
    {random : Nat} {register : Bool} (h : Distinct rings)
    (hok : NoWrap rings (.bind ctx ringId mem random register)) :
    Distinct (v4vCtrlBind rings ctx ringId mem random register).2.1 := by
  obtain ⟨hport, hrandom, hwrap⟩ := hok
  unfold v4vCtrlBind
  split
  · exact h
  · split
    · exact h
    · split
      · exact h
      · simp only
        split
        · exact h
        · next hfree =>
          split
          · -- the new ring has a port that no ring has with its partner
            have hnew : ∀ port, port < 2 ^ 32 → port ≠ portNone →
                (∀ r ∈ rings, ¬ (port = r.id.addr.port ∧ ringId.partner = r.id.partner)) →
                ∀ robj : RingObject, robj.id.addr.port = port → robj.id.partner = ringId.partner →
                Distinct (robj :: rings) := by
              intro port hlt hne hall robj hp hpa
              refine ⟨fun r hr => ?_, List.pairwise_cons.mpr ⟨fun r hr => ?_, h.apart⟩⟩
              · rcases List.mem_cons.mp hr with rfl | hr
                · exact hp ▸ ⟨hlt, hne⟩
                · exact h.ports r hr
              · rw [hp, hpa]
                exact hall r hr
            by_cases hnone : ringId.addr.port = portNone
            · have hports : ∀ id ∈ rings.map (·.id), id.addr.port < 2 ^ 32 := by
                intro id hid
                obtain ⟨r, hr, rfl⟩ := List.mem_map.mp hid
                exact (h.ports r hr).1
              obtain ⟨h1, h2, h3⟩ := sparePort_unused hports hrandom (by simpa using hwrap hnone)
              refine hnew _ h1 h2 (fun r hr he => ?_) _ (by simp [hnone]) rfl
              exact h3 r.id (List.mem_map_of_mem hr) he.1.symm
            · refine hnew _ hport hnone (fun r hr he => hfree ⟨hnone, ?_⟩) _ (by simp [hnone]) rfl
              exact List.any_eq_true.mpr ⟨r.id, List.mem_map_of_mem hr, by simp [he.1, he.2]⟩
          · exact h

/-- In every run without a wrap the rings have ports of their own. -/
theorem rings_distinct {rings : List RingObject} (h : ringListMachine.Reach NoWrap rings) :
    Distinct rings := by
  refine h.inv ⟨by simp [ringListMachine], List.Pairwise.nil⟩ ?_
  intro s a t hs hok hst
  cases a with
  | bind ctx ringId mem random register =>
    cases hst
    exact bind_distinct hs hok
  | release i =>
    cases hst
    exact ⟨fun r hr => hs.ports r (List.mem_of_mem_eraseIdx hr),
      hs.apart.sublist (List.eraseIdx_sublist _ _)⟩

/-- A bind with an automatic port. -/
def autoBind : Act :=
  .bind ⟨.idle, .unspecified, 4096, true, none⟩ ⟨⟨0, domidNone⟩, 0⟩ ⟨true, fun _ => some 0, true, id⟩ 5 true

/-- Two files get ports from the same random number. -/
theorem rings_distinct_twice : ∃ rings, (rings.map (·.id.addr.port) = [0x80000006, 0x80000005]) ∧
    Distinct rings := by
  have h1 : ringListMachine.Reach NoWrap _ := .step (a := autoBind) .init ⟨by decide, by decide, by decide⟩ rfl
  exact ⟨_, by decide, rings_distinct (h1.step (a := autoBind) ⟨by decide, by decide, by decide⟩ rfl)⟩

end Runs

/-! ## Ring lengths -/

section Lengths

/-- What a recorded ring length promises: it is at least a page and a multiple of 16, the ring of a
bind has room for the header and the ring, and its PFN list has as many pages as the ring takes. -/
structure LengthOk (ringLength : Nat) : Prop where
  page : pageSize ≤ ringLength
  mult : ringMult ∣ ringLength
  room : ∀ mem robj, v4vAllocateRing mem ringLength = some robj →
    robj.len = ringLength ∧ ringHeader + ringLength ≤ robj.allocated
  pages : ∀ mem robj, v4vAllocateRing mem ringLength = some robj →
    robj.pages.length = robj.npage ∧ robj.allocated ≤ robj.npage * pageSize ∧
      (robj.npage - 1) * pageSize < robj.allocated

theorem allocateRing_spec {mem : Memory} {ringLength : Nat} {robj : RingObject}
    (h : v4vAllocateRing mem ringLength = some robj) :
    robj.len = ringLength ∧ robj.allocated = u32 (ringLength + ringHeader) ∧
      robj.npage = u32 (robj.allocated + pageSize - 1) / pageSize ∧
      robj.pages.length = robj.npage := by
  unfold v4vAllocateRing at h
  split at h
  · simp only at h
    split at h
    · cases h
    · split at h
      · cases h
        exact ⟨rfl, rfl, rfl, by simp [v4vAllocatePfnList]⟩
      · cases h
  · cases h

/-- A pool that has memory for everything. -/
def roomy : Memory := ⟨true, fun _ => some 0, true, id⟩

theorem lengthOk_iff {R : Nat} (hpage : pageSize ≤ R) (hmult : ringMult ∣ R) (hR : R < 2 ^ 32) :
    LengthOk R ↔ R + ringHeader + pageSize - 1 < 2 ^ 32 := by
  constructor
  · intro h
    obtain ⟨robj, hsome⟩ : ∃ robj, v4vAllocateRing roomy R = some robj := ⟨_, rfl⟩
    obtain ⟨-, hall, hn, -⟩ := allocateRing_spec hsome
    have h1 := (h.room _ _ hsome).2
    have h2 := (h.pages _ _ hsome).2.1
    simp only [u32, ringHeader, pageSize] at *
    omega
  · intro hlt
    refine ⟨hpage, hmult, fun mem robj h => ?_, fun mem robj h => ?_⟩
    · obtain ⟨hlen, hall, -⟩ := allocateRing_spec h
      refine ⟨hlen, ?_⟩
      rw [hall]
      simp only [u32, ringHeader, pageSize] at *
      omega
    · obtain ⟨-, hall, hn, hpages⟩ := allocateRing_spec h
      refine ⟨hpages, ?_⟩
      simp only [u32, ringHeader, pageSize] at *
      omega

theorem initializeFile_spec {ctx : Option File} {rxEvent : Bool} {ringLength : Nat}
    {reference : Status} {file : File}
    (h : v4vCtrlInitializeFile ctx rxEvent ringLength reference = (.success, some file)) :
    file.ringLength = if ringLength > pageSize
      then u32 (ringLength + ringMult - 1) / ringMult * ringMult else pageSize := by
  unfold v4vCtrlInitializeFile at h
  split at h
  · cases h
  · split at h
    · cases h
    · split at h
      · next hne => rw [Prod.mk.injEq] at h; exact absurd h.1 hne
      · cases h; rfl

/-- Every file that is initialised with a length has a good ring length, if and only if the length
is at most `0xFFFFEFC0`. -/
theorem ringLength_ok_iff {ringLength : Nat} (hlen : ringLength < 2 ^ 32) :
    (∀ ctx rxEvent reference file,
      v4vCtrlInitializeFile ctx rxEvent ringLength reference = (.success, some file) →
      LengthOk file.ringLength) ↔ ringLength ≤ 0xFFFFEFC0 := by
  constructor
  · intro h
    have hok := h (some ⟨.uninitialized, .unspecified, 0, false, none⟩) true .success _ rfl
    have hpage := hok.page
    simp only [u32, ringMult, pageSize] at hpage hok
    split at hpage
    · next hgt =>
      rw [if_pos hgt] at hok
      have := (lengthOk_iff hok.page hok.mult (by omega)).mp hok
      simp only [ringHeader, pageSize] at this
      omega
    · omega
  · intro hle ctx rxEvent reference file h
    have hR := initializeFile_spec h
    simp only [u32, ringMult, pageSize] at hR
    refine (lengthOk_iff ?_ ?_ ?_).mpr ?_
    · rw [hR]; simp only [pageSize]; split <;> omega
    · rw [hR]; simp only [ringMult]; split <;> omega
    · rw [hR]; split <;> omega
    · rw [hR]; simp only [ringHeader, pageSize]; split <;> omega

/-- A length that is rounded up. -/
theorem ringLength_ok_rounded :
    v4vCtrlInitializeFile (some ⟨.uninitialized, .unspecified, 0, false, none⟩) true 5000 .success =
      (.success, some ⟨.idle, .unspecified, 5008, true, none⟩) ∧ LengthOk 5008 := by
  have h : v4vCtrlInitializeFile (some ⟨.uninitialized, .unspecified, 0, false, none⟩) true 5000
      .success = (.success, some ⟨.idle, .unspecified, 5008, true, none⟩) := rfl
  exact ⟨h, (ringLength_ok_iff (by decide)).mpr (by decide) _ _ _ _ h⟩

/-- The largest lengths are rounded up to zero, and a ring without the room of its header is
allocated. -/
theorem ringLength_wraps :
    (v4vCtrlInitializeFile (some ⟨.uninitialized, .unspecified, 0, false, none⟩) true 0xFFFFFFF8
        .success).2.map (·.ringLength) = some 0 ∧
      (v4vCtrlInitializeFile (some ⟨.uninitialized, .unspecified, 0, false, none⟩) true 0xFFFFFFF0
        .success).2.map (·.ringLength) = some 0xFFFFFFF0 ∧
      (v4vAllocateRing roomy 0xFFFFFFF0).map (·.allocated) = some 44 ∧
      ¬ LengthOk 0 ∧ ¬ LengthOk 0xFFFFFFF0 := by
  refine ⟨by decide, by decide, by decide, fun h => absurd h.page (by decide), fun h => ?_⟩
  have := (lengthOk_iff h.page h.mult (by decide)).mp h
  exact absurd this (by decide)

end Lengths

end XcWindows.V4v.Bind
