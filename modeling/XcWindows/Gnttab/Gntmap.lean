import Mathlib.Algebra.Group.Nat.Defs
import XcWindows.Inc.Xsapi
import XcWindows.Lib.Word

/-!
# Mapped grants

`GntmapMapGrants` and `GntmapUnmapGrants` of `xenutil/gntmap.c`. A `grant_map_detail` is one block with an MDL
and three arrays behind it; that of the handles is found through the `Size` of the MDL, a signed short.
`cells` is what is stored at the offsets in the block, and an access that leaves it is an error like a failed
assertion.

The hypervisor answers with handles below the bit that marks a valid one; it forgets all mappings at a suspend.
-/

namespace XcWindows.Gnttab.Gntmap

open XcWindows.Lib
open Function (update update_of_ne update_self)

inductive Crash where
  | assertion
  | outOfBlock
deriving DecidableEq

inductive Abi where
  | x86
  | x64

/-- `sizeof(PFN_NUMBER)` -/
def Abi.pfnSize : Abi → Nat
  | x86 => 4
  | x64 => 8

/-- `sizeof(MDL)` -/
def Abi.mdlSize : Abi → Nat
  | x86 => 28
  | x64 => 48

/-- `(32768 - sizeof(MDL)) / sizeof(PFN_NUMBER)` -/
def Abi.maxGrefs (abi : Abi) : Nat := (32768 - abi.mdlSize) / abi.pfnSize

abbrev gntmapHandleValid : Nat := 2 ^ 31

abbrev gntmapHostMap : Nat := 2
abbrev gntmapReadonly : Nat := 4
abbrev mdlMappedToSystemVa : Nat := 0x1
abbrev mdlPagesLocked : Nat := 0x2
abbrev mdlIoSpace : Nat := 0x800

/-- What the hypervisor is told in a `gnttab_map_grant_ref_t`. -/
structure MapOp where
  hostAddr : Nat
  flags : Nat
  ref : Nat
  dom : Nat
deriving DecidableEq

structure Mapping where
  handle : Nat
  op : MapOp
  devBusAddr : Nat
deriving DecidableEq

/-- `struct grant_map_detail` with the fields of its MDL. -/
structure Detail where
  nrGrefs : Nat
  suspendCount : Nat
  size : Int
  mdlFlags : Nat
  byteCount : Nat
  cells : Int → Nat
  blockSize : Nat

structure State where
  /-- what the hypervisor has mapped -/
  active : List Mapping
  suspendCount : Nat
  /-- the pages that `XenevtchnAllocIoPFN` will find -/
  pages : List Nat
  /-- those `XenevtchnReleaseIoPFN` was called for -/
  released : List Nat
  /-- how many blocks of memory are in use -/
  blocks : Nat

/-- What happens on the way: which memory there is, how many suspends there are before the hypercall, its
answers, and the suspends before each of the operations that unmap. -/
structure Conditions where
  opsMemory : Bool
  workMemory : Bool
  suspends : Nat
  rcNegative : Bool
  results : Nat → Option (Nat × Nat)
  unmapSuspends : Nat → Nat

/-- A `SHORT` -/
def short (n : Nat) : Int := ((n + 32768) % 65536 : Nat) - 32768

def gmdSizeForNrGrefs (abi : Abi) (nrGrefs : Nat) : Nat := 8 + abi.mdlSize + (8 + 4 + abi.pfnSize) * nrGrefs

/-- `XmAllocateZeroedMemory` -/
def Detail.zeroed (blockSize : Nat) : Detail := ⟨0, 0, 0, 0, 0, fun _ => 0, blockSize⟩

/-- `MmGetMdlPfnArray(mdl)[x]`, as an offset in the block. -/
def Abi.pfnAt (abi : Abi) (x : Nat) : Int := 8 + abi.mdlSize + abi.pfnSize * x

/-- `get_gmd_handles(gmd)[x]` -/
def Detail.handleAt (d : Detail) (x : Nat) : Int := 8 + d.size + 4 * x

/-- `get_gmd_bus_addrs(gmd)[x]` -/
def Detail.busAddrAt (d : Detail) (x : Nat) : Int := 8 + d.size + 4 * d.nrGrefs + 8 * x

/-- The access is in the block. -/
def Detail.Inside (d : Detail) (offset : Int) (length : Nat) : Prop := 0 ≤ offset ∧ offset + length ≤ d.blockSize

instance (d : Detail) (offset : Int) (length : Nat) : Decidable (d.Inside offset length) :=
  inferInstanceAs (Decidable (_ ∧ _))

def Detail.read (d : Detail) (offset : Int) (length : Nat) : Except Crash Nat :=
  if d.Inside offset length then .ok (d.cells offset) else .error .outOfBlock

def Detail.write (d : Detail) (offset : Int) (length v : Nat) : Except Crash Detail :=
  if d.Inside offset length then .ok { d with cells := update d.cells offset v }
  else .error .outOfBlock

/-! ## Unmapping -/

/-- The machine is suspended `n` times. -/
def State.suspend (s : State) (n : Nat) : State :=
  if n = 0 then s else { s with suspendCount := s.suspendCount + n, active := [] }

/-- `GNTTABOP_unmap_grant_ref`: `rc` and `status` are 0 for what is mapped. -/
def State.unmap (s : State) (handle hostAddr devBusAddr : Nat) : Except Crash State :=
  let found (m : Mapping) : Bool := m.handle = handle ∧ m.op.hostAddr = hostAddr ∧ m.devBusAddr = devBusAddr
  if s.active.any found then .ok { s with active := s.active.eraseP found } else .error .assertion

/-- `(ULONG64)pfn << PAGE_SHIFT` -/
def hostAddr (pfn : Nat) : Nat := pfn * 4096 % 2 ^ 64

/-- The hypercall for a handle, if it is valid and there was no suspend since. -/
def unmapHandle (abi : Abi) (d : Detail) (suspends : Nat → Nat) (s : State) (x handle : Nat) :
    Except Crash State :=
  if handle &&& gntmapHandleValid ≠ 0 then do
    let pfn ← d.read (abi.pfnAt x) abi.pfnSize
    let devBusAddr ← d.read (d.busAddrAt x) 8
    let s := s.suspend (suspends x)
    if d.suspendCount = s.suspendCount then
      s.unmap (handle &&& (gntmapHandleValid - 1)) (hostAddr pfn) devBusAddr
    else .ok s
  else .ok s

/-- The body of the loop in `GntmapUnmapGrants`. -/
def unmapOne (abi : Abi) (d : Detail) (suspends : Nat → Nat) (s : State) (x : Nat) : Except Crash State := do
  let handle ← d.read (d.handleAt x) 4
  let s ← unmapHandle abi d suspends s x handle
  let pfn ← d.read (abi.pfnAt x) abi.pfnSize
  .ok (if pfn ≠ 0 then { s with released := s.released ++ [pfn] } else s)

def unmapGrants (abi : Abi) (suspends : Nat → Nat) (d : Detail) (s : State) : Except Crash State := do
  xmAssert (d.mdlFlags &&& mdlMappedToSystemVa = 0) .assertion
  xmAssert (d.mdlFlags &&& (mdlPagesLocked ||| mdlIoSpace) ≠ 0) .assertion
  let s ← (List.range d.nrGrefs).foldlM (unmapOne abi d suspends) s
  .ok { s with blocks := s.blocks - 1 }

/-! ## Mapping -/

/-- What a mapping is asked for. -/
structure Request where
  domid : Nat
  nrGrefs : Nat
  grefs : Nat → Nat
  readOnly : Bool

/-- The operation for grant `x` and a page. -/
def Request.op (q : Request) (pfn x : Nat) : MapOp :=
  ⟨hostAddr pfn, if q.readOnly then gntmapHostMap ||| gntmapReadonly else gntmapHostMap, q.grefs x, q.domid⟩

/-- The loop that takes the pages: `none` when there are too few. -/
def fillOps (abi : Abi) (q : Request) : List Nat → List MapOp → Detail → State →
    Except Crash (Option (List MapOp) × Detail × State)
  | [], ops, d, s => .ok (some ops, d, s)
  | x :: xs, ops, d, s =>
    match s.pages with
    | [] => .ok (none, d, s)
    | pfn :: pages => do
      let d ← d.write (abi.pfnAt x) abi.pfnSize pfn
      fillOps abi q xs (ops ++ [q.op pfn x]) d { s with pages }

/-- What is mapped by the operations that succeed. -/
def mappings (results : Nat → Option (Nat × Nat)) (ops : List MapOp) : List Mapping :=
  ops.zipIdx.filterMap fun y => (results y.2).map fun r => ⟨r.1, y.1, r.2⟩

/-- `GNTTABOP_map_grant_ref` -/
def State.map (s : State) (how : Conditions) (ops : List MapOp) : State :=
  if how.rcNegative then s else { s with active := mappings how.results ops ++ s.active }

/-- The loop over the results of the operations. -/
def storeResult (results : Nat → Option (Nat × Nat)) (d : Detail) (x : Nat) : Except Crash Detail :=
  match results x with
  | none => .ok d
  | some (handle, devBusAddr) => do
    let d ← d.write (d.handleAt x) 4 (handle ||| gntmapHandleValid)
    d.write (d.busAddrAt x) 8 devBusAddr

/-- `err:` with a status that is an error; `ops` has been freed. -/
def err (abi : Abi) (how : Conditions) (status : NtStatus) (work : Option Detail) (s : State) :
    Except Crash (NtStatus × Option Detail × State) :=
  match work with
  | none => .ok (status, none, s)
  | some d => do
    let s ← unmapGrants abi how.unmapSuspends d s
    .ok (status, none, s)

def State.freeOps (s : State) : State := { s with blocks := s.blocks - 1 }

/-- `work` with the fields that are set before the loops. -/
def Detail.prepared (abi : Abi) (nrGrefs : Nat) : Detail :=
  { Detail.zeroed (gmdSizeForNrGrefs abi nrGrefs) with
    nrGrefs
    size := short (abi.mdlSize + abi.pfnSize * nrGrefs)
    mdlFlags := mdlPagesLocked ||| mdlIoSpace
    byteCount := u32 (nrGrefs * 4096) }

/-- `GntmapMapGrants` from the hypercall on. -/
def mapFilled (abi : Abi) (how : Conditions) (q : Request) (ops : List MapOp) (work : Detail) (s : State) :
    Except Crash (NtStatus × Option Detail × State) := do
  let s := (s.suspend how.suspends).map how ops
  let work := { work with suspendCount := s.suspendCount }
  if how.rcNegative then err abi how .unsuccessful (some work) s.freeOps
  else do
    let work ← (List.range q.nrGrefs).foldlM (storeResult how.results) work
    if (List.range q.nrGrefs).all fun x => (how.results x).isSome then .ok (.success, some work, s.freeOps)
    else err abi how .unsuccessful (some work) s.freeOps

/-- `GntmapMapGrants` behind the allocations. -/
def mapWith (abi : Abi) (how : Conditions) (q : Request) (s : State) :
    Except Crash (NtStatus × Option Detail × State) := do
  let (ops, work, s) ← fillOps abi q (List.range q.nrGrefs) [] (.prepared abi q.nrGrefs) s
  match ops with
  | none => err abi how .insufficientResources (some work) s.freeOps
  | some ops => mapFilled abi how q ops work s

def mapGrants (abi : Abi) (how : Conditions) (q : Request) (s : State) :
    Except Crash (NtStatus × Option Detail × State) :=
  if abi.maxGrefs < q.nrGrefs then .ok (.invalidParameter, none, s)
  else
    let s := { s with blocks := s.blocks + how.opsMemory.toNat + how.workMemory.toNat }
    if how.workMemory && how.opsMemory then mapWith abi how q s
    else err abi how .insufficientResources
      (if how.workMemory then some (.zeroed (gmdSizeForNrGrefs abi q.nrGrefs)) else none)
      { s with blocks := s.blocks - how.opsMemory.toNat }

/-! ## All or nothing -/

/-- Nothing is left of what was done since `s`. -/
structure Undone (s t : State) : Prop where
  active : t.active = if t.suspendCount = s.suspendCount then s.active else []
  pages : ∃ taken, s.pages = taken ++ t.pages ∧ t.released = s.released ++ taken
  blocks : t.blocks = s.blocks

/-- All grants are mapped, and all that can be undone. -/
structure Mapped (abi : Abi) (q : Request) (s : State) (d : Detail) (t : State) : Prop where
  active : ∃ made : List Mapping, made.map (·.op.ref) = (List.range q.nrGrefs).map q.grefs ∧
    t.active = made ++ if t.suspendCount = s.suspendCount then s.active else []
  unmap : ∀ suspends, ∃ u, unmapGrants abi suspends d t = .ok u ∧ Undone s u

/-- The call does all or nothing. -/
inductive AllOrNothing (abi : Abi) (q : Request) (s : State) :
    Except Crash (NtStatus × Option Detail × State) → Prop
  | all {d : Detail} {t : State} (h : Mapped abi q s d t) : AllOrNothing abi q s (.ok (.success, some d, t))
  | nothing {status : NtStatus} {t : State} (hs : status ≠ .success) (h : Undone s t) :
      AllOrNothing abi q s (.ok (status, none, t))

/-- Nonzero pages, and handles that leave `GNTMAP_HANDLE_VALID` free. -/
structure Answers (how : Conditions) (s : State) : Prop where
  pages : ∀ pfn ∈ s.pages, pfn ≠ 0
  handles : ∀ x r, how.results x = some r → r.1 < gntmapHandleValid

/-- The array of the handles is found, and the destructor gets an MDL with its flags. -/
def Fine (abi : Abi) (how : Conditions) (q : Request) : Prop :=
  abi.maxGrefs < q.nrGrefs ∨ how.workMemory = false ∨ (how.opsMemory = true ∧ q.nrGrefs ≠ abi.maxGrefs)

/-- What is in the cell of a handle. -/
def handleCell : Option (Nat × Nat) → Nat
  | none => 0
  | some r => r.1 ||| gntmapHandleValid

/-- A detail for `n` grants with its pages and its valid handles. -/
structure Holds (abi : Abi) (d : Detail) (n : Nat) (pages : List Nat) (res : Nat → Option (Nat × Nat)) : Prop where
  nrGrefs : d.nrGrefs = n
  size : d.size = abi.mdlSize + abi.pfnSize * n
  mdlFlags : d.mdlFlags = mdlPagesLocked ||| mdlIoSpace
  blockSize : d.blockSize = gmdSizeForNrGrefs abi n
  pfn : ∀ x < n, d.cells (abi.pfnAt x) = pages.getD x 0
  handle : ∀ x < n, d.cells (d.handleAt x) = handleCell (res x)
  busAddr : ∀ x < n, ∀ r, res x = some r → d.cells (d.busAddrAt x) = r.2

section Block

variable {abi : Abi} {d : Detail} {n x y : Nat} {pages : List Nat} {res : Nat → Option (Nat × Nat)}

theorem short_eq (h : n < 32768) : short n = n := by
  unfold short
  omega

theorem size_lt (h : n < abi.maxGrefs) : abi.mdlSize + abi.pfnSize * n < 32768 := by
  cases abi
  all_goals
    simp only [Abi.maxGrefs, Abi.mdlSize, Abi.pfnSize] at h ⊢
    omega

theorem short_maxGrefs (abi : Abi) : short (abi.mdlSize + abi.pfnSize * abi.maxGrefs) = -32768 := by
  cases abi
  all_goals rfl

theorem inside_pfn (hb : d.blockSize = gmdSizeForNrGrefs abi n) (hx : x < n) :
    d.Inside (abi.pfnAt x) abi.pfnSize := by
  rw [Detail.Inside, hb]
  cases abi
  all_goals
    simp only [Abi.pfnAt, Abi.mdlSize, Abi.pfnSize, gmdSizeForNrGrefs]
    omega

theorem Holds.inside_handle (h : Holds abi d n pages res) (hx : x < n) : d.Inside (d.handleAt x) 4 := by
  rw [Detail.Inside, Detail.handleAt, h.size, h.blockSize]
  cases abi
  all_goals
    simp only [Abi.mdlSize, Abi.pfnSize, gmdSizeForNrGrefs]
    omega

theorem Holds.inside_busAddr (h : Holds abi d n pages res) (hx : x < n) : d.Inside (d.busAddrAt x) 8 := by
  rw [Detail.Inside, Detail.busAddrAt, h.size, h.blockSize, h.nrGrefs]
  cases abi
  all_goals
    simp only [Abi.mdlSize, Abi.pfnSize, gmdSizeForNrGrefs]
    omega

theorem Holds.read_pfn (h : Holds abi d n pages res) (hx : x < n) :
    d.read (abi.pfnAt x) abi.pfnSize = .ok (pages.getD x 0) := by
  rw [Detail.read, if_pos (inside_pfn h.blockSize hx), h.pfn x hx]

theorem Holds.read_handle (h : Holds abi d n pages res) (hx : x < n) :
    d.read (d.handleAt x) 4 = .ok (handleCell (res x)) := by
  rw [Detail.read, if_pos (h.inside_handle hx), h.handle x hx]

theorem Holds.read_busAddr (h : Holds abi d n pages res) (hx : x < n) {r : Nat × Nat} (hr : res x = some r) :
    d.read (d.busAddrAt x) 8 = .ok r.2 := by
  rw [Detail.read, if_pos (h.inside_busAddr hx), h.busAddr x hx r hr]

theorem arrays_apart (hs : d.size = abi.mdlSize + abi.pfnSize * n) (hn : d.nrGrefs = n) (hx : x < n) (hy : y < n) :
    abi.pfnAt x ≠ d.handleAt y ∧ abi.pfnAt x ≠ d.busAddrAt y ∧ d.handleAt x ≠ d.busAddrAt y := by
  rw [Detail.handleAt, Detail.busAddrAt, Detail.handleAt, hs, hn]
  cases abi
  all_goals
    simp only [Abi.pfnAt, Abi.mdlSize, Abi.pfnSize]
    omega

theorem Holds.apart (h : Holds abi d n pages res) (hx : x < n) (hy : y < n) :
    abi.pfnAt x ≠ d.handleAt y ∧ abi.pfnAt x ≠ d.busAddrAt y ∧ d.handleAt x ≠ d.busAddrAt y :=
  arrays_apart h.size h.nrGrefs hx hy

theorem handleCell_valid {r : Nat × Nat} : handleCell (some r) &&& gntmapHandleValid ≠ 0 := by
  rw [handleCell, Nat.and_or_distrib_right, Nat.and_self]
  intro h
  exact absurd (Nat.or_eq_zero_iff.mp h).2 (by decide)

theorem handleCell_handle {r : Nat × Nat} (h : r.1 < gntmapHandleValid) :
    handleCell (some r) &&& (gntmapHandleValid - 1) = r.1 := by
  rw [Nat.and_two_pow_sub_one_eq_mod, handleCell, Nat.or_mod_two_pow, Nat.mod_self, Nat.or_zero,
    Nat.mod_eq_of_lt h]

/-- The detail with a handle and its bus address. -/
def Detail.stored (d : Detail) (x : Nat) (r : Nat × Nat) : Detail :=
  { d with cells :=
      update (update d.cells (d.handleAt x) (handleCell (some r))) (d.busAddrAt x) r.2 }

theorem Detail.stored_cells (d : Detail) (x : Nat) (r : Nat × Nat) : (d.stored x r).cells =
    update (update d.cells (d.handleAt x) (handleCell (some r))) (d.busAddrAt x) r.2 := rfl

theorem handleAt_ne (d : Detail) (h : y ≠ x) : d.handleAt y ≠ d.handleAt x := by
  simp only [Detail.handleAt]
  omega

theorem busAddrAt_ne (d : Detail) (h : y ≠ x) : d.busAddrAt y ≠ d.busAddrAt x := by
  simp only [Detail.busAddrAt]
  omega

theorem Holds.stored (h : Holds abi d n pages res) (hx : x < n) (r : Nat × Nat) :
    Holds abi (d.stored x r) n pages (update res x (some r)) := by
  refine ⟨h.nrGrefs, h.size, h.mdlFlags, h.blockSize, ?_, ?_, ?_⟩
  · intro y hy
    rw [Detail.stored_cells, update_of_ne (h.apart hy hx).2.1, update_of_ne (h.apart hy hx).1,
      h.pfn y hy]
  · intro y hy
    change (d.stored x r).cells (d.handleAt y) = _
    rw [Detail.stored_cells, update_of_ne (h.apart hy hx).2.2]
    by_cases he : y = x
    · rw [he, update_self, update_self]
    · rw [update_of_ne he, update_of_ne (handleAt_ne d he), h.handle y hy]
  · intro y hy r' hr'
    change (d.stored x r).cells (d.busAddrAt y) = _
    rw [Detail.stored_cells]
    by_cases he : y = x
    · rw [he, update_self] at hr'
      rw [he, update_self, ← Option.some.inj hr']
    · rw [update_of_ne he] at hr'
      rw [update_of_ne (busAddrAt_ne d he), update_of_ne (h.apart hx hy).2.2.symm,
        h.busAddr y hy r' hr']

theorem Holds.storeResult (h : Holds abi d n pages res) (hx : x < n) (results : Nat → Option (Nat × Nat)) :
    storeResult results d x = .ok (match results x with
      | none => d
      | some r => d.stored x r) := by
  unfold Gntmap.storeResult
  cases results x with
  | none => rfl
  | some r =>
    simp only [Detail.write, if_pos (h.inside_handle hx)]
    exact if_pos (h.inside_busAddr hx)

theorem Holds.storeResults {xs : List Nat} (h : Holds abi d n pages res) (hxs : ∀ x ∈ xs, x < n)
    (results : Nat → Option (Nat × Nat)) : ∃ d', xs.foldlM (Gntmap.storeResult results) d = .ok d' ∧
      d'.suspendCount = d.suspendCount ∧
      Holds abi d' n pages fun x => if x ∈ xs then (results x).or (res x) else res x := by
  induction xs generalizing d res with
  | nil => exact ⟨d, rfl, rfl, by simpa using h⟩
  | cons x xs ih =>
    have hx := hxs x List.mem_cons_self
    have hxs' : ∀ y ∈ xs, y < n := fun y hy => hxs y (List.mem_cons_of_mem _ hy)
    rw [List.foldlM_cons, h.storeResult hx]
    cases hr : results x with
    | none =>
      obtain ⟨d', hrun, hcount, hd⟩ := ih h hxs'
      refine ⟨d', hrun, hcount, ?_⟩
      have hres : (fun y => if y ∈ x :: xs then (results y).or (res y) else res y) =
          fun y => if y ∈ xs then (results y).or (res y) else res y := by
        funext y
        by_cases he : y = x
        · simp [he, hr]
        · simp [he]
      rwa [hres]
    | some r =>
      obtain ⟨d', hrun, hcount, hd⟩ := ih (h.stored hx r) hxs'
      refine ⟨d', hrun, hcount, ?_⟩
      have hres : (fun y => if y ∈ x :: xs then (results y).or (res y) else res y) = fun y =>
          if y ∈ xs then (results y).or (update res x (some r) y)
          else update res x (some r) y := by
        funext y
        by_cases he : y = x
        · simp [he, hr]
        · simp [he]
      rwa [hres]

end Block

/-! ## The destructor -/

section Unmap

variable {abi : Abi} {q : Request} {d : Detail} {n x : Nat} {pages : List Nat} {res : Nat → Option (Nat × Nat)}
  {c : Nat} {l base : List Mapping} {s : State}

/-- What is mapped for grant `x`. -/
def mappingOf (q : Request) (pages : List Nat) (res : Nat → Option (Nat × Nat)) (x : Nat) : Option Mapping :=
  (res x).map fun r => ⟨r.1, q.op (pages.getD x 0) x, r.2⟩

/-- The mappings `l` are there, on top of others, unless the machine was suspended since the count was `c`. -/
def Live (c : Nat) (l base : List Mapping) (s : State) : Prop :=
  s.suspendCount = c ∧ s.active = l ++ base ∨ c < s.suspendCount ∧ s.active = []

theorem Live.suspend (h : Live c l base s) (k : Nat) : Live c l base (s.suspend k) := by
  unfold State.suspend
  split
  · exact h
  · refine .inr ⟨?_, rfl⟩
    rcases h with ⟨hcount, -⟩ | ⟨hcount, -⟩
    · simp only
      omega
    · exact Nat.lt_add_right k hcount

theorem Live.tail {m : Mapping} (h : Live c (m :: l) base s) (hne : ¬c = s.suspendCount) : Live c l base s := by
  rcases h with ⟨hcount, -⟩ | hlost
  · exact absurd hcount.symm hne
  · exact .inr hlost

theorem State.unmap_head {m : Mapping} (rest : List Mapping) (h : s.active = m :: rest) :
    s.unmap m.handle m.op.hostAddr m.devBusAddr = .ok { s with active := rest } := by
  simp only [State.unmap, h, List.any_cons, and_self, decide_true, Bool.true_or, if_true]
  rw [List.eraseP_cons_of_pos (by simp)]

/-- What an iteration leaves of the rest. -/
def Kept (s t : State) : Prop := t.pages = s.pages ∧ t.blocks = s.blocks

theorem suspend_kept (s : State) (k : Nat) : Kept s (s.suspend k) ∧ (s.suspend k).released = s.released := by
  unfold State.suspend
  split
  · exact ⟨⟨rfl, rfl⟩, rfl⟩
  · exact ⟨⟨rfl, rfl⟩, rfl⟩

theorem Holds.unmapHandle (h : Holds abi d n pages res) (hx : x < n)
    (hh : ∀ r, res x = some r → r.1 < gntmapHandleValid ∧ d.suspendCount = c) (suspends : Nat → Nat)
    (hl : Live c ((mappingOf q pages res x).toList ++ l) base s) :
    ∃ t, Gntmap.unmapHandle abi d suspends s x (handleCell (res x)) = .ok t ∧ Live c l base t ∧
      t.released = s.released ∧ Kept s t := by
  cases hr : res x with
  | none =>
    rw [mappingOf, hr] at hl
    exact ⟨s, rfl, hl, rfl, rfl, rfl⟩
  | some r =>
    rw [mappingOf, hr] at hl
    obtain ⟨hkept, hreleased⟩ := suspend_kept s (suspends x)
    have hlive := hl.suspend (suspends x)
    obtain ⟨hvalid, hc⟩ := hh r hr
    rw [Gntmap.unmapHandle, if_pos handleCell_valid, h.read_pfn hx, h.read_busAddr hx hr, handleCell_handle hvalid,
      hc]
    by_cases he : c = (s.suspend (suspends x)).suspendCount
    · rcases hlive with ⟨-, hactive⟩ | ⟨hlt, -⟩
      · refine ⟨{ s.suspend (suspends x) with active := l ++ base }, ?_, .inl ⟨he.symm, rfl⟩, hreleased, hkept⟩
        exact (if_pos he).trans (State.unmap_head (l ++ base) hactive)
      · exact absurd he (Nat.ne_of_lt hlt)
    · exact ⟨s.suspend (suspends x), if_neg he, hlive.tail he, hreleased, hkept⟩

theorem Holds.unmapOne (h : Holds abi d n pages res) (hx : x < n)
    (hh : ∀ r, res x = some r → r.1 < gntmapHandleValid ∧ d.suspendCount = c) (suspends : Nat → Nat)
    (hl : Live c ((mappingOf q pages res x).toList ++ l) base s) :
    ∃ t, Gntmap.unmapOne abi d suspends s x = .ok t ∧ Live c l base t ∧
      t.released = s.released ++ [pages.getD x 0].filter (· ≠ 0) ∧ Kept s t := by
  obtain ⟨u, hu, hlive, hreleased, hkept⟩ := h.unmapHandle hx hh suspends hl
  refine ⟨if pages.getD x 0 ≠ 0 then { u with released := u.released ++ [pages.getD x 0] } else u, ?_, ?_, ?_, ?_⟩
  · rw [Gntmap.unmapOne, h.read_handle hx]
    simp only [bind, Except.bind, hu, h.read_pfn hx]
  · split
    · exact hlive
    · exact hlive
  · split
    · next hne =>
      rw [List.filter_singleton, decide_eq_true hne, hreleased]
      rfl
    · next hne =>
      rw [List.filter_singleton, decide_eq_false hne, hreleased]
      exact (List.append_nil _).symm
  · split
    · exact hkept
    · exact hkept

theorem Holds.unmapLoop {xs : List Nat} (h : Holds abi d n pages res) (hxs : ∀ x ∈ xs, x < n)
    (hh : ∀ x r, res x = some r → r.1 < gntmapHandleValid ∧ d.suspendCount = c) (suspends : Nat → Nat)
    (hl : Live c (xs.filterMap (mappingOf q pages res)) base s) :
    ∃ t, xs.foldlM (Gntmap.unmapOne abi d suspends) s = .ok t ∧ Live c [] base t ∧
      t.released = s.released ++ (xs.map fun x => pages.getD x 0).filter (· ≠ 0) ∧ Kept s t := by
  induction xs generalizing s with
  | nil => exact ⟨s, rfl, hl, (List.append_nil _).symm, rfl, rfl⟩
  | cons x xs ih =>
    have hhead : (x :: xs).filterMap (mappingOf q pages res) =
        (mappingOf q pages res x).toList ++ xs.filterMap (mappingOf q pages res) := by
      cases hm : mappingOf q pages res x with
      | none => exact List.filterMap_cons_none hm
      | some m => exact List.filterMap_cons_some hm
    rw [hhead] at hl
    obtain ⟨t, ht, hlive, hreleased, hkept⟩ := h.unmapOne (hxs x List.mem_cons_self) (hh x) suspends hl
    obtain ⟨u, hu, hlive', hreleased', hkept'⟩ := ih (fun y hy => hxs y (List.mem_cons_of_mem _ hy)) hlive
    refine ⟨u, ?_, hlive', ?_, hkept'.1.trans hkept.1, hkept'.2.trans hkept.2⟩
    · rw [List.foldlM_cons, ht]
      exact hu
    · rw [hreleased', hreleased, List.append_assoc, List.map_cons, ← List.filter_append, List.singleton_append]

theorem filter_pages (hlen : pages.length ≤ n) (hne : ∀ pfn ∈ pages, pfn ≠ 0) :
    ((List.range n).map fun x => pages.getD x 0).filter (· ≠ 0) = pages := by
  have hmap : ((List.range n).map fun x => pages.getD x 0) = pages ++ List.replicate (n - pages.length) 0 := by
    refine List.ext_getElem (by simp; omega) fun i hi _ => ?_
    rw [List.getElem_map, List.getElem_range, List.getD_eq_getElem?_getD]
    by_cases hlt : i < pages.length
    · rw [List.getElem_append_left hlt, List.getElem?_eq_getElem hlt, Option.getD_some]
    · rw [List.getElem_append_right (by omega), List.getElem_replicate, List.getElem?_eq_none (by omega),
        Option.getD_none]
  have hzero : (List.replicate (n - pages.length) 0).filter (· ≠ 0) = [] :=
    List.filter_eq_nil_iff.mpr fun x hx => by simp [List.eq_of_mem_replicate hx]
  rw [hmap, List.filter_append, hzero, List.append_nil]
  exact List.filter_eq_self.mpr fun x hx => decide_eq_true (hne x hx)

/-- **The destructor undoes what a detail holds.** -/
theorem Holds.unmapGrants (h : Holds abi d n pages res) (hlen : pages.length ≤ n) (hne : ∀ pfn ∈ pages, pfn ≠ 0)
    (hh : ∀ x r, res x = some r → r.1 < gntmapHandleValid ∧ d.suspendCount = c) (suspends : Nat → Nat)
    (hl : Live c ((List.range n).filterMap (mappingOf q pages res)) base s) :
    ∃ t, Gntmap.unmapGrants abi suspends d s = .ok t ∧ Live c [] base t ∧ t.released = s.released ++ pages ∧
      t.pages = s.pages ∧ t.blocks = s.blocks - 1 := by
  obtain ⟨t, ht, hlive, hreleased, hpages, hblocks⟩ :=
    h.unmapLoop (fun x hx => List.mem_range.mp hx) hh suspends hl
  rw [filter_pages hlen hne] at hreleased
  refine ⟨{ t with blocks := t.blocks - 1 }, ?_, hlive, hreleased, hpages, congrArg (· - 1) hblocks⟩
  unfold Gntmap.unmapGrants
  rw [h.mdlFlags, h.nrGrefs, ht]
  rfl

end Unmap

/-! ## The stages -/

section Map

variable {abi : Abi} {q : Request} {how : Conditions} {d : Detail} {n : Nat} {pages : List Nat} {s : State}

/-- A detail with pages, and nothing else in its arrays. -/
structure Filled (abi : Abi) (d : Detail) (n : Nat) (pages : List Nat) : Prop where
  fields : d = { Detail.prepared abi n with cells := d.cells }
  pfn : ∀ x < n, d.cells (abi.pfnAt x) = pages.getD x 0
  zero : ∀ offset, (∀ x < n, offset ≠ abi.pfnAt x) → d.cells offset = 0

theorem filled_prepared (abi : Abi) (n : Nat) : Filled abi (.prepared abi n) n [] :=
  ⟨rfl, fun _ _ => rfl, fun _ _ => rfl⟩

theorem pfnAt_ne (abi : Abi) {x y : Nat} (h : y ≠ x) : abi.pfnAt y ≠ abi.pfnAt x := by
  cases abi
  all_goals
    simp only [Abi.pfnAt, Abi.pfnSize]
    omega

theorem Filled.push (h : Filled abi d n pages) (hx : pages.length < n) (pfn : Nat) :
    ∃ d', d.write (abi.pfnAt pages.length) abi.pfnSize pfn = .ok d' ∧ Filled abi d' n (pages ++ [pfn]) := by
  have hb : d.blockSize = gmdSizeForNrGrefs abi n := by rw [h.fields]; rfl
  refine ⟨{ d with cells := update d.cells (abi.pfnAt pages.length) pfn },
    if_pos (inside_pfn hb hx), ?_, ?_, ?_⟩
  · rw [h.fields]
  · intro y hy
    by_cases he : y = pages.length
    · rw [he]
      simp
    · refine (update_of_ne (pfnAt_ne abi he) _ _).trans ((h.pfn y hy).trans ?_)
      rw [List.getD_eq_getElem?_getD, List.getD_eq_getElem?_getD]
      rcases Nat.lt_or_gt_of_ne he with hlt | hgt
      · rw [List.getElem?_append_left hlt]
      · rw [List.getElem?_eq_none (by omega), List.getElem?_eq_none (by simp; omega)]
  · intro offset ho
    exact (update_of_ne (ho _ hx) _ _).trans (h.zero offset ho)

/-- The operations for pages. -/
def opsOf (q : Request) (pages : List Nat) : List MapOp := pages.zipIdx.map fun y => q.op y.1 y.2

theorem opsOf_push (q : Request) (pages : List Nat) (pfn : Nat) :
    opsOf q (pages ++ [pfn]) = opsOf q pages ++ [q.op pfn pages.length] := by
  simp [opsOf, List.zipIdx_append]

theorem Filled.fillOps {k : Nat} (h : Filled abi d n pages) (hk : pages.length + k = n) :
    ∃ more rest d', s.pages = more ++ rest ∧ more.length ≤ k ∧ Filled abi d' n (pages ++ more) ∧
      Gntmap.fillOps abi q (List.range' pages.length k) (opsOf q pages) d s =
        .ok (if more.length = k then some (opsOf q (pages ++ more)) else none, d', { s with pages := rest }) := by
  induction k generalizing pages d s with
  | zero =>
    refine ⟨[], s.pages, d, rfl, Nat.le_refl 0, (List.append_nil pages).symm ▸ h, ?_⟩
    rw [List.append_nil]
    rfl
  | succ k ih =>
    rw [List.range'_succ, Gntmap.fillOps]
    cases hp : s.pages with
    | nil =>
      refine ⟨[], [], d, rfl, Nat.zero_le _, (List.append_nil pages).symm ▸ h, ?_⟩
      have hs : ({ s with pages := [] } : State) = s := by rw [← hp]
      have hne : ¬([] : List Nat).length = k + 1 := (Nat.succ_ne_zero k).symm
      rw [if_neg hne, hs]
    | cons pfn later =>
      obtain ⟨d', hwrite, hd'⟩ := h.push (by omega) pfn
      obtain ⟨more, rest, d'', hpages, hle, hd'', hrun⟩ := ih (s := { s with pages := later }) hd' (by simp; omega)
      refine ⟨pfn :: more, rest, d'', by rw [List.cons_append, ← hpages], Nat.succ_le_succ hle, ?_, ?_⟩
      · rwa [List.append_assoc] at hd''
      · simp only [hwrite, bind, Except.bind]
        rw [opsOf_push, List.length_append, List.append_assoc] at hrun
        simp only [List.length_cons, Nat.succ_inj]
        exact hrun

theorem Filled.holds (h : Filled abi d n pages) (hn : n < abi.maxGrefs) : Holds abi d n pages fun _ => none := by
  have hsize : d.size = abi.mdlSize + abi.pfnSize * n := by
    have hshort : d.size = short (abi.mdlSize + abi.pfnSize * n) := by rw [h.fields]; rfl
    rw [hshort, short_eq (size_lt hn), Int.natCast_add, Int.natCast_mul]
  have hnr : d.nrGrefs = n := by rw [h.fields]; rfl
  refine ⟨hnr, hsize, by rw [h.fields]; rfl, by rw [h.fields]; rfl, h.pfn, fun x hx => ?_, ?_⟩
  · exact h.zero _ fun y hy => (arrays_apart hsize hnr hy hx).1.symm
  · exact fun _ _ _ hr => by cases hr

theorem Holds.withCount {res : Nat → Option (Nat × Nat)} (h : Holds abi d n pages res) (c : Nat) :
    Holds abi { d with suspendCount := c } n pages res :=
  ⟨h.nrGrefs, h.size, h.mdlFlags, h.blockSize, h.pfn, h.handle, h.busAddr⟩

theorem mappings_opsOf (q : Request) (pages : List Nat) (results : Nat → Option (Nat × Nat)) :
    mappings results (opsOf q pages) = (List.range pages.length).filterMap (mappingOf q pages results) := by
  have hops : (opsOf q pages).zipIdx = (List.range pages.length).map fun x => (q.op (pages.getD x 0) x, x) := by
    refine List.ext_getElem (by simp [opsOf]) fun i hi _ => ?_
    have hlen : i < pages.length := by simpa [opsOf] using hi
    simp [opsOf, List.getElem?_eq_getElem hlen]
  rw [mappings, hops, List.filterMap_map]
  rfl

theorem Live.active {k : Nat} {t : State} (h : Live (s.suspend k).suspendCount [] (s.suspend k).active t) :
    t.active = if t.suspendCount = s.suspendCount then s.active else [] := by
  have hle : s.suspendCount ≤ (s.suspend k).suspendCount := by
    unfold State.suspend
    split
    · exact Nat.le_refl _
    · exact Nat.le_add_right _ _
  rcases h with ⟨hcount, hactive⟩ | ⟨hlt, hactive⟩
  · rw [hactive, hcount, List.nil_append]
    unfold State.suspend
    split
    · exact (if_pos rfl).symm
    · next hk => exact (if_neg (by simp only; omega)).symm
  · rw [hactive, if_neg (by omega)]

theorem Holds.err {res : Nat → Option (Nat × Nat)} {k : Nat} {u : State} (h : Holds abi d n pages res)
    (hlen : pages.length ≤ n) (hne : ∀ pfn ∈ s.pages, pfn ≠ 0)
    (hh : ∀ x r, res x = some r → r.1 < gntmapHandleValid ∧ d.suspendCount = (s.suspend k).suspendCount)
    (hl : Live (s.suspend k).suspendCount ((List.range n).filterMap (mappingOf q pages res)) (s.suspend k).active u)
    (hpages : s.pages = pages ++ u.pages) (hreleased : u.released = s.released) (hblocks : u.blocks = s.blocks + 1)
    (suspends : Nat → Nat) :
    ∃ t, Gntmap.unmapGrants abi suspends d u = .ok t ∧ Undone s t := by
  have hne' : ∀ pfn ∈ pages, pfn ≠ 0 := fun pfn hp => hne pfn (hpages ▸ List.mem_append_left _ hp)
  obtain ⟨t, ht, hlive, htreleased, htpages, htblocks⟩ := h.unmapGrants hlen hne' hh suspends hl
  refine ⟨t, ht, hlive.active, ⟨pages, ?_, ?_⟩, ?_⟩
  · rw [htpages, hpages]
  · rw [htreleased, hreleased]
  · rw [htblocks, hblocks, Nat.add_sub_cancel]

theorem suspend_with (s : State) (k : Nat) (pages : List Nat) (blocks : Nat) :
    ({ s with pages, blocks } : State).suspend k = { s.suspend k with pages, blocks } := by
  unfold State.suspend
  split
  · rfl
  · rfl

theorem suspend_active (s : State) (k : Nat) : (s.suspend k).active =
    if (s.suspend k).suspendCount = s.suspendCount then s.active else [] :=
  Live.active (k := k) (.inl ⟨rfl, rfl⟩)

theorem mappingOf_stored (q : Request) (pages : List Nat) (results : Nat → Option (Nat × Nat)) (n : Nat) :
    (List.range n).filterMap (mappingOf q pages fun x => if x ∈ List.range n then (results x).or none else none) =
      (List.range n).filterMap (mappingOf q pages results) := by
  refine List.filterMap_congr fun x hx => ?_
  simp only [mappingOf, if_pos hx, Option.or_none]

theorem refs_mappingOf (q : Request) (pages : List Nat) {results : Nat → Option (Nat × Nat)} {xs : List Nat}
    (h : ∀ x ∈ xs, (results x).isSome) :
    (xs.filterMap (mappingOf q pages results)).map (·.op.ref) = xs.map q.grefs := by
  induction xs with
  | nil => rfl
  | cons x xs ih =>
    obtain ⟨r, hr⟩ := Option.isSome_iff_exists.mp (h x List.mem_cons_self)
    have hm : mappingOf q pages results x = some ⟨r.1, q.op (pages.getD x 0) x, r.2⟩ := by rw [mappingOf, hr]; rfl
    rw [List.filterMap_cons_some hm, List.map_cons, List.map_cons, ih fun y hy => h y (List.mem_cons_of_mem _ hy)]
    rfl

theorem err_allOrNothing {status : NtStatus} {t u : State} (hs : status ≠ .success)
    (ht : Gntmap.unmapGrants abi how.unmapSuspends d u = .ok t) (h : Undone s t) :
    AllOrNothing abi q s (Gntmap.err abi how status (some d) u) := by
  simp only [Gntmap.err, ht, bind, Except.bind]
  exact .nothing hs h

theorem mapFilled_allOrNothing {u : State} (ha : Answers how s) (h : Holds abi d q.nrGrefs pages fun _ => none)
    (hlen : pages.length = q.nrGrefs)
    (hu : u.suspend how.suspends = { s.suspend how.suspends with pages := u.pages, blocks := s.blocks + 1 + 1 })
    (hpages : s.pages = pages ++ u.pages) :
    AllOrNothing abi q s (mapFilled abi how q (opsOf q pages) d u) := by
  have hreleased := (suspend_kept s how.suspends).2
  have hcount := h.withCount (s.suspend how.suspends).suspendCount
  rw [mapFilled, hu]
  cases hrc : how.rcNegative with
  | true =>
    have hnone : (List.range q.nrGrefs).filterMap (mappingOf q pages fun _ => none) = [] :=
      List.filterMap_eq_nil_iff.mpr fun _ _ => rfl
    obtain ⟨t, ht, hundone⟩ := hcount.err (s := s) (k := how.suspends) (q := q)
      (u := { s.suspend how.suspends with pages := u.pages, blocks := s.blocks + 1 }) (Nat.le_of_eq hlen) ha.pages
      (fun _ _ hr => by cases hr) (.inl ⟨rfl, by rw [hnone]; rfl⟩) hpages hreleased rfl how.unmapSuspends
    simp only [State.map, hrc, if_true]
    exact err_allOrNothing (by decide) ht hundone
  | false =>
    simp only [State.map, hrc, Bool.false_eq_true, if_false]
    obtain ⟨d', hrun, hd', hholds⟩ := hcount.storeResults (fun x hx => List.mem_range.mp hx) how.results
    have hmade := (mappings_opsOf q pages how.results).symm
    rw [hlen, ← mappingOf_stored] at hmade
    have herr : ∀ suspends, ∃ t, Gntmap.unmapGrants abi suspends d'
        { s.suspend how.suspends with
          active := mappings how.results (opsOf q pages) ++ (s.suspend how.suspends).active
          pages := u.pages, blocks := s.blocks + 1 } = .ok t ∧ Undone s t := by
      refine hholds.err (k := how.suspends) (q := q) (Nat.le_of_eq hlen) ha.pages ?_ (.inl ⟨rfl, ?_⟩) hpages
        hreleased rfl
      · intro x r hr
        split at hr
        · rw [Option.or_none] at hr
          exact ⟨ha.handles x r hr, hd'⟩
        · cases hr
      · rw [hmade]
    simp only [hrun, bind, Except.bind]
    by_cases hall : (List.range q.nrGrefs).all fun x => (how.results x).isSome
    · rw [if_pos hall]
      refine .all ⟨⟨_, ?_, congrArg _ (suspend_active s how.suspends)⟩, herr⟩
      rw [mappings_opsOf, hlen]
      exact refs_mappingOf q pages (List.all_eq_true.mp hall)
    · rw [if_neg hall]
      obtain ⟨t, ht, hundone⟩ := herr how.unmapSuspends
      exact err_allOrNothing (by decide) ht hundone

theorem mapWith_allOrNothing (ha : Answers how s) (hn : q.nrGrefs < abi.maxGrefs) :
    AllOrNothing abi q s (mapWith abi how q { s with blocks := s.blocks + 1 + 1 }) := by
  obtain ⟨more, rest, d, hpages, hle, hd, hrun⟩ := (filled_prepared abi q.nrGrefs).fillOps (q := q)
    (s := { s with blocks := s.blocks + 1 + 1 }) (Nat.zero_add q.nrGrefs)
  rw [List.nil_append] at hd hrun
  have hholds := hd.holds hn
  change s.pages = more ++ rest at hpages
  rw [List.length_nil, ← List.range_eq_range'] at hrun
  change Gntmap.fillOps abi q (List.range q.nrGrefs) [] _ _ = _ at hrun
  rw [mapWith, hrun]
  simp only [bind, Except.bind]
  by_cases hall : more.length = q.nrGrefs
  · rw [if_pos hall]
    exact mapFilled_allOrNothing ha hholds hall (suspend_with s how.suspends rest (s.blocks + 1 + 1)) hpages
  · rw [if_neg hall]
    have hnone : (List.range q.nrGrefs).filterMap (mappingOf q more fun _ => none) = [] :=
      List.filterMap_eq_nil_iff.mpr fun _ _ => rfl
    obtain ⟨t, ht, hundone⟩ := hholds.err (s := s) (k := 0) (q := q)
      (u := { s with pages := rest, blocks := s.blocks + 1 }) hle ha.pages (fun _ _ hr => by cases hr)
      (.inl ⟨rfl, by rw [hnone]; rfl⟩) hpages rfl rfl how.unmapSuspends
    exact err_allOrNothing (by decide) ht hundone

end Map

/-! ## At the limit -/

section Limit

variable {abi : Abi} {q : Request} {how : Conditions} {d : Detail} {s : State}

theorem maxGrefs_lt (abi : Abi) : 0 < abi.maxGrefs ∧ abi.maxGrefs < 8190 := by
  cases abi
  all_goals decide

theorem not_inside (hd : d.size = -32768) {x : Nat} (hx : x < abi.maxGrefs) : ¬d.Inside (d.handleAt x) 4 := by
  have := (maxGrefs_lt abi).2
  rw [Detail.Inside, Detail.handleAt, hd]
  omega

theorem unmapGrants_outside (hd : d.size = -32768) (hf : d.mdlFlags = mdlPagesLocked ||| mdlIoSpace)
    (hn : d.nrGrefs = abi.maxGrefs) (suspends : Nat → Nat) (s : State) :
    unmapGrants abi suspends d s = .error .outOfBlock := by
  obtain ⟨k, hk⟩ := Nat.exists_eq_add_one.mpr (maxGrefs_lt abi).1
  have hread : d.read (d.handleAt 0) 4 = .error .outOfBlock := if_neg (not_inside hd (maxGrefs_lt abi).1)
  unfold unmapGrants
  rw [hf, hn, hk, List.range_succ_eq_map, List.foldlM_cons, unmapOne, hread]
  rfl

theorem err_outside {status : NtStatus} (hd : d.size = -32768) (hf : d.mdlFlags = mdlPagesLocked ||| mdlIoSpace)
    (hn : d.nrGrefs = abi.maxGrefs) (s : State) : err abi how status (some d) s = .error .outOfBlock := by
  simp only [err, unmapGrants_outside hd hf hn, bind, Except.bind]

theorem storeResults_outside (hd : d.size = -32768) (results : Nat → Option (Nat × Nat)) {xs : List Nat}
    (hxs : ∀ x ∈ xs, x < abi.maxGrefs) :
    xs.foldlM (storeResult results) d = .error .outOfBlock ∨
      xs.foldlM (storeResult results) d = .ok d ∧ ∀ x ∈ xs, results x = none := by
  induction xs with
  | nil => exact .inr ⟨rfl, fun _ hx => by cases hx⟩
  | cons x xs ih =>
    rw [List.foldlM_cons]
    cases hr : results x with
    | none =>
      have hstore : storeResult results d x = .ok d := by rw [storeResult, hr]
      rw [hstore]
      rcases ih fun y hy => hxs y (List.mem_cons_of_mem _ hy) with he | ⟨hok, hnone⟩
      · exact .inl he
      · refine .inr ⟨hok, fun y hy => ?_⟩
        rcases List.mem_cons.mp hy with rfl | hy
        · exact hr
        · exact hnone y hy
    | some r =>
      have hwrite : d.write (d.handleAt x) 4 (r.1 ||| gntmapHandleValid) = .error .outOfBlock :=
        if_neg (not_inside hd (hxs x List.mem_cons_self))
      have hstore : storeResult results d x = .error .outOfBlock := by
        unfold storeResult
        simp only [hr, hwrite, bind, Except.bind]
      rw [hstore]
      exact .inl rfl

theorem mapFilled_outside (hn : q.nrGrefs = abi.maxGrefs) (hd : d.size = -32768)
    (hf : d.mdlFlags = mdlPagesLocked ||| mdlIoSpace) (hnr : d.nrGrefs = abi.maxGrefs) (ops : List MapOp) :
    mapFilled abi how q ops d s = .error .outOfBlock := by
  rw [mapFilled]
  generalize hd' : ({ d with suspendCount := ((s.suspend how.suspends).map how ops).suspendCount } : Detail) = d'
  have hsize : d'.size = -32768 := by rw [← hd', ← hd]
  have hflags : d'.mdlFlags = mdlPagesLocked ||| mdlIoSpace := by rw [← hd', ← hf]
  have hcount : d'.nrGrefs = abi.maxGrefs := by rw [← hd', ← hnr]
  split
  · exact err_outside hsize hflags hcount _
  · have hxs : ∀ x ∈ List.range q.nrGrefs, x < abi.maxGrefs := by
      intro x hx
      rw [← hn]
      exact List.mem_range.mp hx
    rcases storeResults_outside hsize how.results hxs with he | ⟨hok, hnone⟩
    · rw [he]
      rfl
    · have hzero : 0 ∈ List.range q.nrGrefs := by
        rw [List.mem_range, hn]
        exact (maxGrefs_lt abi).1
      have hall : ¬((List.range q.nrGrefs).all fun x => (how.results x).isSome) = true := by
        intro hall
        have := List.all_eq_true.mp hall 0 hzero
        rw [hnone 0 hzero] at this
        exact Bool.false_ne_true this
      rw [hok]
      exact (if_neg hall).trans (err_outside hsize hflags hcount _)

theorem mapWith_outside (hn : q.nrGrefs = abi.maxGrefs) : mapWith abi how q s = .error .outOfBlock := by
  obtain ⟨more, rest, d, -, -, hd, hrun⟩ := (filled_prepared abi q.nrGrefs).fillOps (q := q) (s := s)
    (Nat.zero_add q.nrGrefs)
  rw [List.length_nil, ← List.range_eq_range'] at hrun
  change fillOps abi q (List.range q.nrGrefs) [] _ _ = _ at hrun
  have hsize : d.size = -32768 := by
    rw [hd.fields, hn]
    exact short_maxGrefs abi
  have hflags : d.mdlFlags = mdlPagesLocked ||| mdlIoSpace := by rw [hd.fields]; rfl
  have hnr : d.nrGrefs = abi.maxGrefs := by rw [hd.fields, ← hn]; rfl
  rw [mapWith, hrun]
  simp only [bind, Except.bind]
  split
  · exact err_outside hsize hflags hnr _
  · exact mapFilled_outside hn hsize hflags hnr _

end Limit

section Calls

variable {abi : Abi} {q : Request} {how : Conditions} {s : State}

theorem err_zeroed (status : NtStatus) (blockSize : Nat) :
    err abi how status (some (.zeroed blockSize)) s = .error .assertion := by
  simp [err, unmapGrants, Detail.zeroed, xmAssert, bind, Except.bind]

/-- **Grant mapping is all or nothing, but for the largest number of grants and where only the operations get
no memory.** -/
theorem allOrNothing_iff_fine (ha : Answers how s) :
    AllOrNothing abi q s (mapGrants abi how q s) ↔ Fine abi how q := by
  have hundone : Undone s s := ⟨(if_pos rfl).symm, ⟨[], rfl, (List.append_nil _).symm⟩, rfl⟩
  rw [mapGrants, Fine]
  by_cases hbig : abi.maxGrefs < q.nrGrefs
  · rw [if_pos hbig]
    exact iff_of_true (.nothing (by decide) hundone) (.inl hbig)
  · rw [if_neg hbig]
    cases hwork : how.workMemory with
    | false =>
      refine iff_of_true ?_ (.inr (.inl rfl))
      refine .nothing (by decide) ⟨hundone.active, hundone.pages, ?_⟩
      change s.blocks + how.opsMemory.toNat + 0 - how.opsMemory.toNat = s.blocks
      omega
    | true =>
      cases hops : how.opsMemory with
      | false =>
        refine iff_of_false (fun h => ?_) (by simp [hbig])
        change AllOrNothing abi q s (err abi how _ (some (.zeroed _)) _) at h
        rw [err_zeroed] at h
        cases h
      | true =>
        simp only [hbig, Bool.true_eq_false, false_or, true_and]
        constructor
        · intro h hn
          change AllOrNothing abi q s (mapWith abi how q _) at h
          rw [mapWith_outside hn] at h
          cases h
        · intro hn
          exact mapWith_allOrNothing ha (by omega)

/-- Two grants, the second of them refused by the hypervisor. -/
def sampleHow (opsMemory : Bool) : Conditions :=
  ⟨opsMemory, true, 0, false, fun x => if x = 0 then some (5, 7) else none, fun _ => 0⟩

def sampleRequest : Request := ⟨3, 2, fun x => 100 + x, false⟩

def sampleState : State := ⟨[], 0, [40, 41, 42], [], 0⟩

theorem sample_answers (opsMemory : Bool) : Answers (sampleHow opsMemory) sampleState := by
  constructor
  · decide
  · intro x r hr
    simp only [sampleHow] at hr
    split at hr
    · rw [← Option.some.inj hr]
      decide
    · cases hr

theorem allOrNothing_sample :
    AllOrNothing .x64 sampleRequest sampleState (mapGrants .x64 (sampleHow true) sampleRequest sampleState) :=
  (allOrNothing_iff_fine (sample_answers true)).mpr (.inr (.inr ⟨rfl, by decide⟩))

/-- Without memory for the operations the destructor's assertion about the MDL fails. -/
theorem ops_memory_fails : Answers (sampleHow false) sampleState ∧
    mapGrants .x64 (sampleHow false) sampleRequest sampleState = .error .assertion ∧
    ¬AllOrNothing .x64 sampleRequest sampleState (mapGrants .x64 (sampleHow false) sampleRequest sampleState) := by
  have hrun : mapGrants .x64 (sampleHow false) sampleRequest sampleState = .error .assertion := rfl
  refine ⟨sample_answers false, hrun, ?_⟩
  rw [hrun]
  intro h
  cases h

end Calls

end XcWindows.Gnttab.Gntmap
