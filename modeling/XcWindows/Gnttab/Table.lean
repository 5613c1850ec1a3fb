import Mathlib.Logic.Function.Basic
import Mathlib.Data.List.Perm.Basic
import Mathlib.Data.List.Range
import XcWindows.Lib.Word

/-!
# The grant table and its free lists

`xenutil/gnttab.c`: grant references are indices into the shared grant frames. Free ones are
threaded through `gnttab_list`, on the global pool or on a grant cache, and a `GRANT_REF` carries the
id of its cache in its low bits. A failed `XM_ASSERT` is `none`. Whether a further frame can be
mapped is the environment's answer to the `n`-th request for one.

`Own t free rest` says that the pool's chain is `free` and that `free` and `rest` together are the
usable references of the mapped frames, each once. The functions here are specified by how they move
references between the pool, a cache and the hands of their caller.
-/

namespace XcWindows.Gnttab

open XcWindows.Lib
open Function (update)

abbrev nrReservedEntries : Nat := 8
abbrev grantEntriesPerPage : Nat := 512
abbrev maxNrGrantFrames : Nat := 32
abbrev gnttabCacheThreshold : Nat := 64
abbrev domidInvalid : Nat := 0x7FF4

abbrev gtfPermitAccess : Nat := 1
abbrev gtfReadonly : Nat := 4
abbrev gtfReading : Nat := 8
abbrev gtfWriting : Nat := 16

abbrev passiveLevel : Nat := 0
abbrev highLevel : Nat := 31

/-- A `GRANT_REF`, as the integer it wraps. -/
abbrev GrantRef := Nat

abbrev nullGrantRef : GrantRef := 0

def wrapGrantRef (x cache : Nat) : GrantRef := u32 ((x + 1) <<< 10) ||| (cache % 4)

def xenGrantRef (g : GrantRef) : Nat := u32 ((g >>> 10) + 4294967295)

def grantRefCache (g : GrantRef) : Nat := g % 4

def changeGrantCache (ref : GrantRef) (cache : Nat) : GrantRef :=
  wrapGrantRef (xenGrantRef ref) cache

/-- `grant_entry_t`. -/
structure GrantEntry where
  flags : Nat
  domid : Nat
  frame : Nat

/-- `gnttab_lock` and the IRQL of the CPU. -/
structure IrqLock where
  held : Bool
  irql : Nat
  /-- The lock was released when it was not held. -/
  badRelease : Bool

def IrqLock.acquire (l : IrqLock) : IrqLock := { l with held := true, irql := highLevel }

def IrqLock.release (l : IrqLock) (irql : Nat) : IrqLock :=
  ⟨false, irql, l.badRelease || !l.held⟩

/-- What becomes of a request for a further grant frame. -/
inductive FrameAnswer where
  | noMemory
  | rejected
  | mapped

/-- The globals of `gnttab.c`. -/
structure Table where
  gnttabList : Nat → GrantRef
  freeCount : Nat
  freeHead : GrantRef
  nrGrantFrames : Nat
  grantTableFullyMapped : Bool
  /-- `GnttabTableInd`. -/
  entry : Nat → GrantEntry
  pfns : Nat → Nat
  domids : Nat → Nat
  readonlyFlags : Nat → BitVec 8
  lock : IrqLock
  /-- The requests for a further frame so far. -/
  asked : Nat

/-- `struct grant_cache`. -/
structure GrantCache where
  addr : Nat
  id : Nat
  nrOutstanding : Nat
  population : Nat
  minPopulation : Nat
  headFree : GrantRef

def xmAssert (p : Prop) [Decidable p] : Option Unit := if p then some () else none

/-- `valid_GRANT_REF`. -/
def Table.Valid (t : Table) (ref : GrantRef) : Prop :=
  ref ≠ nullGrantRef ∧ xenGrantRef ref < grantEntriesPerPage * t.nrGrantFrames

instance (t : Table) (ref : GrantRef) : Decidable (t.Valid ref) :=
  inferInstanceAs (Decidable (_ ∧ _))

def Table.next (t : Table) (ref : GrantRef) : GrantRef := t.gnttabList (xenGrantRef ref)

/-- Assignment to `GRANT_REF_NEXT`. -/
def Table.setNext (t : Table) (ref v : GrantRef) : Table :=
  { t with gnttabList := update t.gnttabList (xenGrantRef ref) v }

def Table.setEntry (t : Table) (ref : GrantRef) (e : GrantEntry) : Table :=
  { t with entry := update t.entry (xenGrantRef ref) e }

/-- `acquire_irqsafe_lock`, unless the caller has the lock. -/
def Table.lockUnless (t : Table) (locked : Bool) : Table :=
  if locked then t else { t with lock := t.lock.acquire }

/-- `release_irqsafe_lock`, unless the caller took the lock. -/
def Table.unlockUnless (t : Table) (locked : Bool) (irql : Nat) : Table :=
  if locked then t else { t with lock := t.lock.release irql }

def putFreeEntry (t : Table) (ref : GrantRef) (locked : Bool) : Option Table := do
  let oldIrql := t.lock.irql
  let t := t.lockUnless locked
  xmAssert (t.Valid ref)
  xmAssert (t.next ref = nullGrantRef)
  let t := { t.setNext ref t.freeHead with freeHead := ref, freeCount := t.freeCount + 1 }
  some (t.unlockUnless locked oldIrql)

/-- The loop of `ExpandGrantTable`, over the references of the new frame. -/
def hookUp : List Nat → Table → Option Table
  | [], t => some t
  | x :: xs, t =>
    let ref := wrapGrantRef x 0
    if xenGrantRef ref < nrReservedEntries then hookUp xs t
    else do
      let t ← putFreeEntry (t.setEntry ref ⟨0, domidInvalid, x⟩) ref true
      hookUp xs t

section Functions
variable (env : Nat → FrameAnswer)

def expandGrantTable (t : Table) : Option Table :=
  if t.nrGrantFrames = maxNrGrantFrames ∨ t.grantTableFullyMapped then some t
  else
    match env t.asked with
    | .noMemory => some { t with asked := t.asked + 1 }
    | .rejected => some { t with asked := t.asked + 1, grantTableFullyMapped := true }
    | .mapped =>
      let startingRef := t.nrGrantFrames * grantEntriesPerPage
      hookUp (List.range' startingRef grantEntriesPerPage)
        { t with asked := t.asked + 1, nrGrantFrames := t.nrGrantFrames + 1 }

/-- The first test of `get_free_entry`. -/
def ensureFree (t : Table) : Option Table :=
  if t.freeCount = 0 then expandGrantTable env t else some t

/-- The end of `get_free_entry`: unlink the head of the pool. -/
def popFreeEntry (t : Table) : Option (GrantRef × Table) := do
  let ref := t.freeHead
  xmAssert (t.Valid ref)
  let t := { t with freeCount := t.freeCount - 1, freeHead := t.next ref }
  xmAssert (t.freeCount = 0 ↔ t.freeHead = nullGrantRef)
  let t := t.setNext ref nullGrantRef
  xmAssert (grantRefCache ref = 0)
  some (ref, t)

/-- `get_free_entry`; with a full table it releases the lock whether or not it took it. -/
def getFreeEntry (t : Table) (locked : Bool) : Option (GrantRef × Table) := do
  let oldIrql := if locked then passiveLevel else t.lock.irql
  let t ← ensureFree env (t.lockUnless locked)
  if t.freeCount = 0 then
    some (nullGrantRef, { t with lock := t.lock.release oldIrql })
  else
    let (ref, t) ← popFreeEntry t
    some (ref, t.unlockUnless locked oldIrql)

def putCacheEntry (t : Table) (gc : GrantCache) (ref : GrantRef) :
    Option (Table × GrantCache) := do
  xmAssert (grantRefCache ref = gc.id)
  xmAssert (t.next ref = nullGrantRef)
  some (t.setNext ref gc.headFree, { gc with headFree := ref, population := gc.population + 1 })

def getCacheEntry (t : Table) (gc : GrantCache) : Option (GrantRef × Table × GrantCache) :=
  if gc.population = 0 then some (nullGrantRef, t, gc)
  else do
    let ref := gc.headFree
    xmAssert (t.Valid ref)
    let gc := { gc with population := gc.population - 1, headFree := t.next ref }
    xmAssert (gc.population = 0 ↔ gc.headFree = nullGrantRef)
    let t := t.setNext ref nullGrantRef
    xmAssert (grantRefCache ref = gc.id)
    some (ref, t, gc)

/-- The loop of `ReplenishCache`, for at most `n` entries. -/
def replenishLoop (targetPop : Nat) : Nat → Table → GrantCache → Option (Table × GrantCache)
  | 0, t, gc => some (t, gc)
  | n + 1, t, gc =>
    if gc.population < targetPop then do
      let (ref, t) ← getFreeEntry env t true
      if ref = nullGrantRef then some (t, gc)
      else
        let (t, gc) ← putCacheEntry t gc (changeGrantCache ref gc.id)
        replenishLoop targetPop n t gc
    else some (t, gc)

/-- `ReplenishCache`; it succeeded when the population is `targetPop`. -/
def replenishCache (t : Table) (gc : GrantCache) (targetPop : Nat) :
    Option (Table × GrantCache) := do
  xmAssert (gc.population < targetPop)
  let oldIrql := t.lock.irql
  let (t, gc) ← replenishLoop env targetPop (targetPop - gc.population)
    { t with lock := t.lock.acquire } gc
  some ({ t with lock := t.lock.release oldIrql }, gc)

end Functions

/-- The loop of `TrimCache`, for at most `n` entries. -/
def trimLoop (targetPop : Nat) : Nat → Table → GrantCache → Option (Table × GrantCache)
  | 0, t, gc => some (t, gc)
  | n + 1, t, gc =>
    if targetPop < gc.population then do
      let (ref, t, gc) ← getCacheEntry t gc
      xmAssert (ref ≠ nullGrantRef)
      let t ← putFreeEntry t (changeGrantCache ref 0) true
      trimLoop targetPop n t gc
    else some (t, gc)

def trimCache (t : Table) (gc : GrantCache) (targetPop : Nat) : Option (Table × GrantCache) := do
  xmAssert (targetPop ≤ gc.population)
  let oldIrql := t.lock.irql
  let (t, gc) ← trimLoop targetPop (gc.population - targetPop)
    { t with lock := t.lock.acquire } gc
  some ({ t with lock := t.lock.release oldIrql }, gc)

inductive GrantMode where
  | rw
  | ro
  deriving DecidableEq

/-- Bit `k` of a byte of `gnttab_readonly_flags` is set or cleared. -/
def setReadonly (b : BitVec 8) (k : Nat) (readonly : Bool) : BitVec 8 :=
  if readonly then b ||| 1#8 <<< k else b &&& ~~~(1#8 <<< k)

/-- The store to the byte of the reference `xgr`, when `b` was loaded from it. -/
def Table.storeReadonly (t : Table) (xgr : Nat) (b : BitVec 8) (readonly : Bool) : Table :=
  { t with readonlyFlags :=
      update t.readonlyFlags (xgr / 8) (setReadonly b (xgr % 8) readonly) }

def gnttabGrantForeignAccessRef (t : Table) (domid frame : Nat) (mode : GrantMode)
    (ref : GrantRef) : Option Table := do
  xmAssert (frame < 4294967296)
  let xgr := xenGrantRef ref
  let readonly := mode = .ro
  let t := t.storeReadonly xgr (t.readonlyFlags (xgr / 8)) readonly
  some { t.setEntry ref ⟨gtfPermitAccess ||| if readonly then gtfReadonly else 0, domid, frame⟩ with
         pfns := update t.pfns xgr frame
         domids := update t.domids xgr domid }

/-- The compare-and-swap loop of `GnttabEndForeignAccessRef`: whether the flags were cleared, and
what they are. Before each swap the remote domain stores the next of `raced` in them. -/
def clearFlags : List Nat → Nat → Bool × Nat
  | raced, flags =>
    if flags &&& (gtfReading ||| gtfWriting) ≠ 0 then (false, flags)
    else
      match raced with
      | [] => (true, 0)
      | w :: raced => if w = flags then (true, 0) else clearFlags raced w

/-- `GnttabEndForeignAccessRef`; `false` is `STATUS_DEVICE_BUSY`. -/
def gnttabEndForeignAccessRef (t : Table) (ref : GrantRef) (raced : List Nat) :
    Option (Bool × Table) := do
  xmAssert (t.Valid ref)
  let xgr := xenGrantRef ref
  let (done, flags) := clearFlags raced (t.entry xgr).flags
  if done then
    some (true, { t.setEntry ref ⟨flags, domidInvalid, xgr⟩ with
                  pfns := update t.pfns xgr 0
                  domids := update t.domids xgr domidInvalid })
  else some (false, t.setEntry ref { t.entry xgr with flags })

def gnttabEndForeignAccess (t : Table) (ref : GrantRef) (raced : List Nat) :
    Option (Bool × Table) := do
  xmAssert (grantRefCache ref = 0)
  let (done, t) ← gnttabEndForeignAccessRef t ref raced
  if done then
    let t ← putFreeEntry t ref false
    some (true, t)
  else some (false, t)

def gnttabEndForeignAccessCache (t : Table) (ref : GrantRef) (gc : GrantCache)
    (raced : List Nat) : Option (Bool × Table × GrantCache) := do
  let (done, t) ← gnttabEndForeignAccessRef t ref raced
  if done then
    let (t, gc) ← putCacheEntry t { gc with nrOutstanding := gc.nrOutstanding - 1 } ref
    if gc.population > gc.minPopulation ∧
        gc.population > gc.nrOutstanding + gnttabCacheThreshold * 2 then
      let (t, gc) ← trimCache t gc (max (gc.population - gnttabCacheThreshold) gc.minPopulation)
      some (true, t, gc)
    else some (true, t, gc)
  else some (false, t, gc)

/-- The end of `GnttabEndForeignAccessCache`, after the entry was cleared. -/
def giveBackCache (t : Table) (ref : GrantRef) (gc : GrantCache) : Option (Table × GrantCache) := do
  let (t, gc) ← putCacheEntry t { gc with nrOutstanding := gc.nrOutstanding - 1 } ref
  if gc.population > gc.minPopulation ∧
      gc.population > gc.nrOutstanding + gnttabCacheThreshold * 2 then
    trimCache t gc (max (gc.population - gnttabCacheThreshold) gc.minPopulation)
  else some (t, gc)

section Functions
variable (env : Nat → FrameAnswer)

def gnttabGetGrantRef (t : Table) : Option (GrantRef × Table) := getFreeEntry env t false

def gnttabGrantForeignAccess (t : Table) (domid frame : Nat) (mode : GrantMode) :
    Option (GrantRef × Table) := do
  let (ref, t) ← getFreeEntry env t false
  if ref = nullGrantRef then some (ref, t)
  else
    let t ← gnttabGrantForeignAccessRef t domid frame mode ref
    some (ref, t)

/-- `get_cache_entry`, after a `ReplenishCache` when the cache is empty. -/
def getCacheEntryReplenish (t : Table) (gc : GrantCache) :
    Option (GrantRef × Table × GrantCache) := do
  let (ref, t, gc) ← getCacheEntry t gc
  if ref = nullGrantRef then
    let (t, gc) ← replenishCache env t gc (gc.population + gnttabCacheThreshold)
    getCacheEntry t gc
  else some (ref, t, gc)

def gnttabGrantForeignAccessCache (t : Table) (domid frame : Nat) (mode : GrantMode)
    (gc : GrantCache) : Option (GrantRef × Table × GrantCache) := do
  let (ref, t, gc) ← getCacheEntryReplenish env t gc
  if ref = nullGrantRef then some (ref, t, gc)
  else
    let t ← gnttabGrantForeignAccessRef t domid frame mode ref
    some (ref, t, { gc with nrOutstanding := gc.nrOutstanding + 1 })

/-- The end of `GnttabFreeCache`, after the cache is unlinked from the list of caches. -/
def emptyCache (t : Table) (gc : GrantCache) : Option (Table × GrantCache) := do
  xmAssert (gc.nrOutstanding = 0)
  trimCache t { gc with minPopulation := 0 } 0

/-- The ids `GnttabAllocCache` draws from `next_id`: the id and the new `next_id`. -/
def drawId (nextId : Nat) : Nat × Nat :=
  if nextId % 4 = 0 then ((nextId + 1) % 4, nextId + 2) else (nextId % 4, nextId + 1)

/-- `GnttabAllocCache` up to the insertion in the list of caches, given memory at `addr`. The loop
runs at most once, since `ReplenishCache` succeeds exactly when the population is the minimum.
`none` in the result is the failure, after which the cache is freed. -/
def fillCache (t : Table) (addr id minPopulation : Nat) :
    Option (Option GrantCache × Table) := do
  let work : GrantCache := ⟨addr, id, 0, 0, minPopulation, nullGrantRef⟩
  if work.population < minPopulation then
    let (t, work) ← replenishCache env t work minPopulation
    if work.population = minPopulation then some (some work, t)
    else
      let (t, _) ← emptyCache t work
      some (none, t)
  else some (some work, t)

end Functions

end XcWindows.Gnttab
