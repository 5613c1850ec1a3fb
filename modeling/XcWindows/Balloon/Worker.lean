import XcWindows.Lib.Machine
import XcWindows.Balloon.Sort
import XcWindows.Balloon.RangeSet

/-!
# The balloon

`xenutil/balloon.c`: to inflate, frames are taken from Windows, entered in the range set
`PfnsBalloonedOut` and released to the hypervisor; what the hypervisor does not take is removed from
the set again and given back to Windows. To deflate, frames are popped from the set and repopulated,
and those that could not be are put back. A step of the machine is one turn of either loop, with the
answers of Windows, the hypervisor and the memory allocator.
-/

namespace XcWindows.Balloon

open XcWindows.Lib

/-- The number of values of a `PFN_NUMBER`. -/
abbrev pfnModulus : Nat := 18446744073709551616

abbrev balloonPfnArraySize : Nat := 4090

/-- Frames have 64-bit addresses. -/
abbrev pfnLimit : Nat := 4503599627370496

/-- Where the worker is. -/
inductive Phase where
  | idle
  | inflating (requested acquired : Nat)
  | deflating (requested returned : Nat)
  deriving DecidableEq

structure State where
  pfnsBalloonedOut : RangeSet
  currentPages : Nat
  targetPages : Nat
  maxPages : Nat
  phase : Phase
  /-- The frames Windows has handed out and not got back. -/
  taken : List Nat
  /-- The frames the hypervisor has released and not repopulated. -/
  released : List Nat
  /-- An assertion has failed. -/
  crashed : Bool

/-- The answers during one turn of the loop of `BalloonInflate`. -/
structure InflateEnv where
  /-- The frames Windows hands out, in its order. -/
  pages : List Nat
  /-- The allocator's answers to `RangeSetAddItems` and to `RangeSetRemoveItems`. -/
  allocAdd : Nat → Bool
  allocRemove : Nat → Bool
  /-- How many frames the hypervisor is willing to release. -/
  released : Nat
  slowAllocate : Bool
  slowRelease : Bool

/-- The answers during one turn of the loop of `BalloonDeflate`. -/
structure DeflateEnv where
  /-- How many frames the hypervisor is willing to repopulate. -/
  populated : Nat
  /-- The allocator's answers to `RangeSetAddItems`. -/
  alloc : Nat → Bool
  slowPopulate : Bool
  slowFree : Bool

/-- `BalloonAllocatePfnArray`: the frames, sorted. -/
def balloonAllocatePfnArray (pages : List Nat) : Option (List Nat) :=
  (balloonSortPfnArray (fun i => pages.getD i 0) pages.length).map (contents · pages.length)

/-- `BalloonReleasePfnArray`: how many of the frames the hypervisor released. It takes at most the
frames it is asked to. -/
def balloonReleasePfnArray (rs : RangeSet) (array : List Nat) (env : InflateEnv) :
    Option (Nat × RangeSet) :=
  if array = [] then some (0, rangeSetDropRseCache rs)
  else if 0 ∈ array then none
  else
    match rangeSetAddItems pfnModulus rs array env.allocAdd with
    | none => none
    | some (registered, rs) =>
      if registered = 0 then some (0, rangeSetDropRseCache rs)
      else
        let released := min env.released registered
        if released < registered then
          (rangeSetRemoveItems pfnModulus rs ((array.take registered).drop released)
            env.allocRemove).map fun (_, rs) => (released, rangeSetDropRseCache rs)
        else some (released, rangeSetDropRseCache rs)

/-- `BalloonFreePfnArray`: the frames Windows gets back. -/
def balloonFreePfnArray (array : List Nat) : Option (List Nat) :=
  if 0 ∈ array then none else some array

/-- `BalloonPopulatePfnArray`: the frames popped, and how many of them the hypervisor repopulated. -/
def balloonPopulatePfnArray (rs : RangeSet) (requested : Nat) (env : DeflateEnv) :
    Option (List Nat × Nat × RangeSet) :=
  match rangeSetPopMany pfnModulus rs requested with
  | none => none
  | some (array, rs) =>
    let populated := min env.populated requested
    if populated < requested then
      (rangeSetAddItems pfnModulus rs (array.drop populated) env.alloc).map
        fun (_, rs) => (array, populated, rangeSetDropRseCache rs)
    else some (array, populated, rangeSetDropRseCache rs)

/-- One turn of the loop of `BalloonInflate`. -/
def balloonInflate (s : State) (requested acquired : Nat) (env : InflateEnv) : Option State := do
  let thisTime := min (requested - acquired) balloonPfnArraySize
  let array ← balloonAllocatePfnArray env.pages
  let (released, rs) ← balloonReleasePfnArray s.pfnsBalloonedOut array env
  let freed ← balloonFreePfnArray (array.drop released)
  let s := { s with pfnsBalloonedOut := rs
                    taken := (s.taken ++ env.pages).filter (· ∉ freed)
                    released := s.released ++ array.take released }
  let acquired := acquired + released
  if env.slowAllocate ∨ env.pages.length < thisTime ∨ env.slowRelease ∨
      (released < env.pages.length ∧ released = 0) ∨ ¬ acquired < requested then
    some { s with currentPages := s.currentPages - acquired, phase := .idle }
  else some { s with phase := .inflating requested acquired }

/-- One turn of the loop of `BalloonDeflate`. -/
def balloonDeflate (s : State) (requested returned : Nat) (env : DeflateEnv) : Option State := do
  let thisTime := min (requested - returned) balloonPfnArraySize
  let (array, populated, rs) ← balloonPopulatePfnArray s.pfnsBalloonedOut thisTime env
  let freed ← balloonFreePfnArray (array.take populated)
  let s := { s with pfnsBalloonedOut := rs
                    taken := s.taken.filter (· ∉ freed)
                    released := s.released.filter (· ∉ array.take populated) }
  let returned := returned + populated
  if env.slowPopulate ∨ populated < thisTime ∨ env.slowFree ∨ ¬ returned < requested then
    some { s with currentPages := s.currentPages + returned, phase := .idle }
  else some { s with phase := .deflating requested returned }

inductive Act where
  | target (pages : Nat)
  /-- The worker compares the target with the current pages; the flags are the `FIST` ones. -/
  | wake (fistInflation fistDeflation : Bool)
  | inflate (env : InflateEnv)
  | deflate (env : DeflateEnv)

/-- What Windows can hand out: distinct frames of its own, no more than it was asked for. -/
def CanHandOut (s : State) (thisTime : Nat) (pages : List Nat) : Prop :=
  pages.Nodup ∧ pages.length ≤ thisTime ∧ ∀ p ∈ pages, 0 < p ∧ p < pfnLimit ∧ p ∉ s.taken

instance (s : State) (thisTime : Nat) (pages : List Nat) : Decidable (CanHandOut s thisTime pages) :=
  inferInstanceAs (Decidable (_ ∧ _ ∧ _))

def State.orCrash (s : State) (r : Option State) : State := r.getD { s with crashed := true }

def step (s : State) : Act → Option State
  | .target pages => some { s with targetPages := min pages s.maxPages }
  | .wake fistInflation fistDeflation =>
    if s.phase = .idle then
      if s.targetPages < s.currentPages then
        if fistInflation then some s
        else some { s with phase := .inflating (s.currentPages - s.targetPages) 0 }
      else if s.currentPages < s.targetPages then
        if fistDeflation then some s
        else some { s with phase := .deflating (s.targetPages - s.currentPages) 0 }
      else some s
    else none
  | .inflate env =>
    match s.phase with
    | .inflating requested acquired =>
      if CanHandOut s (min (requested - acquired) balloonPfnArraySize) env.pages then
        some (s.orCrash (balloonInflate s requested acquired env))
      else none
    | _ => none
  | .deflate env =>
    match s.phase with
    | .deflating requested returned => some (s.orCrash (balloonDeflate s requested returned env))
    | _ => none

def init (maxPages : Nat) : State :=
  ⟨rangeSetInit, maxPages, maxPages, maxPages, .idle, [], [], false⟩

def machine (maxPages : Nat) : Machine State Act := ⟨init maxPages, step⟩

/-- The frames in `PfnsBalloonedOut`. -/
def State.balloonedOut (s : State) : List Nat := elems pfnModulus s.pfnsBalloonedOut.entries

end XcWindows.Balloon
