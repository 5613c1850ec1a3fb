import Mathlib.Data.List.Nodup
import XcWindows.Lib.Machine
import XcWindows.Lib.Keyed
import XcWindows.Lib.Links
import XcWindows.V4v.Ring

/-!
# The cancel-safe queue

The queue callbacks of `xenv4v/csq.c`. A queued write IRP is on the pending queue and, through the
record stashed in its `DriverContext[1]`, on the chain of its destination; the list of destinations
is what the driver shows to the hypervisor in its notify. All of it is protected by the queue lock,
so an operation is one step. An IRP that is not queued belongs to whoever has it, and its flags and
length change freely; the buffers that hold its destination may change or go away between any two
operations, even while it is queued.

Pointers to IRPs are numbers. `none` is the outcome of a loop that does not end or of a `NULL` that
is followed.
-/

namespace XcWindows.V4v.Csq

open Lib
open Function (update update_of_ne update_self)

/-- The destination record of an IRP, `DriverContext[1]`; its other fields are not used. -/
structure IrpDest where
  dst : Addr
  nextIrp : Option Nat
deriving DecidableEq

structure Irp where
  /-- `DriverContext[0]` -/
  flags : BitVec 32
  /-- `DriverContext[1]` -/
  dest : Option IrpDest
  length : BitVec 32

/-- Where `V4vCsqGetDestination` finds the destination of an IRP. -/
structure Buffers where
  rstDst : Addr
  ctxSdst : Addr
  datagram : Addr

/-- `XENV4V_DESTINATION`, as an entry of `destList` -/
structure Destination where
  refc : Nat
  nextLength : BitVec 32
  nextIrp : Option Nat
  dst : Addr
deriving DecidableEq

structure Queue where
  irps : Nat → Irp
  buffers : Nat → Buffers
  pendingIrpQueue : List Nat
  pendingIrpCount : Int
  destList : List Destination
  destCount : Int
  /-- ghost: the destination of an IRP when it was last queued -/
  dstOf : Nat → Addr

inductive InsertStatus where
  | success
  | quotaExceeded
  | noMemory
deriving DecidableEq

abbrev peekStream : BitVec 32 := 0x00000002
abbrev peekSyn : BitVec 32 := 0x00100000
abbrev peekAck : BitVec 32 := 0x00200000
abbrev peekRst : BitVec 32 := 0x00400000
abbrev peekRead : BitVec 32 := 0x01000000
abbrev peekWrite : BitVec 32 := 0x02000000
abbrev peekStreamFlags : BitVec 32 := peekSyn ||| peekAck ||| peekRst

abbrev maxIrpCount : Int := 65536

/-- `flags & mask` is not zero -/
def Irp.has (irp : Irp) (mask : BitVec 32) : Bool := irp.flags &&& mask != 0

/-- `XENV4V_PAYLOAD_DATA_LEN`, with `sizeof (V4V_STREAM)` and `sizeof (V4V_DATAGRAM)` -/
def payloadDataLen (irp : Irp) : BitVec 32 :=
  if irp.has peekStreamFlags then 8
  else if irp.has peekStream then irp.length + 8
  else irp.length - 6

namespace Queue

variable (s : Queue)

def getDestination (i : Nat) : Addr :=
  if (s.irps i).has peekRst then (s.buffers i).rstDst
  else if (s.irps i).has peekStream then (s.buffers i).ctxSdst
  else (s.buffers i).datagram

def setDest (i : Nat) (dest : Option IrpDest) : Queue :=
  { s with irps := update s.irps i { s.irps i with dest } }

/-- Store to the `nextIrp` of an IRP's destination record. -/
def setNextIrp (i : Nat) (nextIrp : Option Nat) : Queue :=
  s.setDest i ((s.irps i).dest.map ({ · with nextIrp }))

/-- The loop of `V4vCsqChainIrp`: the last IRP of a chain. -/
def chainEnd (s : Queue) : Nat → Nat → Option Nat
  | 0, _ => none
  | fuel + 1, nextIrp =>
    (s.irps nextIrp).dest.bind fun idst =>
      match idst.nextIrp with
      | none => some nextIrp
      | some j => s.chainEnd fuel j

def chainIrp (xdst : Destination) (irp : Nat) (front : Bool) : Option (Queue × Destination) :=
  if front then
    some (s.setNextIrp irp xdst.nextIrp,
      { xdst with nextIrp := some irp, nextLength := payloadDataLen (s.irps irp) })
  else
    match xdst.nextIrp with
    | none => some (s, xdst)
    | some nextIrp =>
      (s.chainEnd s.pendingIrpQueue.length nextIrp).map fun last =>
        (s.setNextIrp last (some irp), xdst)

/-- The loop of `V4vCsqUnchainIrp`. -/
def unchainLoop (s : Queue) (xdst : Destination) (irp : Nat) :
    Nat → Option Nat → Nat → Option (Queue × Destination)
  | 0, _, _ => none
  | fuel + 1, irpLast, irpCurr =>
    (s.irps irpCurr).dest.bind fun idst =>
      if irp = irpCurr then
        match irpLast with
        | none =>
          some (s, { xdst with
            nextIrp := idst.nextIrp
            nextLength := (idst.nextIrp.map fun j => payloadDataLen (s.irps j)).getD xdst.nextLength })
        | some last => some (s.setNextIrp last idst.nextIrp, xdst)
      else
        match idst.nextIrp with
        | none => some (s, xdst)
        | some j => s.unchainLoop xdst irp fuel (some irpCurr) j

def unchainIrp (xdst : Destination) (irp : Nat) : Option (Queue × Destination) :=
  xdst.nextIrp.bind fun irpCurr => s.unchainLoop xdst irp s.pendingIrpQueue.length none irpCurr

/-- `V4vCsqLinkDestination`; the two allocations may fail. -/
def linkDestination (irp : Nat) (front alloc alloc' : Bool) : Option (Bool × Queue) :=
  if alloc then
    let dst := s.getDestination irp
    let t := s.setDest irp (some ⟨dst, none⟩)
    match t.destList.find? (·.dst = dst) with
    | some xdst =>
      (t.chainIrp { xdst with refc := xdst.refc + 1 } irp front).map fun (t, xdst) =>
        (true, { t with destList := putKey (·.dst) xdst t.destList })
    | none =>
      if alloc' then
        some (true, { t with
          destList := t.destList ++ [⟨1, payloadDataLen (t.irps irp), some irp, dst⟩]
          destCount := t.destCount + 1 })
      else some (false, t.setDest irp none)
  else some (false, s.setDest irp none)

def unlinkDestination (irp : Nat) : Option Queue :=
  (s.irps irp).dest.bind fun idst =>
    match s.destList.find? (·.dst = idst.dst) with
    | none => some s
    | some xdst =>
      (s.unchainIrp xdst irp).map fun (t, xdst) =>
        let t := t.setDest irp none
        let xdst := { xdst with refc := xdst.refc - 1 }
        if xdst.refc = 0 then
          { t with
            destList := t.destList.filter (·.dst ≠ xdst.dst)
            destCount := t.destCount - 1 }
        else { t with destList := putKey (·.dst) xdst t.destList }

def insertIrpEx (irp : Nat) (insertHead alloc alloc' : Bool) : Option (InsertStatus × Queue) :=
  if s.pendingIrpCount = maxIrpCount then some (.quotaExceeded, s)
  else
    (if (s.irps irp).has peekWrite then s.linkDestination irp insertHead alloc alloc'
      else some (true, s)).map fun (linked, t) =>
        if linked then
          (.success, { t with
            pendingIrpQueue :=
              if insertHead then irp :: t.pendingIrpQueue else t.pendingIrpQueue ++ [irp]
            pendingIrpCount := t.pendingIrpCount + 1
            dstOf := update t.dstOf irp (s.getDestination irp) })
        else (.noMemory, t)

def removeIrp (irp : Nat) : Option Queue :=
  (if (s.irps irp).has peekWrite then s.unlinkDestination irp else some s).map fun t =>
    { t with
      pendingIrpQueue := t.pendingIrpQueue.erase irp
      pendingIrpCount := t.pendingIrpCount - 1 }

end Queue

inductive Act where
  /-- whoever has an IRP that is not queued sets it up -/
  | prepare (irp : Nat) (flags length : BitVec 32)
  /-- the memory the destination is read from -/
  | memory (irp : Nat) (buffers : Buffers)
  | insert (irp : Nat) (insertHead alloc alloc' : Bool)
  | remove (irp : Nat)

def Queue.step (s : Queue) : Act → Option Queue
  | .prepare irp flags length =>
    if irp ∈ s.pendingIrpQueue then none
    else some { s with irps := update s.irps irp ⟨flags, none, length⟩ }
  | .memory irp buffers => some { s with buffers := update s.buffers irp buffers }
  | .insert irp insertHead alloc alloc' =>
    if irp ∈ s.pendingIrpQueue then none
    else (s.insertIrpEx irp insertHead alloc alloc').map (·.2)
  | .remove irp => if irp ∈ s.pendingIrpQueue then s.removeIrp irp else none

/-- The queue of a device that was just added, with whatever IRPs and buffers there are. -/
def csqMachine (irps : Nat → Irp) (buffers : Nat → Buffers) (dstOf : Nat → Addr) :
    Machine Queue Act where
  init := ⟨irps, buffers, [], 0, [], 0, dstOf⟩
  step := Queue.step

/-! ## The invariant -/

/-- Put `irp` at the head or at the tail. -/
def push (front : Bool) (irp : Nat) (l : List Nat) : List Nat :=
  if front then irp :: l else l ++ [irp]

namespace Queue

/-- The `nextIrp` in the destination record of an IRP. -/
def next (s : Queue) (i : Nat) : Option Nat := (s.irps i).dest.bind (·.nextIrp)

/-- The queued write IRPs for a destination. -/
def writesTo (s : Queue) (d : Addr) : List Nat :=
  s.pendingIrpQueue.filter fun i => (s.irps i).has peekWrite ∧ s.dstOf i = d

end Queue

/-- The record counts and chains the queued write IRPs for its destination, in queue order. -/
structure DestOk (s : Queue) (x : Destination) : Prop where
  chain : Seg s.next x.nextIrp (s.writesTo x.dst) none
  refc : x.refc = (s.writesTo x.dst).length
  used : s.writesTo x.dst ≠ []
  nextLength : ∀ i, (s.writesTo x.dst).head? = some i → x.nextLength = payloadDataLen (s.irps i)

structure QueueOk (s : Queue) : Prop where
  count : s.pendingIrpCount = s.pendingIrpQueue.length
  destCount : s.destCount = s.destList.length
  nodup : s.pendingIrpQueue.Nodup
  stash : ∀ i ∈ s.pendingIrpQueue, (s.irps i).has peekWrite = true →
    (s.irps i).dest.map (·.dst) = some (s.dstOf i)
  keys : (s.destList.map (·.dst)).Nodup
  known : ∀ i ∈ s.pendingIrpQueue, (s.irps i).has peekWrite = true →
    ∃ x ∈ s.destList, x.dst = s.dstOf i
  dests : ∀ x ∈ s.destList, DestOk s x

section Relink

variable {s t u : Queue} {x : Destination} {irp : Nat} {d : Addr}

theorem mem_writesTo : irp ∈ s.writesTo d ↔
    irp ∈ s.pendingIrpQueue ∧ (s.irps irp).has peekWrite = true ∧ s.dstOf irp = d := by
  simp [Queue.writesTo]

/-- `t` is `s` with other destination records. -/
structure Relinked (s t : Queue) : Prop where
  rest : t = { s with irps := t.irps }
  flags : ∀ j, (t.irps j).flags = (s.irps j).flags
  length : ∀ j, (t.irps j).length = (s.irps j).length

theorem Relinked.trans (h : Relinked s t) (h' : Relinked t u) : Relinked s u := by
  refine ⟨?_, fun j => (h'.flags j).trans (h.flags j), fun j => (h'.length j).trans (h.length j)⟩
  rw [h'.rest, h.rest]

theorem Relinked.queue (h : Relinked s t) : t.pendingIrpQueue = s.pendingIrpQueue := by
  rw [h.rest]

theorem Relinked.count (h : Relinked s t) : t.pendingIrpCount = s.pendingIrpCount := by
  rw [h.rest]

theorem Relinked.destList (h : Relinked s t) : t.destList = s.destList := by
  rw [h.rest]

theorem Relinked.destCount (h : Relinked s t) : t.destCount = s.destCount := by
  rw [h.rest]

theorem Relinked.dstOf (h : Relinked s t) : t.dstOf = s.dstOf := by
  rw [h.rest]

theorem relinked_setDest (s : Queue) (i : Nat) (dest : Option IrpDest) :
    Relinked s (s.setDest i dest) := by
  refine ⟨rfl, fun j => ?_, fun j => ?_⟩
  all_goals
    by_cases e : j = i
    · subst e; simp [Queue.setDest]
    · simp [Queue.setDest, e]

theorem relinked_setNextIrp (s : Queue) (i : Nat) (o : Option Nat) :
    Relinked s (s.setNextIrp i o) :=
  relinked_setDest _ _ _

theorem Relinked.has (h : Relinked s t) (j : Nat) (mask : BitVec 32) :
    (t.irps j).has mask = (s.irps j).has mask := by
  rw [Irp.has, Irp.has, h.flags]

theorem Relinked.payload (h : Relinked s t) (j : Nat) :
    payloadDataLen (t.irps j) = payloadDataLen (s.irps j) := by
  unfold payloadDataLen
  rw [h.has, h.has, h.length]

theorem setNextIrp_next {o : Option Nat} (h : (s.irps irp).dest ≠ none) :
    (s.setNextIrp irp o).next = update s.next irp o := by
  obtain ⟨idst, hd⟩ := Option.ne_none_iff_exists'.mp h
  funext j
  by_cases e : j = irp
  · subst e
    simp [Queue.next, Queue.setNextIrp, Queue.setDest, hd]
  · simp [Queue.next, Queue.setNextIrp, Queue.setDest, e]

theorem Relinked.writesTo (h : Relinked s t) (d : Addr) : t.writesTo d = s.writesTo d := by
  unfold Queue.writesTo
  rw [h.queue, h.dstOf]
  refine List.filter_congr fun j _ => ?_
  rw [h.has]

/-- A record whose IRPs and their links stay as they are. -/
theorem DestOk.congr (h : DestOk s x) (hw : t.writesTo x.dst = s.writesTo x.dst)
    (hn : ∀ i ∈ s.writesTo x.dst, t.next i = s.next i)
    (hp : ∀ i ∈ s.writesTo x.dst, payloadDataLen (t.irps i) = payloadDataLen (s.irps i)) :
    DestOk t x := by
  refine ⟨?_, ?_, ?_, fun i hi => ?_⟩
  · rw [hw]; exact h.chain.congr hn
  · rw [hw]; exact h.refc
  · rw [hw]; exact h.used
  · rw [hw] at hi
    rw [hp i (List.mem_of_mem_head? hi)]
    exact h.nextLength i hi

theorem dest_next {idst : IrpDest} (h : (s.irps irp).dest = some idst) :
    s.next irp = idst.nextIrp := by
  rw [Queue.next, h]
  rfl

/-- The loop finds the last IRP of the chain. -/
theorem chainEnd_eq {as : List Nat} {l a fuel : Nat} (h : Seg s.next (some a) (as ++ [l]) none)
    (hd : ∀ i ∈ as ++ [l], (s.irps i).dest ≠ none) (hf : (as ++ [l]).length ≤ fuel) :
    s.chainEnd fuel a = some l := by
  induction as generalizing a fuel with
  | nil =>
    obtain ⟨e, hn⟩ := h
    cases e
    obtain ⟨idst, hi⟩ := Option.ne_none_iff_exists'.mp (hd l (by simp))
    rw [dest_next hi] at hn
    cases fuel with
    | zero => simp at hf
    | succ fuel =>
      unfold Queue.chainEnd
      rw [hi, Option.bind_some, show idst.nextIrp = none from hn]
  | cons b bs ih =>
    obtain ⟨e, hn⟩ := h
    cases e
    obtain ⟨idst, hi⟩ := Option.ne_none_iff_exists'.mp (hd b (by simp))
    rw [dest_next hi] at hn
    cases fuel with
    | zero => simp at hf
    | succ fuel =>
      unfold Queue.chainEnd
      rw [hi, Option.bind_some]
      cases hj : idst.nextIrp with
      | none =>
        rw [hj] at hn
        cases bs <;> cases hn.1
      | some j =>
        rw [hj] at hn
        refine ih hn (fun i hm => hd i (List.mem_cons_of_mem _ hm)) ?_
        simp only [List.cons_append, List.length_cons] at hf
        omega

/-- `irp` is linked out after `last`, or from the head. -/
def Queue.unchained (s : Queue) (x : Destination) (irp : Nat) : Option Nat → Queue × Destination
  | none =>
    (s, { x with
      nextIrp := s.next irp
      nextLength := ((s.next irp).map fun j => payloadDataLen (s.irps j)).getD x.nextLength })
  | some last => (s.setNextIrp last (s.next irp), x)

theorem unchainLoop_eq {as bs : List Nat} {a fuel : Nat} (last : Option Nat)
    (h : Seg s.next (some a) (as ++ irp :: bs) none) (hni : irp ∉ as)
    (hd : ∀ i ∈ as ++ irp :: bs, (s.irps i).dest ≠ none) (hf : as.length + 1 ≤ fuel) :
    s.unchainLoop x irp fuel last a = some (s.unchained x irp (as.getLast?.or last)) := by
  induction as generalizing a fuel last with
  | nil =>
    obtain ⟨e, -⟩ := h
    cases e
    obtain ⟨idst, hi⟩ := Option.ne_none_iff_exists'.mp (hd irp (by simp))
    cases fuel with
    | zero => simp at hf
    | succ fuel =>
      unfold Queue.unchainLoop
      rw [hi, Option.bind_some, if_pos rfl, ← dest_next hi]
      cases last <;> rfl
  | cons b bs' ih =>
    obtain ⟨e, hn⟩ := h
    cases e
    obtain ⟨idst, hi⟩ := Option.ne_none_iff_exists'.mp (hd b (by simp))
    rw [dest_next hi] at hn
    rw [List.mem_cons, not_or] at hni
    cases fuel with
    | zero => simp at hf
    | succ fuel =>
      unfold Queue.unchainLoop
      rw [hi, Option.bind_some, if_neg hni.1]
      cases hj : idst.nextIrp with
      | none =>
        rw [hj] at hn
        cases bs' <;> cases hn.1
      | some j =>
        rw [hj] at hn
        simp only [List.length_cons] at hf
        refine (ih _ hn hni.2 (fun i hm => hd i (List.mem_cons_of_mem _ hm)) (by omega)).trans ?_
        rw [List.getLast?_cons]
        cases bs'.getLast? <;> rfl

/-- The chain `c` of `x` has become the chain `c'` of `x'`, by stores to the links of IRPs in
`irps`. -/
structure Rechained (s u : Queue) (x x' : Destination) (irps c' : List Nat) : Prop where
  relinked : Relinked s u
  dst : x'.dst = x.dst
  refc : x'.refc = x.refc
  chain : Seg u.next x'.nextIrp c' none
  nextLength : ∀ i, c'.head? = some i → x'.nextLength = payloadDataLen (s.irps i)
  others : ∀ j, j ∉ irps → u.irps j = s.irps j
  stash : ∀ j, (u.irps j).dest.map (·.dst) = (s.irps j).dest.map (·.dst)

theorem setNextIrp_others {o : Option Nat} {irps : List Nat} (hm : irp ∈ irps) {j : Nat}
    (hj : j ∉ irps) : (s.setNextIrp irp o).irps j = s.irps j := by
  have hne : j ≠ irp := by
    rintro rfl
    exact hj hm
  simp [Queue.setNextIrp, Queue.setDest, hne]

theorem setNextIrp_stash (s : Queue) (irp : Nat) (o : Option Nat) (j : Nat) :
    ((s.setNextIrp irp o).irps j).dest.map (·.dst) = (s.irps j).dest.map (·.dst) := by
  by_cases e : j = irp
  · subst e
    cases hd : (s.irps j).dest <;> simp [Queue.setNextIrp, Queue.setDest, hd]
  · simp [Queue.setNextIrp, Queue.setDest, e]

variable {c : List Nat}

theorem chainIrp_spec (front : Bool) (hc : Seg s.next x.nextIrp c none) (hne : c ≠ [])
    (hnd : c.Nodup) (hd : ∀ i ∈ c, (s.irps i).dest ≠ none)
    (hlen : c.length ≤ s.pendingIrpQueue.length) (hi : irp ∉ c)
    (hin : (s.irps irp).dest = some ⟨d, none⟩)
    (hl : ∀ i, c.head? = some i → x.nextLength = payloadDataLen (s.irps i)) :
    ∃ u x', s.chainIrp x irp front = some (u, x') ∧
      Rechained s u x x' (irp :: c) (push front irp c) := by
  have hin' : (s.irps irp).dest ≠ none := by simp [hin]
  cases front with
  | true =>
    refine ⟨_, _, rfl, relinked_setNextIrp .., rfl, rfl, ?_, ?_,
      fun j hj => setNextIrp_others List.mem_cons_self hj, setNextIrp_stash s irp _⟩
    · rw [setNextIrp_next hin']
      refine ⟨rfl, ?_⟩
      rw [update_self]
      refine hc.congr fun j hj => update_of_ne ?_ _ _
      rintro rfl
      exact hi hj
    · intro i hh
      cases hh
      rfl
  | false =>
    obtain ⟨as, l, rfl⟩ := (List.eq_nil_or_concat' c).resolve_left hne
    cases hx : x.nextIrp with
    | none =>
      rw [hx] at hc
      cases as <;> cases hc.1
    | some a =>
      rw [hx] at hc
      have hlast := chainEnd_eq hc hd hlen
      refine ⟨_, _, ?_, relinked_setNextIrp s l (some irp), rfl, rfl, ?_, ?_,
        fun j hj => setNextIrp_others ?_ hj, setNextIrp_stash s l _⟩
      · simp only [Queue.chainIrp, Bool.false_eq_true, if_false, hx, hlast, Option.map_some]
      · rw [setNextIrp_next (hd l (by simp)), hx]
        exact hc.snoc hnd hi (dest_next hin)
      · intro i hh
        apply hl i
        cases as with
        | nil => exact hh
        | cons b bs => exact hh
      · simp

theorem unchainIrp_spec (hc : Seg s.next x.nextIrp c none) (hnd : c.Nodup)
    (hd : ∀ i ∈ c, (s.irps i).dest ≠ none) (hlen : c.length ≤ s.pendingIrpQueue.length)
    (hi : irp ∈ c) (hl : ∀ i, c.head? = some i → x.nextLength = payloadDataLen (s.irps i)) :
    ∃ u x', s.unchainIrp x irp = some (u, x') ∧ Rechained s u x x' c (c.erase irp) := by
  obtain ⟨as, bs, rfl, hni⟩ := List.eq_append_cons_of_mem hi
  have hfuel : as.length + 1 ≤ s.pendingIrpQueue.length := by
    simp only [List.length_append, List.length_cons] at hlen
    omega
  rw [List.erase_append_right _ hni, List.erase_cons_head]
  cases hx : x.nextIrp with
  | none =>
    rw [hx] at hc
    cases as <;> cases hc.1
  | some a =>
    rw [hx] at hc
    have hloop := unchainLoop_eq (x := x) none hc hni hd hfuel
    rw [Option.or_none] at hloop
    refine ⟨_, _, by rw [Queue.unchainIrp, hx, Option.bind_some, hloop], ?_⟩
    rcases List.eq_nil_or_concat' as with rfl | ⟨as, l, rfl⟩
    · obtain ⟨-, hc⟩ := hc
      refine ⟨⟨rfl, fun _ => rfl, fun _ => rfl⟩, rfl, rfl, hc, fun i hh => ?_, fun _ _ => rfl,
        fun _ => rfl⟩
      cases bs with
      | nil => cases hh
      | cons b bs =>
        cases hh
        show ((s.next irp).map fun j => payloadDataLen (s.irps j)).getD x.nextLength = _
        rw [hc.1]
        rfl
    · rw [List.getLast?_append_of_ne_nil _ (by simp), List.getLast?_singleton]
      refine ⟨relinked_setNextIrp .., rfl, rfl, ?_, fun i hh => hl i ?_,
        fun j hj => setNextIrp_others (by simp) hj, setNextIrp_stash s l _⟩
      · show Seg (s.setNextIrp l (s.next irp)).next x.nextIrp _ none
        rw [setNextIrp_next (hd l (by simp)), hx, List.append_assoc]
        rw [List.append_assoc] at hc hnd
        exact hc.unlink hnd
      · cases as <;> exact hh

end Relink

section Operations

variable {s t u : Queue} {x : Destination} {irp : Nat} {d : Addr}

theorem QueueOk.dest_ne (ho : QueueOk s) (hi : irp ∈ s.writesTo d) : (s.irps irp).dest ≠ none := by
  obtain ⟨hq, hw, -⟩ := mem_writesTo.mp hi
  intro e
  have := ho.stash irp hq hw
  rw [e] at this
  cases this

theorem writesTo_length_le (s : Queue) (d : Addr) :
    (s.writesTo d).length ≤ s.pendingIrpQueue.length :=
  List.length_filter_le _ _

theorem push_length (front : Bool) (irp : Nat) (l : List Nat) :
    (push front irp l).length = l.length + 1 := by
  cases front <;> simp [push]

theorem mem_push {front : Bool} {irp j : Nat} {l : List Nat} :
    j ∈ push front irp l ↔ j = irp ∨ j ∈ l := by
  cases front <;> simp [push, or_comm]

theorem push_nodup {front : Bool} {l : List Nat} (h : l.Nodup) (hi : irp ∉ l) :
    (push front irp l).Nodup := by
  cases front with
  | true => exact List.nodup_cons.mpr ⟨hi, h⟩
  | false =>
    rw [push, if_neg (by simp), List.nodup_append]
    refine ⟨h, List.nodup_singleton _, fun a ha b hb => ?_⟩
    rw [List.mem_singleton.mp hb]
    rintro rfl
    exact hi ha

theorem push_filter (front : Bool) (irp : Nat) (l : List Nat) (p : Nat → Bool) :
    (push front irp l).filter p = if p irp then push front irp (l.filter p) else l.filter p := by
  cases front <;> by_cases hp : p irp <;> simp [push, List.filter_append, hp]

/-- The queue with `irp` put on it. -/
def Queue.pushed (s : Queue) (front : Bool) (irp : Nat) (d : Addr) : Queue :=
  { s with
    pendingIrpQueue := push front irp s.pendingIrpQueue
    pendingIrpCount := s.pendingIrpCount + 1
    dstOf := update s.dstOf irp d }

theorem writesTo_pushed {front : Bool} (hi : irp ∉ s.pendingIrpQueue) (d d' : Addr) :
    (s.pushed front irp d).writesTo d' =
      if (s.irps irp).has peekWrite ∧ d = d' then push front irp (s.writesTo d')
      else s.writesTo d' := by
  have hkeep : s.pendingIrpQueue.filter
      (fun i => (s.irps i).has peekWrite ∧ update s.dstOf irp d i = d') =
      s.writesTo d' := by
    refine List.filter_congr fun j hj => ?_
    have hne : j ≠ irp := by
      rintro rfl
      exact hi hj
    rw [update_of_ne hne]
  unfold Queue.writesTo Queue.pushed
  simp only [push_filter, hkeep, update_self, decide_eq_true_eq]
  rfl

theorem QueueOk.enqueue {front : Bool} {l : List Destination} {n : Int} (ho : QueueOk s)
    (hi : irp ∉ s.pendingIrpQueue) (hr : Relinked s t)
    (hst : ∀ j, j ≠ irp → (t.irps j).dest.map (·.dst) = (s.irps j).dest.map (·.dst))
    (hself : (s.irps irp).has peekWrite = true →
      (t.irps irp).dest.map (·.dst) = some d ∧ ∃ x ∈ l, x.dst = d)
    (hn : n = l.length) (hkeys : (l.map (·.dst)).Nodup)
    (hold : ∀ x ∈ s.destList, ∃ x' ∈ l, x'.dst = x.dst)
    (hl : ∀ x ∈ l, DestOk (t.pushed front irp d) x) :
    QueueOk ({ t with destList := l, destCount := n }.pushed front irp d) := by
  have hq : ∀ j ∈ push front irp t.pendingIrpQueue, j ≠ irp → j ∈ s.pendingIrpQueue := by
    intro j hj hne
    rw [hr.queue] at hj
    exact (mem_push.mp hj).resolve_left hne
  refine ⟨?_, hn, ?_, fun j hj hw => ?_, hkeys, fun j hj hw => ?_, fun x hx => ?_⟩
  · show t.pendingIrpCount + 1 = ((push front irp t.pendingIrpQueue).length : Int)
    rw [push_length, hr.count, hr.queue, ho.count]
    push_cast
    rfl
  · show (push front irp t.pendingIrpQueue).Nodup
    rw [hr.queue]
    exact push_nodup ho.nodup hi
  · have hw' := (hr.has j peekWrite).symm.trans hw
    show (t.irps j).dest.map (·.dst) = some (update t.dstOf irp d j)
    by_cases e : j = irp
    · subst e
      rw [update_self]
      exact (hself hw').1
    · rw [update_of_ne e, hst j e, hr.dstOf]
      exact ho.stash j (hq j hj e) hw'
  · have hw' := (hr.has j peekWrite).symm.trans hw
    show ∃ x ∈ l, x.dst = update t.dstOf irp d j
    by_cases e : j = irp
    · subst e
      rw [update_self]
      exact (hself hw').2
    · rw [update_of_ne e, hr.dstOf]
      obtain ⟨x, hx, hd⟩ := ho.known j (hq j hj e) hw'
      obtain ⟨x', hx', hd'⟩ := hold x hx
      exact ⟨x', hx', hd'.trans hd⟩
  · have h := hl x hx
    exact ⟨h.chain, h.refc, h.used, h.nextLength⟩

/-- The record of another destination. -/
theorem DestOk.enqueueOther {front : Bool} (hx : DestOk s x) (hi : irp ∉ s.pendingIrpQueue)
    (hr : Relinked s t) (hne : ¬ ((s.irps irp).has peekWrite = true ∧ d = x.dst))
    (hn : ∀ j ∈ s.writesTo x.dst, t.irps j = s.irps j) :
    DestOk (t.pushed front irp d) x := by
  refine hx.congr ?_ (fun j hj => ?_) fun j _ => hr.payload j
  · rw [writesTo_pushed (by rw [hr.queue]; exact hi), hr.has, if_neg hne, hr.writesTo]
  · show (t.irps j).dest.bind _ = (s.irps j).dest.bind _
    rw [hn j hj]

theorem setDest_irps_ne {dest : Option IrpDest} {j : Nat} (hne : j ≠ irp) :
    (s.setDest irp dest).irps j = s.irps j := by
  simp [Queue.setDest, hne]

theorem setDest_dest {dest : Option IrpDest} : ((s.setDest irp dest).irps irp).dest = dest := by
  simp [Queue.setDest]

theorem not_mem_writesTo (hi : irp ∉ s.pendingIrpQueue) : irp ∉ s.writesTo d :=
  fun hm => hi (mem_writesTo.mp hm).1

/-- A new record for a destination nobody has written to yet. -/
theorem QueueOk.linkNew (front : Bool) (ho : QueueOk s) (hi : irp ∉ s.pendingIrpQueue)
    (hw : (s.irps irp).has peekWrite = true) (hnew : ∀ x ∈ s.destList, x.dst ≠ d)
    (ht : t = s.setDest irp (some ⟨d, none⟩)) :
    QueueOk ({ t with
      destList := t.destList ++ [Destination.mk 1 (payloadDataLen (t.irps irp)) (some irp) d]
      destCount := t.destCount + 1 }.pushed front irp d) := by
  have hst : Relinked s t := ht ▸ relinked_setDest ..
  have htj : ∀ j, j ≠ irp → t.irps j = s.irps j := fun j hne => ht ▸ setDest_irps_ne hne
  have hti : (t.irps irp).dest = some ⟨d, none⟩ := ht ▸ setDest_dest
  refine ho.enqueue hi hst (fun j hne => by rw [htj j hne])
    (fun _ => ⟨by rw [hti]; rfl, _, List.mem_append_right _ (List.mem_singleton_self _), rfl⟩)
    ?_ ?_ (fun x hx => ⟨x, List.mem_append_left _ (hst.destList ▸ hx), rfl⟩) fun x hx => ?_
  · rw [hst.destCount, hst.destList, ho.destCount]
    simp
  · rw [hst.destList, List.map_append, List.nodup_append]
    refine ⟨ho.keys, List.nodup_singleton _, fun a ha b hb => ?_⟩
    obtain ⟨x, hx, rfl⟩ := List.mem_map.mp ha
    rw [List.mem_singleton.mp hb]
    exact hnew x hx
  · rw [hst.destList] at hx
    rcases List.mem_append.mp hx with hx | hx
    · refine (ho.dests x hx).enqueueOther hi hst (fun hc => hnew x hx hc.2.symm) fun j hj => htj j ?_
      rintro rfl
      exact not_mem_writesTo hi hj
    · rw [List.mem_singleton.mp hx]
      have hnil : s.writesTo d = [] := by
        refine List.eq_nil_iff_forall_not_mem.mpr fun j hj => ?_
        obtain ⟨hq, hjw, hjd⟩ := mem_writesTo.mp hj
        obtain ⟨x, hx, hxd⟩ := ho.known j hq hjw
        exact hnew x hx (hxd.trans hjd)
      have hto : (t.pushed front irp d).writesTo d = [irp] := by
        rw [writesTo_pushed (by rw [hst.queue]; exact hi), hst.has, if_pos ⟨hw, rfl⟩,
          hst.writesTo, hnil]
        cases front <;> rfl
      refine ⟨?_, by rw [hto]; rfl, by rw [hto]; simp, fun j hj => ?_⟩
      · rw [hto]
        refine ⟨rfl, ?_⟩
        show (t.irps irp).dest.bind (·.nextIrp) = none
        rw [hti]
        rfl
      · rw [hto] at hj
        cases hj
        rfl

/-- The record of the destination takes one more IRP. -/
theorem QueueOk.linkFound (front : Bool) (ho : QueueOk s) (hi : irp ∉ s.pendingIrpQueue)
    (hw : (s.irps irp).has peekWrite = true) (hf : s.destList.find? (·.dst = d) = some x)
    (ht : t = s.setDest irp (some ⟨d, none⟩)) :
    ∃ u x', t.chainIrp { x with refc := x.refc + 1 } irp front = some (u, x') ∧ Relinked s u ∧
      QueueOk ({ u with destList := putKey (·.dst) x' u.destList }.pushed front irp d) := by
  have hst : Relinked s t := ht ▸ relinked_setDest ..
  have htj : ∀ j, j ≠ irp → t.irps j = s.irps j := fun j hne => ht ▸ setDest_irps_ne hne
  have hti : (t.irps irp).dest = some ⟨d, none⟩ := ht ▸ setDest_dest
  obtain ⟨hxd, as, bs, hsplit⟩ := split_of_find? Destination.dst hf
  have hkeys := ho.keys
  rw [hsplit] at hkeys
  have hok := ho.dests x (hsplit ▸ by simp)
  have hne : ∀ d', ∀ j ∈ s.writesTo d', j ≠ irp := by
    rintro d' j hj rfl
    exact not_mem_writesTo hi hj
  have hc : Seg t.next x.nextIrp (s.writesTo x.dst) none :=
    hok.chain.congr fun j hj => by simp only [Queue.next, htj j (hne _ j hj)]
  obtain ⟨u, x', hch, R⟩ := chainIrp_spec (x := { x with refc := x.refc + 1 }) front hc hok.used
    (ho.nodup.filter _) (fun j hj => by rw [htj j (hne _ j hj)]; exact ho.dest_ne hj)
    (by rw [hst.queue]; exact writesTo_length_le ..) (not_mem_writesTo hi) hti
    (fun i hh => by rw [hst.payload]; exact hok.nextLength i hh)
  have hsu := hst.trans R.relinked
  refine ⟨u, x', hch, hsu, ?_⟩
  have hput : putKey (·.dst) x' u.destList = as ++ x' :: bs := by
    rw [hsu.destList, hsplit]
    exact putKey_split hkeys R.dst
  rw [hput]
  have hmap : (as ++ x' :: bs).map (·.dst) = (as ++ x :: bs).map (·.dst) := by
    simp [R.dst]
  refine ho.enqueue hi hsu (fun j hj => by rw [R.stash, htj j hj])
    (fun _ => ⟨by rw [R.stash, hti]; rfl, x', by simp, R.dst.trans hxd⟩) ?_ (hmap ▸ hkeys)
    (fun y hy => ?_) fun y hy => ?_
  · rw [hsu.destCount, ho.destCount, hsplit]
    simp
  · have hm : y.dst ∈ (as ++ x' :: bs).map (·.dst) := by
      rw [hmap, ← hsplit]
      exact List.mem_map_of_mem hy
    exact List.mem_map.mp hm
  · by_cases hy' : y.dst = x.dst
    · -- the one record of `d`
      have : y = x' := List.inj_on_of_nodup_map (hmap ▸ hkeys) hy (by simp) (hy'.trans R.dst.symm)
      subst this
      have hto : (u.pushed front irp d).writesTo y.dst = push front irp (s.writesTo x.dst) := by
        rw [hy', writesTo_pushed (by rw [hsu.queue]; exact hi), hsu.has, if_pos ⟨hw, hxd.symm⟩,
          hsu.writesTo]
      refine ⟨?_, ?_, ?_, fun j hj => ?_⟩
      · rw [hto]; exact R.chain
      · rw [hto, push_length, R.refc, ← hok.refc]
      · rw [hto]
        intro e
        have := push_length front irp (s.writesTo x.dst)
        rw [e] at this
        cases this
      · rw [hto] at hj
        exact (R.nextLength j hj).trans (R.relinked.payload j).symm
    · have hys : y ∈ s.destList := by
        rw [hsplit]
        rcases List.mem_append.mp hy with hy | hy
        · exact List.mem_append_left _ hy
        · rcases List.mem_cons.mp hy with rfl | hy
          · exact absurd R.dst hy'
          · exact List.mem_append_right _ (List.mem_cons_of_mem _ hy)
      refine (ho.dests y hys).enqueueOther hi hsu (fun hc => hy' (hc.2.symm.trans hxd.symm))
        fun j hj => ?_
      rw [R.others j, htj j (hne _ j hj)]
      rw [List.mem_cons, not_or]
      refine ⟨hne _ j hj, fun hj' => hy' ?_⟩
      rw [← (mem_writesTo.mp hj).2.2, (mem_writesTo.mp hj').2.2]

/-- `V4vCsqLinkDestination` fails and leaves everything as it is, but for the IRP's own record, or
links the IRP as it is going to be queued. -/
theorem QueueOk.linkDestination (front alloc alloc' : Bool) (ho : QueueOk s)
    (hi : irp ∉ s.pendingIrpQueue) (hw : (s.irps irp).has peekWrite = true) :
    ∃ linked t, s.linkDestination irp front alloc alloc' = some (linked, t) ∧
      (linked = false → t = s.setDest irp none) ∧
      (linked = true → t.pendingIrpQueue = s.pendingIrpQueue ∧
        QueueOk (t.pushed front irp (s.getDestination irp))) := by
  cases alloc with
  | false => exact ⟨false, _, rfl, fun _ => rfl, nofun⟩
  | true =>
    generalize hd : s.getDestination irp = d
    generalize ht : s.setDest irp (some ⟨d, none⟩) = t
    have hst : Relinked s t := ht ▸ relinked_setDest ..
    simp only [Queue.linkDestination, if_true, hd, ht]
    cases hf : t.destList.find? (·.dst = d) with
    | some x =>
      rw [hst.destList] at hf
      obtain ⟨u, x', hch, hsu, hok⟩ := ho.linkFound front hi hw hf ht.symm
      dsimp only
      rw [hch]
      exact ⟨true, _, rfl, nofun, fun _ => ⟨hsu.queue, hok⟩⟩
    | none =>
      cases alloc' with
      | true =>
        rw [hst.destList] at hf
        have hnew : ∀ x ∈ s.destList, x.dst ≠ d := by simpa using hf
        exact ⟨true, _, rfl, nofun, fun _ => ⟨hst.queue, ho.linkNew front hi hw hnew ht.symm⟩⟩
      | false =>
        refine ⟨false, _, rfl, fun _ => ?_, nofun⟩
        simp [← ht, Queue.setDest]

/-- The queue with `irp` taken off. -/
def Queue.popped (s : Queue) (irp : Nat) : Queue :=
  { s with
    pendingIrpQueue := s.pendingIrpQueue.erase irp
    pendingIrpCount := s.pendingIrpCount - 1 }

theorem writesTo_popped (hnd : s.pendingIrpQueue.Nodup) (irp : Nat) (d : Addr) :
    (s.popped irp).writesTo d = (s.writesTo d).erase irp := by
  show (s.pendingIrpQueue.erase irp).filter _ = (s.pendingIrpQueue.filter _).erase irp
  rw [hnd.erase_eq_filter, (hnd.filter _).erase_eq_filter, List.filter_filter, List.filter_filter]
  refine List.filter_congr fun j _ => ?_
  rw [Bool.and_comm]
  rfl

/-- `irp` is no longer linked in `t`, with the records `l`, and goes off the queue. -/
theorem QueueOk.dequeue {l : List Destination} {n : Int} (ho : QueueOk s)
    (hi : irp ∈ s.pendingIrpQueue) (hr : Relinked s t)
    (hst : ∀ j, j ≠ irp → (t.irps j).dest.map (·.dst) = (s.irps j).dest.map (·.dst))
    (hn : n = l.length) (hkeys : (l.map (·.dst)).Nodup)
    (hold : ∀ x ∈ s.destList, (∃ j ∈ s.writesTo x.dst, j ≠ irp) → ∃ x' ∈ l, x'.dst = x.dst)
    (hl : ∀ x ∈ l, DestOk (t.popped irp) x) :
    QueueOk ({ t with destList := l, destCount := n }.popped irp) := by
  have hq : ∀ j ∈ t.pendingIrpQueue.erase irp, j ≠ irp ∧ j ∈ s.pendingIrpQueue := by
    intro j hj
    rw [hr.queue] at hj
    exact ho.nodup.mem_erase_iff.mp hj
  refine ⟨?_, hn, ?_, fun j hj hw => ?_, hkeys, fun j hj hw => ?_, fun x hx => ?_⟩
  · show t.pendingIrpCount - 1 = ((t.pendingIrpQueue.erase irp).length : Int)
    have := List.length_pos_of_mem hi
    rw [hr.queue, List.length_erase_of_mem hi, hr.count, ho.count]
    omega
  · show (t.pendingIrpQueue.erase irp).Nodup
    rw [hr.queue]
    exact ho.nodup.erase irp
  · obtain ⟨hne, hj⟩ := hq j hj
    show (t.irps j).dest.map (·.dst) = some (t.dstOf j)
    rw [hst j hne, hr.dstOf]
    exact ho.stash j hj ((hr.has j peekWrite).symm.trans hw)
  · obtain ⟨hne, hj⟩ := hq j hj
    have hw' := (hr.has j peekWrite).symm.trans hw
    obtain ⟨x, hx, hd⟩ := ho.known j hj hw'
    obtain ⟨x', hx', hd'⟩ := hold x hx ⟨j, mem_writesTo.mpr ⟨hj, hw', hd.symm⟩, hne⟩
    refine ⟨x', hx', hd'.trans (hd.trans ?_)⟩
    show s.dstOf j = t.dstOf j
    rw [hr.dstOf]
  · have h := hl x hx
    exact ⟨h.chain, h.refc, h.used, h.nextLength⟩

/-- The record of another destination. -/
theorem DestOk.dequeueOther (hx : DestOk s x) (hnd : s.pendingIrpQueue.Nodup) (hr : Relinked s t)
    (hi : irp ∉ s.writesTo x.dst) (hn : ∀ j ∈ s.writesTo x.dst, t.irps j = s.irps j) :
    DestOk (t.popped irp) x := by
  refine hx.congr ?_ (fun j hj => ?_) fun j _ => hr.payload j
  · rw [writesTo_popped (by rw [hr.queue]; exact hnd), hr.writesTo, List.erase_of_not_mem hi]
  · show (t.irps j).dest.bind _ = (s.irps j).dest.bind _
    rw [hn j hj]

/-- `V4vCsqUnlinkDestination` finds the record and the IRP on its chain. -/
theorem QueueOk.unlinkDestination (ho : QueueOk s) (hi : irp ∈ s.pendingIrpQueue)
    (hw : (s.irps irp).has peekWrite = true) :
    ∃ t, s.unlinkDestination irp = some t ∧ t.pendingIrpQueue = s.pendingIrpQueue ∧
      QueueOk (t.popped irp) := by
  have hstash := ho.stash irp hi hw
  obtain ⟨idst, hdest, hid⟩ := Option.map_eq_some_iff.mp hstash
  obtain ⟨x, hx, hxd⟩ := ho.known irp hi hw
  obtain ⟨as, bs, hsplit⟩ := List.append_of_mem hx
  have hkeys := ho.keys
  rw [hsplit] at hkeys
  have hfind : s.destList.find? (·.dst = idst.dst) = some x := by
    rw [hid, ← hxd, hsplit]
    exact find?_key hkeys
  have hok := ho.dests x hx
  have hic : irp ∈ s.writesTo x.dst := mem_writesTo.mpr ⟨hi, hw, hxd.symm⟩
  obtain ⟨u, x', hun, R⟩ := unchainIrp_spec hok.chain (ho.nodup.filter _) (fun j hj => ho.dest_ne hj)
    (writesTo_length_le ..) hic hok.nextLength
  simp only [Queue.unlinkDestination, hdest, Option.bind_some, hfind, hun, Option.map_some]
  set v := u.setDest irp none with hv
  have hr : Relinked s v := R.relinked.trans (relinked_setDest ..)
  have hvj : ∀ j, j ≠ irp → v.irps j = u.irps j := fun j hne => setDest_irps_ne hne
  have hst : ∀ j, j ≠ irp → (v.irps j).dest.map (·.dst) = (s.irps j).dest.map (·.dst) := by
    intro j hne
    rw [hvj j hne, R.stash]
  have hlist : v.destList = as ++ x :: bs := by rw [hr.destList, hsplit]
  have hcount : v.destCount = (as ++ x :: bs).length := by
    rw [hr.destCount, ho.destCount, hsplit]
  have hto : (v.popped irp).writesTo x.dst = (s.writesTo x.dst).erase irp := by
    rw [writesTo_popped (by rw [hr.queue]; exact ho.nodup), hr.writesTo]
  have hother : ∀ y ∈ s.destList, y.dst ≠ x.dst → DestOk (v.popped irp) y := by
    intro y hy hne
    have hout : ∀ j ∈ s.writesTo y.dst, j ∉ s.writesTo x.dst := by
      intro j hj hj'
      rw [← (mem_writesTo.mp hj).2.2, (mem_writesTo.mp hj').2.2] at hne
      exact hne rfl
    refine (ho.dests y hy).dequeueOther ho.nodup hr (fun hm => hout irp hm hic) fun j hj => ?_
    rw [hvj j, R.others j (hout j hj)]
    rintro rfl
    exact hout j hj hic
  have hne : ∀ y, y ∈ as ++ bs → y ∈ s.destList ∧ y.dst ≠ x.dst := by
    intro y hy
    have hm := List.mem_filter.mp (filter_key_split hkeys ▸ hy)
    exact ⟨hsplit ▸ hm.1, by simpa using hm.2⟩
  have hlen : ((s.writesTo x.dst).erase irp).length = x'.refc - 1 := by
    rw [List.length_erase_of_mem hic, R.refc, hok.refc]
  split
  · next hz =>
    -- the last IRP of the destination: its record goes away
    have hnil : (s.writesTo x.dst).erase irp = [] := List.length_eq_zero_iff.mp (hlen.trans hz)
    refine ⟨_, rfl, hr.queue, ?_⟩
    have hfil : v.destList.filter (·.dst ≠ x'.dst) = as ++ bs := by
      rw [R.dst, hlist]
      exact filter_key_split hkeys
    rw [hfil]
    refine ho.dequeue hi hr hst ?_ ?_ (fun y hy hj => ?_) fun y hy => hother y (hne y hy).1 (hne y hy).2
    · rw [hcount]
      simp only [List.length_append, List.length_cons]
      omega
    · exact hkeys.sublist (List.Sublist.map _ (List.Sublist.append_left (List.sublist_cons_self ..) _))
    · refine ⟨y, ?_, rfl⟩
      rw [hsplit] at hy
      rcases List.mem_append.mp hy with hy | hy
      · exact List.mem_append_left _ hy
      · rcases List.mem_cons.mp hy with rfl | hy
        · obtain ⟨j, hj, hji⟩ := hj
          have := (List.mem_erase_of_ne hji).mpr hj
          rw [hnil] at this
          cases this
        · exact List.mem_append_right _ hy
  · next hz =>
    refine ⟨_, rfl, hr.queue, ?_⟩
    have hput : putKey (·.dst) { x' with refc := x'.refc - 1 } v.destList =
        as ++ { x' with refc := x'.refc - 1 } :: bs := by
      rw [hlist]
      exact putKey_split hkeys R.dst
    rw [hput]
    have hmap : (as ++ { x' with refc := x'.refc - 1 } :: bs).map (·.dst) =
        (as ++ x :: bs).map (·.dst) := by
      simp [R.dst]
    refine ho.dequeue hi hr hst ?_ (hmap ▸ hkeys) (fun y hy _ => ?_) fun y hy => ?_
    · rw [hcount]
      simp
    · have hm : y.dst ∈ (as ++ { x' with refc := x'.refc - 1 } :: bs).map (·.dst) := by
        rw [hmap, ← hsplit]
        exact List.mem_map_of_mem hy
      exact List.mem_map.mp hm
    · rcases List.mem_append.mp hy with hy | hy
      · exact hother y (hne y (List.mem_append_left _ hy)).1 (hne y (List.mem_append_left _ hy)).2
      · rcases List.mem_cons.mp hy with rfl | hy
        · have hto' : (v.popped irp).writesTo x'.dst = (s.writesTo x.dst).erase irp := R.dst ▸ hto
          refine ⟨?_, ?_, ?_, fun j hj => ?_⟩
          · rw [hto']
            refine R.chain.congr fun j hj => ?_
            show v.next j = u.next j
            rw [Queue.next, hvj j, ← Queue.next]
            rintro rfl
            exact (ho.nodup.filter _).not_mem_erase hj
          · rw [hto', hlen]
          · rw [hto']
            intro e
            rw [e] at hlen
            exact hz hlen.symm
          · rw [hto'] at hj
            exact (R.nextLength j hj).trans (hr.payload j).symm
        · exact hother y (hne y (List.mem_append_right _ hy)).1
            (hne y (List.mem_append_right _ hy)).2

/-- What happens to IRPs that are not queued, or to the buffers, does not matter. -/
theorem QueueOk.congr (ho : QueueOk s) (ht : t = { s with irps := t.irps, buffers := t.buffers })
    (hj : ∀ j ∈ s.pendingIrpQueue, t.irps j = s.irps j) : QueueOk t := by
  have hq : t.pendingIrpQueue = s.pendingIrpQueue := by rw [ht]
  have hd : t.dstOf = s.dstOf := by rw [ht]
  have hl : t.destList = s.destList := by rw [ht]
  have hw : ∀ d, t.writesTo d = s.writesTo d := by
    intro d
    unfold Queue.writesTo
    rw [hq, hd]
    refine List.filter_congr fun j hm => ?_
    rw [hj j hm]
  refine ⟨?_, ?_, ?_, fun j hm hwr => ?_, ?_, fun j hm hwr => ?_, fun x hx => ?_⟩
  · rw [hq, ← ho.count, ht]
  · rw [hl, ← ho.destCount, ht]
  · rw [hq]; exact ho.nodup
  · rw [hq] at hm
    rw [hj j hm] at hwr ⊢
    rw [hd]
    exact ho.stash j hm hwr
  · rw [hl]; exact ho.keys
  · rw [hq] at hm
    rw [hj j hm] at hwr
    rw [hl, hd]
    exact ho.known j hm hwr
  · rw [hl] at hx
    have hm : ∀ j ∈ s.writesTo x.dst, t.irps j = s.irps j := fun j hm => hj j (mem_writesTo.mp hm).1
    refine (ho.dests x hx).congr (hw _) (fun j hjm => ?_) fun j hjm => by rw [hm j hjm]
    rw [Queue.next, hm j hjm, ← Queue.next]

theorem QueueOk.enqueueRead (front : Bool) (ho : QueueOk s) (hi : irp ∉ s.pendingIrpQueue)
    (hw : ¬ (s.irps irp).has peekWrite = true) : QueueOk (s.pushed front irp d) := by
  have hr : Relinked s s := ⟨rfl, fun _ => rfl, fun _ => rfl⟩
  exact ho.enqueue hi hr (fun _ _ => rfl) (fun h => absurd h hw) ho.destCount ho.keys
    (fun x hx => ⟨x, hx, rfl⟩) fun x hx =>
      (ho.dests x hx).enqueueOther hi hr (fun hc => hw hc.1) fun _ _ => rfl

/-- An insertion fails and changes nothing, or puts the IRP on the queue. -/
theorem QueueOk.insertIrpEx (insertHead alloc alloc' : Bool) (ho : QueueOk s)
    (hi : irp ∉ s.pendingIrpQueue) :
    ∃ status t, s.insertIrpEx irp insertHead alloc alloc' = some (status, t) ∧
      (status ≠ .success → t = s ∨ t = s.setDest irp none) ∧
      (status = .success → QueueOk t ∧
        t.pendingIrpQueue = push insertHead irp s.pendingIrpQueue) := by
  unfold Queue.insertIrpEx
  by_cases hfull : s.pendingIrpCount = maxIrpCount
  · rw [if_pos hfull]
    exact ⟨_, _, rfl, fun _ => .inl rfl, nofun⟩
  rw [if_neg hfull]
  by_cases hw : (s.irps irp).has peekWrite = true
  · rw [if_pos hw]
    obtain ⟨linked, t, hlink, hno, hyes⟩ := ho.linkDestination insertHead alloc alloc' hi hw
    rw [hlink]
    cases linked with
    | false => exact ⟨_, _, rfl, fun _ => .inr (hno rfl), nofun⟩
    | true =>
      obtain ⟨hq, hok⟩ := hyes rfl
      refine ⟨_, _, rfl, fun hne => absurd rfl hne, fun _ => ⟨hok, ?_⟩⟩
      show push insertHead irp t.pendingIrpQueue = _
      rw [hq]
  · rw [if_neg hw]
    exact ⟨_, _, rfl, fun hne => absurd rfl hne, fun _ => ⟨ho.enqueueRead insertHead hi hw, rfl⟩⟩

theorem QueueOk.removeIrp (ho : QueueOk s) (hi : irp ∈ s.pendingIrpQueue) :
    ∃ t, s.removeIrp irp = some t ∧ QueueOk t ∧
      t.pendingIrpQueue = s.pendingIrpQueue.erase irp := by
  unfold Queue.removeIrp
  split
  · next hw =>
    obtain ⟨t, hun, hq, hok⟩ := ho.unlinkDestination hi hw
    rw [hun]
    refine ⟨_, rfl, hok, ?_⟩
    show t.pendingIrpQueue.erase irp = _
    rw [hq]
  · next hw =>
    refine ⟨_, rfl, ?_, rfl⟩
    have hr : Relinked s s := ⟨rfl, fun _ => rfl, fun _ => rfl⟩
    exact ho.dequeue hi hr (fun _ _ => rfl) ho.destCount ho.keys (fun x hx _ => ⟨x, hx, rfl⟩)
      fun x hx => (ho.dests x hx).dequeueOther ho.nodup hr
        (fun hm => hw (mem_writesTo.mp hm).2.1) fun _ _ => rfl

theorem QueueOk.step {a : Act} (ho : QueueOk s) (hs : s.step a = some t) : QueueOk t := by
  cases a with
  | prepare i flags length =>
    simp only [Queue.step] at hs
    split at hs
    · cases hs
    · next hi =>
      cases hs
      refine ho.congr rfl fun j hj => update_of_ne ?_ _ _
      rintro rfl
      exact hi hj
  | memory i buffers =>
    cases hs
    exact ho.congr rfl fun _ _ => rfl
  | insert i insertHead alloc alloc' =>
    simp only [Queue.step] at hs
    split at hs
    · cases hs
    · next hi =>
      obtain ⟨status, u, hu, hno, hyes⟩ := ho.insertIrpEx insertHead alloc alloc' hi
      rw [hu] at hs
      cases hs
      by_cases hst : status = .success
      · exact (hyes hst).1
      · rcases hno hst with rfl | rfl
        · exact ho
        · refine ho.congr rfl fun j hj => setDest_irps_ne ?_
          rintro rfl
          exact hi hj
  | remove i =>
    simp only [Queue.step] at hs
    split at hs
    · next hi =>
      obtain ⟨u, hu, hok, -⟩ := ho.removeIrp hi
      rw [hu] at hs
      cases hs
      exact hok
    · cases hs

end Operations

theorem queueOk_init (irps : Nat → Irp) (buffers : Nat → Buffers) (dstOf : Nat → Addr) :
    QueueOk (csqMachine irps buffers dstOf).init :=
  ⟨rfl, rfl, .nil, nofun, .nil, nofun, nofun⟩

theorem queueOk_reach {irps : Nat → Irp} {buffers : Nat → Buffers} {dstOf : Nat → Addr} {s : Queue}
    (h : Machine.Reach (csqMachine irps buffers dstOf) Machine.Any s) : QueueOk s :=
  h.inv (queueOk_init irps buffers dstOf) fun _ _ _ ho _ hs => ho.step hs

/-! ## Runs of the queue -/

/-- The queue, its count and the destinations are the same, and so is every IRP but `irp`. -/
structure Unchanged (s t : Queue) (irp : Nat) : Prop where
  pendingIrpQueue : t.pendingIrpQueue = s.pendingIrpQueue
  pendingIrpCount : t.pendingIrpCount = s.pendingIrpCount
  destList : t.destList = s.destList
  destCount : t.destCount = s.destCount
  irps : ∀ j, j ≠ irp → t.irps j = s.irps j

/-- After any run of the queue: the pending count is the length of the queue; there is one record
for each destination of a queued write IRP and no other; each record counts these IRPs, chains them
in queue order and has the payload length of the first; the destination count is the number of
records. Every operation then returns: a failed insertion changes nothing, a successful one puts the
IRP on the queue, a removal takes it off. -/
theorem csq_consistent (irps : Nat → Irp) (buffers : Nat → Buffers) (dstOf : Nat → Addr) {s : Queue}
    (h : Machine.Reach (csqMachine irps buffers dstOf) Machine.Any s) :
    s.pendingIrpCount = s.pendingIrpQueue.length ∧
    (s.destList.map (·.dst)).Nodup ∧
    (∀ d, (∃ x ∈ s.destList, x.dst = d) ↔ s.writesTo d ≠ []) ∧
    (∀ x ∈ s.destList, x.refc = (s.writesTo x.dst).length ∧
      Seg s.next x.nextIrp (s.writesTo x.dst) none ∧
      ∃ i, x.nextIrp = some i ∧ x.nextLength = payloadDataLen (s.irps i)) ∧
    s.destCount = s.destList.length ∧
    (∀ irp, irp ∉ s.pendingIrpQueue → ∀ insertHead alloc alloc', ∃ status t,
      s.insertIrpEx irp insertHead alloc alloc' = some (status, t) ∧
      (status ≠ .success → Unchanged s t irp) ∧
      (status = .success → t.pendingIrpQueue = push insertHead irp s.pendingIrpQueue)) ∧
    ∀ irp ∈ s.pendingIrpQueue, ∃ t, s.removeIrp irp = some t ∧
      t.pendingIrpQueue = s.pendingIrpQueue.erase irp := by
  have ho := queueOk_reach h
  refine ⟨ho.count, ho.keys, fun d => ⟨?_, fun hne => ?_⟩, fun x hx => ?_, ho.destCount,
    fun irp hi insertHead alloc alloc' => ?_, fun irp hi => ?_⟩
  · rintro ⟨x, hx, rfl⟩
    exact (ho.dests x hx).used
  · obtain ⟨i, hi⟩ := List.exists_mem_of_ne_nil _ hne
    obtain ⟨hq, hw, rfl⟩ := mem_writesTo.mp hi
    exact ho.known i hq hw
  · have hok := ho.dests x hx
    refine ⟨hok.refc, hok.chain, ?_⟩
    cases hw : s.writesTo x.dst with
    | nil => exact absurd hw hok.used
    | cons i c =>
      have hc := hok.chain
      rw [hw] at hc
      exact ⟨i, hc.1, hok.nextLength i (by rw [hw]; rfl)⟩
  · obtain ⟨status, t, ht, hno, hyes⟩ := ho.insertIrpEx insertHead alloc alloc' hi
    refine ⟨status, t, ht, fun hne => ?_, fun he => (hyes he).2⟩
    rcases hno hne with rfl | rfl
    · exact ⟨rfl, rfl, rfl, rfl, fun _ _ => rfl⟩
    · exact ⟨rfl, rfl, rfl, rfl, fun _ hj => setDest_irps_ne hj⟩
  · obtain ⟨t, ht, -, hq⟩ := ho.removeIrp hi
    exact ⟨t, ht, hq⟩

/-- Two stream writes, a reset that is pushed to the front and a read; one insertion finds no memory
and the first write is cancelled. -/
theorem csq_consistent_run :
    ∃ s, Machine.Reach (csqMachine (fun _ => ⟨0, none, 0⟩) (fun _ => ⟨⟨1, 7⟩, ⟨1, 7⟩, ⟨2, 7⟩⟩)
        fun _ => ⟨0, 0⟩) Machine.Any s ∧
      s.pendingIrpQueue = [2, 1, 3] ∧ s.destList = [⟨2, 8, some 2, ⟨1, 7⟩⟩] ∧
      s.pendingIrpCount = s.pendingIrpQueue.length ∧ s.destCount = s.destList.length := by
  obtain ⟨s, hr, hs⟩ :=
    Machine.exists_reach (csqMachine (fun _ => ⟨0, none, 0⟩) (fun _ => ⟨⟨1, 7⟩, ⟨1, 7⟩, ⟨2, 7⟩⟩)
        fun _ => ⟨0, 0⟩) Machine.Any
      (fun s => decide (s.pendingIrpQueue = [2, 1, 3] ∧ s.destList = [⟨2, 8, some 2, ⟨1, 7⟩⟩]))
      [.prepare 0 (peekStream ||| peekWrite) 100, .prepare 1 (peekStream ||| peekWrite) 50,
        .prepare 2 (peekStream ||| peekWrite ||| peekRst) 0, .prepare 3 (peekStream ||| peekRead) 10,
        .prepare 4 peekWrite 20, .insert 0 false true true, .insert 1 false true true,
        .insert 2 true true true, .insert 3 false true true, .insert 4 false true false, .remove 0]
      (by decide +kernel)
  obtain ⟨hq, hd⟩ := of_decide_eq_true hs
  have hc := csq_consistent _ _ _ hr
  exact ⟨s, hr, hq, hd, hc.1, hc.2.2.2.2.1⟩

end XcWindows.V4v.Csq
