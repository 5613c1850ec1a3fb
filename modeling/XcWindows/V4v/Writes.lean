import Mathlib.Data.List.FinRange
import Mathlib.Data.Fin.Basic
import Mathlib.Logic.Function.Basic
import XcWindows.Lib.Machine
import XcWindows.V4v.Ring

/-!
# Write order of a stream

The write side of `xenv4v/rw.c`: `V4vDispatchWrite` queues an IRP and drives
`V4vProcessContextWrites`; `V4vProcessNotify` drives `V4vProcessDestinationWrites` for each
destination. Both take IRPs from the one cancel-safe queue, try to send them, collect those that
have to wait in `returnIrps`, and put these back at the tail when they are done
(`V4vRequeueIrps`). Any number `n` of threads are in such a pass at the same time. The hypervisor
answers each send; an insertion fails when the queue is full or there is no memory for the
destination record.

The ghosts are the IRPs in the order they were first queued (their ids count them), the stream IRPs
whose payload was sent, and the IRPs that were completed with an error or cancelled.
-/

namespace XcWindows.V4v

open Lib

/-- The stream flags of a write IRP: stream data, a SYN, the ACK of an accepter or of a waiter, a
RST; or a datagram. -/
inductive WriteKind where
  | data | syn | ack | waiterAck | rst | dgram
deriving DecidableEq, Repr

/-- A write IRP with its stashed destination; `write` is cleared when a SYN turns into a read. -/
structure WriteIrp where
  id : Nat
  pfo : Nat
  dst : Addr
  kind : WriteKind
  payload : List UInt8
  write : Bool
deriving DecidableEq, Repr

/-- What is fixed once a file is a stream: its destination and its ring; whether it is one. -/
structure Files where
  sdst : Nat → Addr
  ringObject : Nat → Nat
  streamType : Nat → Bool

/-- `v4v_ring_data_ent_t`, as answered by the notify. -/
structure Entry where
  ring : Addr
  exist : Bool
  sufficient : Bool
deriving DecidableEq, Repr

/-- A thread in `V4vProcessContextWrites`, in `V4vProcessDestinationWrites` or in
`V4vRequeueIrps`, with its `returnIrps` and the IRP it has in hand. -/
inductive Pass where
  | idle
  | ctx (pfo : Nat) (ret : List WriteIrp) (hand : Option WriteIrp)
  | dst (e : Entry) (ret : List WriteIrp) (counter : Nat) (hand : Option WriteIrp)
  | back (ret : List WriteIrp)
deriving DecidableEq, Repr

namespace Pass

def ret : Pass → List WriteIrp
  | idle => []
  | ctx _ ret _ | dst _ ret _ _ | back ret => ret

def hand : Pass → Option WriteIrp
  | idle | back _ => none
  | ctx _ _ hand | dst _ _ _ hand => hand

/-- The IRPs the thread holds. -/
def held (p : Pass) : List WriteIrp := p.ret ++ p.hand.toList

end Pass

inductive Answer where
  | success | retry | closed | error
deriving DecidableEq, Repr

structure Writes (n : Nat) where
  queue : List WriteIrp
  pass : Fin n → Pass
  ringLock : Nat → Option (Fin n)
  queued : List WriteIrp
  sent : List WriteIrp
  failed : List Nat

inductive WriteAct (n : Nat) where
  | dispatchWrite (pfo : Nat) (kind : WriteKind) (dst : Addr) (payload : List UInt8) (inserted : Bool)
  | processContext (t : Fin n) (pfo : Nat)
  | processDestination (t : Fin n) (e : Entry)
  /-- `IoCsqRemoveNextIrp` -/
  | remove (t : Fin n)
  | send (t : Fin n) (ans : Answer)
  | requeue (t : Fin n) (inserted : Bool)
  | cancel (id : Nat)
deriving DecidableEq, Repr

section Step
variable {n : Nat} (f : Files)

def Writes.setPass (s : Writes n) (t : Fin n) (p : Pass) : Writes n :=
  { s with pass := Function.update s.pass t p }

def Writes.setLock (s : Writes n) (o : Nat) (l : Option (Fin n)) : Writes n :=
  { s with ringLock := Function.update s.ringLock o l }

/-- Complete an IRP with an error. -/
def Writes.fail (s : Writes n) (irp : WriteIrp) : Writes n := { s with failed := s.failed ++ [irp.id] }

/-- `V4vDisconnectStreamAndSignal`: the queued writes of the file are cancelled. -/
def Writes.disconnect (s : Writes n) (pfo : Nat) : Writes n :=
  { s with
    queue := s.queue.filter fun x => ¬ (x.write ∧ x.pfo = pfo)
    failed := s.failed ++ (s.queue.filter fun x => x.write ∧ x.pfo = pfo).map (·.id) }

/-- `XENV4V_PEEK_SYN|XENV4V_PEEK_ACK` -/
def WriteKind.handshake : WriteKind → Bool
  | .syn | .ack | .waiterAck => true
  | _ => false

/-- What `V4vDoWrite` leaves to its caller: nothing, or an IRP to put back. -/
inductive WriteResult where
  | retry
  | pending (irp : WriteIrp)
  | success
  | failed

def v4vDoWrite (s : Writes n) (irp : WriteIrp) (ans : Answer) : Writes n × WriteResult :=
  match ans with
  | .retry => (s, .retry)
  | .success =>
    match irp.kind with
    -- a connect SYN is queued again as a read that waits for the ACK
    | .syn => (s, .pending { irp with write := false })
    | .data => ({ s with sent := s.sent ++ [irp] }, .success)
    | _ => (s, .success)
  | .closed =>
    let s := if irp.kind.handshake ∨ f.streamType irp.pfo then s.disconnect irp.pfo else s
    (s.fail irp, .failed)
  | .error =>
    let s := if irp.kind.handshake then s.disconnect irp.pfo else s
    (s.fail irp, .failed)

def v4vCsqGetDestination (pfo : Nat) (kind : WriteKind) (dst : Addr) : Addr :=
  match kind with
  | .rst | .dgram => dst
  | _ => f.sdst pfo

def writesStep (s : Writes n) : WriteAct n → Option (Writes n)
  | .dispatchWrite pfo kind dst payload inserted =>
    let irp := ⟨s.queued.length, pfo, v4vCsqGetDestination f pfo kind dst, kind, payload, true⟩
    if inserted then
      some { s with queue := if kind = .rst then irp :: s.queue else s.queue ++ [irp]
                    queued := s.queued ++ [irp] }
    else none
  | .processContext t pfo =>
    if s.pass t = .idle ∧ s.ringLock (f.ringObject pfo) = none then
      some ((s.setLock (f.ringObject pfo) (some t)).setPass t (.ctx pfo [] none))
    else none
  | .processDestination t e =>
    if s.pass t = .idle then some (s.setPass t (.dst e [] 0 none)) else none
  | .remove t =>
    match s.pass t with
    | .ctx pfo ret none =>
      match s.queue.find? fun x => x.write ∧ x.pfo = pfo with
      | none => some ((s.setLock (f.ringObject pfo) none).setPass t (.back ret))
      | some irp =>
        some ({ s with queue := s.queue.eraseP fun x => x.write ∧ x.pfo = pfo }.setPass t
          (.ctx pfo ret (some irp)))
    | .dst e ret counter none =>
      match s.queue.find? fun x => x.write ∧ x.dst = e.ring with
      | none => some (s.setPass t (.back ret))
      | some irp =>
        some ({ s with queue := s.queue.eraseP fun x => x.write ∧ x.dst = e.ring }.setPass t
          (.dst e ret counter (some irp)))
    | _ => none
  | .send t ans =>
    match s.pass t with
    | .ctx pfo ret (some irp) =>
      match v4vDoWrite f s irp ans with
      | (s, .retry) => some (s.setPass t (.ctx pfo (ret ++ [irp]) none))
      | (s, .pending irp) => some (s.setPass t (.ctx pfo (ret ++ [irp]) none))
      | (s, _) => some (s.setPass t (.ctx pfo ret none))
    | .dst e ret counter (some irp) =>
      if s.ringLock (f.ringObject irp.pfo) = none then
        if e.exist = false then
          let s := if f.streamType irp.pfo then s.disconnect irp.pfo else s
          some ((s.fail irp).setPass t (.dst e ret counter none))
        else if counter = 0 ∧ e.sufficient = false then some (s.setPass t (.back (ret ++ [irp])))
        else
          match v4vDoWrite f s irp ans with
          | (s, .retry) => some (s.setPass t (.back (ret ++ [irp])))
          | (s, .pending irp) => some (s.setPass t (.dst e (ret ++ [irp]) (counter + 1) none))
          | (s, .success) => some (s.setPass t (.dst e ret (counter + 1) none))
          | (s, .failed) => some (s.setPass t (.dst e ret counter none))
      else none
    | _ => none
  | .requeue t inserted =>
    match s.pass t with
    | .back [] => some (s.setPass t .idle)
    | .back (irp :: ret) =>
      if inserted then some ({ s with queue := s.queue ++ [irp] }.setPass t (.back ret))
      else some ((s.fail irp).setPass t (.back ret))
    | _ => none
  | .cancel id =>
    match s.queue.find? (·.id = id) with
    | none => none
    | some irp => some ({ s with queue := s.queue.eraseP (·.id = id) }.fail irp)

end Step

def writesInit (n : Nat) : Writes n := ⟨[], fun _ => .idle, fun _ => none, [], [], []⟩

def writesMachine (n : Nat) (f : Files) : Machine (Writes n) (WriteAct n) :=
  ⟨writesInit n, writesStep f⟩

/-- A stream write of the file `k`. -/
def StreamWrite (k : Nat) (x : WriteIrp) : Prop := x.pfo = k ∧ x.kind = .data

instance (k : Nat) : DecidablePred (StreamWrite k) := fun _ => inferInstanceAs (Decidable (_ ∧ _))

/-- The payloads of `k` that were sent. -/
def Writes.sentOf {n : Nat} (s : Writes n) (k : Nat) : List (List UInt8) :=
  (s.sent.filter (StreamWrite k)).map (·.payload)

/-- The payloads of `k` in the order they were first queued, without those that failed. -/
def Writes.queuedOf {n : Nat} (s : Writes n) (k : Nat) : List (List UInt8) :=
  (s.queued.filter fun x => StreamWrite k x ∧ x.id ∉ s.failed).map (·.payload)

/-- The IRP a pass takes next. -/
def Writes.next {n : Nat} (s : Writes n) : Pass → Option WriteIrp
  | .ctx pfo _ none => s.queue.find? fun x => x.write ∧ x.pfo = pfo
  | .dst e _ _ none => s.queue.find? fun x => x.write ∧ x.dst = e.ring
  | _ => none

/-- A pass takes a write of `k` only while no other pass holds an earlier one; once a write of `k`
has to wait, no later one of the pass is sent; a write of `k` is put back only behind earlier
ones. -/
def KeepsOrder (k : Nat) {n : Nat} (s : Writes n) : WriteAct n → Prop
  | .remove t => ∀ x ∈ s.next (s.pass t), StreamWrite k x →
      ∀ t', t' ≠ t → ∀ y ∈ (s.pass t').held, StreamWrite k y → x.id < y.id
  | .send t ans => ∀ x ∈ (s.pass t).hand, StreamWrite k x → ans = .success →
      ∀ y ∈ (s.pass t).ret, ¬ StreamWrite k y
  | .requeue t _ => ∀ x ∈ (s.pass t).ret.head?, StreamWrite k x → ∀ y ∈ s.queue, StreamWrite k y → y.id < x.id
  | _ => True

instance (k : Nat) {n : Nat} (s : Writes n) : DecidablePred (KeepsOrder k s)
  | .remove t => inferInstanceAs (Decidable (∀ x ∈ s.next (s.pass t), _))
  | .send t _ => inferInstanceAs (Decidable (∀ x ∈ (s.pass t).hand, _))
  | .requeue t _ => inferInstanceAs (Decidable (∀ x ∈ (s.pass t).ret.head?, _))
  | .dispatchWrite _ _ _ _ _ | .processContext _ _ | .processDestination _ _ | .cancel _ =>
    isTrue trivial

/-! ### Where the writes of `k` are -/

section Order
variable {n : Nat} {f : Files} {k : Nat} {s s' : Writes n} {rest : List WriteIrp}

/-- The writes of `k` that the threads other than `t` hold. -/
def othersOf (k : Nat) (s : Writes n) (t : Fin n) : List WriteIrp :=
  ((List.finRange n).erase t).flatMap fun u => (s.pass u).held.filter (StreamWrite k)

/-- The writes of `k` in the queue and with the threads. -/
def placed (k : Nat) (s : Writes n) : List WriteIrp :=
  s.queue.filter (StreamWrite k) ++
    (List.finRange n).flatMap fun u => (s.pass u).held.filter (StreamWrite k)

theorem placed_perm (k : Nat) (s : Writes n) (t : Fin n) :
    (placed k s).Perm (s.queue.filter (StreamWrite k) ++
      ((s.pass t).held.filter (StreamWrite k) ++ othersOf k s t)) := by
  apply List.Perm.append_left _
  exact (List.perm_cons_erase (List.mem_finRange t)).flatMap_right _

theorem othersOf_congr {t : Fin n} (h : ∀ u, u ≠ t → s'.pass u = s.pass u) :
    othersOf k s' t = othersOf k s t := by
  unfold othersOf
  rw [List.flatMap_congr fun u hu => ?_]
  rw [h u (((List.nodup_finRange n).mem_erase_iff.mp hu).1)]

theorem mem_othersOf {t : Fin n} {y : WriteIrp} :
    y ∈ othersOf k s t ↔ ∃ u, u ≠ t ∧ y ∈ (s.pass u).held ∧ StreamWrite k y := by
  simp [othersOf, (List.nodup_finRange n).mem_erase_iff]

/-- The IRP is in the queue or with a thread. -/
def Somewhere (s : Writes n) (x : WriteIrp) : Prop := x ∈ s.queue ∨ ∃ t, x ∈ (s.pass t).held

theorem mem_placed {x : WriteIrp} : x ∈ placed k s ↔ Somewhere s x ∧ StreamWrite k x := by
  simp [placed, Somewhere, or_and_right]

/-- The writes of `k` that were neither sent nor failed are `rest`, in the order they were first
queued; they are in the queue, in that order, or with a thread, and a thread with one in hand has
every earlier one in its `returnIrps`. -/
structure Ordered (f : Files) (k : Nat) (s : Writes n) (rest : List WriteIrp) : Prop where
  ids : s.queued.map (·.id) = List.range s.queued.length
  known : ∀ x, Somewhere s x → ∃ y ∈ s.queued, y.id = x.id ∧ y.pfo = x.pfo ∧ y.kind = x.kind
  failed : ∀ d ∈ s.failed, d < s.queued.length
  dst : ∀ x ∈ s.queued, StreamWrite k x → x.dst = f.sdst k ∧ x.write = true
  split : s.queued.filter (fun x => StreamWrite k x ∧ x.id ∉ s.failed) =
    s.sent.filter (StreamWrite k) ++ rest
  perm : (placed k s).Perm rest
  sorted : (s.queue.filter (StreamWrite k)).Pairwise (·.id < ·.id)
  hand : ∀ t x, (s.pass t).hand = some x → StreamWrite k x →
    ∀ y ∈ rest, y.id < x.id → y ∈ (s.pass t).ret

namespace Ordered

theorem queued_sorted (h : Ordered f k s rest) : s.queued.Pairwise (·.id < ·.id) := by
  rw [← List.pairwise_map (f := WriteIrp.id) (R := (· < ·)), h.ids]
  exact List.pairwise_lt_range

theorem id_lt (h : Ordered f k s rest) {x : WriteIrp} (hx : x ∈ s.queued) : x.id < s.queued.length := by
  have : x.id ∈ s.queued.map (·.id) := List.mem_map_of_mem hx
  rw [h.ids] at this
  exact List.mem_range.mp this

theorem id_inj (h : Ordered f k s rest) {x y : WriteIrp} (hx : x ∈ s.queued) (hy : y ∈ s.queued)
    (e : x.id = y.id) : x = y := by
  have hnd : (s.queued.map (·.id)).Nodup := h.ids ▸ List.nodup_range
  exact List.inj_on_of_nodup_map hnd hx hy e

theorem live_sorted (h : Ordered f k s rest) :
    (s.sent.filter (StreamWrite k) ++ rest).Pairwise (·.id < ·.id) :=
  h.split ▸ h.queued_sorted.filter _

theorem mem_rest (h : Ordered f k s rest) {x : WriteIrp} (hx : x ∈ rest) :
    x ∈ s.queued ∧ StreamWrite k x := by
  have : x ∈ s.queued.filter (fun x => StreamWrite k x ∧ x.id ∉ s.failed) := by
    rw [h.split]; exact List.mem_append_right _ hx
  simp only [List.mem_filter, decide_eq_true_eq] at this
  exact ⟨this.1, this.2.1⟩

theorem mem_sent (h : Ordered f k s rest) {x : WriteIrp} (hx : x ∈ s.sent) (hk : StreamWrite k x) :
    x ∈ s.queued := by
  have : x ∈ s.queued.filter (fun x => StreamWrite k x ∧ x.id ∉ s.failed) := by
    rw [h.split]
    exact List.mem_append_left _ (List.mem_filter.mpr ⟨hx, by simpa using hk⟩)
  exact (List.mem_filter.mp this).1

theorem not_sent (h : Ordered f k s rest) {x y : WriteIrp} (hx : Somewhere s x) (hy : y ∈ s.sent)
    (hk : StreamWrite k y) : y.id ≠ x.id := by
  intro e
  obtain ⟨z, hz, hid, hpfo, hkind⟩ := h.known x hx
  have hzy : z = y := h.id_inj hz (h.mem_sent hy hk) (hid.trans e.symm)
  subst hzy
  have hxk : StreamWrite k x := ⟨hpfo ▸ hk.1, hkind ▸ hk.2⟩
  have hxr : x ∈ rest := h.perm.mem_iff.mp (mem_placed.mpr ⟨hx, hxk⟩)
  have hlt := (List.pairwise_append.mp h.live_sorted).2.2 z
    (List.mem_filter.mpr ⟨hy, by simpa using hk⟩) x hxr
  omega

/-- A step that loses the IRPs `D` and moves the others. -/
theorem update (h : Ordered f k s rest) (s' : Writes n) (D : List WriteIrp) (hq : s'.queued = s.queued)
    (hs : s'.sent = s.sent) (hf : s'.failed = s.failed ++ D.map (·.id))
    (hD : ∀ x ∈ D, Somewhere s x) (hsome : ∀ x, Somewhere s' x →
      ∃ y, Somewhere s y ∧ y.id = x.id ∧ y.pfo = x.pfo ∧ y.kind = x.kind)
    (hperm : (placed k s').Perm ((placed k s).filter fun x => x.id ∉ D.map (·.id)))
    (hsorted : (s'.queue.filter (StreamWrite k)).Pairwise (·.id < ·.id))
    (hhand : ∀ t x, (s'.pass t).hand = some x → StreamWrite k x →
      ∀ y ∈ rest, y.id ∉ D.map (·.id) → y.id < x.id → y ∈ (s'.pass t).ret) :
    Ordered f k s' (rest.filter fun x => x.id ∉ D.map (·.id)) where
  ids := hq ▸ h.ids
  known x hx := by
    obtain ⟨y, hy, e1, e2, e3⟩ := hsome x hx
    obtain ⟨z, hz, d1, d2, d3⟩ := h.known y hy
    exact ⟨z, hq ▸ hz, d1.trans e1, d2.trans e2, d3.trans e3⟩
  failed d hd := by
    rw [hf, List.mem_append] at hd
    rw [hq]
    rcases hd with hd | hd
    · exact h.failed d hd
    · obtain ⟨x, hx, rfl⟩ := List.mem_map.mp hd
      obtain ⟨y, hy, e, -⟩ := h.known x (hD x hx)
      exact e ▸ h.id_lt hy
  dst := hq ▸ h.dst
  split := by
    have hsent : (s.sent.filter (StreamWrite k)).filter (fun x => x.id ∉ D.map (·.id)) =
        s.sent.filter (StreamWrite k) := by
      rw [List.filter_eq_self]
      intro y hy
      simp only [List.mem_filter, decide_eq_true_eq] at hy
      simp only [List.mem_map, not_exists, not_and, decide_eq_true_eq]
      exact fun x hx e => h.not_sent (hD x hx) hy.1 hy.2 e.symm
    have := congrArg (List.filter fun x => decide (x.id ∉ D.map (·.id))) h.split
    rw [List.filter_append, hsent, List.filter_filter] at this
    rw [hq, hs, hf, ← this]
    apply List.filter_congr
    intro x _
    simp only [List.mem_append, not_or, ← Bool.decide_and, decide_eq_decide]
    grind
  perm := hperm.trans (h.perm.filter _)
  sorted := hsorted
  hand t x hx hk y hy hlt := by
    simp only [List.mem_filter, decide_eq_true_eq] at hy
    exact hhand t x hx hk y hy.1 hy.2 hlt

/-- A step that only moves IRPs. -/
theorem move (h : Ordered f k s rest) (hq : s'.queued = s.queued) (hs : s'.sent = s.sent)
    (hf : s'.failed = s.failed) (hsome : ∀ x, Somewhere s' x →
      ∃ y, Somewhere s y ∧ y.id = x.id ∧ y.pfo = x.pfo ∧ y.kind = x.kind)
    (hperm : (placed k s').Perm (placed k s))
    (hsorted : (s'.queue.filter (StreamWrite k)).Pairwise (·.id < ·.id))
    (hhand : ∀ t x, (s'.pass t).hand = some x → StreamWrite k x →
      ∀ y ∈ rest, y.id < x.id → y ∈ (s'.pass t).ret) : Ordered f k s' rest := by
  have := h.update s' [] hq hs (by simpa using hf) (by simp) hsome (by simpa using hperm) hsorted
    (fun t x hx hk y hy _ => hhand t x hx hk y hy)
  simpa using this

theorem ids_placed (h : Ordered f k s rest) : ((placed k s).map (·.id)).Nodup := by
  rw [(h.perm.map _).nodup_iff, List.Nodup, List.pairwise_map]
  exact ((List.pairwise_append.mp h.live_sorted).2.1).imp fun hlt => Nat.ne_of_lt hlt

theorem eq_of_id (h : Ordered f k s rest) {x z : WriteIrp} (hx : x ∈ placed k s) (hz : Somewhere s z)
    (e : z.id = x.id) : z = x := by
  have hk := (mem_placed.mp hx).2
  obtain ⟨y, hy, hid, hpfo, hkind⟩ := h.known z hz
  have hyx : y = x := h.id_inj hy (h.mem_rest (h.perm.mem_iff.mp hx)).1 (hid.trans e)
  have hzk : StreamWrite k z := ⟨hpfo ▸ hyx ▸ hk.1, hkind ▸ hyx ▸ hk.2⟩
  exact List.inj_on_of_nodup_map h.ids_placed (mem_placed.mpr ⟨hz, hzk⟩) hx e

/-- A thread moves IRPs between the queue and its own lists. -/
theorem moveAt (h : Ordered f k s rest) {t : Fin n} {p : Pass} (hpass : s'.pass = Function.update s.pass t p)
    (hq : s'.queued = s.queued) (hs : s'.sent = s.sent) (hf : s'.failed = s.failed)
    (hmem : ∀ x, x ∈ s'.queue ∨ x ∈ p.held → ∃ y, (y ∈ s.queue ∨ y ∈ (s.pass t).held) ∧
      y.id = x.id ∧ y.pfo = x.pfo ∧ y.kind = x.kind)
    (hperm : (s'.queue.filter (StreamWrite k) ++ p.held.filter (StreamWrite k)).Perm
      (s.queue.filter (StreamWrite k) ++ (s.pass t).held.filter (StreamWrite k)))
    (hsorted : (s'.queue.filter (StreamWrite k)).Pairwise (·.id < ·.id))
    (hhand : ∀ x, p.hand = some x → StreamWrite k x → ∀ y ∈ rest, y.id < x.id → y ∈ p.ret) :
    Ordered f k s' rest := by
  have hne : ∀ u, u ≠ t → s'.pass u = s.pass u := fun u hu => by rw [hpass, Function.update_of_ne hu]
  have ht : s'.pass t = p := by rw [hpass, Function.update_self]
  refine h.move hq hs hf ?_ ?_ hsorted ?_
  · intro x hx
    have hx' : (x ∈ s'.queue ∨ x ∈ p.held) ∨ ∃ u, u ≠ t ∧ x ∈ (s.pass u).held := by
      rcases hx with hx | ⟨u, hu⟩
      · exact .inl (.inl hx)
      · by_cases e : u = t
        · subst e; exact .inl (.inr (ht ▸ hu))
        · exact .inr ⟨u, e, hne u e ▸ hu⟩
    rcases hx' with hx | ⟨u, -, hu⟩
    · obtain ⟨y, hy, he⟩ := hmem x hx
      exact ⟨y, hy.imp_right fun hy => ⟨t, hy⟩, he⟩
    · exact ⟨x, .inr ⟨u, hu⟩, rfl, rfl, rfl⟩
  · refine (placed_perm k s' t).trans (List.Perm.trans ?_ (placed_perm k s t).symm)
    rw [othersOf_congr hne, ht, ← List.append_assoc, ← List.append_assoc]
    exact hperm.append_right _
  · intro u x hx hk y hy hlt
    by_cases e : u = t
    · subst e
      rw [ht] at hx ⊢
      exact hhand x hx hk y hy hlt
    · rw [hne u e] at hx ⊢
      exact h.hand u x hx hk y hy hlt

/-- The IRP `x` is completed with an error. -/
theorem lose (h : Ordered f k s rest) {x : WriteIrp} (hx : Somewhere s x) (hq : s'.queued = s.queued)
    (hs : s'.sent = s.sent) (hf : s'.failed = s.failed ++ [x.id])
    (hsub : ∀ y, Somewhere s' y → Somewhere s y)
    (hperm : (placed k s).Perm ([x].filter (StreamWrite k) ++ placed k s'))
    (hsorted : (s'.queue.filter (StreamWrite k)).Pairwise (·.id < ·.id))
    (hhand : ∀ t y, (s'.pass t).hand = some y → StreamWrite k y →
      ∀ z ∈ rest, z.id < y.id → z ∈ (s'.pass t).ret) : ∃ rest', Ordered f k s' rest' := by
  refine ⟨_, h.update s' [x] hq hs hf (by simpa using hx) (fun y hy => ⟨y, hsub y hy, rfl, rfl, rfl⟩) ?_
    hsorted fun t y hy hk z hz _ => hhand t y hy hk z hz⟩
  -- the ids of the writes of `k` are distinct, so that filtering removes `x` alone
  have hnd := (hperm.map (·.id)).nodup_iff.mp h.ids_placed
  refine List.Perm.trans (List.Perm.of_eq ?_) (hperm.filter _).symm
  rw [List.filter_append]
  have hkeep : (placed k s').filter (fun y => y.id ∉ [x].map (·.id)) = placed k s' := by
    rw [List.filter_eq_self]
    intro y hy
    have hyp := mem_placed.mp hy
    simp only [List.map_cons, List.map_nil, List.mem_singleton, decide_eq_true_eq]
    intro e
    have hxy : x = y := h.eq_of_id (mem_placed.mpr ⟨hsub y hyp.1, hyp.2⟩) hx e.symm
    subst hxy
    rw [List.filter_cons_of_pos (by simpa using hyp.2)] at hnd
    simp only [List.filter_nil, List.singleton_append, List.map_cons, List.nodup_cons] at hnd
    exact hnd.1 (List.mem_map_of_mem hy)
  have hgone : ([x].filter (StreamWrite k)).filter (fun y => y.id ∉ [x].map (·.id)) = [] := by
    rw [List.filter_eq_nil_iff]
    intro y hy
    rw [List.mem_filter, List.mem_singleton] at hy
    simp [hy.1]
  rw [hkeep, hgone, List.nil_append]

/-- An IRP that a thread holds is completed with an error. -/
theorem loseHeld (h : Ordered f k s rest) {t : Fin n} {p : Pass} {x : WriteIrp}
    (hpass : s'.pass = Function.update s.pass t p) (hqueue : s'.queue = s.queue)
    (hq : s'.queued = s.queued) (hs : s'.sent = s.sent) (hf : s'.failed = s.failed ++ [x.id])
    (hheld : (s.pass t).held.Perm (x :: p.held)) (hhand : p.hand = none) :
    ∃ rest', Ordered f k s' rest' := by
  have hne : ∀ u, u ≠ t → s'.pass u = s.pass u := fun u hu => by rw [hpass, Function.update_of_ne hu]
  have ht : s'.pass t = p := by rw [hpass, Function.update_self]
  have hx : Somewhere s x := .inr ⟨t, hheld.mem_iff.mpr List.mem_cons_self⟩
  refine h.lose hx hq hs hf ?_ ?_ (hqueue ▸ h.sorted) ?_
  · rintro y (hy | ⟨u, hu⟩)
    · exact .inl (hqueue ▸ hy)
    · by_cases e : u = t
      · subst e
        exact .inr ⟨u, hheld.mem_iff.mpr (List.mem_cons_of_mem _ (ht ▸ hu))⟩
      · exact .inr ⟨u, hne u e ▸ hu⟩
  · refine (placed_perm k s t).trans (List.Perm.trans ?_ ((placed_perm k s' t).append_left _).symm)
    rw [othersOf_congr hne, ht, hqueue]
    have := (hheld.filter (StreamWrite k)).append_right (othersOf k s t)
    rw [← List.singleton_append, List.filter_append] at this
    apply (this.append_left (s.queue.filter (StreamWrite k))).trans
    simp only [← List.append_assoc]
    exact (List.perm_append_comm.append_right _).append_right _
  · intro u y hy hk z hz hlt
    by_cases e : u = t
    · subst e
      rw [ht, hhand] at hy; cases hy
    · rw [hne u e] at hy ⊢
      exact h.hand u y hy hk z hz hlt

/-- The queued writes of a file are cancelled. -/
theorem disconnect (h : Ordered f k s rest) (pfo : Nat) :
    ∃ rest', Ordered f k (s.disconnect pfo) rest' := by
  refine ⟨_, h.update (s.disconnect pfo) (s.queue.filter fun x => x.write ∧ x.pfo = pfo) rfl rfl
    rfl (fun x hx => .inl (List.mem_filter.mp hx).1) ?_ ?_ ?_ fun t x hx hk y hy _ => h.hand t x hx hk y hy⟩
  · rintro x (hx | hx)
    · exact ⟨x, .inl (List.mem_filter.mp hx).1, rfl, rfl, rfl⟩
    · exact ⟨x, .inr hx, rfl, rfl, rfl⟩
  · -- a write of `k` is lost exactly when it is in the queue and of the file
    have hlost : ∀ x ∈ placed k s, x.id ∈ (s.queue.filter fun x => x.write ∧ x.pfo = pfo).map (·.id) ↔
        x ∈ s.queue ∧ x.write ∧ x.pfo = pfo := by
      intro x hx
      constructor
      · intro hm
        obtain ⟨z, hz, e⟩ := List.mem_map.mp hm
        have hz' := List.mem_filter.mp hz
        have := h.eq_of_id hx (.inl hz'.1) e
        subst this
        exact ⟨hz'.1, by simpa using hz'.2⟩
      · intro hq
        exact List.mem_map_of_mem (List.mem_filter.mpr ⟨hq.1, by simpa using hq.2⟩)
    have hnd := h.ids_placed
    simp only [placed, List.map_append] at hnd
    apply List.Perm.of_eq
    unfold placed
    rw [List.filter_append]
    congr 1
    · simp only [Writes.disconnect, List.filter_filter]
      apply List.filter_congr
      intro x hx
      by_cases hk : StreamWrite k x
      · have := hlost x (mem_placed.mpr ⟨.inl hx, hk⟩)
        simp only [hk, decide_true, Bool.true_and, Bool.and_true, decide_eq_decide]
        rw [this]
        simp [hx]
      · simp [hk]
    · refine (List.filter_eq_self.mpr ?_).symm
      intro x hx
      have hxp : x ∈ placed k s := List.mem_append_right _ hx
      simp only [decide_eq_true_eq]
      rw [hlost x hxp]
      rintro ⟨hq, -⟩
      have hxq : x ∈ s.queue.filter (StreamWrite k) :=
        List.mem_filter.mpr ⟨hq, by simpa using (mem_placed.mp hxp).2⟩
      exact (List.nodup_append.mp hnd).2.2 _ (List.mem_map_of_mem hxq) _ (List.mem_map_of_mem hx) rfl
  · rw [Writes.disconnect, List.filter_filter]
    simp only [Bool.and_comm]
    rw [← List.filter_filter]
    exact h.sorted.filter _

theorem sendHand (h : Ordered f k s rest) {t : Fin n} {p : Pass} {x : WriteIrp}
    (hx : (s.pass t).hand = some x) (hk : StreamWrite k x) (hret : ∀ y ∈ (s.pass t).ret, ¬ StreamWrite k y)
    (hpass : s'.pass = Function.update s.pass t p) (hqueue : s'.queue = s.queue)
    (hq : s'.queued = s.queued) (hs : s'.sent = s.sent ++ [x]) (hf : s'.failed = s.failed)
    (hp : p.ret = (s.pass t).ret) (hhand : p.hand = none) : ∃ rest', Ordered f k s' rest' := by
  have hne : ∀ u, u ≠ t → s'.pass u = s.pass u := fun u hu => by rw [hpass, Function.update_of_ne hu]
  have ht : s'.pass t = p := by rw [hpass, Function.update_self]
  have hheld : (s.pass t).held = p.held ++ [x] := by simp [Pass.held, hx, hhand, hp]
  have hperm : (placed k s).Perm (x :: placed k s') := by
    refine (placed_perm k s t).trans (List.Perm.trans ?_ ((placed_perm k s' t).cons x).symm)
    rw [othersOf_congr hne, ht, hqueue, hheld, List.filter_append,
      List.filter_cons_of_pos (by simpa using hk), List.filter_nil, ← List.append_assoc,
      ← List.append_assoc, ← List.append_assoc]
    exact (List.perm_append_singleton x _).append_right _
  have hxr : x ∈ rest := h.perm.mem_iff.mp (hperm.mem_iff.mpr List.mem_cons_self)
  have hmin : ∀ y ∈ rest, x.id ≤ y.id := by
    intro y hy
    by_contra hc
    exact hret y (h.hand t x hx hk y hy (by omega)) (h.mem_rest hy).2
  have hsrt := (List.pairwise_append.mp h.live_sorted).2.1
  obtain ⟨rest', rfl⟩ : ∃ rest', rest = x :: rest' := by
    cases rest with
    | nil => cases hxr
    | cons y ys =>
      rcases List.mem_cons.mp hxr with e | hmem
      · exact ⟨ys, by rw [e]⟩
      · have := List.rel_of_pairwise_cons hsrt hmem
        have := hmin y List.mem_cons_self
        omega
  have hsub : ∀ y, Somewhere s' y → Somewhere s y := by
    rintro y (hy | ⟨u, hu⟩)
    · exact .inl (hqueue ▸ hy)
    · by_cases e : u = t
      · subst e
        exact .inr ⟨u, by rw [hheld]; exact List.mem_append_left _ (ht ▸ hu)⟩
      · exact .inr ⟨u, hne u e ▸ hu⟩
  refine ⟨rest', hq ▸ h.ids, fun y hy => hq ▸ h.known y (hsub y hy), hf ▸ hq ▸ h.failed, hq ▸ h.dst, ?_, ?_,
    hqueue ▸ h.sorted, ?_⟩
  · rw [hq, hf, hs, h.split, List.filter_append, List.filter_cons_of_pos (by simpa using hk)]
    simp
  · exact (hperm.symm.trans h.perm).cons_inv
  · intro u y hy hky z hz hlt
    by_cases e : u = t
    · subst e
      rw [ht, hhand] at hy; cases hy
    · rw [hne u e] at hy ⊢
      exact h.hand u y hy hky z (List.mem_cons_of_mem _ hz) hlt

/-- A write of another file, or one that carries no stream data, is sent. -/
theorem sendOther (h : Ordered f k s rest) (t : Fin n) (p : Pass) (sent : List WriteIrp) {x : WriteIrp}
    (hx : (s.pass t).hand = some x) (hk : ¬ StreamWrite k x)
    (hpass : s'.pass = Function.update s.pass t p) (hqueue : s'.queue = s.queue)
    (hq : s'.queued = s.queued) (hs : s'.sent = s.sent ++ sent) (hsent : ∀ y ∈ sent, y = x)
    (hf : s'.failed = s.failed) (hp : p.ret = (s.pass t).ret) (hhand : p.hand = none) :
    Ordered f k s' rest := by
  have hfil : s'.sent.filter (StreamWrite k) = s.sent.filter (StreamWrite k) := by
    have hnil : sent.filter (StreamWrite k) = [] := by
      rw [List.filter_eq_nil_iff]
      intro y hy
      rw [hsent y hy]
      simpa using hk
    rw [hs, List.filter_append, hnil, List.append_nil]
  have h' : Ordered f k { s' with sent := s.sent } rest := by
    refine h.moveAt (t := t) (p := p) hpass hq rfl hf ?_ ?_ (hqueue ▸ h.sorted) (by simp [hhand])
    · rintro y (hy | hy)
      · exact ⟨y, .inl (hqueue ▸ hy), rfl, rfl, rfl⟩
      · refine ⟨y, .inr ?_, rfl, rfl, rfl⟩
        simp only [Pass.held, hp, hhand, Option.toList_none, List.append_nil] at hy ⊢
        exact List.mem_append_left _ hy
    · simp only [Pass.held, hp, hhand, hx, Option.toList_none, Option.toList_some, List.append_nil,
        List.filter_append, hqueue]
      rw [List.filter_cons_of_neg (by simpa using hk)]
      simp
  exact ⟨h'.ids, h'.known, h'.failed, h'.dst, by rw [hfil]; exact h'.split, h'.perm, h'.sorted, h'.hand⟩

theorem dispatch (h : Ordered f k s rest) (pfo : Nat) (kind : WriteKind) (dst : Addr)
    (payload : List UInt8) (irp : WriteIrp)
    (hirp : irp = ⟨s.queued.length, pfo, v4vCsqGetDestination f pfo kind dst, kind, payload, true⟩)
    (hqueue : s'.queue = if kind = .rst then irp :: s.queue else s.queue ++ [irp])
    (hpass : s'.pass = s.pass) (hq : s'.queued = s.queued ++ [irp]) (hs : s'.sent = s.sent)
    (hf : s'.failed = s.failed) : ∃ rest', Ordered f k s' rest' := by
  have hid : irp.id = s.queued.length := by rw [hirp]
  have hmem : ∀ x, x ∈ s'.queue ↔ x = irp ∨ x ∈ s.queue := by
    intro x; rw [hqueue]; split <;> simp [or_comm]
  have hnf : irp.id ∉ s.failed := fun hm => by have := h.failed _ hm; omega
  have hqk : s'.queue.filter (StreamWrite k) =
      s.queue.filter (StreamWrite k) ++ [irp].filter (StreamWrite k) := by
    rw [hqueue]
    split
    · next e =>
      have hnk : ¬ StreamWrite k irp := by rintro ⟨-, hkind⟩; rw [hirp] at hkind; simp [e] at hkind
      rw [List.filter_cons_of_neg (by simpa using hnk), List.filter_cons_of_neg (by simpa using hnk)]
      simp
    · rw [List.filter_append]
  have hlt : ∀ x ∈ rest, x.id < irp.id := fun x hx => hid ▸ h.id_lt (h.mem_rest hx).1
  refine ⟨rest ++ [irp].filter (StreamWrite k), ?_, ?_, ?_, ?_, ?_, ?_, ?_, ?_⟩
  · rw [hq, List.map_append, h.ids, List.length_append, List.length_singleton, List.range_succ]
    simp [hid]
  · rintro x (hx | ⟨t, ht⟩)
    · rcases (hmem x).mp hx with rfl | hx
      · exact ⟨x, by rw [hq]; simp, rfl, rfl, rfl⟩
      · obtain ⟨y, hy, he⟩ := h.known x (.inl hx)
        exact ⟨y, by rw [hq]; exact List.mem_append_left _ hy, he⟩
    · obtain ⟨y, hy, he⟩ := h.known x (.inr ⟨t, hpass ▸ ht⟩)
      exact ⟨y, by rw [hq]; exact List.mem_append_left _ hy, he⟩
  · intro d hd
    rw [hf] at hd
    have := h.failed d hd
    rw [hq, List.length_append]; omega
  · intro x hx hk
    rw [hq, List.mem_append, List.mem_singleton] at hx
    rcases hx with hx | rfl
    · exact h.dst x hx hk
    · obtain ⟨hpfo, hkind⟩ := hk
      rw [hirp] at hpfo hkind ⊢
      simp only at hpfo hkind
      subst hpfo hkind
      exact ⟨rfl, rfl⟩
  · rw [hq, hs, hf, List.filter_append, h.split, List.append_assoc]
    congr 2
    apply List.filter_congr
    intro x hx
    rw [List.mem_singleton.mp hx]
    simp [hnf]
  · unfold placed
    rw [hqk, hpass, List.append_assoc]
    have := @List.perm_append_comm _ ([irp].filter (StreamWrite k))
      ((List.finRange n).flatMap fun u => (s.pass u).held.filter (StreamWrite k))
    apply (this.append_left _).trans
    rw [← List.append_assoc]
    exact h.perm.append_right _
  · rw [hqk, List.pairwise_append]
    refine ⟨h.sorted, (List.pairwise_singleton _ irp).filter _, fun a ha b hb => ?_⟩
    have hb := List.mem_singleton.mp (List.mem_filter.mp hb).1
    have ha := List.mem_filter.mp ha
    rw [hb]
    exact hlt a (h.perm.mem_iff.mp (mem_placed.mpr ⟨.inl ha.1, by simpa using ha.2⟩))
  · intro t x hx hk y hy hl
    rw [hpass] at hx ⊢
    rcases List.mem_append.mp hy with hy | hy
    · exact h.hand t x hx hk y hy hl
    · have hy := List.mem_singleton.mp (List.mem_filter.mp hy).1
      have hxr : x ∈ rest := h.perm.mem_iff.mp
        (mem_placed.mpr ⟨.inr ⟨t, by simp [Pass.held, hx]⟩, hk⟩)
      have := hlt x hxr
      rw [hy] at hl; omega

/-- What `IoCsqRemoveNextIrp` finds and what it leaves. -/
theorem eraseP_find? {l : List WriteIrp} {p : WriteIrp → Bool} {x : WriteIrp} (hf : l.find? p = some x) :
    p x = true ∧ ∃ as bs, l = as ++ x :: bs ∧ l.eraseP p = as ++ bs ∧ ∀ a ∈ as, p a = false := by
  obtain ⟨hp, as, bs, rfl, has⟩ := List.find?_eq_some_iff_append.mp hf
  have has' : ∀ a ∈ as, p a = false := fun a ha => by simpa using has a ha
  refine ⟨hp, as, bs, rfl, ?_, has'⟩
  rw [List.eraseP_append_right _ (fun a ha => by simp [has' a ha]), List.eraseP_cons_of_pos hp]

theorem take (h : Ordered f k s rest) {t : Fin n} {p : Pass} {q : WriteIrp → Bool} {x : WriteIrp}
    (hfind : s.queue.find? q = some x) (hall : StreamWrite k x → ∀ y ∈ s.queue, StreamWrite k y → q y = true)
    (hok : StreamWrite k x → ∀ t', t' ≠ t → ∀ y ∈ (s.pass t').held, StreamWrite k y → x.id < y.id)
    (hpass : s'.pass = Function.update s.pass t p) (hqueue : s'.queue = s.queue.eraseP q)
    (hq : s'.queued = s.queued) (hs : s'.sent = s.sent) (hf : s'.failed = s.failed)
    (hnone : (s.pass t).hand = none) (hp : p.ret = (s.pass t).ret) (hhand : p.hand = some x) :
    Ordered f k s' rest := by
  obtain ⟨-, as, bs, hl, her, has⟩ := eraseP_find? hfind
  have hold : (s.pass t).held = (s.pass t).ret := by simp [Pass.held, hnone]
  have hnew : p.held = (s.pass t).ret ++ [x] := by simp [Pass.held, hp, hhand]
  refine h.moveAt (t := t) (p := p) hpass hq hs hf ?_ ?_ ?_ ?_
  · rintro y (hy | hy)
    · refine ⟨y, .inl ?_, rfl, rfl, rfl⟩
      rw [hqueue] at hy
      exact List.mem_of_mem_eraseP hy
    · rw [hnew, List.mem_append, List.mem_singleton] at hy
      rcases hy with hy | rfl
      · exact ⟨y, .inr (hold ▸ hy), rfl, rfl, rfl⟩
      · exact ⟨y, .inl (List.mem_of_find?_eq_some hfind), rfl, rfl, rfl⟩
  · rw [hqueue, her, hl, hnew, hold]
    have e : as ++ x :: bs = as ++ ([x] ++ bs) := by simp
    rw [e]
    simp only [List.filter_append, List.append_assoc]
    apply List.Perm.append_left _
    rw [← List.append_assoc]
    exact List.perm_append_comm.trans (by simp)
  · rw [hqueue]
    exact h.sorted.sublist ((List.eraseP_sublist).filter _)
  · intro y hy hk z hz hlt
    rw [hhand] at hy
    cases hy
    rw [hp]
    have hzp := (placed_perm k s t).mem_iff.mp (h.perm.mem_iff.mpr hz)
    rw [List.mem_append, List.mem_append, hold] at hzp
    rcases hzp with hz | hz | hz
    · -- `x` is the first write of `k` in the queue
      exfalso
      have hasK : as.filter (StreamWrite k) = [] := by
        rw [List.filter_eq_nil_iff]
        intro a ha hka
        have := hall hk a (by rw [hl]; exact List.mem_append_left _ ha) (by simpa using hka)
        rw [has a ha] at this; cases this
      have hsrt := h.sorted
      rw [hl, List.filter_append, hasK, List.nil_append,
        List.filter_cons_of_pos (by simpa using hk)] at hz hsrt
      rcases List.mem_cons.mp hz with e | hz
      · rw [e] at hlt; omega
      · have := List.rel_of_pairwise_cons hsrt hz
        omega
    · exact (List.mem_filter.mp hz).1
    · obtain ⟨u, hu, hzu, hzk⟩ := mem_othersOf.mp hz
      have := hok hk u hu z hzu hzk
      omega

theorem cancel (h : Ordered f k s rest) {q : WriteIrp → Bool} {x : WriteIrp}
    (hfind : s.queue.find? q = some x) (hpass : s'.pass = s.pass) (hqueue : s'.queue = s.queue.eraseP q)
    (hq : s'.queued = s.queued) (hs : s'.sent = s.sent) (hf : s'.failed = s.failed ++ [x.id]) :
    ∃ rest', Ordered f k s' rest' := by
  obtain ⟨-, as, bs, hl, her, -⟩ := eraseP_find? hfind
  refine h.lose (.inl (List.mem_of_find?_eq_some hfind)) hq hs hf ?_ ?_ ?_ (hpass ▸ h.hand)
  · rintro y (hy | ⟨u, hu⟩)
    · rw [hqueue] at hy
      exact .inl (List.mem_of_mem_eraseP hy)
    · exact .inr ⟨u, hpass ▸ hu⟩
  · unfold placed
    rw [hqueue, her, hpass, hl, ← List.append_assoc]
    apply List.Perm.append_right _
    have e : as ++ x :: bs = as ++ [x] ++ bs := by simp
    rw [e]
    simp only [List.filter_append]
    rw [← List.append_assoc]
    exact List.perm_append_comm.append_right _
  · rw [hqueue]
    exact h.sorted.sublist (List.eraseP_sublist.filter _)

/-- The IRP in hand has to wait; a SYN that was sent comes back as a read. -/
theorem keepHand (h : Ordered f k s rest) (t : Fin n) {p : Pass} {x : WriteIrp} (x' : WriteIrp)
    (hx : (s.pass t).hand = some x) (hx' : x'.id = x.id ∧ x'.pfo = x.pfo ∧ x'.kind = x.kind)
    (hsame : StreamWrite k x → x' = x) (hpass : s'.pass = Function.update s.pass t p)
    (hqueue : s'.queue = s.queue) (hq : s'.queued = s.queued) (hs : s'.sent = s.sent)
    (hf : s'.failed = s.failed) (hp : p.ret = (s.pass t).ret ++ [x']) (hhand : p.hand = none) :
    Ordered f k s' rest := by
  have hold : (s.pass t).held = (s.pass t).ret ++ [x] := by simp [Pass.held, hx]
  have hnew : p.held = (s.pass t).ret ++ [x'] := by simp [Pass.held, hp, hhand]
  have hk : [x'].filter (StreamWrite k) = [x].filter (StreamWrite k) := by
    by_cases hk : StreamWrite k x
    · rw [hsame hk]
    · have hk' : ¬ StreamWrite k x' := fun hk' => hk ⟨hx'.2.1 ▸ hk'.1, hx'.2.2 ▸ hk'.2⟩
      simp [hk, hk']
  refine h.moveAt (t := t) (p := p) hpass hq hs hf ?_ ?_ (hqueue ▸ h.sorted) (by simp [hhand])
  · rintro y (hy | hy)
    · exact ⟨y, .inl (hqueue ▸ hy), rfl, rfl, rfl⟩
    · rw [hnew, List.mem_append, List.mem_singleton] at hy
      rcases hy with hy | rfl
      · exact ⟨y, .inr (by rw [hold]; exact List.mem_append_left _ hy), rfl, rfl, rfl⟩
      · exact ⟨x, .inr (by rw [hold]; simp), hx'.1.symm, hx'.2.1.symm, hx'.2.2.symm⟩
  · rw [hqueue, hold, hnew, List.filter_append, List.filter_append, hk]

/-- A pass starts, or stops taking IRPs. -/
theorem rename (h : Ordered f k s rest) {t : Fin n} {p : Pass}
    (hpass : s'.pass = Function.update s.pass t p) (hqueue : s'.queue = s.queue)
    (hq : s'.queued = s.queued) (hs : s'.sent = s.sent) (hf : s'.failed = s.failed)
    (hheld : p.held = (s.pass t).held) (hhand : p.hand = none) : Ordered f k s' rest := by
  refine h.moveAt (t := t) (p := p) hpass hq hs hf ?_ ?_ (hqueue ▸ h.sorted) (by simp [hhand])
  · rintro y (hy | hy)
    · exact ⟨y, .inl (hqueue ▸ hy), rfl, rfl, rfl⟩
    · exact ⟨y, .inr (hheld ▸ hy), rfl, rfl, rfl⟩
  · rw [hqueue, hheld]

theorem requeue (h : Ordered f k s rest) {t : Fin n} {x : WriteIrp} {ret : List WriteIrp}
    (hx : s.pass t = .back (x :: ret)) (hok : StreamWrite k x → ∀ y ∈ s.queue, StreamWrite k y → y.id < x.id) :
    Ordered f k ({ s with queue := s.queue ++ [x] }.setPass t (.back ret)) rest := by
  refine h.moveAt (t := t) (p := .back ret) rfl rfl rfl rfl ?_ ?_ ?_ (by simp [Pass.hand])
  · rintro y (hy | hy)
    · rcases List.mem_append.mp hy with hy | hy
      · exact ⟨y, .inl hy, rfl, rfl, rfl⟩
      · refine ⟨y, .inr ?_, rfl, rfl, rfl⟩
        rw [hx, List.mem_singleton.mp hy]
        simp [Pass.held, Pass.ret]
    · refine ⟨y, .inr ?_, rfl, rfl, rfl⟩
      rw [hx]
      simp only [Pass.held, Pass.ret, Pass.hand, Option.toList_none, List.append_nil] at hy ⊢
      exact List.mem_cons_of_mem _ hy
  · rw [hx]
    show ((s.queue ++ [x]).filter (StreamWrite k) ++ _).Perm _
    simp only [Pass.held, Pass.ret, Pass.hand, Option.toList_none, List.append_nil]
    rw [List.filter_append, List.append_assoc, ← List.filter_append, List.singleton_append]
  · show ((s.queue ++ [x]).filter (StreamWrite k)).Pairwise _
    rw [List.filter_append, List.pairwise_append]
    refine ⟨h.sorted, (List.pairwise_singleton _ x).filter _, fun a ha b hb => ?_⟩
    have hb := List.mem_filter.mp hb
    have ha := List.mem_filter.mp ha
    rw [List.mem_singleton.mp hb.1]
    refine hok ?_ a ha.1 (by simpa using ha.2)
    rw [← List.mem_singleton.mp hb.1]
    simpa using hb.2

/-- The IRP in hand fails, and perhaps its connection with it. -/
theorem failHand (h : Ordered f k s rest) {t : Fin n} {p : Pass} {x : WriteIrp} (c : Prop) [Decidable c]
    (hx : (s.pass t).hand = some x) (hp : p.ret = (s.pass t).ret) (hhand : p.hand = none) :
    ∃ rest', Ordered f k (((if c then s.disconnect x.pfo else s).fail x).setPass t p) rest' := by
  have hheld : (s.pass t).held.Perm (x :: p.held) := by
    simp only [Pass.held, hx, hp, hhand, Option.toList_some, Option.toList_none, List.append_nil]
    exact List.perm_append_singleton x _
  split
  · obtain ⟨rest', h'⟩ := h.disconnect x.pfo
    exact h'.loseHeld (t := t) (p := p) rfl rfl rfl rfl rfl hheld hhand
  · exact h.loseHeld (t := t) (p := p) rfl rfl rfl rfl rfl hheld hhand

/-- The hypervisor takes the IRP in hand. -/
theorem successHand (h : Ordered f k s rest) {t : Fin n} {p q : Pass} {x : WriteIrp}
    (hx : (s.pass t).hand = some x)
    (hok : StreamWrite k x → ∀ y ∈ (s.pass t).ret, ¬ StreamWrite k y)
    (hp : p.ret = (s.pass t).ret) (hphand : p.hand = none)
    (hq : q.ret = (s.pass t).ret ++ [{ x with write := false }]) (hqhand : q.hand = none) :
    ∃ rest', match v4vDoWrite f s x .success with
      | (s', .pending _) => Ordered f k (s'.setPass t q) rest'
      | (s', _) => Ordered f k (s'.setPass t p) rest' := by
  have hother : ¬ StreamWrite k x → ∃ rest', Ordered f k (s.setPass t p) rest' := fun hk =>
    ⟨rest, h.sendOther t p [] hx hk rfl rfl rfl (by simp [Writes.setPass])
      (by simp) rfl hp hphand⟩
  cases hkind : x.kind with
  | data =>
    simp only [v4vDoWrite, hkind]
    by_cases hk : StreamWrite k x
    · exact h.sendHand (t := t) (p := p) hx hk (hok hk) rfl rfl rfl rfl rfl hp hphand
    · exact ⟨rest, h.sendOther t p [x] hx hk rfl rfl rfl rfl (by simp) rfl hp
        hphand⟩
  | syn =>
    simp only [v4vDoWrite, hkind]
    refine ⟨rest, h.keepHand (p := q) t { x with write := false } hx ⟨rfl, rfl, rfl⟩
      (fun hk => ?_) rfl rfl rfl rfl rfl hq hqhand⟩
    rw [hk.2] at hkind; cases hkind
  | ack | waiterAck | rst | dgram =>
    simp only [v4vDoWrite, hkind]
    exact hother fun hk => by rw [hk.2] at hkind; cases hkind

theorem send (h : Ordered f k s rest) {t : Fin n} {ans : Answer} (hok : KeepsOrder k s (.send t ans))
    (hst : writesStep f s (.send t ans) = some s') : ∃ rest', Ordered f k s' rest' := by
  simp only [KeepsOrder] at hok
  simp only [writesStep] at hst
  split at hst
  · next pfo ret irp hpass =>
    have hx : (s.pass t).hand = some irp := by rw [hpass]; rfl
    have hret : (s.pass t).ret = ret := by rw [hpass]; rfl
    cases ans with
    | retry =>
      cases hst
      exact ⟨rest, h.keepHand t irp hx ⟨rfl, rfl, rfl⟩ (fun _ => rfl) rfl rfl rfl rfl rfl
        (by rw [hret]; rfl) rfl⟩
    | success =>
      have := h.successHand (t := t) (p := .ctx pfo ret none)
        (q := .ctx pfo (ret ++ [{ irp with write := false }]) none) hx
        (fun hk => hok irp hx hk rfl) hret.symm rfl (by rw [hret]; rfl) rfl
      cases hkind : irp.kind <;> simp only [v4vDoWrite, hkind] at this hst <;> cases hst <;> exact this
    | closed => cases hst; exact h.failHand _ hx hret.symm rfl
    | error => cases hst; exact h.failHand _ hx hret.symm rfl
  · next e ret counter irp hpass =>
    have hx : (s.pass t).hand = some irp := by rw [hpass]; rfl
    have hret : (s.pass t).ret = ret := by rw [hpass]; rfl
    split at hst
    · split at hst
      · cases hst; exact h.failHand _ hx hret.symm rfl
      split at hst
      · cases hst
        exact ⟨rest, h.keepHand t irp hx ⟨rfl, rfl, rfl⟩ (fun _ => rfl) rfl rfl rfl rfl rfl
          (by rw [hret]; rfl) rfl⟩
      · cases ans with
        | retry =>
          cases hst
          exact ⟨rest, h.keepHand t irp hx ⟨rfl, rfl, rfl⟩ (fun _ => rfl) rfl rfl rfl rfl
            rfl (by rw [hret]; rfl) rfl⟩
        | success =>
          have := h.successHand (t := t) (p := .dst e ret (counter + 1) none)
            (q := .dst e (ret ++ [{ irp with write := false }]) (counter + 1) none) hx
            (fun hk => hok irp hx hk rfl) hret.symm rfl (by rw [hret]; rfl) rfl
          cases hkind : irp.kind <;> simp only [v4vDoWrite, hkind] at this hst <;> cases hst <;> exact this
        | closed => cases hst; exact h.failHand _ hx hret.symm rfl
        | error => cases hst; exact h.failHand _ hx hret.symm rfl
    · cases hst
  · cases hst

theorem remove (h : Ordered f k s rest) {t : Fin n} (hok : KeepsOrder k s (.remove t))
    (hst : writesStep f s (.remove t) = some s') : ∃ rest', Ordered f k s' rest' := by
  simp only [KeepsOrder] at hok
  have hrest : ∀ y ∈ s.queue, StreamWrite k y → y.write = true ∧ y.dst = f.sdst k := fun y hy hk =>
    (h.dst y (h.mem_rest (h.perm.mem_iff.mp (mem_placed.mpr ⟨.inl hy, hk⟩))).1 hk).symm
  simp only [writesStep] at hst
  split at hst
  · next pfo ret hpass =>
    have hheld : (Pass.back ret).held = (s.pass t).held := by rw [hpass]; rfl
    split at hst
    · cases hst
      exact ⟨rest, h.rename (t := t) (p := .back ret) rfl rfl rfl rfl rfl hheld rfl⟩
    · next irp hfind =>
      cases hst
      refine ⟨rest, h.take (t := t) (p := .ctx pfo ret (some irp)) hfind ?_ ?_ rfl rfl rfl rfl rfl
        (by rw [hpass]; rfl) (by rw [hpass]; rfl) rfl⟩
      · intro hk y hy hky
        have hp := List.find?_some hfind
        simp only [decide_eq_true_eq] at hp ⊢
        exact ⟨(hrest y hy hky).1, hky.1.trans (hk.1.symm.trans hp.2)⟩
      · exact fun hk => hok irp (by rw [hpass]; exact hfind) hk
  · next e ret counter hpass =>
    have hheld : (Pass.back ret).held = (s.pass t).held := by rw [hpass]; rfl
    split at hst
    · cases hst
      exact ⟨rest, h.rename (t := t) (p := .back ret) rfl rfl rfl rfl rfl hheld rfl⟩
    · next irp hfind =>
      cases hst
      refine ⟨rest, h.take (t := t) (p := .dst e ret counter (some irp)) hfind ?_ ?_ rfl rfl rfl rfl rfl
        (by rw [hpass]; rfl) (by rw [hpass]; rfl) rfl⟩
      · intro hk y hy hky
        have hp := List.find?_some hfind
        have hx := List.mem_of_find?_eq_some hfind
        simp only [decide_eq_true_eq] at hp ⊢
        exact ⟨(hrest y hy hky).1, (hrest y hy hky).2.trans ((hrest irp hx hk).2.symm.trans hp.2)⟩
      · exact fun hk => hok irp (by rw [hpass]; exact hfind) hk
  · cases hst

theorem step {a : WriteAct n} (h : Ordered f k s rest) (hok : KeepsOrder k s a)
    (hst : writesStep f s a = some s') : ∃ rest', Ordered f k s' rest' := by
  cases a with
  | dispatchWrite pfo kind dst payload inserted =>
    obtain ⟨-, hst⟩ := Option.ite_none_right_eq_some.mp hst
    cases hst
    exact h.dispatch pfo kind dst payload _ rfl rfl rfl rfl rfl rfl
  | processContext t pfo =>
    obtain ⟨hc, hst⟩ := Option.ite_none_right_eq_some.mp hst
    cases hst
    exact ⟨rest, h.rename (t := t) (p := .ctx pfo [] none) rfl rfl rfl rfl rfl (by rw [hc.1]; rfl) rfl⟩
  | processDestination t e =>
    obtain ⟨hc, hst⟩ := Option.ite_none_right_eq_some.mp hst
    cases hst
    exact ⟨rest, h.rename (t := t) (p := .dst e [] 0 none) rfl rfl rfl rfl rfl (by rw [hc]; rfl) rfl⟩
  | remove t => exact h.remove hok hst
  | send t ans => exact h.send hok hst
  | requeue t inserted =>
    simp only [KeepsOrder] at hok
    simp only [writesStep] at hst
    split at hst
    · next hpass =>
      cases hst
      exact ⟨rest, h.rename (t := t) (p := .idle) rfl rfl rfl rfl rfl (by rw [hpass]; rfl) rfl⟩
    · next irp ret hpass =>
      split at hst
      · cases hst
        exact ⟨rest, h.requeue hpass fun hk => hok irp (by rw [hpass]; rfl) hk⟩
      · cases hst
        refine h.loseHeld (t := t) (p := .back ret) (x := irp) rfl rfl rfl rfl rfl ?_ rfl
        rw [hpass]
        simp [Pass.held, Pass.ret, Pass.hand]
    · cases hst
  | cancel id =>
    simp only [writesStep] at hst
    split at hst
    · cases hst
    · next irp hfind =>
      cases hst
      exact h.cancel hfind rfl rfl rfl rfl rfl

end Ordered

theorem ordered_init (n : Nat) : Ordered f k (writesInit n) [] where
  ids := rfl
  known := by
    rintro x (hx | ⟨t, ht⟩)
    · cases hx
    · cases ht
  failed _ hd := by cases hd
  dst _ hx := by cases hx
  split := rfl
  perm := by
    have : (List.finRange n).flatMap (fun u => ((writesInit n).pass u).held.filter (StreamWrite k)) = [] :=
      List.flatMap_eq_nil_iff.mpr fun _ _ => rfl
    rw [placed, this]
    exact List.Perm.refl _
  sorted := List.Pairwise.nil
  hand _ _ hx := by cases hx

/-- In every run that keeps the writes of `k` in order, the payloads of `k` that were sent are a
prefix of its payloads in the order they were first queued. -/
theorem stream_write_order (h : (writesMachine n f).Reach (KeepsOrder k) s) :
    s.sentOf k <+: s.queuedOf k := by
  have hinv : ∃ rest, Ordered f k s rest :=
    h.inv (I := fun s => ∃ rest, Ordered f k s rest) ⟨[], ordered_init n⟩
      fun _ _ _ ⟨_, hi⟩ hok hst => hi.step hok hst
  obtain ⟨rest, hi⟩ := hinv
  rw [Writes.sentOf, Writes.queuedOf, hi.split, List.map_append]
  exact List.prefix_append _ _

end Order

/-- A stream file 7 on ring 0. -/
def oneStream : Files := ⟨fun _ => ⟨5, 3⟩, fun _ => 0, fun _ => true⟩

/-- The first write is answered RETRY and put back; with the second write the pass tries the first
one again, is told to retry, and sends the second. -/
theorem stream_write_overtakes :
    ∃ s, (writesMachine 1 oneStream).Reach Machine.Any s ∧ s.sentOf 7 = [[66]] ∧ s.queuedOf 7 = [[65], [66]] := by
  obtain ⟨s, hr, hs⟩ := Machine.exists_reach
    (writesMachine 1 oneStream) Machine.Any
    (fun s => decide (s.sentOf 7 = [[66]] ∧ s.queuedOf 7 = [[65], [66]]))
    [.dispatchWrite 7 .data ⟨0, 0⟩ [65] true, .processContext 0 7, .remove 0, .send 0 .retry,
      .remove 0, .requeue 0 true, .requeue 0 true, .dispatchWrite 7 .data ⟨0, 0⟩ [66] true,
      .processContext 0 7, .remove 0, .send 0 .retry, .remove 0, .send 0 .success] (by decide +kernel)
  exact ⟨s, hr, by simpa using hs⟩

/-- Two writes wait for the ring; after the notify both are sent, in order. -/
theorem stream_write_order_run : ∃ s, (writesMachine 1 oneStream).Reach (KeepsOrder 7) s ∧
    s.sentOf 7 = [[65], [66]] ∧ s.sentOf 7 <+: s.queuedOf 7 := by
  obtain ⟨s, hr, hs⟩ := Machine.exists_reach (writesMachine 1 oneStream) (KeepsOrder 7)
    (fun s => decide (s.sentOf 7 = [[65], [66]]))
    [.dispatchWrite 7 .data ⟨0, 0⟩ [65] true, .processContext 0 7, .remove 0, .send 0 .retry,
      .remove 0, .requeue 0 true, .requeue 0 true, .dispatchWrite 7 .data ⟨0, 0⟩ [66] true,
      .processDestination 0 ⟨⟨5, 3⟩, true, true⟩, .remove 0, .send 0 .success, .remove 0,
      .send 0 .success] (by decide +kernel)
  exact ⟨s, hr, by simpa using hs, stream_write_order hr⟩

end XcWindows.V4v
