import Mathlib.Data.List.Perm.Subperm
import Mathlib.Data.List.Range
import XcWindows.Lib.Links
import XcWindows.Lib.Machine
import XcWindows.V4v.Bind

/-!
# The SYN backlog of a listener

`V4vCtrlListen`, `V4vProcessPreAcceptReads` and `V4vDoAccepts` of `xenv4v`, with the SYN records as
slots of an array that are chained by pointers and recycled. Whoever holds the SYN lock works alone
on the records; the accept IRPs come and go under the lock of the cancel-safe queue, so that accepts
are queued and cancelled between any two steps of a `V4vDoAccepts`. Each SYN with a record and each
queued accept makes one call of `V4vDoAccepts` due.
-/

namespace XcWindows.V4v.Backlog

open Lib
open Function (update update_of_ne)

abbrev somaxconn : Nat := 128

/-- `XENV4V_SYN`; a pointer to a record is its index in `synList`. -/
structure Slot where
  next : Option Nat
  last : Option Nat
  pending : Bool
  sdst : Addr
  connId : Nat
deriving DecidableEq

/-- `RtlZeroMemory` of a record -/
def Slot.zero : Slot := ⟨none, none, false, ⟨0, 0⟩, 0⟩

/-- What a record says of the SYN. -/
def Slot.syn (slot : Slot) : Syn := ⟨slot.sdst, slot.connId⟩

/-- The part of the union in `XENV4V_CONTEXT` that a listener has. -/
structure Listener where
  backlog : Nat
  synList : Nat → Slot
  synHead : Option Nat
  synTail : Option Nat
  synCount : Int

/-- An accept IRP and the context of the file it names. -/
structure Accept where
  id : Nat
  actx : Nat
deriving DecidableEq

structure Accepter where
  state : CtxState
  sdst : Addr
  connId : Nat

/-- An accept IRP that got a SYN; `acked` is whether `V4vSendAcknowledge` had memory for the ACK, so
whether the IRP is completed with success. -/
structure Pairing where
  irp : Accept
  syn : Syn
  acked : Bool
deriving DecidableEq

/-- Where the `V4vDoAccepts` is that has the SYN lock. -/
inductive Pc where
  | loop
  | taken (irp : Accept)
deriving DecidableEq

structure World where
  listener : Listener
  lock : Option Pc
  /-- the accept IRPs of the listener's file in the cancel-safe queue -/
  queue : List Accept
  kevReceive : Bool
  actx : Nat → Accepter
  completed : List Pairing
  cancelled : List Accept
  resets : List Syn
  /-- the calls of `V4vDoAccepts` that do not have the lock yet -/
  due : Nat
  assertFailed : Bool
  accepts : Nat
  /-- ghost: the SYNs as they came in, and whether the backlog was full then -/
  received : List (Syn × Bool)

inductive Act where
  /-- `V4vProcessPreAcceptReads` -/
  | syn (syn : Syn)
  /-- `V4vCtrlAccept` gets its IRP into the queue -/
  | accept (actx : Nat)
  | cancel (irp : Accept)
  | lock
  /-- the loop of `V4vDoAccepts` up to `IoCsqRemoveNextIrp`, and the rest of it -/
  | next
  | pair (acked : Bool)

/-! ## The code -/

def v4vCtrlListen (state : CtxState) (backlog : Nat) (synList : Bool) :
    Except Bind.Status Listener :=
  if state ≠ .bound then .error .invalidDeviceRequest
  else if backlog > somaxconn then .error .invalidParameter
  else if synList = false then .error .noMemory
  else .ok {
    backlog := if backlog = 0 then somaxconn else backlog
    synList := fun _ => Slot.zero
    synHead := none
    synTail := none
    synCount := 0 }

namespace Listener

variable (l : Listener)

/-- The search for a free record. -/
def free : Option Nat := (List.range l.backlog).find? fun i => !(l.synList i).pending

/-- Set a record up and chain it in. -/
def chain (i : Nat) (syn : Syn) : Listener :=
  let synList := update l.synList i ⟨none, none, true, syn.sdst, syn.connId⟩
  match l.synTail with
  | some t =>
    let linked := update synList t { synList t with next := some i }
    { l with
      synList := update linked i { linked i with last := some t }
      synTail := some i
      synCount := l.synCount + 1 }
  | none =>
    { l with synList, synHead := some i, synTail := some i, synCount := l.synCount + 1 }

/-- Pop the next in order from the head of the list; `none` is a null pointer. -/
def pop : Option (Syn × Listener) :=
  l.synHead.map fun i =>
    let slot := l.synList i
    let synList := update l.synList i Slot.zero
    (slot.syn,
      if l.synHead ≠ l.synTail then
        { l with synList, synHead := slot.next, synCount := l.synCount - 1 }
      else
        { l with synList, synHead := none, synTail := none, synCount := l.synCount - 1 })

end Listener

namespace World

variable (s : World)

def v4vProcessPreAcceptReads (syn : Syn) : World :=
  let full := decide (s.listener.synCount = s.listener.backlog)
  let s := { s with
    received := s.received ++ [(syn, full)]
    assertFailed := s.assertFailed ||
      !decide (0 ≤ s.listener.synCount ∧ s.listener.synCount ≤ s.listener.backlog) }
  if full then { s with resets := s.resets ++ [syn] }
  else
    match s.listener.free with
    | none => { s with assertFailed := true }
    | some i => { s with listener := s.listener.chain i syn, due := s.due + 1 }

/-- The loop of `V4vDoAccepts` from its top to `IoCsqRemoveNextIrp`. -/
def takeAccept : World :=
  if s.listener.synCount = 0 then { s with kevReceive := false, lock := none }
  else
    match s.queue with
    | [] => { s with kevReceive := true, lock := none }
    | irp :: queue => { s with queue, lock := some (.taken irp) }

/-- The loop of `V4vDoAccepts` from there on. -/
def finishAccept (irp : Accept) (acked : Bool) : World :=
  match s.listener.pop with
  | none => { s with assertFailed := true }
  | some (syn, listener) =>
    { s with
      listener
      actx := update s.actx irp.actx
        ⟨if acked then .accepted else .disconnected, syn.sdst, syn.connId⟩
      completed := s.completed ++ [⟨irp, syn, acked⟩]
      lock := some .loop }

def step : Act → Option World
  | .syn syn => if s.lock = none then some (s.v4vProcessPreAcceptReads syn) else none
  | .accept actx =>
    some { s with
      actx := update s.actx actx { s.actx actx with state := .accepting }
      queue := s.queue ++ [⟨s.accepts, actx⟩]
      accepts := s.accepts + 1
      due := s.due + 1 }
  | .cancel irp =>
    if irp ∈ s.queue then
      some { s with queue := s.queue.erase irp, cancelled := s.cancelled ++ [irp] }
    else none
  | .lock =>
    if s.lock = none ∧ 0 < s.due then some { s with lock := some .loop, due := s.due - 1 } else none
  | .next => if s.lock = some .loop then some s.takeAccept else none
  | .pair acked =>
    match s.lock with
    | some (.taken irp) => some (s.finishAccept irp acked)
    | _ => none

/-- The SYNs that got a record, in the order in which they came in. -/
def recorded : List Syn := (s.received.filter fun r => !r.2).map (·.1)

/-- The SYNs that found the backlog full. -/
def beyond : List Syn := (s.received.filter fun r => r.2).map (·.1)

/-- The accept that the holder of the lock has taken out of the queue. -/
def taken : List Accept :=
  match s.lock with
  | some (.taken irp) => [irp]
  | _ => []

/-- The accepts that were not cancelled, as far as they have got. -/
def served : List Accept := s.completed.map (·.irp) ++ s.taken ++ s.queue

end World

/-- A context that has just become a listener. -/
def listenerMachine (listener : Listener) : Machine World Act where
  init := {
    listener
    lock := none
    queue := []
    kevReceive := false
    actx := fun _ => ⟨.uninitialized, ⟨0, 0⟩, 0⟩
    completed := []
    cancelled := []
    resets := []
    due := 0
    assertFailed := false
    accepts := 0
    received := [] }
  step := World.step

/-! ## The chain -/

/-- The records `xs` are chained from `synHead` to `synTail`, they are the pending ones, and
`synCount` is their number. -/
structure Chained (l : Listener) (xs : List Nat) : Prop where
  nodup : xs.Nodup
  seg : Seg (fun i => (l.synList i).next) l.synHead xs none
  tail : l.synTail = xs.getLast?
  bound : ∀ i ∈ xs, i < l.backlog
  pending : ∀ i < l.backlog, (l.synList i).pending = true ↔ i ∈ xs
  count : l.synCount = xs.length

section Chain
variable {l : Listener} {xs : List Nat} {i : Nat}

theorem Chained.length_le (h : Chained l xs) : xs.length ≤ l.backlog := by
  have hsub : xs ⊆ List.range l.backlog := fun i hi => List.mem_range.mpr (h.bound i hi)
  simpa using (List.subperm_of_subset h.nodup hsub).length_le

theorem Chained.free (h : Chained l xs) (hlt : l.synCount ≠ l.backlog) :
    ∃ i, l.free = some i ∧ i < l.backlog ∧ i ∉ xs := by
  cases hf : l.free with
  | none =>
    have hall : List.range l.backlog ⊆ xs := by
      intro i hi
      have hp := List.find?_eq_none.mp hf i hi
      exact (h.pending i (List.mem_range.mp hi)).mp (by simpa using hp)
    have hle := (List.subperm_of_subset List.nodup_range hall).length_le
    rw [List.length_range] at hle
    have hge := h.length_le
    have hcount := h.count
    omega
  | some i =>
    have hi : i < l.backlog := List.mem_range.mp (List.mem_of_find?_eq_some hf)
    have hp := List.find?_some hf
    refine ⟨i, rfl, hi, fun hm => ?_⟩
    rw [(h.pending i hi).mpr hm] at hp
    cases hp

theorem Chained.chain (h : Chained l xs) (syn : Syn) (hi : i < l.backlog) (hfree : i ∉ xs) :
    Chained (l.chain i syn) (xs ++ [i]) ∧
      (xs ++ [i]).map (fun j => ((l.chain i syn).synList j).syn) =
        xs.map (fun j => (l.synList j).syn) ++ [syn] ∧ (l.chain i syn).backlog = l.backlog := by
  rcases List.eq_nil_or_concat xs with rfl | ⟨ys, t, rfl⟩
  · -- the record is the only one
    have htail : l.synTail = none := h.tail
    have hchain : l.chain i syn = { l with
        synList := update l.synList i ⟨none, none, true, syn.sdst, syn.connId⟩
        synHead := some i
        synTail := some i
        synCount := l.synCount + 1 } := by rw [Listener.chain, htail]
    rw [hchain]
    refine ⟨⟨by simp, ⟨rfl, by simp [Seg]⟩, rfl, by simpa using hi, fun j hj => ?_, ?_⟩, ?_, rfl⟩
    · by_cases hji : j = i
      · simp [hji]
      · simpa [hji] using h.pending j hj
    · have hcount := h.count
      simp only [List.length_nil] at hcount
      simp [hcount]
    · simp [Slot.syn]
  · have htail : l.synTail = some t := by simpa using h.tail
    have hit : i ≠ t := fun e => hfree (by simp [e])
    -- the record itself, the old tail, and the others
    have hslot : ∀ j, (l.chain i syn).synList j =
        if j = i then ⟨none, some t, true, syn.sdst, syn.connId⟩
        else if j = t then { l.synList t with next := some i } else l.synList j := by
      intro j
      rw [Listener.chain, htail]
      by_cases hji : j = i
      · subst hji
        simp [hit]
      · by_cases hjt : j = t
        · subst hjt
          simp [hji]
        · simp [hji, hjt]
    have hrest : (l.chain i syn).synHead = l.synHead ∧ (l.chain i syn).synTail = some i ∧
        (l.chain i syn).synCount = l.synCount + 1 ∧ (l.chain i syn).backlog = l.backlog := by
      rw [Listener.chain, htail]
      exact ⟨rfl, rfl, rfl, rfl⟩
    obtain ⟨hhead, htail', hcount', hbacklog⟩ := hrest
    have hnext : (fun j => ((l.chain i syn).synList j).next) =
        update (update (fun j => (l.synList j).next) i none) t (some i) := by
      funext j
      rw [hslot]
      by_cases hji : j = i
      · subst hji
        simp [hit]
      · by_cases hjt : j = t
        · subst hjt
          simp [hji]
        · simp [hji, hjt]
    have hsame : ∀ j ∈ ys ++ [t], ((l.chain i syn).synList j).syn = (l.synList j).syn := by
      intro j hj
      have hji : j ≠ i := fun e => hfree (e ▸ by simpa using hj)
      rw [hslot, if_neg hji]
      split
      · next hjt => rw [hjt]; rfl
      · rfl
    have hxs : ys.concat t = ys ++ [t] := List.concat_eq_append
    rw [hxs] at h hfree ⊢
    refine ⟨⟨?_, ?_, ?_, ?_, ?_, ?_⟩, ?_, hbacklog⟩
    · exact List.Nodup.append h.nodup (List.nodup_singleton i) (by simpa using hfree)
    · rw [hnext, hhead]
      have hseg : Seg (update (fun j => (l.synList j).next) i none) l.synHead
          (ys ++ [t]) none := h.seg.congr
        fun j hj => update_of_ne (fun e : j = i => hfree (e ▸ hj)) _ _
      exact hseg.snoc h.nodup hfree (Function.update_self ..)
    · rw [htail', List.getLast?_concat]
    · intro j hj
      rw [hbacklog]
      rcases List.mem_append.mp hj with hj | hj
      · exact h.bound j hj
      · exact List.mem_singleton.mp hj ▸ hi
    · intro j hj
      rw [hbacklog] at hj
      rw [hslot, List.mem_append, List.mem_singleton]
      by_cases hji : j = i
      · simp [hji]
      · rw [if_neg hji, ← h.pending j hj]
        split
        · next hjt => simp [hjt, hit.symm]
        · simp [hji]
    · have hlen : (ys ++ [t] ++ [i]).length = (ys ++ [t]).length + 1 := List.length_append
      rw [hcount', h.count, hlen]
      rfl
    · rw [List.map_append, List.map_congr_left hsame]
      simp [hslot, Slot.syn]

theorem Chained.pop (h : Chained l xs) (hne : xs ≠ []) :
    ∃ i ys l', xs = i :: ys ∧ l.pop = some ((l.synList i).syn, l') ∧ Chained l' ys ∧
      ys.map (fun j => (l'.synList j).syn) = ys.map (fun j => (l.synList j).syn) ∧
      l'.backlog = l.backlog := by
  obtain ⟨i, ys, rfl⟩ := List.exists_cons_of_ne_nil hne
  obtain ⟨hhead, hseg⟩ := h.seg
  obtain ⟨hi, hnodup⟩ := List.nodup_cons.mp h.nodup
  have hne : ∀ j ∈ ys, j ≠ i := fun j hj e => hi (e ▸ hj)
  let synList := update l.synList i Slot.zero
  have hsame : ∀ j ∈ ys, synList j = l.synList j := fun j hj => update_of_ne (hne j hj) _ _
  have hbound : ∀ j ∈ ys, j < l.backlog := fun j hj => h.bound j (.tail _ hj)
  have hpending : ∀ j < l.backlog, (synList j).pending = true ↔ j ∈ ys := by
    intro j hj
    by_cases hji : j = i
    · subst hji
      simp [synList, Slot.zero, hi]
    · rw [show synList j = l.synList j from update_of_ne hji _ _, h.pending j hj,
        List.mem_cons, or_iff_right hji]
  have hcount : l.synCount - 1 = (ys.length : Int) := by
    rw [h.count, List.length_cons]
    omega
  have hsyn : ys.map (fun j => (synList j).syn) = ys.map (fun j => (l.synList j).syn) :=
    List.map_congr_left fun j hj => by rw [hsame j hj]
  have hseg' : Seg (fun j => (synList j).next) (l.synList i).next ys none :=
    hseg.congr fun j hj => by rw [hsame j hj]
  have htail := h.tail
  rw [Listener.pop, hhead, htail]
  cases ys with
  | nil =>
    have hone : ¬ some i ≠ [i].getLast? := not_not_intro rfl
    refine ⟨i, [], _, rfl, rfl, ?_, ?_, ?_⟩
    · rw [if_neg hone]
      exact ⟨hnodup, rfl, rfl, hbound, hpending, hcount⟩
    · rw [if_neg hone]
      exact hsyn
    · rw [if_neg hone]
  | cons y ys =>
    have hlast : (i :: y :: ys).getLast? = (y :: ys).getLast? := List.getLast?_cons_cons ..
    have htwo : some i ≠ (i :: y :: ys).getLast? := by
      rw [hlast]
      exact fun e => hi (List.mem_of_getLast? e.symm)
    refine ⟨i, y :: ys, _, rfl, rfl, ?_, ?_, ?_⟩
    · rw [if_pos htwo]
      exact ⟨hnodup, hseg', hlast, hbound, hpending, hcount⟩
    · rw [if_pos htwo]
      exact hsyn
    · rw [if_pos htwo]

end Chain

/-! ## Runs -/

/-- Every SYN is reset, waits on the chain or has gone to one accept, in the order of arrival; every
accept has a SYN, is about to get one, waits or was cancelled. -/
structure Matched (s : World) (xs : List Nat) : Prop where
  recorded : s.recorded =
    s.completed.map (·.syn) ++ xs.map fun i => (s.listener.synList i).syn
  beyond : s.beyond = s.resets
  order : s.served.Pairwise (·.id < ·.id)
  accounted : ((s.served ++ s.cancelled).map (·.id)).Perm (List.range s.accepts)

structure Backlogged (s : World) (xs : List Nat) : Prop where
  chained : Chained s.listener xs
  matched : Matched s xs
  taken : ∀ irp, s.lock = some (.taken irp) → xs ≠ []
  /-- a SYN and an accept do not wait for each other without a call that is due -/
  driven : xs ≠ [] → s.queue ≠ [] → s.lock = none → 0 < s.due
  asserted : s.assertFailed = false

section Steps
variable {s t : World} {xs : List Nat} {syn : Syn}

theorem recorded_snoc {full : Bool} (ht : t.received = s.received ++ [(syn, full)]) :
    t.recorded = s.recorded ++ (if full then [] else [syn]) ∧
      t.beyond = s.beyond ++ (if full then [syn] else []) := by
  unfold World.recorded World.beyond
  rw [ht]
  cases full <;> simp [List.filter_append]

theorem preAccept_cases (h : Chained s.listener xs) (syn : Syn) :
    (xs.length = s.listener.backlog ∧ s.v4vProcessPreAcceptReads syn = { s with
      received := s.received ++ [(syn, true)], resets := s.resets ++ [syn] }) ∨
    (xs.length < s.listener.backlog ∧ ∃ i < s.listener.backlog, i ∉ xs ∧
      s.v4vProcessPreAcceptReads syn = { s with
        received := s.received ++ [(syn, false)]
        listener := s.listener.chain i syn
        due := s.due + 1 }) := by
  have hle := h.length_le
  have hcount := h.count
  have hassert : decide (0 ≤ s.listener.synCount ∧ s.listener.synCount ≤ s.listener.backlog) =
      true := by
    rw [decide_eq_true_eq]
    omega
  simp only [World.v4vProcessPreAcceptReads]
  rw [hassert, Bool.not_true, Bool.or_false]
  by_cases hfull : s.listener.synCount = s.listener.backlog
  · rw [decide_eq_true hfull, if_pos rfl]
    exact .inl ⟨by omega, rfl⟩
  · obtain ⟨i, hfree, hi, hnot⟩ := h.free hfull
    rw [decide_eq_false hfull, if_neg Bool.false_ne_true, hfree]
    exact .inr ⟨by omega, i, hi, hnot, rfl⟩

theorem Backlogged.preAccept (h : Backlogged s xs) (ht : s.step (.syn syn) = some t) :
    ∃ xs', Backlogged t xs' ∧ t.listener.backlog = s.listener.backlog := by
  obtain ⟨hlock, ht⟩ := Option.ite_none_right_eq_some.mp ht
  cases ht
  rcases preAccept_cases h.chained syn with ⟨-, hstep⟩ | ⟨-, i, hi, hnot, hstep⟩
  · rw [hstep]
    refine ⟨xs, ⟨h.chained, ⟨?_, ?_, h.matched.order, h.matched.accounted⟩, h.taken, h.driven,
      h.asserted⟩, rfl⟩
    · rw [(recorded_snoc rfl).1, if_pos rfl, List.append_nil]
      exact h.matched.recorded
    · rw [(recorded_snoc rfl).2, if_pos rfl, h.matched.beyond]
  · obtain ⟨hchain, hsyn, hbacklog⟩ := h.chained.chain syn hi hnot
    rw [hstep]
    refine ⟨xs ++ [i], ⟨hchain, ⟨?_, ?_, h.matched.order, h.matched.accounted⟩,
      fun irp hirp => ?_, fun _ _ _ => Nat.succ_pos _, h.asserted⟩, hbacklog⟩
    · rw [(recorded_snoc rfl).1, if_neg Bool.false_ne_true, h.matched.recorded,
        List.append_assoc]
      exact congrArg _ hsyn.symm
    · rw [(recorded_snoc rfl).2, if_neg Bool.false_ne_true, List.append_nil]
      exact h.matched.beyond
    · have hirp : s.lock = some (.taken irp) := hirp
      rw [hlock] at hirp
      cases hirp

theorem Backlogged.accept (h : Backlogged s xs) (actx : Nat)
    (ht : s.step (.accept actx) = some t) : Backlogged t xs := by
  have hserved : t.served = s.served ++ [⟨s.accepts, actx⟩] := by
    cases ht
    exact (List.append_assoc ..).symm
  cases ht
  have hold : ∀ a ∈ s.served, a.id < s.accepts := by
    intro a ha
    have hm : a.id ∈ (s.served ++ s.cancelled).map (·.id) :=
      List.mem_map_of_mem (List.mem_append_left _ ha)
    exact List.mem_range.mp (h.matched.accounted.subset hm)
  refine ⟨h.chained, ⟨h.matched.recorded, h.matched.beyond, ?_, ?_⟩, h.taken,
    fun _ _ _ => Nat.succ_pos _, h.asserted⟩
  · rw [hserved, List.pairwise_append]
    refine ⟨h.matched.order, List.pairwise_singleton _ _, fun a ha b hb => ?_⟩
    obtain rfl := List.mem_singleton.mp hb
    exact hold a ha
  · rw [hserved, List.append_assoc, List.range_succ]
    apply ((List.perm_append_comm.append_left _).map _).trans
    rw [← List.append_assoc, List.map_append]
    exact h.matched.accounted.append_right _

theorem Backlogged.cancel (h : Backlogged s xs) (irp : Accept)
    (ht : s.step (.cancel irp) = some t) : Backlogged t xs := by
  obtain ⟨hm, ht⟩ := Option.ite_none_right_eq_some.mp ht
  cases ht
  refine ⟨h.chained, ⟨h.matched.recorded, h.matched.beyond, ?_, ?_⟩, h.taken,
    fun hxs hq => h.driven hxs fun e => hq ?_, h.asserted⟩
  · have hsub : (s.completed.map (·.irp) ++ s.taken ++ s.queue.erase irp).Sublist s.served :=
      List.erase_sublist.append_left _
    exact h.matched.order.sublist hsub
  · refine List.Perm.trans (List.Perm.map _ ?_) h.matched.accounted
    show (s.completed.map (·.irp) ++ s.taken ++ s.queue.erase irp ++
      (s.cancelled ++ [irp])).Perm (s.served ++ s.cancelled)
    have hqueue : (s.queue.erase irp ++ [irp]).Perm s.queue :=
      List.perm_append_comm.trans (List.perm_cons_erase hm).symm
    have hmove : (s.queue.erase irp ++ (s.cancelled ++ [irp])).Perm (s.queue ++ s.cancelled) := by
      refine List.Perm.trans ?_ (hqueue.append_right _)
      rw [List.append_assoc]
      exact List.perm_append_comm.append_left _
    rw [World.served, List.append_assoc _ _ (s.cancelled ++ [irp]), List.append_assoc _ s.queue]
    exact hmove.append_left _
  · show s.queue.erase irp = []
    rw [e]
    rfl

theorem Matched.move (h : Matched s xs) (hlistener : t.listener = s.listener)
    (hcompleted : t.completed = s.completed) (hreceived : t.received = s.received)
    (hresets : t.resets = s.resets) (hcancelled : t.cancelled = s.cancelled)
    (haccepts : t.accepts = s.accepts) (hmove : t.taken ++ t.queue = s.taken ++ s.queue) :
    Matched t xs := by
  have hserved : t.served = s.served := by
    rw [World.served, World.served, List.append_assoc, List.append_assoc, hmove, hcompleted]
  refine ⟨?_, ?_, ?_, ?_⟩
  · rw [World.recorded, hreceived, hcompleted, hlistener]
    exact h.recorded
  · rw [World.beyond, hreceived, hresets]
    exact h.beyond
  · rw [hserved]
    exact h.order
  · rw [hserved, hcancelled, haccepts]
    exact h.accounted

theorem Backlogged.lock (h : Backlogged s xs) (ht : s.step .lock = some t) : Backlogged t xs := by
  obtain ⟨hl, ht⟩ := Option.ite_none_right_eq_some.mp ht
  cases ht
  have htaken : s.taken = [] := by rw [World.taken, hl.1]
  refine ⟨h.chained, h.matched.move rfl rfl rfl rfl rfl rfl ?_, nofun, nofun, h.asserted⟩
  rw [htaken]
  rfl

theorem Backlogged.next (h : Backlogged s xs) (ht : s.step .next = some t) : Backlogged t xs := by
  obtain ⟨hl, ht⟩ := Option.ite_none_right_eq_some.mp ht
  cases ht
  have htaken : s.taken = [] := by rw [World.taken, hl]
  have hcount := h.chained.count
  unfold World.takeAccept
  split
  · next hzero =>
    have hxs : xs = [] := List.length_eq_zero_iff.mp (by omega)
    refine ⟨h.chained, h.matched.move rfl rfl rfl rfl rfl rfl ?_, nofun,
      fun hne => absurd hxs hne, h.asserted⟩
    rw [htaken]
    rfl
  · next hzero =>
    have hxs : xs ≠ [] := by
      rintro rfl
      exact hzero hcount
    split
    · next hqueue =>
      refine ⟨h.chained, h.matched.move rfl rfl rfl rfl rfl rfl ?_, nofun,
        fun _ hne => absurd hqueue hne, h.asserted⟩
      rw [htaken]
      rfl
    · next irp queue hqueue =>
      refine ⟨h.chained, h.matched.move rfl rfl rfl rfl rfl rfl ?_, fun _ _ => hxs, nofun,
        h.asserted⟩
      rw [htaken, hqueue]
      rfl

theorem Backlogged.pair (h : Backlogged s xs) {acked : Bool}
    (ht : s.step (.pair acked) = some t) :
    ∃ i ys, xs = i :: ys ∧ Backlogged t ys ∧ t.listener.backlog = s.listener.backlog := by
  simp only [World.step] at ht
  split at ht
  · next irp hl =>
    cases ht
    obtain ⟨i, ys, l', rfl, hpop, hchain, hsyn, hbacklog⟩ := h.chained.pop (h.taken irp hl)
    refine ⟨i, ys, rfl, ?_, ?_⟩
    · have hserved : (s.finishAccept irp acked).served = s.served := by
        rw [World.served, World.served, World.finishAccept, hpop, World.taken, World.taken, hl]
        simp
      have hrecorded := h.matched.recorded
      rw [List.map_cons, List.append_cons, ← hsyn] at hrecorded
      refine ⟨?_, ⟨?_, ?_, ?_, ?_⟩, ?_, ?_, ?_⟩
      · rw [World.finishAccept, hpop]
        exact hchain
      · rw [World.finishAccept, hpop, List.map_append]
        exact hrecorded
      · rw [World.finishAccept, hpop]
        exact h.matched.beyond
      · rw [hserved]
        exact h.matched.order
      · rw [hserved, World.finishAccept, hpop]
        exact h.matched.accounted
      · rw [World.finishAccept, hpop]
        nofun
      · rw [World.finishAccept, hpop]
        nofun
      · rw [World.finishAccept, hpop]
        exact h.asserted
    · rw [World.finishAccept, hpop]
      exact hbacklog
  · cases ht

theorem Backlogged.step {a : Act} (h : Backlogged s xs) (ht : s.step a = some t) :
    ∃ xs', Backlogged t xs' ∧ t.listener.backlog = s.listener.backlog := by
  cases a with
  | syn syn => exact h.preAccept ht
  | accept actx => exact ⟨xs, h.accept actx ht, by cases ht; rfl⟩
  | cancel irp =>
    refine ⟨xs, h.cancel irp ht, ?_⟩
    obtain ⟨-, ht⟩ := Option.ite_none_right_eq_some.mp ht
    cases ht; rfl
  | lock =>
    refine ⟨xs, h.lock ht, ?_⟩
    obtain ⟨-, ht⟩ := Option.ite_none_right_eq_some.mp ht
    cases ht; rfl
  | next =>
    refine ⟨xs, h.next ht, ?_⟩
    simp only [World.step, World.takeAccept] at ht
    split at ht
    · cases ht
      split
      · rfl
      · split <;> rfl
    · cases ht
  | pair acked =>
    obtain ⟨i, ys, -, hys, hbacklog⟩ := h.pair ht
    exact ⟨ys, hys, hbacklog⟩

theorem Backlogged.init {backlog : Nat} {synList : Bool} {l : Listener}
    (hl : v4vCtrlListen .bound backlog synList = .ok l) :
    Backlogged (listenerMachine l).init [] ∧
      l.backlog = if backlog = 0 then somaxconn else backlog := by
  unfold v4vCtrlListen at hl
  rw [if_neg (not_not_intro rfl)] at hl
  split at hl
  · cases hl
  · split at hl
    · cases hl
    · cases hl
      refine ⟨⟨⟨List.nodup_nil, rfl, rfl, nofun, fun i _ => ?_, rfl⟩,
        ⟨rfl, rfl, List.Pairwise.nil, .refl _⟩, nofun, fun h => absurd rfl h, rfl⟩, rfl⟩
      exact ⟨nofun, nofun⟩

end Steps

/-! ## The list of SYNs

`acceptSyns` works on the SYNs as a list and on the accepts as the contexts they name. -/

/-- A `V4vDoAccepts` that nothing comes between. -/
def doAccepts : Nat → List Bool → World → World
  | 0, _, s => s
  | fuel + 1, acks, s =>
    match s.takeAccept.lock with
    | some (.taken irp) =>
      doAccepts fuel acks.tail (s.takeAccept.finishAccept irp (acks.headD true))
    | _ => s.takeAccept

/-- What an accept changes of a context. -/
def accepter (ctx : Context) : Accepter := ⟨ctx.state, ctx.sdst, ctx.connId⟩

/-- The list that the chain stands for. -/
def syns (s : World) (xs : List Nat) : List Syn := xs.map fun i => (s.listener.synList i).syn

theorem acceptSyns_nil (ctx : Nat → Context) (l : List Syn) (acks : List Bool) :
    acceptSyns ctx l [] acks = (ctx, l, []) := by
  cases l <;> rfl

theorem Backlogged.turn {s : World} {xs : List Nat} {irp : Accept} {queue : List Accept}
    (h : Backlogged s xs) (hlock : s.lock = some .loop) (hne : s.listener.synCount ≠ 0)
    (hqueue : s.queue = irp :: queue) (acked : Bool) :
    ∃ i ys, xs = i :: ys ∧ s.takeAccept.lock = some (.taken irp) ∧
      Backlogged (s.takeAccept.finishAccept irp acked) ys ∧
      (s.takeAccept.finishAccept irp acked).lock = some .loop ∧
      (s.takeAccept.finishAccept irp acked).queue = queue ∧
      (s.takeAccept.finishAccept irp acked).actx = update s.actx irp.actx
        ⟨if acked then .accepted else .disconnected, (s.listener.synList i).sdst,
          (s.listener.synList i).connId⟩ ∧
      syns (s.takeAccept.finishAccept irp acked) ys = syns s ys := by
  have htake : s.takeAccept = { s with queue, lock := some (.taken irp) } := by
    rw [World.takeAccept, if_neg hne, hqueue]
  have h' : Backlogged s.takeAccept xs := h.next (by rw [World.step, if_pos hlock])
  have hpair : s.takeAccept.step (.pair acked) = some (s.takeAccept.finishAccept irp acked) := by
    rw [htake]
    rfl
  obtain ⟨i, ys, hxs, hys, -⟩ := h'.pair hpair
  obtain ⟨i', ys', l', hxs', hpop, -, hsyn, -⟩ := h.chained.pop (by rw [hxs]; simp)
  obtain ⟨rfl, rfl⟩ := List.cons.inj (hxs.symm.trans hxs')
  have hfinish : s.takeAccept.finishAccept irp acked =
      { s.takeAccept with
        listener := l'
        actx := update s.actx irp.actx
          ⟨if acked then .accepted else .disconnected, (s.listener.synList i).sdst,
            (s.listener.synList i).connId⟩
        completed := s.completed ++ [⟨irp, (s.listener.synList i).syn, acked⟩]
        lock := some .loop } := by
    rw [htake, World.finishAccept, hpop]
    rfl
  refine ⟨i, ys, hxs, by rw [htake], hys, ?_, ?_, ?_, ?_⟩
  · rw [hfinish]
  · rw [hfinish, htake]
  · rw [hfinish]
  · rw [syns, hfinish]
    exact hsyn

/-- The records and the queue do what `acceptSyns` does with lists. -/
theorem doAccepts_refines (fuel : Nat) : ∀ {s : World} {xs : List Nat} {ctx : Nat → Context}
    (acks : List Bool), Backlogged s xs → s.lock = some .loop → xs.length < fuel →
    (∀ a, s.actx a = accepter (ctx a)) →
    ∃ ys ctx', Backlogged (doAccepts fuel acks s) ys ∧ (doAccepts fuel acks s).lock = none ∧
      acceptSyns ctx (syns s xs) (s.queue.map (·.actx)) acks =
        (ctx', syns (doAccepts fuel acks s) ys, (doAccepts fuel acks s).queue.map (·.actx)) ∧
      (∀ a, (doAccepts fuel acks s).actx a = accepter (ctx' a)) ∧
      (doAccepts fuel acks s).kevReceive = decide (ys ≠ []) := by
  induction fuel with
  | zero => exact fun _ _ _ hlt => absurd hlt (Nat.not_lt_zero _)
  | succ fuel ih =>
    intro s xs ctx acks h hlock hlt hctx
    have hcount := h.chained.count
    have h' : Backlogged s.takeAccept xs := h.next (by rw [World.step, if_pos hlock])
    by_cases hzero : s.listener.synCount = 0
    · obtain rfl : xs = [] := List.length_eq_zero_iff.mp (by omega)
      have htake : s.takeAccept = { s with kevReceive := false, lock := none } := by
        rw [World.takeAccept, if_pos hzero]
      have hdo : doAccepts (fuel + 1) acks s = s.takeAccept := by rw [doAccepts, htake]
      rw [hdo]
      rw [htake] at h' ⊢
      exact ⟨[], ctx, h', rfl, rfl, hctx, rfl⟩
    · cases hqueue : s.queue with
      | nil =>
        have hne : xs ≠ [] := by
          rintro rfl
          exact hzero hcount
        have htake : s.takeAccept = { s with kevReceive := true, lock := none } := by
          rw [World.takeAccept, if_neg hzero, hqueue]
        have hdo : doAccepts (fuel + 1) acks s = s.takeAccept := by rw [doAccepts, htake]
        rw [hdo]
        rw [htake] at h' ⊢
        refine ⟨xs, ctx, h', rfl, ?_, hctx, by simp [hne]⟩
        rw [List.map_nil, acceptSyns_nil, hqueue]
        rfl
      | cons irp queue =>
        obtain ⟨i, ys, rfl, htaken, hys, hloop, hq, hactx, hsyns⟩ :=
          h.turn hlock hzero hqueue (acks.headD true)
        have hdo : doAccepts (fuel + 1) acks s =
            doAccepts fuel acks.tail (s.takeAccept.finishAccept irp (acks.headD true)) := by
          rw [doAccepts, htaken]
        rw [hdo]
        let ctx1 := update ctx irp.actx { ctx irp.actx with
          sdst := (s.listener.synList i).sdst
          connId := (s.listener.synList i).connId
          state := if acks.headD true then .accepted else .disconnected }
        have hctx1 : ∀ a, (s.takeAccept.finishAccept irp (acks.headD true)).actx a =
            accepter (ctx1 a) := by
          intro a
          rw [hactx]
          by_cases ha : a = irp.actx
          · subst ha
            simp [ctx1, accepter]
          · simp [ctx1, ha, hctx]
        obtain ⟨zs, ctx', hz, hnone, hlist, hctx', hkev⟩ :=
          ih acks.tail hys hloop (by simpa using hlt) hctx1
        refine ⟨zs, ctx', hz, hnone, ?_, hctx', hkev⟩
        rw [← hlist, hq, hsyns]
        rfl

/-- A SYN and an accept wait for each other. -/
theorem doAccepts_refines_one : ∃ s xs ctx, (s.queue.map (·.actx) = [7] ∧ s.listener.synCount = 1) ∧
    ∃ ys ctx', acceptSyns ctx (syns s xs) (s.queue.map (·.actx)) [] =
      (ctx', syns (doAccepts 2 [] s) ys, (doAccepts 2 [] s).queue.map (·.actx)) := by
  have hl : v4vCtrlListen .bound 1 true = .ok ⟨1, fun _ => Slot.zero, none, none, 0⟩ := rfl
  obtain ⟨xs, h, -⟩ := (Backlogged.init hl).1.preAccept
    (show World.step _ (.syn ⟨⟨1, 1⟩, 11⟩) = some _ from rfl)
  have h := (h.accept 7 rfl).lock rfl
  have hlt : xs.length < 2 := Nat.lt_succ_of_le h.chained.length_le
  let c : Context := ⟨.uninitialized, .unspecified, 0, ⟨0, 0⟩, 0, false, []⟩
  obtain ⟨ys, ctx', -, -, he, -⟩ := doAccepts_refines 2 [] h rfl hlt fun a =>
    (Function.apply_update (fun _ => accepter) (fun _ => c) 7 { c with state := .accepting } a).symm
  exact ⟨_, xs, _, ⟨rfl, rfl⟩, ys, ctx', he⟩

/-- In every run of a listener, whatever its backlog: the pending records are those on the chain from
`synHead` to `synTail`, which has `synCount` records and never more than the backlog; the SYNs have
gone to the accepts in the order in which both came in, each to one, and the others are on the
chain; a SYN that finds the backlog full, and only such a one, is reset. When no `V4vDoAccepts` is
due there is no SYN that waits beside an accept. -/
theorem syn_backlog {backlog : Nat} {synList : Bool} {l : Listener}
    (hl : v4vCtrlListen .bound backlog synList = .ok l) {s : World}
    (h : Machine.Reach (listenerMachine l) Machine.Any s) :
    ∃ xs, Chained s.listener xs ∧ xs.length ≤ s.listener.backlog ∧
      s.listener.backlog = (if backlog = 0 then somaxconn else backlog) ∧
      Matched s xs ∧ s.assertFailed = false ∧
      (s.lock = none → s.due = 0 → xs = [] ∨ s.queue = []) ∧
      ∀ syn t, s.step (.syn syn) = some t →
        (t.resets = s.resets ++ [syn] ∧ t.listener = s.listener ∧
          xs.length = s.listener.backlog) ∨
        (t.resets = s.resets ∧ xs.length < s.listener.backlog ∧
          ∃ i ∉ xs, Chained t.listener (xs ++ [i]) ∧ (t.listener.synList i).syn = syn) := by
  obtain ⟨hinit, hbacklog⟩ := Backlogged.init hl
  obtain ⟨⟨xs, hxs⟩, hsame⟩ : (∃ xs, Backlogged s xs) ∧ s.listener.backlog = l.backlog := by
    refine h.inv (I := fun s => (∃ xs, Backlogged s xs) ∧ s.listener.backlog = l.backlog)
      ⟨⟨[], hinit⟩, rfl⟩ fun s a t hs _ ht => ?_
    obtain ⟨⟨xs, hxs⟩, hb⟩ := hs
    obtain ⟨xs', hxs', hb'⟩ := hxs.step ht
    exact ⟨⟨xs', hxs'⟩, hb'.trans hb⟩
  refine ⟨xs, hxs.chained, hxs.chained.length_le, hsame.trans hbacklog, hxs.matched, hxs.asserted,
    fun hlock hdue => ?_, fun syn t ht => ?_⟩
  · by_contra hno
    rw [not_or] at hno
    have hpos := hxs.driven hno.1 hno.2 hlock
    omega
  · simp only [World.step] at ht
    split at ht
    · cases ht
      rcases preAccept_cases hxs.chained syn with ⟨hfull, hstep⟩ | ⟨hroom, i, hi, hnot, hstep⟩
      · rw [hstep]
        exact .inl ⟨rfl, rfl, hfull⟩
      · obtain ⟨hchain, hsyn, -⟩ := hxs.chained.chain syn hi hnot
        rw [hstep]
        refine .inr ⟨rfl, hroom, i, hnot, hchain, ?_⟩
        rw [List.map_append] at hsyn
        exact List.singleton_inj.mp (List.append_inj_right' hsyn rfl)
    · cases ht

/-- With room for two SYNs, three come in and two accepts, the first of which is cancelled. -/
theorem syn_backlog_two : ∃ l, v4vCtrlListen .bound 2 true = .ok l ∧
    ∃ s, Machine.Reach (listenerMachine l) Machine.Any s ∧
      (s.completed = [⟨⟨1, 8⟩, ⟨⟨1, 1⟩, 11⟩, true⟩] ∧ s.resets = [⟨⟨3, 3⟩, 13⟩]) ∧
      ∃ xs, Chained s.listener xs ∧ xs.length ≤ s.listener.backlog ∧ Matched s xs := by
  have hl : v4vCtrlListen .bound 2 true = .ok ⟨2, fun _ => Slot.zero, none, none, 0⟩ := rfl
  refine ⟨_, hl, ?_⟩
  obtain ⟨s, hs, hp⟩ := Machine.exists_reach
    (listenerMachine ⟨2, fun _ => Slot.zero, none, none, 0⟩) Machine.Any
    (fun s => decide (s.completed = [⟨⟨1, 8⟩, ⟨⟨1, 1⟩, 11⟩, true⟩] ∧ s.resets = [⟨⟨3, 3⟩, 13⟩]))
    [.syn ⟨⟨1, 1⟩, 11⟩, .lock, .next, .syn ⟨⟨2, 2⟩, 12⟩, .syn ⟨⟨3, 3⟩, 13⟩, .accept 7, .accept 8,
      .cancel ⟨0, 7⟩, .lock, .next, .pair true, .next]
    (by decide +kernel)
  obtain ⟨xs, hchain, hle, -, hmatched, -⟩ := syn_backlog hl hs
  exact ⟨s, hs, of_decide_eq_true hp, xs, hchain, hle, hmatched⟩

end XcWindows.V4v.Backlog
