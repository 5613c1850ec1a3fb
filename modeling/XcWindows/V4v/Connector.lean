import XcWindows.V4v.Listener

/-!
# The connector's reads

`V4vProcessConnectorReads` of `xenv4v/rw.c` and what happens in it to the pending IRPs. A message
that is not for this connection is dumped and the IRP is kept for the next turn (`retain`). The ring
is shared with Xen and the queue with other threads: the content of the ring may differ at every
access of a turn (`Snap`), and IRPs may be queued and cancelled between two turns.

`retain` is not cleared when a kept IRP is failed because the next message cannot be read; the IRP
is then put back, or completed again, after its completion. `connector_irps` says that this is all
that can go wrong.
-/

namespace XcWindows.V4v.Connector

open Lib

/-- A pending IRP; `preStream` are the IOCTL reads that wait for a SYN or an ACK. -/
structure Irp where
  id : Nat
  pfo : Nat
  write : Bool
  len : Nat
  preStream : Bool
deriving DecidableEq, Repr

inductive Status where
  | success | invalidDeviceRequest | internalDbCorruption | virtualCircuitClosed | bufferOverflow
  | cancelled | quotaExceeded
deriving DecidableEq, Repr

/-- What is done to an IRP. -/
inductive Event where
  | removed (id : Nat)
  | completed (id : Nat) (status : Status)
  | readInto (id : Nat)
  | requeued (id : Nat)
deriving DecidableEq, Repr

def Event.irp : Event → Nat
  | .removed id => id
  | .completed id _ => id
  | .readInto id => id
  | .requeued id => id

/-- The connector's context, the pending queue and the locals of the function; `retained` is
`nextIrp` while `retain` is set. -/
structure State where
  ring : Ring
  pfo : Nat
  connId : Nat
  sdst : Addr
  queue : List Irp
  retained : Option Irp
  kevReceive : Bool
  disconnected : Bool
  resets : List (Nat × Addr)
  notify : Bool
  returned : Bool
  trace : List Event

/-- The part of the ring that Xen writes, as one access finds it. -/
structure Snap where
  mem : Nat → UInt8
  tx : Nat

/-- The environment of a turn: the ring at the test for more data, at the peek and at the read
after it, the IRPs that were queued and cancelled meanwhile, and whether an IRP can be put back. -/
structure Env where
  test : Snap
  peek : Snap
  read : Snap
  arrived : List Irp
  cancelled : List Nat
  inserted : Bool

def see (r : Ring) (s : Snap) : Ring := { r with ring := s.mem, txPtr := s.tx }

/-- `V4V_SHF_ACK` -/
def ack (sh : Stream) : Bool := sh.flags.testBit 1

/-- What the checks of a turn come to. -/
inductive Decision where
  | invalid
  | corrupt
  | dump
  | reply
  | reset (src : Addr) (sh : Stream)
  | rst
  | short
  | read
deriving DecidableEq, Repr

def connectorDecision (s : State) (irp : Irp) (r : Ring) : Decision :=
  if irp.preStream then .invalid
  else
    match peekStream r with
    | .unreadable => .corrupt
    | .notStream => .dump
    | .stream src sh dlen =>
      if sh.syn then .reply
      else if sh.conid ≠ u32 s.connId then .reset src sh
      else if s.sdst.domain ≠ src.domain then .reset src sh
      else if ack sh then .reply
      else if sh.rst then .rst
      else if irp.len < dlen - streamSize then .short
      else .read

namespace State

def emit (s : State) (es : List Event) : State := { s with trace := s.trace ++ es }

/-- `IoCompleteRequest` -/
def complete (s : State) (irp : Irp) (status : Status) : State := s.emit [.completed irp.id status]

def recoverRing (s : State) (r : Ring) : State := { s with ring := { r with rxPtr := r.txPtr } }

/-- `(VOID)v4v_copy_out(ring, NULL, NULL, NULL, 0, 1)` -/
def dump (s : State) (r : Ring) : State :=
  match v4vCopyOut r false 0 true with
  | none => s
  | some p => { s with ring := p.ring }

def sendReset (s : State) (connId : Nat) (dst : Addr) : State :=
  { s with resets := s.resets ++ [(connId, dst)] }

/-- A SYN or an ACK: it is dumped, and answered by a RST if it is nothing but a header. -/
def reply (s : State) (r : Ring) : State :=
  match v4vCopyOut r true streamSize true with
  | none => s
  | some p =>
    let s := { s with ring := p.ring }
    let sh := streamOf p.data
    if p.ret = streamSize ∧ sh.rst = false then s.sendReset sh.conid p.source else s

/-- `V4vCancelAllFileIrps`, which takes the writes only. -/
def cancelAllFileIrps (s : State) : State :=
  let mine := s.queue.filter fun irp => irp.write ∧ irp.pfo = s.pfo
  let events := mine.flatMap fun irp => [Event.removed irp.id, .completed irp.id .cancelled]
  { s with queue := s.queue.filter fun irp => ¬ (irp.write ∧ irp.pfo = s.pfo) }.emit events

/-- `IoCsqInsertIrpEx` at the head of the queue. -/
def insertHead (s : State) (irp : Irp) (inserted : Bool) : State :=
  if inserted then { s with queue := irp :: s.queue }.emit [.requeued irp.id]
  else s.complete irp .quotaExceeded

/-- There is no more to read. -/
def noMore (s : State) : State := { s with retained := none, kevReceive := false, returned := true }

end State

/-- The rest of a turn, with an IRP. -/
def serve (s : State) (env : Env) (irp : Irp) : State :=
  let r := see s.ring env.read
  match connectorDecision s irp (see s.ring env.peek) with
  | .invalid => s.complete irp .invalidDeviceRequest
  | .corrupt => (s.recoverRing r).complete irp .internalDbCorruption
  | .dump => { s.dump r with retained := some irp }
  | .reply => { s.reply r with retained := some irp }
  | .reset src sh =>
    let s := { s.dump r with retained := some irp }
    if sh.rst then s else s.sendReset sh.conid src
  | .rst =>
    let s := { s with retained := none, disconnected := true, kevReceive := true, returned := true }
    s.cancelAllFileIrps.complete irp .virtualCircuitClosed
  | .short => { s with retained := none }.complete irp .bufferOverflow
  | .read =>
    let s := { s with retained := none }.emit [.readInto irp.id]
    match v4vCopyOutOffset r true (irp.len + streamSize) true streamSize with
    | none => (s.recoverRing r).complete irp .internalDbCorruption
    | some p =>
      if p.ret < 0 then (s.recoverRing p.ring).complete irp .internalDbCorruption
      else { s.complete irp .success with ring := p.ring, notify := true }

/-- `V4vCsqPeekTest` for the stream reads of this file object. -/
def isNext (s : State) (irp : Irp) : Bool := irp.write = false ∧ irp.pfo = s.pfo

/-- `IoCsqRemoveNextIrp`, which has found `irp`. -/
def removeNextIrp (s : State) (irp : Irp) : State :=
  { s with queue := s.queue.eraseP (isNext s) }.emit [.removed irp.id]

/-- What other threads do to the queue. -/
def others (s : State) (env : Env) : State :=
  { s with queue := s.queue.filter (·.id ∉ env.cancelled) ++ env.arrived }

/-- The body of the loop, after the notification for a retained IRP. -/
def body (s : State) (env : Env) : State :=
  if s.ring.rxPtr = env.test.tx then
    match s.retained with
    | some irp => (s.insertHead irp env.inserted).noMore
    | none => s.noMore
  else
    match s.retained with
    | some irp => serve s env irp
    | none =>
      match s.queue.find? (isNext s) with
      | none => { s with kevReceive := true, returned := true }
      | some irp => serve (removeNextIrp s irp) env irp

def turn (s : State) (env : Env) : State :=
  let s := others s env
  body { s with notify := s.notify || s.retained.isSome } env

/-- `V4vProcessConnectorReads`, for at most as many turns as there are environments. -/
def v4vProcessConnectorReads (s : State) : List Env → State
  | [] => s
  | env :: envs => if s.returned then s else v4vProcessConnectorReads (turn s env) envs

/-- `P` holds of every turn that is made. -/
def Along (P : State → Env → Prop) : State → List Env → Prop
  | _, [] => True
  | s, env :: envs => s.returned = true ∨ P s env ∧ Along P (turn s env) envs

/-! ### What a turn does to the IRPs -/

/-- Nothing is done to an IRP after its completion. -/
def Once (tr : List Event) : Prop :=
  tr.Pairwise fun a b => ∀ id st, a = .completed id st → b.irp ≠ id

/-- The IRP has been completed. -/
def Done (tr : List Event) (id : Nat) : Prop := ∃ st, Event.completed id st ∈ tr

theorem once_append {as bs : List Event} :
    Once (as ++ bs) ↔ Once as ∧ Once bs ∧ ∀ b ∈ bs, ¬ Done as b.irp := by
  unfold Once Done
  rw [List.pairwise_append]
  refine and_congr_right fun _ => and_congr_right fun _ => ?_
  constructor
  · rintro h b hb ⟨st, ha⟩
    exact h _ ha b hb _ st rfl rfl
  · rintro h a ha b hb id st rfl e
    exact h b hb ⟨st, e ▸ ha⟩

theorem once_singleton (e : Event) : Once [e] := List.pairwise_singleton _ _

@[simp] theorem done_append {as bs : List Event} {id : Nat} :
    Done (as ++ bs) id ↔ Done as id ∨ Done bs id := by
  simp only [Done, List.mem_append, exists_or]

@[simp] theorem done_singleton_completed {id id' : Nat} {st : Status} :
    Done [.completed id st] id' ↔ id' = id := by
  constructor
  · rintro ⟨st', h⟩
    simp only [List.mem_singleton, Event.completed.injEq] at h
    exact h.1
  · rintro rfl
    exact ⟨st, List.mem_singleton.mpr rfl⟩

/-- The part of a state that an IRP's fate depends on. -/
structure Moved (s s' : State) (queue : List Irp) (retained : Option Irp) (returned : Bool)
    (events : List Event) : Prop where
  pfo : s'.pfo = s.pfo
  queue : s'.queue = queue
  retained : s'.retained = retained
  returned : s'.returned = returned
  trace : s'.trace = s.trace ++ events

/-- The ways in which a turn with the IRP `irp` can end, on the ring `r` at the peek. -/
inductive Served (s s' : State) (r : Ring) (irp : Irp) : Prop where
  | invalid (st : Status) : irp.preStream = true →
      Moved s s' s.queue s.retained s.returned [.completed irp.id st] → Served s s' r irp
  | corrupt (st : Status) : irp.preStream = false → peekStream r = .unreadable →
      Moved s s' s.queue s.retained s.returned [.completed irp.id st] → Served s s' r irp
  | kept : irp.preStream = false → peekStream r ≠ .unreadable →
      Moved s s' s.queue (some irp) s.returned [] → Served s s' r irp
  | done (st : Status) (read : List Event) : peekStream r ≠ .unreadable →
      (read = [] ∨ read = [.readInto irp.id]) →
      Moved s s' s.queue none s.returned (read ++ [.completed irp.id st]) → Served s s' r irp
  | closed (st : Status) : peekStream r ≠ .unreadable →
      Moved s s' (s.queue.filter fun i => ¬ (i.write ∧ i.pfo = s.pfo)) none true
        ((s.queue.filter fun i => i.write ∧ i.pfo = s.pfo).flatMap
          (fun i => [.removed i.id, .completed i.id .cancelled]) ++ [.completed irp.id st]) →
      Served s s' r irp

theorem dump_moved (s : State) (r : Ring) (irp : Irp) :
    Moved s { s.dump r with retained := some irp } s.queue (some irp) s.returned [] := by
  unfold State.dump
  split <;> exact ⟨rfl, rfl, rfl, rfl, (List.append_nil _).symm⟩

theorem reply_moved (s : State) (r : Ring) (irp : Irp) :
    Moved s { s.reply r with retained := some irp } s.queue (some irp) s.returned [] := by
  unfold State.reply
  split
  · exact ⟨rfl, rfl, rfl, rfl, (List.append_nil _).symm⟩
  · dsimp only
    split <;> exact ⟨rfl, rfl, rfl, rfl, (List.append_nil _).symm⟩

theorem decision_spec (s : State) (irp : Irp) (r : Ring) :
    match connectorDecision s irp r with
    | .invalid => irp.preStream = true
    | .corrupt => irp.preStream = false ∧ peekStream r = .unreadable
    | _ => irp.preStream = false ∧ peekStream r ≠ .unreadable := by
  unfold connectorDecision
  cases hpre : irp.preStream with
  | true => simp
  | false =>
    cases hp : peekStream r with
    | unreadable => simp
    | notStream => simp
    | stream src sh dlen =>
      simp only [Bool.false_eq_true, if_false]
      split
      · next heq => (repeat' split at heq) <;> cases heq
      · next heq => (repeat' split at heq) <;> cases heq
      · exact ⟨trivial, by simp⟩

theorem serve_spec (s : State) (env : Env) (irp : Irp) :
    Served s (serve s env irp) (see s.ring env.peek) irp := by
  have hspec := decision_spec s irp (see s.ring env.peek)
  unfold serve
  cases hd : connectorDecision s irp (see s.ring env.peek) with
  | invalid =>
    rw [hd] at hspec
    exact .invalid _ hspec ⟨rfl, rfl, rfl, rfl, rfl⟩
  | corrupt =>
    rw [hd] at hspec
    exact .corrupt _ hspec.1 hspec.2 ⟨rfl, rfl, rfl, rfl, rfl⟩
  | dump =>
    rw [hd] at hspec
    exact .kept hspec.1 hspec.2 (dump_moved s _ irp)
  | reply =>
    rw [hd] at hspec
    exact .kept hspec.1 hspec.2 (reply_moved s _ irp)
  | reset src sh =>
    rw [hd] at hspec
    obtain ⟨h1, h2, h3, h4, h5⟩ := dump_moved s (see s.ring env.read) irp
    refine .kept hspec.1 hspec.2 ?_
    dsimp only
    split <;> exact ⟨h1, h2, h3, h4, h5⟩
  | rst =>
    rw [hd] at hspec
    refine .closed .virtualCircuitClosed hspec.2 ⟨rfl, rfl, rfl, rfl, ?_⟩
    simp only [State.complete, State.cancelAllFileIrps, State.emit, List.append_assoc]
  | short =>
    rw [hd] at hspec
    exact .done .bufferOverflow [] hspec.2 (.inl rfl) ⟨rfl, rfl, rfl, rfl, rfl⟩
  | read =>
    rw [hd] at hspec
    dsimp only
    split
    · refine .done .internalDbCorruption [.readInto irp.id] hspec.2 (.inr rfl) ⟨rfl, rfl, rfl, rfl, ?_⟩
      simp [State.complete, State.emit, State.recoverRing]
    split
    · refine .done .internalDbCorruption [.readInto irp.id] hspec.2 (.inr rfl) ⟨rfl, rfl, rfl, rfl, ?_⟩
      simp [State.complete, State.emit, State.recoverRing]
    · refine .done .success [.readInto irp.id] hspec.2 (.inr rfl) ⟨rfl, rfl, rfl, rfl, ?_⟩
      simp [State.complete, State.emit]

/-! ### What holds in every turn -/

/-- Arriving IRPs are new. -/
def Fresh (s : State) (env : Env) : Prop :=
  (env.arrived.map Irp.id).Nodup ∧ ∀ irp ∈ env.arrived,
    irp.id ∉ s.queue.map Irp.id ∧ ∀ e ∈ s.trace, e.irp ≠ irp.id

/-- No turn with a retained IRP finds a message that cannot be read. -/
def Clean (s : State) (env : Env) : Prop :=
  s.retained.isSome = true → s.ring.rxPtr ≠ env.test.tx →
    peekStream (see s.ring env.peek) ≠ .unreadable

/-- What holds until the function returns. -/
structure Running (s : State) : Prop where
  nodup : (s.queue.map Irp.id).Nodup
  pending : ∀ irp ∈ s.queue, ¬ Done s.trace irp.id
  once : Once s.trace
  held : ∀ irp, s.retained = some irp → irp.preStream = false ∧ irp.id ∉ s.queue.map Irp.id ∧
    ¬ Done s.trace irp.id ∧ .removed irp.id ∈ s.trace
  accounted : ∀ id, .removed id ∈ s.trace →
    Done s.trace id ∨ ∃ irp, s.retained = some irp ∧ irp.id = id

/-- Each IRP that was removed has been completed or put back, and left alone after that. -/
def Handled (tr : List Event) : Prop :=
  Once tr ∧ ∀ id, .removed id ∈ tr → Done tr id ∨ .requeued id ∈ tr

theorem running_others {s : State} {env : Env} (h : Running s) (hf : Fresh s env) :
    Running (others s env) := by
  have hsub : ((s.queue.filter (·.id ∉ env.cancelled)).map Irp.id).Sublist (s.queue.map Irp.id) :=
    List.filter_sublist.map _
  refine ⟨?_, ?_, h.once, ?_, h.accounted⟩
  · simp only [others, List.map_append]
    refine List.nodup_append.mpr ⟨h.nodup.sublist hsub, hf.1, ?_⟩
    rintro a ha b hb rfl
    obtain ⟨irp, hi, rfl⟩ := List.mem_map.mp hb
    exact (hf.2 irp hi).1 (hsub.subset ha)
  · intro irp hi
    rcases List.mem_append.mp hi with hi | hi
    · exact h.pending irp (List.mem_filter.mp hi).1
    · rintro ⟨st, hd⟩
      exact (hf.2 irp hi).2 _ hd rfl
  · intro irp hr
    obtain ⟨h1, h2, h3, h4⟩ := h.held irp hr
    refine ⟨h1, ?_, h3, h4⟩
    simp only [others, List.map_append, List.mem_append, not_or]
    refine ⟨fun hc => h2 (hsub.subset hc), fun hc => ?_⟩
    obtain ⟨i, hi, e⟩ := List.mem_map.mp hc
    exact (hf.2 i hi).2 _ h4 e.symm

/-- An IRP in the hand of a turn: removed, not in the queue and not completed. -/
structure InHand (s : State) (irp : Irp) : Prop where
  out : irp.id ∉ s.queue.map Irp.id
  undone : ¬ Done s.trace irp.id
  removed : .removed irp.id ∈ s.trace
  accounted : ∀ id, .removed id ∈ s.trace → Done s.trace id ∨ id = irp.id

/-- The events of `V4vCancelAllFileIrps`. -/
def cancelEvents (q : List Irp) : List Event :=
  q.flatMap fun i => [.removed i.id, .completed i.id .cancelled]

theorem cancelEvents_irp {q : List Irp} {e : Event} (h : e ∈ cancelEvents q) :
    e.irp ∈ q.map Irp.id ∧ Done (cancelEvents q) e.irp := by
  obtain ⟨i, hi, he⟩ := List.mem_flatMap.mp h
  have hirp : e.irp = i.id := by
    simp only [List.mem_cons, List.not_mem_nil, or_false] at he
    rcases he with rfl | rfl <;> rfl
  rw [hirp]
  exact ⟨List.mem_map_of_mem hi, .cancelled, List.mem_flatMap.mpr ⟨i, hi, by simp⟩⟩

theorem once_cancelEvents {q : List Irp} (h : (q.map Irp.id).Nodup) : Once (cancelEvents q) := by
  induction q with
  | nil => exact List.Pairwise.nil
  | cons i q ih =>
    rw [List.map_cons, List.nodup_cons] at h
    have e : cancelEvents (i :: q) =
      [.removed i.id] ++ ([.completed i.id .cancelled] ++ cancelEvents q) := rfl
    rw [e, once_append, once_append]
    refine ⟨once_singleton _, ⟨once_singleton _, ih h.2, fun b hb hd => ?_⟩, fun b _ hd => ?_⟩
    · rw [done_singleton_completed] at hd
      exact h.1 (hd ▸ (cancelEvents_irp hb).1)
    · obtain ⟨st, hd⟩ := hd
      simp at hd

section Serve
variable {s s' : State} {irp : Irp}

theorem InHand.finish (h : InHand s irp) (hn : (s.queue.map Irp.id).Nodup)
    (hp : ∀ i ∈ s.queue, ¬ Done s.trace i.id) (ho : Once s.trace) {st : Status} {read : List Event}
    (hread : read = [] ∨ read = [.readInto irp.id]) {b : Bool}
    (hm : Moved s s' s.queue none b (read ++ [.completed irp.id st])) : Running s' := by
  have hnd : ∀ id, ¬ Done read id := by
    rintro id ⟨st, hd⟩
    rcases hread with rfl | rfl <;> simp at hd
  have hev : ∀ e ∈ read ++ [Event.completed irp.id st], e.irp = irp.id := by
    rcases hread with rfl | rfl <;> simp [Event.irp]
  have honce : Once (read ++ [.completed irp.id st]) := by
    rw [once_append]
    refine ⟨?_, once_singleton _, fun b _ => hnd _⟩
    rcases hread with rfl | rfl
    · exact List.Pairwise.nil
    · exact once_singleton _
  refine ⟨hm.queue ▸ hn, fun i hi => ?_, ?_, fun i hi => ?_, fun id hid => ?_⟩
  · rw [hm.queue] at hi
    rw [hm.trace, done_append, done_append, done_singleton_completed]
    rintro (hd | hd | hd)
    · exact hp i hi hd
    · exact hnd _ hd
    · exact h.out (hd ▸ List.mem_map_of_mem hi)
  · rw [hm.trace, once_append]
    exact ⟨ho, honce, fun e he => hev e he ▸ h.undone⟩
  · rw [hm.retained] at hi
    cases hi
  · left
    rw [hm.trace] at hid ⊢
    rw [done_append, done_append, done_singleton_completed]
    rcases List.mem_append.mp hid with hid | hid
    · rcases h.accounted id hid with hd | hd
      · exact .inl hd
      · exact .inr (.inr hd)
    · exact .inr (.inr (hev _ hid))

theorem InHand.close (h : InHand s irp) (hn : (s.queue.map Irp.id).Nodup)
    (hp : ∀ i ∈ s.queue, ¬ Done s.trace i.id) (ho : Once s.trace) {st : Status} {q : List Irp}
    (hq : q.Sublist s.queue)
    (ht : s'.trace = s.trace ++ (cancelEvents q ++ [.completed irp.id st])) :
    Handled s'.trace := by
  have hids : (q.map Irp.id).Sublist (s.queue.map Irp.id) := hq.map _
  have hout : ¬ Done (cancelEvents q) irp.id := by
    rintro ⟨st', hd⟩
    exact h.out (hids.subset (cancelEvents_irp hd).1)
  rw [ht]
  constructor
  · rw [once_append, once_append]
    refine ⟨ho, ⟨once_cancelEvents (hn.sublist hids), once_singleton _, ?_⟩, ?_⟩
    · intro e he
      rw [List.mem_singleton.mp he]
      exact hout
    · intro e he
      rcases List.mem_append.mp he with he | he
      · obtain ⟨i, hi, e'⟩ := List.mem_map.mp (hids.subset (cancelEvents_irp he).1)
        exact e' ▸ hp i hi
      · rw [List.mem_singleton.mp he]
        exact h.undone
  · intro id hid
    left
    rw [done_append, done_append, done_singleton_completed]
    rcases List.mem_append.mp hid with hid | hid
    · rcases h.accounted id hid with hd | hd
      · exact .inl hd
      · exact .inr (.inr hd)
    · rcases List.mem_append.mp hid with hid | hid
      · exact .inr (.inl (cancelEvents_irp hid).2)
      · simp at hid

theorem Served.handled {r : Ring} (hs : Served s s' r irp) (h : InHand s irp)
    (hn : (s.queue.map Irp.id).Nodup) (hp : ∀ i ∈ s.queue, ¬ Done s.trace i.id) (ho : Once s.trace)
    (hret : s.returned = false)
    (hkept : s.retained.isSome = true → irp.preStream = false ∧ peekStream r ≠ .unreadable) :
    Running s' ∧ s'.returned = false ∨ s'.returned = true ∧ Handled s'.trace := by
  cases hs with
  | invalid st hpre hm =>
    have hno : s.retained = none := by
      cases e : s.retained with
      | none => rfl
      | some i =>
        have := (hkept (by simp [e])).1
        rw [hpre] at this
        cases this
    rw [hno] at hm
    exact .inl ⟨h.finish hn hp ho (.inl rfl) hm, hm.returned.trans hret⟩
  | corrupt st hpre hpeek hm =>
    have hno : s.retained = none := by
      cases e : s.retained with
      | none => rfl
      | some i => exact absurd hpeek (hkept (by simp [e])).2
    rw [hno] at hm
    exact .inl ⟨h.finish hn hp ho (.inl rfl) hm, hm.returned.trans hret⟩
  | kept hpre _ hm =>
    refine .inl ⟨⟨hm.queue ▸ hn, ?_, ?_, ?_, ?_⟩, hm.returned.trans hret⟩
    · rw [hm.queue, hm.trace, List.append_nil]
      exact hp
    · rw [hm.trace, List.append_nil]
      exact ho
    · intro i hi
      rw [hm.retained] at hi
      cases hi
      rw [hm.queue, hm.trace, List.append_nil]
      exact ⟨hpre, h.out, h.undone, h.removed⟩
    · rw [hm.trace, List.append_nil, hm.retained]
      intro id hid
      rcases h.accounted id hid with hd | hd
      · exact .inl hd
      · exact .inr ⟨irp, rfl, hd.symm⟩
  | done st read _ hread hm =>
    exact .inl ⟨h.finish hn hp ho hread hm, hm.returned.trans hret⟩
  | closed st _ hm =>
    exact .inr ⟨hm.returned, h.close hn hp ho List.filter_sublist hm.trace⟩

end Serve

theorem Running.inHand_kept {s : State} (h : Running s) {irp : Irp} (hr : s.retained = some irp) :
    InHand s irp := by
  obtain ⟨-, h2, h3, h4⟩ := h.held irp hr
  refine ⟨h2, h3, h4, fun id hid => ?_⟩
  rcases h.accounted id hid with hd | ⟨i, hi, rfl⟩
  · exact .inl hd
  · rw [hr] at hi
    cases hi
    exact .inr rfl

theorem Running.inHand_next {s : State} (h : Running s) (hr : s.retained = none) {irp : Irp}
    (hq : s.queue.find? (isNext s) = some irp) :
    InHand (removeNextIrp s irp) irp ∧ ((removeNextIrp s irp).queue.map Irp.id).Nodup ∧
      (∀ i ∈ (removeNextIrp s irp).queue, ¬ Done (removeNextIrp s irp).trace i.id) ∧
      Once (removeNextIrp s irp).trace := by
  obtain ⟨hp, as, bs, hsplit, has⟩ := List.find?_eq_some_iff_append.mp hq
  have herase : s.queue.eraseP (isNext s) = as ++ bs := by
    rw [hsplit, List.eraseP_append_right _ (by simpa using has), List.eraseP_cons_of_pos hp]
  have hn := h.nodup
  rw [hsplit, List.map_append, List.map_cons, List.perm_middle.nodup_iff, List.nodup_cons,
    ← List.map_append] at hn
  have hmem : irp ∈ s.queue := List.mem_of_find?_eq_some hq
  have hno : ∀ id, ¬ Done [Event.removed irp.id] id := by
    rintro id ⟨st, hd⟩
    simp at hd
  have htr : (removeNextIrp s irp).trace = s.trace ++ [.removed irp.id] := rfl
  have hqu : (removeNextIrp s irp).queue = as ++ bs := herase
  have hdone : ∀ id, Done (removeNextIrp s irp).trace id ↔ Done s.trace id := by
    intro id
    rw [htr, done_append, or_iff_left (hno id)]
  refine ⟨⟨hqu ▸ hn.1, ?_, ?_, ?_⟩, hqu ▸ hn.2, ?_, ?_⟩
  · rw [hdone]
    exact h.pending irp hmem
  · rw [htr]
    exact List.mem_append_right _ (List.mem_singleton.mpr rfl)
  · intro id hid
    rw [hdone]
    rcases List.mem_append.mp hid with hid | hid
    · rcases h.accounted id hid with hd | ⟨i, hi, -⟩
      · exact .inl hd
      · rw [hr] at hi
        cases hi
    · simp only [List.mem_singleton, Event.removed.injEq] at hid
      exact .inr hid
  · intro i hi
    rw [hdone]
    rw [hqu] at hi
    refine h.pending i ?_
    rw [hsplit]
    simp only [List.mem_append, List.mem_cons] at hi ⊢
    grind
  · rw [htr, once_append]
    refine ⟨h.once, once_singleton _, fun b hb => ?_⟩
    rw [List.mem_singleton.mp hb]
    exact h.pending irp hmem

theorem Running.insertHead {s : State} (h : Running s) {irp : Irp} (hr : s.retained = some irp)
    (inserted : Bool) : Handled (s.insertHead irp inserted).trace := by
  obtain ⟨hout, hund, hrem, hacc⟩ := h.inHand_kept hr
  unfold State.insertHead
  cases inserted with
  | true =>
    simp only [if_true, State.emit]
    constructor
    · rw [once_append]
      refine ⟨h.once, once_singleton _, fun e he => ?_⟩
      rw [List.mem_singleton.mp he]
      exact hund
    · intro id hid
      rw [done_append]
      rcases List.mem_append.mp hid with hid | hid
      · rcases hacc id hid with hd | rfl
        · exact .inl (.inl hd)
        · exact .inr (by simp)
      · simp at hid
  | false =>
    simp only [Bool.false_eq_true, if_false, State.complete, State.emit]
    constructor
    · rw [once_append]
      refine ⟨h.once, once_singleton _, fun e he => ?_⟩
      rw [List.mem_singleton.mp he]
      exact hund
    · intro id hid
      rw [done_append, done_singleton_completed]
      rcases List.mem_append.mp hid with hid | hid
      · rcases hacc id hid with hd | hd
        · exact .inl (.inl hd)
        · exact .inl (.inr hd)
      · simp at hid

theorem running_body {s : State} {env : Env} (h : Running s) (hret : s.returned = false)
    (hc : Clean s env) :
    Running (body s env) ∧ (body s env).returned = false ∨
      (body s env).returned = true ∧ Handled (body s env).trace := by
  have hall : s.retained = none → Handled s.trace := by
    refine fun hr => ⟨h.once, fun id hid => ?_⟩
    rcases h.accounted id hid with hd | ⟨i, hi, -⟩
    · exact .inl hd
    · rw [hr] at hi
      cases hi
  unfold body
  cases hr : s.retained with
  | none =>
    dsimp only
    split
    · exact .inr ⟨rfl, hall hr⟩
    split
    · exact .inr ⟨rfl, hall hr⟩
    · next irp hq =>
      obtain ⟨h1, h2, h3, h4⟩ := h.inHand_next hr hq
      refine (serve_spec _ env irp).handled h1 h2 h3 h4 hret fun hk => ?_
      have hk' : s.retained.isSome = true := hk
      rw [hr] at hk'
      cases hk'
  | some irp =>
    dsimp only
    split
    · exact .inr ⟨rfl, h.insertHead hr env.inserted⟩
    · next htest =>
      apply (serve_spec s env irp).handled (h.inHand_kept hr) h.nodup h.pending h.once hret
      intro hk
      exact ⟨(h.held irp hr).1, hc hk htest⟩

theorem running_turn {s : State} {env : Env} (h : Running s) (hret : s.returned = false)
    (hf : Fresh s env) (hc : Clean s env) :
    Running (turn s env) ∧ (turn s env).returned = false ∨
      (turn s env).returned = true ∧ Handled (turn s env).trace := by
  obtain ⟨h1, h2, h3, h4, h5⟩ := running_others h hf
  exact running_body ⟨h1, h2, h3, h4, h5⟩ hret hc

/-! ### An IRP that is kept after its completion -/

/-- The IRP that is kept has been completed. -/
def Spent (s : State) : Prop := ∃ irp, s.retained = some irp ∧ Done s.trace irp.id

theorem not_once_append {as bs : List Event} {e : Event} (he : e ∈ bs) (h : Done as e.irp) :
    ¬ Once (as ++ bs) := fun ho => (once_append.mp ho).2.2 e he h

theorem served_spent {s s' : State} {r : Ring} {irp : Irp} (hs : Served s s' r irp)
    (hd : Done s.trace irp.id) : ¬ Once s'.trace ∨ Spent s' ∧ s'.returned = s.returned := by
  cases hs with
  | invalid st _ hm | corrupt st _ _ hm =>
    left
    rw [hm.trace]
    exact not_once_append (List.mem_singleton.mpr rfl) hd
  | kept _ _ hm =>
    refine .inr ⟨⟨irp, hm.retained, ?_⟩, hm.returned⟩
    rw [hm.trace, List.append_nil]
    exact hd
  | done st read _ _ hm | closed st _ hm =>
    left
    rw [hm.trace]
    exact not_once_append (List.mem_append_right _ (List.mem_singleton.mpr rfl)) hd

theorem spent_body {s : State} (h : Spent s) (env : Env) (hret : s.returned = false) :
    ¬ Once (body s env).trace ∨ Spent (body s env) ∧ (body s env).returned = false := by
  obtain ⟨irp, hr, hd⟩ := h
  unfold body
  rw [hr]
  dsimp only
  split
  · left
    simp only [State.noMore, State.insertHead]
    split <;> exact not_once_append (List.mem_singleton.mpr rfl) hd
  · rw [← hret]
    exact served_spent (serve_spec s env irp) hd

theorem unclean_body {s : State} {env : Env} (hret : s.returned = false) (hc : ¬ Clean s env) :
    Spent (body s env) ∧ (body s env).returned = false := by
  unfold Clean at hc
  simp only [not_forall, Decidable.not_not] at hc
  obtain ⟨hk, htest, hpeek⟩ := hc
  obtain ⟨irp, hr⟩ := Option.isSome_iff_exists.mp hk
  unfold body
  rw [if_neg htest, hr]
  dsimp only
  cases serve_spec s env irp with
  | invalid st _ hm | corrupt st _ _ hm =>
    refine ⟨⟨irp, hm.retained.trans hr, ?_⟩, hm.returned.trans hret⟩
    rw [hm.trace]
    exact done_append.mpr (.inr (done_singleton_completed.mpr rfl))
  | kept _ hne hm => exact absurd hpeek hne
  | done _ _ hne _ hm => exact absurd hpeek hne
  | closed _ hne hm => exact absurd hpeek hne

theorem served_grows {s s' : State} {r : Ring} {irp : Irp} (hs : Served s s' r irp) :
    ∃ es, s'.trace = s.trace ++ es := by
  cases hs <;> exact ⟨_, Moved.trace (by assumption)⟩

theorem body_grows (s : State) (env : Env) : ∃ es, (body s env).trace = s.trace ++ es := by
  unfold body
  split
  · cases s.retained with
    | none => exact ⟨[], (List.append_nil _).symm⟩
    | some irp =>
      simp only [State.noMore, State.insertHead]
      split <;> exact ⟨_, rfl⟩
  · cases s.retained with
    | some irp => exact served_grows (serve_spec s env irp)
    | none =>
      dsimp only
      split
      · exact ⟨[], (List.append_nil _).symm⟩
      · next irp _ =>
        obtain ⟨es, he⟩ := served_grows (serve_spec (removeNextIrp s irp) env irp)
        refine ⟨[.removed irp.id] ++ es, ?_⟩
        rw [he, removeNextIrp, State.emit, List.append_assoc]

/-! ### Whole calls -/

section Run
variable {s : State}

theorem run_cons (s : State) (env : Env) (envs : List Env) : v4vProcessConnectorReads s (env :: envs) =
    if s.returned then s else v4vProcessConnectorReads (turn s env) envs := rfl

theorem run_grows (s : State) (envs : List Env) :
    ∃ es, (v4vProcessConnectorReads s envs).trace = s.trace ++ es := by
  induction envs generalizing s with
  | nil => exact ⟨[], (List.append_nil _).symm⟩
  | cons env envs ih =>
    rw [run_cons]
    split
    · exact ⟨[], (List.append_nil _).symm⟩
    · obtain ⟨es, h1⟩ := ih (turn s env)
      obtain ⟨es', h2⟩ : ∃ es, (turn s env).trace = s.trace ++ es := body_grows _ env
      exact ⟨es' ++ es, by rw [h1, h2, List.append_assoc]⟩

theorem run_returned (h : s.returned = true) (envs : List Env) :
    v4vProcessConnectorReads s envs = s := by
  cases envs with
  | nil => rfl
  | cons env envs => rw [run_cons, if_pos h]

theorem along_returned {P : State → Env → Prop} (h : s.returned = true) (envs : List Env) :
    Along P s envs := by
  cases envs with
  | nil => trivial
  | cons env envs => exact .inl h

theorem run_clean {envs : List Env} (h : Running s) (hret : s.returned = false)
    (hf : Along Fresh s envs) (hc : Along Clean s envs) :
    Running (v4vProcessConnectorReads s envs) ∧ (v4vProcessConnectorReads s envs).returned = false ∨
      (v4vProcessConnectorReads s envs).returned = true ∧
        Handled (v4vProcessConnectorReads s envs).trace := by
  induction envs generalizing s with
  | nil => exact .inl ⟨h, hret⟩
  | cons env envs ih =>
    rw [run_cons, if_neg (by simp [hret])]
    obtain ⟨hf1, hf2⟩ := hf.resolve_left (by simp [hret])
    obtain ⟨hc1, hc2⟩ := hc.resolve_left (by simp [hret])
    rcases running_turn h hret hf1 hc1 with ⟨h', hret'⟩ | ⟨hret', hh⟩
    · exact ih h' hret' hf2 hc2
    · rw [run_returned hret']
      exact .inr ⟨hret', hh⟩

theorem run_spent {envs : List Env} (h : Spent s) (hret : s.returned = false)
    (hend : (v4vProcessConnectorReads s envs).returned = true) :
    ¬ Once (v4vProcessConnectorReads s envs).trace := by
  induction envs generalizing s with
  | nil =>
    have hend' : s.returned = true := hend
    rw [hret] at hend'
    cases hend'
  | cons env envs ih =>
    rw [run_cons, if_neg (by simp [hret])] at hend ⊢
    have hbody : ¬ Once (turn s env).trace ∨ Spent (turn s env) ∧ (turn s env).returned = false :=
      spent_body (s := { others s env with
        notify := (others s env).notify || (others s env).retained.isSome }) h env hret
    rcases hbody with ho | ⟨hs, hret'⟩
    · obtain ⟨es, he⟩ := run_grows (turn s env) envs
      rw [he, once_append]
      exact fun hc => ho hc.1
    · exact ih hs hret' hend

theorem clean_of_handled {envs : List Env} (h : Running s) (hret : s.returned = false)
    (hf : Along Fresh s envs) (hend : (v4vProcessConnectorReads s envs).returned = true)
    (ho : Once (v4vProcessConnectorReads s envs).trace) : Along Clean s envs := by
  induction envs generalizing s with
  | nil => trivial
  | cons env envs ih =>
    rw [run_cons, if_neg (by simp [hret])] at hend ho
    obtain ⟨hf1, hf2⟩ := hf.resolve_left (by simp [hret])
    by_cases hc : Clean s env
    · refine .inr ⟨hc, ?_⟩
      rcases running_turn h hret hf1 hc with ⟨h', hret'⟩ | ⟨hret', -⟩
      · exact ih h' hret' hf2 hend ho
      · exact along_returned hret' envs
    · obtain ⟨hs, hret'⟩ : Spent (turn s env) ∧ (turn s env).returned = false :=
        unclean_body (s := { others s env with
          notify := (others s env).notify || (others s env).retained.isSome }) hret hc
      exact absurd ho (run_spent hs hret' hend)

end Run

/-- On entry: nothing has been done yet, and the queue holds each IRP once. -/
structure Entry (s : State) : Prop where
  nodup : (s.queue.map Irp.id).Nodup
  retained : s.retained = none
  returned : s.returned = false
  trace : s.trace = []

theorem Entry.running {s : State} (h : Entry s) : Running s := by
  refine ⟨h.nodup, ?_, ?_, ?_, ?_⟩
  · rintro irp _ ⟨st, hd⟩
    rw [h.trace] at hd
    cases hd
  · rw [h.trace]
    exact List.Pairwise.nil
  · intro irp hr
    rw [h.retained] at hr
    cases hr
  · intro id hid
    rw [h.trace] at hid
    cases hid

/-- As long as every turn is clean nothing is done to an IRP after its completion; and a call that
has returned has handled its IRPs exactly if all its turns were clean. -/
theorem connector_irps (s : State) (envs : List Env) (h : Entry s) (hf : Along Fresh s envs) :
    (Along Clean s envs → Once (v4vProcessConnectorReads s envs).trace) ∧
    ((v4vProcessConnectorReads s envs).returned = true →
      (Handled (v4vProcessConnectorReads s envs).trace ↔ Along Clean s envs)) := by
  refine ⟨fun hc => ?_, fun hend => ⟨fun hh => ?_, fun hc => ?_⟩⟩
  · rcases run_clean h.running h.returned hf hc with ⟨hr, -⟩ | ⟨-, hh⟩
    · exact hr.once
    · exact hh.1
  · exact clean_of_handled h.running h.returned hf hend hh.1
  · rcases run_clean h.running h.returned hf hc with ⟨-, hret⟩ | ⟨-, hh⟩
    · rw [hret] at hend
      cases hend
    · exact hh

/-- A connector with one read of 16 bytes pending. -/
def oneRead (r : Ring) : State where
  ring := r
  pfo := 1
  connId := 7
  sdst := ⟨5, 3⟩
  queue := [⟨0, 1, false, 16, false⟩]
  retained := none
  kevReceive := false
  disconnected := false
  resets := []
  notify := false
  returned := false
  trace := []

/-- A turn in which nothing but the function itself acts, on the ring `r`. -/
def quiet (r : Ring) : Env := ⟨⟨r.ring, r.txPtr⟩, ⟨r.ring, r.txPtr⟩, ⟨r.ring, r.txPtr⟩, [], [], true⟩

/-- A message of another protocol. -/
def foreign : Ring := xenPut ⟨128, 0, 0, fun _ => 0⟩ ⟨⟨5, 3⟩, 0, [65]⟩

theorem oneRead_entry (r : Ring) : Entry (oneRead r) := ⟨List.pairwise_singleton _ _, rfl, rfl, rfl⟩

theorem quiet_fresh (r : Ring) (s : State) : Fresh s (quiet r) :=
  ⟨List.nodup_nil, fun _ h => nomatch h⟩

/-- The read is put back behind the foreign message. -/
theorem connector_irps_foreign :
    Handled (v4vProcessConnectorReads (oneRead foreign) [quiet foreign, quiet foreign]).trace := by
  refine ((connector_irps (oneRead foreign) [quiet foreign, quiet foreign] (oneRead_entry _)
    (.inr ⟨quiet_fresh _ _, .inr ⟨quiet_fresh _ _, trivial⟩⟩)).2 (by decide +kernel)).mpr ?_
  refine .inr ⟨(fun h => nomatch h), .inr ⟨fun _ hne => absurd ?_ hne, trivial⟩⟩
  decide +kernel

/-- A foreign message and behind it a header of zeros. -/
def foreignThenZeros : Ring := { foreign with txPtr := 48 }

/-- The read is failed in the second turn and put back in the third. -/
theorem connector_requeues_completed :
    (v4vProcessConnectorReads (oneRead foreignThenZeros)
        (List.replicate 3 (quiet foreignThenZeros))).trace =
      [.removed 0, .completed 0 .internalDbCorruption, .requeued 0] ∧
    ¬ Handled (v4vProcessConnectorReads (oneRead foreignThenZeros)
        (List.replicate 3 (quiet foreignThenZeros))).trace := by
  have htr : (v4vProcessConnectorReads (oneRead foreignThenZeros)
        (List.replicate 3 (quiet foreignThenZeros))).trace =
      [.removed 0, .completed 0 .internalDbCorruption, .requeued 0] := by decide +kernel
  refine ⟨htr, fun h => ?_⟩
  have honce := h.1
  rw [htr] at honce
  have hsplit : Once ([.removed 0, .completed 0 .internalDbCorruption] ++ [.requeued 0]) := honce
  obtain ⟨-, -, hlast⟩ := once_append.mp hsplit
  exact hlast (.requeued 0) (List.mem_singleton.mpr rfl) ⟨_, List.mem_of_getLast? rfl⟩

end XcWindows.V4v.Connector
