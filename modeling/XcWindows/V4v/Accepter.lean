import XcWindows.Lib.Machine
import XcWindows.V4v.Delivery

/-!
# Read order of an accepted stream

The listener's DPC against the readers of its accepters. `V4vProcessAccepterBufferedReads` drains
the data queue under the `dataLock`, then takes an IRP from the cancel-safe queue, and reads the
message into it or into a new entry of the data queue; between these steps other threads queue
reads (`V4vDispatchRead`), drain the queue themselves, cancel reads, close and accept contexts. The
pc of the listener names the step it is at.

The ghosts are the messages Xen has put on the listener's ring (`msgs`), which of them have been
consumed and by which context (`consumed`), and the contexts whose data queue was flushed.
-/

namespace XcWindows.V4v

open Lib
open Function (update update_of_ne)

/-- Where the listener is in `V4vProcessListenerReads`. -/
inductive Pc where
  | idle
  | top (passive : Bool)
  /-- before the `dataLock` of the drain -/
  | enter (passive : Bool) (c dlen : Nat)
  | drain (passive : Bool) (c dlen : Nat)
  /-- before `IoCsqRemoveNextIrp` -/
  | take (passive : Bool) (c dlen : Nat) (signaled : Bool)
  | direct (passive : Bool) (c dlen : Nat) (irp : ReadIrp)
  | queue (passive : Bool) (c dlen : Nat) (signaled : Bool)
  /-- before the `dataLock` of the insertion -/
  | chain (passive : Bool) (c : Nat) (pd : Data) (signaled : Bool)
deriving DecidableEq

inductive Holder where
  | listener | reader
deriving DecidableEq

structure Device where
  w : World
  pc : Pc
  dataLock : Nat → Option Holder
  msgs : List Msg
  consumed : List (Msg × Option Nat)
  flushed : Nat → Bool

namespace Device

def setLock (s : Device) (c : Nat) (l : Option Holder) : Device :=
  { s with dataLock := update s.dataLock c l }

/-- The messages on the ring. -/
def onRing (s : Device) : List Msg := s.msgs.drop s.consumed.length

/-- The first `n` messages on the ring have been consumed for `c`. -/
def pop (s : Device) (n : Nat) (c : Option Nat) : Device :=
  { s with consumed := s.consumed ++ (s.onRing.take n).map (·, c) }

end Device

inductive Act where
  /-- Xen puts a message on the listener's ring -/
  | put (m : Msg)
  /-- the DPC calls `V4vProcessListenerReads` -/
  | listen (passive : Bool)
  | listener (env : Env)
  /-- `V4vDispatchRead` queues a stream read -/
  | dispatchRead (irp : ReadIrp)
  /-- a reader enters `V4vProcessAccepterReads` -/
  | acquire (c : Nat)
  | read (c : Nat) (notify : Bool)
  | cancel (id : Nat)
  /-- `V4vFlushAccepterQueueData` of a disconnect or a cleanup -/
  | flush (c : Nat)
  /-- another thread accepts, connects, disconnects or closes a context -/
  | context (c : Nat) (state : CtxState) (type : CtxType) (sdst : Addr) (connId : Nat)
  | contextList (l : List Nat)
  | otherRing (o : Nat) (r : Ring)

/-- The context shares the ring of the listener. -/
def Shares (w : World) (c : Nat) : Prop := (w.ctx c).ringObject = (w.ctx w.listener).ringObject

instance (w : World) (c : Nat) : Decidable (Shares w c) := inferInstanceAs (Decidable (_ = _))

/-- How many of `n` messages a decision takes off the ring. -/
def taken (passive : Bool) (n : Nat) : Decision → Nat
  | .syn _ _ => if passive then 2 else 1
  | .recover => n
  | _ => 1

/-- The message was read for `c`; it is one of this ring if `c` shares it. -/
def Device.popFor (s : Device) (c : Nat) : Device :=
  if Shares s.w c then s.pop 1 (some c) else s

/-- One step of the listener. -/
def listenerStep (s : Device) (env : Env) : Option Device :=
  match s.pc with
  | .idle => none
  | .top passive =>
    match listenerDecision s.w with
    | .done => some { s with pc := .idle }
    | .data c _ _ dlen => some { s with pc := .enter passive c dlen }
    | .disconnect c src sh =>
      if s.dataLock c = none then
        some { s with w := (listenerApply s.w passive env (.disconnect c src sh)).1, pc := .idle
                      flushed := update s.flushed c true }
      else none
    | d => some { s.pop (taken passive s.onRing.length d) none with
                  w := (listenerApply s.w passive env d).1 }
  | .enter passive c dlen =>
    if s.dataLock c = none then
      some { s.setLock c (some .listener) with pc := .drain passive c dlen }
    else none
  | .drain passive c dlen =>
    match accepterReadsTurn s.w c true with
    | (w, none) => some { s with w }
    | (w, some signaled) => some { s.setLock c none with w, pc := .take passive c dlen signaled }
  | .take passive c dlen signaled =>
    match takeReadIrp s.w c dlen with
    | (some irp, w) => some { s with w, pc := .direct passive c dlen irp }
    | (none, w) => some { s with w, pc := .queue passive c dlen signaled }
  | .direct passive c dlen irp =>
    some { s.popFor c with w := readToIrp s.w c dlen irp, pc := .top passive }
  | .queue passive c dlen signaled =>
    if env.alloc then
      match readToQueue s.w c dlen with
      | (w, none) => some { s with w, pc := .top passive }
      | (w, some pd) => some { s.popFor c with w, pc := .chain passive c pd signaled }
    else some { s with pc := .top passive }
  | .chain passive c pd signaled =>
    if s.dataLock c = none then
      some { s with w := chainData s.w c pd signaled, pc := .top passive }
    else none

instance (m : Msg) : Decidable m.Fits :=
  decidable_of_iff (m.source.port < 4294967296 ∧ m.source.domain < 65536 ∧ m.protocol < 4294967296)
    ⟨fun ⟨a, b, c⟩ => ⟨a, b, c⟩, fun h => ⟨h.port, h.domain, h.protocol⟩⟩

def deviceStep (s : Device) : Act → Option Device
  | .put m =>
    let r := s.w.ringOf s.w.listener
    if m.Fits ∧ v4vRingBytesToRead r + m.span < r.len then
      some { s with w := s.w.setRing (s.w.ctx s.w.listener).ringObject (xenPut r m)
                    msgs := s.msgs ++ [m] }
    else none
  | .listen passive => if s.pc = .idle then some { s with pc := .top passive } else none
  | .listener env => listenerStep s env
  | .dispatchRead irp =>
    -- a zero length read is completed at once
    if irp.len = 0 then none else some { s with w := { s.w with irps := s.w.irps ++ [irp] } }
  | .acquire c => if s.dataLock c = none then some (s.setLock c (some .reader)) else none
  | .read c notify =>
    if s.dataLock c = some .reader then
      match accepterReadsTurn s.w c notify with
      | (w, none) => some { s with w }
      | (w, some _) => some { s.setLock c none with w }
    else none
  | .cancel id => some { s with w := { s.w with irps := s.w.irps.filter (·.id ≠ id) } }
  | .flush c =>
    if s.dataLock c = none then
      some { s with w := s.w.setDataList c [], flushed := update s.flushed c true }
    else none
  | .context c state type sdst connId =>
    some { s with w := s.w.setCtx c { s.w.ctx c with state, type, sdst, connId } }
  | .contextList l => some { s with w := { s.w with contextList := l } }
  | .otherRing o r =>
    if o ≠ (s.w.ctx s.w.listener).ringObject then some { s with w := s.w.setRing o r } else none

/-- Before the first message: an empty ring, empty data queues, nothing read. -/
structure Fresh (w : World) : Prop where
  ring : Holds (w.ringOf w.listener) []
  dataList : ∀ c, (w.ctx c).dataList = []
  completed : w.completed = []
  assertFailed : w.assertFailed = false

def deviceMachine (w : World) : Machine Device Act :=
  ⟨⟨w, .idle, fun _ => none, [], [], fun _ => false⟩, deviceStep⟩

/-- When the listener takes an IRP for a message, no data is left in the queue, or the IRP is too
short for the message. -/
def TakeOk (w : World) : Pc → Prop
  | .take _ c dlen _ =>
    (w.ctx c).dataList = [] ∨ ∀ irp ∈ w.irps.find? (·.pfo = c), irp.len < dlen - streamSize
  | _ => True

instance (w : World) : DecidablePred (TakeOk w)
  | .take _ _ _ _ => inferInstanceAs (Decidable (_ ∨ _))
  | .idle | .top _ | .enter _ _ _ | .drain _ _ _ | .direct _ _ _ _ | .queue _ _ _ _
  | .chain _ _ _ _ => isTrue trivial

def TakesInOrder (s : Device) : Act → Prop
  | .listener _ => TakeOk s.w s.pc
  | _ => True

instance (s : Device) : DecidablePred (TakesInOrder s)
  | .listener _ => inferInstanceAs (Decidable (TakeOk s.w s.pc))
  | .put _ | .listen _ | .dispatchRead _ | .acquire _ | .read _ _ | .cancel _ | .flush _
  | .context _ _ _ _ _ | .contextList _ | .otherRing _ _ => isTrue trivial

/-- The payloads of the messages that were read for `c`, in the order of the ring. -/
def Device.passed (s : Device) (c : Nat) : List (List UInt8) :=
  (s.consumed.filter (·.2 = some c)).map (·.1.payload)

/-- The entry that is about to be chained. -/
def Device.inflight (s : Device) (c : Nat) : List (List UInt8) :=
  match s.pc with
  | .chain _ c' pd _ => if c = c' then [pd.bytes] else []
  | _ => []

/-- The context a message is being read for, and the length it was announced with. -/
def Pc.reading : Pc → Option (Nat × Nat)
  | .enter _ c dlen | .drain _ c dlen | .take _ c dlen _ | .direct _ c dlen _ | .queue _ c dlen _ =>
    some (c, dlen)
  | _ => none

structure InOrder (s : Device) : Prop where
  ring : Holds (s.w.ringOf s.w.listener) s.onRing
  order : s.consumed.map Prod.fst = s.msgs.take s.consumed.length
  head : ∀ c dlen, s.pc.reading = some (c, dlen) → Shares s.w c →
    ∃ m ms, s.onRing = m :: ms ∧ m.data.length = dlen
  direct : ∀ p c dlen irp, s.pc = .direct p c dlen irp → irp.pfo = c ∧ (s.w.ctx c).dataList = []
  stream : ∀ c, Shares s.w c → s.flushed c = false → s.w.stream c ++ s.inflight c = s.passed c
  sub : ∀ c, Shares s.w c → (s.w.stream c ++ s.inflight c).Sublist (s.passed c)
  asserts : s.w.assertFailed = false

/-! ### The ghosts -/

section Ghost
variable (s : Device) (n : Nat) (c : Option Nat)

theorem onRing_pop : (s.pop n c).onRing = s.onRing.drop n := by
  simp only [Device.pop, Device.onRing, List.length_append, List.length_map, List.length_take,
    ← List.drop_drop]
  rcases Nat.le_total n (s.msgs.drop s.consumed.length).length with h | h
  · rw [Nat.min_eq_left h]
  · rw [Nat.min_eq_right h, List.drop_length, List.drop_of_length_le h]

theorem order_pop (h : s.consumed.map Prod.fst = s.msgs.take s.consumed.length) :
    (s.pop n c).consumed.map Prod.fst = s.msgs.take (s.pop n c).consumed.length := by
  simp only [Device.pop, List.map_append, List.map_map, h, List.length_append, List.length_map,
    List.length_take, List.take_add, Device.onRing]
  congr 1
  rw [show (Prod.fst ∘ fun m : Msg => (m, c)) = id from rfl, List.map_id]
  rcases Nat.le_total n (s.msgs.drop s.consumed.length).length with h | h
  · rw [Nat.min_eq_left h]
  · rw [Nat.min_eq_right h, List.take_of_length_le h, List.take_length]

theorem passed_pop_none (c' : Nat) : (s.pop n none).passed c' = s.passed c' := by
  have hnil : ((s.onRing.take n).map fun m => (m, (none : Option Nat))).filter (·.2 = some c') = [] := by
    simp only [List.filter_eq_nil_iff, List.mem_map]
    rintro _ ⟨m, -, rfl⟩
    simp
  simp only [Device.pop, Device.passed, List.filter_append, hnil, List.append_nil]

theorem passed_pop_one {m : Msg} {ms : List Msg} (h : s.onRing = m :: ms) (k c' : Nat) :
    (s.pop 1 (some k)).passed c' = s.passed c' ++ if c' = k then [m.payload] else [] := by
  simp only [Device.pop, Device.passed, h, List.take_succ_cons, List.take_zero, List.map_cons,
    List.map_nil, List.filter_append, List.map_append]
  by_cases e : c' = k
  · simp [e]
  · rw [List.filter_cons_of_neg (by simpa using Ne.symm e)]
    simp [e]

end Ghost

/-! ### Worlds that agree on rings and streams -/

structure Keeps (w w' : World) : Prop where
  listener : w'.listener = w.listener
  ringObject : ∀ c, (w'.ctx c).ringObject = (w.ctx c).ringObject
  stream : ∀ c, w'.stream c = w.stream c
  nil : ∀ c, (w.ctx c).dataList = [] → (w'.ctx c).dataList = []
  assertFailed : w'.assertFailed = w.assertFailed

theorem Drained.keeps {w w' : World} (h : Drained w w') : Keeps w w' :=
  ⟨h.listener, fun c => (h.toSame.fields c).2.2.1, h.stream, h.nil, h.assertFailed⟩

theorem Keeps.trans {w₁ w₂ w₃ : World} (h : Keeps w₁ w₂) (h' : Keeps w₂ w₃) : Keeps w₁ w₃ :=
  ⟨h'.listener.trans h.listener, fun c => (h'.ringObject c).trans (h.ringObject c),
    fun c => (h'.stream c).trans (h.stream c), fun c hc => h'.nil c (h.nil c hc),
    h'.assertFailed.trans h.assertFailed⟩

theorem keeps_setRing (w : World) (o : Nat) (r : Ring) : Keeps w (w.setRing o r) :=
  ⟨rfl, fun _ => rfl, fun _ => rfl, fun _ h => h, rfl⟩

theorem keeps_recover (w : World) (c : Nat) : Keeps w (v4vRecoverRing w c) := keeps_setRing w _ _

theorem keeps_consume (w : World) (c : Nat) : Keeps w (consume w c) := by
  unfold consume
  split
  · exact ⟨rfl, fun _ => rfl, fun _ => rfl, fun _ h => h, rfl⟩
  · exact keeps_setRing w _ _

theorem keeps_reset (w : World) (sh : Stream) (src : Addr) : Keeps w (resetUnlessRst w sh src) := by
  unfold resetUnlessRst
  split <;> exact ⟨rfl, fun _ => rfl, fun _ => rfl, fun _ h => h, rfl⟩

theorem acceptSyns_dataList (ctx : Nat → Context) (syns : List Syn) (accepts : List Nat)
    (acks : List Bool) (c : Nat) :
    ((acceptSyns ctx syns accepts acks).1 c).dataList = (ctx c).dataList := by
  induction syns generalizing ctx accepts acks with
  | nil => simp [acceptSyns]
  | cons s syns ih =>
    cases accepts with
    | nil => simp [acceptSyns]
    | cons a accepts =>
      rw [acceptSyns, ih]
      by_cases e : c = a
      · subst e; simp
      · simp [update_of_ne e]

theorem keeps_preAccept (w : World) (sh : Stream) (src : Addr) (acks : List Bool) :
    Keeps w (v4vProcessPreAcceptReads w sh src acks) := by
  unfold v4vProcessPreAcceptReads
  split
  · exact ⟨rfl, fun _ => rfl, fun _ => rfl, fun _ h => h, rfl⟩
  · simp only [v4vDoAccepts]
    have hd := acceptSyns_dataList w.ctx (w.syns ++ [⟨src, sh.conid⟩]) w.accepts acks
    have ho := acceptSyns_ringObject w.ctx (w.syns ++ [⟨src, sh.conid⟩]) w.accepts acks
    refine ⟨rfl, fun c => ?_, fun c => ?_, fun c hc => ?_, rfl⟩
    · rw [((same_setEvent _ _ _).fields c).2.2.1]; exact ho c
    · rw [stream_setEvent, World.stream, hd]; rfl
    · rw [dataList_setEvent, hd]; exact hc

theorem keeps_listenerSyn (w : World) (passive : Bool) (acks : List Bool) :
    Keeps w (listenerSyn w passive acks) := by
  unfold listenerSyn
  split
  · exact keeps_recover w _
  · next p _ =>
    have h1 := keeps_setRing w (w.ctx w.listener).ringObject p.ring
    dsimp only
    split
    · exact h1.trans (keeps_recover _ _)
    split
    · exact h1.trans ((keeps_consume _ _).trans (keeps_reset _ _ _))
    · exact h1.trans (keeps_preAccept _ _ _ _)

section Steps
variable {s : Device}

theorem Keeps.shares {w w' : World} (k : Keeps w w') {c : Nat} : Shares w' c ↔ Shares w c := by
  simp only [Shares, k.ringObject, k.listener]

/-- A step that leaves ring and streams alone. -/
theorem InOrder.keeps (h : InOrder s) {w' : World} (k : Keeps s.w w')
    (hr : w'.ringOf w'.listener = s.w.ringOf s.w.listener) : InOrder { s with w := w' } where
  ring := hr ▸ h.ring
  order := h.order
  head c dlen hp hc := h.head c dlen hp (k.shares.mp hc)
  direct p c dlen irp hp := ⟨(h.direct p c dlen irp hp).1, k.nil c (h.direct p c dlen irp hp).2⟩
  stream c hc hf := (congrArg (· ++ _) (k.stream c)).trans (h.stream c (k.shares.mp hc) hf)
  sub c hc := by
    show (w'.stream c ++ s.inflight c).Sublist (s.passed c)
    rw [k.stream c]; exact h.sub c (k.shares.mp hc)
  asserts := k.assertFailed.trans h.asserts

/-- The listener moves on without touching anything. -/
theorem InOrder.goto (h : InOrder s) {pc : Pc}
    (hread : ∀ x, pc.reading = some x → s.pc.reading = some x)
    (hdir : ∀ p c dlen irp, pc = .direct p c dlen irp → irp.pfo = c ∧ (s.w.ctx c).dataList = [])
    (hin : ∀ c, Device.inflight { s with pc } c = s.inflight c) : InOrder { s with pc } where
  ring := h.ring
  order := h.order
  head c dlen hp hc := h.head c dlen (hread _ hp) hc
  direct := hdir
  stream c hc hf := by rw [hin]; exact h.stream c hc hf
  sub c hc := by rw [hin]; exact h.sub c hc
  asserts := h.asserts

/-- The listener takes messages off the ring that are passed to nobody. -/
theorem InOrder.popNone (h : InOrder s) {p : Bool} (hpc : s.pc = .top p) {n : Nat} {w' : World}
    (k : Keeps s.w w') (hr : Holds (w'.ringOf w'.listener) (s.onRing.drop n)) :
    InOrder { s.pop n none with w := w' } where
  ring := by
    show Holds _ (s.pop n none).onRing
    rw [onRing_pop]; exact hr
  order := order_pop s n none h.order
  head c dlen hp := by
    change s.pc.reading = _ at hp
    rw [hpc] at hp; cases hp
  direct p' c dlen irp hp := by
    change s.pc = _ at hp
    rw [hpc] at hp; cases hp
  stream c hc hf := by
    show w'.stream c ++ s.inflight c = (s.pop n none).passed c
    rw [passed_pop_none, k.stream c]
    exact h.stream c (k.shares.mp hc) hf
  sub c hc := by
    show (w'.stream c ++ s.inflight c).Sublist ((s.pop n none).passed c)
    rw [passed_pop_none, k.stream c]
    exact h.sub c (k.shares.mp hc)
  asserts := k.assertFailed.trans h.asserts

theorem peekStream_notStream {r : Ring} {m : Msg} {ms : List Msg} (h : Holds r (m :: ms))
    (hs : ¬ m.IsStream) : peekStream r = .notStream := by
  simp only [peekStream, copyOut_holds h]
  rw [if_neg (by omega), if_pos]
  by_contra hc
  refine hs ⟨by simpa using fun e => hc (.inl e), ?_⟩
  have : ¬ (m.data.length : Int) < (streamSize : Nat) := fun e => hc (.inr e)
  simp only [streamSize] at this ⊢
  omega

theorem ringOf_shares {w : World} {c : Nat} (h : Shares w c) : w.ringOf c = w.ringOf w.listener := by
  simp only [World.ringOf]; rw [h]

/-- A disconnect empties the data queue of the context. -/
theorem InOrder.disconnect (h : InOrder s) {p : Bool} (hpc : s.pc = .top p) (c : Nat) :
    InOrder { s with w := v4vDisconnectStreamAndSignal s.w c, pc := .idle
                     flushed := update s.flushed c true } := by
  have hctx : ∀ c', c' ≠ c → (v4vDisconnectStreamAndSignal s.w c).ctx c' = s.w.ctx c' :=
    fun c' e => by simp [v4vDisconnectStreamAndSignal, World.setCtx, update_of_ne e]
  have hro : ∀ c', ((v4vDisconnectStreamAndSignal s.w c).ctx c').ringObject = (s.w.ctx c').ringObject := by
    intro c'
    by_cases e : c' = c
    · subst e; simp [v4vDisconnectStreamAndSignal, World.setCtx]
    · rw [hctx c' e]
  have hsh : ∀ c', Shares (v4vDisconnectStreamAndSignal s.w c) c' ↔ Shares s.w c' := by
    intro c'; simp only [Shares, hro]; rfl
  have hin : ∀ c', s.inflight c' = [] := fun c' => by simp [Device.inflight, hpc]
  have hst : ∀ c', c' ≠ c → (v4vDisconnectStreamAndSignal s.w c).stream c' = s.w.stream c' :=
    fun c' e => by simp only [World.stream, hctx c' e]; rfl
  refine ⟨?_, h.order, by simp [Pc.reading], by simp, ?_, ?_, h.asserts⟩
  · have : (v4vDisconnectStreamAndSignal s.w c).ringOf s.w.listener = s.w.ringOf s.w.listener := by
      simp only [World.ringOf, hro]; rfl
    show Holds ((v4vDisconnectStreamAndSignal s.w c).ringOf s.w.listener) s.onRing
    rw [this]; exact h.ring
  · intro c' hc' hf
    have e : c' ≠ c := by rintro rfl; simp at hf
    have hf' : s.flushed c' = false := by simpa [update_of_ne e] using hf
    have := h.stream c' ((hsh c').mp hc') hf'
    rw [hin] at this
    show (v4vDisconnectStreamAndSignal s.w c).stream c' ++ [] = s.passed c'
    rw [hst c' e, this]
  · intro c' hc'
    have := h.sub c' ((hsh c').mp hc')
    rw [hin, List.append_nil] at this
    show ((v4vDisconnectStreamAndSignal s.w c).stream c' ++ []).Sublist (s.passed c')
    rw [List.append_nil]
    by_cases e : c' = c
    · subst e
      refine List.Sublist.trans ?_ this
      simp only [World.stream, v4vDisconnectStreamAndSignal, World.setCtx, Function.update_self]
      refine List.Sublist.append (List.Sublist.refl _) (List.Sublist.map _ ?_)
      split
      · exact List.nil_sublist _
      · exact List.Sublist.refl _
    · rw [hst c' e]; exact this

/-- The loop head: the message at the head of the ring is consumed, or read for a context. -/
theorem InOrder.top (h : InOrder s) {p : Bool} (hpc : s.pc = .top p) {env : Env} {t : Device}
    (ht : listenerStep s env = some t) : InOrder t := by
  have hstay : ∀ {pc : Pc}, pc.reading = none → (∀ a b c d, pc ≠ .chain a b c d) →
      (∀ a b c d, pc ≠ .direct a b c d) → InOrder { s with pc } := by
    intro pc hr hch hd
    refine h.goto (fun x hx => by rw [hr] at hx; cases hx) (fun a b c d e => absurd e (hd a b c d)) ?_
    intro c
    cases pc <;> first | exact absurd rfl (hch _ _ _ _) | simp [Device.inflight, hpc]
  simp only [listenerStep, hpc] at ht
  have hring := h.ring
  cases hon : s.onRing with
  | nil =>
    rw [hon] at hring
    have hd : listenerDecision s.w = .done := by simp [listenerDecision, hring.rx_eq_tx.mpr rfl]
    rw [hd] at ht
    cases ht
    exact hstay rfl (by simp) (by simp)
  | cons m ms =>
    rw [hon] at hring
    have hne : ¬ (s.w.ringOf s.w.listener).rxPtr = (s.w.ringOf s.w.listener).txPtr := by
      rw [hring.rx_eq_tx]; simp
    have hone : Holds ((consume s.w s.w.listener).ringOf s.w.listener) (s.onRing.drop 1) := by
      rw [(consume_ring hring).2, hon]; exact hring.advance
    by_cases hs : m.IsStream
    · have hd := listenerDecision_stream (peekStream_holds hring hs)
      by_cases hf : m.sh.syn = true
      · rw [if_pos hf] at hd
        rw [hd] at ht
        cases ht
        obtain ⟨hl, hr⟩ := listenerSyn_holds p hring env.acks
        apply h.popNone hpc (keeps_listenerSyn s.w p env.acks)
        show Holds ((listenerSyn s.w p env.acks).ringOf (listenerSyn s.w p env.acks).listener) _
        rw [hl, hr]
        cases p with
        | false => rw [if_neg (by simp), hon]; exact hring.advance
        | true =>
          rw [if_pos rfl]
          cases ms with
          | nil =>
            rw [hon] at hone ⊢
            rw [consume_empty hone]
            simpa [taken] using hone
          | cons m2 ms =>
            rw [hon] at hone ⊢
            rw [consume_holds hone, ringOf_setRing]
            exact hone.advance
      · rw [if_neg hf] at hd
        cases hg : v4vGetContextByConnectionId s.w m.sh.conid with
        | none =>
          simp only [hg] at hd
          rw [hd] at ht
          cases ht
          apply h.popNone hpc ((keeps_consume _ _).trans (keeps_reset _ _ _))
          show Holds ((resetUnlessRst _ m.sh m.source).ringOf (resetUnlessRst _ m.sh m.source).listener) _
          rw [ringOf_reset, listener_reset, (consume_ring hring).1]
          exact hone
        | some c =>
          simp only [hg] at hd
          by_cases hr : m.sh.rst = true
          · rw [if_pos hr] at hd
            rw [hd] at ht
            dsimp only at ht
            split at ht
            · cases ht; exact h.disconnect hpc c
            · cases ht
          · rw [if_neg hr] at hd
            rw [hd] at ht
            cases ht
            refine ⟨h.ring, h.order, ?_, by simp, ?_, ?_, h.asserts⟩
            · rintro _ _ hp _
              cases hp
              exact ⟨m, ms, hon, rfl⟩
            · intro c' hc' hf'
              simpa [Device.inflight, Device.passed, hpc] using h.stream c' hc' hf'
            · intro c' hc'
              simpa [Device.inflight, Device.passed, hpc] using h.sub c' hc'
    · have hd : listenerDecision s.w = .drop := by
        simp only [listenerDecision, if_neg hne, peekStream_notStream hring hs]
      rw [hd] at ht
      cases ht
      apply h.popNone hpc (keeps_consume s.w s.w.listener)
      show Holds ((consume s.w s.w.listener).ringOf (consume s.w s.w.listener).listener) _
      rw [(consume_ring hring).1]
      exact hone

theorem InOrder.passHead (h : InOrder s) (c dlen : Nat) (hread : s.pc.reading = some (c, dlen))
    {pc : Pc} {w' : World} (hpc : pc.reading = none) (hdir : ∀ p c dlen irp, pc ≠ .direct p c dlen irp)
    (hl : w'.listener = s.w.listener) (ho : ∀ c', (w'.ctx c').ringObject = (s.w.ctx c').ringObject)
    (hring : ∀ m ms, Shares s.w c → s.onRing = m :: ms → m.data.length = dlen →
      w'.ringOf s.w.listener = (s.w.ringOf s.w.listener).advance m)
    (hother : ¬ Shares s.w c → w'.ringOf s.w.listener = s.w.ringOf s.w.listener)
    (hin : s.inflight = fun _ => [])
    (hst : ∀ m ms c', Shares s.w c → Shares s.w c' → s.onRing = m :: ms → m.data.length = dlen →
      w'.stream c' ++ Device.inflight { s with pc } c' =
        s.w.stream c' ++ if c' = c then [m.payload] else [])
    (hst' : ∀ c', ¬ Shares s.w c → Shares s.w c' →
      w'.stream c' ++ Device.inflight { s with pc } c' = s.w.stream c')
    (ha : w'.assertFailed = false) : InOrder { s.popFor c with w := w', pc } := by
  have hsh : ∀ c', Shares w' c' ↔ Shares s.w c' := fun c' => by simp only [Shares, ho, hl]
  have hd : ∀ p c' dlen' irp, pc = .direct p c' dlen' irp →
      irp.pfo = c' ∧ (w'.ctx c').dataList = [] := fun p c' dlen' irp e => absurd e (hdir p c' dlen' irp)
  have hinf : ∀ c', Device.inflight { s.popFor c with w := w', pc } c' =
      Device.inflight { s with pc } c' := fun c' => rfl
  unfold Device.popFor at hinf ⊢
  by_cases hc : Shares s.w c
  · obtain ⟨m, ms, hon, hlen⟩ := h.head c dlen hread hc
    rw [if_pos hc] at hinf ⊢
    have hp : ∀ c', Device.passed { s.pop 1 (some c) with w := w', pc } c' =
        s.passed c' ++ if c' = c then [m.payload] else [] := passed_pop_one s hon c
    refine ⟨?_, order_pop s 1 (some c) h.order, (fun _ _ hr => absurd (hpc.symm.trans hr) (by simp)), hd, ?_, ?_, ha⟩
    · show Holds (w'.ringOf w'.listener) (s.pop 1 (some c)).onRing
      rw [onRing_pop, hl, hring m ms hc hon hlen, hon]
      exact (hon ▸ h.ring).advance
    · intro c' hc' hf
      have := h.stream c' ((hsh c').mp hc') hf
      rw [hin, List.append_nil] at this
      rw [hinf, hst m ms c' hc ((hsh c').mp hc') hon hlen, this, hp]
    · intro c' hc'
      have := h.sub c' ((hsh c').mp hc')
      rw [hin, List.append_nil] at this
      rw [hinf, hst m ms c' hc ((hsh c').mp hc') hon hlen, hp]
      exact this.append (List.Sublist.refl _)
  · rw [if_neg hc] at hinf ⊢
    refine ⟨?_, h.order, (fun _ _ hr => absurd (hpc.symm.trans hr) (by simp)), hd, ?_, ?_, ha⟩
    · show Holds (w'.ringOf w'.listener) s.onRing
      rw [hl, hother hc]; exact h.ring
    · intro c' hc' hf
      have := h.stream c' ((hsh c').mp hc') hf
      rw [hin, List.append_nil] at this
      rw [hinf, hst' c' hc ((hsh c').mp hc'), this]
      rfl
    · intro c' hc'
      have := h.sub c' ((hsh c').mp hc')
      rw [hin, List.append_nil] at this
      rw [hinf, hst' c' hc ((hsh c').mp hc')]
      exact this

theorem readToIrp_frame (w : World) (c dlen : Nat) {irp : ReadIrp} (hpfo : irp.pfo = c) :
    (readToIrp w c dlen irp).ctx = w.ctx ∧
      (readToIrp w c dlen irp).assertFailed = (w.assertFailed || !(w.ctx c).dataList.isEmpty) ∧
      ∀ c', c' ≠ c → (readToIrp w c dlen irp).stream c' = w.stream c' := by
  have key : ∀ (w' : World) (st : Status) (n : Nat) (d : List UInt8), w'.ctx = w.ctx →
      w'.completed = w.completed → ∀ c', c' ≠ c → (w'.complete irp st n d).stream c' = w.stream c' := by
    intro w' st n d hc hd c' e
    rw [World.stream, taken_complete, if_neg (by rw [hpfo]; exact fun x => e x.1.symm)]
    simp [World.stream, World.taken, World.complete, hc, hd]
  unfold readToIrp
  dsimp only
  split
  · exact ⟨rfl, rfl, key _ _ _ _ rfl rfl⟩
  · split
    · exact ⟨rfl, rfl, key _ _ _ _ rfl rfl⟩
    · exact ⟨rfl, rfl, key _ _ _ _ rfl rfl⟩

theorem readToQueue_frame (w : World) (c dlen : Nat) : Keeps w (readToQueue w c dlen).1 := by
  unfold readToQueue
  split
  · exact keeps_recover w c
  · split
    · exact (keeps_setRing _ _ _).trans (keeps_recover _ _)
    · exact keeps_setRing _ _ _

theorem InOrder.direct_step (h : InOrder s) {p : Bool} {c dlen : Nat} {irp : ReadIrp}
    (hpc : s.pc = .direct p c dlen irp) :
    InOrder { s.popFor c with w := readToIrp s.w c dlen irp, pc := .top p } := by
  obtain ⟨hpfo, hnil⟩ := h.direct p c dlen irp hpc
  obtain ⟨hctx, hass, hst⟩ := readToIrp_frame s.w c dlen hpfo
  have hon := onRing_readToIrp s.w c dlen irp
  refine h.passHead c dlen (by rw [hpc]; rfl) rfl (by simp) hon.listener
    (fun c' => by rw [hctx]) ?_ ?_ (by funext c'; simp [Device.inflight, hpc]) ?_ ?_ ?_
  · intro m ms hc hr hlen
    rw [← hlen, readToIrp_holds ms (by rw [ringOf_shares hc, ← hr]; exact h.ring),
      ringOf_shares hc, hc]
    exact ringOf_setRing s.w s.w.listener ((s.w.ringOf s.w.listener).advance m)
  · intro hc
    rw [hon.toSame.ringOf]
    exact hon.rings _ (Ne.symm hc)
  · intro m ms c' hc _ hr hlen
    rw [← hlen, readToIrp_holds ms (by rw [ringOf_shares hc, ← hr]; exact h.ring),
      stream_readToIrp hpfo hnil]
    simp [Device.inflight]
  · intro c' hc hc'
    rw [hst c' (by rintro rfl; exact hc hc')]
    simp [Device.inflight]
  · rw [hass, h.asserts, hnil]; rfl

theorem InOrder.queue_step (h : InOrder s) {p : Bool} {c dlen : Nat} {signaled : Bool}
    (hpc : s.pc = .queue p c dlen signaled) {w' : World} {pd : Data}
    (hq : readToQueue s.w c dlen = (w', some pd)) :
    InOrder { s.popFor c with w := w', pc := .chain p c pd signaled } := by
  have hk := readToQueue_frame s.w c dlen
  have hon := onRing_readToQueue s.w c dlen
  rw [hq] at hk hon
  have hhead : ∀ m ms, Shares s.w c → s.onRing = m :: ms → m.data.length = dlen →
      w' = s.w.setRing (s.w.ctx c).ringObject ((s.w.ringOf c).advance m) ∧ pd.bytes = m.payload := by
    intro m ms hc hr hlen
    rw [← hlen, readToQueue_holds ms (by rw [ringOf_shares hc, ← hr]; exact h.ring)] at hq
    cases hq
    exact ⟨rfl, bytes_payload m⟩
  refine h.passHead c dlen (by rw [hpc]; rfl) rfl (by simp) hk.listener
    hk.ringObject ?_ ?_ (by funext c'; simp [Device.inflight, hpc]) ?_ ?_ ?_
  · intro m ms hc hr hlen
    rw [(hhead m ms hc hr hlen).1, ringOf_shares hc, hc]
    exact ringOf_setRing s.w s.w.listener _
  · intro hc
    rw [hon.toSame.ringOf]
    exact hon.rings _ (Ne.symm hc)
  · intro m ms c' hc _ hr hlen
    rw [hk.stream]
    simp only [Device.inflight, (hhead m ms hc hr hlen).2]
  · intro c' hc hc'
    have e : c' ≠ c := by rintro rfl; exact hc hc'
    rw [hk.stream]
    simp [Device.inflight, e]
  · rw [hk.assertFailed]; exact h.asserts

theorem InOrder.listener (h : InOrder s) {env : Env} {t : Device}
    (hok : TakesInOrder s (.listener env)) (ht : listenerStep s env = some t) : InOrder t := by
  cases hpc : s.pc with
  | idle => simp [listenerStep, hpc] at ht
  | top p => exact h.top hpc ht
  | enter p c dlen =>
    simp only [listenerStep, hpc] at ht
    split at ht
    · cases ht
      have h' : InOrder (s.setLock c (some .listener)) :=
        ⟨h.ring, h.order, h.head, h.direct, h.stream, h.sub, h.asserts⟩
      refine h'.goto (fun x hx => ?_) (by simp) fun c' => by simp [Device.inflight, Device.setLock, hpc]
      simpa [Device.setLock, hpc, Pc.reading] using hx
    · cases ht
  | drain p c dlen =>
    obtain ⟨hd, -⟩ := accepterReadsTurn_spec s.w c true
    simp only [listenerStep, hpc] at ht
    generalize accepterReadsTurn s.w c true = r at hd ht
    obtain ⟨w', o⟩ := r
    have hr : w'.ringOf w'.listener = s.w.ringOf s.w.listener := by
      rw [hd.listener, hd.toSame.ringOf, hd.rings]; rfl
    have h' := h.keeps hd.keeps hr
    cases o with
    | none =>
      cases ht
      simpa only [hpc] using h'
    | some b =>
      cases ht
      have h'' : InOrder (Device.setLock { s with w := w' } c none) :=
        ⟨h'.ring, h'.order, h'.head, h'.direct, h'.stream, h'.sub, h'.asserts⟩
      refine h''.goto (fun x hx => ?_) (by simp) fun c' => by simp [Device.inflight, Device.setLock, hpc]
      simpa [Device.setLock, hpc, Pc.reading] using hx
  | take p c dlen sig =>
    obtain ⟨hd, hctx, hirp⟩ := takeReadIrp_spec s.w c dlen
    simp only [TakesInOrder, TakeOk, hpc] at hok
    have htk : (takeReadIrp s.w c dlen).1 ≠ none → (s.w.ctx c).dataList = [] := by
      intro hne
      refine hok.resolve_right fun hall => hne ?_
      cases hf : s.w.irps.find? (·.pfo = c) with
      | none => simp [takeReadIrp, ioCsqRemoveNextIrp, hf]
      | some irp =>
        have := hall irp (by rw [hf]; rfl)
        simp [takeReadIrp, ioCsqRemoveNextIrp, hf, this]
    simp only [listenerStep, hpc] at ht
    generalize takeReadIrp s.w c dlen = r at hd hctx hirp htk ht
    obtain ⟨o, w'⟩ := r
    have hr : w'.ringOf w'.listener = s.w.ringOf s.w.listener := by
      rw [hd.listener, hd.toSame.ringOf, hd.rings]; rfl
    have h' := h.keeps hd.keeps hr
    cases o with
    | none =>
      cases ht
      refine h'.goto (fun x hx => ?_) (by simp) fun c' => by simp [Device.inflight, hpc]
      simpa [hpc, Pc.reading] using hx
    | some irp =>
      cases ht
      refine h'.goto (fun x hx => ?_) ?_ fun c' => by simp [Device.inflight, hpc]
      · simpa [hpc, Pc.reading] using hx
      · rintro p' c' dlen' irp' e
        cases e
        exact ⟨(hirp irp rfl).1, (congrArg (fun f => (f c).dataList) hctx).trans (htk (by simp))⟩
  | direct p c dlen irp =>
    simp only [listenerStep, hpc] at ht
    cases ht
    exact h.direct_step hpc
  | queue p c dlen sig =>
    have hk := readToQueue_frame s.w c dlen
    have hon := onRing_readToQueue s.w c dlen
    simp only [listenerStep, hpc] at ht
    split at ht
    · split at ht
      · next w' hq =>
        rw [hq] at hk hon
        cases ht
        -- the read only fails when the context is on another ring
        have hns : ¬ Shares s.w c := by
          intro hc
          obtain ⟨m, ms, hr, hlen⟩ := h.head c dlen (by rw [hpc]; rfl) hc
          rw [← hlen, readToQueue_holds ms (by rw [ringOf_shares hc, ← hr]; exact h.ring)] at hq
          cases hq
        have hr : w'.ringOf w'.listener = s.w.ringOf s.w.listener := by
          rw [hk.listener, hon.toSame.ringOf]; exact hon.rings _ (Ne.symm hns)
        refine (h.keeps hk hr).goto (fun x hx => by cases hx) (by simp) fun c' => ?_
        simp [Device.inflight, hpc]
      · next w' pd hq =>
        cases ht
        exact h.queue_step hpc hq
    · cases ht
      exact h.goto (fun x hx => by cases hx) (by simp) fun c' => by simp [Device.inflight, hpc]
  | chain p c pd sig =>
    simp only [listenerStep, hpc] at ht
    split at ht
    · cases ht
      have hsame := same_chainData s.w c pd sig
      have hsh : ∀ c', Shares (chainData s.w c pd sig) c' ↔ Shares s.w c' := fun c' => by
        simp only [Shares, (hsame.fields _).2.2.1, hsame.listener]
      have hst : ∀ c', (chainData s.w c pd sig).stream c' = s.w.stream c' ++ s.inflight c' := fun c' => by
        rw [stream_chainData]; simp [Device.inflight, hpc]
      refine ⟨?_, h.order, by simp [Pc.reading], by simp, ?_, ?_, ?_⟩
      · show Holds ((chainData s.w c pd sig).ringOf (chainData s.w c pd sig).listener) s.onRing
        rw [hsame.listener, hsame.ringOf, rings_chainData]
        exact h.ring
      · intro c' hc' hf
        show (chainData s.w c pd sig).stream c' ++ [] = s.passed c'
        rw [hst, List.append_nil]
        exact h.stream c' ((hsh c').mp hc') hf
      · intro c' hc'
        show ((chainData s.w c pd sig).stream c' ++ []).Sublist (s.passed c')
        rw [hst, List.append_nil]
        exact h.sub c' ((hsh c').mp hc')
      · cases sig <;> exact h.asserts
    · cases ht

theorem InOrder.put (h : InOrder s) {m : Msg} (hf : m.Fits)
    (hroom : v4vRingBytesToRead (s.w.ringOf s.w.listener) + m.span < (s.w.ringOf s.w.listener).len) :
    InOrder { s with w := s.w.setRing (s.w.ctx s.w.listener).ringObject
                            (xenPut (s.w.ringOf s.w.listener) m)
                     msgs := s.msgs ++ [m] } := by
  rw [h.ring.bytesToRead] at hroom
  have hle : s.consumed.length ≤ s.msgs.length := by
    have := congrArg List.length h.order
    simp only [List.length_map, List.length_take] at this
    omega
  have hon : (s.msgs ++ [m]).drop s.consumed.length = s.onRing ++ [m] :=
    List.drop_append_of_le_length hle
  refine ⟨?_, ?_, ?_, h.direct, h.stream, h.sub, h.asserts⟩
  · show Holds ((s.w.setRing (s.w.ctx s.w.listener).ringObject _).ringOf s.w.listener)
      ((s.msgs ++ [m]).drop s.consumed.length)
    rw [ringOf_setRing, hon]
    exact h.ring.put hf (by rw [span_append]; simpa using hroom)
  · show s.consumed.map Prod.fst = (s.msgs ++ [m]).take s.consumed.length
    rw [List.take_append_of_le_length hle, h.order]
  · intro c dlen hr hc
    obtain ⟨n, ms, hon', hlen⟩ := h.head c dlen hr hc
    refine ⟨n, ms ++ [m], ?_, hlen⟩
    show (s.msgs ++ [m]).drop s.consumed.length = _
    rw [hon, hon']; rfl

theorem InOrder.flush (h : InOrder s) (c : Nat) :
    InOrder { s with w := s.w.setDataList c [], flushed := update s.flushed c true } := by
  have hsame := same_setDataList s.w c []
  have hsh : ∀ c', Shares (s.w.setDataList c []) c' ↔ Shares s.w c' := fun c' => by
    simp only [Shares, (hsame.fields _).2.2.1, hsame.listener]
  refine ⟨?_, h.order, fun c' dlen hr hc => h.head c' dlen hr ((hsh c').mp hc), ?_, ?_, ?_, h.asserts⟩
  · show Holds ((s.w.setDataList c []).ringOf s.w.listener) s.onRing
    rw [hsame.ringOf, rings_setDataList]
    exact h.ring
  · intro p c' dlen irp hp
    obtain ⟨hpfo, hnil⟩ := h.direct p c' dlen irp hp
    refine ⟨hpfo, ?_⟩
    show ((s.w.setDataList c []).ctx c').dataList = []
    rw [dataList_setDataList]
    split
    · rfl
    · exact hnil
  · intro c' hc' hf
    have e : c' ≠ c := by rintro rfl; simp at hf
    have := h.stream c' ((hsh c').mp hc') (by simpa [update_of_ne e] using hf)
    show (s.w.setDataList c []).stream c' ++ s.inflight c' = s.passed c'
    rw [← this, World.stream, dataList_setDataList, if_neg e]
    rfl
  · intro c' hc'
    refine List.Sublist.trans ?_ (h.sub c' ((hsh c').mp hc'))
    show ((s.w.setDataList c []).stream c' ++ s.inflight c').Sublist _
    refine List.Sublist.append ?_ (List.Sublist.refl _)
    rw [World.stream, World.stream, dataList_setDataList]
    refine List.Sublist.append (List.Sublist.refl _) (List.Sublist.map _ ?_)
    split
    · exact List.nil_sublist _
    · exact List.Sublist.refl _

theorem InOrder.step {a : Act} {t : Device} (h : InOrder s) (hok : TakesInOrder s a)
    (ht : deviceStep s a = some t) : InOrder t := by
  cases a with
  | put m =>
    obtain ⟨hc, ht⟩ := Option.ite_none_right_eq_some.mp ht
    cases ht; exact h.put hc.1 hc.2
  | listen p =>
    obtain ⟨hc, ht⟩ := Option.ite_none_right_eq_some.mp ht
    cases ht
    exact h.goto (fun x hx => by cases hx) (by simp) fun c => by simp [Device.inflight, hc]
  | listener env => exact h.listener hok ht
  | dispatchRead irp =>
    simp only [deviceStep] at ht
    split at ht
    · cases ht
    · cases ht; exact h.keeps ⟨rfl, fun _ => rfl, fun _ => rfl, fun _ h => h, rfl⟩ rfl
  | acquire c =>
    obtain ⟨-, ht⟩ := Option.ite_none_right_eq_some.mp ht
    cases ht; exact ⟨h.ring, h.order, h.head, h.direct, h.stream, h.sub, h.asserts⟩
  | read c notify =>
    obtain ⟨hd, -⟩ := accepterReadsTurn_spec s.w c notify
    obtain ⟨-, ht⟩ := Option.ite_none_right_eq_some.mp ht
    generalize accepterReadsTurn s.w c notify = r at hd ht
    obtain ⟨w', o⟩ := r
    have hr : w'.ringOf w'.listener = s.w.ringOf s.w.listener := by
      rw [hd.listener, hd.toSame.ringOf, hd.rings]; rfl
    have h' := h.keeps hd.keeps hr
    cases o with
    | none => cases ht; exact h'
    | some b =>
      cases ht
      exact ⟨h'.ring, h'.order, h'.head, h'.direct, h'.stream, h'.sub, h'.asserts⟩
  | cancel id =>
    cases ht
    exact h.keeps ⟨rfl, fun _ => rfl, fun _ => rfl, fun _ h => h, rfl⟩ rfl
  | flush c =>
    obtain ⟨-, ht⟩ := Option.ite_none_right_eq_some.mp ht
    cases ht; exact h.flush c
  | context c state type sdst connId =>
    cases ht
    have hro : ∀ c', ((s.w.setCtx c { s.w.ctx c with state, type, sdst, connId }).ctx c').ringObject =
        (s.w.ctx c').ringObject := fun c' => by
      by_cases e : c' = c
      · subst e; simp [World.setCtx]
      · simp [World.setCtx, update_of_ne e]
    have hdl : ∀ c', ((s.w.setCtx c { s.w.ctx c with state, type, sdst, connId }).ctx c').dataList =
        (s.w.ctx c').dataList := fun c' => by
      by_cases e : c' = c
      · subst e; simp [World.setCtx]
      · simp [World.setCtx, update_of_ne e]
    refine h.keeps ⟨rfl, hro, fun c' => ?_, fun c' hc' => by rw [hdl]; exact hc', rfl⟩ ?_
    · rw [World.stream, hdl]; rfl
    · simp only [World.ringOf, hro]; rfl
  | contextList l =>
    cases ht
    exact h.keeps ⟨rfl, fun _ => rfl, fun _ => rfl, fun _ h => h, rfl⟩ rfl
  | otherRing o r =>
    obtain ⟨ho, ht⟩ := Option.ite_none_right_eq_some.mp ht
    cases ht
    apply h.keeps (keeps_setRing s.w o r)
    simp only [World.ringOf, World.setRing, update_of_ne (Ne.symm ho)]

end Steps

theorem inOrder_init {w : World} (h : Fresh w) : InOrder (deviceMachine w).init where
  ring := h.ring
  order := rfl
  head _ _ hr := by cases hr
  direct _ _ _ _ hr := by cases hr
  stream c _ _ := by
    simp [deviceMachine, World.stream, World.taken, h.completed, h.dataList, Device.passed,
      Device.inflight]
  sub c _ := by
    simp [deviceMachine, World.stream, World.taken, h.completed, h.dataList, Device.inflight]
  asserts := h.assertFailed

theorem inOrder_of_reach {w : World} {s : Device} (h : Fresh w)
    (hr : (deviceMachine w).Reach TakesInOrder s) : InOrder s :=
  hr.inv (inOrder_init h) fun _ _ _ hi hok hs => hi.step hok hs

/-- In every run in which the listener takes its IRPs in order: the messages consumed are the
messages of the ring in order; the reads of an accepter have returned the payloads of the messages
read for it in that order, followed by its data queue, unless that was flushed; and a message is read
into an IRP only when the data queue is empty. -/
theorem accepter_read_order {w : World} {s : Device} (h : Fresh w)
    (hr : (deviceMachine w).Reach TakesInOrder s) :
    s.msgs = s.consumed.map Prod.fst ++ s.onRing ∧
    (∀ c, Shares s.w c → (s.w.taken c).Sublist (s.passed c) ∧
      (s.flushed c = false →
        s.w.taken c ++ (s.w.ctx c).dataList.map Data.bytes ++ s.inflight c = s.passed c)) ∧
    (∀ p c dlen irp, s.pc = .direct p c dlen irp → (s.w.ctx c).dataList = []) ∧
    s.w.assertFailed = false := by
  have hi := inOrder_of_reach h hr
  refine ⟨?_, fun c hc => ⟨?_, hi.stream c hc⟩, fun p c dlen irp hp => (hi.direct p c dlen irp hp).2,
    hi.asserts⟩
  · rw [hi.order, Device.onRing, List.take_append_drop]
  · refine List.Sublist.trans ?_ (hi.sub c hc)
    simp only [World.stream, List.append_assoc]
    exact List.sublist_append_left _ _

/-- An empty ring; context 1 is connected to port 5 of domain 3 with connection id 7. -/
def quietWorld : World :=
  { strangerWorld with rings := fun _ => ⟨128, 0, 0, fun _ => 0⟩, irps := [] }

theorem quietWorld_fresh : Fresh quietWorld where
  ring := ⟨by decide, by decide, by decide, by decide, by decide, by decide, by decide, trivial⟩
  dataList c := by
    show ((if c = 1 then _ else _ : Context)).dataList = []
    split <;> rfl
  completed := rfl
  assertFailed := rfl

/-- A message with the payload `b` for connection 7 from its peer. -/
def dataMsg (b : UInt8) : Msg := ⟨⟨5, 3⟩, v4vProtoStream, [0, 0, 0, 0, 7, 0, 0, 0, b]⟩

/-- The listener reads one message for which there is no IRP. -/
def queueOne (b : UInt8) : List Act :=
  List.flatten [[.put (dataMsg b), .listen false], List.replicate 7 (.listener ⟨true, []⟩)]

/-- A reader drains the data queue into one IRP. -/
def readOne (id : Nat) : List Act :=
  [.dispatchRead ⟨id, 1, 16, false⟩, .acquire 1, .read 1 false, .read 1 false]

/-- The second message finds the first one in the data queue; a read that is queued after the drain
takes the second message, and the next read the first. -/
theorem accepter_read_reordered : ∃ s, (deviceMachine quietWorld).Reach Machine.Any s ∧
    s.w.taken 1 = [[66], [65]] ∧ s.passed 1 = [[65], [66]] ∧ s.w.assertFailed = true := by
  obtain ⟨s, hr, hs⟩ := Machine.exists_reach (deviceMachine quietWorld) Machine.Any
    (fun s => decide (s.w.taken 1 = [[66], [65]] ∧ s.passed 1 = [[65], [66]] ∧
      s.w.assertFailed = true))
    (List.flatten [queueOne 65, [.put (dataMsg 66), .listen false],
      List.replicate 3 (.listener ⟨true, []⟩), [.dispatchRead ⟨0, 1, 16, false⟩],
      List.replicate 3 (.listener ⟨true, []⟩), readOne 1]) (by decide +kernel)
  exact ⟨s, hr, by simpa using hs⟩

/-- Two messages are queued and then read in order. -/
theorem accepter_read_order_run : ∃ s, (deviceMachine quietWorld).Reach TakesInOrder s ∧
    s.w.taken 1 = [[65], [66]] ∧ s.w.taken 1 = s.passed 1 := by
  obtain ⟨s, hr, hs⟩ := Machine.exists_reach (deviceMachine quietWorld) TakesInOrder
    (fun s => decide (s.w.taken 1 = [[65], [66]] ∧ s.flushed 1 = false ∧
      (s.w.ctx 1).dataList = [] ∧ s.pc = .idle ∧ Shares s.w 1))
    (queueOne 65 ++ queueOne 66 ++ readOne 0 ++ readOne 1) (by decide +kernel)
  simp only [decide_eq_true_eq] at hs
  obtain ⟨htk, hf, hnil, hpc, hsh⟩ := hs
  have := ((accepter_read_order quietWorld_fresh hr).2.1 1 hsh).2 hf
  rw [hnil] at this
  exact ⟨s, hr, htk, by simpa [Device.inflight, hpc] using this⟩

end XcWindows.V4v
