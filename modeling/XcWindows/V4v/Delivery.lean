import XcWindows.V4v.Authentic

/-!
# Delivery from the listener's ring

`V4vProcessListenerReads` on a ring of well-formed messages. The stream of a context is what its
reads have returned followed by its data queue. A call `Delivers` when it looks at every message
once, in order, leaves the ring empty, and every data message of the peer of an ACCEPTED context is
appended to the stream of that context. It does so exactly when every turn is `Sound`: a SYN in the
PASSIVE state is consumed twice, so nothing may follow it; the RST of a connection is not consumed
and ends the call; data for a context of another listener stays where it is.
-/

namespace XcWindows.V4v

open Lib
open Function (update_of_ne)

/-- What the reads of `c` have returned. -/
def World.taken (w : World) (c : Nat) : List (List UInt8) :=
  (w.completed.filter fun k => k.irp.pfo = c ∧ k.status = .success).map (·.data)

/-- The bytes of an entry of the data queue. -/
def Data.bytes (d : Data) : List UInt8 := d.data.take d.length

def World.stream (w : World) (c : Nat) : List (List UInt8) :=
  w.taken c ++ (w.ctx c).dataList.map Data.bytes

/-- What the lookup of a context reads. -/
def Context.key (x : Context) : CtxState × CtxType × Nat × Addr × Nat :=
  (x.state, x.type, x.ringObject, x.sdst, x.connId)

/-- The contexts answer every lookup as before. -/
structure Same (w w' : World) : Prop where
  list : w'.contextList = w.contextList
  listener : w'.listener = w.listener
  key : ∀ c, (w'.ctx c).key = (w.ctx c).key

theorem Same.refl (w : World) : Same w w := ⟨rfl, rfl, fun _ => rfl⟩

theorem Same.trans {w₁ w₂ w₃ : World} (h : Same w₁ w₂) (h' : Same w₂ w₃) : Same w₁ w₃ :=
  ⟨h'.list.trans h.list, h'.listener.trans h.listener, fun c => (h'.key c).trans (h.key c)⟩

theorem Same.fields {w w' : World} (h : Same w w') (c : Nat) :
    (w'.ctx c).state = (w.ctx c).state ∧ (w'.ctx c).type = (w.ctx c).type ∧
      (w'.ctx c).ringObject = (w.ctx c).ringObject ∧ (w'.ctx c).sdst = (w.ctx c).sdst ∧
      (w'.ctx c).connId = (w.ctx c).connId := by
  simpa [Context.key] using h.key c

theorem Same.getContext {w w' : World} (h : Same w w') (connId : Nat) :
    v4vGetContextByConnectionId w' connId = v4vGetContextByConnectionId w connId := by
  simp only [v4vGetContextByConnectionId, h.list, (h.fields _).1, (h.fields _).2.1,
    (h.fields _).2.2.2.2]

theorem Same.ringOf {w w' : World} (h : Same w w') (c : Nat) :
    w'.ringOf c = w'.rings (w.ctx c).ringObject := by
  simp only [World.ringOf, (h.fields c).2.2.1]

/-- The decision depends on the head of the ring and the keys of the contexts. -/
theorem Same.decision {w w' : World} (h : Same w w')
    (hr : w'.ringOf w.listener = w.ringOf w.listener) :
    listenerDecision w' = listenerDecision w := by
  simp only [listenerDecision, h.listener, hr, h.getContext]

section Fields
variable (w : World) (c : Nat)

theorem same_setEvent (b : Bool) : Same w (w.setEvent c b) := by
  refine ⟨rfl, rfl, fun c' => ?_⟩
  by_cases e : c' = c
  · subst e; simp [World.setEvent, World.setCtx, Context.key]
  · simp [World.setEvent, World.setCtx, update_of_ne e]

theorem same_setDataList (l : List Data) : Same w (w.setDataList c l) := by
  refine ⟨rfl, rfl, fun c' => ?_⟩
  by_cases e : c' = c
  · subst e; simp [World.setDataList, World.setCtx, Context.key]
  · simp [World.setDataList, World.setCtx, update_of_ne e]

@[simp] theorem rings_setEvent (b : Bool) : (w.setEvent c b).rings = w.rings := rfl

@[simp] theorem rings_setDataList (l : List Data) : (w.setDataList c l).rings = w.rings := rfl

@[simp] theorem irps_setEvent (b : Bool) : (w.setEvent c b).irps = w.irps := rfl

@[simp] theorem irps_setDataList (l : List Data) : (w.setDataList c l).irps = w.irps := rfl

@[simp] theorem taken_setEvent (b : Bool) (c' : Nat) : (w.setEvent c b).taken c' = w.taken c' := rfl

@[simp] theorem taken_setDataList (l : List Data) (c' : Nat) :
    (w.setDataList c l).taken c' = w.taken c' := rfl

@[simp] theorem dataList_setEvent (b : Bool) (c' : Nat) :
    ((w.setEvent c b).ctx c').dataList = (w.ctx c').dataList := by
  by_cases e : c' = c
  · subst e; simp [World.setEvent, World.setCtx]
  · simp [World.setEvent, World.setCtx, update_of_ne e]

theorem dataList_setDataList (l : List Data) (c' : Nat) :
    ((w.setDataList c l).ctx c').dataList = if c' = c then l else (w.ctx c').dataList := by
  by_cases e : c' = c
  · subst e; simp [World.setDataList, World.setCtx]
  · simp [World.setDataList, World.setCtx, e]

@[simp] theorem stream_setEvent (b : Bool) (c' : Nat) : (w.setEvent c b).stream c' = w.stream c' := by
  simp [World.stream]

theorem taken_complete (irp : ReadIrp) (status : Status) (n : Nat) (d : List UInt8) (c' : Nat) :
    (w.complete irp status n d).taken c' =
      w.taken c' ++ if irp.pfo = c' ∧ status = .success then [d] else [] := by
  simp only [World.taken, World.complete, List.filter_append, List.map_append]
  by_cases h : irp.pfo = c' ∧ status = .success
  · simp [h]
  · rw [if_neg h, List.filter_cons_of_neg (by simpa using h)]; simp

end Fields

/-! ### The drain of the data queue -/

/-- What the drain keeps: everything but the queues and the completions, and every stream. -/
structure Drained (w w' : World) : Prop extends Same w w' where
  rings : w'.rings = w.rings
  stream : ∀ c, w'.stream c = w.stream c
  nil : ∀ c, (w.ctx c).dataList = [] → (w'.ctx c).dataList = []
  assertFailed : w'.assertFailed = w.assertFailed

theorem Drained.trans {w₁ w₂ w₃ : World} (h : Drained w₁ w₂) (h' : Drained w₂ w₃) :
    Drained w₁ w₃ :=
  ⟨h.toSame.trans h'.toSame, h'.rings.trans h.rings, fun c => (h'.stream c).trans (h.stream c),
    fun c hc => h'.nil c (h.nil c hc), h'.assertFailed.trans h.assertFailed⟩

theorem drained_complete {w : World} {irp : ReadIrp} {status : Status} {irps : List ReadIrp}
    (h : status ≠ .success) :
    Drained w (v4vSimpleCompleteIrp { w with irps } irp status) := by
  refine ⟨⟨rfl, rfl, fun _ => rfl⟩, rfl, fun c => ?_, fun _ h => h, rfl⟩
  show (World.complete { w with irps } irp status 0 []).taken c ++ _ = _
  rw [taken_complete, if_neg (by simp [h]), List.append_nil]
  rfl

theorem same_complete (w : World) (irps : List ReadIrp) (irp : ReadIrp) (status : Status) (n : Nat)
    (d : List UInt8) : Same w (World.complete { w with irps } irp status n d) :=
  ⟨rfl, rfl, fun _ => rfl⟩

theorem find?_pfo {irps : List ReadIrp} {c : Nat} {irp : ReadIrp}
    (h : irps.find? (·.pfo = c) = some irp) :
    irp.pfo = c ∧ (irps.eraseP (·.pfo = c)).length < irps.length := by
  have hp : irp.pfo = c := by simpa using List.find?_some h
  have hm := List.mem_of_find?_eq_some h
  have := List.length_eraseP_of_mem (p := fun x : ReadIrp => decide (x.pfo = c)) hm (by simpa using hp)
  have := List.length_pos_of_mem hm
  exact ⟨hp, by omega⟩

/-- A turn of the drain: it keeps the streams; it ends when there is no data or no IRP left, and
otherwise removes an IRP. -/
theorem accepterReadsTurn_spec (w : World) (c : Nat) (notify : Bool) :
    Drained w (accepterReadsTurn w c notify).1 ∧
      match (accepterReadsTurn w c notify).2 with
      | some _ => ((accepterReadsTurn w c notify).1.ctx c).dataList = [] ∨
          (accepterReadsTurn w c notify).1.irps.find? (·.pfo = c) = none
      | none => (accepterReadsTurn w c notify).1.irps.length < w.irps.length := by
  cases hl : (w.ctx c).dataList with
  | nil =>
    simp only [accepterReadsTurn, hl]
    cases notify
    · exact ⟨⟨same_setEvent w c false, rfl, fun c' => by simp, by simp, rfl⟩, .inl (by simp [hl])⟩
    · exact ⟨⟨.refl w, rfl, fun _ => rfl, fun _ h => h, rfl⟩, .inl hl⟩
  | cons pd rest =>
    cases hf : w.irps.find? (·.pfo = c) with
    | none =>
      simp only [accepterReadsTurn, hl, ioCsqRemoveNextIrp, hf]
      exact ⟨⟨same_setEvent w c true, rfl, fun c' => by simp, by simp, rfl⟩, .inr (by simpa using hf)⟩
    | some irp =>
      obtain ⟨hpfo, hlt⟩ := find?_pfo hf
      simp only [accepterReadsTurn, hl, ioCsqRemoveNextIrp, hf]
      split
      · exact ⟨drained_complete (by simp), hlt⟩
      split
      · exact ⟨drained_complete (by simp), hlt⟩
      · refine ⟨⟨(same_complete w _ irp _ _ _).trans (same_setDataList _ c rest), rfl, fun c' => ?_,
          fun c' hc' => ?_, rfl⟩, hlt⟩
        case refine_2 =>
          have e : c' ≠ c := by rintro rfl; rw [hl] at hc'; cases hc'
          rw [dataList_setDataList, if_neg e]; exact hc'
        simp only [World.stream, taken_setDataList, taken_complete, dataList_setDataList, and_true,
          hpfo]
        by_cases e : c' = c
        · subst e
          simp [hl, World.taken, Data.bytes]
        · rw [if_neg (Ne.symm e), if_neg e, List.append_nil]
          rfl

theorem accepterReads_spec {n : Nat} {w : World} (c : Nat) (notify : Bool) (hn : w.irps.length < n) :
    Drained w (accepterReads n w c notify).1 ∧
      (((accepterReads n w c notify).1.ctx c).dataList = [] ∨
        (accepterReads n w c notify).1.irps.find? (·.pfo = c) = none) := by
  induction n generalizing w with
  | zero => omega
  | succ n ih =>
    obtain ⟨hd, hend⟩ := accepterReadsTurn_spec w c notify
    simp only [accepterReads]
    cases ht : accepterReadsTurn w c notify with
    | mk w' o =>
      rw [ht] at hd hend
      cases o with
      | some b => exact ⟨hd, hend⟩
      | none =>
        obtain ⟨hd', hend'⟩ := ih (w := w') (by simp only at hend; omega)
        exact ⟨hd.trans hd', hend'⟩

/-! ### Passing a message to a context -/

theorem takeReadIrp_spec (w : World) (c dlen : Nat) :
    Drained w (takeReadIrp w c dlen).2 ∧ (takeReadIrp w c dlen).2.ctx = w.ctx ∧
      ∀ irp, (takeReadIrp w c dlen).1 = some irp →
        irp.pfo = c ∧ w.irps.find? (·.pfo = c) = some irp := by
  cases hf : w.irps.find? (·.pfo = c) with
  | none =>
    simp only [takeReadIrp, ioCsqRemoveNextIrp, hf]
    exact ⟨⟨⟨rfl, rfl, fun _ => rfl⟩, rfl, fun _ => rfl, fun _ h => h, rfl⟩, trivial, by simp⟩
  | some irp =>
    simp only [takeReadIrp, ioCsqRemoveNextIrp, hf]
    split
    · exact ⟨drained_complete (by simp), rfl, by simp⟩
    · refine ⟨⟨⟨rfl, rfl, fun _ => rfl⟩, rfl, fun _ => rfl, fun _ h => h, rfl⟩, rfl, fun irp' e => ?_⟩
      cases e
      exact ⟨(find?_pfo hf).1, rfl⟩

/-- Only the ring `o` may differ. -/
structure OnRing (o : Nat) (w w' : World) : Prop extends Same w w' where
  rings : ∀ o', o' ≠ o → w'.rings o' = w.rings o'

theorem OnRing.trans {o : Nat} {w₁ w₂ w₃ : World} (h : OnRing o w₁ w₂) (h' : OnRing o w₂ w₃) :
    OnRing o w₁ w₃ :=
  ⟨h.toSame.trans h'.toSame, fun o' ho => (h'.rings o' ho).trans (h.rings o' ho)⟩

theorem Drained.onRing {w w' : World} (h : Drained w w') (o : Nat) : OnRing o w w' :=
  ⟨h.toSame, fun _ _ => by rw [h.rings]⟩

theorem Same.onRing {w w' : World} (h : Same w w') (hr : w'.rings = w.rings) (o : Nat) :
    OnRing o w w' :=
  ⟨h, fun _ _ => by rw [hr]⟩

theorem onRing_setRing (w : World) (o : Nat) (r : Ring) : OnRing o w (w.setRing o r) :=
  ⟨⟨rfl, rfl, fun _ => rfl⟩, fun o' ho => by simp [World.setRing, update_of_ne ho]⟩

theorem onRing_recover (w : World) (c : Nat) : OnRing (w.ctx c).ringObject w (v4vRecoverRing w c) :=
  onRing_setRing w _ _

theorem onRing_readToIrp (w : World) (c dlen : Nat) (irp : ReadIrp) :
    OnRing (w.ctx c).ringObject w (readToIrp w c dlen irp) := by
  simp only [readToIrp]
  split
  · exact (onRing_recover w c).trans ⟨⟨rfl, rfl, fun _ => rfl⟩, fun _ _ => rfl⟩
  · next p _ =>
    split
    · exact (onRing_setRing w _ p.ring).trans
        ((onRing_recover (w.setRing (w.ctx c).ringObject p.ring) c).trans
          ⟨⟨rfl, rfl, fun _ => rfl⟩, fun _ _ => rfl⟩)
    · exact (onRing_setRing w _ _).trans ⟨⟨rfl, rfl, fun _ => rfl⟩, fun _ _ => rfl⟩

theorem onRing_readToQueue (w : World) (c dlen : Nat) :
    OnRing (w.ctx c).ringObject w (readToQueue w c dlen).1 := by
  simp only [readToQueue]
  split
  · exact onRing_recover w c
  · next p _ =>
    split
    · exact (onRing_setRing w _ p.ring).trans
        (onRing_recover (w.setRing (w.ctx c).ringObject p.ring) c)
    · exact onRing_setRing w _ p.ring

theorem same_chainData (w : World) (c : Nat) (pd : Data) (signaled : Bool) :
    Same w (chainData w c pd signaled) := by
  cases signaled
  · exact (same_setDataList w c _).trans (same_setEvent _ c true)
  · exact same_setDataList w c _

theorem rings_chainData (w : World) (c : Nat) (pd : Data) (signaled : Bool) :
    (chainData w c pd signaled).rings = w.rings := by
  cases signaled <;> rfl

/-- Reading for a context leaves the keys of the contexts and every other ring alone. -/
theorem bufferedReads_onRing (w : World) (c dlen : Nat) (alloc : Bool) :
    OnRing (w.ctx c).ringObject w (v4vProcessAccepterBufferedReads w c dlen alloc) := by
  obtain ⟨hd, -⟩ := accepterReads_spec (w := w) c true (Nat.lt_succ_self _)
  simp only [v4vProcessAccepterBufferedReads, v4vProcessAccepterReads]
  generalize accepterReads (w.irps.length + 1) w c true = dr at hd ⊢
  obtain ⟨ht, hctx, -⟩ := takeReadIrp_spec dr.1 c dlen
  have hw := (hd.trans ht).onRing (w.ctx c).ringObject
  have ho : ((takeReadIrp dr.1 c dlen).2.ctx c).ringObject = (w.ctx c).ringObject :=
    (hw.toSame.fields c).2.2.1
  split
  · next irp w' hti =>
    rw [hti] at hw ho
    exact hw.trans (ho ▸ onRing_readToIrp w' c dlen irp)
  · next w' hti =>
    rw [hti] at hw ho
    split
    · have hq := onRing_readToQueue w' c dlen
      rw [ho] at hq
      split
      · next w'' e => rw [e] at hq; exact hw.trans hq
      · next w'' pd e =>
        rw [e] at hq
        exact (hw.trans hq).trans ((same_chainData w'' c pd _).onRing (rings_chainData w'' c pd _) _)
    · exact hw

/-! ### Well-formed messages -/

/-- A stream message: a complete stream header in front of the payload. -/
structure Msg.IsStream (m : Msg) : Prop where
  protocol : m.protocol = v4vProtoStream
  length : streamSize ≤ m.data.length

def Msg.sh (m : Msg) : Stream := streamOf m.data

def Msg.payload (m : Msg) : List UInt8 := m.data.drop streamSize

theorem streamOf_take (l : List UInt8) : streamOf (l.take streamSize) = streamOf l := by
  have h : ∀ i, i < 8 → (l.take streamSize).getD i 0 = l.getD i 0 := by
    intro i hi
    simp [List.getD, streamSize, hi]
  have e0 := @u32At_congr (fun i => (l.take streamSize).getD i 0) (fun i => l.getD i 0)
    (a := 0) fun i hi => h _ (by omega)
  have e4 := @u32At_congr (fun i => (l.take streamSize).getD i 0) (fun i => l.getD i 0)
    (a := 4) fun i hi => h _ (by omega)
  simp only [streamOf, e0, e4]

theorem peekStream_holds {r : Ring} {m : Msg} {ms : List Msg} (h : Holds r (m :: ms))
    (hs : m.IsStream) : peekStream r = .stream m.source m.sh m.data.length := by
  have hl := hs.length
  simp only [streamSize] at hl
  have hl' : ¬ ((m.data.length : Int) < (streamSize : Nat)) := by simp only [streamSize]; omega
  simp only [peekStream, copyOut_holds h, if_true, hs.protocol, ne_eq, not_true_eq_false, false_or,
    if_neg hl', streamOf_take, Msg.sh]
  rw [if_neg (by omega)]
  simp

theorem consume_holds {w : World} {c : Nat} {m : Msg} {ms : List Msg}
    (h : Holds (w.ringOf c) (m :: ms)) :
    consume w c = w.setRing (w.ctx c).ringObject ((w.ringOf c).advance m) := by
  simp [consume, copyOut_holds h]

theorem consume_empty {w : World} {c : Nat} (h : Holds (w.ringOf c) []) : consume w c = w := by
  simp [consume, copyOut_empty h]

@[simp] theorem ringOf_setRing (w : World) (c : Nat) (r : Ring) :
    (w.setRing (w.ctx c).ringObject r).ringOf c = r := by
  simp [World.ringOf, World.setRing]

/-- Reading a message into an IRP. -/
theorem readToIrp_holds {w : World} {c : Nat} {irp : ReadIrp} {m : Msg} (ms : List Msg)
    (h : Holds (w.ringOf c) (m :: ms)) :
    readToIrp w c m.data.length irp =
      ({ w with assertFailed := w.assertFailed || !(w.ctx c).dataList.isEmpty }.setRing
        (w.ctx c).ringObject ((w.ringOf c).advance m)).complete irp .success
          (m.data.length - streamSize) m.payload := by
  have hcp := copyOutOffset_holds h (m.data.length + streamSize) true streamSize
  rw [List.take_of_length_le (by omega), if_pos rfl] at hcp
  simp only [readToIrp, World.ringOf] at hcp ⊢
  simp only [hcp, Msg.payload]
  rw [if_neg (by omega)]
  simp

/-- Reading a message into an entry of the data queue. -/
theorem readToQueue_holds {w : World} {c : Nat} {m : Msg} (ms : List Msg)
    (h : Holds (w.ringOf c) (m :: ms)) :
    readToQueue w c m.data.length =
      (w.setRing (w.ctx c).ringObject ((w.ringOf c).advance m),
        some ⟨m.payload, m.data.length - streamSize⟩) := by
  have hroom := h.room
  have hsmall := h.small
  have hle := m.le_span
  simp only [span_cons, headerSize] at hroom hle
  have hcp := copyOutOffset_holds h m.data.length true streamSize
  rw [List.take_of_length_le (Nat.le_refl _), if_pos rfl] at hcp
  simp only [readToQueue, hcp, Msg.payload, u32]
  rw [if_neg (by omega), Nat.mod_eq_of_lt (by omega)]

theorem bytes_payload (m : Msg) : Data.bytes ⟨m.payload, m.data.length - streamSize⟩ = m.payload :=
  List.take_of_length_le (by simp [Msg.payload])

theorem stream_readToIrp {w : World} {c n : Nat} {irp : ReadIrp} {d : List UInt8} {r : Ring} {b : Bool}
    (hpfo : irp.pfo = c) (hnil : (w.ctx c).dataList = []) (c' : Nat) :
    (({ w with assertFailed := b }.setRing (w.ctx c).ringObject r).complete irp .success n d).stream c' =
      w.stream c' ++ if c' = c then [d] else [] := by
  show World.taken (World.complete _ irp .success _ d) c' ++ (w.ctx c').dataList.map Data.bytes =
    (w.taken c' ++ _) ++ _
  rw [taken_complete]
  by_cases e : c' = c
  · subst e
    simp only [hpfo, hnil, and_true, if_true, List.map_nil, List.append_nil]
    rfl
  · rw [if_neg (by rw [hpfo]; exact fun x => e x.1.symm), if_neg e, List.append_nil, List.append_nil]
    rfl

theorem stream_chainData (w : World) (c : Nat) (pd : Data) (signaled : Bool) (c' : Nat) :
    (chainData w c pd signaled).stream c' = w.stream c' ++ if c' = c then [pd.bytes] else [] := by
  have hst : (chainData w c pd signaled).stream c' =
      (w.setDataList c ((w.ctx c).dataList ++ [pd])).stream c' := by
    cases signaled
    · exact stream_setEvent _ c true c'
    · rfl
  rw [hst]
  simp only [World.stream, taken_setDataList, dataList_setDataList]
  by_cases e : c' = c
  · subst e; simp
  · simp [e]

/-- The message is appended to the stream of the context and taken off its ring. -/
theorem bufferedReads_holds {w : World} {c : Nat} {m : Msg} {ms : List Msg}
    (h : Holds (w.ringOf c) (m :: ms)) :
    (v4vProcessAccepterBufferedReads w c m.data.length true).ringOf c = (w.ringOf c).advance m ∧
      ∀ c', (v4vProcessAccepterBufferedReads w c m.data.length true).stream c' =
        w.stream c' ++ if c' = c then [m.payload] else [] := by
  obtain ⟨hd, hend⟩ := accepterReads_spec (w := w) c true (Nat.lt_succ_self _)
  simp only [v4vProcessAccepterBufferedReads, v4vProcessAccepterReads]
  generalize accepterReads (w.irps.length + 1) w c true = dr at hd hend ⊢
  obtain ⟨ht, hctx, hirp⟩ := takeReadIrp_spec dr.1 c m.data.length
  have hw := hd.trans ht
  split
  · next irp w' hti =>
    rw [hti] at hw hctx hirp
    obtain ⟨hpfo, hf⟩ := hirp irp rfl
    have hnil : (w'.ctx c).dataList = [] := by
      rw [hctx]
      exact hend.resolve_right (by rw [hf]; simp)
    have hr : w'.ringOf c = w.ringOf c := by rw [hw.toSame.ringOf, hw.rings]; rfl
    rw [readToIrp_holds (m := m) _ (hr ▸ h)]
    refine ⟨?_, fun c' => ?_⟩
    · show (w'.setRing (w'.ctx c).ringObject ((w'.ringOf c).advance m)).ringOf c = _
      rw [ringOf_setRing, hr]
    · rw [stream_readToIrp hpfo hnil, hw.stream c']
  · next w' hti =>
    rw [hti] at hw
    have hr : w'.ringOf c = w.ringOf c := by rw [hw.toSame.ringOf, hw.rings]; rfl
    simp only [readToQueue_holds (m := m) (w := w') _ (hr ▸ h), if_true]
    refine ⟨?_, fun c' => ?_⟩
    · rw [(same_chainData _ c _ dr.2).ringOf, rings_chainData]
      exact (ringOf_setRing w' c _).trans (by rw [hr])
    · rw [stream_chainData, bytes_payload, ← hw.stream c']
      rfl

/-! ### A whole call -/

/-- The message a turn looks at. -/
def Turn.msg (t : Turn) : Option (Addr × Stream × Nat) :=
  match peekStream (t.before.ringOf t.before.listener) with
  | .stream src sh dlen => some (src, sh, dlen)
  | _ => none

/-- The data message `m` of a turn is appended to the stream of every ACCEPTED context whose peer
sent it. -/
def Turn.Appends (t : Turn) (m : Msg) : Prop :=
  m.sh.isData → ∀ c, AcceptedHere t.before c → Peer t.before c m.source m.sh →
    t.after.stream c = t.before.stream c ++ [m.payload]

/-- The call returns with every message consumed, having looked at each of them once and in order,
and every data message has ended up with its context. -/
def Delivers (passive : Bool) (envs : List Env) (w : World) (ms : List Msg) : Prop :=
  (∃ w', (v4vProcessListenerReads passive envs w).2 = some w' ∧ Holds (w'.ringOf w'.listener) []) ∧
  (v4vProcessListenerReads passive envs w).1.map Turn.msg =
    ms.map (fun m => some (m.source, m.sh, m.data.length)) ∧
  List.Forall₂ Turn.Appends (v4vProcessListenerReads passive envs w).1 ms

/-- No turn consumes its message twice, or not at all, or passes it to another context than the one
of its peer. -/
def Sound (w : World) (passive : Bool) : Prop :=
  ∀ src sh dlen, peekStream (w.ringOf w.listener) = .stream src sh dlen →
    if sh.syn then passive = true → behindSyn w = .unreadable
    else
      ∀ c, v4vGetContextByConnectionId w sh.conid = some c →
        sh.rst = false ∧ (w.ctx c).ringObject = (w.ctx w.listener).ringObject ∧
          ∀ c', AcceptedHere w c' → Peer w c' src sh → c' = c

instance (w : World) (c : Nat) : Decidable (AcceptedHere w c) := inferInstanceAs (Decidable (_ ∧ _))

instance (w : World) (c : Nat) (src : Addr) (sh : Stream) : Decidable (Peer w c src sh) :=
  inferInstanceAs (Decidable (_ ∧ _))

/-- `Sound` for the message that was peeked at. -/
def SoundFor (w : World) (passive : Bool) (src : Addr) (sh : Stream) : Prop :=
  if sh.syn then passive = true → behindSyn w = .unreadable
  else
    ∀ c ∈ v4vGetContextByConnectionId w sh.conid,
      sh.rst = false ∧ (w.ctx c).ringObject = (w.ctx w.listener).ringObject ∧
        ∀ c' ∈ w.contextList, AcceptedHere w c' → Peer w c' src sh → c' = c

instance (w : World) (passive : Bool) (src : Addr) (sh : Stream) :
    Decidable (SoundFor w passive src sh) :=
  inferInstanceAs (Decidable (if sh.syn then _ else _))

theorem sound_iff (w : World) (passive : Bool) :
    (match peekStream (w.ringOf w.listener) with
      | .stream src sh _ => SoundFor w passive src sh
      | _ => True) ↔ Sound w passive := by
  have hfor : ∀ src sh, SoundFor w passive src sh ↔
      if sh.syn then passive = true → behindSyn w = .unreadable
      else ∀ c, v4vGetContextByConnectionId w sh.conid = some c →
        sh.rst = false ∧ (w.ctx c).ringObject = (w.ctx w.listener).ringObject ∧
          ∀ c', AcceptedHere w c' → Peer w c' src sh → c' = c := by
    intro src sh
    unfold SoundFor
    split
    · exact Iff.rfl
    · refine forall₂_congr fun c _ => and_congr_right fun _ => and_congr_right fun _ => ?_
      exact ⟨fun h c' hc' => h c' hc'.1 hc', fun h c' _ hc' => h c' hc'⟩
  cases hp : peekStream (w.ringOf w.listener) with
  | unreadable => exact ⟨fun _ _ _ _ h => absurd (hp.symm.trans h) (by simp), fun _ => trivial⟩
  | notStream => exact ⟨fun _ _ _ _ h => absurd (hp.symm.trans h) (by simp), fun _ => trivial⟩
  | stream src sh dlen =>
    refine (hfor src sh).trans ⟨fun h src' sh' dlen' e => ?_, fun h => h src sh dlen hp⟩
    rw [hp] at e; cases e
    exact h

instance (w : World) (passive : Bool) : Decidable (Sound w passive) :=
  have : Decidable (match peekStream (w.ringOf w.listener) with
      | .stream src sh _ => SoundFor w passive src sh
      | _ => True) :=
    match peekStream (w.ringOf w.listener) with
    | .stream src sh _ => inferInstanceAs (Decidable (SoundFor w passive src sh))
    | .unreadable => isTrue trivial
    | .notStream => isTrue trivial
  decidable_of_iff _ (sound_iff w passive)

section Call
variable {w : World} {passive : Bool} {m : Msg} {ms : List Msg}

theorem acceptSyns_ringObject (ctx : Nat → Context) (syns : List Syn) (accepts : List Nat)
    (acks : List Bool) (c : Nat) :
    ((acceptSyns ctx syns accepts acks).1 c).ringObject = (ctx c).ringObject := by
  induction syns generalizing ctx accepts acks with
  | nil => simp [acceptSyns]
  | cons s syns ih =>
    cases accepts with
    | nil => simp [acceptSyns]
    | cons a accepts =>
      rw [acceptSyns, ih]
      by_cases e : c = a
      · subst e; simp
      · simp [update_of_ne e]

/-- Accepting changes no ring. -/
theorem preAccept_ringOf (w : World) (sh : Stream) (src : Addr) (acks : List Bool) :
    (v4vProcessPreAcceptReads w sh src acks).listener = w.listener ∧
      (v4vProcessPreAcceptReads w sh src acks).ringOf w.listener = w.ringOf w.listener := by
  unfold v4vProcessPreAcceptReads
  split
  · exact ⟨rfl, rfl⟩
  · refine ⟨rfl, ?_⟩
    simp only [World.ringOf, v4vDoAccepts, World.setEvent, World.setCtx, Function.update_self,
      acceptSyns_ringObject]

theorem ringOf_reset (w : World) (sh : Stream) (src : Addr) (c : Nat) :
    (resetUnlessRst w sh src).ringOf c = w.ringOf c := by
  unfold resetUnlessRst; split <;> rfl

theorem listener_reset (w : World) (sh : Stream) (src : Addr) :
    (resetUnlessRst w sh src).listener = w.listener := by
  unfold resetUnlessRst; split <;> rfl

theorem consume_ring (h : Holds (w.ringOf w.listener) (m :: ms)) :
    (consume w w.listener).listener = w.listener ∧
      (consume w w.listener).ringOf w.listener = (w.ringOf w.listener).advance m := by
  rw [consume_holds h]
  exact ⟨rfl, ringOf_setRing w w.listener _⟩

theorem listenerSyn_holds (passive : Bool) (h : Holds (w.ringOf w.listener) (m :: ms)) (acks : List Bool) :
    (listenerSyn w passive acks).listener = w.listener ∧
      (listenerSyn w passive acks).ringOf w.listener =
        if passive then (consume (consume w w.listener) w.listener).ringOf w.listener
        else (w.ringOf w.listener).advance m := by
  have hring := ringOf_setRing w w.listener ((w.ringOf w.listener).advance m)
  simp only [listenerSyn, copyOut_holds h, if_true]
  rw [if_neg (by omega)]
  cases passive with
  | true =>
    simp only [if_true, ringOf_reset, listener_reset, consume_holds h]
    refine ⟨?_, rfl⟩
    unfold consume
    split <;> rfl
  | false =>
    simp only [Bool.false_eq_true, if_false]
    obtain ⟨hl, hr⟩ := preAccept_ringOf (w.setRing (w.ctx w.listener).ringObject
      ((w.ringOf w.listener).advance m)) (streamOf (m.data.take streamSize)) m.source acks
    exact ⟨hl, hr.trans hring⟩

/-- What a turn does on a ring of well-formed messages. -/
inductive TurnShape (w : World) (passive : Bool) (env : Env) (m : Msg) (ms : List Msg) : Prop where
  | syn : m.sh.syn = true → (passive = false ∨ ms = []) →
      Holds ((listenerSyn w passive env.acks).ringOf w.listener) ms →
      listenerApply w passive env (listenerDecision w) = (listenerSyn w passive env.acks, true) →
      TurnShape w passive env m ms
  | synTwice : m.sh.syn = true → passive = true → ms ≠ [] →
      Holds ((listenerSyn w passive env.acks).ringOf w.listener) ms.tail →
      listenerApply w passive env (listenerDecision w) = (listenerSyn w passive env.acks, true) →
      TurnShape w passive env m ms
  | unknown : m.sh.syn = false → v4vGetContextByConnectionId w m.sh.conid = none →
      listenerApply w passive env (listenerDecision w) =
        (resetUnlessRst (consume w w.listener) m.sh m.source, true) →
      TurnShape w passive env m ms
  | rst (c : Nat) : m.sh.syn = false → v4vGetContextByConnectionId w m.sh.conid = some c →
      m.sh.rst = true →
      listenerApply w passive env (listenerDecision w) =
        (v4vDisconnectStreamAndSignal w c, false) →
      TurnShape w passive env m ms
  | data (c : Nat) : m.sh.syn = false → v4vGetContextByConnectionId w m.sh.conid = some c →
      m.sh.rst = false → listenerDecision w = .data c m.source m.sh m.data.length →
      TurnShape w passive env m ms

theorem turnShape (passive : Bool) (h : Holds (w.ringOf w.listener) (m :: ms)) (hs : m.IsStream) (env : Env) :
    TurnShape w passive env m ms := by
  have hd := listenerDecision_stream (peekStream_holds h hs)
  have hsyn := (listenerSyn_holds passive h env.acks).2
  have hc := consume_ring h
  by_cases hf : m.sh.syn = true
  · rw [if_pos hf] at hd
    have happ : listenerApply w passive env (listenerDecision w) =
        (listenerSyn w passive env.acks, true) := by rw [hd]; rfl
    cases passive with
    | false =>
      rw [if_neg (by simp)] at hsyn
      exact .syn hf (.inl rfl) (hsyn ▸ h.advance) happ
    | true =>
      rw [if_pos rfl] at hsyn
      have h' : Holds ((consume w w.listener).ringOf w.listener) ms := hc.2 ▸ h.advance
      cases ms with
      | nil =>
        rw [consume_empty h'] at hsyn
        exact .syn hf (.inr rfl) (hsyn ▸ h') happ
      | cons m2 ms =>
        refine .synTwice hf rfl (by simp) ?_ happ
        rw [hsyn, consume_holds h', ringOf_setRing]
        exact h'.advance
  · have hf' : m.sh.syn = false := by simpa using hf
    rw [if_neg hf] at hd
    cases hg : v4vGetContextByConnectionId w m.sh.conid with
    | none =>
      simp only [hg] at hd
      exact .unknown hf' hg (by rw [hd]; rfl)
    | some c =>
      simp only [hg] at hd
      by_cases hr : m.sh.rst = true
      · rw [if_pos hr] at hd
        exact .rst c hf' hg hr (by rw [hd]; rfl)
      · rw [if_neg hr] at hd
        exact .data c hf' hg (by simpa using hr) hd

theorem behindSyn_holds (h : Holds (w.ringOf w.listener) (m :: ms)) (hs : ∀ n ∈ ms, n.IsStream) :
    behindSyn w = .unreadable ↔ ms = [] := by
  have h' : Holds ((consume w w.listener).ringOf w.listener) ms := (consume_ring h).2 ▸ h.advance
  constructor
  · intro e
    cases ms with
    | nil => rfl
    | cons n ms =>
      rw [behindSyn, peekStream_holds h' (hs n List.mem_cons_self)] at e
      cases e
  · rintro rfl
    exact peekStream_done (h'.rx_eq_tx.mpr rfl)

theorem decision_ne_done (h : Holds (w.ringOf w.listener) (m :: ms)) (hs : m.IsStream) :
    listenerDecision w ≠ .done := by
  rw [listenerDecision_stream (peekStream_holds h hs)]
  split
  · simp
  · split
    · simp
    · split <;> simp

theorem listenerReads_step (passive : Bool) (env : Env) (envs : List Env) (hd : listenerDecision w ≠ .done) :
    v4vProcessListenerReads passive (env :: envs) w =
      let r := listenerApply w passive env (listenerDecision w)
      if r.2 then
        (⟨w, listenerDecision w, r.1⟩ :: (v4vProcessListenerReads passive envs r.1).1,
          (v4vProcessListenerReads passive envs r.1).2)
      else ([⟨w, listenerDecision w, r.1⟩], some r.1) := by
  cases hl : listenerDecision w <;> first | exact absurd hl hd | simp only [v4vProcessListenerReads, hl]

/-- Data for a context on another ring is looked at again and again. -/
theorem misrouted_stuck (passive : Bool) (envs : List Env) {c dlen : Nat} {src : Addr} {sh : Stream}
    (hd : listenerDecision w = .data c src sh dlen)
    (ho : (w.ctx c).ringObject ≠ (w.ctx w.listener).ringObject) :
    (v4vProcessListenerReads passive envs w).2 = none := by
  induction envs generalizing w with
  | nil => rfl
  | cons env envs ih =>
    have hr := bufferedReads_onRing w c dlen env.alloc
    have hsame := hr.toSame
    have hring : (v4vProcessAccepterBufferedReads w c dlen env.alloc).ringOf w.listener =
        w.ringOf w.listener := by
      rw [hsame.ringOf]; exact hr.rings _ (Ne.symm ho)
    rw [listenerReads_step _ _ _ (by simp [hd])]
    simp only [hd, listenerApply, if_true]
    apply ih (by rw [hsame.decision hring, hd])
    rw [hsame.listener, (hsame.fields c).2.2.1, (hsame.fields _).2.2.1]
    exact ho

/-- Whatever happens, a turn that goes on leaves a shorter ring or is stuck. -/
theorem turn_progress (passive : Bool) (h : Holds (w.ringOf w.listener) (m :: ms)) (hs : m.IsStream) {env : Env}
    (ha : env.alloc = true) :
    (listenerApply w passive env (listenerDecision w)).2 = false ∨
    (∃ c src sh dlen, listenerDecision w = .data c src sh dlen ∧
      (w.ctx c).ringObject ≠ (w.ctx w.listener).ringObject) ∨
    ∃ ms', ms' <:+ ms ∧ (listenerApply w passive env (listenerDecision w)).1.listener = w.listener ∧
      Holds ((listenerApply w passive env (listenerDecision w)).1.ringOf w.listener) ms' := by
  cases turnShape passive h hs env with
  | syn _ _ hh happ =>
    rw [happ]
    exact .inr (.inr ⟨ms, List.suffix_refl ms, (listenerSyn_holds passive h env.acks).1, hh⟩)
  | synTwice _ _ _ hh happ =>
    rw [happ]
    exact .inr (.inr ⟨ms.tail, List.tail_suffix ms, (listenerSyn_holds passive h env.acks).1, hh⟩)
  | unknown _ _ happ =>
    rw [happ]
    refine .inr (.inr ⟨ms, List.suffix_refl ms, ?_, ?_⟩)
    · rw [listener_reset, (consume_ring h).1]
    · rw [ringOf_reset, (consume_ring h).2]; exact h.advance
  | rst c _ _ _ happ => rw [happ]; exact .inl rfl
  | data c _ _ _ hd =>
    by_cases ho : (w.ctx c).ringObject = (w.ctx w.listener).ringObject
    · have hr : w.ringOf c = w.ringOf w.listener := by simp [World.ringOf, ho]
      obtain ⟨hb, -⟩ := bufferedReads_holds (w := w) (c := c) (hr ▸ h)
      have hsame := (bufferedReads_onRing w c m.data.length true).toSame
      refine .inr (.inr ⟨ms, List.suffix_refl ms, ?_, ?_⟩)
      · simp only [hd, listenerApply, ha, hsame.listener]
      · simp only [hd, listenerApply, ha]
        rw [hsame.ringOf, ← ho, ← hsame.ringOf, hb, hr]
        exact h.advance
    · exact .inr (.inl ⟨c, _, _, _, hd, ho⟩)

/-- A call that returns has looked at no more messages than there were. -/
theorem turns_le (passive : Bool) (ms : List Msg) {envs : List Env} {w' : World}
    (h : Holds (w.ringOf w.listener) ms)
    (hs : ∀ n ∈ ms, n.IsStream) (ha : ∀ env ∈ envs, env.alloc = true)
    (hres : (v4vProcessListenerReads passive envs w).2 = some w') :
    (v4vProcessListenerReads passive envs w).1.length ≤ ms.length := by
  induction envs generalizing w ms with
  | nil => simp [v4vProcessListenerReads] at hres
  | cons env envs ih =>
    cases ms with
    | nil =>
      have hdone : listenerDecision w = .done := by simp [listenerDecision, h.rx_eq_tx.mpr rfl]
      simp [v4vProcessListenerReads, hdone]
    | cons m ms =>
      have hm := hs m List.mem_cons_self
      rw [listenerReads_step _ _ _ (decision_ne_done h hm)] at hres ⊢
      rcases turn_progress passive h hm (ha env List.mem_cons_self) with
        hstop | ⟨c, src, sh, dlen, hd, ho⟩ | ⟨ms', hsuf, hl, hh⟩
      · simp [hstop]
      · have := misrouted_stuck passive (env :: envs) hd ho
        rw [listenerReads_step _ _ _ (decision_ne_done h hm)] at this
        rw [this] at hres
        cases hres
      · simp only at hres ⊢
        split at hres
        · next hc =>
          rw [if_pos hc]
          have := ih ms' (by rw [hl]; exact hh)
            (fun n hn => hs n (List.mem_cons_of_mem _ (hsuf.subset hn)))
            (fun e he => ha e (List.mem_cons_of_mem _ he)) hres
          have := hsuf.length_le
          simp only [List.length_cons]
          omega
        · next hc => rw [if_neg hc]; simp

/-- A sound turn consumes its message and appends it to the stream it belongs to. -/
theorem sound_turn (h : Holds (w.ringOf w.listener) (m :: ms)) (hs : ∀ n ∈ m :: ms, n.IsStream)
    {env : Env} (ha : env.alloc = true) (hsound : Sound w passive) :
    (listenerApply w passive env (listenerDecision w)).2 = true ∧
      (listenerApply w passive env (listenerDecision w)).1.listener = w.listener ∧
      Holds ((listenerApply w passive env (listenerDecision w)).1.ringOf w.listener) ms ∧
      Turn.Appends ⟨w, listenerDecision w, (listenerApply w passive env (listenerDecision w)).1⟩ m := by
  have hm := hs m List.mem_cons_self
  have hso := hsound _ _ _ (peekStream_holds h hm)
  cases turnShape passive h hm env with
  | syn hf _ hh happ =>
    rw [happ]
    refine ⟨rfl, (listenerSyn_holds passive h env.acks).1, hh, fun hdata => ?_⟩
    rw [hdata.1] at hf; cases hf
  | synTwice hf hp hne =>
    rw [if_pos hf] at hso
    exact absurd ((behindSyn_holds h fun n hn => hs n (List.mem_cons_of_mem _ hn)).mp (hso hp)) hne
  | unknown _ hg happ =>
    rw [happ]
    refine ⟨rfl, ?_, ?_, fun _ c hc hpeer => absurd hpeer.2 (getContext_none hg hc)⟩
    · rw [listener_reset, (consume_ring h).1]
    · rw [ringOf_reset, (consume_ring h).2]; exact h.advance
  | rst c hf hg hr =>
    rw [if_neg (by simp [hf])] at hso
    rw [(hso c hg).1] at hr; cases hr
  | data c hf hg _ hd =>
    rw [if_neg (by simp [hf])] at hso
    obtain ⟨-, ho, huniq⟩ := hso c hg
    have hr : w.ringOf c = w.ringOf w.listener := by simp [World.ringOf, ho]
    obtain ⟨hb, hst⟩ := bufferedReads_holds (w := w) (c := c) (hr ▸ h)
    have hsame := (bufferedReads_onRing w c m.data.length true).toSame
    simp only [hd, listenerApply, ha]
    refine ⟨trivial, hsame.listener, ?_, fun _ c' hc' hpeer => ?_⟩
    · rw [hsame.ringOf, ← ho, ← hsame.ringOf, hb, hr]
      exact h.advance
    · rw [huniq c' hc' hpeer, hst, if_pos rfl]

/-- A call whose first turn is not sound does not deliver. -/
theorem unsound_turn (h : Holds (w.ringOf w.listener) (m :: ms)) (hs : ∀ n ∈ m :: ms, n.IsStream)
    {env : Env} {envs : List Env} (ha : ∀ e ∈ env :: envs, e.alloc = true)
    (hsound : ¬ Sound w passive) : ¬ Delivers passive (env :: envs) w (m :: ms) := by
  have hm := hs m List.mem_cons_self
  have htl : ∀ n ∈ ms, n.IsStream := fun n hn => hs n (List.mem_cons_of_mem _ hn)
  rintro ⟨⟨w', hres, hempty⟩, hmsg, happ⟩
  -- a sound turn is what is left when the wrong branches are excluded
  apply hsound
  intro src sh dlen hp
  rw [peekStream_holds h hm] at hp
  cases hp
  rw [listenerReads_step _ _ _ (decision_ne_done h hm)] at hres hmsg happ
  cases turnShape passive h hm env with
  | syn hf hor =>
    rw [if_pos hf]
    intro hpass
    exact (behindSyn_holds h htl).mpr (hor.resolve_left (by simp [hpass]))
  | synTwice _ hp hne hh hap =>
    simp only [hap, if_true] at hres hmsg
    have hle := turns_le passive ms.tail
      (by rw [(listenerSyn_holds passive h env.acks).1]; exact hh)
      (fun n hn => htl n (List.mem_of_mem_tail hn)) (fun e he => ha e (List.mem_cons_of_mem _ he)) hres
    have hlen := congrArg List.length hmsg
    simp only [List.map_cons, List.length_cons, List.length_map, List.length_tail] at hlen hle
    have := List.length_pos_iff.mpr hne
    omega
  | unknown hf hg =>
    rw [if_neg (by simp [hf])]
    intro c hc
    rw [hg] at hc; cases hc
  | rst c hf hg _ hap =>
    simp only [hap, Bool.false_eq_true, if_false] at hres
    cases hres
    have hr : (v4vDisconnectStreamAndSignal w c).ringOf w.listener = w.ringOf w.listener := by
      simp only [v4vDisconnectStreamAndSignal, World.setCtx, World.ringOf]
      by_cases e : w.listener = c
      · rw [e]; simp
      · rw [update_of_ne e]
    have h1 := h.rx_eq_tx
    have h2 := hempty.rx_eq_tx
    change ((v4vDisconnectStreamAndSignal w c).ringOf w.listener).rxPtr =
      ((v4vDisconnectStreamAndSignal w c).ringOf w.listener).txPtr ↔ _ at h2
    rw [hr] at h2
    exact absurd (h1.mp (h2.mpr rfl)) (by simp)
  | data c hf hg hrst hd =>
    rw [if_neg (by simp [hf])]
    intro c' hc'
    rw [hg] at hc'; cases hc'
    have ho : (w.ctx c).ringObject = (w.ctx w.listener).ringObject := by
      by_contra ho
      have := misrouted_stuck passive (env :: envs) hd ho
      rw [listenerReads_step _ _ _ (decision_ne_done h hm), hres] at this
      cases this
    refine ⟨hrst, ho, fun c' hc' hpeer => ?_⟩
    have hr : w.ringOf c = w.ringOf w.listener := by simp [World.ringOf, ho]
    obtain ⟨-, hst⟩ := bufferedReads_holds (w := w) (c := c) (hr ▸ h)
    simp only [hd, listenerApply, ha env List.mem_cons_self, if_true] at happ
    rw [List.forall₂_cons] at happ
    have := happ.1 ⟨hf, hrst⟩ c' hc' hpeer
    rw [hst c'] at this
    by_contra e
    simp [if_neg e] at this

end Call

/-- On a ring of well-formed messages, with memory for the data, a call delivers every message
exactly when each of its turns is sound. -/
theorem listener_delivers (passive : Bool) (envs : List Env) (w : World) (ms : List Msg)
    (h : Holds (w.ringOf w.listener) ms) (hs : ∀ n ∈ ms, n.IsStream)
    (ha : ∀ env ∈ envs, env.alloc = true) (hlen : ms.length < envs.length) :
    Delivers passive envs w ms ↔
      ∀ t ∈ (v4vProcessListenerReads passive envs w).1, Sound t.before passive := by
  induction ms generalizing w envs with
  | nil =>
    obtain ⟨env, envs, rfl⟩ := List.exists_cons_of_length_pos hlen
    have hdone : listenerDecision w = .done := by simp [listenerDecision, h.rx_eq_tx.mpr rfl]
    simp [Delivers, v4vProcessListenerReads, hdone, h]
  | cons m ms ih =>
    obtain ⟨env, envs, rfl⟩ := List.exists_cons_of_length_pos (Nat.lt_of_le_of_lt (Nat.zero_le _) hlen)
    have hstep := listenerReads_step passive env envs
      (decision_ne_done h (hs m List.mem_cons_self))
    by_cases hsound : Sound w passive
    · obtain ⟨hc, hl, hh, happ⟩ := sound_turn h hs (ha env List.mem_cons_self) hsound
      have ih := ih envs _ (by rw [hl]; exact hh) (fun n hn => hs n (List.mem_cons_of_mem _ hn))
        (fun e he => ha e (List.mem_cons_of_mem _ he)) (by simpa using hlen)
      simp only [hc, if_true] at hstep
      have hmsg : Turn.msg ⟨w, listenerDecision w,
          (listenerApply w passive env (listenerDecision w)).1⟩ =
          some (m.source, m.sh, m.data.length) := by
        simp only [Turn.msg, peekStream_holds h (hs m List.mem_cons_self)]
      simp only [Delivers, hstep, List.map_cons, hmsg, List.cons.injEq, true_and,
        List.forall₂_cons, happ, List.forall_mem_cons, hsound] at ih ⊢
      exact ih
    · refine iff_of_false (unsound_turn h hs ha hsound) fun hall => hsound ?_
      refine hall ⟨w, listenerDecision w, (listenerApply w passive env (listenerDecision w)).1⟩ ?_
      rw [hstep]
      dsimp only
      split <;> simp

/-- A SYN for connection 8, then data for connection 7 from its peer. -/
def synThenData : List Msg :=
  [⟨⟨6, 3⟩, v4vProtoStream, [1, 0, 0, 0, 8, 0, 0, 0]⟩,
    ⟨⟨5, 3⟩, v4vProtoStream, [0, 0, 0, 0, 7, 0, 0, 0, 65]⟩]

/-- The listener 0 has the messages `synThenData` on its ring; context 1 is connected to port 5 of
domain 3 with connection id 7. -/
def synWorld : World :=
  { strangerWorld with rings := fun _ => synThenData.foldl xenPut ⟨128, 0, 0, fun _ => 0⟩ }

theorem synWorld_holds : Holds (synWorld.ringOf synWorld.listener) synThenData := by
  have h0 : Holds ⟨128, 0, 0, fun _ => 0⟩ [] :=
    ⟨by decide, by decide, by decide, by decide, by decide, by decide, by decide, trivial⟩
  have h1 := h0.put (m := ⟨⟨6, 3⟩, v4vProtoStream, [1, 0, 0, 0, 8, 0, 0, 0]⟩)
    ⟨by decide, by decide, by decide⟩ (by decide)
  exact h1.put (m := ⟨⟨5, 3⟩, v4vProtoStream, [0, 0, 0, 0, 7, 0, 0, 0, 65]⟩)
    ⟨by decide, by decide, by decide⟩ (by decide)

theorem synThenData_isStream : ∀ n ∈ synThenData, n.IsStream := by
  intro n hn
  simp only [synThenData, List.mem_cons, List.not_mem_nil, or_false] at hn
  rcases hn with rfl | rfl <;> exact ⟨rfl, by decide⟩

/-- In the LISTENING state both messages are delivered. -/
theorem listener_delivers_synWorld :
    Delivers false (List.replicate 3 ⟨true, []⟩) synWorld synThenData :=
  (listener_delivers false (List.replicate 3 ⟨true, []⟩) synWorld synThenData synWorld_holds
    synThenData_isStream (by decide) (by decide)).mpr (by decide +kernel)

/-- In the PASSIVE state the data is consumed with the SYN: one message is looked at, the ring is
empty and nothing has reached context 1. -/
theorem listener_skips_message :
    ¬ Delivers true (List.replicate 3 ⟨true, []⟩) synWorld synThenData ∧
      (v4vProcessListenerReads true (List.replicate 3 ⟨true, []⟩) synWorld).2.map
        (fun w => (w.stream 1, (w.ringOf 0).txPtr - (w.ringOf 0).rxPtr)) = some ([], 0) := by
  have hlen : (v4vProcessListenerReads true (List.replicate 3 ⟨true, []⟩) synWorld).1.length = 1 := by
    decide +kernel
  refine ⟨fun h => ?_, by decide +kernel⟩
  have := congrArg List.length h.2.1
  simp only [List.length_map, hlen] at this
  exact absurd this (by decide)

end XcWindows.V4v
