import XcWindows.V2v.Fifo
import XcWindows.V2v.Stream

/-!
# Streams keep their bytes in order

`Sends` ties the messages an end has prepared to the bytes its sends have reported or taken in so
far, `Receives` the messages an end was given to the bytes its receives have returned, the rest of
the current message and the local queue. Both hold along every run in which the streams were
attached to zeroed memory and no buffer reaches 4 GiB, together with the rings' own invariant: the
sizes a send asks for always survive the 16-bit arithmetic of the layer below.
-/

namespace XcWindows.V2v

open Lib XcWindows.V2v.Ring
open Function (update_of_ne update_self)

/-! ## Calls of the ring layer -/

section Calls

variable {r r' : Ring} {c : Call}

/-- The call of `v2v_nc2_prep_message` that has not laid its message yet. -/
def callOf : ProdPc → Option Call
  | .readActive c | .canSend c _ | .readCons c _ _ | .setConsEvent c _ _ _ | .recheckCons c _ _ _
  | .resetSend c | .fill c => some c
  | .flushProd k | .flushEvent _ k | .flushSpinning k | .flushClear k => k
  | .idle | .postActive | .postEvent | .postNotify => none

/-- The message was laid and the call has not returned yet. -/
def Posting : ProdPc → Prop
  | .postActive | .postEvent | .postNotify => True
  | _ => False

theorem putMessage_sent (r : Ring) (c : Call) : (r.putMessage c).published = r.published ∧
    ∃ q, (r.putMessage c).sent = r.sent ++ [q] ∧ q.msg.payload.length = c.msgSize ∧
      q.msg.type = c.type := by
  unfold Ring.putMessage avoidRingWrap
  simp only
  split <;> exact ⟨rfl, _, rfl, length_bytes _ _ _, rfl⟩

/-- A call goes on, gives up, or lays its message. -/
theorem prodStep_call (hc : callOf r.ppc = some c) (hs : r.prodStep = some r') :
    (r'.sent = r.sent ∧ (r'.published = r.published ∨ r'.published = r.sent.length) ∧
      (callOf r'.ppc = some c ∨ r'.ppc = .idle ∧ ∃ nr, r'.prepStatus = .retry nr)) ∨
    (r'.published = r.published ∧ ∃ q, r'.sent = r.sent ++ [q] ∧
      q.msg.payload.length = c.msgSize ∧ q.msg.type = c.type ∧ r'.ppc = .postActive) := by
  unfold Ring.prodStep at hs
  cases hpc : r.ppc with
  | idle | postActive | postEvent | postNotify => simp [hpc, callOf] at hc
  | readActive c' =>
    simp only [hpc, Option.some.injEq, callOf] at hs hc
    subst hs hc
    refine .inl ⟨rfl, .inl rfl, .inl ?_⟩
    dsimp only
    split <;> rfl
  | flushProd k =>
    simp only [hpc, Option.some.injEq, callOf] at hs hc
    subst hs hc
    exact .inl ⟨rfl, .inr rfl, .inl rfl⟩
  | flushEvent old k | flushSpinning k =>
    simp only [hpc, Option.some.injEq, callOf] at hs hc
    subst hs hc
    refine .inl ⟨rfl, .inl rfl, .inl ?_⟩
    dsimp only
    split <;> rfl
  | flushClear k =>
    simp only [hpc, Option.some.injEq, callOf] at hs hc
    subst hs hc
    exact .inl ⟨rfl, .inl rfl, .inl rfl⟩
  | canSend c' again =>
    simp only [hpc, Option.some.injEq, callOf] at hs hc
    subst hc
    split at hs
    · subst hs; exact .inl ⟨rfl, .inl rfl, .inl rfl⟩
    · split at hs <;> subst hs <;> exact .inl ⟨rfl, .inl rfl, .inl rfl⟩
  | readCons c' again nr =>
    simp only [hpc, Option.some.injEq, callOf] at hs hc
    subst hc
    split at hs <;> subst hs <;> exact .inl ⟨rfl, .inl rfl, .inl rfl⟩
  | setConsEvent c' again nr cons =>
    simp only [hpc, Option.some.injEq, callOf] at hs hc
    subst hs hc
    exact .inl ⟨rfl, .inl rfl, .inl rfl⟩
  | recheckCons c' again nr cons =>
    simp only [hpc, Option.some.injEq, callOf] at hs hc
    subst hc
    split at hs
    · subst hs; exact .inl ⟨rfl, .inl rfl, .inl rfl⟩
    · split at hs
      · subst hs; exact .inl ⟨rfl, .inl rfl, .inr ⟨rfl, nr, rfl⟩⟩
      · subst hs; exact .inl ⟨rfl, .inl rfl, .inl rfl⟩
  | resetSend c' =>
    simp only [hpc, Option.some.injEq, callOf] at hs hc
    subst hs hc
    exact .inl ⟨rfl, .inl rfl, .inl rfl⟩
  | fill c' =>
    simp only [hpc, Option.some.injEq, callOf] at hs hc
    subst hs hc
    obtain ⟨h1, q, h2, h3, h4⟩ := putMessage_sent r c'
    exact .inr ⟨h1, q, h2, h3, h4, rfl⟩

theorem prodStep_posting (hp : Posting r.ppc) (hs : r.prodStep = some r') :
    r'.sent = r.sent ∧ r'.published = r.published ∧
      (Posting r'.ppc ∨ r'.ppc = .idle ∧ r'.prepStatus = .success) := by
  unfold Ring.prodStep at hs
  cases hpc : r.ppc <;> simp only [hpc, Posting] at hp <;>
    simp only [hpc, Option.some.injEq] at hs
  · split at hs <;> subst hs
    · exact ⟨rfl, rfl, .inl trivial⟩
    · exact ⟨rfl, rfl, .inr ⟨rfl, rfl⟩⟩
  · split at hs <;> subst hs
    · exact ⟨rfl, rfl, .inl trivial⟩
    · exact ⟨rfl, rfl, .inr ⟨rfl, rfl⟩⟩
  · subst hs
    exact ⟨rfl, rfl, .inr ⟨rfl, rfl⟩⟩

/-- `v2v_nc2_send_messages` prepares nothing. -/
theorem prodStep_quiet (hq : Quiet r.ppc) (hs : r.prodStep = some r') :
    r'.sent = r.sent ∧ (r'.published = r.published ∨ r'.published = r.sent.length) ∧
      Quiet r'.ppc := by
  unfold Ring.prodStep at hs
  cases hpc : r.ppc with
  | idle => simp [hpc] at hs
  | flushProd k =>
    rw [hpc] at hq
    cases k with
    | none =>
      simp only [hpc, Option.some.injEq] at hs
      subst hs
      exact ⟨rfl, .inr rfl, trivial⟩
    | some c => exact hq.elim
  | flushEvent old k | flushSpinning k =>
    rw [hpc] at hq
    cases k with
    | none =>
      simp only [hpc, Option.some.injEq] at hs
      subst hs
      refine ⟨rfl, .inl rfl, ?_⟩
      dsimp only
      split <;> trivial
    | some c => exact hq.elim
  | flushClear k =>
    rw [hpc] at hq
    cases k with
    | none =>
      simp only [hpc, Option.some.injEq] at hs
      subst hs
      exact ⟨rfl, .inl rfl, trivial⟩
    | some c => exact hq.elim
  | _ => rw [hpc] at hq; exact hq.elim

/-- The consumer is in `v2v_nc2_get_message`. -/
def Getting : ConsPc → Prop
  | .idle | .held | .finishCons | .finishEvent _ => False
  | _ => True

/-- The consumer is in `v2v_nc2_finish_message`, or has come back from it. -/
def Finishing : ConsPc → Prop
  | .idle | .finishCons | .finishEvent _ => True
  | _ => False

/-- `v2v_nc2_get_message` goes on, fails, or gives a message. -/
theorem consStep_getting (hg : Getting r.cpc) (hs : r.consStep = some r') :
    r'.got = r.got ∧ (Getting r'.cpc ∨ r'.cpc = .idle) ∨
      r'.cpc = .held ∧ ∃ m, r'.got = r.got ++ [m] := by
  unfold Ring.consStep at hs
  cases hpc : r.cpc <;> simp only [hpc, Option.some.injEq, reduceCtorEq] at hs <;>
    simp only [hpc, Getting] at hg
  case readHdr n =>
    subst hs
    unfold Ring.readHdr
    simp only
    split
    · exact .inl ⟨rfl, .inr rfl⟩
    · split
      · exact .inl ⟨rfl, .inr rfl⟩
      · split
        · exact .inl ⟨rfl, .inl trivial⟩
        · exact .inr ⟨rfl, _, rfl⟩
  case recheckProd n p =>
    split at hs <;> subst hs
    · exact .inl ⟨rfl, .inl trivial⟩
    · exact .inl ⟨rfl, .inr rfl⟩
  all_goals
    subst hs
    refine .inl ⟨rfl, .inl ?_⟩
    dsimp only
    repeat' split
    all_goals trivial

theorem consStep_finishing (hf : Finishing r.cpc) (hs : r.consStep = some r') :
    r'.got = r.got ∧ Finishing r'.cpc := by
  unfold Ring.consStep at hs
  cases hpc : r.cpc <;> simp only [hpc, Option.some.injEq, reduceCtorEq] at hs <;>
    simp only [hpc, Finishing] at hf
  all_goals
    subst hs
    exact ⟨rfl, trivial⟩

end Calls

/-- The calls and steps of the producer. -/
def RingAct.Produces : RingAct → Prop
  | .prep _ _ _ | .write _ _ _ | .send | .producer => True
  | .get | .finish | .fastReceive _ | .consumer => False

theorem ringStep_sameCons {a : RingAct} (ha : a.Produces) (hs : ringStep r a = some r') :
    SameCons r r' := by
  cases a with
  | prep n type flags =>
    obtain ⟨-, h⟩ := Option.ite_none_right_eq_some.mp hs
    cases h
    exact prepMessage_sameCons _ _ _
  | write i off xs => exact writePayload_sameCons (Option.ite_none_right_eq_some.mp hs).2
  | send =>
    obtain ⟨-, h⟩ := Option.ite_none_right_eq_some.mp hs
    cases h
    constructor <;> rfl
  | producer => exact prodStep_sameCons hs
  | get | finish | fastReceive | consumer => exact ha.elim

theorem ringStep_sameProd {a : RingAct} (ha : ¬ a.Produces) (hs : ringStep r a = some r') :
    SameProd r r' := by
  cases a with
  | prep | write | send | producer => exact absurd trivial ha
  | get | finish | fastReceive =>
    obtain ⟨-, h⟩ := Option.ite_none_right_eq_some.mp hs
    cases h
    constructor <;> rfl
  | consumer => exact consStep_sameProd hs

theorem ringOk_of_consumes {a : RingAct} (ha : ¬ a.Produces) : RingOk r a := by
  cases a <;> first | exact absurd trivial ha | trivial

/-! ## The sizes of a send -/

theorem sizeOk_of_avail {r : Ring} (hR : RingSize r.payloadBytes) (h8 : 8 ∣ r.localProdPvt)
    {n cons : Nat} (hn : n ≤ producerBytesAvailable r cons) : SizeOk r n := by
  have hb := hR.bounds
  have hp : 8 ∣ r.localProdPvt % r.payloadBytes := (Nat.dvd_mod_iff hb.2.2).mpr h8
  have hplt := Nat.mod_lt r.localProdPvt (show 0 < r.payloadBytes by omega)
  have hqlt := Nat.mod_lt cons (show 0 < r.payloadBytes by omega)
  unfold producerBytesAvailable hdrSize at hn
  unfold SizeOk Ring.need roundup8 hdrSize
  generalize r.localProdPvt % r.payloadBytes = p at *
  generalize cons % r.payloadBytes = q at *
  -- the answer is 12 less than the bytes in front of the consumer or of the end of the ring
  have hres : n = 0 ∨ (p < q ∧ n + 12 ≤ q - p) ∨ (q ≤ p ∧ r.payloadBytes - p < 16 ∧ n + 12 ≤ q) ∨
      n + 12 ≤ r.payloadBytes - p := by
    simp only at hn
    split at hn
    · split at hn <;> omega
    · split at hn <;> split at hn <;> omega
  clear hn
  refine ⟨by omega, fun _ => ⟨by omega, ?_⟩⟩
  split <;> omega

/-- The producer's index stays a multiple of 8. -/
theorem InFifo.dvd {r : Ring} (h : InFifo r) : RingSize r.payloadBytes ∧ 8 ∣ r.localProdPvt := by
  obtain ⟨done, pub, new, A, C, hf, -⟩ := h
  refine ⟨hf.size, ?_⟩
  have h1 := hf.laid.dvd_spans
  have h2 := hf.dvd
  rw [spans_append] at h1
  rw [hf.prodPvt]
  exact (Nat.dvd_mod_iff (by decide)).mpr (by rw [Nat.add_assoc]; exact Nat.dvd_add h2 h1)

/-! ## The sender -/

/-- The send an end is in. -/
def EndPc.sending : EndPc → Option Sending
  | .sendTop k | .sendAvail k _ | .sendPrep k _ | .retryFlush k | .sendWait k | .sendFlush k => some k
  | .pullCurrent k | .pullFinish k | .pullGet k => k
  | .idle | .recvTop _ _ | .recvGet _ _ | .recvDiscard _ _ | .recvWait _ _ | .recvRelease _ _ => none

/-- The bytes the send in progress has put into messages. -/
def EndPc.bytesSending (pc : EndPc) : List UInt8 :=
  match pc.sending with
  | none => []
  | some k => k.buf.take k.bytesSent

/-- Where the ring's producer is while the stream is at `pc`; `t` is the message that was laid and
is still to be written. -/
def SendAt (r : Ring) (t : List Prepared) : EndPc → Prop
  | .sendAvail k avail => t = [] ∧ r.ppc = .idle ∧ k.bytesSent < k.buf.length ∧
      ∃ cons, avail = producerBytesAvailable r cons
  | .sendPrep k n => k.bytesSent + n ≤ k.buf.length ∧
      ((t = [] ∧ ((∃ c, callOf r.ppc = some c ∧ c.msgSize = n ∧ c.type = streamMsgData) ∨
          r.ppc = .idle ∧ r.prepStatus ≠ .success)) ∨
        ∃ q, t = [q] ∧ q.msg.payload.length = n ∧
          (Posting r.ppc ∨ r.ppc = .idle ∧ r.prepStatus = .success))
  | .retryFlush _ | .sendFlush _ => t = [] ∧ Quiet r.ppc
  | _ => t = [] ∧ r.ppc = .idle

/-- The written messages `w` hold the bytes reported and those of the send in progress. -/
structure Sends (r : Ring) (pc : EndPc) (reported : List UInt8) (w t : List Prepared) : Prop where
  sent : r.sent = w ++ t
  bytes : (w.map (·.msg.payload)).flatten = reported ++ pc.bytesSending
  types : ∀ q ∈ r.sent, q.msg.type = streamMsgData
  published : r.published ≤ w.length
  place : SendAt r t pc
  bound : ∀ k ∈ pc.sending, k.bytesSent ≤ k.buf.length ∧ k.buf.length < 4294967296

/-- The producer is in no call while the stream is at `pc`. -/
def NoCall : EndPc → Prop
  | .sendAvail _ _ | .sendPrep _ _ | .retryFlush _ | .sendFlush _ => False
  | _ => True

section Sends

variable {out out' inn : Ring} {rs : RecvState} {pc : EndPc} {reported : List UInt8}
  {w t : List Prepared} {e : Effect}

theorem sendAt_noCall (h : NoCall pc) : SendAt out t pc ↔ t = [] ∧ out.ppc = .idle := by
  cases pc <;> first | exact h.elim | exact Iff.rfl

/-- The other side leaves the producer's fields alone. -/
theorem Sends.keep (h : Sends out pc reported w t) (e : SameProd out out') :
    Sends out' pc reported w t := by
  refine ⟨e.sent.trans h.sent, h.bytes, by rw [e.sent]; exact h.types,
    by rw [e.published]; exact h.published, ?_, h.bound⟩
  have hp := h.place
  cases pc <;> simp only [SendAt, e.ppc, e.prepStatus] at hp ⊢ <;> try exact hp
  simp only [producerBytesAvailable, e.payloadBytes, e.localProdPvt] at hp ⊢
  exact hp

/-- A move between places without a call, of the same send. -/
theorem Sends.goto (h : Sends out pc reported w t) {pc' : EndPc} (h1 : NoCall pc) (h2 : NoCall pc')
    (hs : pc'.sending = pc.sending) : Sends out pc' reported w t := by
  refine ⟨h.sent, ?_, h.types, h.published, ?_, ?_⟩
  · rw [h.bytes, EndPc.bytesSending, EndPc.bytesSending, hs]
  · exact (sendAt_noCall h2).mpr ((sendAt_noCall h1).mp h.place)
  · rw [hs]; exact h.bound

/-- A send that returns reports what it has put into messages. -/
theorem Sends.report (h : Sends out pc reported w t) {k : Sending} (hp : t = [] ∧ out.ppc = .idle)
    (hs : pc.sending = some k) : Sends out .idle (reported ++ k.buf.take k.bytesSent) w t := by
  refine ⟨h.sent, ?_, h.types, h.published, hp, by simp [EndPc.sending]⟩
  rw [h.bytes, EndPc.bytesSending, hs]
  exact (List.append_nil _).symm

theorem Sends.flush (h : Sends out pc reported w t) {pc' : EndPc} (hp : t = [] ∧ out.ppc = .idle)
    (hs : pc'.sending = pc.sending) (hat : ∀ r t, SendAt r t pc' ↔ t = [] ∧ Quiet r.ppc)
    (ho : ringStep out .send = some out') : Sends out' pc' reported w t := by
  simp only [ringStep, hp.2, if_true, Option.some.injEq] at ho
  subst ho
  refine ⟨h.sent, ?_, h.types, h.published, (hat _ _).mpr ⟨hp.1, trivial⟩, by rw [hs]; exact h.bound⟩
  rw [h.bytes, EndPc.bytesSending, EndPc.bytesSending, hs]

theorem Sends.flushing (h : Sends out pc reported w t)
    (hat : ∀ r t, SendAt r t pc ↔ t = [] ∧ Quiet r.ppc) (ho : out.prodStep = some out') :
    Sends out' pc reported w t := by
  obtain ⟨ht, hq⟩ := (hat _ _).mp h.place
  obtain ⟨h1, h2, h3⟩ := prodStep_quiet hq ho
  refine ⟨h1.trans h.sent, h.bytes, by rw [h1]; exact h.types, ?_, (hat _ _).mpr ⟨ht, h3⟩, h.bound⟩
  rcases h2 with h2 | h2
  · rw [h2]; exact h.published
  · exact Nat.le_of_eq (by rw [h2, h.sent, ht, List.append_nil])

theorem Sends.sendEnd (h : Sends out pc reported w t) {k : Sending} (hp : t = [] ∧ out.ppc = .idle)
    (hs : pc.sending = some k) (ho : ringAct out (sendEnd rs k).out = some out') :
    Sends out' (sendEnd rs k).pc (reported ++ (sendEnd rs k).reported) w t := by
  unfold V2v.sendEnd at ho ⊢
  split
  · next hne =>
    simp only [hne, ne_eq, not_false_eq_true, if_true, ringAct] at ho
    rw [List.append_nil]
    exact h.flush hp hs.symm (fun _ _ => Iff.rfl) ho
  · next heq =>
    simp only [heq, if_false, ringAct, Option.some.injEq] at ho
    subst ho
    exact h.report hp hs

theorem Sends.prep {k : Sending} {avail n : Nat} (h : Sends out (.sendAvail k avail) reported w t)
    (hn : n ≤ k.buf.length - k.bytesSent)
    (ho : ringStep out (.prep n streamMsgData 0) = some out') :
    Sends out' (.sendPrep k n) reported w t := by
  obtain ⟨ht, hidle, hlt, -⟩ := h.place
  have hk : (out.prepMessage n streamMsgData 0).sent = out.sent ∧
      (out.prepMessage n streamMsgData 0).published = out.published ∧
      ((∃ c, callOf (out.prepMessage n streamMsgData 0).ppc = some c ∧ c.msgSize = n ∧
        c.type = streamMsgData) ∨ (out.prepMessage n streamMsgData 0).ppc = .idle ∧
        (out.prepMessage n streamMsgData 0).prepStatus ≠ .success) := by
    unfold Ring.prepMessage
    simp only
    split
    · exact ⟨rfl, rfl, .inr ⟨hidle, by simp⟩⟩
    · split
      · exact ⟨rfl, rfl, .inr ⟨hidle, by simp⟩⟩
      · exact ⟨rfl, rfl, .inl ⟨_, rfl, rfl, rfl⟩⟩
  simp only [ringStep, hidle, if_true, Option.some.injEq] at ho
  subst ho
  exact ⟨hk.1.trans h.sent, h.bytes, by rw [hk.1]; exact h.types, by rw [hk.2.1]; exact h.published,
    ⟨by omega, .inl ⟨ht, hk.2.2⟩⟩, h.bound⟩

theorem Sends.preparing {k : Sending} {n : Nat} (h : Sends out (.sendPrep k n) reported w t)
    (hpc : out.ppc ≠ .idle) (ho : out.prodStep = some out') :
    ∃ t', Sends out' (.sendPrep k n) reported w t' := by
  obtain ⟨hle, ⟨rfl, ⟨c, hc, hn, hty⟩ | ⟨hidle, -⟩⟩ | ⟨q, rfl, hlen, hp | ⟨hidle, -⟩⟩⟩ := h.place
  · have hsent : out.sent = w := by rw [h.sent, List.append_nil]
    rcases prodStep_call hc ho with ⟨h1, h2, h3⟩ | ⟨h1, q, h2, h3, h4, h5⟩
    · refine ⟨[], h1.trans h.sent, h.bytes, by rw [h1]; exact h.types, ?_, ⟨hle, .inl ⟨rfl, ?_⟩⟩, h.bound⟩
      · rcases h2 with h2 | h2
        · rw [h2]; exact h.published
        · exact Nat.le_of_eq (by rw [h2, hsent])
      · rcases h3 with h3 | ⟨h3, nr, h4⟩
        · exact .inl ⟨c, h3, hn, hty⟩
        · exact .inr ⟨h3, by simp [h4]⟩
    · refine ⟨[q], by rw [h2, hsent], h.bytes, ?_, by rw [h1]; exact h.published,
        ⟨hle, .inr ⟨q, rfl, by rw [h3, hn], .inl (by rw [h5]; trivial)⟩⟩, h.bound⟩
      rw [h2]
      intro x hx
      rcases List.mem_append.mp hx with hx | hx
      · exact h.types x hx
      · rw [List.mem_singleton.mp hx, h4, hty]
  · exact absurd hidle hpc
  · obtain ⟨h1, h2, h3⟩ := prodStep_posting hp ho
    exact ⟨[q], h1.trans h.sent, h.bytes, by rw [h1]; exact h.types, by rw [h2]; exact h.published,
      ⟨hle, .inr ⟨q, rfl, hlen, h3⟩⟩, h.bound⟩
  · exact absurd hidle hpc

/-- The payload is stored: the message counts as sent. -/
theorem Sends.write {k : Sending} {n : Nat} (h : Sends out (.sendPrep k n) reported w t)
    (hidle : out.ppc = .idle) (hst : out.prepStatus = .success)
    (ho : ringStep out (.write (out.sent.length - 1) 0 ((k.buf.drop k.bytesSent).take n)) =
      some out') :
    out.published ≤ out.sent.length - 1 ∧
      ∃ w', Sends out' (.sendTop { k with bytesSent := u32 (k.bytesSent + n) }) reported w' [] := by
  obtain ⟨hle, ⟨rfl, ⟨c, hc, -⟩ | ⟨-, hne⟩⟩ | ⟨q, rfl, hlen, hp⟩⟩ := h.place
  · rw [hidle] at hc; cases hc
  · exact absurd hst hne
  · have hl : out.sent.length - 1 = w.length := by rw [h.sent]; simp
    have hq : out.sent[w.length]? = some q := by rw [h.sent]; simp
    obtain ⟨hb1, hb2⟩ := h.bound k rfl
    have hchunk : ((k.buf.drop k.bytesSent).take n).length = n := by simp; omega
    have hu : u32 (k.bytesSent + n) = k.bytesSent + n := Nat.mod_eq_of_lt (by omega)
    have hd : q.msg.payload.drop n = [] := List.drop_of_length_le (by omega)
    rw [hl] at ho ⊢
    refine ⟨h.published, ?_⟩
    simp only [ringStep, hidle, if_true, Ring.writePayload, hq, Option.bind_some, hchunk, Nat.zero_add,
      hlen, Nat.le_refl, Option.some.injEq, List.take_zero, List.nil_append, hd, List.append_nil] at ho
    subst ho
    refine ⟨w ++ [{ q with msg.payload := (k.buf.drop k.bytesSent).take n }], ?_, ?_, ?_, ?_, ⟨rfl, rfl⟩,
      ?_⟩
    · rw [h.sent, List.set_append_right _ _ (Nat.le_refl _), Nat.sub_self]; simp
    · have hby := h.bytes
      simp only [EndPc.bytesSending, EndPc.sending] at hby ⊢
      rw [List.map_append, List.flatten_append, hby, hu, List.take_add]
      simp
    · intro x hx
      rw [h.sent, List.set_append_right _ _ (Nat.le_refl _), Nat.sub_self] at hx
      simp only [List.set_cons_zero, List.mem_append, List.mem_singleton] at hx
      rcases hx with hx | rfl
      · exact h.types x (by rw [h.sent]; simp [hx])
      · exact h.types q (by rw [h.sent]; simp)
    · have := h.published
      simp; omega
    · intro k' hk'
      cases hk'
      exact ⟨by rw [hu]; exact hle, hb2⟩

/-- What a step of an end does to the ring it produces on. -/
def SendStep (out out' : Ring) (reported : List UInt8) (e : Effect) : Prop :=
  (∀ a ∈ e.out, a.Produces ∧ RingOk out a) ∧ ∃ w t, Sends out' e.pc (reported ++ e.reported) w t

theorem SendStep.quiet (hnone : e.out = none) (ho : ringAct out e.out = some out')
    (h : Sends out e.pc (reported ++ e.reported) w t) : SendStep out out' reported e := by
  rw [hnone] at ho
  cases ho
  exact ⟨by simp [hnone], w, t, h⟩

theorem SendStep.ite {c : Prop} [Decidable c] {e1 e2 : Effect}
    (h1 : c → ringAct out e1.out = some out' → SendStep out out' reported e1)
    (h2 : ¬ c → ringAct out e2.out = some out' → SendStep out out' reported e2)
    (ho : ringAct out (if c then e1 else e2).out = some out') :
    SendStep out out' reported (if c then e1 else e2) := by
  by_cases hc : c
  · rw [if_pos hc] at ho ⊢
    exact h1 hc ho
  · rw [if_neg hc] at ho ⊢
    exact h2 hc ho

theorem Sends.stay (h : Sends out pc reported w t) (hpc : NoCall pc) (hpc' : NoCall e.pc)
    (hs : e.pc.sending = pc.sending) (hnone : e.out = none) (hrep : e.reported = [])
    (ho : ringAct out e.out = some out') : SendStep out out' reported e := by
  have h' := h.goto hpc hpc' hs
  rw [← List.append_nil reported, ← hrep] at h'
  exact .quiet hnone ho h'

theorem Sends.sendEndStep (h : Sends out pc reported w t) {k : Sending}
    (hp : t = [] ∧ out.ppc = .idle) (hs : pc.sending = some k)
    (ho : ringAct out (V2v.sendEnd rs k).out = some out') :
    SendStep out out' reported (V2v.sendEnd rs k) := by
  refine ⟨fun a ha => ?_, w, t, h.sendEnd hp hs ho⟩
  unfold V2v.sendEnd at ha
  split at ha
  · cases ha; exact ⟨trivial, trivial⟩
  · cases ha

theorem Sends.pullEndStep {k : Option Sending} (h : Sends out (.pullGet k) reported w t)
    (ho : ringAct out (pullEnd rs k).out = some out') : SendStep out out' reported (pullEnd rs k) := by
  cases k with
  | none => exact h.stay trivial trivial rfl rfl rfl ho
  | some k =>
    refine .ite (fun _ ho => ⟨fun a ha => ?_, w, t, ?_⟩)
      (fun _ ho => h.stay trivial trivial rfl rfl rfl ho) ho
    · cases ha; exact ⟨trivial, trivial⟩
    · rw [List.append_nil]
      exact h.flush h.place rfl (fun _ _ => Iff.rfl) ho

theorem Sends.flushStep (h : Sends out pc reported w t)
    (hat : ∀ r t, SendAt r t pc ↔ t = [] ∧ Quiet r.ppc)
    (hdone : out.ppc = .idle → ringAct out e.out = some out' → SendStep out out' reported e)
    (ho : ringAct out (if out.ppc ≠ .idle then { out := some .producer, recv := rs, pc := pc }
      else e).out = some out') :
    SendStep out out' reported
      (if out.ppc ≠ .idle then { out := some .producer, recv := rs, pc := pc } else e) := by
  refine .ite (fun _ ho => ⟨fun a ha => ?_, w, t, ?_⟩) (fun heq ho => hdone (not_not.mp heq) ho) ho
  · cases ha; exact ⟨trivial, trivial⟩
  · rw [List.append_nil]
    exact h.flushing hat ho

theorem Sends.availStep {k : Sending} {avail : Nat} (h : Sends out (.sendAvail k avail) reported w t)
    (hf : InFifo out) (he : endStep out inn rs d (.sendAvail k avail) = some e)
    (ho : ringAct out e.out = some out') : SendStep out out' reported e := by
  cases he
  obtain ⟨-, -, -, cons, rfl⟩ := h.place
  have h1 : u16 (min (if out.consumerActive then min maxInlineBytes (producerBytesAvailable out cons)
      else producerBytesAvailable out cons) (k.buf.length - k.bytesSent)) ≤
      min (producerBytesAvailable out cons) (k.buf.length - k.bytesSent) := by
    apply Nat.le_trans (Nat.mod_le _ _)
    split <;> omega
  refine ⟨fun a ha => ?_, w, t, ?_⟩
  · cases ha
    exact ⟨trivial, sizeOk_of_avail hf.dvd.1 hf.dvd.2 (Nat.le_trans h1 (Nat.min_le_left _ _))⟩
  · rw [List.append_nil]
    exact h.prep (Nat.le_trans h1 (Nat.min_le_right _ _)) ho

theorem Sends.prepStep {k : Sending} {n : Nat} (h : Sends out (.sendPrep k n) reported w t)
    (he : endStep out inn rs d (.sendPrep k n) = some e) (ho : ringAct out e.out = some out') :
    SendStep out out' reported e := by
  simp only [endStep] at he
  split at he
  · next hne =>
    cases he
    obtain ⟨t', h'⟩ := h.preparing hne ho
    exact ⟨fun a ha => by cases ha; exact ⟨trivial, trivial⟩, w, t', by rwa [List.append_nil]⟩
  · next hidle =>
    have hidle := not_not.mp hidle
    split at he
    · next hst =>
      cases he
      obtain ⟨hpub, w', h'⟩ := h.write hidle hst ho
      exact ⟨fun a ha => by cases ha; exact ⟨trivial, hpub⟩, w', [], by rwa [List.append_nil]⟩
    all_goals
      next hst =>
      cases he
      have hp : t = [] ∧ out.ppc = .idle := by
        obtain ⟨-, ⟨ht, -⟩ | ⟨q, -, -, hp | ⟨-, hp⟩⟩⟩ := h.place
        · exact ⟨ht, hidle⟩
        · rw [hidle] at hp; exact hp.elim
        · rw [hst] at hp; cases hp
      first
        | exact h.sendEndStep hp rfl ho
        | exact .quiet rfl ho ⟨h.sent, (by rw [List.append_nil]; exact h.bytes), h.types, h.published,
            hp, h.bound⟩

/-- A receive leaves the ring its end produces on alone. -/
theorem Sends.roundStep {bufSize : Nat} {buf : List UInt8}
    (h : Sends out (.recvTop bufSize buf) reported w t)
    (ho : ringAct out (recvRound inn rs bufSize buf).out = some out') :
    SendStep out out' reported (recvRound inn rs bufSize buf) := by
  unfold recvRound at ho ⊢
  cases hc : rs.current with
  | null =>
    cases hq : rs.head <;> simp only [hc, hq] at ho ⊢ <;> exact h.stay trivial trivial rfl rfl rfl ho
  | inRing | queued =>
    simp only [hc] at ho ⊢
    exact .ite (fun _ ho => h.stay trivial trivial rfl rfl rfl ho)
      (fun _ ho => h.stay trivial trivial rfl rfl rfl ho) ho

theorem Sends.step {d : Bool} (h : Sends out pc reported w t) (hf : InFifo out)
    (he : endStep out inn rs d pc = some e) (ho : ringAct out e.out = some out') :
    SendStep out out' reported e := by
  cases pc with
  | idle => cases he
  | sendTop k =>
    cases he
    refine .ite (fun hlt ho => ?_) (fun _ ho => h.sendEndStep h.place rfl ho) ho
    exact .quiet rfl ho ⟨h.sent, (by rw [List.append_nil]; exact h.bytes), h.types, h.published,
      ⟨h.place.1, h.place.2, hlt, _, rfl⟩, h.bound⟩
  | sendAvail k avail => exact h.availStep hf he ho
  | sendPrep k n => exact h.prepStep he ho
  | retryFlush k =>
    cases he
    refine h.flushStep (fun _ _ => Iff.rfl) (fun hidle ho => ?_) ho
    exact .quiet rfl ho ⟨h.sent, (by rw [List.append_nil]; exact h.bytes), h.types, h.published,
      ⟨h.place.1, hidle⟩, h.bound⟩
  | sendFlush k =>
    cases he
    refine h.flushStep (fun _ _ => Iff.rfl) (fun hidle ho => ?_) ho
    exact .quiet rfl ho (h.report ⟨h.place.1, hidle⟩ rfl)
  | sendWait k =>
    cases he
    cases d
    · exact h.stay trivial trivial rfl rfl rfl ho
    · exact h.sendEndStep h.place rfl ho
  | pullCurrent k =>
    cases he
    cases hc : rs.current <;> simp only [hc] at ho ⊢ <;> exact h.stay trivial trivial rfl rfl rfl ho
  | pullGet k =>
    simp only [endStep] at he
    split at he
    · obtain ⟨m, -, rfl⟩ := Option.map_eq_some_iff.mp he
      exact h.stay trivial trivial rfl rfl rfl ho
    · cases he
      exact .ite (fun _ ho => h.stay trivial trivial rfl rfl rfl ho) (fun _ ho => h.pullEndStep ho) ho
  | recvTop bufSize buf =>
    cases he
    refine .ite (fun _ ho => h.roundStep ho) (fun _ ho => h.stay trivial trivial rfl rfl rfl ho) ho
  | recvGet bufSize buf =>
    simp only [endStep] at he
    split at he
    · obtain ⟨m, -, rfl⟩ := Option.map_eq_some_iff.mp he
      exact .ite (fun _ ho => h.stay trivial trivial rfl rfl rfl ho)
        (fun _ ho => h.stay trivial trivial rfl rfl rfl ho) ho
    · cases he
      refine .ite (fun _ ho => h.stay trivial trivial rfl rfl rfl ho) (fun _ ho => ?_) ho
      exact .ite (fun _ ho => h.stay trivial trivial rfl rfl rfl ho)
        (fun _ ho => h.stay trivial trivial rfl rfl rfl ho) ho
  | pullFinish k | recvDiscard bufSize buf | recvRelease bufSize buf =>
    cases he
    exact .ite (fun _ ho => h.stay trivial trivial rfl rfl rfl ho)
      (fun _ ho => h.stay trivial trivial rfl rfl rfl ho) ho
  | recvWait bufSize buf =>
    cases he
    cases d <;> exact h.stay trivial trivial rfl rfl rfl ho

end Sends

/-! ## The receiver -/

/-- The payload of the message the consumer was given last. -/
def lastPayload (r : Ring) : List UInt8 := (r.got.getLast?.map (·.payload)).getD []

/-- The bytes of the current message that no receive has taken. -/
def Current.rest (r : Ring) : Current → List UInt8
  | .null => []
  | .inRing _ _ _ used => (lastPayload r).drop used
  | .queued m => m.payload.drop m.bytesAlreadyUsed

/-- The buffer of the receive an end is in. -/
def EndPc.receiving : EndPc → List UInt8
  | .recvTop _ buf | .recvGet _ buf | .recvDiscard _ buf | .recvWait _ buf | .recvRelease _ buf => buf
  | _ => []

/-- The message a pull or a receive was given and has not looked at. -/
def unread (r : Ring) : EndPc → List UInt8
  | .pullGet _ | .recvGet _ _ => if r.cpc = .held then lastPayload r else []
  | _ => []

/-- The current message is not in the ring. -/
def Current.Loose : Current → Prop
  | .inRing _ _ _ _ => False
  | .null | .queued _ => True

/-- The consumer is not in `v2v_nc2_finish_message`. -/
def Fetching (pc : ConsPc) : Prop := Getting pc ∨ pc = .idle ∨ pc = .held

/-- The ring's consumer between two calls: it holds the current message if that is in the ring. -/
def Rests (r : Ring) : Current → Prop
  | .inRing _ addr size used =>
    r.cpc = .held ∧ addr = r.incomingMessage + hdrSize ∧ size = (lastPayload r).length ∧ used ≤ size
  | .null | .queued _ => r.cpc = .idle

/-- Where the ring's consumer is while the stream is at `pc`. -/
def RecvAt (r : Ring) (rs : RecvState) : EndPc → Prop
  | .pullGet _ => rs.current.Loose ∧ Fetching r.cpc
  | .recvGet _ _ => rs.current = .null ∧ rs.head = [] ∧ Fetching r.cpc
  | .pullFinish _ | .recvDiscard _ _ => rs.current.Loose ∧ Finishing r.cpc
  | .recvRelease _ _ => Finishing r.cpc ∧ ∃ type addr, rs.current =
      .inRing type addr (lastPayload r).length (lastPayload r).length
  | _ => Rests r rs.current

/-- The messages an end was given hold the bytes its receives have returned, followed by what it
keeps. -/
structure Receives (r : Ring) (pc : EndPc) (rs : RecvState) (returned : List UInt8) : Prop where
  bytes : (r.got.map (·.payload)).flatten = returned ++ pc.receiving ++ rs.current.rest r ++
    (rs.head.map (·.payload)).flatten ++ unread r pc
  place : RecvAt r rs pc
  queue : ∀ m ∈ rs.head, m.type = streamMsgData ∧ m.bytesAlreadyUsed = 0
  tail : rs.tailAtHead = rs.head.isEmpty

/-- What a step of an end does to the ring it consumes from. -/
def RecvStep (r : Ring) (returned : List UInt8) (e : Effect) : Prop :=
  (∀ a ∈ e.inn, ¬ a.Produces) ∧
    ∀ r', ringAct r e.inn = some r' → Receives r' e.pc e.recv (returned ++ e.returned)

section Receives

variable {r r' out : Ring} {rs : RecvState} {pc : EndPc} {returned : List UInt8} {e : Effect}

theorem rest_congr (c : Current) (h : r'.got = r.got) : c.rest r' = c.rest r := by
  cases c <;> simp only [Current.rest, lastPayload, h]

theorem rests_congr (c : Current) (h1 : r'.got = r.got) (h2 : r'.cpc = r.cpc)
    (h3 : r'.incomingMessage = r.incomingMessage) : Rests r' c = Rests r c := by
  cases c <;> simp only [Rests, lastPayload, h1, h2, h3]

/-- The other side leaves the consumer's fields alone. -/
theorem Receives.keep (h : Receives r pc rs returned) (e : SameCons r r') :
    Receives r' pc rs returned := by
  have hl : lastPayload r' = lastPayload r := by rw [lastPayload, lastPayload, e.got]
  have hun : unread r' pc = unread r pc := by cases pc <;> simp only [unread, hl, e.cpc]
  have hR : Rests r' rs.current = Rests r rs.current := rests_congr _ e.got e.cpc (by
    rw [Ring.incomingMessage, Ring.incomingMessage, e.localConsPvt, e.payloadBytes])
  refine ⟨by rw [e.got, rest_congr _ e.got, hun]; exact h.bytes, ?_, h.queue, h.tail⟩
  have hp := h.place
  cases pc <;> simp only [RecvAt, hl, e.cpc, hR] at hp ⊢ <;> exact hp

/-- The stream is in no call of the consumer's. -/
def Idles : EndPc → Prop
  | .pullGet _ | .recvGet _ _ | .pullFinish _ | .recvDiscard _ _ | .recvRelease _ _ => False
  | _ => True

theorem recvAt_idles (h : Idles pc) : RecvAt r rs pc = Rests r rs.current := by
  cases pc <;> first | exact h.elim | rfl

theorem unread_idles (h : Idles pc) : unread r pc = [] := by
  cases pc <;> first | exact h.elim | rfl

theorem Receives.rests (h : Receives r pc rs returned) (hpc : Idles pc) : Rests r rs.current :=
  recvAt_idles hpc ▸ h.place

theorem Receives.stay (h : Receives r pc rs returned) (hpc : Idles pc) (hpc' : Idles e.pc)
    (hb : e.returned ++ e.pc.receiving = pc.receiving) (hnone : e.inn = none) (hrs : e.recv = rs) :
    RecvStep r returned e := by
  refine ⟨by simp [hnone], fun r' hr => ?_⟩
  rw [hnone] at hr
  cases hr
  rw [hrs]
  refine ⟨?_, recvAt_idles hpc' ▸ h.rests hpc, h.queue, h.tail⟩
  rw [List.append_assoc returned, hb, h.bytes, unread_idles hpc, unread_idles hpc']

theorem Receives.fastReceive (h : Receives r pc rs returned) (hrest : Rests r rs.current)
    (hun : unread r pc = []) (hpc' : Idles e.pc) (hb : e.returned ++ e.pc.receiving = pc.receiving)
    (hinn : ∃ on, e.inn = some (.fastReceive on)) (hrs : e.recv = rs) : RecvStep r returned e := by
  obtain ⟨on, hinn⟩ := hinn
  refine ⟨fun a ha => by rw [hinn] at ha; cases ha; exact id, fun r' hr => ?_⟩
  rw [hinn] at hr
  obtain ⟨-, hr⟩ := Option.ite_none_right_eq_some.mp hr
  cases hr
  have h1 : rs.current.rest { r with consumerActive := on } = rs.current.rest r := rest_congr _ rfl
  have h2 : Rests { r with consumerActive := on } rs.current = Rests r rs.current :=
    rests_congr _ rfl rfl rfl
  rw [hrs]
  refine ⟨?_, ?_, h.queue, h.tail⟩
  · rw [List.append_assoc returned, hb, h1, unread_idles hpc', ← hun]
    exact h.bytes
  · rw [recvAt_idles hpc', h2]
    exact hrest

theorem Receives.recvOut (h : Receives r pc rs returned) (hrest : Rests r rs.current)
    (hun : unread r pc = []) : RecvStep r returned (V2v.recvOut rs pc.receiving) :=
  h.fastReceive hrest hun trivial (List.append_nil _) ⟨false, rfl⟩ rfl

theorem Current.Loose.rest {c : Current} (h : c.Loose) (r r' : Ring) : c.rest r' = c.rest r := by
  cases c <;> first | exact h.elim | rfl

theorem Current.Loose.rests {c : Current} (h : c.Loose) (hidle : r.cpc = .idle) : Rests r c := by
  cases c <;> first | exact h.elim | exact hidle

theorem unread_getting (h : Getting r.cpc) : unread r pc = [] := by
  have hne : r.cpc ≠ .held := by
    intro e
    rw [e] at h
    exact h
  cases pc <;> simp [unread, hne]

theorem Receives.get (h : Receives r pc rs returned) (hl : rs.current.Loose) (hun : unread r pc = [])
    (he : e.inn = some .get) (hrs : e.recv = rs) (hb : e.returned ++ e.pc.receiving = pc.receiving)
    (hat : ∀ r', Getting r'.cpc → RecvAt r' rs e.pc ∧ unread r' e.pc = []) :
    RecvStep r returned e := by
  refine ⟨fun a ha => by rw [he] at ha; cases ha; exact id, fun r' hr => ?_⟩
  rw [he] at hr
  obtain ⟨-, hr⟩ := Option.ite_none_right_eq_some.mp hr
  cases hr
  obtain ⟨h1, h2⟩ := hat { r with getStatus := .none, cpc := .readProd 0 } trivial
  rw [hrs]
  refine ⟨?_, h1, h.queue, h.tail⟩
  rw [h2, List.append_assoc returned, hb, hl.rest r, ← hun]
  exact h.bytes

/-- The stream is in `v2v_nc2_get_message`. -/
def Gets : EndPc → Prop
  | .pullGet _ | .recvGet _ _ => True
  | _ => False

theorem unread_gets (h : Gets pc) : unread r pc = if r.cpc = .held then lastPayload r else [] := by
  cases pc <;> first | exact h.elim | rfl

theorem RecvAt.gets (hpc : Gets pc) (h : RecvAt r rs pc) : rs.current.Loose ∧ Fetching r.cpc ∧
    ∀ r', Fetching r'.cpc → RecvAt r' rs pc := by
  cases pc with
  | pullGet k => exact ⟨h.1, h.2, fun r' hf => ⟨h.1, hf⟩⟩
  | recvGet n buf => exact ⟨by rw [h.1]; trivial, h.2.2, fun r' hf => ⟨h.1, h.2.1, hf⟩⟩
  | _ => exact hpc.elim

/-- `v2v_nc2_get_message` goes on. -/
theorem Receives.getting (h : Receives r pc rs returned) (hpc : Gets pc) (hh : r.cpc ≠ .held)
    (hi : r.cpc ≠ .idle) (hs : r.consStep = some r') : Receives r' pc rs returned := by
  obtain ⟨hl, hf, hat⟩ := h.place.gets hpc
  have hg : Getting r.cpc := by
    rcases hf with hf | hf | hf
    · exact hf
    · exact absurd hf hi
    · exact absurd hf hh
  have hb := h.bytes
  rw [unread_gets hpc, if_neg hh, List.append_nil] at hb
  rcases consStep_getting hg hs with ⟨h1, h2⟩ | ⟨h1, m, h2⟩
  · have hne : r'.cpc ≠ .held := by
      rcases h2 with h2 | h2
      · intro e; rw [e] at h2; exact h2
      · rw [h2]; simp
    refine ⟨?_, hat r' (h2.imp_right .inl), h.queue, h.tail⟩
    rw [h1, hl.rest r, unread_gets hpc, if_neg hne, List.append_nil]
    exact hb
  · refine ⟨?_, hat r' (.inr (.inr h1)), h.queue, h.tail⟩
    rw [h2, hl.rest r, unread_gets hpc, if_pos h1, List.map_append, List.flatten_append, hb]
    simp [lastPayload, h2]

/-- The stream is in `v2v_nc2_finish_message`. -/
def Finishes : EndPc → Prop
  | .pullFinish _ | .recvDiscard _ _ | .recvRelease _ _ => True
  | _ => False

theorem Receives.finishing (h : Receives r pc rs returned) (hpc : Finishes pc)
    (hs : r.consStep = some r') : Receives r' pc rs returned := by
  have hf : Finishing r.cpc := by cases pc <;> first | exact hpc.elim | exact h.place.2 | exact h.place.1
  obtain ⟨h1, h2⟩ := consStep_finishing hf hs
  have hl : lastPayload r' = lastPayload r := by rw [lastPayload, lastPayload, h1]
  have hrest := rest_congr rs.current h1
  have hb := h.bytes
  have hp := h.place
  cases pc with
  | pullFinish k | recvDiscard n buf =>
    exact ⟨by rw [h1, hrest]; exact hb, ⟨hp.1, h2⟩, h.queue, h.tail⟩
  | recvRelease n buf =>
    exact ⟨by rw [h1, hrest]; exact hb, ⟨h2, by rw [hl]; exact hp.2⟩, h.queue, h.tail⟩
  | _ => exact hpc.elim

/-- What a consumer that holds a message sees of it. -/
theorem Delivered.held (hd : Delivered r) (hh : r.cpc = .held) : ∃ m, r.got.getLast? = some m ∧
    m ∈ r.got ∧ lastPayload r = m.payload ∧ r.currentMessageSize = m.payload.length ∧
    Lib.bytes r.payload (r.incomingMessage + hdrSize) m.payload.length = m.payload := by
  obtain ⟨m, hm, h1, h2⟩ := hd.shown hh
  exact ⟨m, hm, List.mem_of_getLast? hm, by rw [lastPayload, hm]; rfl, h1, h2⟩

theorem Receives.finish {rs' : RecvState} {pc' : EndPc} (hpc : Finishes pc')
    (hb : (r.got.map (·.payload)).flatten = returned ++ pc'.receiving ++ rs'.current.rest r ++
      (rs'.head.map (·.payload)).flatten)
    (hat : ∀ r' : Ring, r'.got = r.got → Finishing r'.cpc → RecvAt r' rs' pc')
    (hq : ∀ m ∈ rs'.head, m.type = streamMsgData ∧ m.bytesAlreadyUsed = 0)
    (ht : rs'.tailAtHead = rs'.head.isEmpty) :
    RecvStep r returned { inn := some .finish, recv := rs', pc := pc' } := by
  refine ⟨fun a ha => by cases ha; exact id, fun r' hr => ?_⟩
  obtain ⟨-, hr⟩ := Option.ite_none_right_eq_some.mp hr
  cases hr
  have hun : unread r.finishMessage pc' = [] := by cases pc' <;> first | exact hpc.elim | rfl
  have hrest : rs'.current.rest r.finishMessage = rs'.current.rest r := rest_congr _ rfl
  refine ⟨?_, hat r.finishMessage rfl trivial, hq, ht⟩
  rw [hun, hrest, List.append_nil, List.append_nil]
  exact hb

theorem Receives.pullCurrentStep {k : Option Sending} (h : Receives r (.pullCurrent k) rs returned)
    (hd : Delivered r) (he : endStep out r rs d (.pullCurrent k) = some e) :
    RecvStep r returned e := by
  have hrest := h.rests trivial
  have hb := h.bytes
  cases he
  cases hc : rs.current with
  | inRing type addr size used =>
    rw [hc] at hrest
    obtain ⟨hheld, rfl, rfl, hle⟩ := hrest
    obtain ⟨m, -, -, hl, -, hm⟩ := hd.held hheld
    simp only [hl, hm]
    refine Receives.finish trivial ?_ (fun r' _ hf => ⟨trivial, hf⟩) h.queue h.tail
    simp only [hc, Current.rest, hl, unread, List.append_nil] at hb
    exact hb
  | null | queued =>
    exact h.get (by rw [hc]; trivial) rfl rfl rfl rfl fun r' hg =>
      ⟨⟨by rw [hc]; trivial, .inl hg⟩, unread_getting hg⟩

theorem RecvState.append_head {m : QueuedMessage} (h : rs.tailAtHead = rs.head.isEmpty) :
    (rs.append m).head = rs.head ++ [m] ∧ (rs.append m).current = rs.current ∧
      (rs.append m).tailAtHead = false := by
  unfold RecvState.append
  split
  · next ht =>
    rw [ht] at h
    have := List.isEmpty_iff.mp h.symm
    exact ⟨by rw [this]; rfl, rfl, rfl⟩
  · next ht => exact ⟨rfl, rfl, by simpa using ht⟩

theorem Receives.pullGetStep {k : Option Sending} (h : Receives r (.pullGet k) rs returned)
    (hd : Delivered r) (ht : ∀ m ∈ r.got, m.type = streamMsgData)
    (he : endStep out r rs d (.pullGet k) = some e) : RecvStep r returned e := by
  obtain ⟨hl, hf⟩ := h.place
  simp only [endStep] at he
  split at he
  · next hh =>
    obtain ⟨m, hm, hmem, hlp, hsz, hby⟩ := hd.held hh
    rw [hm] at he
    cases he
    rw [hsz, hby]
    obtain ⟨h1, h2, h3⟩ := @RecvState.append_head rs ⟨m.payload, m.type, 0⟩ h.tail
    refine Receives.finish trivial ?_ (fun r' _ hf => ⟨by rw [h2]; exact hl, hf⟩) ?_ (by rw [h1, h3]; simp)
    · have hb := h.bytes
      simp only [unread, if_pos hh, hlp, EndPc.receiving] at hb ⊢
      rw [h1, h2, hb]
      simp
    · rw [h1]
      intro x hx
      rcases List.mem_append.mp hx with hx | hx
      · exact h.queue x hx
      · rw [List.mem_singleton.mp hx]
        exact ⟨ht m hmem, rfl⟩
  · next hh =>
    cases he
    split
    · next hne =>
      refine ⟨fun a ha => by cases ha; exact id, fun r' hr => ?_⟩
      rw [List.append_nil]
      exact h.getting trivial hh hne hr
    · next heq =>
      have hidle := not_not.mp heq
      have hb := h.bytes
      simp only [unread, hidle, reduceCtorEq, if_false] at hb
      have hrest : Rests r rs.current := hl.rests hidle
      have key : ∀ pc', Idles pc' → pc'.receiving = [] → Receives r pc' rs returned := by
        intro pc' h1 h2
        exact ⟨by rw [unread_idles h1, h2]; exact hb, recvAt_idles h1 ▸ hrest, h.queue, h.tail⟩
      cases k with
      | none => exact (key .idle trivial rfl).stay trivial trivial rfl rfl rfl
      | some k =>
        unfold pullEnd
        dsimp only
        split <;> exact (key .idle trivial rfl).stay trivial trivial rfl rfl rfl

/-- A step that moves bytes between the buffer, the current message and the queue. -/
theorem Receives.move (h : Receives r pc rs returned) (hpc : Idles pc) (hpc' : Idles e.pc)
    (hb : e.pc.receiving ++ e.recv.current.rest r ++ (e.recv.head.map (·.payload)).flatten =
      pc.receiving ++ rs.current.rest r ++ (rs.head.map (·.payload)).flatten)
    (hnone : e.inn = none) (hret : e.returned = []) (hrest : Rests r e.recv.current)
    (hq : ∀ m ∈ e.recv.head, m.type = streamMsgData ∧ m.bytesAlreadyUsed = 0)
    (ht : e.recv.tailAtHead = e.recv.head.isEmpty) : RecvStep r returned e := by
  refine ⟨by simp [hnone], fun r' hr => ?_⟩
  rw [hnone] at hr
  cases hr
  refine ⟨?_, recvAt_idles hpc' ▸ hrest, hq, ht⟩
  have hb0 := h.bytes
  simp only [unread_idles hpc, unread_idles hpc', List.append_nil, hret, List.append_assoc] at hb hb0 ⊢
  rw [hb0, hb]

theorem bytes_drop_take {mem : Nat → UInt8} {a used n : Nat} {xs : List UInt8}
    (h : Lib.bytes mem a xs.length = xs) (hle : used + n ≤ xs.length) :
    Lib.bytes mem (a + used) n = (xs.drop used).take n := by
  conv_rhs => rw [← h]
  apply List.ext_getElem
  · simp; omega
  · intro i h1 h2
    simp [Lib.bytes, Nat.add_assoc]

theorem take_append_rest (xs ys : List UInt8) (used n : Nat) :
    (xs.drop used).take n ++ (xs.drop (used + n) ++ ys) = xs.drop used ++ ys := by
  rw [← List.append_assoc, ← List.drop_drop, List.take_append_drop]

theorem Receives.roundStep {bufSize : Nat} {buf : List UInt8}
    (h : Receives r (.recvTop bufSize buf) rs returned) (hd : Delivered r) :
    RecvStep r returned (recvRound r rs bufSize buf) := by
  have hrest := h.rests trivial
  have hq := h.queue
  have ht := h.tail
  have hb := h.bytes
  unfold recvRound
  cases hc : rs.current with
  | null =>
    cases hh : rs.head with
    | nil =>
      simp only
      refine h.get (by rw [hc]; trivial) rfl rfl rfl rfl fun r' hg => ?_
      exact ⟨⟨hc, hh, .inl hg⟩, unread_getting hg⟩
    | cons m rest =>
      rw [hh] at hq ht
      obtain ⟨hty, hu⟩ := hq m (List.mem_cons_self ..)
      simp only [hty, if_true]
      refine h.move trivial trivial ?_ rfl rfl ?_ (fun x hx => hq x (List.mem_cons_of_mem _ hx)) ?_
      · simp [EndPc.receiving, RecvState.unlink, Current.rest, hu, hc, hh]
      · rw [hc] at hrest; exact hrest
      · simp [RecvState.unlink, ht]
  | inRing type addr size used =>
    rw [hc] at hrest
    obtain ⟨hheld, rfl, rfl, hle⟩ := hrest
    obtain ⟨m, -, -, hl, -, hm⟩ := hd.held hheld
    rw [hl] at hle
    simp only [hl]
    generalize hn : copyLen (m.payload.length - used) bufSize buf = n
    have hle' : used + n ≤ m.payload.length := by unfold copyLen at hn; omega
    rw [bytes_drop_take hm hle']
    simp only [hc, Current.rest, hl, unread, EndPc.receiving, List.append_nil] at hb
    split
    · next heq =>
      refine Receives.finish trivial ?_ (fun r' hg hf => ⟨hf, type, r.incomingMessage + hdrSize, ?_⟩) hq ht
      · simp only [Current.rest, hl, EndPc.receiving]
        rw [hb]
        simp only [List.append_assoc, take_append_rest]
      · have hl' : lastPayload r' = m.payload := by rw [← hl, lastPayload, lastPayload, hg]
        rw [hl', heq]
    · refine h.move trivial trivial ?_ rfl rfl ⟨hheld, rfl, by rw [hl], hle'⟩ hq ht
      simp only [Current.rest, hl, EndPc.receiving, hc, List.append_assoc, take_append_rest]
  | queued m =>
    rw [hc] at hrest
    simp only
    generalize copyLen (m.payload.length - m.bytesAlreadyUsed) bufSize buf = n
    split
    · next heq =>
      refine h.move trivial trivial ?_ rfl rfl hrest hq ht
      have hsplit := take_append_rest m.payload [] m.bytesAlreadyUsed n
      rw [heq, List.drop_length, List.append_nil, List.append_nil, List.append_nil] at hsplit
      simp only [Current.rest, EndPc.receiving, hc, List.append_nil, hsplit]
    · refine h.move trivial trivial ?_ rfl rfl hrest hq ht
      simp only [Current.rest, EndPc.receiving, hc, List.append_assoc, take_append_rest]

theorem Receives.recvGetStep {bufSize : Nat} {buf : List UInt8} {d : Bool}
    (h : Receives r (.recvGet bufSize buf) rs returned) (hd : Delivered r)
    (ht : ∀ m ∈ r.got, m.type = streamMsgData)
    (he : endStep out r rs d (.recvGet bufSize buf) = some e) : RecvStep r returned e := by
  obtain ⟨hc, hq, hf⟩ := h.place
  have hb := h.bytes
  simp only [endStep] at he
  split at he
  · next hh =>
    obtain ⟨m, hm, hmem, hlp, hsz, hby⟩ := hd.held hh
    rw [hm] at he
    simp only [Option.map_some, ht m hmem, if_true, Option.some.injEq] at he
    subst he
    refine ⟨fun a ha => (by cases ha), fun r' hr => ?_⟩
    cases hr
    refine ⟨?_, ⟨hh, rfl, by rw [hlp, hsz], Nat.zero_le _⟩, h.queue, h.tail⟩
    simp only [unread, if_pos hh, hc, hq, Current.rest, EndPc.receiving] at hb ⊢
    simpa using hb
  · next hh =>
    cases he
    split
    · next hne =>
      refine ⟨fun a ha => by cases ha; exact id, fun r' hr => ?_⟩
      rw [List.append_nil]
      exact h.getting trivial hh hne hr
    · next heq =>
      have hrest : Rests r rs.current := by rw [hc]; exact not_not.mp heq
      have hun : unread r (.recvGet bufSize buf) = [] := if_neg hh
      split
      · refine ⟨fun a ha => (by cases ha), fun r' hr => ?_⟩
        cases hr
        refine ⟨?_, hrest, h.queue, h.tail⟩
        rw [hun] at hb
        rw [List.append_nil]
        exact hb
      · exact h.recvOut hrest hun

theorem Receives.finishStep (h : Receives r pc rs returned) (hpc : Finishes pc)
    (hdone : r.cpc = .idle → RecvStep r returned e) :
    RecvStep r returned
      (if r.cpc ≠ .idle then { inn := some .consumer, recv := rs, pc := pc } else e) := by
  split
  · refine ⟨fun a ha => by cases ha; exact id, fun r' hr => ?_⟩
    rw [List.append_nil]
    exact h.finishing hpc hr
  · next heq => exact hdone (not_not.mp heq)

theorem Receives.step {d : Bool} (h : Receives r pc rs returned) (hd : Delivered r)
    (ht : ∀ m ∈ r.got, m.type = streamMsgData) (he : endStep out r rs d pc = some e) :
    RecvStep r returned e := by
  cases pc with
  | idle => cases he
  | sendTop k =>
    cases he
    unfold sendEnd
    repeat' split
    all_goals exact h.stay trivial trivial rfl rfl rfl
  | sendAvail k avail => cases he; exact h.stay trivial trivial rfl rfl rfl
  | sendPrep k n =>
    simp only [endStep] at he
    repeat' split at he
    all_goals cases he
    all_goals try unfold sendEnd
    all_goals repeat' split
    all_goals exact h.stay trivial trivial rfl rfl rfl
  | retryFlush k | sendFlush k =>
    cases he
    split <;> exact h.stay trivial trivial rfl rfl rfl
  | sendWait k =>
    cases he
    unfold sendEnd
    repeat' split
    all_goals exact h.stay trivial trivial rfl rfl rfl
  | pullCurrent k => exact h.pullCurrentStep hd he
  | pullGet k => exact h.pullGetStep hd ht he
  | pullFinish k =>
    cases he
    refine h.finishStep trivial fun hidle => ?_
    refine h.get h.place.1 rfl rfl rfl rfl fun r' hg => ⟨⟨h.place.1, .inl hg⟩, unread_getting hg⟩
  | recvTop bufSize buf =>
    cases he
    split
    · exact h.roundStep hd
    · exact h.recvOut (h.rests trivial) rfl
  | recvGet bufSize buf => exact h.recvGetStep hd ht he
  | recvDiscard bufSize buf =>
    cases he
    refine h.finishStep trivial fun hidle => ⟨fun a ha => (by cases ha), fun r' hr => ?_⟩
    cases hr
    rw [List.append_nil]
    exact ⟨h.bytes, h.place.1.rests hidle, h.queue, h.tail⟩
  | recvWait bufSize buf =>
    cases he
    cases d
    · exact h.stay trivial trivial rfl rfl rfl
    · exact h.recvOut (h.rests trivial) rfl
  | recvRelease bufSize buf =>
    cases he
    refine h.finishStep trivial fun hidle => ⟨fun a ha => (by cases ha), fun r' hr => ?_⟩
    cases hr
    rw [List.append_nil]
    obtain ⟨-, type, addr, hc⟩ := h.place
    refine ⟨?_, hidle, h.queue, h.tail⟩
    have hb := h.bytes
    simp only [hc, Current.rest, List.drop_length] at hb ⊢
    exact hb

end Receives

/-! ## Both ends -/

/-- The invariant of two streams. -/
structure StreamsOk (s : Streams) : Prop where
  rings : ∀ x, InFifo (s.ring x)
  sends : ∀ x, ∃ w t, Sends (s.ring x) (s.pc x) (s.reported x) w t
  receives : ∀ x, Receives (s.ring x.other) (s.pc x) (s.recv x) (s.returned x)

/-- `bytes_sent` can count the bytes of a buffer. -/
def BufferOk (_ : Streams) : Side × StreamAct → Prop
  | (_, .send buf) => buf.length < 4294967296
  | (_, .recv _) | (_, .pull) | (_, .run _) => True

instance (s : Streams) (a : Side × StreamAct) : Decidable (BufferOk s a) :=
  match a with
  | (_, .send buf) => inferInstanceAs (Decidable (buf.length < 4294967296))
  | (_, .recv _) | (_, .pull) | (_, .run _) => isTrue trivial

section Both

variable {s : Streams} {x : Side} {e : Effect}

theorem Side.other_other (x : Side) : x.other.other = x := by cases x <;> rfl

theorem Side.other_ne (x : Side) : x.other ≠ x := by cases x <;> simp [Side.other]

/-- An end that is in no call starts one, or goes on with the one it is in. -/
theorem effect_cases {a : StreamAct} (h : effect s x a = some e) :
    (∃ d, a = .run d ∧ endStep (s.ring x) (s.ring x.other) (s.recv x) d (s.pc x) = some e) ∨
    (s.pc x = .idle ∧ ((∃ buf, a = .send buf ∧ e = { recv := s.recv x, pc := .sendTop ⟨buf, 0⟩ }) ∨
      (∃ n, a = .recv n ∧
        e = { inn := some (.fastReceive true), recv := s.recv x, pc := .recvTop n [] }) ∨
      a = .pull ∧ e = { recv := s.recv x, pc := .pullCurrent none })) := by
  unfold effect at h
  cases a with
  | run d => exact .inl ⟨d, rfl, h⟩
  | send buf =>
    cases hp : s.pc x <;> simp only [hp, Option.some.injEq, reduceCtorEq] at h
    exact .inr ⟨rfl, .inl ⟨buf, rfl, h.symm⟩⟩
  | recv n =>
    cases hp : s.pc x <;> simp only [hp, Option.some.injEq, reduceCtorEq] at h
    exact .inr ⟨rfl, .inr (.inl ⟨n, rfl, h.symm⟩)⟩
  | pull =>
    cases hp : s.pc x <;> simp only [hp, Option.some.injEq, reduceCtorEq] at h
    exact .inr ⟨rfl, .inr (.inr ⟨rfl, h.symm⟩)⟩

theorem StreamsOk.sendStep {a : StreamAct} (h : StreamsOk s) (hok : BufferOk s (x, a))
    (he : effect s x a = some e) {out : Ring} (ho : ringAct (s.ring x) e.out = some out) :
    SendStep (s.ring x) out (s.reported x) e := by
  obtain ⟨w, t, hs⟩ := h.sends x
  rcases effect_cases he with ⟨d, rfl, he⟩ | ⟨hidle, he⟩
  · exact hs.step (h.rings x) he ho
  · rw [hidle] at hs
    rcases he with ⟨buf, rfl, rfl⟩ | ⟨n, rfl, rfl⟩ | ⟨rfl, rfl⟩
    · refine .quiet rfl ho ⟨hs.sent, ?_, hs.types, hs.published, hs.place, ?_⟩
      · rw [List.append_nil]
        exact hs.bytes
      · intro k hk
        cases hk
        exact ⟨Nat.zero_le _, hok⟩
    · exact hs.stay trivial trivial rfl rfl rfl ho
    · exact hs.stay trivial trivial rfl rfl rfl ho

theorem StreamsOk.types (h : StreamsOk s) (x : Side) : ∀ m ∈ (s.ring x).got, m.type = streamMsgData := by
  obtain ⟨w, t, hs⟩ := h.sends x
  intro m hm
  obtain ⟨q, hq, rfl⟩ := List.mem_map.mp ((h.rings x).delivered.inOrder.subset hm)
  exact hs.types q hq

theorem StreamsOk.recvStep {a : StreamAct} (h : StreamsOk s) (he : effect s x a = some e) :
    RecvStep (s.ring x.other) (s.returned x) e := by
  have hr := h.receives x
  rcases effect_cases he with ⟨d, rfl, he⟩ | ⟨hidle, he⟩
  · exact hr.step (h.rings _).delivered (h.types _) he
  · rw [hidle] at hr
    rcases he with ⟨buf, rfl, rfl⟩ | ⟨n, rfl, rfl⟩ | ⟨rfl, rfl⟩
    · exact hr.stay trivial trivial rfl rfl rfl
    · exact hr.fastReceive (hr.rests trivial) rfl trivial rfl ⟨true, rfl⟩ rfl
    · exact hr.stay trivial trivial rfl rfl rfl

theorem StreamsOk.step {a : Side × StreamAct} {t : Streams} (h : StreamsOk s) (hok : BufferOk s a)
    (hs : streamStep s a = some t) : StreamsOk t := by
  obtain ⟨x, a⟩ := a
  obtain ⟨e, he, hs⟩ := Option.bind_eq_some_iff.mp hs
  obtain ⟨out, ho, hs⟩ := Option.bind_eq_some_iff.mp hs
  obtain ⟨inn, hi, rfl⟩ := Option.map_eq_some_iff.mp hs
  obtain ⟨hout, w, t, hsend⟩ := h.sendStep hok he ho
  obtain ⟨hinn, hrecv⟩ := h.recvStep he
  have hrecv := hrecv inn hi
  -- the accesses of side `x` keep the rings and the other side's view of them
  have hO : InFifo out ∧ SameCons (s.ring x) out := by
    cases heo : e.out with
    | none => rw [heo] at ho; cases ho; exact ⟨h.rings x, .refl _⟩
    | some b =>
      rw [heo] at ho
      obtain ⟨hp, hb⟩ := hout b heo
      exact ⟨(h.rings x).step hb ho, ringStep_sameCons hp ho⟩
  have hI : InFifo inn ∧ SameProd (s.ring x.other) inn := by
    cases hei : e.inn with
    | none => rw [hei] at hi; cases hi; exact ⟨h.rings _, .refl _⟩
    | some b =>
      rw [hei] at hi
      have hp := hinn b hei
      exact ⟨(h.rings _).step (ringOk_of_consumes hp) hi, ringStep_sameProd hp hi⟩
  obtain ⟨w', t', hsend'⟩ := h.sends x.other
  have hrecv' := h.receives x.other
  rw [Side.other_other] at hrecv'
  have hcase : ∀ y : Side, y = x ∨ y = x.other := by intro y; cases x <;> cases y <;> simp [Side.other]
  have hne := x.other_ne
  refine ⟨fun y => ?_, fun y => ?_, fun y => ?_⟩
  · rcases hcase y with rfl | rfl
    · simp only [update_self, update_of_ne hne.symm]; exact hO.1
    · simp only [update_self]; exact hI.1
  · rcases hcase y with rfl | rfl
    · simp only [update_self, update_of_ne hne.symm]; exact ⟨w, t, hsend⟩
    · simp only [update_self, update_of_ne hne]
      exact ⟨w', t', hsend'.keep hI.2⟩
  · rcases hcase y with rfl | rfl
    · simp only [update_self]; exact hrecv
    · simp only [Side.other_other, update_self, update_of_ne hne,
        update_of_ne hne.symm]
      exact hrecv'.keep hO.2

theorem streamsOk_attach {order : Side → Nat} {block : Side → PoolBlock} (ho : ∀ x, order x ≤ 4)
    (hb : ∀ x, block x = ⟨.null, []⟩) : StreamsOk (streamMachine order block).init := by
  refine ⟨fun x => inFifo_attach (ho x), fun x => ⟨[], [], ?_⟩, fun x => ?_⟩
  · exact ⟨rfl, rfl, by simp [streamMachine, attachRings], Nat.le_refl _, ⟨rfl, rfl⟩,
      by simp [streamMachine, EndPc.sending]⟩
  · simp only [streamMachine, v2vStreamAttach, hb]
    exact ⟨rfl, rfl, by simp, rfl⟩

/-- What the receives of one end have returned is at the front of what the sends of the other have
reported or put into messages. -/
theorem StreamsOk.returned_isPrefix (h : StreamsOk s) (x : Side) :
    s.returned x.other <+: s.reported x ++ (s.pc x).bytesSending := by
  obtain ⟨w, t, hs⟩ := h.sends x
  have hr := h.receives x.other
  rw [Side.other_other] at hr
  have hd := (h.rings x).delivered
  have hgot : (s.ring x).got <+: w.map (·.msg) := by
    have h1 := hd.inOrder
    rw [hs.sent, List.map_append] at h1
    apply List.prefix_of_prefix_length_le h1 (List.prefix_append _ _)
    rw [List.length_map]
    exact Nat.le_trans hd.flushed hs.published
  have hfl : ((s.ring x).got.map (·.payload)).flatten <+: (w.map (·.msg.payload)).flatten := by
    obtain ⟨u, hu⟩ := hgot
    refine ⟨(u.map (·.payload)).flatten, ?_⟩
    rw [← List.flatten_append, ← List.map_append, hu, List.map_map]
    rfl
  rw [← hs.bytes]
  refine List.IsPrefix.trans ?_ hfl
  rw [hr.bytes]
  simp only [List.append_assoc]
  exact List.prefix_append _ _

end Both

/-- Streams attached to zeroed memory keep their bytes in order: the receives of one end have
returned the first of the bytes the sends of the other have reported, or have put into messages. -/
theorem stream_in_order {order : Side → Nat} {block : Side → PoolBlock} (ho : ∀ x, order x ≤ 4)
    (hb : ∀ x, block x = ⟨.null, []⟩) {s : Streams} (h : (streamMachine order block).Reach BufferOk s)
    (x : Side) : s.returned x.other <+: s.reported x ++ (s.pc x).bytesSending := by
  have hs : StreamsOk s := h.inv (streamsOk_attach ho hb) fun _ _ _ h hok hst => h.step hok hst
  exact hs.returned_isPrefix x

/-- One byte sent, up to step `n` of the send, and received. -/
def oneByte (n : Nat) : List (Side × StreamAct) :=
  List.flatten [[(.temple, .send [65])], .replicate n (.temple, .run false),
    [(.supplicant, .recv 1)], .replicate 9 (.supplicant, .run false)]

/-- A receive can return bytes before the send that carries them has returned, and bytes nobody
has sent when the stream was attached to memory that looks like a queued message. -/
theorem returned_before_reported :
    (∃ s, (streamMachine (fun _ => 0) fun _ => ⟨.null, []⟩).Reach Machine.Any s ∧
      s.returned .supplicant = [65] ∧ s.reported .temple = []) ∧
    ∃ s, (streamMachine (fun _ => 0) fun _ => ⟨.queued ⟨[66], 1, 0⟩, []⟩).Reach Machine.Any s ∧
      s.returned .supplicant = [66] ∧ s.reported .temple = [] := by
  constructor
  · obtain ⟨s, hr, hs⟩ := Machine.exists_reach (streamMachine (fun _ => 0) fun _ => ⟨.null, []⟩)
      Machine.Any (fun s => s.returned .supplicant = [65] ∧ s.reported .temple = []) (oneByte 11)
      (by decide +kernel)
    exact ⟨s, hr, by simpa using hs⟩
  · obtain ⟨s, hr, hs⟩ := Machine.exists_reach
      (streamMachine (fun _ => 0) fun _ => ⟨.queued ⟨[66], 1, 0⟩, []⟩) Machine.Any
      (fun s => s.returned .supplicant = [66] ∧ s.reported .temple = [])
      [(.supplicant, .recv 1), (.supplicant, .run false), (.supplicant, .run false)]
      (by decide +kernel)
    exact ⟨s, hr, by simpa using hs⟩

theorem stream_in_order_run : ∃ s, (streamMachine (fun _ => 0) fun _ => ⟨.null, []⟩).Reach BufferOk s ∧
    s.returned .supplicant = [65] ∧ s.reported .temple = [65] ∧
    s.returned .supplicant <+: s.reported .temple ++ (s.pc .temple).bytesSending := by
  obtain ⟨s, hr, hs⟩ := Machine.exists_reach (streamMachine (fun _ => 0) fun _ => ⟨.null, []⟩)
    BufferOk (fun s => s.returned .supplicant = [65] ∧ s.reported .temple = [65]) (oneByte 13)
    (by decide +kernel)
  simp only [decide_eq_true_eq] at hs
  exact ⟨s, hr, hs.1, hs.2, stream_in_order (by simp) (by simp) hr .temple⟩

end XcWindows.V2v
