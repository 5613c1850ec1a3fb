import Mathlib.Data.Nat.Find
import XcWindows.V4v.CopyOut
import XcWindows.V4v.Accepter

/-!
# Draining the listener's ring

Whether the loop of `V4vProcessListenerReads` ends with an empty ring, for any content of the ring
and any outcome of the allocations. A turn either takes bytes off the ring (`turn_eats`), or it
leaves the ring and what it will decide next as they are (`turn_stuck`): the allocation for a data
message failed, or the accepter belongs to another ring. The RST of an accepted connection leaves
the loop without being read. `listener_drains_iff` says exactly when the ring is drained.
-/

namespace XcWindows.V4v

open Lib

/-! ### Reading a message off any ring -/

section Ring
variable {r : Ring}

theorem Formed.tx_eq (h : Formed r) (hs : r.len ≤ 2147483648) :
    r.txPtr = (r.rxPtr + v4vRingBytesToRead r) % r.len := by
  have h1 := h.rx_lt
  have h2 := h.tx_lt
  unfold v4vRingBytesToRead
  simp only [sub32, u32]
  rcases Nat.lt_or_ge r.txPtr r.rxPtr with hlt | hge
  · rw [if_neg (by omega), show r.rxPtr + (r.len + (r.txPtr + (4294967296 - r.rxPtr % 4294967296)) %
      4294967296) % 4294967296 = r.txPtr + r.len by omega, Nat.add_mod_right, Nat.mod_eq_of_lt h2]
  · rw [if_pos (by omega), show r.rxPtr + (r.txPtr + (4294967296 - r.rxPtr % 4294967296)) %
      4294967296 = r.txPtr by omega, Nat.mod_eq_of_lt h2]

theorem Formed.dvd_bytesToRead (h : Formed r) : 16 ∣ v4vRingBytesToRead r := by
  obtain ⟨a, ha⟩ := h.len16
  obtain ⟨b, hb⟩ := h.rx16
  obtain ⟨c, hc⟩ := h.tx16
  unfold v4vRingBytesToRead
  simp only [sub32, u32]
  split <;> omega

/-- There is a slot to read unless the indices meet. -/
theorem Formed.bytesToRead_pos (h : Formed r) (hs : r.len ≤ 2147483648) (hne : r.rxPtr ≠ r.txPtr) :
    0 < v4vRingBytesToRead r := by
  rcases Nat.eq_zero_or_pos (v4vRingBytesToRead r) with h0 | hp
  · have := h.tx_eq hs
    rw [h0, Nat.add_zero, Nat.mod_eq_of_lt h.rx_lt] at this
    exact absurd this.symm hne
  · exact hp

/-- The index behind a message whose length counts its header. -/
theorem Formed.pieces (h : Formed r) (hs : r.len ≤ 2147483648) {len d : Nat}
    (hh : v4vHeader r = some (len, d)) (hL : headerSize ≤ u32At r.ring r.rxPtr) (t : Nat) :
    ∃ n, 16 ≤ n ∧ 16 ∣ n ∧ n ≤ v4vRingBytesToRead r ∧
      (v4vPieces r len d t).2.2 = (r.rxPtr + n) % r.len := by
  obtain ⟨-, h2, hl, hd, -, -⟩ := h.header hh
  have hlt := h.bytesToRead_lt
  have h16 := h.dvd_bytesToRead
  have hlen : u32At r.ring r.rxPtr = headerSize + len := by
    simp only [headerSize, sub32] at hl hL ⊢
    omega
  -- the same memory with the message as its only one
  let m : Msg := ⟨addrAt r.ring (r.rxPtr + 4), u32At r.ring (r.rxPtr + 12),
    window r.ring r.len (r.rxPtr + headerSize) len⟩
  have hml : m.data.length = len := length_window _ _ _ _
  have hspan : m.span ≤ v4vRingBytesToRead r := by
    simp only [Msg.span, hml, headerSize] at hlen ⊢
    omega
  have hold : Holds { r with txPtr := (r.rxPtr + m.span) % r.len } [m] := by
    refine ⟨Nat.lt_of_le_of_lt (Nat.zero_le _) h.rx_lt, h.len16, hs, h.rx16, h.rx_lt, ?_, ?_, ?_⟩
    · simp only [span_cons, span_nil, Nat.add_zero]
      omega
    · simp only [span_cons, span_nil, Nat.add_zero]
    · refine ⟨?_, ?_, ?_, ?_, trivial⟩
      · simp only [Nat.mod_eq_of_lt h.rx_lt]
        rw [hlen, hml]
      · simp only [Nat.mod_eq_of_lt h.rx_lt]
        rfl
      · simp only [Nat.mod_eq_of_lt h.rx_lt]
        rfl
      · rw [hml]
  obtain ⟨_, _, _, _, hp, -⟩ := hold.pieces t
  refine ⟨m.span, Nat.le_trans (Nat.le_add_right 16 _) m.le_span, m.dvd_span, hspan, ?_⟩
  have e : v4vPieces r len d t = v4vPieces { r with txPtr := (r.rxPtr + m.span) % r.len }
      m.data.length ((r.rxPtr + headerSize) % r.len) t := by
    rw [hml, hd]; rfl
  rw [e, hp]

end Ring

/-- Something was read: only `rx_ptr` has moved, and less is left. -/
structure Ate (r r' : Ring) : Prop where
  only : r' = { r with rxPtr := r'.rxPtr }
  formed : Formed r'
  less : v4vRingBytesToRead r' < v4vRingBytesToRead r

theorem Ate.trans {r₁ r₂ r₃ : Ring} (h : Ate r₁ r₂) (h' : Ate r₂ r₃) : Ate r₁ r₃ := by
  refine ⟨?_, h'.formed, Nat.lt_trans h'.less h.less⟩
  rw [h'.only, h.only]

theorem Ate.len {r r' : Ring} (h : Ate r r') : r'.len = r.len := by rw [h.only]

section Ate
variable {r : Ring}

theorem ate_advance (h : Formed r) (hs : r.len ≤ 2147483648) {n : Nat} (hn : 16 ≤ n) (h16 : 16 ∣ n)
    (hle : n ≤ v4vRingBytesToRead r) : Ate r { r with rxPtr := (r.rxPtr + n) % r.len } := by
  have hpos : 0 < r.len := by have := h.rx_lt; omega
  have hf : Formed { r with rxPtr := (r.rxPtr + n) % r.len } :=
    ⟨h.len16, h.len_lt, (Nat.dvd_mod_iff h.len16).mpr (Nat.dvd_add h.rx16 h16), h.tx16,
      Nat.mod_lt _ hpos, h.tx_lt⟩
  refine ⟨rfl, hf, ?_⟩
  have h1 := h.tx_eq hs
  have h2 := hf.tx_eq hs
  have h3 := hf.bytesToRead_lt
  have h4 := h.bytesToRead_lt
  simp only at h2 h3
  rw [Nat.mod_add_mod, Nat.add_assoc] at h2
  generalize v4vRingBytesToRead { r with rxPtr := (r.rxPtr + n) % r.len } = b' at h2 h3 ⊢
  have e : b' = v4vRingBytesToRead r - n := by
    have hc : (r.rxPtr + (n + b')) % r.len =
        (r.rxPtr + (n + (v4vRingBytesToRead r - n))) % r.len := by
      rw [← h2, show n + (v4vRingBytesToRead r - n) = v4vRingBytesToRead r by omega]
      exact h1
    rcases Nat.le_total b' (v4vRingBytesToRead r - n) with hle' | hle'
    · have := mod_inj (by omega) (by omega) hc
      omega
    · have := mod_inj (by omega) (by omega) hc.symm
      omega
  omega

theorem ate_recover (h : Formed r) (hs : r.len ≤ 2147483648) (hne : r.rxPtr ≠ r.txPtr) :
    Ate r { r with rxPtr := r.txPtr } := by
  refine ⟨rfl, ⟨h.len16, h.len_lt, h.tx16, h.tx16, h.tx_lt, h.tx_lt⟩, ?_⟩
  have h0 : v4vRingBytesToRead { r with rxPtr := r.txPtr } = 0 := by
    have := h.tx_lt
    simp only [v4vRingBytesToRead, sub32]
    rw [if_pos (by omega)]
    omega
  rw [h0]
  exact h.bytesToRead_pos hs hne

/-- What both readers leave of the ring. -/
theorem ate_pieces (h : Formed r) (hs : r.len ≤ 2147483648)
    (hL : headerSize ≤ u32At r.ring r.rxPtr) {len d : Nat} (hh : v4vHeader r = some (len, d))
    (t : Nat) : Ate r { r with rxPtr := (v4vPieces r len d t).2.2 } := by
  obtain ⟨n, h1, h2, h3, e⟩ := h.pieces hs hh hL t
  rw [e]
  exact ate_advance h hs h1 h2 h3

theorem ate_copyOut (h : Formed r) (hs : r.len ≤ 2147483648)
    (hL : headerSize ≤ u32At r.ring r.rxPtr) {buf : Bool} {t : Nat} {p : Copied}
    (hp : v4vCopyOut r buf t true = some p) : Ate r p.ring := by
  obtain ⟨⟨len, d⟩, hh, rfl⟩ := Option.map_eq_some_iff.mp hp
  exact ate_pieces h hs hL hh t

theorem ate_copyOutOffset (h : Formed r) (hs : r.len ≤ 2147483648)
    (hL : headerSize ≤ u32At r.ring r.rxPtr) {buf : Bool} {t skip : Nat} {p : Copied}
    (hp : v4vCopyOutOffset r buf t true skip = some p) : Ate r p.ring := by
  obtain ⟨⟨len, d⟩, hh, rfl⟩ := Option.map_eq_some_iff.mp hp
  exact ate_pieces h hs hL hh t

/-- The next message is readable: its length counts its header and fits the ring. -/
structure Readable (r : Ring) : Prop where
  counted : headerSize ≤ u32At r.ring r.rxPtr
  header : ∃ len d, v4vHeader r = some (len, d) ∧ ¬ int32 len < 0

/-- A peek that does not fail has seen a readable message. -/
theorem readable_of_peek (h : Formed r) (hp : peekStream r ≠ .unreadable) : Readable r := by
  unfold peekStream at hp
  split at hp
  · exact absurd rfl hp
  next p hc =>
  split at hp
  · exact absurd rfl hp
  next hret =>
  obtain ⟨⟨len, d⟩, hh, rfl⟩ := Option.map_eq_some_iff.mp hc
  obtain ⟨h1, h2, hl, -⟩ := h.header hh
  have hlt := h.bytesToRead_lt
  refine ⟨?_, len, d, hh, hret⟩
  simp only [int32] at hret
  simp only [headerSize, sub32] at h1 hl ⊢
  split at hret <;> omega

theorem Readable.copyOut (hr : Readable r) (h : Formed r) (hs : r.len ≤ 2147483648) (buf : Bool)
    (t : Nat) : ∃ p, v4vCopyOut r buf t true = some p ∧ ¬ p.ret < 0 ∧ Ate r p.ring := by
  obtain ⟨len, d, hh, hret⟩ := hr.header
  cases hc : v4vCopyOut r buf t true with
  | none => simp [v4vCopyOut, hh] at hc
  | some p =>
    refine ⟨p, rfl, ?_, ate_copyOut h hs hr.counted hc⟩
    simp only [v4vCopyOut, hh, Option.map_some, Option.some.injEq] at hc
    rw [← hc]
    exact hret

theorem Readable.copyOutOffset (hr : Readable r) (h : Formed r) (hs : r.len ≤ 2147483648)
    (buf : Bool) (t skip : Nat) :
    ∃ p, v4vCopyOutOffset r buf t true skip = some p ∧ ¬ p.ret < 0 ∧ Ate r p.ring := by
  obtain ⟨len, d, hh, hret⟩ := hr.header
  cases hc : v4vCopyOutOffset r buf t true skip with
  | none => simp [v4vCopyOutOffset, hh] at hc
  | some p =>
    refine ⟨p, rfl, ?_, ate_copyOutOffset h hs hr.counted hc⟩
    simp only [v4vCopyOutOffset, hh, Option.map_some, Option.some.injEq] at hc
    rw [← hc]
    exact hret

end Ate

/-! ### One turn -/

/-- The turn reads the message it looked at: for data, the accepter is on the listener's ring, and
the message finds a read IRP or an entry for the data queue. -/
def Takes (w : World) (alloc : Bool) : Prop :=
  match listenerDecision w with
  | .done => False
  | .disconnect _ _ _ => False
  | .data c _ _ dlen => Shares w c ∧
      (alloc = true ∨ (takeReadIrp (v4vProcessAccepterReads w c true).1 c dlen).1.isSome = true)
  | _ => True

/-- The message behind a SYN has a length that counts its header. -/
def SynFollowed (w : World) : Prop :=
  ∀ src sh, listenerDecision w = .syn src sh →
    ∀ p, v4vCopyOut (w.ringOf w.listener) true streamSize true = some p →
      (v4vHeader p.ring).isSome → headerSize ≤ u32At p.ring.ring p.ring.rxPtr

theorem decision_done_iff {w : World} : listenerDecision w = .done ↔
    (w.ringOf w.listener).rxPtr = (w.ringOf w.listener).txPtr := by
  constructor
  · intro h
    unfold listenerDecision at h
    simp only at h
    repeat' split at h
    all_goals first
      | assumption
      | cases h
  · intro h
    simp [listenerDecision, h]

theorem decision_peek {w : World} (hd : listenerDecision w ≠ .done) :
    (w.ringOf w.listener).rxPtr ≠ (w.ringOf w.listener).txPtr ∧
      (listenerDecision w ≠ .recover → peekStream (w.ringOf w.listener) ≠ .unreadable) := by
  unfold listenerDecision at hd ⊢
  simp only at hd ⊢
  split at hd
  · exact absurd rfl hd
  next hne =>
  refine ⟨hne, fun hr hp => ?_⟩
  rw [if_neg hne, hp] at hr
  exact hr rfl

section Turn
variable {w : World}

theorem ringOf_recover (c : Nat) :
    (v4vRecoverRing w c).ringOf c = { w.ringOf c with rxPtr := (w.ringOf c).txPtr } :=
  ringOf_setRing w c _

/-- A disconnect reads nothing. -/
theorem ringOf_disconnect (c c' : Nat) :
    (v4vDisconnectStreamAndSignal w c).ringOf c' = w.ringOf c' := by
  simp only [v4vDisconnectStreamAndSignal, World.setCtx, World.ringOf]
  by_cases e : c' = c
  · subst e; rw [Function.update_self]
  · rw [Function.update_of_ne e]

theorem consume_eats {c : Nat} (hf : Formed (w.ringOf c)) (hs : (w.ringOf c).len ≤ 2147483648)
    (hr : Readable (w.ringOf c)) : Ate (w.ringOf c) ((consume w c).ringOf c) := by
  obtain ⟨p, hc, -, he⟩ := hr.copyOut hf hs false 0
  simp only [consume, hc]
  rw [ringOf_setRing]
  exact he

/-- Whatever is behind a message may be dropped with it. -/
theorem consume_eats_more {c : Nat} (hf : Formed (w.ringOf c))
    (hs : (w.ringOf c).len ≤ 2147483648)
    (hL : (v4vHeader (w.ringOf c)).isSome →
      headerSize ≤ u32At (w.ringOf c).ring (w.ringOf c).rxPtr) :
    (consume w c).ringOf c = w.ringOf c ∨ Ate (w.ringOf c) ((consume w c).ringOf c) := by
  unfold consume
  split
  · exact .inl rfl
  · next p hc =>
    rw [ringOf_setRing]
    refine .inr (ate_copyOut hf hs (hL ?_) hc)
    obtain ⟨q, hh, -⟩ := Option.map_eq_some_iff.mp hc
    simp [hh]

theorem listenerSyn_eats (passive : Bool) (acks : List Bool) (hf : Formed (w.ringOf w.listener))
    (hs : (w.ringOf w.listener).len ≤ 2147483648) (hr : Readable (w.ringOf w.listener))
    (hsyn : passive = true → ∀ p, v4vCopyOut (w.ringOf w.listener) true streamSize true = some p →
      (v4vHeader p.ring).isSome → headerSize ≤ u32At p.ring.ring p.ring.rxPtr) :
    Ate (w.ringOf w.listener) ((listenerSyn w passive acks).ringOf w.listener) := by
  obtain ⟨p, hc, hret, heat⟩ := hr.copyOut hf hs true streamSize
  have hring := ringOf_setRing w w.listener p.ring
  simp only [listenerSyn, hc, if_neg hret]
  split
  · next hpas =>
    rw [ringOf_reset]
    have hmore := consume_eats_more (w := w.setRing (w.ctx w.listener).ringObject p.ring)
      (c := w.listener) (by rw [hring]; exact heat.formed) (by rw [hring, heat.len]; exact hs)
      (by rw [hring]; exact hsyn hpas p hc)
    rw [hring] at hmore
    rcases hmore with e | he
    · rw [← e] at heat
      exact heat
    · exact heat.trans he
  · have hpre := (preAccept_ringOf (w.setRing (w.ctx w.listener).ringObject p.ring)
      (streamOf p.data) p.source acks).2
    exact (hpre.trans hring).symm ▸ heat

theorem readToIrp_eats {c : Nat} (dlen : Nat) (irp : ReadIrp) (hf : Formed (w.ringOf c))
    (hs : (w.ringOf c).len ≤ 2147483648) (hr : Readable (w.ringOf c)) :
    Ate (w.ringOf c) ((readToIrp w c dlen irp).ringOf c) := by
  obtain ⟨p, hc, hret, heat⟩ := hr.copyOutOffset hf hs true (dlen + streamSize) streamSize
  have hc' : v4vCopyOutOffset (World.ringOf { w with
      assertFailed := w.assertFailed || !(w.ctx c).dataList.isEmpty } c) true (dlen + streamSize)
      true streamSize = some p := hc
  simp only [readToIrp, hc', if_neg hret]
  exact (ringOf_setRing w c p.ring).symm ▸ heat

theorem readToQueue_eats {c : Nat} (dlen : Nat) (hf : Formed (w.ringOf c))
    (hs : (w.ringOf c).len ≤ 2147483648) (hr : Readable (w.ringOf c)) :
    ∃ w' pd, readToQueue w c dlen = (w', some pd) ∧ Ate (w.ringOf c) (w'.ringOf c) := by
  obtain ⟨p, hc, hret, heat⟩ := hr.copyOutOffset hf hs true dlen streamSize
  refine ⟨w.setRing (w.ctx c).ringObject p.ring, ⟨p.data, u32 (dlen - streamSize)⟩, ?_, ?_⟩
  · simp only [readToQueue, hc, if_neg hret]
  · rw [ringOf_setRing]
    exact heat

theorem bufferedReads_eats {c dlen : Nat} {alloc : Bool} (hf : Formed (w.ringOf w.listener))
    (hs : (w.ringOf w.listener).len ≤ 2147483648) (hr : Readable (w.ringOf w.listener))
    (hsh : Shares w c) (ht : alloc = true ∨
      (takeReadIrp (v4vProcessAccepterReads w c true).1 c dlen).1.isSome = true) :
    Ate (w.ringOf w.listener)
      ((v4vProcessAccepterBufferedReads w c dlen alloc).ringOf w.listener) := by
  have hout : (v4vProcessAccepterBufferedReads w c dlen alloc).ringOf w.listener =
      (v4vProcessAccepterBufferedReads w c dlen alloc).ringOf c := by
    have hsame := (bufferedReads_onRing w c dlen alloc).toSame
    rw [hsame.ringOf, hsame.ringOf, hsh]
  rw [hout]
  obtain ⟨hd, -⟩ := accepterReads_spec (w := w) c true (Nat.lt_succ_self _)
  simp only [v4vProcessAccepterBufferedReads, v4vProcessAccepterReads] at ht ⊢
  generalize accepterReads (w.irps.length + 1) w c true = dr at hd ht ⊢
  obtain ⟨hd', -, -⟩ := takeReadIrp_spec dr.1 c dlen
  have hd := hd.trans hd'
  have hring : (takeReadIrp dr.1 c dlen).2.ringOf c = w.ringOf w.listener := by
    rw [hd.toSame.ringOf, hd.rings, hsh]
    rfl
  cases hti : takeReadIrp dr.1 c dlen with
  | mk o w' =>
    rw [hti] at hring ht
    simp only at hring ht
    cases o with
    | some irp =>
      rw [← hring] at hf hs hr ⊢
      exact readToIrp_eats dlen irp hf hs hr
    | none =>
      have ha : alloc = true := by simpa using ht
      rw [← hring] at hf hs hr ⊢
      obtain ⟨w'', pd, hq, heat⟩ := readToQueue_eats dlen hf hs hr
      simp only [ha, if_true, hq]
      rw [(same_chainData w'' c pd dr.2).ringOf, rings_chainData]
      exact heat

/-- A turn that takes its message leaves less to read. -/
theorem turn_eats (passive : Bool) (env : Env) (hf : Formed (w.ringOf w.listener))
    (hs : (w.ringOf w.listener).len ≤ 2147483648) (ht : Takes w env.alloc)
    (hsyn : passive = true → SynFollowed w) :
    (listenerApply w passive env (listenerDecision w)).2 = true ∧
      (listenerApply w passive env (listenerDecision w)).1.listener = w.listener ∧
      Ate (w.ringOf w.listener)
        ((listenerApply w passive env (listenerDecision w)).1.ringOf w.listener) := by
  have hnd : listenerDecision w ≠ .done := by
    intro e
    simp [Takes, e] at ht
  obtain ⟨hne, hpk⟩ := decision_peek hnd
  have hr : listenerDecision w ≠ .recover → Readable (w.ringOf w.listener) :=
    fun h => readable_of_peek hf (hpk h)
  unfold Takes at ht
  cases hd : listenerDecision w with
  | done => exact absurd hd hnd
  | disconnect c src sh => simp [hd] at ht
  | recover =>
    refine ⟨rfl, rfl, ?_⟩
    simp only [listenerApply]
    rw [ringOf_recover]
    exact ate_recover hf hs hne
  | drop =>
    refine ⟨rfl, (keeps_consume w _).listener, ?_⟩
    exact consume_eats hf hs (hr (by simp [hd]))
  | syn src sh =>
    refine ⟨rfl, (keeps_listenerSyn w passive env.acks).listener, ?_⟩
    exact listenerSyn_eats passive env.acks hf hs (hr (by simp [hd])) fun hp => hsyn hp src sh hd
  | unknown src sh | stranger c src sh =>
    refine ⟨rfl, (listener_reset _ _ _).trans (keeps_consume w _).listener, ?_⟩
    simp only [listenerApply]
    rw [ringOf_reset]
    exact consume_eats hf hs (hr (by simp [hd]))
  | data c src sh dlen =>
    simp only [hd] at ht
    refine ⟨rfl, (bufferedReads_onRing w c dlen env.alloc).listener, ?_⟩
    exact bufferedReads_eats hf hs (hr (by simp [hd])) ht.1 ht.2

/-- A turn that does not take its message, and does not end the loop, will look at it again. -/
theorem turn_stuck (passive : Bool) (env : Env) (hd : listenerDecision w ≠ .done)
    (hnot : ∀ c src sh, listenerDecision w ≠ .disconnect c src sh) (ht : ¬ Takes w env.alloc) :
    (listenerApply w passive env (listenerDecision w)).2 = true ∧
      Same w (listenerApply w passive env (listenerDecision w)).1 ∧
      (listenerApply w passive env (listenerDecision w)).1.ringOf w.listener =
        w.ringOf w.listener := by
  unfold Takes at ht
  cases hdec : listenerDecision w with
  | done => exact absurd hdec hd
  | disconnect c src sh => exact absurd hdec (hnot c src sh)
  | recover | drop | syn | unknown | stranger => simp [hdec] at ht
  | data c src sh dlen =>
    simp only [hdec, not_and, not_or] at ht
    have hon := bufferedReads_onRing w c dlen env.alloc
    refine ⟨rfl, hon.toSame, ?_⟩
    by_cases hsh : Shares w c
    · obtain ⟨ha, hirp⟩ := ht hsh
      obtain ⟨hdr, -⟩ := accepterReads_spec (w := w) c true (Nat.lt_succ_self _)
      simp only [listenerApply, v4vProcessAccepterBufferedReads, v4vProcessAccepterReads] at hirp ⊢
      generalize accepterReads (w.irps.length + 1) w c true = dr at hdr hirp ⊢
      obtain ⟨hdr', -, -⟩ := takeReadIrp_spec dr.1 c dlen
      have hdr := hdr.trans hdr'
      cases hti : takeReadIrp dr.1 c dlen with
      | mk o w' =>
        rw [hti] at hdr hirp
        cases o with
        | some irp => simp at hirp
        | none =>
          simp only [ha]
          rw [if_neg Bool.false_ne_true, hdr.toSame.ringOf, hdr.rings]
          rfl
    · simp only [listenerApply]
      rw [hon.toSame.ringOf]
      exact hon.rings _ (Ne.symm hsh)

end Turn

/-! ### The loop -/

/-- The world before turn `n` of `V4vProcessListenerReads`, and whether the loop is still running. -/
def listenerLoop (passive : Bool) (env : Nat → Env) (w : World) : Nat → World × Bool
  | 0 => (w, true)
  | n + 1 =>
    let s := listenerLoop passive env w n
    if s.2 then listenerApply s.1 passive (env n) (listenerDecision s.1) else s

section Loop
variable {passive : Bool} {env : Nat → Env} {w : World}

theorem listenerLoop_running {n : Nat} (h : (listenerLoop passive env w n).2 = true) :
    listenerLoop passive env w (n + 1) = listenerApply (listenerLoop passive env w n).1 passive
      (env n) (listenerDecision (listenerLoop passive env w n).1) := by
  simp only [listenerLoop, h, if_true]

theorem listenerLoop_stopped {n : Nat} (h : (listenerLoop passive env w n).2 = false) {m : Nat}
    (hle : n ≤ m) : listenerLoop passive env w m = listenerLoop passive env w n := by
  obtain ⟨k, rfl⟩ := Nat.exists_eq_add_of_le hle
  induction k with
  | zero => rfl
  | succ k ih =>
    have ih := ih (Nat.le_add_right n k)
    rw [← Nat.add_assoc, listenerLoop, ih]
    simp [h]

/-- The first turn, then the others. -/
theorem listenerLoop_succ (n : Nat) :
    listenerLoop passive env w (n + 1) =
      if (listenerApply w passive (env 0) (listenerDecision w)).2 then
        listenerLoop passive (fun i => env (i + 1))
          (listenerApply w passive (env 0) (listenerDecision w)).1 n
      else listenerApply w passive (env 0) (listenerDecision w) := by
  induction n with
  | zero =>
    simp only [listenerLoop, if_true]
    split
    · next h => exact Prod.ext rfl h
    · rfl
  | succ n ih =>
    rw [listenerLoop, ih]
    cases hb : (listenerApply w passive (env 0) (listenerDecision w)).2 with
    | true => simp only [if_true, listenerLoop]
    | false => simp [hb]

theorem listenerReads_eq_loop (n : Nat) :
    (v4vProcessListenerReads passive ((List.range n).map env) w).2 =
      if (listenerLoop passive env w n).2 then none else some (listenerLoop passive env w n).1 := by
  induction n generalizing env w with
  | zero => rfl
  | succ n ih =>
    rw [List.range_succ_eq_map, List.map_cons, List.map_map, listenerLoop_succ]
    by_cases hd : listenerDecision w = .done
    · simp [v4vProcessListenerReads, hd, listenerApply]
    · rw [listenerReads_step _ _ _ hd]
      simp only
      have hih := @ih (fun i => env (i + 1)) (listenerApply w passive (env 0) (listenerDecision w)).1
      cases hb : (listenerApply w passive (env 0) (listenerDecision w)).2 with
      | true =>
        simp only [if_true]
        exact hih
      | false => simp [hb]

/-- Within a finite number of turns the loop ends with nothing left to read. -/
def Drains (passive : Bool) (env : Nat → Env) (w : World) : Prop :=
  ∃ n w', (v4vProcessListenerReads passive ((List.range n).map env) w).2 = some w' ∧
    (w'.ringOf w'.listener).rxPtr = (w'.ringOf w'.listener).txPtr

theorem drains_iff_loop : Drains passive env w ↔ ∃ n, (listenerLoop passive env w n).2 = false ∧
    listenerDecision (listenerLoop passive env w n).1 = .done := by
  unfold Drains
  simp only [listenerReads_eq_loop]
  constructor
  · rintro ⟨n, w', h, he⟩
    split at h
    · cases h
    · next hb =>
      cases h
      exact ⟨n, by simpa using hb, decision_done_iff.mpr he⟩
  · rintro ⟨n, hb, hd⟩
    exact ⟨n, _, by simp [hb], decision_done_iff.mp hd⟩

/-- A turn that is running and makes no progress repeats itself until one takes the message. -/
theorem listenerLoop_waits {i : Nat} (hrun : (listenerLoop passive env w i).2 = true)
    (hd : listenerDecision (listenerLoop passive env w i).1 ≠ .done)
    (hnot : ∀ c src sh, listenerDecision (listenerLoop passive env w i).1 ≠ .disconnect c src sh)
    (k : Nat) (hwait : ∀ j, i ≤ j → j < i + k →
      ¬ Takes (listenerLoop passive env w j).1 (env j).alloc) :
    (listenerLoop passive env w (i + k)).2 = true ∧
      Same (listenerLoop passive env w i).1 (listenerLoop passive env w (i + k)).1 ∧
      (listenerLoop passive env w (i + k)).1.ringOf (listenerLoop passive env w i).1.listener =
        (listenerLoop passive env w i).1.ringOf (listenerLoop passive env w i).1.listener := by
  induction k with
  | zero => exact ⟨hrun, .refl _, rfl⟩
  | succ k ih =>
    obtain ⟨h1, hsame, hring⟩ := ih fun j h1 h2 => hwait j h1 (by omega)
    have hdec := hsame.decision hring
    obtain ⟨h2, hsame', hring'⟩ := turn_stuck passive (env (i + k)) (by rw [hdec]; exact hd)
      (by rw [hdec]; exact hnot) (hwait (i + k) (by omega) (by omega))
    rw [← Nat.add_assoc, listenerLoop_running h1]
    rw [hsame.listener] at hring'
    exact ⟨h2, hsame.trans hsame', hring'.trans hring⟩

/-- Every turn that is reached looks at no RST of an accepted connection, and is followed by a turn
that takes the message it looked at. -/
def NothingStuck (passive : Bool) (env : Nat → Env) (w : World) : Prop :=
  ∀ i, (listenerLoop passive env w i).2 = true →
    listenerDecision (listenerLoop passive env w i).1 ≠ .done →
    (∀ c src sh, listenerDecision (listenerLoop passive env w i).1 ≠ .disconnect c src sh) ∧
      ∃ j, i ≤ j ∧ Takes (listenerLoop passive env w j).1 (env j).alloc

/-- From any turn the loop comes to its end; by induction on the bytes to read, which the next turn
that takes a message lowers. -/
theorem listenerLoop_ends (hstuck : NothingStuck passive env w)
    (hsyn : ∀ i, (listenerLoop passive env w i).2 = true → passive = true →
      SynFollowed (listenerLoop passive env w i).1)
    (b i : Nat) (hrun : (listenerLoop passive env w i).2 = true)
    (hf : Formed ((listenerLoop passive env w i).1.ringOf (listenerLoop passive env w i).1.listener))
    (hs : ((listenerLoop passive env w i).1.ringOf
      (listenerLoop passive env w i).1.listener).len ≤ 2147483648)
    (hb : v4vRingBytesToRead ((listenerLoop passive env w i).1.ringOf
      (listenerLoop passive env w i).1.listener) = b) :
    ∃ n, (listenerLoop passive env w n).2 = false ∧
      listenerDecision (listenerLoop passive env w n).1 = .done := by
  induction b using Nat.strongRecOn generalizing i with
  | ind b ih =>
    by_cases hd : listenerDecision (listenerLoop passive env w i).1 = .done
    · refine ⟨i + 1, ?_⟩
      rw [listenerLoop_running hrun, hd]
      exact ⟨rfl, hd⟩
    obtain ⟨hnot, hex⟩ := hstuck i hrun hd
    -- the first turn that takes the message
    classical
    obtain ⟨hij, htake⟩ := Nat.find_spec hex
    have hmin : ∀ j, i ≤ j → j < Nat.find hex →
        ¬ Takes (listenerLoop passive env w j).1 (env j).alloc :=
      fun j h1 h2 ht => Nat.find_min hex h2 ⟨h1, ht⟩
    generalize Nat.find hex = j at hij htake hmin
    obtain ⟨k, rfl⟩ := Nat.exists_eq_add_of_le hij
    obtain ⟨hrun', hsame, hring⟩ := listenerLoop_waits hrun hd hnot k hmin
    have hring' : (listenerLoop passive env w (i + k)).1.ringOf
        (listenerLoop passive env w (i + k)).1.listener = (listenerLoop passive env w i).1.ringOf
        (listenerLoop passive env w i).1.listener := by rw [hsame.listener, hring]
    rw [← hring'] at hf hs hb
    obtain ⟨h1, h2, heat⟩ := turn_eats passive (env (i + k)) hf hs htake (hsyn _ hrun')
    rw [← listenerLoop_running hrun'] at h1 h2 heat
    rw [← h2] at heat hs hb
    refine ih _ (hb ▸ heat.less) (i + k + 1) h1 heat.formed ?_ rfl
    rw [heat.len]
    exact hs

end Loop

/-- The ring is drained exactly when nothing on it gets stuck. -/
theorem listener_drains_iff (passive : Bool) (env : Nat → Env) (w : World)
    (hf : Formed (w.ringOf w.listener)) (hs : (w.ringOf w.listener).len ≤ 2147483648)
    (hsyn : ∀ i, (listenerLoop passive env w i).2 = true → passive = true →
      SynFollowed (listenerLoop passive env w i).1) :
    Drains passive env w ↔ NothingStuck passive env w := by
  rw [drains_iff_loop]
  constructor
  · rintro ⟨n, hstop, hdone⟩ i hrun hd
    have hin : i < n := by
      by_contra hge
      rw [listenerLoop_stopped hstop (by omega), hstop] at hrun
      cases hrun
    have hnot : ∀ c src sh,
        listenerDecision (listenerLoop passive env w i).1 ≠ .disconnect c src sh := by
      intro c src sh e
      have hnext := listenerLoop_running hrun
      rw [e] at hnext
      have hst : (listenerLoop passive env w (i + 1)).2 = false := by rw [hnext]; rfl
      rw [listenerLoop_stopped hst (by omega), hnext] at hdone
      refine hd (decision_done_iff.mpr ?_)
      have hend := decision_done_iff.mp hdone
      simp only [listenerApply, ringOf_disconnect] at hend
      exact hend
    refine ⟨hnot, ?_⟩
    by_contra hno
    simp only [not_exists, not_and] at hno
    obtain ⟨k, rfl⟩ := Nat.exists_eq_add_of_lt hin
    obtain ⟨h1, -, -⟩ := listenerLoop_waits hrun hd hnot (k + 1) fun j hj _ => hno j hj
    rw [← Nat.add_assoc, hstop] at h1
    cases h1
  · intro h
    exact listenerLoop_ends h hsyn _ 0 rfl hf hs rfl

/-- A world with the message `m` on the ring of the listener. -/
def worldWith (m : Msg) : World :=
  { quietWorld with rings := fun _ => xenPut ⟨128, 0, 0, fun _ => 0⟩ m }

/-- A byte for the accepted context is on the ring. -/
def dataWorld : World := worldWith (dataMsg 65)

/-- The byte goes to the data queue of its accepter. -/
theorem listener_drains_iff_data : Drains false (fun _ => ⟨true, []⟩) dataWorld := by
  have h0 : listenerDecision dataWorld = .data 1 ⟨5, 3⟩ ⟨0, 7⟩ 9 := by decide +kernel
  have h1 : listenerDecision (listenerLoop false (fun _ => ⟨true, []⟩) dataWorld 1).1 = .done := by
    decide +kernel
  have h2 : (listenerLoop false (fun _ => ⟨true, []⟩) dataWorld 2).2 = false := by decide +kernel
  have hf : Formed (dataWorld.ringOf dataWorld.listener) :=
    ⟨by decide +kernel, by decide +kernel, by decide +kernel, by decide +kernel, by decide +kernel,
      by decide +kernel⟩
  have htake : Takes dataWorld true := by
    unfold Takes
    rw [h0]
    exact ⟨by decide +kernel, .inl rfl⟩
  have hiff := listener_drains_iff false (fun _ => ⟨true, []⟩) dataWorld hf (by decide +kernel)
    (fun _ _ h => absurd h Bool.false_ne_true)
  refine hiff.mpr fun i hrun hd => ?_
  rcases Nat.lt_or_ge i 2 with hi | hi
  · obtain rfl | rfl : i = 0 ∨ i = 1 := by omega
    · exact ⟨fun c src sh e => Decision.noConfusion (h0.symm.trans e), 0, Nat.le_refl 0, htake⟩
    · exact absurd h1 hd
  · rw [listenerLoop_stopped h2 hi, h2] at hrun
    cases hrun

/-- The RST of an accepted connection ends the loop and stays on the ring. -/
theorem listener_leaves_rst : ¬ Drains false (fun _ => ⟨true, []⟩)
    (worldWith ⟨⟨5, 3⟩, v4vProtoStream, [4, 0, 0, 0, 7, 0, 0, 0]⟩) := by
  have h1 : (listenerLoop false (fun _ => ⟨true, []⟩)
      (worldWith ⟨⟨5, 3⟩, v4vProtoStream, [4, 0, 0, 0, 7, 0, 0, 0]⟩) 1).2 = false := by
    decide +kernel
  have hd : listenerDecision (listenerLoop false (fun _ => ⟨true, []⟩)
      (worldWith ⟨⟨5, 3⟩, v4vProtoStream, [4, 0, 0, 0, 7, 0, 0, 0]⟩) 1).1 ≠ .done := by
    decide +kernel
  rw [drains_iff_loop]
  rintro ⟨n, hstop, hdone⟩
  match n with
  | 0 => cases hstop
  | n + 1 =>
    rw [listenerLoop_stopped h1 (by omega)] at hdone
    exact hd hdone

end XcWindows.V4v
