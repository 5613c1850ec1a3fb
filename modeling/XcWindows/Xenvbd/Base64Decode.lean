import XcWindows.Lib.Base64
import XcWindows.Lib.Circ

/-!
# Decoding an inquiry page in place

`base64_decode_in_place` of `xenvbd/inquiry.c`. It writes into the buffer that it reads, three bytes for
four characters of the alphabet, so what is still to be read is never overwritten (`Refines.behind`),
and the loop does to the buffer what a decoder with an output of its own does (`Refines`).
-/

namespace XcWindows.Xenvbd.Base64Decode

open Lib Lib.Base64
open Function (update update_of_ne)

structure State where
  /-- `buf`, both `src` and `dest` -/
  buf : Nat → UInt8
  destOff : Nat
  srcBlock : List UInt8
  pad : Nat

namespace State

def start (buf : Nat → UInt8) : State := ⟨buf, 0, [], 0⟩

/-- `src_block[src_block_avail++] = value` -/
def add (s : State) (value : UInt8) : State := { s with srcBlock := s.srcBlock ++ [value] }

/-- A character that stands for `value`; `none` is `invalid_base64`. -/
def data (s : State) (value : UInt8) : Option State :=
  if s.pad ≠ 0 then none else some (s.add value)

/-- The character `=`. -/
def padding (s : State) : Option State :=
  if s.pad + 1 > 2 then none else some (({ s with pad := s.pad + 1 } : State).add 0)

/-- A full block is written to the buffer. -/
def write (s : State) : State :=
  match s.srcBlock with
  | [b₀, b₁, b₂, b₃] =>
    let buf := update s.buf (s.destOff + 2) (b₃ ||| (b₂ <<< 6))
    let buf := update buf (s.destOff + 1) ((b₂ >>> 2) ||| (b₁ <<< 4))
    let buf := update buf s.destOff ((b₁ >>> 4) ||| (b₀ <<< 2))
    { s with buf := buf, destOff := s.destOff + 3, srcBlock := [] }
  | _ => s

/-- The classes of characters. -/
def classify (s : State) (c : UInt8) : Option State :=
  if c = 61 then s.padding
  else if c ≥ 65 ∧ c ≤ 90 then s.data (c - 65)
  else if c ≥ 97 ∧ c ≤ 122 then s.data (c - 97 + 26)
  else if c ≥ 48 ∧ c ≤ 57 then s.data (c - 48 + 52)
  else if c = 43 then s.data 62
  else if c = 47 then s.data 63
  else some s

/-- The body of the loop. -/
def turn (s : State) (srcOff : Nat) : Option State := (s.classify (s.buf srcOff)).map write

end State

/-- The loop over the first `inBufSize` characters. -/
def decodeLoop (buf : Nat → UInt8) (inBufSize : Nat) : Option State :=
  (List.range inBufSize).foldlM State.turn (State.start buf)

/-- `base64_decode_in_place`: the buffer and `*out_buf_size`; `none` is `STATUS_INVALID_PARAMETER`. -/
def base64DecodeInPlace (buf : Nat → UInt8) (inBufSize : Nat) : Option ((Nat → UInt8) × Nat) :=
  match decodeLoop buf inBufSize with
  | none => none
  | some s => if s.srcBlock.length ≠ 0 ∨ s.pad > s.destOff then none else some (s.buf, s.destOff - s.pad)

/-! ## The decoder beside it -/

/-- After `srcOff` characters the state is that of the decoder `d`; no character that is still to be
read was overwritten. -/
structure Refines (text : Nat → UInt8) (srcOff : Nat) (s : State) (d : Decoder) : Prop where
  unread : ∀ i, srcOff ≤ i → s.buf i = text i
  out : bytes s.buf 0 s.destOff = d.out
  block : s.srcBlock = d.block
  pad : s.pad = d.pads
  short : d.block.length < 4
  /-- three bytes are written for four characters -/
  behind : 4 * s.destOff + 3 * d.block.length ≤ 3 * srcOff

variable {text : Nat → UInt8} {srcOff : Nat} {s s' : State} {d : Decoder}

theorem refines_start (text : Nat → UInt8) : Refines text 0 (State.start text) Decoder.init where
  unread _ _ := rfl
  out := rfl
  block := rfl
  pad := rfl
  short := Nat.zero_lt_succ 3
  behind := le_refl 0

theorem Refines.destOff_le (h : Refines text srcOff s d) : s.destOff ≤ srcOff := by
  have := h.behind
  omega

theorem Refines.skip (h : Refines text srcOff s d) : Refines text (srcOff + 1) s d :=
  { h with
    unread := fun i hi => h.unread i (by omega)
    behind := by have := h.behind; omega }

theorem bytes_update_of_le {buf : Nat → UInt8} {n i : Nat} (h : n ≤ i) (v : UInt8) :
    bytes (update buf i v) 0 n = bytes buf 0 n :=
  bytes_congr fun _ _ hj => update_of_ne (by omega) _ _

theorem bytes_succ (buf : Nat → UInt8) (n : Nat) : bytes buf 0 (n + 1) = bytes buf 0 n ++ [buf n] := by
  simp [bytes, List.range_succ]

theorem State.write_short (h : s.srcBlock.length ≠ 4) : s.write = s := by
  unfold State.write
  split
  case h_1 hblock => simp [hblock] at h
  case h_2 => rfl

theorem put_full {v₀ v₁ v₂ : UInt8} (h : d.block = [v₀, v₁, v₂]) (v : UInt8) :
    d.put v = ⟨d.out ++ [(v₁ >>> 4) ||| (v₀ <<< 2), (v₂ >>> 2) ||| (v₁ <<< 4), v ||| (v₂ <<< 6)], [],
      d.pads⟩ := by
  simp [Decoder.put, h]

theorem put_short (h : d.block.length ≠ 3) (v : UInt8) :
    d.put v = ⟨d.out, d.block ++ [v], d.pads⟩ := by
  unfold Decoder.put
  split
  case h_1 hblock => simp [hblock] at h
  case h_2 => rfl

theorem Refines.add (h : Refines text srcOff s d) (v : UInt8) :
    Refines text (srcOff + 1) (s.add v).write (d.put v) := by
  have hshort := h.short
  have hbehind := h.behind
  by_cases hfull : d.block.length = 3
  · obtain ⟨v₀, v₁, v₂, hblock⟩ := List.length_eq_three.1 hfull
    have hwrite : (s.add v).write =
        { s with
          buf := update (update (update s.buf (s.destOff + 2)
            (v ||| (v₂ <<< 6))) (s.destOff + 1) ((v₂ >>> 2) ||| (v₁ <<< 4))) s.destOff
            ((v₁ >>> 4) ||| (v₀ <<< 2))
          destOff := s.destOff + 3
          srcBlock := [] } := by
      simp [State.write, State.add, h.block, hblock]
    rw [hwrite, put_full hblock]
    refine ⟨fun i hi => ?_, ?_, rfl, h.pad, Nat.zero_lt_succ 3, ?_⟩
    · simp only
      rw [update_of_ne (by omega), update_of_ne (by omega),
        update_of_ne (by omega)]
      exact h.unread i (by omega)
    · simp only
      rw [bytes_succ, bytes_succ, bytes_succ, bytes_update_of_le (Nat.le_refl _),
        bytes_update_of_le (Nat.le_succ _), bytes_update_of_le (Nat.le_add_right _ 2), h.out]
      simp
    · simp only [List.length_nil]
      omega
  · rw [State.write_short (by simpa [State.add, h.block] using hfull), put_short hfull]
    refine ⟨fun i hi => h.unread i (by omega), h.out, by simp [State.add, h.block], h.pad, ?_, ?_⟩
    · rw [List.length_append, List.length_singleton]
      omega
    · simp only [State.add, List.length_append, List.length_singleton]
      omega

theorem Refines.countPad (h : Refines text srcOff s d) :
    Refines text srcOff { s with pad := s.pad + 1 } { d with pads := d.pads + 1 } :=
  { h with pad := by simp [h.pad] }

theorem Refines.classify (h : Refines text srcOff s d) (c : UInt8) :
    (s.classify c = none ∧ d.feed c = none) ∨
    ∃ s' d', (s.classify c).map State.write = some s' ∧ d.feed c = some d' ∧
      Refines text (srcOff + 1) s' d' := by
  by_cases hc : c = 61
  · subst hc
    unfold State.classify State.padding Decoder.feed
    have hpads := h.pad
    rw [if_pos rfl, if_pos rfl]
    by_cases hpad : d.pads < 2
    · rw [if_neg (by omega), if_pos hpad]
      exact .inr ⟨_, _, rfl, rfl, h.countPad.add 0⟩
    · rw [if_pos (by omega), if_neg hpad]
      exact .inl ⟨rfl, rfl⟩
  -- a character is of at most one class
  have hclass : s.classify c = (value c).elim (some s) s.data := by
    unfold State.classify value
    rw [if_neg hc]
    split
    · rfl
    split
    · rfl
    split
    · rfl
    split
    · rfl
    split <;> rfl
  unfold Decoder.feed
  rw [hclass, if_neg hc]
  cases value c with
  | none =>
    refine .inr ⟨s, d, ?_, rfl, h.skip⟩
    rw [Option.elim_none, Option.map_some, State.write_short]
    rw [h.block]
    exact Nat.ne_of_lt h.short
  | some v =>
    simp only [Option.elim_some, State.data, h.pad]
    by_cases hpad : d.pads = 0
    · rw [if_neg (by simp [hpad]), if_pos hpad]
      exact .inr ⟨_, _, rfl, rfl, h.add v⟩
    · rw [if_pos hpad, if_neg hpad]
      exact .inl ⟨rfl, rfl⟩

theorem decodeLoop_succ (buf : Nat → UInt8) (n : Nat) :
    decodeLoop buf (n + 1) = (decodeLoop buf n).bind fun s => s.turn n := by
  simp [decodeLoop, List.range_succ, List.foldlM_append]

theorem decodeLoop_refines (text : Nat → UInt8) (n : Nat) :
    (decodeLoop text n = none ∧ Decoder.init.run (bytes text 0 n) = none) ∨
    ∃ s d, decodeLoop text n = some s ∧ Decoder.init.run (bytes text 0 n) = some d ∧
      Refines text n s d := by
  induction n with
  | zero => exact .inr ⟨_, _, rfl, rfl, refines_start text⟩
  | succ n ih =>
    rw [decodeLoop_succ, bytes_succ, Decoder.run_append]
    obtain ⟨hs, hd⟩ | ⟨s, d, hs, hd, h⟩ := ih
    · exact .inl ⟨by rw [hs]; rfl, by rw [hd]; rfl⟩
    rw [hs, hd]
    simp only [Option.bind_some, Decoder.run_cons, Decoder.run_nil, State.turn,
      h.unread n (Nat.le_refl n)]
    obtain ⟨hs', hd'⟩ | ⟨s', d', hs', hd', h'⟩ := h.classify (text n)
    · exact .inl ⟨by rw [hs']; rfl, by rw [hd']; rfl⟩
    · exact .inr ⟨s', d', hs', by rw [hd']; rfl, h'⟩

/-- What stands for something in the first `n` characters. -/
def chars (buf : Nat → UInt8) (n : Nat) : List UInt8 := (bytes buf 0 n).filter inAlphabet

theorem decode_encoded {buf : Nat → UInt8} {n : Nat} {b : List UInt8} (h : chars buf n = encode b) :
    ∃ buf', base64DecodeInPlace buf n = some (buf', b.length) ∧ bytes buf' 0 b.length = b := by
  obtain ⟨tail, hrun⟩ := Decoder.run_encode b (d := Decoder.init) rfl rfl
  rw [← h, chars, Decoder.run_filter] at hrun
  obtain ⟨-, hd⟩ | ⟨s, d, hs, hd, href⟩ := decodeLoop_refines buf n
  · rw [hrun] at hd
    cases hd
  rw [hrun] at hd
  obtain rfl := Option.some.inj hd
  have hout : bytes s.buf 0 s.destOff = b ++ tail := href.out
  have hlen : s.destOff = b.length + tail.length := by
    have := congrArg List.length hout
    simpa using this
  refine ⟨s.buf, ?_, ?_⟩
  · unfold base64DecodeInPlace
    rw [hs]
    simp only [href.block, href.pad, hlen]
    rw [if_neg (by simp), Nat.add_sub_cancel]
  · have htake : bytes s.buf 0 b.length = (bytes s.buf 0 s.destOff).take b.length := by
      simp [bytes, ← List.map_take, List.take_range, hlen]
    rw [htake, hout, List.take_left]

theorem wholeGroups_of_decode {buf buf' : Nat → UInt8} {n size : Nat}
    (h : base64DecodeInPlace buf n = some (buf', size)) : WholeGroups (chars buf n) := by
  unfold base64DecodeInPlace at h
  obtain ⟨hs, -⟩ | ⟨s, d, hs, hd, href⟩ := decodeLoop_refines buf n
  · rw [hs] at h
    cases h
  rw [hs] at h
  simp only at h
  split at h
  · cases h
  next hok =>
    have hblock : d.block = [] := by
      rw [← href.block]
      exact List.eq_nil_of_length_eq_zero (by omega)
    refine wholeGroups_of_run (fun c hc => (List.mem_filter.1 hc).2) ?_ hblock
    rw [chars, Decoder.run_filter]
    exact hd

/-- What was encoded is decoded whatever stands between its characters, a text that is not made of
whole groups is refused, and when `src_off` characters were read the buffer is unchanged from there on,
with the write position not above. -/
theorem base64_decode (buf : Nat → UInt8) (n : Nat) :
    (∀ b, chars buf n = encode b →
      ∃ buf', base64DecodeInPlace buf n = some (buf', b.length) ∧ bytes buf' 0 b.length = b) ∧
    (¬WholeGroups (chars buf n) → base64DecodeInPlace buf n = none) ∧
    ∀ srcOff ≤ n, ∀ s, decodeLoop buf srcOff = some s →
      s.destOff ≤ srcOff ∧ ∀ i, srcOff ≤ i → s.buf i = buf i := by
  refine ⟨fun b h => decode_encoded h, fun hbad => ?_, fun srcOff _ s hs => ?_⟩
  · cases hdec : base64DecodeInPlace buf n with
    | none => rfl
    | some r => exact absurd (wholeGroups_of_decode hdec) hbad
  · obtain ⟨hnone, -⟩ | ⟨s', d, hs', -, h⟩ := decodeLoop_refines buf srcOff
    · rw [hnone] at hs
      cases hs
    · rw [hs'] at hs
      obtain rfl := Option.some.inj hs
      exact ⟨h.destOff_le, h.unread⟩

end XcWindows.Xenvbd.Base64Decode
