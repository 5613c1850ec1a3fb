import XcWindows.V4v.Ring

/-!
# What Xen puts on a ring is what the guest takes off it

`xenPutAll r ms` is an empty ring on which Xen has put the messages `ms`, `copyOuts` the guest's
successive consuming calls of `v4v_copy_out`. They return the messages in order and leave the ring
empty, wherever the ring starts and whatever its memory held before (`copy_out_round_trip`). The
`int32_t` difference in `v4v_ring_bytes_to_read` limits the length of a ring
(`copy_out_large_ring`).
-/

namespace XcWindows.V4v

open Lib

/-- What a caller of `v4v_copy_out` sees: its result, the out parameters and the buffer. -/
structure Received where
  ret : Int
  source : Addr
  protocol : Nat
  data : List UInt8
deriving DecidableEq

def Copied.received (c : Copied) : Received := ⟨c.ret, c.source, c.protocol, c.data⟩

/-- Successive consuming calls with buffers of the sizes `ts`, until one returns `-1`. -/
def copyOuts : Ring → List Nat → List Received × Ring
  | r, [] => ([], r)
  | r, t :: ts =>
    match v4vCopyOut r true t true with
    | none => ([], r)
    | some c =>
      let (rest, r') := copyOuts c.ring ts
      (c.received :: rest, r')

/-- The messages `ms` are put on the ring one after the other. -/
def xenPutAll (r : Ring) (ms : List Msg) : Ring := ms.foldl xenPut r

/-- The message as it should arrive in a buffer of `t` bytes. -/
def Msg.received (m : Msg) (t : Nat) : Received :=
  ⟨m.data.length, m.source, m.protocol, m.data.take (min t m.data.length)⟩

/-- An empty ring. -/
structure Empty (r : Ring) : Prop where
  pos : 0 < r.len
  len16 : 16 ∣ r.len
  rx16 : 16 ∣ r.rxPtr
  rx_lt : r.rxPtr < r.len
  tx : r.txPtr = r.rxPtr

section RoundTrip

variable {r : Ring} {ms : List Msg}

theorem Empty.holds (h : Empty r) (hsmall : r.len ≤ 2147483648) : Holds r [] := by
  refine ⟨h.pos, h.len16, hsmall, h.rx16, h.rx_lt, h.pos, ?_, trivial⟩
  rw [h.tx]
  exact (Nat.mod_eq_of_lt h.rx_lt).symm

theorem Holds.xenPutAll {as : List Msg} (h : Holds r as) (hf : ∀ m ∈ ms, m.Fits)
    (hroom : span (as ++ ms) < r.len) : Holds (xenPutAll r ms) (as ++ ms) := by
  induction ms generalizing r as with
  | nil => rw [List.append_nil]; exact h
  | cons m ms ih =>
    have happ : as ++ m :: ms = as ++ [m] ++ ms := by simp
    rw [happ] at hroom ⊢
    have hput : Holds (xenPut r m) (as ++ [m]) := by
      apply h.put (hf m (List.mem_cons_self ..))
      rw [span_append] at hroom
      omega
    exact ih hput (fun x hx => hf x (List.mem_cons_of_mem _ hx)) hroom

theorem take_min_length (t : Nat) (xs : List UInt8) : xs.take (min t xs.length) = xs.take t := by
  rw [List.take_eq_take_iff]
  omega

theorem Holds.copyOuts {ts : List Nat} (h : Holds r ms) (hts : ts.length = ms.length) :
    (copyOuts r ts).1 = List.zipWith Msg.received ms ts ∧ Holds (copyOuts r ts).2 [] := by
  induction ms generalizing r ts with
  | nil =>
    rw [List.length_eq_zero_iff.mp hts]
    exact ⟨rfl, h⟩
  | cons m ms ih =>
    obtain ⟨t, ts, rfl⟩ := List.exists_cons_of_length_eq_add_one hts
    obtain ⟨h1, h2⟩ := ih h.advance (Nat.succ.inj hts)
    unfold V4v.copyOuts
    rw [copyOut_holds h true t true]
    simp only [if_true]
    refine ⟨?_, h2⟩
    rw [List.zipWith_cons_cons, ← h1, Msg.received, take_min_length]
    rfl

end RoundTrip

/-- Consuming calls of `v4v_copy_out` take the messages off the ring in order; a call that does not
consume returns the same and leaves the ring alone. -/
theorem copy_out_round_trip {r : Ring} (h : Empty r) (hsmall : r.len ≤ 2147483648) {ms : List Msg}
    (hf : ∀ m ∈ ms, m.Fits) (hroom : span ms < r.len) {ts : List Nat}
    (hts : ts.length = ms.length) :
    (copyOuts (xenPutAll r ms) ts).1 = List.zipWith Msg.received ms ts ∧
      (copyOuts (xenPutAll r ms) ts).2.rxPtr = (copyOuts (xenPutAll r ms) ts).2.txPtr ∧
      ∀ (u : Ring) (buf : Bool) (t : Nat), v4vCopyOut u buf t false =
        (v4vCopyOut u buf t true).map fun c => { c with ring := u } := by
  have hold : Holds (xenPutAll r ms) ms := (h.holds hsmall).xenPutAll hf hroom
  obtain ⟨h1, h2⟩ := hold.copyOuts hts
  refine ⟨h1, h2.rx_eq_tx.mpr rfl, fun u buf t => ?_⟩
  unfold v4vCopyOut
  rw [Option.map_map]
  rfl

/-- An empty ring of a little more than 2 GiB. -/
def largeRing : Ring := ⟨2147483680, 0, 0, fun _ => 0⟩

theorem empty_largeRing : Empty largeRing := by
  constructor <;> simp [largeRing]

theorem header_largeRing {m : Msg} (hm : m.data.length = 2147483632) :
    ∀ i (hi : i < m.header.length), (xenPut largeRing m).ring (0 + i) = m.header[i] := by
  intro i hi
  have hlen : (m.header ++ m.data).length ≤ largeRing.len := by simp [largeRing, headerSize, hm]
  have hi' : i < (m.header ++ m.data).length := by simp at hi ⊢; omega
  have hhit := @circBlit_hit _ largeRing.ring largeRing.len 0 i _ empty_largeRing.pos hlen hi'
  have hmod : (0 + i) % largeRing.len = 0 + i := by
    apply Nat.mod_eq_of_lt
    simp only [Msg.length_header, headerSize, largeRing] at hi ⊢
    omega
  rw [List.getElem_append_left hi, Nat.zero_mod, hmod] at hhit
  exact hhit

theorem v4vHeader_largeRing {m : Msg} (hf : m.Fits) (hm : m.data.length = 2147483632) :
    v4vHeader (xenPut largeRing m) = none := by
  have hspan : m.span = 2147483648 := by simp only [Msg.span, headerSize, hm]
  obtain ⟨hu, -⟩ := header_laid (xenPut largeRing m).ring hf (by simp only [headerSize]; omega)
    (header_largeRing hm)
  have hbtr : v4vRingBytesToRead (xenPut largeRing m) = 32 := by
    simp [v4vRingBytesToRead, xenPut, largeRing, hspan, sub32, u32]
  have hrx : (xenPut largeRing m).rxPtr = 0 := rfl
  simp [v4vHeader, hbtr, hrx, hu, hm, headerSize]

theorem exists_msg (n : Nat) : ∃ m : Msg, m.Fits ∧ m.data.length = n :=
  ⟨⟨⟨0, 0⟩, 0, List.replicate n 0⟩, by constructor <;> simp, List.length_replicate⟩

/-- On a ring of more than `2^31` bytes a message can be missed. -/
theorem copy_out_large_ring : ∃ (r : Ring) (ms : List Msg) (ts : List Nat), Empty r ∧
    r.len < 4294967296 ∧ (∀ m ∈ ms, m.Fits) ∧ span ms < r.len ∧ ts.length = ms.length ∧
    (copyOuts (xenPutAll r ms) ts).1 ≠ List.zipWith Msg.received ms ts := by
  obtain ⟨m, hf, hm⟩ := exists_msg 2147483632
  refine ⟨largeRing, [m], [0], empty_largeRing, by simp [largeRing], ?_, ?_, rfl, ?_⟩
  · intro x hx
    rw [List.mem_singleton.mp hx]
    exact hf
  · simp [span, Msg.span, hm, headerSize, largeRing]
  · have hcopy : v4vCopyOut (xenPutAll largeRing [m]) true 0 true = none := by
      unfold v4vCopyOut xenPutAll
      rw [List.foldl_cons, List.foldl_nil, v4vHeader_largeRing hf hm, Option.map_none]
    rw [copyOuts, hcopy]
    exact (List.cons_ne_nil _ _).symm

/-- Two messages, the second of them across the end of the ring. -/
theorem copy_out_round_trip_wraps :
    (copyOuts (xenPutAll ⟨64, 32, 32, fun _ => 7⟩ [⟨⟨1, 2⟩, 3, []⟩, ⟨⟨4, 5⟩, 6, [8, 9]⟩]) [0, 5]).1 =
      [⟨0, ⟨1, 2⟩, 3, []⟩, ⟨2, ⟨4, 5⟩, 6, [8, 9]⟩] := by
  have hf : ∀ m ∈ ([⟨⟨1, 2⟩, 3, []⟩, ⟨⟨4, 5⟩, 6, [8, 9]⟩] : List Msg), m.Fits := by
    intro m hm
    simp only [List.mem_cons, List.not_mem_nil, or_false] at hm
    rcases hm with rfl | rfl <;> constructor <;> simp
  exact (copy_out_round_trip (by constructor <;> simp) (by simp) hf (by decide) rfl).1

end XcWindows.V4v
