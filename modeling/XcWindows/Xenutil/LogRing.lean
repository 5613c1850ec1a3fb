import Mathlib.Algebra.Group.Nat.Defs
import XcWindows.Lib.Circ

/-!
# The log ring

`PutCharToRing`, `SendMessageToRing`, `HvmGetLogRingSize`, `HvmGetLogRing` and `XmExtractTailOfLog` of
`xenutil/logging.c`. The position counter is a `ULONG` that is never reduced; the readers take it for
the number of bytes logged. Since the size of the ring divides `2^32` the cells are right for ever
(`Rung`), but from `2^32` bytes on a small counter passes for a short log.
-/

namespace XcWindows.Xenutil

open XcWindows.Lib

abbrev logMsgBufferSize : Nat := 8192

structure LogRing where
  buffer : Nat → UInt8
  /-- `LogMessageBufferPtr` -/
  ptr : Nat

def putCharToRing (s : LogRing) (c : UInt8) : LogRing :=
  ⟨Function.update s.buffer (s.ptr % logMsgBufferSize) c, u32 (s.ptr + 1)⟩

/-- The bytes that `SendMessageToRing` puts for a message: `"> "`, the string and its NUL. -/
def framed (msg : List UInt8) : List UInt8 := [62, 32] ++ msg.takeWhile (· ≠ 0) ++ [0]

def sendMessageToRing (s : LogRing) (msg : List UInt8) : LogRing := (framed msg).foldl putCharToRing s

def hvmGetLogRingSize (s : LogRing) : Nat :=
  if s.ptr ≥ logMsgBufferSize then logMsgBufferSize else s.ptr

/-- `HvmGetLogRing`: what it copies; `none` is `STATUS_INVALID_USER_BUFFER`. -/
def hvmGetLogRing (s : LogRing) (size : Nat) : Option (List UInt8) :=
  if s.ptr > logMsgBufferSize then
    if size ≠ logMsgBufferSize then none
    else
      let ptr := s.ptr % logMsgBufferSize
      some (bytes s.buffer ptr (logMsgBufferSize - ptr) ++ bytes s.buffer 0 ptr)
  else if size ≠ s.ptr then none
  else some (bytes s.buffer 0 s.ptr)

/-- `XmExtractTailOfLog`: what it copies and what it returns. -/
def xmExtractTailOfLog (s : LogRing) (maxSize : Nat) : List UInt8 × Nat :=
  let maxSize := if maxSize > logMsgBufferSize then logMsgBufferSize else maxSize
  let end' := s.ptr
  let start := if end' > maxSize then end' - maxSize else 0
  if start / logMsgBufferSize = end' / logMsgBufferSize then
    (bytes s.buffer (start % logMsgBufferSize) (end' - start), end' - start)
  else
    (bytes s.buffer (start % logMsgBufferSize) (logMsgBufferSize - start % logMsgBufferSize) ++
      bytes s.buffer 0 (end' % logMsgBufferSize), end' - start)

/-- The ring after these messages, from the start of the driver. -/
def ringAfter (msgs : List (List UInt8)) : LogRing := msgs.foldl sendMessageToRing ⟨fun _ => 0, 0⟩

/-- Everything ever logged. -/
def logged (msgs : List (List UInt8)) : List UInt8 := msgs.flatMap framed

/-- The last `n` bytes of a log. -/
def lastBytes (log : List UInt8) (n : Nat) : List UInt8 := log.drop (log.length - n)

/-- The tail is the last bytes, as many as fit and there are. -/
def TailExact (msgs : List (List UInt8)) (maxSize : Nat) : Prop :=
  let n := min (logged msgs).length (min maxSize logMsgBufferSize)
  xmExtractTailOfLog (ringAfter msgs) maxSize = (lastBytes (logged msgs) n, n)

/-- The ring, asked for with the size it reports, is the last bytes, as many as it holds. -/
def RingExact (msgs : List (List UInt8)) : Prop :=
  hvmGetLogRing (ringAfter msgs) (hvmGetLogRingSize (ringAfter msgs)) =
    some (lastBytes (logged msgs) (min (logged msgs).length logMsgBufferSize))

/-- The ring holds the end of the log, and its counter is the length of the log in 32 bits. -/
structure Rung (s : LogRing) (log : List UInt8) : Prop where
  ptr : s.ptr = u32 log.length
  cells : ∀ i (h : i < log.length), log.length ≤ i + logMsgBufferSize →
    s.buffer (i % logMsgBufferSize) = log[i]

section Ring
variable {s : LogRing} {log : List UInt8} {n maxSize : Nat} {msgs : List (List UInt8)}

theorem Rung.put (h : Rung s log) (c : UInt8) : Rung (putCharToRing s c) (log ++ [c]) where
  ptr := by
    rw [List.length_append, List.length_singleton]
    simp only [putCharToRing, h.ptr]
    exact u32_add _ _
  cells i hi hle := by
    rw [List.length_append, List.length_singleton] at hi hle
    have hpos : s.ptr % logMsgBufferSize = log.length % logMsgBufferSize := by
      rw [h.ptr]
      exact u32_mod (by decide) _
    simp only [putCharToRing, hpos]
    by_cases he : i = log.length
    · subst he
      rw [Function.update_self, List.getElem_append_right (Nat.le_refl _)]
      simp
    · have hne : i % logMsgBufferSize ≠ log.length % logMsgBufferSize := fun hc =>
        he (mod_inj (by omega) (by omega) hc)
      rw [Function.update_of_ne hne, List.getElem_append_left (by omega)]
      exact h.cells i (by omega) (by omega)

theorem Rung.puts (h : Rung s log) (cs : List UInt8) :
    Rung (cs.foldl putCharToRing s) (log ++ cs) := by
  induction cs generalizing s log with
  | nil => rwa [List.append_nil]
  | cons c cs ih =>
    rw [List.append_cons]
    exact ih (h.put c)

theorem rung_after (msgs : List (List UInt8)) : Rung (ringAfter msgs) (logged msgs) := by
  have hrun (s : LogRing) (log : List UInt8) (h : Rung s log) :
      Rung (msgs.foldl sendMessageToRing s) (log ++ logged msgs) := by
    induction msgs generalizing s log with
    | nil => rwa [logged, List.flatMap_nil, List.append_nil]
    | cons msg msgs ih =>
      rw [logged, List.flatMap_cons, ← List.append_assoc]
      exact ih _ _ (h.puts (framed msg))
  exact hrun _ [] ⟨rfl, nofun⟩

theorem Rung.window (h : Rung s log) (hn : n ≤ log.length) (hN : n ≤ logMsgBufferSize) :
    window s.buffer logMsgBufferSize (log.length - n) n = lastBytes log n := by
  apply List.ext_getElem
  · rw [length_window, lastBytes, List.length_drop]
    omega
  · intro i h1 h2
    rw [length_window] at h1
    simp only [getElem_window, lastBytes, List.getElem_drop]
    exact h.cells _ (by omega) (by omega)

theorem bytes_at (p : Nat) (hp : p % 8192 + n ≤ 8192) :
    bytes s.buffer (p % 8192) n = Lib.window s.buffer 8192 p n :=
  (bytes_eq_window hp).trans (window_congr_pos (Nat.mod_mod p _))

theorem xmExtractTailOfLog_eq (hm : n = min maxSize logMsgBufferSize) :
    xmExtractTailOfLog s maxSize =
      (Lib.window s.buffer logMsgBufferSize (s.ptr - n) (min s.ptr n), min s.ptr n) := by
  have hmax : (if maxSize > logMsgBufferSize then logMsgBufferSize else maxSize) = n := by
    split <;> omega
  have hstart : (if s.ptr > n then s.ptr - n else 0) = s.ptr - n := by split <;> omega
  have hlen : s.ptr - (s.ptr - n) = min s.ptr n := by omega
  unfold xmExtractTailOfLog
  simp only [hmax, hstart, hlen]
  have hn : n ≤ 8192 := by rw [hm]; exact Nat.min_le_right _ _
  generalize hst : s.ptr - n = start
  simp only [logMsgBufferSize]
  split
  · next h => rw [bytes_at start (by omega)]
  · next h =>
    have hadd : min s.ptr n = (8192 - start % 8192) + s.ptr % 8192 := by omega
    rw [bytes_at start (by omega), bytes_eq_window (R := 8192) (by omega), hadd, window_add,
      window_congr_pos (p := start + _) (q := 0) (by omega)]

theorem hvmGetLogRing_eq : hvmGetLogRing s (hvmGetLogRingSize s) =
    some (Lib.window s.buffer logMsgBufferSize (s.ptr - logMsgBufferSize)
      (min s.ptr logMsgBufferSize)) := by
  unfold hvmGetLogRing hvmGetLogRingSize
  simp only [logMsgBufferSize]
  by_cases hgt : s.ptr > 8192
  · have hadd : min s.ptr 8192 = (8192 - s.ptr % 8192) + s.ptr % 8192 := by omega
    rw [if_pos hgt, show (if s.ptr ≥ 8192 then 8192 else s.ptr) = 8192 from if_pos (by omega),
      if_neg (by simp), hadd, window_add, bytes_at s.ptr (by omega),
      bytes_eq_window (R := 8192) (by omega),
      window_congr_pos (p := s.ptr - 8192) (q := s.ptr) (by omega),
      window_congr_pos (p := s.ptr - 8192 + _) (q := 0) (by omega)]
  · have hsize : (if s.ptr ≥ 8192 then 8192 else s.ptr) = s.ptr := by split <;> omega
    rw [if_neg hgt, hsize, if_neg (by simp), bytes_eq_window (R := 8192) (by omega),
      show s.ptr - 8192 = 0 by omega, Nat.min_eq_left (by omega)]

theorem Rung.tail_iff (h : Rung s log) (hn : n ≤ logMsgBufferSize) :
    Lib.window s.buffer logMsgBufferSize (s.ptr - n) (min s.ptr n) =
        lastBytes log (min log.length n) ↔ log.length < 2 ^ 32 ∨ n ≤ log.length % 2 ^ 32 := by
  have hptr : s.ptr = log.length % 4294967296 := h.ptr
  constructor
  · intro he
    have hlen := congrArg List.length he
    rw [length_window, lastBytes, List.length_drop] at hlen
    omega
  · intro hc
    rw [show min s.ptr n = min log.length n by omega, ← h.window (Nat.min_le_left _ _) (by omega)]
    refine window_congr_pos ?_
    simp only [logMsgBufferSize] at *
    omega

end Ring

theorem tailExact_iff (msgs : List (List UInt8)) (maxSize : Nat) : TailExact msgs maxSize ↔
    (logged msgs).length < 2 ^ 32 ∨
      min maxSize logMsgBufferSize ≤ (logged msgs).length % 2 ^ 32 := by
  have h := rung_after msgs
  have hptr : (ringAfter msgs).ptr = (logged msgs).length % 4294967296 := h.ptr
  have htail := @Rung.tail_iff _ _ (min maxSize logMsgBufferSize) h (Nat.min_le_right _ _)
  unfold TailExact
  simp only
  rw [xmExtractTailOfLog_eq rfl, Prod.mk.injEq, htail, and_iff_left_iff_imp]
  omega

theorem ringExact_iff (msgs : List (List UInt8)) : RingExact msgs ↔
    (logged msgs).length < 2 ^ 32 ∨ logMsgBufferSize ≤ (logged msgs).length % 2 ^ 32 := by
  rw [← (rung_after msgs).tail_iff (Nat.le_refl logMsgBufferSize)]
  unfold RingExact
  rw [hvmGetLogRing_eq, Option.some.injEq]

/-- The readers give the end of the log exactly while its length has fewer than 32 bits, and later when
the counter is beyond the size of the ring. -/
theorem log_ring_extraction (msgs : List (List UInt8)) :
    ((∀ maxSize, TailExact msgs maxSize) ∧ RingExact msgs) ↔
      (logged msgs).length < 2 ^ 32 ∨ logMsgBufferSize ≤ (logged msgs).length % 2 ^ 32 := by
  rw [ringExact_iff]
  refine ⟨And.right, fun h => ⟨fun maxSize => (tailExact_iff msgs maxSize).mpr ?_, h⟩⟩
  exact h.imp_right (Nat.le_trans (Nat.min_le_right _ _))

theorem length_logged_empty (k : Nat) : (logged (List.replicate k [])).length = 3 * k := by
  induction k with
  | zero => rfl
  | succ k ih =>
    rw [List.replicate_succ, logged, List.flatMap_cons, List.length_append]
    change _ + (logged (List.replicate k [])).length = _
    rw [ih, show (framed []).length = 3 from rfl]
    omega

/-- Empty messages until the counter has come around to 2: two bytes are left of the log. -/
theorem log_ring_forgets : ¬ ((∀ maxSize, TailExact (List.replicate 1431655766 []) maxSize) ∧
    RingExact (List.replicate 1431655766 [])) := by
  rw [ringExact_iff, length_logged_empty]
  exact fun h => absurd h.2 (by decide)

end XcWindows.Xenutil
