import XcWindows.Lib.Circ
import XcWindows.Lib.Machine

/-!
# The circular buffer of the socket pipe

`Circle::Insert`, `Retrieve`, `QueryContiguousRetrievable`, `CommitRetrieved` and `Drain` of
`sockpipe/Circle.cpp`, with one producer and one consumer. Every access to `in`, `out` and a byte of
the buffer is a step of its own, and the two parties' steps interleave in any order. The event of
`WaitUntilNotFull` moves no data and is left out.

`taken` records the bytes that have left the buffer, obtained (`true`) or dropped. Two things break the
order: `Retrieve` copies nothing when the data wraps around the end of the buffer, and `Drain` stores to
`in`, the producer's index, which an `Insert` that has read it overwrites. `StepFits` leaves these out,
and `Inv` is the invariant of the rest.
-/

namespace XcWindows.Sockpipe

open XcWindows.Lib
open Function (update update_of_ne)

/-- `QueryInsertable`, of the values read. -/
def queryInsertable (length tin tout : Nat) : Nat :=
  if tin = tout then length - 1
  else if tin > tout then tout + (length - tin) - 1
  else tout - tin - 1

/-- `QueryRetrievable`, of the values read. -/
def queryRetrievable (length tin tout : Nat) : Nat :=
  if tin ≥ tout then tin - tout else tin + (length - tout)

/-- The stores of one `RtlCopyMemory`. -/
def stores (dst : Nat) (data : List UInt8) : List (Nat × UInt8) :=
  (List.range' dst data.length).zip data

/-- The copies of `Insert` and the new `in`; `top` is the test `in >= out`. -/
def insertCopies (length : Nat) (data : List UInt8) (insert tin : Nat) (top : Bool) :
    List (Nat × UInt8) × Nat :=
  let here := length - tin
  if top ∧ here < insert then
    (stores tin (data.take here) ++ stores 0 ((data.drop here).take (insert - here)), insert - here)
  else if top ∧ here = insert then (stores tin (data.take insert), 0)
  else (stores tin (data.take insert), tin + insert)

/-- Where the producer is in `Insert`. -/
inductive ProducerPc where
  | idle
  | insertable (data : List UInt8) (tin : Nat)
  | counted (data : List UInt8) (insert : Nat)
  | placed (data : List UInt8) (insert tin : Nat)
  /-- The test `in >= out` has read `in`. -/
  | tested (data : List UInt8) (insert tin cin : Nat)
  /-- The stores to come, the bytes that are inserted and the new `in`. -/
  | copying (writes : List (Nat × UInt8)) (data : List UInt8) (tin : Nat)
  | failed
  deriving DecidableEq

/-- Where the consumer is. -/
inductive ConsumerPc where
  | idle
  /-- In `Retrieve`: the bytes to read, those read, the return value and the new `out`. -/
  | retrieving (reads : List Nat) (got : List UInt8) (tlen tout : Nat)
  /-- `QueryContiguousRetrievable` has returned. -/
  | contiguous (len : Nat)
  /-- Using the bytes in place, before `CommitRetrieved`. -/
  | reading (reads : List Nat) (got : List UInt8) (len : Nat)
  | committing (got : List UInt8) (len : Nat)
  | draining (tout : Nat)
  | failed
  deriving DecidableEq

structure Circle where
  buffer : Nat → UInt8
  inAt : Nat
  outAt : Nat
  producer : ProducerPc
  consumer : ConsumerPc
  inserted : List UInt8
  taken : List (Bool × UInt8)
  /-- The sum of what `Retrieve` and `CommitRetrieved` have returned. -/
  returned : Nat

inductive Act where
  | insert (data : List UInt8)
  /-- The next step of `Insert`. -/
  | produce
  | retrieve (len : Nat)
  | queryContiguousRetrievable
  | commitRetrieved (len : Nat)
  | drain
  /-- The next step of the consumer's call. -/
  | consume

/-- The bytes from `out` to `in`. -/
def Circle.pending (length : Nat) (s : Circle) : List UInt8 :=
  window s.buffer length s.outAt (queryRetrievable length s.inAt s.outAt)

def produce (length : Nat) (s : Circle) : Option Circle :=
  match s.producer with
  | .insertable data tin =>
    some { s with producer := .counted data (min (queryInsertable length tin s.outAt) data.length) }
  | .counted data insert => some { s with producer := .placed data insert s.inAt }
  | .placed data insert tin => some { s with producer := .tested data insert tin s.inAt }
  | .tested data insert tin cin =>
    let (writes, tin) := insertCopies length data insert tin (cin ≥ s.outAt)
    some { s with producer := if tin < length then .copying writes (data.take insert) tin else .failed }
  | .copying (w :: writes) data tin =>
    some { s with buffer := update s.buffer w.1 w.2, producer := .copying writes data tin }
  | .copying [] data tin =>
    some { s with inAt := tin, producer := .idle, inserted := s.inserted ++ data }
  | .idle | .failed => none

/-- `Retrieve`, up to its copy: the bytes to read, the return value and the new `out`. -/
def retrieveCopy (length tin tout len : Nat) : List Nat × Nat × Nat :=
  if tin > tout then
    let tlen := min (tin - tout) len
    (List.range' tout tlen, tlen, if tout + tlen = length then 0 else tout + tlen)
  else
    let tlen := min (length - tout + tin) len
    ([], tlen, if tout + tlen > length then tout + tlen - length else tout + tlen)

/-- `got` has left the buffer, and the call has returned `len`. -/
def Circle.leave (s : Circle) (got : List UInt8) (len tout : Nat) : Circle :=
  { s with outAt := tout, consumer := .idle, taken := s.taken ++ got.map (true, ·)
           returned := s.returned + len }

def consume (length : Nat) (s : Circle) : Option Circle :=
  match s.consumer with
  | .retrieving (a :: reads) got tlen tout =>
    some { s with consumer := .retrieving reads (got ++ [s.buffer a]) tlen tout }
  | .retrieving [] got tlen tout => some (s.leave got tlen tout)
  | .reading (a :: reads) got len => some { s with consumer := .reading reads (got ++ [s.buffer a]) len }
  | .reading [] got len =>
    some { s with consumer := if s.inAt < s.outAt ∨ s.outAt + len ≤ s.inAt then .committing got len
                              else .failed }
  | .committing got len =>
    some (s.leave got len (if s.outAt + len = length then 0 else s.outAt + len))
  | .draining tout =>
    some { s with inAt := tout, consumer := .idle
                  taken := s.taken ++ (s.pending length).map (false, ·) }
  | .idle | .contiguous _ | .failed => none

def step (length : Nat) (s : Circle) : Act → Option Circle
  | .insert data =>
    if s.producer = .idle then some { s with producer := .insertable data s.inAt } else none
  | .produce => produce length s
  | .retrieve len =>
    if s.consumer = .idle then
      if s.inAt = s.outAt then some s
      else
        let (reads, tlen, tout) := retrieveCopy length s.inAt s.outAt len
        some { s with consumer := .retrieving reads [] tlen tout }
    else none
  | .queryContiguousRetrievable =>
    if s.consumer = .idle then
      some { s with consumer := .contiguous
                      (if s.outAt ≤ s.inAt then s.inAt - s.outAt else length - s.outAt) }
    else none
  | .commitRetrieved n =>
    match s.consumer with
    | .contiguous len =>
      if n ≤ len then some { s with consumer := .reading (List.range' s.outAt n) [] n } else none
    | _ => none
  | .drain =>
    if s.consumer = .idle then
      some { s with consumer := if s.inAt ≠ s.outAt then .draining s.outAt else .idle }
    else none
  | .consume => consume length s

/-- A buffer of `length` bytes, with anything in it. -/
def machine (length : Nat) (buffer : Nat → UInt8) : Machine Circle Act where
  init := ⟨buffer, 0, 0, .idle, .idle, [], [], 0⟩
  step := step length

/-- The indices are in range and count the room, the bytes that left the buffer and those in it are the
bytes inserted, in order, and what was obtained is as long as was returned. -/
structure Fifo (length : Nat) (s : Circle) : Prop where
  indices : s.inAt < length ∧ s.outAt < length
  room : queryInsertable length s.inAt s.outAt + queryRetrievable length s.inAt s.outAt = length - 1
  order : s.taken.map (·.2) ++ s.pending length = s.inserted
  filled : (s.taken.filter (·.1)).length = s.returned
  asserted : s.producer ≠ .failed ∧ s.consumer ≠ .failed

/-- `Insert` holds a value of `in` that it will store over. -/
def ProducerPc.holdsIn : ProducerPc → Bool
  | .placed .. | .tested .. | .copying .. => true
  | .idle | .insertable .. | .counted .. | .failed => false

/-- In `Drain`, before the store. -/
def ConsumerPc.drains : ConsumerPc → Bool
  | .draining _ => true
  | _ => false

/-- `Retrieve` finds no data that wraps, and `Drain` stores to `in` when no `Insert` holds it. -/
def StepFits (s : Circle) : Act → Prop
  | .retrieve len => s.outAt ≤ s.inAt ∨ len = 0
  | .consume => s.consumer.drains = true → s.producer.holdsIn = false
  | _ => True

instance (s : Circle) : (a : Act) → Decidable (StepFits s a)
  | .retrieve len => inferInstanceAs (Decidable (s.outAt ≤ s.inAt ∨ len = 0))
  | .consume => inferInstanceAs (Decidable (s.consumer.drains = true → s.producer.holdsIn = false))
  | .insert _ | .produce | .queryContiguousRetrievable | .commitRetrieved _ | .drain => .isTrue trivial

/-! ## The copies -/

/-- What the stores make of the buffer. -/
def applyStores (writes : List (Nat × UInt8)) (m : Nat → UInt8) : Nat → UInt8 :=
  writes.foldl (fun m w => update m w.1 w.2) m

theorem blit_cons (m : Nat → UInt8) (a : Nat) (x : UInt8) (xs : List UInt8) :
    blit m a (x :: xs) = blit (update m a x) (a + 1) xs := by
  funext i
  by_cases hi : i < a
  · rw [blit_miss (.inl hi), blit_miss (.inl (by omega)), update_of_ne (by omega)]
  · by_cases he : i = a
    · subst he
      rw [blit_miss (a := i + 1) (.inl (by omega)), Function.update_self]
      exact @blit_hit _ m i 0 (x :: xs) (Nat.zero_lt_succ _)
    · have h2 : i - a = (i - (a + 1)) + 1 := by omega
      unfold blit
      rw [if_pos (by omega), if_pos (by omega), h2, List.getElem?_cons_succ, update_of_ne he]

theorem applyStores_stores (dst : Nat) (data : List UInt8) (m : Nat → UInt8) :
    applyStores (stores dst data) m = blit m dst data := by
  induction data generalizing dst m with
  | nil => rw [blit_nil]; rfl
  | cons x xs ih =>
    rw [blit_cons, ← ih]
    rfl

theorem mem_stores {dst : Nat} {data : List UInt8} {w : Nat × UInt8} (h : w ∈ stores dst data) :
    dst ≤ w.1 ∧ w.1 < dst + data.length := by
  have := (List.of_mem_zip h).1
  rw [List.mem_range'_1] at this
  exact this

section Copies
variable {length tin tout insert n : Nat} {data : List UInt8} {top : Bool}

theorem wrap_eq (hp : tin < length) (hn : n ≤ length) :
    (tin + n) % length = if tin + n < length then tin + n else tin + n - length := by
  split
  · next h => exact Nat.mod_eq_of_lt h
  · next h =>
    rw [Nat.mod_eq_sub_mod (Nat.le_of_not_lt h)]
    exact Nat.mod_eq_of_lt (by omega)

theorem insertCopies_spec (htin : tin < length) (hlt : insert < length) (hle : insert ≤ data.length)
    (htop : top = true ∨ tin + insert < length) (m : Nat → UInt8) :
    applyStores (insertCopies length data insert tin top).1 m = circBlit m length tin (data.take insert) ∧
      (∀ w ∈ (insertCopies length data insert tin top).1, ∃ i < insert, w.1 = (tin + i) % length) ∧
      (insertCopies length data insert tin top).2 = (tin + insert) % length := by
  have hlen : (data.take insert).length = insert := List.length_take_of_le hle
  have haddr (n : Nat) (hn : n ≤ insert) (h : tin + n ≤ length) (w : Nat × UInt8)
      (hw : w ∈ stores tin (data.take n)) : ∃ i < insert, w.1 = (tin + i) % length := by
    obtain ⟨h1, h2⟩ := mem_stores hw
    rw [List.length_take] at h2
    exact ⟨w.1 - tin, by omega, by rw [Nat.mod_eq_of_lt (by omega)]; omega⟩
  rw [wrap_eq htin (Nat.le_of_lt hlt)]
  unfold insertCopies
  simp only
  split
  · next h =>
    have hhere := h.2
    refine ⟨?_, fun w hw => ?_, by rw [if_neg (by omega)]; omega⟩
    · unfold circBlit applyStores
      rw [List.foldl_append]
      have h1 := applyStores_stores tin (data.take (length - tin)) m
      have h2 := applyStores_stores 0 ((data.drop (length - tin)).take (insert - (length - tin)))
      unfold applyStores at h1 h2
      rw [h1, h2, List.take_take, Nat.min_eq_left (Nat.le_of_lt hhere), List.drop_take]
    · rcases List.mem_append.mp hw with hw | hw
      · exact haddr _ (Nat.le_of_lt hhere) (by omega) w hw
      · obtain ⟨-, h2⟩ := mem_stores hw
        rw [List.length_take] at h2
        refine ⟨w.1 + (length - tin), by omega, ?_⟩
        rw [wrap_eq htin (by omega), if_neg (by omega)]
        omega
  · next h =>
    have hfit : tin + insert ≤ length := by
      rcases htop with ht | ht
      · exact Nat.le_of_not_lt fun hl => h ⟨ht, by omega⟩
      · omega
    have hblit : applyStores (stores tin (data.take insert)) m =
        circBlit m length tin (data.take insert) := by
      rw [circBlit_of_le (by rw [hlen]; exact hfit)]
      exact applyStores_stores tin _ m
    split
    · next h' => exact ⟨hblit, haddr _ (Nat.le_refl _) hfit, by rw [if_neg (by omega)]; omega⟩
    · next h' =>
      refine ⟨hblit, haddr _ (Nat.le_refl _) hfit, ?_⟩
      have hne : tin + insert ≠ length := by
        intro he
        rcases htop with ht | ht
        · exact h' ⟨ht, by omega⟩
        · omega
      rw [if_pos (by omega)]

end Copies

/-! ## The invariant -/

/-- The number of bytes in the buffer. -/
abbrev Circle.used (length : Nat) (s : Circle) : Nat := queryRetrievable length s.inAt s.outAt

/-- What `Insert` has read is no more than what is free, and its stores fill the place behind `in`. -/
def ProducerPc.Ok (length : Nat) (s : Circle) : ProducerPc → Prop
  | .idle => True
  | .insertable _ tin => tin < length ∧ s.used length ≤ queryRetrievable length tin s.outAt
  | .counted data insert => insert ≤ data.length ∧ insert + s.used length < length
  | .placed data insert tin =>
    tin = s.inAt ∧ insert ≤ data.length ∧ insert + s.used length < length
  | .tested data insert tin cin =>
    cin = s.inAt ∧ tin = s.inAt ∧ insert ≤ data.length ∧ insert + s.used length < length
  | .copying writes data tin =>
    window (applyStores writes s.buffer) length s.inAt data.length = data ∧
      (∀ w ∈ writes, ∃ i < data.length, w.1 = (s.inAt + i) % length) ∧
      data.length + s.used length < length ∧ tin = (s.inAt + data.length) % length
  | .failed => False

/-- What is read, and still to be read, is the front of the data. -/
structure Fronts (length : Nat) (s : Circle) (reads : List Nat) (got : List UInt8) (n : Nat) : Prop where
  data : got ++ reads.map s.buffer = window s.buffer length s.outAt n
  addrs : ∀ a ∈ reads, ∃ i < n, a = (s.outAt + i) % length
  used : n ≤ s.used length

def ConsumerPc.Ok (length : Nat) (s : Circle) : ConsumerPc → Prop
  | .idle => True
  | .retrieving reads got tlen tout =>
    Fronts length s reads got tlen ∧ tout = (s.outAt + tlen) % length
  | .contiguous len => len ≤ s.used length ∧ s.outAt + len ≤ length
  | .reading reads got len => Fronts length s reads got len ∧ s.outAt + len ≤ length
  | .committing got len => Fronts length s [] got len ∧ s.outAt + len ≤ length
  | .draining tout => tout = s.outAt
  | .failed => False

structure Inv (length : Nat) (s : Circle) : Prop where
  inLt : s.inAt < length
  outLt : s.outAt < length
  order : s.taken.map (·.2) ++ s.pending length = s.inserted
  filled : (s.taken.filter (·.1)).length = s.returned
  producer : s.producer.Ok length s
  consumer : s.consumer.Ok length s

section Inv
variable {length : Nat} {s t : Circle}

theorem used_lt {tin tout : Nat} (hi : tin < length) (ho : tout < length) :
    queryRetrievable length tin tout < length := by
  unfold queryRetrievable
  split <;> omega

theorem out_add_used {tin tout : Nat} (hi : tin < length) (ho : tout < length) :
    (tout + queryRetrievable length tin tout) % length = tin := by
  rw [wrap_eq ho (Nat.le_of_lt (used_lt hi ho))]
  unfold queryRetrievable
  split <;> split <;> omega

theorem used_out {tin tout n : Nat} (hi : tin < length) (ho : tout < length)
    (hn : n ≤ queryRetrievable length tin tout) :
    queryRetrievable length tin ((tout + n) % length) = queryRetrievable length tin tout - n := by
  have hlt := used_lt hi ho
  rw [wrap_eq ho (by omega)]
  unfold queryRetrievable at *
  split <;> split at hn <;> split <;> omega

theorem used_in {tin tout n : Nat} (hi : tin < length) (ho : tout < length)
    (hn : n + queryRetrievable length tin tout < length) :
    queryRetrievable length ((tin + n) % length) tout = queryRetrievable length tin tout + n := by
  rw [wrap_eq hi (by omega)]
  unfold queryRetrievable at *
  split <;> split at hn <;> split <;> omega

theorem Inv.fifo (h : Inv length s) : Fifo length s where
  indices := ⟨h.inLt, h.outLt⟩
  room := by
    have hi := h.inLt
    have ho := h.outLt
    unfold queryInsertable queryRetrievable
    split <;> split <;> (try split) <;> omega
  order := h.order
  filled := h.filled
  asserted := by
    refine ⟨fun hf => ?_, fun hf => ?_⟩
    · have := h.producer
      rw [hf] at this
      exact this
    · have := h.consumer
      rw [hf] at this
      exact this

theorem free_ne (hi : s.inAt < length) (ho : s.outAt < length) {n i j : Nat}
    (hfree : n + s.used length < length) (hin : i < n) (hj : j < s.used length) :
    (s.outAt + j) % length ≠ (s.inAt + i) % length := by
  unfold Circle.used at hfree hj
  intro he
  rw [← out_add_used hi ho, Nat.mod_add_mod] at he
  have := mod_inj (by omega) (by omega) he
  omega

theorem window_store (hi : s.inAt < length) (ho : s.outAt < length) {n i m : Nat} (v : UInt8)
    (hfree : n + s.used length < length) (hin : i < n) (hm : m ≤ s.used length) :
    window (update s.buffer ((s.inAt + i) % length) v) length s.outAt m =
      window s.buffer length s.outAt m :=
  window_congr fun _ hj =>
    update_of_ne (free_ne hi ho hfree hin (Nat.lt_of_lt_of_le hj hm)) _ _

theorem ConsumerPc.Ok.frame {pc : ConsumerPc} (h : pc.Ok length s) (hout : t.outAt = s.outAt)
    (hused : s.used length ≤ t.used length)
    (hbuf : ∀ j < s.used length, t.buffer ((s.outAt + j) % length) = s.buffer ((s.outAt + j) % length)) :
    pc.Ok length t := by
  have hfr {reads : List Nat} {got : List UInt8} {m : Nat} (hf : Fronts length s reads got m) :
      Fronts length t reads got m := by
    refine ⟨?_, fun a ha => by rw [hout]; exact hf.addrs a ha, Nat.le_trans hf.used hused⟩
    have hw : window t.buffer length s.outAt m = window s.buffer length s.outAt m :=
      window_congr fun j hj => hbuf j (Nat.lt_of_lt_of_le hj hf.used)
    rw [hout, hw, ← hf.data]
    congr 1
    apply List.map_congr_left
    intro a ha
    obtain ⟨j, hj, rfl⟩ := hf.addrs a ha
    exact hbuf j (Nat.lt_of_lt_of_le hj hf.used)
  cases pc with
  | idle => trivial
  | retrieving reads got tlen tout => exact ⟨hfr h.1, by rw [hout]; exact h.2⟩
  | contiguous len => exact ⟨Nat.le_trans h.1 hused, by rw [hout]; exact h.2⟩
  | reading reads got len => exact ⟨hfr h.1, by rw [hout]; exact h.2⟩
  | committing got len => exact ⟨hfr h.1, by rw [hout]; exact h.2⟩
  | draining tout => exact Eq.trans h hout.symm
  | failed => exact h

theorem ProducerPc.Ok.frame {pc : ProducerPc} (h : pc.Ok length s) (hin : t.inAt = s.inAt)
    (hbuf : t.buffer = s.buffer) (hused : t.used length ≤ s.used length)
    (hseen : ∀ tin < length, s.used length ≤ queryRetrievable length tin s.outAt →
      t.used length ≤ queryRetrievable length tin t.outAt) : pc.Ok length t := by
  cases pc with
  | idle => trivial
  | insertable data tin => exact ⟨h.1, hseen tin h.1 h.2⟩
  | counted data insert => exact ⟨h.1, by have := h.2; omega⟩
  | placed data insert tin => exact ⟨by rw [hin]; exact h.1, h.2.1, by have := h.2.2; omega⟩
  | tested data insert tin cin =>
    obtain ⟨h1, h2, h3, h4⟩ := h
    exact ⟨by rw [hin]; exact h1, by rw [hin]; exact h2, h3, by omega⟩
  | copying writes data tin =>
    obtain ⟨h1, h2, h3, h4⟩ := h
    exact ⟨by rw [hin, hbuf]; exact h1, by rw [hin]; exact h2, by omega, by rw [hin]; exact h4⟩
  | failed => exact h

theorem Inv.leave (h : Inv length s) {got : List UInt8} {n tout : Nat}
    (hf : Fronts length s [] got n) (htout : tout = (s.outAt + n) % length) :
    Inv length (s.leave got n tout) := by
  have hL : 0 < length := by have := h.inLt; omega
  have hused : queryRetrievable length s.inAt tout = s.used length - n := by
    rw [htout]
    exact used_out h.inLt h.outLt hf.used
  have hgot : got = window s.buffer length s.outAt n := by
    have := hf.data
    rwa [List.map_nil, List.append_nil] at this
  refine ⟨h.inLt, by rw [htout]; exact Nat.mod_lt _ hL, ?_, ?_, ?_, trivial⟩
  · have hpend : s.pending length = got ++ (s.leave got n tout).pending length := by
      unfold Circle.pending Circle.leave
      simp only
      have hadd : s.used length = n + (s.used length - n) := by have := hf.used; omega
      rw [hused, hgot, show queryRetrievable length s.inAt s.outAt = n + (s.used length - n) from hadd,
        window_add, window_congr_pos (p := tout) (q := s.outAt + n) (by rw [htout, Nat.mod_mod])]
    have horder : (s.leave got n tout).inserted = s.taken.map (·.2) ++ s.pending length := h.order.symm
    rw [horder, hpend]
    simp [Circle.leave, List.map_map, Function.comp_def]
  · have hlen : got.length = n := by rw [hgot, length_window]
    simp [Circle.leave, List.filter_map, Function.comp_def, h.filled, hlen]
  · refine h.producer.frame rfl rfl ?_ fun tin htin hle => ?_
    · show queryRetrievable length s.inAt tout ≤ _
      omega
    · show queryRetrievable length s.inAt tout ≤ queryRetrievable length tin tout
      have hn := hf.used
      rw [hused, htout, used_out htin h.outLt (by omega)]
      omega

theorem Inv.goto (h : Inv length s) {p : ProducerPc} {c : ConsumerPc} (hp : p.Ok length s)
    (hc : c.Ok length s) : Inv length { s with producer := p, consumer := c } where
  inLt := h.inLt
  outLt := h.outLt
  order := h.order
  filled := h.filled
  producer := hp.frame rfl rfl (Nat.le_refl _) fun _ _ hle => hle
  consumer := hc.frame rfl (Nat.le_refl _) fun _ _ => rfl

theorem queryInsertable_add {tin tout : Nat} (hi : tin < length) (ho : tout < length) :
    queryInsertable length tin tout + queryRetrievable length tin tout + 1 = length := by
  unfold queryInsertable queryRetrievable
  split <;> split <;> (try split) <;> omega

theorem Inv.produce (h : Inv length s) (hs : Sockpipe.produce length s = some t) : Inv length t := by
  have hok := h.producer
  have hused := used_lt h.inLt h.outLt
  unfold Sockpipe.produce at hs
  split at hs
  · next data tin hpc =>
    cases hs
    rw [hpc] at hok
    have hadd := queryInsertable_add hok.1 h.outLt
    have hle := hok.2
    exact h.goto (p := .counted data _) ⟨Nat.min_le_right _ _, by omega⟩ h.consumer
  · next data insert hpc =>
    cases hs
    rw [hpc] at hok
    exact h.goto (p := .placed data insert s.inAt) ⟨rfl, hok⟩ h.consumer
  · next data insert tin hpc =>
    cases hs
    rw [hpc] at hok
    exact h.goto (p := .tested data insert tin s.inAt) ⟨rfl, hok⟩ h.consumer
  · next data insert tin cin hpc =>
    rw [hpc] at hok
    obtain ⟨rfl, rfl, hle, hlt⟩ := hok
    have htop : decide (s.inAt ≥ s.outAt) = true ∨ s.inAt + insert < length := by
      have hin := h.inLt
      have hout := h.outLt
      unfold Circle.used queryRetrievable at hlt
      by_cases hc : s.inAt ≥ s.outAt
      · exact .inl (decide_eq_true hc)
      · rw [if_neg hc] at hlt
        exact .inr (by omega)
    obtain ⟨hstores, haddrs, htin⟩ := insertCopies_spec h.inLt (by omega) hle htop s.buffer
    have hmod := Nat.mod_lt (s.inAt + insert) (show 0 < length by omega)
    have hlen : (data.take insert).length = insert := List.length_take_of_le hle
    simp only [htin, if_pos hmod] at hs
    cases hs
    refine h.goto (p := .copying _ (data.take insert) _) ⟨?_, ?_, ?_, ?_⟩ h.consumer
    · rw [hstores]
      have hself := @window_circBlit_self _ s.buffer length s.inAt (data.take insert) (by omega) (by omega)
      rwa [Nat.mod_eq_of_lt h.inLt] at hself
    · rw [hlen]; exact haddrs
    · rw [hlen]; exact hlt
    · rw [hlen]
  · next w writes data tin hpc =>
    cases hs
    rw [hpc] at hok
    obtain ⟨h1, h2, h3, h4⟩ := hok
    obtain ⟨i, hi, hw⟩ := h2 w List.mem_cons_self
    have hpend := @window_store length s h.inLt h.outLt data.length i _ w.2 h3 hi (Nat.le_refl _)
    refine ⟨h.inLt, h.outLt, ?_, h.filled, ?_, ?_⟩
    · rw [← h.order, hw]
      exact congrArg (s.taken.map (·.2) ++ ·) hpend
    · exact ⟨h1, fun w hw => h2 w (List.mem_cons_of_mem _ hw), h3, h4⟩
    · rw [hw]
      exact h.consumer.frame rfl (Nat.le_refl _) fun j hj =>
        update_of_ne (free_ne h.inLt h.outLt h3 hi hj) _ _
  · next data tin hpc =>
    cases hs
    rw [hpc] at hok
    obtain ⟨h1, -, h3, rfl⟩ := hok
    have hin := used_in h.inLt h.outLt h3
    have hL : 0 < length := by omega
    refine ⟨Nat.mod_lt _ hL, h.outLt, ?_, h.filled, trivial, ?_⟩
    · unfold Circle.pending
      simp only
      rw [hin, window_add, window_congr_pos (p := s.outAt + queryRetrievable length s.inAt s.outAt)
        (q := s.inAt) (by rw [out_add_used h.inLt h.outLt, Nat.mod_eq_of_lt h.inLt]),
        ← List.append_assoc]
      exact congrArg₂ (· ++ ·) h.order h1
    · refine h.consumer.frame rfl ?_ fun _ _ => rfl
      exact Nat.le_trans (Nat.le_add_right _ data.length) (Nat.le_of_eq hin.symm)
  · cases hs
  · cases hs

theorem Fronts.read {reads : List Nat} {got : List UInt8} {n a : Nat}
    (h : Fronts length s (a :: reads) got n) : Fronts length s reads (got ++ [s.buffer a]) n where
  data := by
    rw [List.append_assoc, List.singleton_append]
    exact h.data
  addrs b hb := h.addrs b (List.mem_cons_of_mem _ hb)
  used := h.used

theorem fronts_start (hn : s.outAt + n ≤ length) (hused : n ≤ s.used length) :
    Fronts length s (List.range' s.outAt n) [] n where
  data := by
    rw [List.nil_append, ← bytes_eq_window hn, bytes, List.range'_eq_map_range, List.map_map]
    rfl
  addrs a ha := by
    rw [List.mem_range'_1] at ha
    exact ⟨a - s.outAt, by omega, by rw [Nat.mod_eq_of_lt (by omega)]; omega⟩
  used := hused

theorem Inv.consume (h : Inv length s) (hok : StepFits s .consume)
    (hs : Sockpipe.consume length s = some t) : Inv length t := by
  have hc := h.consumer
  unfold Sockpipe.consume at hs
  split at hs
  · next a reads got tlen tout hpc =>
    cases hs
    rw [hpc] at hc
    exact h.goto (c := .retrieving reads _ tlen tout) h.producer ⟨hc.1.read, hc.2⟩
  · next got tlen tout hpc =>
    cases hs
    rw [hpc] at hc
    exact h.leave hc.1 hc.2
  · next a reads got len hpc =>
    cases hs
    rw [hpc] at hc
    exact h.goto (c := .reading reads _ len) h.producer ⟨hc.1.read, hc.2⟩
  · next got len hpc =>
    rw [hpc] at hc
    have hused := hc.1.used
    have hle := hc.2
    rw [if_pos (by unfold Circle.used queryRetrievable at hused; split at hused <;> omega)] at hs
    cases hs
    exact h.goto (c := .committing got len) h.producer hc
  · next got len hpc =>
    cases hs
    rw [hpc] at hc
    refine h.leave hc.1 ?_
    have hle := hc.2
    rw [wrap_eq h.outLt (by omega)]
    split <;> split <;> omega
  · next tout hpc =>
    cases hs
    rw [hpc] at hc
    have hzero : queryRetrievable length tout s.outAt = 0 := by
      rw [show tout = s.outAt from hc, queryRetrievable, if_pos (Nat.le_refl _), Nat.sub_self]
    refine ⟨by rw [show tout = s.outAt from hc]; exact h.outLt, h.outLt, ?_, ?_, ?_, trivial⟩
    · have hpend : window s.buffer length s.outAt (queryRetrievable length tout s.outAt) = [] := by
        rw [hzero]
        rfl
      rw [← h.order]
      simp [Circle.pending, hzero, List.map_map, Function.comp_def]
    · simp [h.filled, List.filter_map, Function.comp_def]
    · have hp := h.producer
      have hfits : s.producer.holdsIn = false := hok (by rw [hpc]; rfl)
      have hL := h.outLt
      cases hpp : s.producer with
      | idle => trivial
      | insertable data tin =>
        rw [hpp] at hp
        exact ⟨hp.1, by rw [Circle.used, hzero]; exact Nat.zero_le _⟩
      | counted data insert =>
        rw [hpp] at hp
        refine ⟨hp.1, ?_⟩
        have hlt := hp.2
        rw [Circle.used, hzero]
        omega
      | failed => rw [hpp] at hp; exact hp
      | _ => rw [hpp] at hfits; cases hfits
  · cases hs
  · cases hs
  · cases hs

theorem Inv.step {a : Act} (h : Inv length s) (hok : StepFits s a)
    (hs : Sockpipe.step length s a = some t) : Inv length t := by
  have hin := h.inLt
  have hout := h.outLt
  cases a with
  | insert data =>
    simp only [Sockpipe.step] at hs
    split at hs
    · cases hs
      exact h.goto (p := .insertable data s.inAt) ⟨h.inLt, Nat.le_refl _⟩ h.consumer
    · cases hs
  | produce => exact h.produce hs
  | retrieve len =>
    simp only [Sockpipe.step] at hs
    split at hs
    · split at hs
      · cases hs; exact h
      · next hne =>
        cases hs
        refine h.goto (c := .retrieving _ [] _ _) h.producer ?_
        unfold retrieveCopy
        split
        · next hgt =>
          have hused : s.used length = s.inAt - s.outAt := if_pos (Nat.le_of_lt hgt)
          refine ⟨fronts_start (by omega) (by omega), ?_⟩
          simp only
          rw [if_neg (by omega), Nat.mod_eq_of_lt (by omega)]
        · next hgt =>
          have hlen : len = 0 := hok.resolve_left (by omega)
          subst hlen
          simp only [Nat.min_zero, Nat.add_zero]
          refine ⟨⟨rfl, nofun, Nat.zero_le _⟩, ?_⟩
          rw [if_neg (by omega), Nat.add_zero, Nat.mod_eq_of_lt hout]
    · cases hs
  | queryContiguousRetrievable =>
    simp only [Sockpipe.step] at hs
    split at hs
    · cases hs
      refine h.goto (c := .contiguous _) h.producer ⟨?_, ?_⟩
      · unfold Circle.used queryRetrievable
        split <;> omega
      · split <;> omega
    · cases hs
  | commitRetrieved n =>
    simp only [Sockpipe.step] at hs
    split at hs
    · next len hpc =>
      have hc := h.consumer
      rw [hpc] at hc
      split at hs
      · next hle =>
        cases hs
        have h1 := hc.1
        have h2 := hc.2
        exact h.goto (c := .reading _ [] n) h.producer ⟨fronts_start (by omega) (by omega), by omega⟩
      · cases hs
    · cases hs
  | drain =>
    simp only [Sockpipe.step] at hs
    split at hs
    · cases hs
      refine h.goto h.producer ?_
      split
      · exact rfl
      · trivial
    · cases hs
  | consume => exact h.consume hok hs

theorem inv_init (hL : 0 < length) (buffer : Nat → UInt8) : Inv length (machine length buffer).init :=
  ⟨hL, hL, rfl, rfl, trivial, trivial⟩

end Inv

/-- For any size and any interleaving the buffer is a FIFO, as long as the steps fit. -/
theorem circle_fifo {length : Nat} (hL : 2 ≤ length) {buffer : Nat → UInt8} {s : Circle}
    (h : (machine length buffer).Reach StepFits s) : Fifo length s :=
  (h.inv (inv_init (by omega) buffer) fun _ _ _ hi hok hs => hi.step hok hs).fifo

/-- Three bytes in, two of them out, and an insertion around the end that the rest is drained behind. -/
theorem circle_fifo_drain : ∃ s, ((machine 4 fun _ => 0).Reach StepFits s ∧
    (s.taken == [(true, 1), (true, 2), (false, 3), (false, 4)]) = true) ∧ Fifo 4 s := by
  obtain ⟨s, hs, hp⟩ := Machine.exists_reach (machine 4 fun _ => 0) StepFits
    (fun s => s.taken == [(true, 1), (true, 2), (false, 3), (false, 4)])
    (List.flatten [[.insert [1, 2, 3]], List.replicate 8 .produce,
      [.retrieve 2, .consume, .consume, .consume], [.insert [4]], List.replicate 6 .produce,
      [.drain, .consume]]) (by decide)
  exact ⟨s, ⟨hs, hp⟩, circle_fifo (by decide) hs⟩

/-- `Retrieve` of data around the end returns three bytes and copies none. -/
theorem retrieve_copies_nothing : ∃ s, (machine 4 fun _ => 0).Reach Machine.Any s ∧ ¬ Fifo 4 s := by
  obtain ⟨s, hs, hp⟩ := Machine.exists_reach (machine 4 fun _ => 0) Machine.Any
    (fun s => (s.taken.filter (·.1)).length != s.returned)
    (List.flatten [[.insert [1, 2, 3]], List.replicate 8 .produce,
      [.retrieve 2, .consume, .consume, .consume], [.insert [4, 5]], List.replicate 7 .produce,
      [.retrieve 3, .consume]]) (by decide)
  exact ⟨s, hs, fun hf => (bne_iff_ne.mp hp) hf.filled⟩

theorem drain_comes_back : ∃ s, (machine 4 fun _ => 0).Reach Machine.Any s ∧ ¬ Fifo 4 s := by
  obtain ⟨s, hs, hp⟩ := Machine.exists_reach (machine 4 fun _ => 0) Machine.Any
    (fun s => s.taken.map (·.2) ++ s.pending 4 != s.inserted)
    (List.flatten [[.insert [1]], List.replicate 6 .produce,
      [.insert [2], .produce, .produce, .drain, .consume], List.replicate 4 .produce]) (by decide)
  exact ⟨s, hs, fun hf => (bne_iff_ne.mp hp) hf.order⟩

end XcWindows.Sockpipe
