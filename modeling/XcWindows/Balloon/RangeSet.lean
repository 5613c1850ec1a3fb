import Mathlib.Data.List.Basic
import Mathlib.Data.List.Range
import Mathlib.Data.List.Perm.Basic
import Mathlib.Data.Nat.ModEq

/-!
# Range sets

`xenutil/rangeset.c`: a set of indices as an ascending list of ranges that do not touch, with a
cursor where the next search starts and a cache of unused entries. Indices are residues modulo `M`;
an `End1` of `0` stands for `M`. Each function may call the allocator once: `alloc` is its answer.
`none` is a failed assertion, `false` the `FALSE` of a function that got no memory.

`elems` is the set a list of ranges denotes, in ascending order. An insertion puts an index in its
place, `RangeSetPopOne` takes the first, and removing an index whose predecessor is not in the set
takes exactly that one.
-/

namespace XcWindows.Balloon

/-- `struct range_set_entry`. -/
structure Rse where
  start : Nat
  end1 : Nat
  deriving DecidableEq

/-- `struct range_set`. The cursor is the place of an entry, or `none` for the list head; the cached
entries are counted. -/
structure RangeSet where
  entries : List Rse
  rseCursor : Option Nat
  rseCache : Nat
  nrItems : Nat
  deriving DecidableEq

def rangeSetInit : RangeSet := ⟨[], none, 0, 0⟩

def rangeSetDropRseCache (rs : RangeSet) : RangeSet := { rs with rseCache := 0 }

def allocateRse (rs : RangeSet) (alloc : Bool) : Option RangeSet :=
  if rs.rseCache = 0 then if alloc then some rs else none
  else some { rs with rseCache := rs.rseCache - 1 }

/-- Put `es` in the place of the entry at `q`. The cursor stays with its entry, or goes on to the
next one when `release_rse` takes it away. -/
def RangeSet.splice (rs : RangeSet) (q : Nat) (es : List Rse) : RangeSet :=
  let entries := rs.entries.take q ++ es ++ rs.entries.drop (q + 1)
  { rs with
    entries
    rseCursor := rs.rseCursor.bind fun p =>
      if p < q then some p
      else if p = q then if p < entries.length then some p else none
      else some (p + es.length - 1)
    rseCache := if es = [] then rs.rseCache + 1 else rs.rseCache }

/-- The entries up to the cursor, nearest first, and those behind it. -/
def RangeSet.zipper (rs : RangeSet) : List Rse × List Rse :=
  match rs.rseCursor with
  | none => ([], rs.entries)
  | some p => ((rs.entries.take (p + 1)).reverse, rs.entries.drop (p + 1))

/-- The cursor is at the first entry of `left`, or at the list head. -/
def RangeSet.unzip (rs : RangeSet) (left right : List Rse) : RangeSet :=
  { rs with entries := left.reverse ++ right
            rseCursor := if left = [] then none else some (left.length - 1) }

/-- The loop of `RangeSetAdd` that moves the cursor backwards. -/
def seekBack (idx : Nat) : List Rse → List Rse → List Rse × List Rse
  | [], right => ([], right)
  | e :: left, right => if e.start > idx then seekBack idx left (e :: right) else (e :: left, right)

/-- The loop of `RangeSetAdd` that moves the cursor forwards, and the step back after it. -/
def seekForward (idx : Nat) : List Rse → List Rse → List Rse × List Rse
  | left, [] => (left, [])
  | left, e :: right =>
    if e.start < idx then seekForward idx (e :: left) right else (left, e :: right)

/-- Where `RangeSetAdd` starts: from the list head it moves to the first entry. -/
def fromFirst : List Rse × List Rse → List Rse × List Rse
  | ([], e :: right) => ([e], right)
  | z => z

section Functions
variable (M : Nat)

/-- `merge_forwards` at the cursor, which is the first entry of `left`. -/
def mergeForwards (rs : RangeSet) : List Rse → List Rse → RangeSet
  | e :: left, next :: right =>
    if e.end1 = next.start then
      { rs with rseCache := rs.rseCache + 1 }.unzip ({ e with end1 := next.end1 } :: left) right
    else rs.unzip (e :: left) (next :: right)
  | left, right => rs.unzip left right

/-- `rs->NrItems++`. -/
def RangeSet.countUp (rs : RangeSet) : RangeSet := { rs with nrItems := (rs.nrItems + 1) % M }

/-- The label `insert_new` of `RangeSetAdd`. -/
def insertNew (rs : RangeSet) (left right : List Rse) (idx : Nat) (alloc : Bool) :
    Bool × RangeSet :=
  match allocateRse rs alloc with
  | none => (false, rs.unzip left right)
  | some rs => (true, (rs.unzip (⟨idx, (idx + 1) % M⟩ :: left) right).countUp M)

/-- The second test of `RangeSetAdd`: is the index right before the next range? -/
def addBeforeNext (rs : RangeSet) (left right : List Rse) (idx : Nat) (alloc : Bool) :
    Bool × RangeSet :=
  match right with
  | next :: rest =>
    if next.start = (idx + 1) % M ∧ next.start ≠ 0 then
      (true, (mergeForwards rs left ({ next with start := next.start - 1 } :: rest)).countUp M)
    else insertNew M rs left right idx alloc
  | [] => insertNew M rs left right idx alloc

/-- `RangeSetAdd` once the cursor is in place: is the index right behind the range there? -/
def addAt (rs : RangeSet) (left right : List Rse) (idx : Nat) (alloc : Bool) : Bool × RangeSet :=
  match left with
  | e :: rest =>
    if e.end1 = idx then
      (true, (mergeForwards rs ({ e with end1 := (e.end1 + 1) % M } :: rest) right).countUp M)
    else addBeforeNext M rs left right idx alloc
  | [] => addBeforeNext M rs left right idx alloc

def rangeSetAdd (rs : RangeSet) (idx : Nat) (alloc : Bool) : Option (Bool × RangeSet) :=
  match fromFirst rs.zipper with
  | ([], right) => some (insertNew M rs [] right idx alloc)
  | (e :: left, right) =>
    if ¬ (e.start > idx ∨ e.end1 ≤ idx) then none
    else if e.start = idx then none
    else
      let (left, right) :=
        if e.start > idx then seekBack idx (e :: left) right else seekForward idx (e :: left) right
      if (∀ c ∈ left.head?, c.end1 ≤ idx) ∧ (∀ n ∈ right.head?, n.start > idx) then
        some (addAt M rs left right idx alloc)
      else none

/-- `RangeSetAddItems`: how many were added; `alloc x` is the answer for the `x`-th. -/
def rangeSetAddItems (rs : RangeSet) : List Nat → (Nat → Bool) → Option (Nat × RangeSet)
  | [], _ => some (0, rs)
  | idx :: items, alloc =>
    match rangeSetAdd M rs idx (alloc 0) with
    | none => none
    | some (false, rs) => some (0, rs)
    | some (true, rs) =>
      (rangeSetAddItems rs items fun x => alloc (x + 1)).map fun (n, rs) => (n + 1, rs)

/-- The search of `RangeSetRemoveRange` from the entry at `i`, for at most `n` steps; running off
the list is a failed assertion. -/
def findRange (entries : List Rse) (start : Nat) : Nat → Nat → Option Nat
  | 0, _ => none
  | n + 1, i =>
    match entries[i]? with
    | none => none
    | some e =>
      if e.start > start then if i = 0 then none else findRange entries start n (i - 1)
      else if e.end1 ≤ start then findRange entries start n (i + 1)
      else some i

/-- `RangeSetRemoveRange`, of the range from `start` to `last`. -/
def rangeSetRemoveRange (rs : RangeSet) (start last : Nat) (alloc : Bool) :
    Option (Bool × RangeSet) :=
  match findRange rs.entries start (rs.entries.length + 1) (rs.rseCursor.getD 0) with
  | none => none
  | some q =>
    match rs.entries[q]? with
    | none => none
    | some e =>
      let counted (rs : RangeSet) : RangeSet :=
        { rs with nrItems := (rs.nrItems + M - (last - start + 1) % M) % M }
      if e.start = start then
        let e := { e with start := (last + 1) % M }
        some (true, counted (rs.splice q (if e.start = e.end1 then [] else [e])))
      else if e.end1 = (last + 1) % M then
        let e := { e with end1 := start - 1 }
        some (true, counted (rs.splice q (if e.start = e.end1 then [] else [e])))
      else
        match allocateRse rs alloc with
        | none => some (false, rs)
        | some rs =>
          some (true, counted (rs.splice q [{ e with end1 := start - 1 }, ⟨(last + 1) % M, e.end1⟩]))

def rangeSetRemoveItems (rs : RangeSet) : List Nat → (Nat → Bool) → Option (Nat × RangeSet)
  | [], _ => some (0, rs)
  | idx :: items, alloc =>
    match rangeSetRemoveRange M rs idx idx (alloc 0) with
    | none => none
    | some (false, rs) => some (0, rs)
    | some (true, rs) =>
      (rangeSetRemoveItems rs items fun x => alloc (x + 1)).map fun (n, rs) => (n + 1, rs)

def rangeSetPopOne (rs : RangeSet) : Option (Nat × RangeSet) :=
  match rs.entries with
  | [] => none
  | h :: _ =>
    let e := { h with start := (h.start + 1) % M }
    some (h.start, { rs.splice 0 (if e.start = e.end1 then [] else [e]) with
                     nrItems := (rs.nrItems + M - 1) % M })

def rangeSetPopMany (rs : RangeSet) : Nat → Option (List Nat × RangeSet)
  | 0 => some ([], rs)
  | n + 1 =>
    match rangeSetPopOne M rs with
    | none => none
    | some (x, rs) => (rangeSetPopMany rs n).map fun (out, rs) => (x :: out, rs)

end Functions

/-! ## The denoted set -/

section Denotation
variable {M : Nat} {e : Rse} {l l' : List Rse} {x : Nat}

/-- The end of a range, `M` for one that goes up to the largest index. -/
def Rse.stop (M : Nat) (e : Rse) : Nat := if e.end1 = 0 then M else e.end1

def Rse.elems (M : Nat) (e : Rse) : List Nat := List.range' e.start (e.stop M - e.start)

def elems (M : Nat) (l : List Rse) : List Nat := l.flatMap (Rse.elems M)

/-- The invariants of the source: the ranges are not empty, ascend and do not touch. -/
structure Ranges (M : Nat) (l : List Rse) : Prop where
  nonempty : ∀ e ∈ l, e.start < e.stop M ∧ e.end1 < M
  apart : l.Pairwise fun a b => a.stop M < b.start

theorem Rse.stop_le (h : e.end1 < M) : e.stop M ≤ M := by unfold Rse.stop; split <;> omega

/-- Where an index is the `End1` of a range. -/
theorem Rse.mod_eq_end1 (hx : x ≤ e.stop M) (hM : 0 < M) (h2 : e.end1 < M) :
    x % M = e.end1 ↔ x = e.stop M ∨ x = 0 ∧ e.end1 = 0 := by
  have hle := Rse.stop_le h2
  rcases Nat.lt_or_ge x M with hlt | hge
  · rw [Nat.mod_eq_of_lt hlt]
    unfold Rse.stop at *
    split <;> omega
  · obtain rfl : x = M := by omega
    rw [Nat.mod_self]
    unfold Rse.stop at *
    split <;> omega

theorem Rse.mem_elems : x ∈ e.elems M ↔ e.start ≤ x ∧ x < e.stop M := by
  rw [Rse.elems, List.mem_range'_1]; omega

theorem mem_elems : x ∈ elems M l ↔ ∃ e ∈ l, e.start ≤ x ∧ x < e.stop M := by
  simp only [elems, List.mem_flatMap, Rse.mem_elems]

@[simp] theorem elems_nil : elems M [] = [] := rfl

@[simp] theorem elems_cons : elems M (e :: l) = e.elems M ++ elems M l := rfl

@[simp] theorem elems_append : elems M (l ++ l') = elems M l ++ elems M l' :=
  List.flatMap_append

theorem ranges_append : Ranges M (l ++ l') ↔
    Ranges M l ∧ Ranges M l' ∧ ∀ a ∈ l, ∀ b ∈ l', a.stop M < b.start := by
  constructor
  · intro ⟨h1, h2⟩
    rw [List.pairwise_append] at h2
    exact ⟨⟨fun e he => h1 e (by simp [he]), h2.1⟩, ⟨fun e he => h1 e (by simp [he]), h2.2.1⟩, h2.2.2⟩
  · rintro ⟨h1, h2, h3⟩
    refine ⟨fun e he => ?_, List.pairwise_append.mpr ⟨h1.apart, h2.apart, h3⟩⟩
    rcases List.mem_append.mp he with he | he
    · exact h1.nonempty e he
    · exact h2.nonempty e he

theorem ranges_cons : Ranges M (e :: l) ↔
    (e.start < e.stop M ∧ e.end1 < M) ∧ Ranges M l ∧ ∀ b ∈ l, e.stop M < b.start := by
  constructor
  · intro ⟨h1, h2⟩
    rw [List.pairwise_cons] at h2
    exact ⟨h1 e (by simp), ⟨fun e he => h1 e (by simp [he]), h2.2⟩, h2.1⟩
  · rintro ⟨h1, h2, h3⟩
    refine ⟨fun e he => ?_, List.pairwise_cons.mpr ⟨h3, h2.apart⟩⟩
    rcases List.mem_cons.mp he with rfl | he
    · exact h1
    · exact h2.nonempty e he

theorem ranges_nil : Ranges M [] := ⟨by simp, List.Pairwise.nil⟩

theorem Ranges.sorted (h : Ranges M l) : (elems M l).Pairwise (· < ·) := by
  induction l with
  | nil => exact List.Pairwise.nil
  | cons e l ih =>
    obtain ⟨he, hl, hlt⟩ := ranges_cons.mp h
    rw [elems_cons, List.pairwise_append]
    refine ⟨List.pairwise_lt_range', ih hl, fun a ha b hb => ?_⟩
    obtain ⟨f, hf, hb⟩ := mem_elems.mp hb
    have := hlt f hf
    rw [Rse.mem_elems] at ha
    omega

theorem Ranges.nodup (h : Ranges M l) : (elems M l).Nodup := h.sorted.imp fun h => Nat.ne_of_lt h

theorem Ranges.mem_lt (h : Ranges M l) (hx : x ∈ elems M l) : x < M := by
  obtain ⟨e, he, -, h2⟩ := mem_elems.mp hx
  exact Nat.lt_of_lt_of_le h2 (Rse.stop_le (h.nonempty e he).2)

theorem Ranges.start_mem (h : Ranges M l) (he : e ∈ l) : e.start ∈ elems M l :=
  mem_elems.mpr ⟨e, he, Nat.le_refl _, (h.nonempty e he).1⟩

/-- A set in good order: its ranges, its cursor and its counter. -/
structure RsOk (M : Nat) (rs : RangeSet) : Prop where
  ranges : Ranges M rs.entries
  cursor : ∀ p ∈ rs.rseCursor, p < rs.entries.length
  items : rs.nrItems = (elems M rs.entries).length % M

theorem RsOk.of_perm {rs rs' : RangeSet} {n : Nat} (h : RsOk M rs) (ok : RsOk M rs')
    (hp : (elems M rs.entries).Perm (List.range' x n ++ elems M rs'.entries)) :
    (∀ y, y ∈ elems M rs'.entries ↔ y ∈ elems M rs.entries ∧ ¬ (x ≤ y ∧ y < x + n)) ∧
      (rs'.nrItems + n) % M = rs.nrItems := by
  have hdis := (List.nodup_append.mp (hp.nodup_iff.mp h.ranges.nodup)).2.2
  constructor
  · intro y
    rw [hp.mem_iff, List.mem_append, List.mem_range'_1]
    constructor
    · intro hy
      exact ⟨.inr hy, fun hr => hdis y (List.mem_range'_1.mpr hr) y hy rfl⟩
    · rintro ⟨hr | hy, hnr⟩
      · exact absurd hr hnr
      · exact hy
  · rw [ok.items, h.items, hp.length_eq, List.length_append, List.length_range', Nat.mod_add_mod,
      Nat.add_comm]

end Denotation

/-! ## Insertion -/

section Seek
variable {M idx : Nat}

theorem seekBack_spec (left : List Rse) : ∀ (right : List Rse),
    Ranges M (left.reverse ++ right) → (∀ e ∈ right, idx < e.start) →
    (seekBack idx left right).1.reverse ++ (seekBack idx left right).2 = left.reverse ++ right ∧
    (∀ e ∈ (seekBack idx left right).1, e.start ≤ idx) ∧
    ∀ e ∈ (seekBack idx left right).2, idx < e.start := by
  induction left with
  | nil => intro right _ hr; exact ⟨rfl, by simp [seekBack], hr⟩
  | cons e left ih =>
    intro right h hr
    rw [List.reverse_cons, List.append_assoc] at h
    unfold seekBack
    split
    · next hgt =>
      have := ih (e :: right) (by simpa using h) fun f hf => by
        rcases List.mem_cons.mp hf with rfl | hf
        · exact hgt
        · exact hr f hf
      rwa [List.reverse_cons, List.append_assoc]
    · next hle =>
      refine ⟨rfl, fun f hf => ?_, hr⟩
      rcases List.mem_cons.mp hf with rfl | hf
      · omega
      · -- what is left of the cursor starts before it
        have h3 := (ranges_append.mp h).2.2 f (List.mem_reverse.mpr hf) e (by simp)
        have := (h.nonempty f (by simp [hf])).1
        omega

theorem seekForward_spec (right : List Rse) : ∀ (left : List Rse),
    Ranges M (left.reverse ++ right) → (∀ e ∈ left, e.start < idx) →
    (seekForward idx left right).1.reverse ++ (seekForward idx left right).2 =
      left.reverse ++ right ∧
    (∀ e ∈ (seekForward idx left right).1, e.start < idx) ∧
    ∀ e ∈ (seekForward idx left right).2, idx ≤ e.start := by
  induction right with
  | nil => intro left _ hl; exact ⟨by simp [seekForward], by simpa [seekForward] using hl, by simp [seekForward]⟩
  | cons e right ih =>
    intro left h hl
    unfold seekForward
    split
    · next hlt =>
      have := ih (e :: left) (by simpa using h) fun f hf => by
        rcases List.mem_cons.mp hf with rfl | hf
        · exact hlt
        · exact hl f hf
      simpa using this
    · next hge =>
      refine ⟨rfl, hl, fun f hf => ?_⟩
      rcases List.mem_cons.mp hf with rfl | hf
      · omega
      · have h2 := (ranges_append.mp h).2.1
        have := (ranges_cons.mp h2).2.2 f hf
        have := (ranges_cons.mp h2).1.1
        omega

theorem zipper_eq (rs : RangeSet) :
    rs.zipper.1.reverse ++ rs.zipper.2 = rs.entries := by
  unfold RangeSet.zipper
  split
  · rfl
  · rw [List.reverse_reverse, List.take_append_drop]

theorem fromFirst_eq (z : List Rse × List Rse) :
    (fromFirst z).1.reverse ++ (fromFirst z).2 = z.1.reverse ++ z.2 := by
  unfold fromFirst
  split
  · rfl
  · rfl

end Seek

section Insert
variable {M idx last : Nat} {e n : Rse} {A B : List Rse}

theorem stop_succ (hM : idx < M) (s : Nat) : Rse.stop M ⟨s, (idx + 1) % M⟩ = idx + 1 := by
  unfold Rse.stop
  rcases Nat.lt_or_ge (idx + 1) M with h | h
  · rw [Nat.mod_eq_of_lt h, if_neg (by simp)]
  · obtain rfl : M = idx + 1 := by omega
    simp

theorem Ranges.place (h : Ranges M (A ++ B)) (hM : idx < M) (hA : ∀ a ∈ A, a.stop M < idx)
    (hB : ∀ b ∈ B, idx + 1 < b.start) :
    Ranges M (A ++ ⟨idx, (idx + 1) % M⟩ :: B) ∧
      elems M (A ++ ⟨idx, (idx + 1) % M⟩ :: B) = elems M A ++ idx :: elems M B := by
  obtain ⟨h1, h2, h3⟩ := ranges_append.mp h
  have hs := stop_succ hM idx
  have hm : (idx + 1) % M < M := Nat.mod_lt _ (by omega)
  refine ⟨ranges_append.mpr ⟨h1, ranges_cons.mpr ⟨⟨?_, hm⟩, h2, ?_⟩, ?_⟩, ?_⟩
  · rw [hs]; simp
  · rw [hs]; exact hB
  · intro a ha b hb
    rcases List.mem_cons.mp hb with rfl | hb
    · exact hA a ha
    · exact h3 a ha b hb
  · simp [Rse.elems, hs]

theorem Ranges.extend (h : Ranges M (A ++ e :: B)) (hM : last < M) (he : e.stop M ≤ last)
    (hB : ∀ b ∈ B, last + 1 < b.start) :
    Ranges M (A ++ { e with end1 := (last + 1) % M } :: B) ∧
      elems M (A ++ { e with end1 := (last + 1) % M } :: B) =
        elems M (A ++ [e]) ++ (List.range' (e.stop M) (last + 1 - e.stop M) ++ elems M B) := by
  obtain ⟨h1, h2, h3⟩ := ranges_append.mp h
  obtain ⟨h4, h5, h6⟩ := ranges_cons.mp h2
  have hs : Rse.stop M { e with end1 := (last + 1) % M } = last + 1 := stop_succ hM e.start
  have hm : (last + 1) % M < M := Nat.mod_lt _ (by omega)
  refine ⟨ranges_append.mpr ⟨h1, ranges_cons.mpr ⟨⟨?_, hm⟩, h5, ?_⟩, ?_⟩, ?_⟩
  · rw [hs]; simp only; omega
  · rw [hs]; exact hB
  · intro a ha b hb
    rcases List.mem_cons.mp hb with rfl | hb
    · exact h3 a ha e (by simp)
    · exact h3 a ha b (by simp [hb])
  · have hlen : last + 1 - e.start = (e.stop M - e.start) + (last + 1 - e.stop M) := by omega
    have hadd : e.start + (e.stop M - e.start) = e.stop M := by omega
    simp only [elems_append, elems_cons, elems_nil, List.append_nil, Rse.elems, hs, hlen,
      ← List.range'_append_1, hadd, List.append_assoc]

/-- The indices up to `last`, right between two ranges. -/
theorem Ranges.join (h : Ranges M (A ++ e :: n :: B)) (he : e.stop M ≤ last)
    (hn : n.start = last + 1) :
    Ranges M (A ++ { e with end1 := n.end1 } :: B) ∧
      elems M (A ++ { e with end1 := n.end1 } :: B) =
        elems M (A ++ [e]) ++
          (List.range' (e.stop M) (last + 1 - e.stop M) ++ elems M (n :: B)) := by
  obtain ⟨h1, h2, h3⟩ := ranges_append.mp h
  obtain ⟨h4, h5, h6⟩ := ranges_cons.mp h2
  obtain ⟨h7, h8, h9⟩ := ranges_cons.mp h5
  have hs : Rse.stop M { e with end1 := n.end1 } = n.stop M := rfl
  refine ⟨ranges_append.mpr ⟨h1, ranges_cons.mpr ⟨⟨?_, h7.2⟩, h8, ?_⟩, ?_⟩, ?_⟩
  · rw [hs]; simp only; omega
  · rw [hs]; exact h9
  · intro a ha b hb
    rcases List.mem_cons.mp hb with rfl | hb
    · exact h3 a ha e (by simp)
    · exact h3 a ha b (by simp [hb])
  · have hlen : n.stop M - e.start =
        (e.stop M - e.start) + ((last + 1 - e.stop M) + (n.stop M - (last + 1))) := by omega
    have hadd : e.start + (e.stop M - e.start) = e.stop M := by omega
    have hadd' : e.stop M + (last + 1 - e.stop M) = last + 1 := by omega
    simp only [elems_append, elems_cons, elems_nil, List.append_nil, Rse.elems, hs, hn, hlen,
      ← List.range'_append_1, hadd, hadd', List.append_assoc]

theorem Ranges.prepend (h : Ranges M (A ++ n :: B)) (hn : n.start = idx + 1)
    (hA : ∀ a ∈ A, a.stop M < idx) :
    Ranges M (A ++ { n with start := n.start - 1 } :: B) ∧
      elems M (A ++ { n with start := n.start - 1 } :: B) =
        elems M A ++ idx :: elems M (n :: B) := by
  obtain ⟨h1, h2, h3⟩ := ranges_append.mp h
  obtain ⟨h4, h5, h6⟩ := ranges_cons.mp h2
  have hs : Rse.stop M ⟨idx, n.end1⟩ = n.stop M := rfl
  rw [hn, Nat.add_sub_cancel]
  refine ⟨ranges_append.mpr ⟨h1, ranges_cons.mpr ⟨⟨?_, h4.2⟩, h5, ?_⟩, ?_⟩, ?_⟩
  · rw [hs]; simp only; omega
  · rw [hs]; exact h6
  · intro a ha b hb
    rcases List.mem_cons.mp hb with rfl | hb
    · exact hA a ha
    · exact h3 a ha b (by simp [hb])
  · have hlen : n.stop M - idx = (n.stop M - (idx + 1)) + 1 := by omega
    simp only [elems_append, elems_cons, Rse.elems, hs, hn, hlen, List.range'_succ,
      List.cons_append]

theorem unzip_cursor (rs : RangeSet) (left right : List Rse) :
    ∀ p ∈ (rs.unzip left right).rseCursor, p < (rs.unzip left right).entries.length := by
  intro p hp
  cases left with
  | nil => simp [RangeSet.unzip] at hp
  | cons e left =>
    obtain rfl : left.length = p := by simpa [RangeSet.unzip] using hp
    simp [RangeSet.unzip]

theorem mergeForwards_spec (rs : RangeSet) {left right : List Rse}
    (h : Ranges M (left.reverse ++ e :: right)) (hM : last < M) (he : e.stop M ≤ last)
    (hr : ∀ b ∈ right, last < b.start) :
    ∃ (rs' : RangeSet) (left' right' : List Rse),
      mergeForwards rs ({ e with end1 := (last + 1) % M } :: left) right = rs'.unzip left' right' ∧
      rs'.nrItems = rs.nrItems ∧ Ranges M (left'.reverse ++ right') ∧
      elems M (left'.reverse ++ right') = elems M (left.reverse ++ [e]) ++
        (List.range' (e.stop M) (last + 1 - e.stop M) ++ elems M right) := by
  cases right with
  | nil =>
    obtain ⟨h1, h2⟩ := h.extend hM he (by simp)
    exact ⟨rs, { e with end1 := (last + 1) % M } :: left, [], rfl, rfl, by simpa using h1,
      by simpa using h2⟩
  | cons n right =>
    obtain ⟨h4, -, h6⟩ := ranges_cons.mp (ranges_cons.mp (ranges_append.mp h).2.1).2.1
    have hn := hr n (by simp)
    have hlt : last + 1 < M := by have := Rse.stop_le h4.2; omega
    unfold mergeForwards
    simp only
    split
    · next hm =>
      rw [Nat.mod_eq_of_lt hlt] at hm
      obtain ⟨h1, h2⟩ := h.join he hm.symm
      exact ⟨_, _, _, rfl, rfl, by simpa using h1, by simpa using h2⟩
    · next hm =>
      rw [Nat.mod_eq_of_lt hlt] at hm
      obtain ⟨h1, h2⟩ := h.extend hM he fun b hb => by
        rcases List.mem_cons.mp hb with rfl | hb
        · omega
        · have := h6 b hb; omega
      exact ⟨_, _, _, rfl, rfl, by simpa using h1, by simpa using h2⟩

/-- The result of an insertion between `A` and `B`: the index in its place, or no memory. -/
structure AddResult (M : Nat) (rs : RangeSet) (A B : List Rse) (idx : Nat) (alloc : Bool)
    (r : Bool × RangeSet) : Prop where
  ranges : Ranges M r.2.entries
  cursor : ∀ p ∈ r.2.rseCursor, p < r.2.entries.length
  done : r.1 = true → elems M r.2.entries = elems M A ++ idx :: elems M B ∧
    r.2.nrItems = (rs.nrItems + 1) % M
  failed : r.1 = false → alloc = false ∧ elems M r.2.entries = elems M A ++ elems M B ∧
    r.2.nrItems = rs.nrItems

theorem AddResult.of_unzip {rs rs' : RangeSet} {left right : List Rse} {alloc : Bool}
    (hn : rs'.nrItems = rs.nrItems) (h1 : Ranges M (left.reverse ++ right))
    (h2 : elems M (left.reverse ++ right) = elems M A ++ idx :: elems M B) :
    AddResult M rs A B idx alloc (true, (rs'.unzip left right).countUp M) :=
  ⟨h1, unzip_cursor rs' left right,
    fun _ => ⟨h2, by rw [← hn]; rfl⟩, fun h => by cases h⟩

section Place
variable {rs : RangeSet} {left right : List Rse} (alloc : Bool)
  (h : Ranges M (left.reverse ++ right)) (hM : idx < M)

include h hM

theorem insertNew_spec (hl : ∀ a ∈ left, a.stop M < idx) (hr : ∀ b ∈ right, idx + 1 < b.start) :
    AddResult M rs left.reverse right idx alloc (insertNew M rs left right idx alloc) := by
  obtain ⟨h1, h2⟩ := h.place hM (fun a ha => hl a (List.mem_reverse.mp ha)) hr
  unfold insertNew allocateRse
  split
  · next he =>
    have hno : alloc = false := by
      cases alloc
      · rfl
      · split at he <;> simp at he
    exact ⟨h, unzip_cursor rs left right, (fun h => by cases h), fun _ => ⟨hno, elems_append, rfl⟩⟩
  · next rs' he =>
    have hn : rs'.nrItems = rs.nrItems := by
      split at he
      · split at he <;> cases he; rfl
      · cases he; rfl
    refine AddResult.of_unzip hn ?_ ?_
    · simpa using h1
    · simpa using h2

/-- The next range starts behind `idx + 1`, unless at it. -/
theorem next_apart {n : Rse} {rest : List Rse} (hr : ∀ b ∈ right, idx < b.start)
    (he : right = n :: rest) (hne : ¬ (n.start = (idx + 1) % M ∧ n.start ≠ 0)) :
    ∀ b ∈ right, idx + 1 < b.start := by
  subst he
  obtain ⟨h4, -, h6⟩ := ranges_cons.mp (ranges_append.mp h).2.1
  have hn := hr n (by simp)
  have hlt : idx + 1 < M := by have := Rse.stop_le h4.2; omega
  rw [Nat.mod_eq_of_lt hlt] at hne
  intro b hb
  rcases List.mem_cons.mp hb with rfl | hb
  · omega
  · have := h6 b hb; omega

theorem addBeforeNext_spec (hl : ∀ a ∈ left, a.stop M < idx) (hend : ∀ a ∈ left, a.stop M = a.end1)
    (hr : ∀ b ∈ right, idx < b.start) :
    AddResult M rs left.reverse right idx alloc (addBeforeNext M rs left right idx alloc) := by
  unfold addBeforeNext
  cases right with
  | nil => exact insertNew_spec alloc h hM hl (by simp)
  | cons n rest =>
    simp only
    split
    · next hn =>
      have hs : n.start = idx + 1 := by
        have h2 := (ranges_append.mp h).2.1
        have := Rse.stop_le (ranges_cons.mp h2).1.2
        have := (ranges_cons.mp h2).1.1
        have := hr n (by simp)
        rw [hn.1, Nat.mod_eq_of_lt (by omega)]
      obtain ⟨h1, h2⟩ := h.prepend hs fun a ha => hl a (List.mem_reverse.mp ha)
      -- the ranges do not touch, so nothing is merged
      have hm : mergeForwards rs left ({ n with start := n.start - 1 } :: rest) =
          rs.unzip left ({ n with start := n.start - 1 } :: rest) := by
        cases left with
        | nil => rfl
        | cons e left =>
          have := hl e (by simp)
          rw [hend e (by simp)] at this
          rw [mergeForwards, if_neg (by simp only; omega)]
      rw [hm]
      exact AddResult.of_unzip rfl h1 h2
    · next hn => exact insertNew_spec alloc h hM hl (next_apart h hM hr rfl hn)

/-- The cursor is between the ranges before and behind the index. -/
theorem addAt_spec (hl : ∀ a ∈ left, a.start < idx) (hr : ∀ b ∈ right, idx < b.start)
    (hidx : idx ∉ elems M (left.reverse ++ right)) :
    AddResult M rs left.reverse right idx alloc (addAt M rs left right idx alloc) := by
  have hl' : ∀ a ∈ left, a.stop M ≤ idx := by
    intro a ha
    by_contra hc
    exact hidx (mem_elems.mpr ⟨a, by simp [ha], by have := hl a ha; omega, by omega⟩)
  have hend : ∀ a ∈ left, a.stop M = a.end1 := by
    intro a ha
    have := hl' a ha
    unfold Rse.stop at this ⊢
    split
    · next h0 => rw [if_pos h0] at this; omega
    · rfl
  unfold addAt
  cases left with
  | nil => exact addBeforeNext_spec alloc h hM (by simp) (by simp) hr
  | cons e left =>
    simp only
    split
    · next he =>
      have hR : Ranges M (left.reverse ++ e :: right) := by simpa using h
      have hes : e.stop M = idx := by rw [hend e (by simp), he]
      obtain ⟨rs', left', right', hm, hn, h1, h2⟩ :=
        mergeForwards_spec rs hR hM (Nat.le_of_eq hes) hr
      rw [he, hm]
      apply AddResult.of_unzip hn h1
      rw [h2, hes]
      simp
    · next he =>
      refine addBeforeNext_spec alloc h hM (fun a ha => ?_) hend hr
      rcases List.mem_cons.mp ha with rfl | ha'
      · have := hl' a ha; rw [hend a ha] at this ⊢; omega
      · have h3 := (ranges_append.mp h).1
        rw [List.reverse_cons] at h3
        have := (ranges_append.mp h3).2.2 a (by simp [ha']) e (by simp)
        have := hl e (by simp)
        omega

end Place

/-- `RangeSetAdd` gets its cursor to the place between the ranges before and behind the index. -/
theorem rangeSetAdd_place {rs : RangeSet} (h : RsOk M rs) (hidx : idx ∉ elems M rs.entries)
    (alloc : Bool) :
    ∃ left right, rangeSetAdd M rs idx alloc = some (addAt M rs left right idx alloc) ∧
      left.reverse ++ right = rs.entries ∧ (∀ a ∈ left, a.start < idx) ∧
      ∀ b ∈ right, idx < b.start := by
  have hz : (fromFirst rs.zipper).1.reverse ++ (fromFirst rs.zipper).2 = rs.entries := by
    rw [fromFirst_eq, zipper_eq]
  have hne : ∀ f ∈ rs.entries, f.start ≠ idx := fun f hf e => hidx (e ▸ h.ranges.start_mem hf)
  unfold rangeSetAdd
  split
  · next right hf =>
    -- the set is empty
    obtain rfl : right = [] := by
      cases right with
      | nil => rfl
      | cons e right =>
        unfold fromFirst at hf
        split at hf
        · cases hf
        · next z hz' => exact absurd hf (hz' e right)
    rw [hf] at hz
    exact ⟨[], [], rfl, hz, by simp, by simp⟩
  · next e left right hf =>
    rw [hf] at hz
    simp only at hz
    have hR : Ranges M ((e :: left).reverse ++ right) := by rw [hz]; exact h.ranges
    have he : e ∈ rs.entries := by rw [← hz]; simp
    have hout : e.start > idx ∨ e.end1 ≤ idx := by
      by_contra hc
      rw [not_or] at hc
      refine hidx (mem_elems.mpr ⟨e, he, by omega, ?_⟩)
      unfold Rse.stop; split <;> omega
    rw [if_neg (not_not.mpr hout), if_neg (hne e he)]
    -- both searches end between the ranges before and behind the index
    have hseek : ∃ left' right', (if e.start > idx then seekBack idx (e :: left) right
        else seekForward idx (e :: left) right) = (left', right') ∧
        left'.reverse ++ right' = rs.entries ∧ (∀ a ∈ left', a.start < idx) ∧
        ∀ b ∈ right', idx < b.start := by
      have hside : ∀ z : List Rse × List Rse, z.1.reverse ++ z.2 = rs.entries →
          (∀ a ∈ z.1, a.start ≤ idx) → (∀ b ∈ z.2, idx ≤ b.start) →
          (∀ a ∈ z.1, a.start < idx) ∧ ∀ b ∈ z.2, idx < b.start := by
        intro z hz hl hr
        refine ⟨fun a ha => ?_, fun b hb => ?_⟩
        · have := hne a (by rw [← hz]; simp [ha]); have := hl a ha; omega
        · have := hne b (by rw [← hz]; simp [hb]); have := hr b hb; omega
      split
      · next hgt =>
        have hr0 : ∀ b ∈ right, idx < b.start := by
          intro b hb
          have h3 := (ranges_append.mp hR).2.2 e (by simp) b hb
          have := (hR.nonempty e (by simp)).1
          omega
        obtain ⟨h1, h2, h3⟩ := seekBack_spec (e :: left) right hR hr0
        have h1 := h1.trans hz
        exact ⟨_, _, rfl, h1, hside _ h1 h2 fun b hb => Nat.le_of_lt (h3 b hb)⟩
      · next hle =>
        have hl0 : ∀ a ∈ e :: left, a.start < idx := by
          intro a ha
          have := hne e he
          rcases List.mem_cons.mp ha with rfl | ha
          · omega
          · have h3 := (ranges_append.mp hR).1
            rw [List.reverse_cons] at h3
            have h4 := (ranges_append.mp h3).2.2 a (by simp [ha]) e (by simp)
            have := (h3.nonempty a (by simp [ha])).1
            omega
        obtain ⟨h1, h2, h3⟩ := seekForward_spec right (e :: left) hR hl0
        have h1 := h1.trans hz
        exact ⟨_, _, rfl, h1, hside _ h1 (fun a ha => Nat.le_of_lt (h2 a ha)) h3⟩
    obtain ⟨left', right', heq, hent, hl, hr⟩ := hseek
    have hidx' : idx ∉ elems M (left'.reverse ++ right') := by rw [hent]; exact hidx
    simp only [heq]
    rw [if_pos]
    · exact ⟨left', right', rfl, hent, hl, hr⟩
    · refine ⟨fun c hc => ?_, fun n hn => hr n (List.mem_of_mem_head? hn)⟩
      have hc := List.mem_of_mem_head? hc
      by_contra hgt
      refine hidx' (mem_elems.mpr ⟨c, by simp [hc], by have := hl c hc; omega, ?_⟩)
      unfold Rse.stop; split <;> omega

/-- An index that is not in the set is added, or there was no memory for it and the set is as
before. -/
theorem rangeSetAdd_spec {rs : RangeSet} (h : RsOk M rs) (hM : idx < M)
    (hidx : idx ∉ elems M rs.entries) (alloc : Bool) :
    ∃ ok rs', rangeSetAdd M rs idx alloc = some (ok, rs') ∧ RsOk M rs' ∧
      (ok = true → (elems M rs'.entries).Perm (idx :: elems M rs.entries)) ∧
      (ok = false → alloc = false ∧ elems M rs'.entries = elems M rs.entries) := by
  obtain ⟨left, right, heq, he, hl, hr⟩ := rangeSetAdd_place h hidx alloc
  have hres : AddResult M rs left.reverse right idx alloc (addAt M rs left right idx alloc) :=
    addAt_spec alloc (he ▸ h.ranges) hM hl hr (he ▸ hidx)
  generalize addAt M rs left right idx alloc = r at heq hres
  obtain ⟨ok, rs'⟩ := r
  have hperm : ok = true → (elems M rs'.entries).Perm (idx :: elems M rs.entries) := by
    intro hd
    rw [(hres.done hd).1, ← he, elems_append]
    exact List.perm_middle
  refine ⟨ok, rs', heq, ⟨hres.ranges, hres.cursor, ?_⟩, hperm, fun hf => ?_⟩
  · cases ok
    · rw [(hres.failed rfl).2.2, (hres.failed rfl).2.1, h.items, ← he, elems_append]
    · rw [(hres.done rfl).2, (hperm rfl).length_eq, h.items, List.length_cons, Nat.mod_add_mod]
  · rw [(hres.failed hf).2.1, ← he, elems_append]; exact ⟨(hres.failed hf).1, rfl⟩

end Insert

/-! ## Removal -/

section Remove
variable {M : Nat} {rs : RangeSet} {e : Rse} {A B : List Rse} {x start last : Nat}
  {rest : List Nat}

theorem mod_sub {a k M : Nat} (hk : k ≤ a) (hM : 0 < M) :
    (a % M + M - k % M) % M = (a - k) % M := by
  have h1 := Nat.mod_lt k hM
  have h2 := Nat.div_add_mod k M
  have e : a % M + M - k % M + k = a % M + M * (k / M + 1) := by rw [Nat.mul_add]; omega
  apply Nat.ModEq.add_right_cancel' k
  show (a % M + M - k % M + k) % M = (a - k + k) % M
  rw [e, Nat.add_mul_mod_self_left, Nat.mod_mod, Nat.sub_add_cancel hk]

/-- What is left of a range without its first index. -/
def advance (M : Nat) (e : Rse) : List Rse :=
  if (e.start + 1) % M = e.end1 then [] else [{ e with start := (e.start + 1) % M }]

/-- What is left of a range without its indices up to `last`. -/
def trim (M : Nat) (e : Rse) (last : Nat) : List Rse :=
  if (last + 1) % M = e.end1 then [] else [{ e with start := (last + 1) % M }]

theorem Ranges.trim (h : Ranges M (A ++ e :: B)) (hs : e.start ≤ last) (hl : last < e.stop M) :
    Ranges M (A ++ trim M e last ++ B) ∧
      ∃ T, e.elems M = List.range' e.start (last + 1 - e.start) ++ T ∧
        elems M (A ++ trim M e last ++ B) = elems M A ++ T ++ elems M B := by
  obtain ⟨h1, h2, h3⟩ := ranges_append.mp h
  obtain ⟨h4, h5, h6⟩ := ranges_cons.mp h2
  have hle := Rse.stop_le h4.2
  have hcons : e.elems M = List.range' e.start (last + 1 - e.start) ++
      List.range' (last + 1) (e.stop M - (last + 1)) := by
    have hadd : e.start + (last + 1 - e.start) = last + 1 := by omega
    rw [Rse.elems, show e.stop M - e.start =
      (last + 1 - e.start) + (e.stop M - (last + 1)) by omega, ← List.range'_append_1, hadd]
  -- the range is used up exactly when its next index is its end
  have hstop : (last + 1) % M = e.end1 ↔ e.stop M = last + 1 := by
    have hs : (e.end1 = 0 ∧ e.stop M = M) ∨ (e.end1 ≠ 0 ∧ e.stop M = e.end1) := by
      unfold Rse.stop; split <;> simp_all
    rcases Nat.lt_or_ge (last + 1) M with hlt | hge
    · rw [Nat.mod_eq_of_lt hlt]; omega
    · have hMs : M = last + 1 := by omega
      have hm : (last + 1) % M = 0 := by rw [← hMs, Nat.mod_self]
      rw [hm]; omega
  unfold Balloon.trim
  split
  · next he =>
    rw [List.append_nil]
    refine ⟨ranges_append.mpr ⟨h1, h5, fun a ha b hb => h3 a ha b (by simp [hb])⟩, _, hcons, ?_⟩
    rw [hstop.mp he]; simp
  · next he =>
    have hlt : last + 1 < e.stop M := by
      have := mt hstop.mpr he
      omega
    have hmod : (last + 1) % M = last + 1 := Nat.mod_eq_of_lt (by omega)
    have hs : Rse.stop M { e with start := last + 1 } = e.stop M := rfl
    rw [hmod, List.append_assoc, List.singleton_append]
    refine ⟨ranges_append.mpr ⟨h1, ranges_cons.mpr ⟨⟨?_, h4.2⟩, h5, ?_⟩, ?_⟩, _, hcons, ?_⟩
    · rw [hs]; exact hlt
    · rw [hs]; exact h6
    · intro a ha b hb
      rcases List.mem_cons.mp hb with rfl | hb
      · have := h3 a ha e (by simp); simp only; omega
      · exact h3 a ha b (by simp [hb])
    · simp [Rse.elems, hs]

theorem Ranges.advance (h : Ranges M (A ++ e :: B)) :
    Ranges M (A ++ advance M e ++ B) ∧ ∃ T, e.elems M = e.start :: T ∧
      elems M (A ++ advance M e ++ B) = elems M A ++ T ++ elems M B := by
  have hok := (h.nonempty e (by simp)).1
  obtain ⟨h1, T, h2, h3⟩ := h.trim (Nat.le_refl _) hok
  exact ⟨h1, T, by simpa using h2, h3⟩

theorem splice_entries {es : List Rse} (he : rs.entries = A ++ e :: B) :
    (rs.splice A.length es).entries = A ++ es ++ B := by
  simp [RangeSet.splice, he]

theorem splice_cursor {es : List Rse} (he : rs.entries = A ++ e :: B)
    (hc : ∀ p ∈ rs.rseCursor, p < rs.entries.length) :
    ∀ p ∈ (rs.splice A.length es).rseCursor, p < (rs.splice A.length es).entries.length := by
  intro p hp
  rw [splice_entries he]
  unfold RangeSet.splice at hp
  simp only [he, List.take_left', Option.mem_def, Option.bind_eq_some_iff] at hp
  obtain ⟨p', hp', hp⟩ := hp
  have hlt := hc p' hp'
  rw [he] at hlt
  simp only [List.length_append, List.length_cons] at hlt ⊢
  split at hp
  · cases hp; omega
  · split at hp
    · split at hp
      · next h => cases hp; simp at h; omega
      · cases hp
    · cases hp; omega

theorem RsOk.trim (h : RsOk M rs) (he : rs.entries = A ++ e :: B) (hs : e.start ≤ last)
    (hl : last < e.stop M) :
    RsOk M { rs.splice A.length (trim M e last) with
             nrItems := (rs.nrItems + M - (last - e.start + 1) % M) % M } ∧
      (elems M rs.entries).Perm (List.range' e.start (last + 1 - e.start) ++
        elems M (rs.splice A.length (Balloon.trim M e last)).entries) := by
  obtain ⟨h1, T, h2, h3⟩ := Ranges.trim (he ▸ h.ranges) hs hl
  have hM : 0 < M := by
    have := h.ranges.nonempty e (by rw [he]; simp)
    omega
  have hp : (elems M rs.entries).Perm (List.range' e.start (last + 1 - e.start) ++
      elems M (rs.splice A.length (Balloon.trim M e last)).entries) := by
    rw [splice_entries he, h3, he]
    simp only [elems_append, elems_cons, h2, List.append_assoc]
    exact List.perm_append_comm_assoc _ _ _
  refine ⟨⟨?_, splice_cursor he h.cursor, ?_⟩, hp⟩
  · rw [splice_entries he]; exact h1
  · have hlen := hp.length_eq
    rw [List.length_append, List.length_range'] at hlen
    simp only
    rw [h.items, mod_sub (by omega) hM]
    congr 1; omega

/-- The first index of the entry at `A.length` goes. -/
theorem RsOk.advance (h : RsOk M rs) (he : rs.entries = A ++ e :: B) :
    RsOk M { rs.splice A.length (advance M e) with nrItems := (rs.nrItems + M - 1 % M) % M } ∧
      (elems M rs.entries).Perm
        (e.start :: elems M (rs.splice A.length (Balloon.advance M e)).entries) := by
  have hok := (h.ranges.nonempty e (by rw [he]; simp)).1
  obtain ⟨h1, h2⟩ := h.trim he (Nat.le_refl _) hok
  rw [show e.start + 1 - e.start = 1 by omega] at h2
  simp only [Nat.sub_self, Nat.zero_add] at h1
  exact ⟨h1, h2⟩

theorem rangeSetPopOne_spec (h : RsOk M rs) (hx : elems M rs.entries = x :: rest) (hM : 1 < M) :
    ∃ rs', rangeSetPopOne M rs = some (x, rs') ∧ RsOk M rs' ∧ elems M rs'.entries = rest := by
  cases he : rs.entries with
  | nil => rw [he] at hx; simp at hx
  | cons e B =>
    obtain ⟨h1, h2⟩ := h.advance (A := []) he
    obtain ⟨-, T, h3, h4⟩ := Ranges.advance (A := []) (he ▸ h.ranges)
    have hx' : e.start = x ∧ T ++ elems M B = rest := by
      rw [he, elems_cons, h3] at hx
      simpa using hx
    rw [Nat.mod_eq_of_lt hM] at h1
    refine ⟨_, ?_, h1, ?_⟩
    · rw [rangeSetPopOne, he, ← hx'.1]; rfl
    · simp only
      rw [splice_entries (A := []) he, h4, ← hx'.2]
      rfl

/-- The sets after each of `n` calls of `RangeSetPopOne`. -/
theorem popOne_states (hM : 1 < M) (n : Nat) : ∀ {rs : RangeSet}, RsOk M rs →
    n ≤ (elems M rs.entries).length → ∃ states : Nat → RangeSet, states 0 = rs ∧
      (∀ i < n, rangeSetPopOne M (states i) =
        (elems M rs.entries)[i]?.map fun x => (x, states (i + 1))) ∧
      (∀ i ≤ n, RsOk M (states i) ∧ elems M (states i).entries = (elems M rs.entries).drop i) ∧
      rangeSetPopMany M rs n = some ((elems M rs.entries).take n, states n) := by
  induction n with
  | zero =>
    intro rs h _
    refine ⟨fun _ => rs, rfl, by simp, fun i hi => ?_, rfl⟩
    obtain rfl : i = 0 := by omega
    exact ⟨h, rfl⟩
  | succ n ih =>
    intro rs h hn
    cases he : elems M rs.entries with
    | nil => simp [he] at hn
    | cons x rest =>
      obtain ⟨rs1, h1, hok1, hr1⟩ := rangeSetPopOne_spec h he hM
      obtain ⟨states, h0, hstep, hstate, hmany⟩ :=
        ih hok1 (by rw [hr1]; rw [he, List.length_cons] at hn; omega)
      rw [hr1] at hstep hstate hmany
      refine ⟨fun i => i.casesOn rs states, rfl, fun i hi => ?_, fun i hi => ?_, ?_⟩
      · cases i with
        | zero => simpa [h0] using h1
        | succ i => simpa using hstep i (by omega)
      · cases i with
        | zero => exact ⟨h, he⟩
        | succ i => exact hstate i (by omega)
      · rw [rangeSetPopMany, h1]
        simp only
        rw [hmany]
        rfl

theorem rangeSetPopMany_spec (n : Nat) {rs : RangeSet} (h : RsOk M rs) (hM : 1 < M)
    (hn : n ≤ (elems M rs.entries).length) :
    ∃ rs', rangeSetPopMany M rs n = some ((elems M rs.entries).take n, rs') ∧ RsOk M rs' ∧
      elems M rs'.entries = (elems M rs.entries).drop n := by
  obtain ⟨states, -, -, hstate, hmany⟩ := popOne_states hM n h hn
  exact ⟨states n, hmany, hstate n (Nat.le_refl _)⟩

theorem findRange_spec (h : Ranges M (A ++ e :: B)) (h1 : e.start ≤ x) (h2 : x < e.end1)
    (n : Nat) : ∀ i, i < (A ++ e :: B).length → i < A.length + n → A.length < i + n →
    findRange (A ++ e :: B) x n i = some A.length := by
  obtain ⟨-, ha, h3⟩ := ranges_append.mp h
  have hb := (ranges_cons.mp ha).2.2
  have hstop : e.stop M = e.end1 := by unfold Rse.stop; rw [if_neg (by omega)]
  induction n with
  | zero => intro i _ hi1 hi2; omega
  | succ n ih =>
    intro i hi hi1 hi2
    rw [findRange, List.getElem?_eq_getElem hi]
    simp only
    rcases Nat.lt_trichotomy i A.length with hlt | heq | hgt
    · -- before it
      have hg : (A ++ e :: B)[i] ∈ A := by
        rw [List.getElem_append_left hlt]; exact List.getElem_mem _
      have := h3 _ hg e (by simp)
      have hok := h.nonempty _ (List.mem_append_left _ hg)
      have hend : ((A ++ e :: B)[i]).end1 ≤ x := by
        unfold Rse.stop at this; split at this <;> omega
      rw [if_neg (by omega), if_pos hend]
      refine ih (i + 1) ?_ (by omega) (by omega)
      simp only [List.length_append, List.length_cons]; omega
    · subst heq
      have hg : (A ++ e :: B)[A.length] = e := by simp
      rw [hg, if_neg (by omega), if_neg (by omega)]
    · -- behind it
      have hg : (A ++ e :: B)[i] ∈ B := by
        rw [List.getElem_append_right (by omega)]
        obtain ⟨k, hk⟩ := Nat.exists_eq_add_of_lt hgt
        have hk' : i - A.length = k + 1 := by omega
        simp only [hk', List.getElem_cons_succ]
        exact List.getElem_mem _
      have := hb _ hg
      rw [if_pos (by omega), if_neg (by omega)]
      exact ih (i - 1) (by omega) (by omega) (by omega)

/-- The end of a range is not in the set. -/
theorem Ranges.stop_not_mem (h : Ranges M (A ++ e :: B)) : e.stop M ∉ elems M (A ++ e :: B) := by
  obtain ⟨-, h2, h3⟩ := ranges_append.mp h
  obtain ⟨h4, -, h6⟩ := ranges_cons.mp h2
  intro hx
  obtain ⟨f, hf, h7, h8⟩ := mem_elems.mp hx
  rcases List.mem_append.mp hf with hf | hf
  · have := h3 f hf e (by simp); omega
  · rcases List.mem_cons.mp hf with rfl | hf
    · omega
    · have := h6 f hf; omega

/-- A range of indices in the set lies in one entry. -/
theorem Ranges.single (h : Ranges M rs.entries) (hle : start ≤ last)
    (hx : ∀ x, start ≤ x → x ≤ last → x ∈ elems M rs.entries) :
    ∃ A e B, rs.entries = A ++ e :: B ∧ e.start ≤ start ∧ last < e.stop M := by
  obtain ⟨e, he, h1, h2⟩ := mem_elems.mp (hx start (Nat.le_refl _) hle)
  obtain ⟨A, B, hsplit⟩ := List.append_of_mem he
  refine ⟨A, e, B, hsplit, h1, ?_⟩
  by_contra hge
  have hmem := hx (e.stop M) (by omega) (by omega)
  rw [hsplit] at h hmem
  exact h.stop_not_mem hmem

/-- The entry that holds the range is found from every cursor, unless it ends at `M`. -/
theorem findRange_cursor (h : RsOk M rs) (hsplit : rs.entries = A ++ e :: B) (h1 : e.start ≤ x)
    (h2 : x < e.end1) :
    findRange rs.entries x (rs.entries.length + 1) (rs.rseCursor.getD 0) = some A.length := by
  have hc : rs.rseCursor.getD 0 < rs.entries.length := by
    cases hcur : rs.rseCursor with
    | none => rw [hsplit, List.length_append, List.length_cons]; simp only [Option.getD_none]; omega
    | some p => exact h.cursor p (by simp [hcur])
  rw [hsplit] at hc ⊢
  refine findRange_spec (hsplit ▸ h.ranges) h1 h2 _ _ hc ?_ ?_
  · omega
  · simp only [List.length_append, List.length_cons]; omega

/-- A range at the start of its entry is removed exactly when the entry does not end at `M`. -/
theorem rangeSetRemoveRange_spec (h : RsOk M rs) (hsplit : rs.entries = A ++ e :: B)
    (hle : e.start ≤ last) (hend : last < e.end1) (alloc : Bool) :
    ∃ rs', rangeSetRemoveRange M rs e.start last alloc = some (true, rs') ∧ RsOk M rs' ∧
      rs'.nrItems = (rs.nrItems + M - (last - e.start + 1) % M) % M ∧
      (elems M rs.entries).Perm
        (List.range' e.start (last + 1 - e.start) ++ elems M rs'.entries) := by
  have hstop : e.stop M = e.end1 := by unfold Rse.stop; rw [if_neg (by omega)]
  obtain ⟨h3, h4⟩ := h.trim hsplit hle (by omega)
  refine ⟨_, ?_, h3, rfl, h4⟩
  unfold rangeSetRemoveRange
  rw [findRange_cursor h hsplit (Nat.le_refl _) (by omega)]
  have hget : rs.entries[A.length]? = some e := by rw [hsplit]; simp
  simp only [hget, if_true]
  rfl

/-- An index whose predecessor is not in the set is removed exactly. The source loses the
predecessor otherwise. -/
theorem rangeSetRemove_spec (h : RsOk M rs) (hx : x ∈ elems M rs.entries)
    (hpred : x ≠ 0 → x - 1 ∉ elems M rs.entries) (hmax : M - 1 ∉ elems M rs.entries)
    (alloc : Bool) :
    ∃ rs', rangeSetRemoveRange M rs x x alloc = some (true, rs') ∧ RsOk M rs' ∧
      (elems M rs.entries).Perm (x :: elems M rs'.entries) := by
  obtain ⟨e, he, h1, h2⟩ := mem_elems.mp hx
  have hok := h.ranges.nonempty e he
  -- the index starts its range
  obtain rfl : e.start = x := by
    by_contra hne
    exact hpred (by omega) (mem_elems.mpr ⟨e, he, by omega, by omega⟩)
  have hend : e.start < e.end1 := by
    unfold Rse.stop at h2 hok
    split at h2
    · next h0 =>
      rw [if_pos h0] at hok
      exact absurd (mem_elems.mpr ⟨e, he, by omega, by unfold Rse.stop; rw [if_pos h0]; omega⟩) hmax
    · exact h2
  obtain ⟨A, B, hsplit⟩ := List.append_of_mem he
  obtain ⟨rs', h3, h4, -, h5⟩ := rangeSetRemoveRange_spec h hsplit h1 hend alloc
  exact ⟨rs', h3, h4, by simpa using h5⟩

end Remove

/-! ## Arrays of indices -/

section Items
variable {M : Nat}

/-- The items are added up to the first for which there is no memory. -/
theorem rangeSetAddItems_spec (items : List Nat) : ∀ {rs : RangeSet} (alloc : Nat → Bool),
    RsOk M rs → (∀ x ∈ items, x < M ∧ x ∉ elems M rs.entries) → items.Nodup →
    ∃ n rs', rangeSetAddItems M rs items alloc = some (n, rs') ∧ RsOk M rs' ∧
      n ≤ items.length ∧ (elems M rs'.entries).Perm (items.take n ++ elems M rs.entries) ∧
      ((∀ i, i < items.length → alloc i = true) → n = items.length) := by
  induction items with
  | nil => intro rs alloc h _ _; exact ⟨0, rs, rfl, h, Nat.le_refl _, List.Perm.refl _, fun _ => rfl⟩
  | cons x items ih =>
    intro rs alloc h hx hnd
    rw [List.nodup_cons] at hnd
    obtain ⟨ok, rs1, h1, ho1, hd1, hf1⟩ := rangeSetAdd_spec h (hx x (by simp)).1
      (hx x (by simp)).2 (alloc 0)
    unfold rangeSetAddItems
    simp only [h1]
    cases ok
    · obtain ⟨hno, hsame⟩ := hf1 rfl
      refine ⟨0, rs1, rfl, ho1, by simp, by rw [hsame]; simp, fun hall => ?_⟩
      have := hall 0 (by simp)
      rw [hno] at this
      cases this
    · have hp1 := hd1 rfl
      have hx1 : ∀ y ∈ items, y < M ∧ y ∉ elems M rs1.entries := by
        intro y hy
        refine ⟨(hx y (by simp [hy])).1, fun hm => ?_⟩
        rcases List.mem_cons.mp (hp1.mem_iff.mp hm) with rfl | hm
        · exact hnd.1 hy
        · exact (hx y (by simp [hy])).2 hm
      obtain ⟨n, rs2, h2, ho2, hn2, hp2, hall2⟩ :=
        ih (fun i => alloc (i + 1)) ho1 hx1 hnd.2
      refine ⟨n + 1, rs2, by simp only; rw [h2]; rfl, ho2, by simp [hn2], ?_, fun hall => ?_⟩
      · rw [List.take_succ_cons, List.cons_append]
        exact hp2.trans ((List.Perm.append_left _ hp1).trans List.perm_middle)
      · rw [List.length_cons, hall2 fun i hi => hall (i + 1) (by simp [hi])]

/-- Ascending items are removed exactly when no predecessor of theirs stays in the set. -/
theorem rangeSetRemoveItems_spec (items : List Nat) : ∀ {rs : RangeSet} (alloc : Nat → Bool)
    {keep : List Nat}, RsOk M rs → (elems M rs.entries).Perm (items ++ keep) →
    items.Pairwise (· < ·) → (∀ x ∈ items, x ≠ 0 → x - 1 ∉ keep) → (∀ x ∈ items ++ keep, x < M - 1) →
    ∃ n rs', rangeSetRemoveItems M rs items alloc = some (n, rs') ∧ RsOk M rs' ∧
      (elems M rs'.entries).Perm keep := by
  induction items with
  | nil => intro rs alloc keep h hp _ _ _; exact ⟨0, rs, rfl, h, hp⟩
  | cons x items ih =>
    intro rs alloc keep h hp hs hpred hlt
    rw [List.pairwise_cons] at hs
    have hx : x ∈ elems M rs.entries := hp.mem_iff.mpr (by simp)
    have hpred' : x ≠ 0 → x - 1 ∉ elems M rs.entries := by
      intro h0 hm
      have := hp.mem_iff.mp hm
      rw [List.cons_append, List.mem_cons, List.mem_append] at this
      rcases this with he | hm | hm
      · omega
      · have := hs.1 _ hm; omega
      · exact hpred x (by simp) h0 hm
    have hmax : M - 1 ∉ elems M rs.entries := fun hm =>
      absurd (hlt _ (hp.mem_iff.mp hm)) (Nat.lt_irrefl _)
    obtain ⟨rs1, h1, ho1, hp1⟩ := rangeSetRemove_spec h hx hpred' hmax (alloc 0)
    have hp1' : (elems M rs1.entries).Perm (items ++ keep) := (hp1.symm.trans hp).cons_inv
    obtain ⟨n, rs2, h2, ho2, hp2⟩ := ih (fun i => alloc (i + 1)) ho1 hp1' hs.2
      (fun y hy => hpred y (by simp [hy])) fun y hy => hlt y (by simp at hy ⊢; grind)
    refine ⟨n + 1, rs2, ?_, ho2, hp2⟩
    rw [rangeSetRemoveItems, h1]
    simp only
    rw [h2]
    rfl

end Items

end XcWindows.Balloon
