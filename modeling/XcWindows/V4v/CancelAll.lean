import XcWindows.V4v.Csq

/-!
# Cancelling the IRPs of a file

`V4vCsqPeekTest` and `V4vCsqPeekNextIrp` of `xenv4v/csq.c`, and `V4vCancelAllFileIrps` of `create.c`,
which takes IRPs off the cancel-safe queue as long as one passes the test. It asks for the write
operation only, so that it takes the queued writes of the file and leaves its reads, its accepts
and the connects that have sent their SYN.
-/

namespace XcWindows.V4v.Csq

open Lib

abbrev peekDgram : BitVec 32 := 0x00000001
abbrev peekAnyType : BitVec 32 := 0x0000ffff
abbrev peekAnyOp : BitVec 32 := 0xffff0000

abbrev domidInvalid : Nat := 0x7FF4

/-- `XENV4V_QPEEK`; `pfo` is `none` for `NULL`. -/
structure QPeek where
  types : BitVec 32
  ops : BitVec 32
  pfo : Option Nat
  dst : Addr

namespace Queue

variable (s : Queue)

/-- `V4vCsqPeekTest`; `file` is the file object of an IRP. -/
def peekTest (file : Nat → Nat) (qp : QPeek) (irp : Nat) : Bool :=
  let types := (s.irps irp).flags &&& peekAnyType
  let ops := (s.irps irp).flags &&& peekAnyOp
  if qp.types &&& types ≠ 0 ∧ qp.ops &&& ops ≠ 0 then
    match qp.pfo with
    | none =>
      if qp.dst.domain = domidInvalid then true
      else (s.irps irp).dest.any fun idst => qp.dst = idst.dst
    | some pfo => file irp = pfo
  else false

/-- `V4vCsqPeekNextIrp`, from the head or behind an IRP; without a context every IRP passes. -/
def peekNextIrp (file : Nat → Nat) (irp : Option Nat) (peekContext : Option QPeek) : Option Nat :=
  let next :=
    match irp with
    | none => s.pendingIrpQueue
    | some i => (s.pendingIrpQueue.dropWhile (· ≠ i)).tail
  next.find? fun i => peekContext.all fun qp => s.peekTest file qp i

/-- `IoCsqRemoveNextIrp`: the first IRP that passes the test is taken off. -/
def removeNextIrp (file : Nat → Nat) (qp : QPeek) : Option (Option Nat × Queue) :=
  match s.peekNextIrp file none (some qp) with
  | none => some (none, s)
  | some irp => (s.removeIrp irp).map fun t => (some irp, t)

/-- The loop of `V4vCancelAllFileIrps`, and the IRPs it completes with `STATUS_CANCELLED`. -/
def cancelLoop (file : Nat → Nat) (qp : QPeek) : Nat → Queue → Option (List Nat × Queue)
  | 0, _ => none
  | n + 1, s =>
    match s.removeNextIrp file qp with
    | none => none
    | some (none, s) => some ([], s)
    | some (some irp, s) => (cancelLoop file qp n s).map fun (done, s) => (irp :: done, s)

/-- What `V4vCancelAllFileIrps` looks for. -/
def cancelPeek (pfo : Nat) : QPeek := ⟨peekAnyType, peekWrite, some pfo, ⟨0, 0⟩⟩

/-- `V4vCancelAllFileIrps`; every turn takes one IRP off. -/
def cancelAllFileIrps (file : Nat → Nat) (pfo : Nat) : Option (List Nat × Queue) :=
  cancelLoop file (cancelPeek pfo) (s.pendingIrpQueue.length + 1) s

end Queue

section Cancel

variable {s t u : Queue} {file : Nat → Nat} {pfo irp : Nat} {qp : QPeek}

/-! ## What a removal leaves alone -/

theorem unchainLoop_relinked {x x' : Destination} (n : Nat) : ∀ (last : Option Nat) (curr : Nat),
    s.unchainLoop x irp n last curr = some (u, x') → Relinked s u := by
  have hrefl : Relinked s s := ⟨rfl, fun _ => rfl, fun _ => rfl⟩
  induction n with
  | zero => intro last curr h; cases h
  | succ n ih =>
    intro last curr h
    unfold Queue.unchainLoop at h
    obtain ⟨idst, -, h⟩ := Option.bind_eq_some_iff.mp h
    split at h
    · split at h
      · cases h; exact hrefl
      · cases h; exact relinked_setNextIrp ..
    · split at h
      · cases h; exact hrefl
      · exact ih _ _ h

theorem removeIrp_keeps (h : s.removeIrp irp = some t) (j : Nat) :
    (t.irps j).flags = (s.irps j).flags ∧ (t.irps j).length = (s.irps j).length := by
  have hrelinked : ∃ u, Relinked s u ∧ t.irps = u.irps := by
    unfold Queue.removeIrp at h
    split at h
    · obtain ⟨u, hu, rfl⟩ := Option.map_eq_some_iff.mp h
      unfold Queue.unlinkDestination at hu
      obtain ⟨idst, -, hu⟩ := Option.bind_eq_some_iff.mp hu
      split at hu
      · cases hu
        exact ⟨s, ⟨rfl, fun _ => rfl, fun _ => rfl⟩, rfl⟩
      · next x _ =>
        obtain ⟨⟨v, x'⟩, hv, hu⟩ := Option.map_eq_some_iff.mp hu
        obtain ⟨curr, -, hv⟩ := Option.bind_eq_some_iff.mp hv
        have hr := (unchainLoop_relinked _ _ _ hv).trans (relinked_setDest v irp none)
        refine ⟨_, hr, ?_⟩
        simp only at hu
        split at hu
        · cases hu; rfl
        · cases hu; rfl
    · obtain ⟨u, hu, rfl⟩ := Option.map_eq_some_iff.mp h
      cases hu
      exact ⟨s, ⟨rfl, fun _ => rfl, fun _ => rfl⟩, rfl⟩
  obtain ⟨u, hr, he⟩ := hrelinked
  rw [he]
  exact ⟨hr.flags j, hr.length j⟩

/-! ## The loop -/

theorem peekTest_congr (h : (t.irps irp).flags = (s.irps irp).flags)
    (hp : qp.pfo = some pfo) : t.peekTest file qp irp = s.peekTest file qp irp := by
  simp only [Queue.peekTest, h, hp]

theorem cancelLoop_spec (hp : qp.pfo = some pfo) (n : Nat) : ∀ {s : Queue}, QueueOk s →
    s.pendingIrpQueue.length < n → ∃ t,
      Queue.cancelLoop file qp n s =
        some (s.pendingIrpQueue.filter fun i => s.peekTest file qp i, t) ∧ QueueOk t ∧
      t.pendingIrpQueue = (s.pendingIrpQueue.filter fun i => !s.peekTest file qp i) ∧
      ∀ j, (t.irps j).flags = (s.irps j).flags ∧ (t.irps j).length = (s.irps j).length := by
  induction n with
  | zero => intro s _ h; omega
  | succ n ih =>
    intro s ho hlen
    cases hf : s.pendingIrpQueue.find? fun i => s.peekTest file qp i with
    | none =>
      have hnone := List.find?_eq_none.mp hf
      refine ⟨s, ?_, ho, ?_, fun _ => ⟨rfl, rfl⟩⟩
      · unfold Queue.cancelLoop Queue.removeNextIrp
        simp only [Queue.peekNextIrp, Option.all_some, hf]
        rw [List.filter_eq_nil_iff.mpr hnone]
      · exact (List.filter_eq_self.mpr fun i hi => by simpa using hnone i hi).symm
    | some irp =>
      have hpass : s.peekTest file qp irp = true := by simpa using List.find?_some hf
      have hi := List.mem_of_find?_eq_some hf
      obtain ⟨u, hu, hou, hq⟩ := ho.removeIrp hi
      have hlen' : u.pendingIrpQueue.length < n := by
        have := List.length_erase_of_mem hi
        have := List.length_pos_of_mem hi
        rw [hq]
        omega
      obtain ⟨t, ht, hot, hqt, hkeeps⟩ := ih hou hlen'
      have htest : ∀ i, u.peekTest file qp i = s.peekTest file qp i := fun i =>
        peekTest_congr (removeIrp_keeps hu i).1 hp
      -- the first that passes is the head of those that pass
      obtain ⟨-, as, bs, hsplit, hbefore⟩ := List.find?_eq_some_iff_append.mp hf
      have hni : irp ∉ as := fun hm => by simpa [hpass] using hbefore irp hm
      have herase : s.pendingIrpQueue.erase irp = as ++ bs := by
        rw [hsplit, List.erase_append_right _ hni, List.erase_cons_head]
      have hnone : as.filter (fun i => s.peekTest file qp i) = [] :=
        List.filter_eq_nil_iff.mpr fun i hm => by simpa using hbefore i hm
      refine ⟨t, ?_, hot, ?_, fun j => ?_⟩
      · unfold Queue.cancelLoop Queue.removeNextIrp
        simp only [Queue.peekNextIrp, Option.all_some, hf, hu, Option.map_some, ht, htest]
        rw [hq, herase, hsplit]
        simp [List.filter_append, hnone, hpass]
      · simp only [hqt, htest]
        rw [hq, herase, hsplit]
        simp [List.filter_append, hpass]
      · obtain ⟨h1, h2⟩ := hkeeps j
        obtain ⟨h3, h4⟩ := removeIrp_keeps hu j
        exact ⟨h1.trans h3, h2.trans h4⟩

theorem cancelPeek_test (i : Nat) : s.peekTest file (Queue.cancelPeek pfo) i = true ↔
    file i = pfo ∧ (s.irps i).has peekAnyType = true ∧ (s.irps i).has peekWrite = true := by
  have h1 : ∀ f : BitVec 32, peekAnyType &&& (f &&& peekAnyType) = f &&& peekAnyType := by
    intro f
    rw [BitVec.and_comm, BitVec.and_assoc, BitVec.and_self]
  have h2 : ∀ f : BitVec 32, peekWrite &&& (f &&& peekAnyOp) = f &&& peekWrite := by
    intro f
    rw [BitVec.and_comm, BitVec.and_assoc]
    rfl
  simp only [Queue.peekTest, Queue.cancelPeek, h1, h2, Irp.has, bne_iff_ne]
  split
  · next h => exact ⟨fun hf => ⟨of_decide_eq_true hf, h⟩, fun hc => decide_eq_true hc.1⟩
  · next h => exact iff_of_false (by simp) fun hc => h hc.2

end Cancel

/-- In every state of the queue `V4vCancelAllFileIrps` returns. It has completed the writes of the
file and left the IRPs of other files as they were; no IRP of the file is left if and only if all
that were queued are writes. -/
theorem cancelAll_complete_iff (irps : Nat → Irp) (buffers : Nat → Buffers) (dstOf : Nat → Addr)
    {s : Queue} (h : Machine.Reach (csqMachine irps buffers dstOf) Machine.Any s)
    (file : Nat → Nat) (pfo : Nat) :
    ∃ done t, s.cancelAllFileIrps file pfo = some (done, t) ∧
      (∀ i, i ∈ done ↔ i ∈ s.pendingIrpQueue ∧ file i = pfo ∧
        (s.irps i).has peekAnyType = true ∧ (s.irps i).has peekWrite = true) ∧
      (t.pendingIrpQueue.filter fun i => file i ≠ pfo) =
        (s.pendingIrpQueue.filter fun i => file i ≠ pfo) ∧
      (∀ i, (t.irps i).flags = (s.irps i).flags ∧ (t.irps i).length = (s.irps i).length) ∧
      ((∀ i ∈ t.pendingIrpQueue, file i ≠ pfo) ↔ ∀ i ∈ s.pendingIrpQueue, file i = pfo →
        (s.irps i).has peekAnyType = true ∧ (s.irps i).has peekWrite = true) := by
  have hp : (Queue.cancelPeek pfo).pfo = some pfo := rfl
  obtain ⟨t, ht, -, hq, hkeeps⟩ := cancelLoop_spec hp _ (queueOk_reach h) (Nat.lt_succ_self _)
  have hleft : ∀ i, i ∈ t.pendingIrpQueue ↔ i ∈ s.pendingIrpQueue ∧
      ¬ s.peekTest file (Queue.cancelPeek pfo) i = true := by
    intro i
    rw [hq, List.mem_filter, Bool.not_eq_true', Bool.not_eq_true]
  refine ⟨_, t, ht, fun i => by rw [List.mem_filter, cancelPeek_test], ?_, hkeeps, ?_⟩
  · rw [hq, List.filter_filter]
    refine List.filter_congr fun i _ => ?_
    -- an IRP of another file does not pass
    by_cases hf : file i = pfo
    · simp [hf]
    · have hno : s.peekTest file (Queue.cancelPeek pfo) i = false :=
        Bool.eq_false_iff.mpr fun hc => hf (cancelPeek_test i |>.mp hc).1
      simp [hf, hno]
  · constructor
    · intro hall i hi hf
      by_contra hno
      refine hall i ((hleft i).mpr ⟨hi, fun hc => hno ?_⟩) hf
      exact ((cancelPeek_test i).mp hc).2
    · intro hall i hi hf
      obtain ⟨his, hno⟩ := (hleft i).mp hi
      exact hno ((cancelPeek_test i).mpr ⟨hf, hall i his hf⟩)

/-- A file with a read and a write, and a write of another one. -/
def readAndWrites : List Act :=
  [.prepare 0 (peekDgram ||| peekRead) 100, .prepare 1 (peekDgram ||| peekWrite) 50,
    .prepare 2 (peekDgram ||| peekWrite) 20, .insert 0 false true true, .insert 1 false true true,
    .insert 2 false true true]

/-- The read of file 5 stays when its IRPs are cancelled. -/
theorem cancelAll_leaves_read : ∃ s, Machine.Reach (csqMachine (fun _ => ⟨0, none, 0⟩)
      (fun _ => ⟨⟨1, 7⟩, ⟨1, 7⟩, ⟨2, 7⟩⟩) fun _ => ⟨0, 0⟩) Machine.Any s ∧
    (s.cancelAllFileIrps (fun i => if i = 2 then 6 else 5) 5).map
      (fun p => (p.1, p.2.pendingIrpQueue)) = some ([1], [0, 2]) := by
  obtain ⟨s, hr, hs⟩ := Machine.exists_reach (csqMachine (fun _ => ⟨0, none, 0⟩)
      (fun _ => ⟨⟨1, 7⟩, ⟨1, 7⟩, ⟨2, 7⟩⟩) fun _ => ⟨0, 0⟩) Machine.Any
    (fun s => decide ((s.cancelAllFileIrps (fun i => if i = 2 then 6 else 5) 5).map
      (fun p => (p.1, p.2.pendingIrpQueue)) = some ([1], [0, 2])))
    readAndWrites (by decide +kernel)
  exact ⟨s, hr, of_decide_eq_true hs⟩

/-- No IRP of file 6, which has a write only. -/
theorem cancelAll_complete_write : ∃ s, Machine.Reach (csqMachine (fun _ => ⟨0, none, 0⟩)
      (fun _ => ⟨⟨1, 7⟩, ⟨1, 7⟩, ⟨2, 7⟩⟩) fun _ => ⟨0, 0⟩) Machine.Any s ∧
    s.pendingIrpQueue = [0, 1, 2] ∧
    ∃ done t, s.cancelAllFileIrps (fun i => if i = 2 then 6 else 5) 6 = some (done, t) ∧
      ∀ i ∈ t.pendingIrpQueue, (if i = 2 then 6 else 5) ≠ 6 := by
  obtain ⟨s, hr, hs⟩ := Machine.exists_reach (csqMachine (fun _ => ⟨0, none, 0⟩)
      (fun _ => ⟨⟨1, 7⟩, ⟨1, 7⟩, ⟨2, 7⟩⟩) fun _ => ⟨0, 0⟩) Machine.Any
    (fun s => decide (s.pendingIrpQueue = [0, 1, 2] ∧ ∀ i ∈ s.pendingIrpQueue,
      (if i = 2 then 6 else 5) = 6 → (s.irps i).has peekAnyType = true ∧
        (s.irps i).has peekWrite = true))
    readAndWrites (by decide +kernel)
  obtain ⟨hq, hall⟩ := of_decide_eq_true hs
  obtain ⟨done, t, ht, -, -, -, hiff⟩ := cancelAll_complete_iff _ _ _ hr
    (fun i => if i = 2 then 6 else 5) 6
  exact ⟨s, hr, hq, done, t, ht, hiff.mpr hall⟩

end XcWindows.V4v.Csq
