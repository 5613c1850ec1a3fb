import XcWindows.V4v.Csq

/-!
# The destination of a datagram changes while it is read

The destination of a datagram write is in the buffer of the caller, who can store to it while
`V4vCsqLinkDestination` runs. The header is read to capture the destination, once for every record
it is compared with, and to create a record. `reads k` is what the `k`-th of these reads sees; the
queue is that of `Csq`, whose `linkDestination` is the case where all of them see the same.
-/

namespace XcWindows.V4v.Csq

open Lib

/-- The search of `V4vCsqLinkDestination`: the place of the first record that is equal to the header
when it is compared. -/
def findDest (reads : Nat → Addr) : List Destination → Option Nat
  | [] => none
  | x :: l => if x.dst = reads 0 then some 0 else (findDest (fun k => reads (k + 1)) l).map (· + 1)

namespace Queue

variable (s : Queue)

/-- `V4vCsqLinkDestination` -/
def linkDestinationReads (irp : Nat) (front alloc alloc' : Bool) (reads : Nat → Addr) :
    Option (Bool × Queue) :=
  if alloc then
    let t := s.setDest irp (some ⟨reads 0, none⟩)
    match findDest (fun k => reads (k + 1)) t.destList with
    | some m =>
      t.destList[m]?.bind fun xdst =>
        (t.chainIrp { xdst with refc := xdst.refc + 1 } irp front).map fun (t, xdst) =>
          (true, { t with destList := t.destList.set m xdst })
    | none =>
      if alloc' then
        some (true, { t with
          destList := t.destList ++
            [⟨1, payloadDataLen (t.irps irp), some irp, reads (t.destList.length + 1)⟩]
          destCount := t.destCount + 1 })
      else some (false, t.setDest irp none)
  else some (false, s.setDest irp none)

/-- `V4vCsqInsertIrpEx` -/
def insertIrpExReads (irp : Nat) (insertHead alloc alloc' : Bool) (reads : Nat → Addr) :
    Option (InsertStatus × Queue) :=
  if s.pendingIrpCount = maxIrpCount then some (.quotaExceeded, s)
  else
    (if (s.irps irp).has peekWrite then s.linkDestinationReads irp insertHead alloc alloc' reads
      else some (true, s)).map fun (linked, t) =>
        if linked then (.success, t.pushed insertHead irp (reads 0)) else (.noMemory, t)

/-- The IRP is on the chain of the record that `V4vCsqUnlinkDestination` is going to find. -/
def ChainedRight (irp : Nat) (d : Addr) : Prop :=
  (s.irps irp).dest.map (·.dst) = some d ∧ ∃ x c, s.destList.find? (·.dst = d) = some x ∧
    Seg s.next x.nextIrp c none ∧ irp ∈ c

end Queue

/-- The reads find the record of the captured destination, or create it when there is none. -/
def Stable (reads : Nat → Addr) (l : List Destination) : Prop :=
  (∃ m x, l[m]? = some x ∧ x.dst = reads 0 ∧ reads (m + 1) = reads 0 ∧
    ∀ k y, k < m → l[k]? = some y → y.dst ≠ reads (k + 1)) ∨
  ((∀ x ∈ l, x.dst ≠ reads 0) ∧ (∀ k y, l[k]? = some y → y.dst ≠ reads (k + 1)) ∧
    reads (l.length + 1) = reads 0)

inductive ReadAct where
  | prepare (irp : Nat) (flags length : BitVec 32)
  | insert (irp : Nat) (insertHead alloc alloc' : Bool) (reads : Nat → Addr)
  | remove (irp : Nat)

/-- The cancel-safe queue, with every value that the reads of an insertion may see. -/
def csqReadsMachine (irps : Nat → Irp) (buffers : Nat → Buffers) (dstOf : Nat → Addr) :
    Machine Queue ReadAct where
  init := (csqMachine irps buffers dstOf).init
  step s
    | .prepare irp flags length => s.step (.prepare irp flags length)
    | .insert irp insertHead alloc alloc' reads =>
      if irp ∈ s.pendingIrpQueue then none
      else (s.insertIrpExReads irp insertHead alloc alloc' reads).map (·.2)
    | .remove irp => s.step (.remove irp)

/-- The condition on a step. -/
def StableInserts (s : Queue) : ReadAct → Prop
  | .insert irp _ _ _ reads => (s.irps irp).has peekWrite = true → Stable reads s.destList
  | _ => True

section Search

variable {reads : Nat → Addr} {l : List Destination}

theorem findDest_none :
    findDest reads l = none ↔ ∀ k y, l[k]? = some y → y.dst ≠ reads k := by
  induction l generalizing reads with
  | nil => simp [findDest]
  | cons x l ih =>
    unfold findDest
    split
    · next h => exact iff_of_false (by simp) fun hall => hall 0 x rfl h
    · next h =>
      rw [Option.map_eq_none_iff, ih]
      constructor
      · intro hall k y hy
        cases k with
        | zero => cases hy; exact h
        | succ k => exact hall k y hy
      · exact fun hall k y hy => hall (k + 1) y hy

theorem findDest_some {m : Nat} :
    findDest reads l = some m ↔ ∃ x, l[m]? = some x ∧ x.dst = reads m ∧
      ∀ k y, k < m → l[k]? = some y → y.dst ≠ reads k := by
  induction l generalizing reads m with
  | nil => simp [findDest]
  | cons x l ih =>
    unfold findDest
    split
    · next h =>
      rw [Option.some.injEq]
      constructor
      · rintro rfl
        exact ⟨x, rfl, h, by simp⟩
      · rintro ⟨y, -, -, hall⟩
        by_contra hne
        exact hall 0 x (by omega) rfl h
    · next h =>
      rw [Option.map_eq_some_iff]
      constructor
      · rintro ⟨k, hk, rfl⟩
        obtain ⟨y, hy, hd, hall⟩ := ih.mp hk
        refine ⟨y, hy, hd, fun j z hj hz => ?_⟩
        cases j with
        | zero => cases hz; exact h
        | succ j => exact hall j z (by omega) hz
      · rintro ⟨y, hy, hd, hall⟩
        cases m with
        | zero => cases hy; exact absurd hd h
        | succ m =>
          exact ⟨m, ih.mpr ⟨y, hy, hd, fun j z hj hz => hall (j + 1) z (by omega) hz⟩, rfl⟩

/-- At a record of its own the store by place is the store by key. -/
theorem set_eq_putKey {m : Nat} {x x' : Destination} (hkeys : (l.map (·.dst)).Nodup)
    (hm : l[m]? = some x) (hd : x'.dst = x.dst) : l.set m x' = putKey (·.dst) x' l := by
  obtain ⟨hlt, rfl⟩ := List.getElem?_eq_some_iff.mp hm
  have hsplit : l = l.take m ++ l[m] :: l.drop (m + 1) := by simp
  rw [hsplit] at hkeys
  have hput : putKey (·.dst) x' (l.take m ++ l[m] :: l.drop (m + 1)) =
      l.take m ++ x' :: l.drop (m + 1) := putKey_split hkeys hd
  rw [← hsplit] at hput
  rw [hput, List.set_eq_take_append_cons_drop, if_pos hlt]

theorem find?_of_getElem? {m : Nat} {x : Destination} (hkeys : (l.map (·.dst)).Nodup)
    (hm : l[m]? = some x) : l.find? (·.dst = x.dst) = some x := by
  obtain ⟨hlt, rfl⟩ := List.getElem?_eq_some_iff.mp hm
  have hsplit : l = l.take m ++ l[m] :: l.drop (m + 1) := by simp
  rw [hsplit] at hkeys
  have := find?_key hkeys
  rwa [← hsplit] at this

end Search

section Steady

variable {s u : Queue} {irp : Nat} {front : Bool} {x x' : Destination}

theorem chainIrp_keeps (h : s.chainIrp x irp front = some (u, x')) :
    u.destList = s.destList ∧ x'.dst = x.dst := by
  unfold Queue.chainIrp at h
  split at h
  · cases h
    exact ⟨rfl, rfl⟩
  · split at h
    · cases h
      exact ⟨rfl, rfl⟩
    · obtain ⟨last, -, he⟩ := Option.map_eq_some_iff.mp h
      cases he
      exact ⟨rfl, rfl⟩

theorem linkDestination_eq_reads (hkeys : (s.destList.map (·.dst)).Nodup) (alloc alloc' : Bool) :
    s.linkDestination irp front alloc alloc' =
      s.linkDestinationReads irp front alloc alloc' fun _ => s.getDestination irp := by
  unfold Queue.linkDestination Queue.linkDestinationReads
  generalize s.getDestination irp = d
  cases alloc with
  | false => rfl
  | true =>
    simp only [if_true]
    have hl : (s.setDest irp (some ⟨d, none⟩)).destList = s.destList := rfl
    generalize s.setDest irp (some ⟨d, none⟩) = t at hl
    rw [← hl] at hkeys
    cases hf : findDest (fun _ => d) t.destList with
    | none =>
      have hnone : t.destList.find? (·.dst = d) = none := by
        refine List.find?_eq_none.mpr fun y hy => ?_
        obtain ⟨k, hk⟩ := List.mem_iff_getElem?.mp hy
        simpa using findDest_none.mp hf k y hk
      rw [hnone]
    | some m =>
      obtain ⟨y, hm, rfl, -⟩ := findDest_some.mp hf
      rw [find?_of_getElem? hkeys hm]
      simp only [hm, Option.bind_some]
      cases hch : t.chainIrp { y with refc := y.refc + 1 } irp front with
      | none => rfl
      | some p =>
        obtain ⟨v, y'⟩ := p
        obtain ⟨hv, hd⟩ := chainIrp_keeps hch
        simp only [Option.map_some]
        rw [hv, set_eq_putKey hkeys hm hd]

end Steady

section Link

variable {s t u : Queue} {irp : Nat} {reads : Nat → Addr} {x : Destination} {m : Nat}

/-- The found record takes the IRP on its chain, whatever destination it has. -/
theorem QueueOk.chainRead (front : Bool) (ho : QueueOk s) (hi : irp ∉ s.pendingIrpQueue)
    (hx : x ∈ s.destList) {d : Addr} (ht : t = s.setDest irp (some ⟨d, none⟩)) :
    ∃ u x', t.chainIrp { x with refc := x.refc + 1 } irp front = some (u, x') ∧
      Relinked s u ∧ x'.dst = x.dst ∧ (∀ j, j ∉ irp :: s.writesTo x.dst → u.irps j = s.irps j) ∧
      (u.irps irp).dest.map (·.dst) = some d := by
  have hst : Relinked s t := ht ▸ relinked_setDest ..
  have htj : ∀ j, j ≠ irp → t.irps j = s.irps j := fun j hne => ht ▸ setDest_irps_ne hne
  have hti : (t.irps irp).dest = some ⟨d, none⟩ := ht ▸ setDest_dest
  have hok := ho.dests x hx
  have hne : ∀ j ∈ s.writesTo x.dst, j ≠ irp := by
    rintro j hj rfl
    exact not_mem_writesTo hi hj
  have hc : Seg t.next x.nextIrp (s.writesTo x.dst) none :=
    hok.chain.congr fun j hj => by simp only [Queue.next, htj j (hne j hj)]
  obtain ⟨u, x', hch, R⟩ := chainIrp_spec (x := { x with refc := x.refc + 1 }) front hc hok.used
    (ho.nodup.filter _) (fun j hj => by rw [htj j (hne j hj)]; exact ho.dest_ne hj)
    (by rw [hst.queue]; exact writesTo_length_le ..) (not_mem_writesTo hi) hti
    (fun i hh => by rw [hst.payload]; exact hok.nextLength i hh)
  refine ⟨u, x', hch, hst.trans R.relinked, R.dst, fun j hj => ?_, by rw [R.stash, hti]; rfl⟩
  rw [R.others j hj]
  exact htj j fun e => hj (e ▸ List.mem_cons_self)

/-- The chain of an old record does not hold a new IRP unless it was put there. -/
theorem QueueOk.not_chained (ho : QueueOk s) (hi : irp ∉ s.pendingIrpQueue) {y : Destination}
    (hy : y ∈ s.destList) (hn : ∀ j ∈ s.writesTo y.dst, u.irps j = s.irps j) {c : List Nat}
    (hc : Seg u.next y.nextIrp c none) : irp ∉ c := by
  have hold : Seg u.next y.nextIrp (s.writesTo y.dst) none :=
    (ho.dests y hy).chain.congr fun j hj => by simp only [Queue.next, hn j hj]
  rw [hc.unique hold]
  exact not_mem_writesTo hi

theorem QueueOk.linkStable (front alloc alloc' : Bool) (ho : QueueOk s)
    (hi : irp ∉ s.pendingIrpQueue) (hw : (s.irps irp).has peekWrite = true)
    (hstable : Stable reads s.destList) :
    ∃ linked t, s.linkDestinationReads irp front alloc alloc' reads = some (linked, t) ∧
      (linked = false → t = s.setDest irp none) ∧
      (linked = true → QueueOk (t.pushed front irp (reads 0)) ∧
        (t.irps irp).has peekWrite = true) := by
  cases alloc with
  | false => exact ⟨false, _, rfl, fun _ => rfl, nofun⟩
  | true =>
    generalize ht : s.setDest irp (some ⟨reads 0, none⟩) = t
    have hst : Relinked s t := ht ▸ relinked_setDest ..
    simp only [Queue.linkDestinationReads, if_true, ht]
    rcases hstable with ⟨m, x, hm, hd, hr, hbefore⟩ | ⟨hnew, hnone, hr⟩
    · have hfind : findDest (fun k => reads (k + 1)) t.destList = some m :=
        findDest_some.mpr ⟨x, hst.destList ▸ hm, hd.trans hr.symm, by rwa [hst.destList]⟩
      have hf : s.destList.find? (·.dst = reads 0) = some x := hd ▸ find?_of_getElem? ho.keys hm
      obtain ⟨u, x', hch, hsu, hok⟩ := ho.linkFound front hi hw hf ht.symm
      obtain ⟨u', y, hch', -, hdst, -⟩ := ho.chainRead front hi (List.mem_of_getElem? hm) ht.symm
      rw [hch, Option.some.injEq, Prod.mk.injEq] at hch'
      obtain ⟨-, rfl⟩ := hch'
      rw [hfind]
      dsimp only
      rw [hst.destList, hm, Option.bind_some, hch]
      refine ⟨true, _, rfl, nofun, fun _ => ⟨?_, (hsu.has irp peekWrite).trans hw⟩⟩
      rw [set_eq_putKey (hsu.destList ▸ ho.keys) (hsu.destList ▸ hm) hdst]
      exact hok
    · have hfind : findDest (fun k => reads (k + 1)) t.destList = none :=
        findDest_none.mpr (by rwa [hst.destList])
      rw [hfind]
      dsimp only
      cases alloc' with
      | true =>
        refine ⟨true, _, rfl, nofun, fun _ => ⟨?_, (hst.has irp peekWrite).trans hw⟩⟩
        have hr' : reads (t.destList.length + 1) = reads 0 := by rw [hst.destList]; exact hr
        rw [hr']
        exact ho.linkNew front hi hw hnew ht.symm
      | false =>
        refine ⟨false, _, rfl, fun _ => ?_, nofun⟩
        simp [← ht, Queue.setDest]

theorem QueueOk.chainedRight (ho : QueueOk s) (hi : irp ∈ s.pendingIrpQueue)
    (hw : (s.irps irp).has peekWrite = true) : s.ChainedRight irp (s.dstOf irp) := by
  obtain ⟨x, hx, hxd⟩ := ho.known irp hi hw
  obtain ⟨m, hm⟩ := List.mem_iff_getElem?.mp hx
  refine ⟨ho.stash irp hi hw, x, s.writesTo x.dst, hxd ▸ find?_of_getElem? ho.keys hm,
    (ho.dests x hx).chain, mem_writesTo.mpr ⟨hi, hw, hxd.symm⟩⟩

/-- With other reads the IRP is linked where it is not going to be found. -/
theorem QueueOk.linkUnstable (front alloc alloc' : Bool) (ho : QueueOk s)
    (hi : irp ∉ s.pendingIrpQueue)
    (hlink : s.linkDestinationReads irp front alloc alloc' reads = some (true, t))
    (hstable : ¬ Stable reads s.destList) : ¬ t.ChainedRight irp (reads 0) := by
  rw [Stable, not_or] at hstable
  rintro ⟨-, y, c, hy, hc, hmem⟩
  have hyd : y.dst = reads 0 := by simpa using List.find?_some hy
  have hyl := List.mem_of_find?_eq_some hy
  unfold Queue.linkDestinationReads at hlink
  split at hlink
  · generalize ht : s.setDest irp (some ⟨reads 0, none⟩) = u at hlink
    have hst : Relinked s u := ht ▸ relinked_setDest ..
    simp only [hst.destList] at hlink
    split at hlink
    · next m hfind =>
      -- the IRP is on the chain of another destination
      obtain ⟨x, hm, hd, hbefore⟩ := findDest_some.mp hfind
      have hxl := List.mem_of_getElem? hm
      have hne : x.dst ≠ reads 0 := fun he =>
        hstable.1 ⟨m, x, hm, he, hd.symm.trans he, hbefore⟩
      obtain ⟨v, x', hch, hr, hx', hothers, -⟩ := ho.chainRead front hi hxl ht.symm
      rw [hm, Option.bind_some, hch] at hlink
      cases hlink
      have hys : y ∈ s.destList := by
        rcases List.mem_or_eq_of_mem_set hyl with hyl | rfl
        · exact hr.destList ▸ hyl
        · exact absurd (hx'.symm.trans hyd) hne
      refine ho.not_chained hi hys (fun j hj => hothers j ?_) hc hmem
      rw [List.mem_cons, not_or]
      refine ⟨?_, fun hj' => hne ?_⟩
      · rintro rfl
        exact not_mem_writesTo hi hj
      · rw [← (mem_writesTo.mp hj').2.2, (mem_writesTo.mp hj).2.2, hyd]
    · next hfind =>
      split at hlink
      · -- the record of the captured destination is an old one
        cases hlink
        have hnone := findDest_none.mp hfind
        have hys : y ∈ s.destList := by
          rcases List.mem_append.mp hyl with hyl | hyl
          · exact hst.destList ▸ hyl
          · obtain rfl := List.mem_singleton.mp hyl
            by_contra hns
            refine hstable.2 ⟨fun x hx he => ?_, hnone, hyd⟩
            have hfirst : (s.destList.find? (·.dst = reads 0)).isSome = true :=
              List.find?_isSome.mpr ⟨x, hx, by simpa using he⟩
            obtain ⟨z, hz⟩ := Option.isSome_iff_exists.mp hfirst
            rw [List.find?_append, hz, Option.some_or, Option.some.injEq] at hy
            exact hns (hy ▸ List.mem_of_find?_eq_some hz)
        refine ho.not_chained hi hys (fun j hj => ?_) hc hmem
        have hji : j ≠ irp := by
          rintro rfl
          exact not_mem_writesTo hi hj
        exact ht ▸ setDest_irps_ne hji
      · cases hlink
  · cases hlink

theorem QueueOk.insertReads_iff (insertHead alloc alloc' : Bool) (ho : QueueOk s)
    (hi : irp ∉ s.pendingIrpQueue) (hw : (s.irps irp).has peekWrite = true)
    (h : s.insertIrpExReads irp insertHead alloc alloc' reads = some (.success, t)) :
    t.ChainedRight irp (reads 0) ↔ Stable reads s.destList := by
  unfold Queue.insertIrpExReads at h
  by_cases hfull : s.pendingIrpCount = maxIrpCount
  · rw [if_pos hfull] at h
    cases h
  rw [if_neg hfull, if_pos hw] at h
  obtain ⟨⟨linked, u⟩, hlink, hu⟩ := Option.map_eq_some_iff.mp h
  cases linked with
  | false => cases hu
  | true =>
    cases hu
    constructor
    · intro hc
      by_contra hstable
      exact ho.linkUnstable insertHead alloc alloc' hi hlink hstable hc
    · intro hstable
      obtain ⟨linked, v, hlink', -, hyes⟩ := ho.linkStable insertHead alloc alloc' hi hw hstable
      rw [hlink, Option.some.injEq, Prod.mk.injEq] at hlink'
      obtain ⟨rfl, rfl⟩ := hlink'
      obtain ⟨hok, hw'⟩ := hyes rfl
      have hin : irp ∈ (u.pushed insertHead irp (reads 0)).pendingIrpQueue :=
        mem_push.mpr (.inl rfl)
      have hc := hok.chainedRight hin hw'
      have hd : (u.pushed insertHead irp (reads 0)).dstOf irp = reads 0 := Function.update_self ..
      rwa [hd] at hc

theorem QueueOk.readStep {a : ReadAct} {irps : Nat → Irp} {buffers : Nat → Buffers}
    {dstOf : Nat → Addr} (ho : QueueOk s) (hok : StableInserts s a)
    (hs : (csqReadsMachine irps buffers dstOf).step s a = some t) : QueueOk t := by
  cases a with
  | prepare i flags length => exact QueueOk.step (a := .prepare i flags length) ho hs
  | remove i => exact QueueOk.step (a := .remove i) ho hs
  | insert i insertHead alloc alloc' reads =>
    simp only [csqReadsMachine] at hs
    split at hs
    · cases hs
    next hi =>
    obtain ⟨⟨status, u⟩, hu, rfl⟩ := Option.map_eq_some_iff.mp hs
    unfold Queue.insertIrpExReads at hu
    by_cases hfull : s.pendingIrpCount = maxIrpCount
    · rw [if_pos hfull] at hu
      cases hu
      exact ho
    rw [if_neg hfull] at hu
    by_cases hw : (s.irps i).has peekWrite = true
    · rw [if_pos hw] at hu
      obtain ⟨linked, v, hlink, hno, hyes⟩ :=
        ho.linkStable insertHead alloc alloc' hi hw (hok hw)
      rw [hlink] at hu
      cases linked with
      | true =>
        cases hu
        exact (hyes rfl).1
      | false =>
        cases hu
        rw [hno rfl]
        refine ho.congr rfl fun j hj => setDest_irps_ne ?_
        rintro rfl
        exact hi hj
    · rw [if_neg hw] at hu
      cases hu
      exact ho.enqueueRead insertHead hi hw

end Link

/-- In every run whose insertions have stable reads, a queued write IRP is on the chain of the
record of its captured destination, and its removal finds it there. A further insertion puts its
IRP there if and only if its reads are stable. -/
theorem destination_stable (irps : Nat → Irp) (buffers : Nat → Buffers) (dstOf : Nat → Addr)
    {s : Queue} (h : Machine.Reach (csqReadsMachine irps buffers dstOf) StableInserts s) :
    (∀ irp ∈ s.pendingIrpQueue, (s.irps irp).has peekWrite = true →
      s.ChainedRight irp (s.dstOf irp) ∧ ∃ t, s.removeIrp irp = some t ∧
        t.pendingIrpQueue = s.pendingIrpQueue.erase irp ∧ ∀ x ∈ t.destList, DestOk t x) ∧
    ∀ irp insertHead alloc alloc' reads t, irp ∉ s.pendingIrpQueue →
      (s.irps irp).has peekWrite = true →
      s.insertIrpExReads irp insertHead alloc alloc' reads = some (.success, t) →
      (t.ChainedRight irp (reads 0) ↔ Stable reads s.destList) := by
  have h0 : QueueOk (csqReadsMachine irps buffers dstOf).init := queueOk_init irps buffers dstOf
  have ho : QueueOk s := h.inv h0 fun _ _ _ ho hok hs => ho.readStep hok hs
  refine ⟨fun irp hi hw => ⟨ho.chainedRight hi hw, ?_⟩,
    fun irp insertHead alloc alloc' reads t hi hw ht => ho.insertReads_iff _ _ _ hi hw ht⟩
  obtain ⟨t, ht, hok, hq⟩ := ho.removeIrp hi
  exact ⟨t, ht, hq, hok.dests⟩

/-- A header that does not change is stable. -/
theorem stable_const (d : Addr) (l : List Destination) : Stable (fun _ => d) l := by
  cases hf : findDest (fun _ => d) l with
  | none =>
    have hnone := findDest_none.mp hf
    refine .inr ⟨fun x hx => ?_, hnone, rfl⟩
    obtain ⟨k, hk⟩ := List.mem_iff_getElem?.mp hx
    exact hnone k x hk
  | some m =>
    obtain ⟨x, hm, hd, hbefore⟩ := findDest_some.mp hf
    exact .inl ⟨m, x, hm, hd, rfl, hbefore⟩

/-- An insertion whose header does not change. -/
def steadyInsert (irp : Nat) : ReadAct := .insert irp false true true fun _ => ⟨2, 7⟩

/-- The queue of a device, with datagrams to one place. -/
abbrev datagramMachine : Machine Queue ReadAct :=
  csqReadsMachine (fun _ => ⟨0, none, 0⟩) (fun _ => ⟨⟨1, 7⟩, ⟨1, 7⟩, ⟨2, 7⟩⟩) fun _ => ⟨0, 0⟩

theorem stableInserts_steady {as : List ReadAct}
    (h : ∀ a ∈ as, (∃ i, a = steadyInsert i) ∨ ∃ i f n, a = .prepare i f n) :
    ∀ a ∈ as, ∀ s, StableInserts s a := by
  intro a ha s
  rcases h a ha with ⟨i, rfl⟩ | ⟨i, f, n, rfl⟩
  · exact fun _ => stable_const _ _
  · trivial

theorem destination_stable_two : ∃ s, Machine.Reach datagramMachine StableInserts s ∧
    s.pendingIrpQueue = [0, 1] ∧ s.ChainedRight 1 (s.dstOf 1) := by
  obtain ⟨s, hr, hs⟩ := Machine.exists_reach_of_forall datagramMachine StableInserts
    (fun s => decide (s.pendingIrpQueue = [0, 1] ∧ (s.irps 1).has peekWrite = true))
    [.prepare 0 peekWrite 20, steadyInsert 0, .prepare 1 peekWrite 30, steadyInsert 1]
    (stableInserts_steady (by simp)) (by decide +kernel)
  obtain ⟨hq, hw⟩ := of_decide_eq_true hs
  exact ⟨s, hr, hq, ((destination_stable _ _ _ hr).1 1 (by simp [hq]) hw).1⟩

/-- The header of a second datagram to the same place, which changes while it is compared with the
record of the first. -/
def racingReads (k : Nat) : Addr := if k = 1 then ⟨9, 9⟩ else ⟨2, 7⟩

/-- It gets a record of its own for that place, behind the one that is going to be found. -/
theorem destination_races : ∃ s, Machine.Reach datagramMachine StableInserts s ∧
    1 ∉ s.pendingIrpQueue ∧ (s.irps 1).has peekWrite = true ∧
    ∃ t, s.insertIrpExReads 1 false true true racingReads = some (.success, t) ∧
      t.destList.map (·.dst) = [⟨2, 7⟩, ⟨2, 7⟩] ∧ ¬ t.ChainedRight 1 (racingReads 0) := by
  obtain ⟨s, hr, hs⟩ := Machine.exists_reach_of_forall datagramMachine StableInserts
    (fun s => decide (s.pendingIrpQueue = [0] ∧ (s.irps 1).has peekWrite = true ∧
      s.destList.map (·.dst) = [⟨2, 7⟩] ∧
      (s.insertIrpExReads 1 false true true racingReads).map
        (fun p => (p.1, p.2.destList.map (·.dst))) = some (.success, [⟨2, 7⟩, ⟨2, 7⟩])))
    [.prepare 0 peekWrite 20, steadyInsert 0, .prepare 1 peekWrite 30]
    (stableInserts_steady (by simp)) (by decide +kernel)
  obtain ⟨hq, hw, hd, hins⟩ := of_decide_eq_true hs
  obtain ⟨⟨status, t⟩, ht, he⟩ := Option.map_eq_some_iff.mp hins
  rw [Prod.mk.injEq] at he
  obtain ⟨rfl, hdt⟩ := he
  have hi : 1 ∉ s.pendingIrpQueue := by simp [hq]
  have h0 : QueueOk datagramMachine.init := queueOk_init _ _ _
  have ho : QueueOk s := hr.inv h0 fun _ _ _ ho hok hs => ho.readStep hok hs
  refine ⟨s, hr, hi, hw, t, ht, hdt, fun hc => ?_⟩
  have hmem : ∀ k x, s.destList[k]? = some x → k = 0 ∧ x.dst = ⟨2, 7⟩ := by
    intro k x hx
    have hk : (s.destList.map (·.dst))[k]? = some x.dst := by rw [List.getElem?_map, hx]; rfl
    rw [hd] at hk
    cases k with
    | zero => exact ⟨rfl, by simpa using hk.symm⟩
    | succ k => simp at hk
  rcases (ho.insertReads_iff _ _ _ hi hw ht).mp hc with ⟨m, x, hm, -, hm', -⟩ | ⟨hnew, -, -⟩
  · obtain ⟨rfl, -⟩ := hmem m x hm
    exact absurd hm' (by decide)
  · have hlen : 0 < (s.destList.map (·.dst)).length := by rw [hd]; decide
    rw [List.length_map] at hlen
    have hx : s.destList[0]? = some s.destList[0] := List.getElem?_eq_getElem hlen
    exact hnew _ (List.mem_of_getElem? hx) (hmem 0 _ hx).2

end XcWindows.V4v.Csq
