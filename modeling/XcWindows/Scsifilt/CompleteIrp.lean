import Mathlib.Data.List.Nodup
import XcWindows.Lib.Circ
import XcWindows.Scsifilt.ProcessIrp

/-!
# An IRP is completed

`complete_this_request` and `finish_requests` of `scsifilt/datapath.c`, from the state that
`filter_process_irp` leaves. The requests of an IRP come back in any order and in any company, each with a
result and with what its bounce buffer holds; the last one completes the IRP.
-/

namespace XcWindows.Scsifilt.Irp

open Lib
open XcWindows.Xenvbd (Disk nrSectorsPerPage)
open XcWindows.Xenvbd.Requests (sectorsAt_mono sectorsAt_le)

inductive IoStatus where
  | pending
  | success
  | unsuccessful
deriving DecidableEq

inductive SrbStatus where
  | success
  | error
deriving DecidableEq

/-- The IRP, its SRB and its overlay, and system address space. -/
structure IrpState where
  ioStatus : IoStatus
  information : Nat
  srbStatus : SrbStatus
  scsiStatus : Nat
  nrOutstanding : Nat
  memory : Nat → UInt8
  held : Held
  /-- how often `IoCompleteRequest` was called -/
  completions : Nat

/-- A request that is back. -/
structure Completion where
  /-- which of the requests of the IRP -/
  index : Nat
  result : Int
  /-- what the bounce buffer holds -/
  data : Nat → UInt8

abbrev blkifRspOkay : Int := 0

/-- As `filter_process_irp` leaves an IRP of which `nrOutstanding` requests are scheduled. -/
def scheduledIrp (nrOutstanding : Nat) (memory : Nat → UInt8) (held : Held) : IrpState where
  ioStatus := .pending
  information := 0
  srbStatus := .success
  scsiStatus := 0
  nrOutstanding
  memory
  held
  completions := 0

/-- The result of a request, while the IRP has not failed. -/
def processResult (wide : Bool) (sfri : Sfri) (c : Completion) (s : IrpState) : IrpState :=
  if s.srbStatus = .success then
    if c.result = blkifRspOkay then
      let s := { s with information := ulongPtr wide (s.information + sfri.byteCount) }
      match sfri.bounceBuffer, sfri.mdlVa with
      | some _, some mdlVa =>
        if sfri.operation = .read then { s with memory := blit s.memory mdlVa (bytes c.data 0 sfri.byteCount) }
        else s
      | _, _ => s
    else { s with srbStatus := .error, scsiStatus := 0x40 }
  else s

/-- The end of `complete_this_request`, from `release_request` on; `none` is the assertion that the IRP is
pending. -/
def countDown (sfri : Sfri) (s : IrpState) : Option IrpState :=
  let s := { s with held := releaseRequest s.held sfri.bounceBuffer }
  if s.ioStatus = .pending then
    some <|
      if s.nrOutstanding = 1 then
        { s with
          ioStatus := if s.srbStatus = .success then .success else .unsuccessful
          held := { s.held with removeLocks := s.held.removeLocks - 1 }
          completions := s.completions + 1 }
      else { s with nrOutstanding := s.nrOutstanding - 1 }
  else none

def completeThisRequest (wide : Bool) (rs : List Sfri) (s : IrpState) (c : Completion) : Option IrpState :=
  rs[c.index]? >>= fun sfri => countDown sfri (processResult wide sfri c s)

/-- `finish_requests`, of the requests of one IRP; what is given back at several times is one list. -/
def finishRequests (wide : Bool) (rs : List Sfri) (cs : List Completion) (s : IrpState) : Option IrpState :=
  cs.foldlM (completeThisRequest wide rs) s

/-- Every request succeeded. -/
def AllOkay (cs : List Completion) : Prop := ∀ c ∈ cs, c.result = blkifRspOkay

/-- An IRP that was completed with these results. -/
structure Completed (disk : Disk) (srb : Srb) (mem : Memory) (h : Held) (cs : List Completion) (s : IrpState) :
    Prop where
  once : s.completions = 1
  released : s.held = h
  status : s.ioStatus = .success ∧ AllOkay cs ∨ s.ioStatus = .unsuccessful ∧ ¬AllOkay cs
  information : AllOkay cs → s.information = disk.sectorSize * getNrSectorsFromSrb srb
  /-- the byte at `p` is the `i`th byte of the request that begins `i` bytes before `p` -/
  data : AllOkay cs → useBounce disk srb = true → operation srb = .read →
    ∀ p < disk.sectorSize * getNrSectorsFromSrb srb, ∃ c ∈ cs, ∃ i < timesAt disk srb c.index * disk.sectorSize,
      p = doneAt disk srb c.index * disk.sectorSize + i ∧ s.memory (mapSrbDataBuffer mem srb + p) = c.data i

variable {disk : Disk} {srb : Srb} {mem : Memory} {ans : Answers} {rs : List Sfri} {wide : Bool}

/-! ## The requests of a scheduled IRP -/

/-- What completion reads of request `k`. -/
structure Scheduled (disk : Disk) (srb : Srb) (mem : Memory) (k : Nat) (r : Sfri) : Prop where
  operation : r.operation = operation srb
  byteCount : r.byteCount = timesAt disk srb k * disk.sectorSize
  bounceBuffer : r.bounceBuffer.isSome = useBounce disk srb
  mdlVa : useBounce disk srb = true →
    r.mdlVa = some (mapSrbDataBuffer mem srb + doneAt disk srb k * disk.sectorSize)

theorem sfriAt_scheduled (hbytes : nrBytes disk srb < 4294967296) {k : Nat} {r : Sfri}
    (h : sfriAt disk srb mem ans k = some r) : Scheduled disk srb mem k r := by
  have hdone := doneAt_mul_le disk srb k
  have hcount := u32_byteCount disk srb k
  have hva : u32 (doneAt disk srb k * disk.sectorSize) = doneAt disk srb k * disk.sectorSize :=
    Nat.mod_eq_of_lt (by omega)
  unfold sfriAt at h
  dsimp only at h
  split at h
  case isTrue hbounce =>
    split at h
    · cases h
    obtain ⟨b, -, rfl⟩ := Option.map_eq_some_iff.1 h
    exact ⟨rfl, hcount, hbounce.symm, fun _ => by rw [hva]⟩
  case isFalse hbounce =>
    obtain rfl := Option.some.inj h
    exact ⟨rfl, hcount, (Bool.eq_false_iff.2 hbounce).symm, fun h => absurd h hbounce⟩

theorem scheduled_requests {nr out : Nat} {h h' : Held} (hpos : 1 ≤ nr)
    (hrun : filterProcessIrp wide disk srb mem ans h = .ok (.scheduled rs nr out h')) :
    nr = nrRequests disk srb ∧ nrBytes disk srb < 4294967296 ∧
      ∀ k r, rs[k]? = some r → Scheduled disk srb mem k r := by
  obtain ⟨hnr, -, hlen, hinit, -⟩ := scheduled_inv hrun
  have hn : 0 < getNrSectorsFromSrb srb := by
    by_contra h0
    have hall : requestLoop disk srb mem ans nr 0 (getNrSectorsFromSrb srb) (sectorOffInPage disk srb) =
        .ok ⟨[], true⟩ := requestLoop_all _ _ _
    rw [Nat.eq_zero_of_not_pos h0] at hall
    have hnil := hinit.symm.trans hall
    simp only [Except.ok.injEq, Initialised.mk.injEq, and_true] at hnil
    rw [hnil, List.length_nil] at hlen
    omega
  have hcount := countRequestsForSrb_spec wide disk srb
  have hloop := requestLoop_spec disk mem ans hn nr 0 (Nat.zero_le _)
  rw [doneAt_zero, Nat.zero_add] at hloop
  obtain ⟨-, rs', hrs⟩ | ⟨-, hle, rs', hrs, hmap⟩ | ⟨-, -, hrs⟩ := hloop
  · cases hinit.symm.trans hrs
  · cases hinit.symm.trans hrs
    obtain ⟨hwrap, heq⟩ | ⟨-, hlt⟩ := hcount
    · refine ⟨hnr.trans heq, hwrap.lt, fun k r hk => ?_⟩
      have hget := congrArg (fun l => l[k]?) hmap
      simp only [List.getElem?_map, hk, Option.map_some] at hget
      obtain ⟨j, hj, hs⟩ := Option.map_eq_some_iff.1 hget.symm
      obtain ⟨hlt, hj⟩ := List.getElem?_eq_some_iff.1 hj
      simp only [List.getElem_range', Nat.zero_add, Nat.one_mul] at hj
      exact sfriAt_scheduled hwrap.lt (hj ▸ hs)
    · omega
  · cases hinit.symm.trans hrs

/-! ## One completion -/

/-- Where the data of a request begin, in bytes. -/
def byteAt (disk : Disk) (srb : Srb) (k : Nat) : Nat := doneAt disk srb k * disk.sectorSize

def bytesAt (disk : Disk) (srb : Srb) (k : Nat) : Nat := timesAt disk srb k * disk.sectorSize

theorem byteAt_succ (disk : Disk) (srb : Srb) (k : Nat) :
    byteAt disk srb k + bytesAt disk srb k = byteAt disk srb (k + 1) := by
  rw [byteAt, bytesAt, byteAt, ← Nat.add_mul, doneAt_succ]

theorem byteAt_mono (disk : Disk) (srb : Srb) {k l : Nat} (h : k ≤ l) : byteAt disk srb k ≤ byteAt disk srb l :=
  Nat.mul_le_mul_right _ (sectorsAt_mono h)

theorem bytes_disjoint {k l i : Nat} (hne : k ≠ l) (hi : i < bytesAt disk srb l) :
    byteAt disk srb l + i < byteAt disk srb k ∨ byteAt disk srb k + bytesAt disk srb k ≤ byteAt disk srb l + i := by
  obtain hlt | hlt := Nat.lt_or_gt_of_ne hne
  · have hle : byteAt disk srb (k + 1) ≤ byteAt disk srb l := byteAt_mono disk srb hlt
    rw [byteAt_succ]
    exact .inr (by omega)
  · have hle : byteAt disk srb (l + 1) ≤ byteAt disk srb k := byteAt_mono disk srb hlt
    have hsucc := byteAt_succ disk srb l
    exact .inl (by omega)

theorem ulongPtr_add (wide : Bool) (a b : Nat) : ulongPtr wide (ulongPtr wide a + b) = ulongPtr wide (a + b) := by
  cases wide with
  | true => exact Nat.mod_add_mod a _ b
  | false => exact Nat.mod_add_mod a _ b

theorem ulongPtr_of_lt (wide : Bool) {a : Nat} (h : a < 4294967296) : ulongPtr wide a = a := by
  cases wide with
  | true => exact Nat.mod_eq_of_lt (by omega)
  | false => exact Nat.mod_eq_of_lt h

/-- What the results so far have left. -/
structure Results (wide : Bool) (disk : Disk) (srb : Srb) (mem : Memory) (cs : List Completion) (s : IrpState) :
    Prop where
  status : s.srbStatus = .success ↔ AllOkay cs
  information : AllOkay cs → s.information = ulongPtr wide (cs.map fun c => bytesAt disk srb c.index).sum
  data : AllOkay cs → useBounce disk srb = true → operation srb = .read → ∀ c ∈ cs, ∀ i < bytesAt disk srb c.index,
    s.memory (mapSrbDataBuffer mem srb + (byteAt disk srb c.index + i)) = c.data i

theorem allOkay_concat {cs : List Completion} {c : Completion} :
    AllOkay (cs ++ [c]) ↔ AllOkay cs ∧ c.result = blkifRspOkay := by
  simp [AllOkay, or_imp, forall_and]

theorem Results.of_failed {cs : List Completion} {s : IrpState} (hstatus : s.srbStatus ≠ .success)
    (hno : ¬AllOkay cs) : Results wide disk srb mem cs s :=
  ⟨iff_of_false hstatus hno, fun hall => absurd hall hno, fun hall => absurd hall hno⟩

theorem Results.step {cs : List Completion} {s : IrpState} (h : Results wide disk srb mem cs s) {c : Completion}
    {r : Sfri} (hr : Scheduled disk srb mem c.index r) (hnew : c.index ∉ cs.map Completion.index) :
    Results wide disk srb mem (cs ++ [c]) (processResult wide r c s) := by
  unfold processResult
  by_cases hstatus : s.srbStatus = .success
  case neg =>
    have hno : ¬AllOkay (cs ++ [c]) := fun hall => hstatus (h.status.2 (allOkay_concat.1 hall).1)
    rw [if_neg hstatus]
    exact .of_failed hstatus hno
  rw [if_pos hstatus]
  have hcs := h.status.1 hstatus
  by_cases hokay : c.result = blkifRspOkay
  case neg =>
    have hno : ¬AllOkay (cs ++ [c]) := fun hall => hokay (allOkay_concat.1 hall).2
    rw [if_neg hokay]
    exact .of_failed nofun hno
  rw [if_pos hokay]
  have hall : AllOkay (cs ++ [c]) := allOkay_concat.2 ⟨hcs, hokay⟩
  have hinfo : ulongPtr wide (s.information + r.byteCount) =
      ulongPtr wide ((cs ++ [c]).map fun c => bytesAt disk srb c.index).sum := by
    rw [h.information hcs, ulongPtr_add, List.map_append, List.sum_append, List.map_singleton, List.sum_singleton,
      hr.byteCount]
    rfl
  dsimp only
  cases hb : r.bounceBuffer with
  | none =>
    have hno : useBounce disk srb = false := by rw [← hr.bounceBuffer, hb]; rfl
    exact ⟨iff_of_true hstatus hall, fun _ => hinfo, fun _ hbounce => by rw [hno] at hbounce; cases hbounce⟩
  | some b =>
    have hbounce : useBounce disk srb = true := by rw [← hr.bounceBuffer, hb]; rfl
    rw [hr.mdlVa hbounce]
    dsimp only
    by_cases hread : r.operation = .read
    case neg =>
      rw [if_neg hread]
      refine ⟨iff_of_true hstatus hall, fun _ => hinfo, fun _ _ hop => ?_⟩
      rw [hr.operation] at hread
      exact absurd hop hread
    rw [if_pos hread]
    refine ⟨iff_of_true hstatus hall, fun _ => hinfo, fun _ _ hop c' hc' i hi => ?_⟩
    have hcount : r.byteCount = bytesAt disk srb c.index := hr.byteCount
    dsimp only
    obtain hc' | hc' := List.mem_append.1 hc'
    · -- the data of an earlier request are elsewhere
      have hne : c.index ≠ c'.index := fun heq => hnew (heq ▸ List.mem_map_of_mem hc')
      have hdisjoint := bytes_disjoint hne hi
      rw [blit_miss]
      · exact h.data hcs hbounce hop c' hc' i hi
      · rw [length_bytes, hcount]
        unfold byteAt at hdisjoint
        unfold byteAt
        omega
    · obtain rfl := List.mem_singleton.1 hc'
      have hhit : i < (bytes c'.data 0 r.byteCount).length := by
        rw [length_bytes, hcount]
        exact hi
      rw [byteAt, ← Nat.add_assoc, blit_hit hhit]
      simp [bytes]

/-! ## All of them -/

/-- Where the IRP is when some of its `nr` requests are back; it had `h` before it was taken on. -/
structure Counting (disk : Disk) (srb : Srb) (h : Held) (nr : Nat) (done : Nat) (s : IrpState) : Prop where
  pending : done < nr → s.ioStatus = .pending ∧ s.completions = 0 ∧ s.nrOutstanding = nr - done
  complete : done = nr → s.completions = 1 ∧
    s.ioStatus = if s.srbStatus = .success then .success else .unsuccessful
  held : s.held = ⟨h.removeLocks + (if done = nr then 0 else 1), h.requests + (nr - done),
    h.bounceBuffers + (if useBounce disk srb = true then nr - done else 0)⟩

theorem processResult_frame (wide : Bool) (r : Sfri) (c : Completion) (s : IrpState) :
    (processResult wide r c s).ioStatus = s.ioStatus ∧ (processResult wide r c s).completions = s.completions ∧
      (processResult wide r c s).nrOutstanding = s.nrOutstanding ∧ (processResult wide r c s).held = s.held := by
  unfold processResult
  split
  · split
    · dsimp only
      split
      · split <;> exact ⟨rfl, rfl, rfl, rfl⟩
      · exact ⟨rfl, rfl, rfl, rfl⟩
    · exact ⟨rfl, rfl, rfl, rfl⟩
  · exact ⟨rfl, rfl, rfl, rfl⟩

theorem Results.of_eq {cs : List Completion} {s t : IrpState} (h : Results wide disk srb mem cs s)
    (hs : t.srbStatus = s.srbStatus) (hi : t.information = s.information) (hm : t.memory = s.memory) :
    Results wide disk srb mem cs t := by
  refine ⟨?_, ?_, ?_⟩
  · rw [hs]
    exact h.status
  · rw [hi]
    exact h.information
  · rw [hm]
    exact h.data

theorem Counting.step {h : Held} {nr done : Nat} {s : IrpState} (hc : Counting disk srb h nr done s)
    (hlt : done < nr) {r : Sfri} (hr : r.bounceBuffer.isSome = useBounce disk srb) :
    ∃ t, countDown r s = some t ∧ Counting disk srb h nr (done + 1) t ∧ t.srbStatus = s.srbStatus ∧
      t.information = s.information ∧ t.memory = s.memory := by
  obtain ⟨hpending, hcompletions, hout⟩ := hc.pending hlt
  have hheld : releaseRequest s.held r.bounceBuffer = ⟨h.removeLocks + 1, h.requests + (nr - (done + 1)),
      h.bounceBuffers + (if useBounce disk srb = true then nr - (done + 1) else 0)⟩ := by
    rw [hc.held, if_neg (Nat.ne_of_lt hlt), releaseRequest, hr]
    cases useBounce disk srb with
    | true =>
      simp only [if_true, Held.mk.injEq, true_and]
      omega
    | false =>
      simp only [Bool.false_eq_true, if_false, Held.mk.injEq, true_and, and_true]
      omega
  unfold countDown
  dsimp only
  rw [if_pos hpending, hheld]
  by_cases hlast : done + 1 = nr
  · rw [if_pos (by omega)]
    refine ⟨_, rfl, ⟨fun h => by omega, fun _ => ⟨?_, rfl⟩, ?_⟩, rfl, rfl, rfl⟩
    · rw [hcompletions]
    · rw [if_pos hlast]
      rfl
  · rw [if_neg (by omega)]
    refine ⟨_, rfl, ⟨fun _ => ⟨hpending, hcompletions, ?_⟩, fun h => absurd h hlast, ?_⟩, rfl, rfl, rfl⟩
    · dsimp only
      omega
    · rw [if_neg hlast]

theorem subperm_range {nr : Nat} {cs : List Completion} (hnodup : (cs.map Completion.index).Nodup)
    (hmem : ∀ c ∈ cs, c.index < nr) : (cs.map Completion.index).Subperm (List.range nr) := by
  apply List.subperm_of_subset hnodup
  intro k hk
  obtain ⟨c, hc, rfl⟩ := List.mem_map.1 hk
  exact List.mem_range.2 (hmem c hc)

theorem finishRequests_spec (wide : Bool) {nr : Nat} {h held : Held} (memory : Nat → UInt8) (hlen : rs.length = nr)
    (hrs : ∀ k r, rs[k]? = some r → Scheduled disk srb mem k r) (hpos : 1 ≤ nr)
    (hheld : held = ⟨h.removeLocks + 1, h.requests + nr,
      h.bounceBuffers + (if useBounce disk srb = true then nr else 0)⟩)
    (cs : List Completion) (hnodup : (cs.map Completion.index).Nodup) (hmem : ∀ c ∈ cs, c.index < nr) :
    ∃ s, finishRequests wide rs cs (scheduledIrp nr memory held) = some s ∧
      Counting disk srb h nr cs.length s ∧ Results wide disk srb mem cs s := by
  induction cs using List.reverseRecOn with
  | nil =>
    refine ⟨_, rfl, ⟨fun _ => ⟨rfl, rfl, rfl⟩, fun h => ?_, ?_⟩,
      ⟨iff_of_true rfl nofun, fun _ => ?_, fun _ _ _ => nofun⟩⟩
    · simp only [List.length_nil] at h
      omega
    · rw [List.length_nil, if_neg (by omega)]
      exact hheld
    · exact (ulongPtr_of_lt wide (a := 0) (by decide)).symm
  | append_singleton cs c ih =>
    -- one request more than are back: these are not all
    have hdone : cs.length < nr := by
      have hle := (subperm_range hnodup hmem).length_le
      simp only [List.length_map, List.length_append, List.length_singleton, List.length_range] at hle
      omega
    rw [List.map_append, List.map_singleton, List.nodup_append] at hnodup
    obtain ⟨hnodup, -, hnew⟩ := hnodup
    have hnew' : c.index ∉ cs.map Completion.index := fun hin => hnew _ hin _ (List.mem_singleton.2 rfl) rfl
    have hlt : c.index < nr := hmem c (by simp)
    obtain ⟨s, hs, hcount, hresults⟩ := ih hnodup fun c' hc' => hmem c' (List.mem_append_left _ hc')
    obtain ⟨r, hr⟩ : ∃ r, rs[c.index]? = some r := ⟨rs[c.index], List.getElem?_eq_getElem (hlen ▸ hlt)⟩
    have hscheduled := hrs c.index r hr
    have hresults' := hresults.step hscheduled hnew'
    obtain ⟨hio, hcompletions, hout, hheld'⟩ := processResult_frame wide r c s
    have hcount' : Counting disk srb h nr cs.length (processResult wide r c s) := by
      refine ⟨fun hlt => ?_, fun heq => absurd heq (Nat.ne_of_lt hdone), ?_⟩
      · rw [hio, hcompletions, hout]
        exact hcount.pending hlt
      · rw [hheld']
        exact hcount.held
    obtain ⟨t, ht, hcount'', hsrb, hinfo, hmemory⟩ := hcount'.step hdone hscheduled.bounceBuffer
    refine ⟨t, ?_, ?_, hresults'.of_eq hsrb hinfo hmemory⟩
    · unfold finishRequests at hs ⊢
      rw [List.foldlM_append, hs]
      change completeThisRequest wide rs s c >>= pure = some t
      unfold completeThisRequest
      rw [hr]
      exact (bind_pure _).trans ht
    · rw [List.length_append, List.length_singleton]
      exact hcount''

theorem perm_range {nr : Nat} {cs : List Completion} (hnodup : (cs.map Completion.index).Nodup)
    (hmem : ∀ c ∈ cs, c.index < nr) (hlen : cs.length = nr) : (cs.map Completion.index).Perm (List.range nr) := by
  apply (subperm_range hnodup hmem).perm_of_length_le
  simp [hlen]

theorem byteAt_nrRequests (disk : Disk) (srb : Srb) :
    byteAt disk srb (nrRequests disk srb) = nrBytes disk srb := by
  rw [byteAt, doneAt_nrRequests, nrBytes, Nat.mul_comm]

theorem sum_bytesAt {cs : List Completion}
    (h : (cs.map Completion.index).Perm (List.range (nrRequests disk srb))) :
    (cs.map fun c => bytesAt disk srb c.index).sum = nrBytes disk srb := by
  have hsum := (sum_pieces (D := byteAt disk srb) (a := 0) (n := nrRequests disk srb)
    fun k _ => byteAt_mono disk srb (Nat.le_succ _)).1
  have hzero : byteAt disk srb 0 = 0 := by rw [byteAt, doneAt_zero, Nat.zero_mul]
  simp only [Nat.zero_add, hzero, Nat.sub_zero, byteAt_nrRequests] at hsum
  have hmap : (cs.map fun c => bytesAt disk srb c.index) = (cs.map Completion.index).map (bytesAt disk srb) := by
    rw [List.map_map]
    rfl
  rw [hmap, (h.map _).sum_nat, ← hsum]
  refine congrArg List.sum (List.map_congr_left fun k _ => ?_)
  have := byteAt_succ disk srb k
  omega

/-- An IRP is completed once, by the last of its requests, with the result of all of them. -/
theorem irp_completed {nr out : Nat} {h held : Held}
    (hrun : filterProcessIrp wide disk srb mem ans h = .ok (.scheduled rs nr out held)) (hpos : 1 ≤ nr)
    (memory : Nat → UInt8) (cs : List Completion) (hnodup : (cs.map Completion.index).Nodup)
    (hmem : ∀ c ∈ cs, c.index < nr) :
    ∃ s, finishRequests wide rs cs (scheduledIrp out memory held) = some s ∧
      (cs.length < nr → s.completions = 0) ∧ (cs.length = nr → Completed disk srb mem h cs s) := by
  obtain ⟨-, rfl, hlen, -, hheld⟩ := scheduled_inv hrun
  obtain ⟨hnr, hbytes, hrs⟩ := scheduled_requests hpos hrun
  have hbuffers : (rs.map Sfri.bounceBuffer).countP Option.isSome = if useBounce disk srb = true then out else 0 := by
    have hall : ∀ r ∈ rs, r.bounceBuffer.isSome = useBounce disk srb := by
      intro r hr
      obtain ⟨k, hk⟩ := List.mem_iff_getElem?.1 hr
      exact (hrs k r hk).bounceBuffer
    rw [List.countP_map]
    cases hbounce : useBounce disk srb with
    | true =>
      rw [if_pos rfl, ← hlen]
      exact List.countP_eq_length.2 fun r hr => (hall r hr).trans hbounce
    | false =>
      rw [if_neg Bool.false_ne_true]
      exact List.countP_eq_zero.2 fun r hr => by simp [hall r hr, hbounce]
  obtain ⟨s, hs, hcount, hresults⟩ := finishRequests_spec wide memory hlen hrs hpos (hbuffers ▸ hheld) cs hnodup
    hmem
  refine ⟨s, hs, fun hlt => (hcount.pending hlt).2.1, fun hall => ?_⟩
  obtain ⟨hcompletions, hstatus⟩ := hcount.complete hall
  have hperm := perm_range hnodup hmem hall
  rw [hnr] at hperm
  refine ⟨hcompletions, ?_, ?_, fun hok => ?_, fun hok hbounce hread p hp => ?_⟩
  · rw [hcount.held, if_pos hall, hall, Nat.sub_self, ite_self]
    rfl
  · by_cases hok : AllOkay cs
    · rw [if_pos (hresults.status.2 hok)] at hstatus
      exact .inl ⟨hstatus, hok⟩
    · rw [if_neg (mt hresults.status.1 hok)] at hstatus
      exact .inr ⟨hstatus, hok⟩
  · rw [hresults.information hok, sum_bytesAt hperm, ulongPtr_of_lt wide hbytes]
    rfl
  · obtain ⟨k, hk, hle, hlt⟩ := exists_piece (D := byteAt disk srb) (n := nrRequests disk srb) (p := p)
      (by rw [byteAt, doneAt_zero, Nat.zero_mul]; exact Nat.zero_le p) (by rw [byteAt_nrRequests]; exact hp)
    obtain ⟨c, hc, rfl⟩ := List.mem_map.1 (hperm.mem_iff.2 (List.mem_range.2 hk))
    have hsucc := byteAt_succ disk srb c.index
    refine ⟨c, hc, p - byteAt disk srb c.index, ?_, ?_, ?_⟩
    · change _ < bytesAt disk srb c.index
      omega
    · change p = byteAt disk srb c.index + _
      omega
    · have hdata := hresults.data hok hbounce hread c hc (p - byteAt disk srb c.index) (by omega)
      rwa [Nat.add_sub_cancel' hle] at hdata

/-- A disk whose sectors are pages. -/
def pageSectors : Disk := ⟨4096, by decide, by decide⟩

/-- Twelve sectors to a buffer that is not aligned, in two requests. -/
def twelveSectors : Srb := read12 4097 fun i => if i = 9 then 12 else 0

/-- The second of two requests comes back before the first. -/
theorem two_requests_completed :
    ∃ rs s, filterProcessIrp true pageSectors twelveSectors (flat 1 49152 (by decide)) plenty ⟨0, 0, 0⟩ =
        .ok (.scheduled rs 2 2 ⟨1, 2, 2⟩) ∧
      finishRequests true rs [⟨1, 0, fun _ => 5⟩, ⟨0, 0, fun _ => 7⟩]
        (scheduledIrp 2 (fun _ => 0) ⟨1, 2, 2⟩) = some s ∧
      Completed pageSectors twelveSectors (flat 1 49152 (by decide)) ⟨0, 0, 0⟩
        [⟨1, 0, fun _ => 5⟩, ⟨0, 0, fun _ => 7⟩] s := by
  obtain ⟨rs, hrun⟩ : ∃ rs, filterProcessIrp true pageSectors twelveSectors (flat 1 49152 (by decide)) plenty
      ⟨0, 0, 0⟩ = .ok (.scheduled rs 2 2 ⟨1, 2, 2⟩) := ⟨_, rfl⟩
  obtain ⟨s, hs, -, hcompleted⟩ := irp_completed hrun (by decide) (fun _ => 0)
    [⟨1, 0, fun _ => 5⟩, ⟨0, 0, fun _ => 7⟩] (by decide) (by simp)
  exact ⟨rs, s, hrun, hs, hcompleted rfl⟩

end XcWindows.Scsifilt.Irp
