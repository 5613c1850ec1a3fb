import Mathlib.Data.List.Nodup
import XcWindows.Xenvbd.Srbs

/-!
# No SRB is lost

`Conserved` says where each SRB is and what it has on the ring: an SRB is in one queue or completed,
an SRB in `SubmittedSrbs` has as many requests on the ring as its `nr_requests` counts, and each of
these is completely filled in. `Provided` are the steps that keep it: those that do not prepare an
SRB of no segments, that find the bounce buffers they need, and that reset the bus only when nothing
bounced is outstanding.
-/

namespace XcWindows.Xenvbd

open XcWindows.Lib
open Function (update update_of_ne update_self)

/-! ## The loops of `PrepareSrb` -/

/-- The request has all its segments, and these their bounce buffers. -/
def Request.Full (r : Request) (bounced : Bool) : Prop :=
  r.seg.length = r.nrSegments ∧ (bounced → ∀ seg ∈ r.seg, seg.bid.isSome)

section Loops
variable {segment : Progress → Option (Segment × Progress)} {I : Nat → Progress → Prop}
  {bounced : Bool} {N : Nat}

/-- `I k` holds after `k` segments; while there are fewer than `N` the loop finds another. -/
def Fills (segment : Progress → Option (Segment × Progress)) (I : Nat → Progress → Prop)
    (bounced : Bool) (N : Nat) : Prop :=
  ∀ k p, k < N → I k p → ∃ seg p', segment p = some (seg, p') ∧ I (k + 1) p' ∧
    (bounced → seg.bid.isSome)

theorem Fills.segments (h : Fills segment I bounced N) {n k : Nat} {p : Progress}
    (segs : List Segment) (hk : k + n ≤ N) (hp : I k p)
    (hs : bounced → ∀ seg ∈ segs, seg.bid.isSome) :
    ∃ segs' p', fillSegments segment n p segs = (segs', p', true) ∧ I (k + n) p' ∧
      segs'.length = segs.length + n ∧ (bounced → ∀ seg ∈ segs', seg.bid.isSome) := by
  induction n generalizing k p segs with
  | zero => exact ⟨segs, p, rfl, hp, rfl, hs⟩
  | succ n ih =>
    obtain ⟨seg, p1, e, hp1, hb⟩ := h k p (by omega) hp
    have hs1 : bounced → ∀ s ∈ segs ++ [seg], s.bid.isSome := by
      intro hbd s hm
      rcases List.mem_append.mp hm with hm | hm
      · exact hs hbd s hm
      · rw [List.mem_singleton.mp hm]
        exact hb hbd
    obtain ⟨segs', p', e', hp', hl, hs'⟩ := ih (segs ++ [seg]) (by omega) hp1 hs1
    refine ⟨segs', p', ?_, ?_, ?_, hs'⟩
    · rw [fillSegments, e]
      exact e'
    · rwa [Nat.add_assoc, Nat.add_comm 1] at hp'
    · rw [hl, List.length_append, List.length_singleton]
      omega

/-- From request `i` on, all requests are filled. -/
theorem Fills.requests (h : Fills segment I bounced N) (start : Nat) {k i : Nat} {p : Progress}
    (request : Nat → Request) (hk : N ≤ maxSegmentsPerRequest * (i + k))
    (hp : I (min N (maxSegmentsPerRequest * i)) p) (hr : ∀ j < i, (request j).Full bounced) :
    ∃ request' p', fillRequests segment start N k i p request = (request', p', true) ∧ I N p' ∧
      ∀ j < i + k, (request' j).Full bounced := by
  induction k generalizing i p request with
  | zero =>
    refine ⟨request, p, rfl, ?_, hr⟩
    rwa [Nat.min_eq_left (by rwa [Nat.add_zero] at hk)] at hp
  | succ k ih =>
    have hle : min N (maxSegmentsPerRequest * i) +
        min (N - maxSegmentsPerRequest * i) maxSegmentsPerRequest =
        min N (maxSegmentsPerRequest * (i + 1)) := by
      simp only [maxSegmentsPerRequest]
      omega
    obtain ⟨segs, p1, e, hp1, hl, hs⟩ := h.segments
      (n := min (N - maxSegmentsPerRequest * i) maxSegmentsPerRequest) [] (by omega)
      hp (fun _ _ hm => nomatch hm)
    rw [hle] at hp1
    have hr1 : ∀ j < i + 1, (update request i ⟨start + p.sectorsDone,
        min (N - maxSegmentsPerRequest * i) maxSegmentsPerRequest, segs⟩ j).Full bounced := by
      intro j hj
      by_cases hji : j = i
      · subst hji
        rw [update_self]
        exact ⟨by rw [hl, List.length_nil, Nat.zero_add], hs⟩
      · rw [update_of_ne hji]
        exact hr j (by omega)
    obtain ⟨request', p', e', hp', hr'⟩ :=
      ih (i := i + 1) _ (by rwa [Nat.add_assoc, Nat.add_comm 1]) hp1 hr1
    refine ⟨request', p', ?_, hp', ?_⟩
    · rw [fillRequests, e]
      exact e'
    · rwa [Nat.add_assoc, Nat.add_comm 1] at hr'

/-- The loops of an SRB, from the start. -/
theorem Fills.srb (h : Fills segment I bounced N) (start : Nat) {p : Progress} (hp : I 0 p)
    (request : Nat → Request) :
    ∃ request' p', fillRequests segment start N (nrRequestsFor N) 0 p request =
      (request', p', true) ∧ I N p' ∧ ∀ j < nrRequestsFor N, (request' j).Full bounced := by
  have hk : N ≤ maxSegmentsPerRequest * (0 + nrRequestsFor N) := by
    simp only [nrRequestsFor, maxSegmentsPerRequest]
    omega
  obtain ⟨request', p', e, hp', hr⟩ := h.requests start request hk
    (by rwa [Nat.mul_zero, Nat.min_zero]) (fun _ hj => absurd hj (Nat.not_lt_zero _))
  rw [Nat.zero_add] at hr
  exact ⟨request', p', e, hp', hr⟩

end Loops

theorem nrRequestsFor_pos {n : Nat} (h : 0 < n) : 0 < nrRequestsFor n := by
  simp only [nrRequestsFor, maxSegmentsPerRequest]
  omega

section Sectors
variable {disk : Disk} {srb : Srb}

theorem sectors_per_page : nrSectorsPerPage disk * disk.sectorSize = pageSize :=
  Nat.div_mul_cancel disk.dvd

theorem Srb.nrSegments_eq : srb.nrSegments =
    (srb.dataBuffer % pageSize + srb.dataTransferLength + 4095) / pageSize := by
  have h := srb.isUlong
  have hm : srb.dataBuffer % pageSize < 4096 := Nat.mod_lt _ (by decide)
  simp only [Srb.nrSegments, btopr, pageSize] at *
  rw [Nat.mod_eq_of_lt]
  omega

theorem Srb.nrSegments_pos (h : ¬(srb.dataTransferLength = 0 ∧ srb.dataBuffer % pageSize = 0)) :
    0 < srb.nrSegments := by
  rw [nrSegments_eq, Nat.div_pos_iff]
  simp only [pageSize] at *
  omega

theorem Srb.nrBouncedSegments_eq (h : srb.dataTransferLength ≤ 4294967296 - pageSize) :
    srb.nrBouncedSegments = (srb.dataTransferLength + 4095) / pageSize := by
  simp only [Srb.nrBouncedSegments, btopr, pageSize] at *
  rw [Nat.mod_eq_of_lt]
  omega

/-- A page offset of a sector boundary, in sectors. -/
theorem page_offset_eq (h : srbNeedsBounceBuffer disk srb = false) :
    srb.dataBuffer % pageSize / disk.sectorSize * disk.sectorSize = srb.dataBuffer % pageSize := by
  apply Nat.div_mul_cancel
  have h0 : disk.sectorSize ∣ srb.dataBuffer := by
    simpa [srbNeedsBounceBuffer, Nat.dvd_iff_mod_eq_zero] using h
  exact (Nat.dvd_mod_iff disk.dvd).mpr h0

/-- After `k` pages of an aligned SRB. -/
def alignedDone (disk : Disk) (srb : Srb) (k : Nat) (p : Progress) : Prop :=
  p.sectorsDone = min (nrSectors disk srb)
    (k * nrSectorsPerPage disk - srb.dataBuffer % pageSize / disk.sectorSize)

/-- A page after the first begins with a page. -/
theorem next_page_offset {b o k : Nat} (ho : o * disk.sectorSize = b % pageSize)
    (hle : o ≤ k * nrSectorsPerPage disk) :
    (b + (k * nrSectorsPerPage disk - o) * disk.sectorSize) % pageSize = 0 := by
  have hmul : (k * nrSectorsPerPage disk - o) * disk.sectorSize + b % pageSize = k * pageSize := by
    rw [← ho, ← Nat.add_mul, Nat.sub_add_cancel hle, Nat.mul_assoc, sectors_per_page]
  have hb := Nat.mod_add_div b pageSize
  have : b + (k * nrSectorsPerPage disk - o) * disk.sectorSize = pageSize * (b / pageSize + k) := by
    rw [Nat.mul_add, Nat.mul_comm pageSize k]
    omega
  rw [this, Nat.mul_mod_right]

theorem fills_aligned (h : srbNeedsBounceBuffer disk srb = false) (n : Nat) :
    Fills (alignedSegment disk srb) (alignedDone disk srb) false n := by
  intro k p _ hp
  have hpos := disk.pos
  have hspp : nrSectorsPerPage disk * disk.sectorSize = pageSize := sectors_per_page
  have hoff := page_offset_eq h
  have hlt : srb.dataBuffer % pageSize < pageSize := Nat.mod_lt _ (by decide)
  have ho : srb.dataBuffer % pageSize / disk.sectorSize < nrSectorsPerPage disk := by
    rw [← Nat.mul_lt_mul_right hpos, hspp, hoff]
    exact hlt
  refine ⟨_, _, rfl, ?_, fun e => nomatch e⟩
  unfold alignedDone at hp ⊢
  simp only [Nat.succ_mul]
  rcases Nat.eq_zero_or_pos k with rfl | hk
  · rw [Nat.zero_mul, Nat.zero_sub, Nat.min_zero] at hp
    rw [hp, Nat.zero_mul, Nat.add_zero]
    omega
  · have hle : nrSectorsPerPage disk ≤ k * nrSectorsPerPage disk := Nat.le_mul_of_pos_left _ hk
    rcases Nat.le_total (nrSectors disk srb)
      (k * nrSectorsPerPage disk - srb.dataBuffer % pageSize / disk.sectorSize) with hn | hn
    · omega
    · rw [Nat.min_eq_right hn] at hp
      rw [hp, next_page_offset hoff (by omega), Nat.zero_div]
      omega

/-- The pages an aligned SRB touches have its sectors. -/
theorem alignedDone_all {p : Progress} (h : srbNeedsBounceBuffer disk srb = false)
    (hp : alignedDone disk srb srb.nrSegments p) : p.sectorsDone = nrSectors disk srb := by
  have hoff := page_offset_eq h
  have hle : srb.dataBuffer % pageSize + srb.dataTransferLength ≤ srb.nrSegments * pageSize := by
    rw [Srb.nrSegments_eq]
    simp only [pageSize]
    omega
  have hn : nrSectors disk srb * disk.sectorSize ≤ srb.dataTransferLength := Nat.div_mul_le_self _ _
  have : nrSectors disk srb + srb.dataBuffer % pageSize / disk.sectorSize ≤
      srb.nrSegments * nrSectorsPerPage disk := by
    rw [← Nat.mul_le_mul_right_iff disk.pos, Nat.add_mul, hoff, Nat.mul_assoc, sectors_per_page]
    omega
  unfold alignedDone at hp
  omega

/-- After `k` pages of a bounced SRB, with buffers for the rest of its `n` pages. -/
def bouncedDone (disk : Disk) (srb : Srb) (n k : Nat) (p : Progress) : Prop :=
  p.sectorsDone = min (nrSectors disk srb) (k * nrSectorsPerPage disk) ∧ n ≤ k + p.bounce.length

theorem fills_bounced (n : Nat) :
    Fills (bouncedSegment disk srb) (bouncedDone disk srb n) true n := by
  intro k p hk hp
  obtain ⟨hd, hb⟩ := hp
  obtain ⟨bid, bounce, e⟩ := List.exists_cons_of_length_pos (l := p.bounce) (by omega)
  refine ⟨⟨0, sub32 (min (nrSectors disk srb - p.sectorsDone) (nrSectorsPerPage disk)) 1, some bid⟩,
    ⟨p.sectorsDone + min (nrSectors disk srb - p.sectorsDone) (nrSectorsPerPage disk), bounce⟩,
    ?_, ⟨?_, ?_⟩, fun _ => rfl⟩
  · simp only [bouncedSegment, e]
  · simp only [Nat.succ_mul, hd]
    omega
  · rw [e, List.length_cons] at hb
    simp only
    omega

theorem bouncedDone_all {p : Progress} (h : srb.dataTransferLength ≤ 4294967296 - pageSize)
    (hp : bouncedDone disk srb srb.nrBouncedSegments srb.nrBouncedSegments p) :
    p.sectorsDone = nrSectors disk srb := by
  have hle : srb.dataTransferLength ≤ srb.nrBouncedSegments * pageSize := by
    rw [Srb.nrBouncedSegments_eq h]
    simp only [pageSize]
    omega
  have hn : nrSectors disk srb * disk.sectorSize ≤ srb.dataTransferLength := Nat.div_mul_le_self _ _
  have : nrSectors disk srb ≤ srb.nrBouncedSegments * nrSectorsPerPage disk := by
    rw [← Nat.mul_le_mul_right_iff disk.pos, Nat.mul_assoc, sectors_per_page]
    omega
  have hd := hp.1
  omega

end Sectors

/-! ## Where the SRBs are -/

namespace State

/-- The requests on the ring: those whose response nobody has read, those the back end has, and
those it has not seen. -/
def outstanding (s : State) : List BlkifId := s.ring.unread ++ s.ring.taken ++ s.ring.unseen

@[simp] theorem queue_setExt (s : State) (x : Nat) (e : SrbExtension) (q : Queue) :
    (s.setExt x e).queue q = s.queue q := by
  cases q <;> rfl

@[simp] theorem queue_setQueue_self (s : State) (l : List Nat) (q : Queue) :
    (s.setQueue l q).queue q = l := by
  cases q <;> rfl

theorem queue_setQueue_of_ne (s : State) (l : List Nat) {q q' : Queue} (h : q' ≠ q) :
    (s.setQueue l q).queue q' = s.queue q' := by
  cases q <;> cases q' <;> first | rfl | exact absurd rfl h

/-- Links aside, moving an SRB between queues keeps its extension. -/
theorem setQueued_ext (s : State) (x y : Nat) (q : Option Queue) :
    (s.setQueued x q).ext y = { s.ext y with queued := ((s.setQueued x q).ext y).queued } := by
  by_cases hy : y = x
  · subst hy
    simp [setQueued, setExt]
  · simp [setQueued, setExt, update_of_ne hy]

@[simp] theorem setQueued_bounced (s : State) (x y : Nat) (q : Option Queue) :
    ((s.setQueued x q).ext y).bounced = (s.ext y).bounced := by
  rw [setQueued_ext]

theorem removeSrbFromQueue_eq {s : State} {x : Nat} {q : Queue} (h : (s.ext x).queued = some q) :
    s.removeSrbFromQueue x q =
      .ok ((s.setQueue ((s.queue q).erase x) q).setQueued x none) := by
  rw [removeSrbFromQueue, xmAssert_bind h]

theorem queueSrb_eq {s : State} {x : Nat} {q : Queue} (h : (s.ext x).queued = none) :
    s.queueSrb x q = .ok ((s.setQueue (s.queue q ++ [x]) q).setQueued x (some q)) := by
  rw [queueSrb, xmAssert_bind h]

end State

/-- What a prepared SRB has. -/
structure SrbExtension.Ready (e : SrbExtension) : Prop where
  pos : 0 < e.nrRequests
  full : ∀ i < e.nrRequests, (e.request i).Full e.bounced

/-- `queued` says which queue an SRB is in. -/
def State.Linked (s : State) : Prop := ∀ x q, (s.ext x).queued = some q ↔ x ∈ s.queue q

/-- Each SRB is in hand, in one queue or completed; what is on the ring belongs to the SRBs that were
submitted, and is filled in. During a bus reset nothing has a bounce buffer. -/
structure Conserved (s : State) (hand : List Nat) (a : Nat) (unread taken unseen : List BlkifId) :
    Prop where
  alive : s.crashed = none
  ring : s.ring.Holds a unread taken unseen []
  places : (hand ++ s.freshSrbs ++ s.preparedSrbs ++ s.submittedSrbs ++ s.completions).Perm
    (List.range s.allocated)
  queued : s.Linked
  fresh : ∀ x ∈ s.freshSrbs, (s.ext x).bounced = true
  prepared : ∀ x ∈ s.preparedSrbs, (s.ext x).Ready
  submitted : ∀ x ∈ s.submittedSrbs, 0 < (s.ext x).nrRequests
  nodup : (unread ++ taken ++ unseen).Nodup
  count : ∀ x, ((unread ++ taken ++ unseen).map BlkifId.srb).count x =
    if x ∈ s.submittedSrbs then (s.ext x).nrRequests else 0
  full : ∀ id ∈ unread ++ taken ++ unseen,
    ((s.ext id.srb).request id.index).Full (s.ext id.srb).bounced
  reset : s.resetInProgress = true → s.freshSrbs = [] ∧
    ∀ x ∈ s.preparedSrbs ++ s.submittedSrbs, (s.ext x).bounced = false

section Linked
variable {s : State} {x : Nat}

theorem State.Linked.enqueue {q : Queue} (h : s.Linked) (hx : (s.ext x).queued = none) :
    ((s.setQueue (s.queue q ++ [x]) q).setQueued x (some q)).Linked := by
  intro y q'
  have he : (s.setQueue (s.queue q ++ [x]) q).ext = s.ext := by cases q <;> rfl
  simp only [State.setQueued, State.queue_setExt]
  by_cases hq : q' = q
  · subst hq
    rw [State.queue_setQueue_self, List.mem_append, List.mem_singleton, ← h y q']
    by_cases hy : y = x
    · subst hy
      simp [State.setExt]
    · simp [State.setExt, he, hy]
  · rw [State.queue_setQueue_of_ne s _ hq, ← h y q']
    by_cases hy : y = x
    · subst hy
      simp [State.setExt, hx, Ne.symm hq]
    · simp [State.setExt, update_of_ne hy, he]

theorem State.Linked.remove {q : Queue} (h : s.Linked) (hn : (s.queue q).Nodup)
    (hx : x ∈ s.queue q) : ((s.setQueue ((s.queue q).erase x) q).setQueued x none).Linked := by
  intro y q'
  have he : (s.setQueue ((s.queue q).erase x) q).ext = s.ext := by cases q <;> rfl
  simp only [State.setQueued, State.queue_setExt]
  by_cases hq : q' = q
  · subst hq
    rw [State.queue_setQueue_self, hn.mem_erase_iff, ← h y q']
    by_cases hy : y = x
    · subst hy
      simp [State.setExt]
    · simp [State.setExt, he, hy]
  · rw [State.queue_setQueue_of_ne s _ hq, ← h y q']
    by_cases hy : y = x
    · subst hy
      simp [State.setExt, (h y q).mpr hx, Ne.symm hq]
    · simp [State.setExt, update_of_ne hy, he]

end Linked

section Conserved
variable {s : State} {hand : List Nat} {a x : Nat} {unread taken unseen : List BlkifId}

theorem Conserved.nodup_places (h : Conserved s hand a unread taken unseen) :
    (hand ++ s.freshSrbs ++ s.preparedSrbs ++ s.submittedSrbs ++ s.completions).Nodup :=
  h.places.nodup_iff.mpr List.nodup_range

/-- What is on the ring was submitted. -/
theorem Conserved.submitted_of_mem (h : Conserved s hand a unread taken unseen) {id : BlkifId}
    (hm : id ∈ unread ++ taken ++ unseen) : id.srb ∈ s.submittedSrbs := by
  by_contra hn
  have hc := h.count id.srb
  rw [if_neg hn, List.count_eq_zero] at hc
  exact hc (List.mem_map_of_mem hm)

/-- An SRB that is in hand is in no queue. -/
theorem Conserved.hand_not_mem (h : Conserved s (x :: hand) a unread taken unseen) :
    x ∉ s.freshSrbs ∧ x ∉ s.preparedSrbs ∧ x ∉ s.submittedSrbs ∧ x ∉ s.completions := by
  have hn := h.nodup_places
  simp only [List.cons_append, List.nodup_cons, List.mem_append, not_or] at hn
  exact ⟨hn.1.1.1.1.2, hn.1.1.1.2, hn.1.1.2, hn.1.2⟩

theorem Conserved.hand_queued (h : Conserved s (x :: hand) a unread taken unseen) :
    (s.ext x).queued = none := by
  obtain ⟨h1, h2, h3, -⟩ := h.hand_not_mem
  by_contra hne
  obtain ⟨q, hq⟩ := Option.ne_none_iff_exists'.mp hne
  have hm := (h.queued x q).mp hq
  cases q with
  | fresh => exact h1 hm
  | prepared => exact h2 hm
  | submitted => exact h3 hm

/-- The extension of an SRB in hand may change, as long as it stays off the queues. -/
theorem Conserved.setExt (h : Conserved s (x :: hand) a unread taken unseen) (e : SrbExtension)
    (he : e.queued = none) : Conserved (s.setExt x e) (x :: hand) a unread taken unseen := by
  obtain ⟨h1, h2, h3, -⟩ := h.hand_not_mem
  have hne : ∀ {l : List Nat} {y}, x ∉ l → y ∈ l → (s.setExt x e).ext y = s.ext y := by
    intro l y hx hy
    exact update_of_ne (ne_of_mem_of_not_mem hy hx) _ _
  refine { h with queued := ?_, fresh := ?_, prepared := ?_, submitted := ?_, count := ?_, full := ?_,
                  reset := ?_ }
  · intro y q
    rw [State.queue_setExt]
    by_cases hy : y = x
    · subst hy
      rw [show ((s.setExt y e).ext y) = e from update_self .., he, ← h.queued y q,
        h.hand_queued]
    · rw [show (s.setExt x e).ext y = s.ext y from update_of_ne hy _ _]
      exact h.queued y q
  · intro y hy
    rw [hne h1 hy]
    exact h.fresh y hy
  · intro y hy
    rw [hne h2 hy]
    exact h.prepared y hy
  · intro y hy
    rw [hne h3 hy]
    exact h.submitted y hy
  · intro y
    rw [h.count y]
    show (if y ∈ s.submittedSrbs then _ else 0) = if y ∈ s.submittedSrbs then _ else 0
    split
    · next hy => rw [hne h3 hy]
    · rfl
  · intro id hid
    rw [hne h3 (h.submitted_of_mem hid)]
    exact h.full id hid
  · intro hr
    refine ⟨(h.reset hr).1, fun y hy => ?_⟩
    have hx : x ∉ s.preparedSrbs ++ s.submittedSrbs := by
      rw [List.mem_append, not_or]
      exact ⟨h2, h3⟩
    rw [hne hx hy]
    exact (h.reset hr).2 y hy

theorem Conserved.complete (h : Conserved s [x] a unread taken unseen) :
    Conserved (s.completeSrb x) [] a unread taken unseen := by
  refine { h with places := ?_, queued := h.queued }
  refine List.Perm.trans ?_ h.places
  simp only [State.completeSrb, List.nil_append, List.cons_append, ← List.append_assoc]
  exact List.perm_append_singleton _ _

/-- A step that submits nothing and changes extensions in their links only. -/
theorem Conserved.relink {t : State} {hand' : List Nat} (h : Conserved s hand a unread taken unseen)
    (hsame : t.ring = s.ring ∧ t.crashed = s.crashed ∧ t.submittedSrbs = s.submittedSrbs ∧
      t.resetInProgress = s.resetInProgress)
    (hext : ∀ y, ∃ q, t.ext y = { s.ext y with queued := q })
    (places : (hand' ++ t.freshSrbs ++ t.preparedSrbs ++ t.submittedSrbs ++ t.completions).Perm
      (List.range t.allocated))
    (queued : t.Linked) (fresh : ∀ y ∈ t.freshSrbs, (s.ext y).bounced = true)
    (prepared : ∀ y ∈ t.preparedSrbs, (s.ext y).Ready)
    (reset : s.resetInProgress = true → t.freshSrbs = [] ∧
      ∀ y ∈ t.preparedSrbs, (s.ext y).bounced = false) :
    Conserved t hand' a unread taken unseen := by
  obtain ⟨hring, hcrashed, hsub, hreset⟩ := hsame
  have hb : ∀ y, (t.ext y).bounced = (s.ext y).bounced := fun y => by
    obtain ⟨q, e⟩ := hext y
    rw [e]
  have hn : ∀ y, (t.ext y).nrRequests = (s.ext y).nrRequests := fun y => by
    obtain ⟨q, e⟩ := hext y
    rw [e]
  have hr : ∀ y, (t.ext y).request = (s.ext y).request := fun y => by
    obtain ⟨q, e⟩ := hext y
    rw [e]
  constructor
  case alive => rw [hcrashed, h.alive]
  case ring => rw [hring]; exact h.ring
  case places => exact places
  case queued => exact queued
  case fresh =>
    intro y hy
    rw [hb]
    exact fresh y hy
  case prepared =>
    intro y hy
    obtain ⟨hpos, hfull⟩ := prepared y hy
    refine ⟨by rwa [hn], ?_⟩
    rwa [hn, hr, hb]
  case submitted =>
    intro y hy
    rw [hn]
    exact h.submitted y (hsub ▸ hy)
  case nodup => exact h.nodup
  case count =>
    intro y
    rw [hsub, hn]
    exact h.count y
  case full =>
    intro id hid
    rw [hr, hb]
    exact h.full id hid
  case reset =>
    intro e
    rw [hreset] at e
    refine ⟨(reset e).1, fun y hy => ?_⟩
    rw [hb]
    rcases List.mem_append.mp hy with hy | hy
    · exact (reset e).2 y hy
    · exact (h.reset e).2 y (List.mem_append_right _ (hsub ▸ hy))

theorem Conserved.queueFresh (h : Conserved s [x] a unread taken unseen)
    (hb : (s.ext x).bounced = true) (hr : s.resetInProgress = false) :
    ∃ t, s.queueSrb x .fresh = .ok t ∧ Conserved t [] a unread taken unseen ∧
      t.callback = s.callback := by
  refine ⟨_, State.queueSrb_eq h.hand_queued, ?_, rfl⟩
  refine h.relink ⟨rfl, rfl, rfl, rfl⟩ (fun y => ⟨_, State.setQueued_ext ..⟩) ?_
    (h.queued.enqueue h.hand_queued) ?_ h.prepared ?_
  · refine List.Perm.trans ?_ h.places
    rw [List.perm_iff_count]
    intro y
    simp only [State.setQueued, State.setExt, State.setQueue, State.queue, List.count_append,
      List.count_nil]
    omega
  · intro y hy
    rcases List.mem_append.mp hy with hy | hy
    · exact h.fresh y hy
    · rwa [List.mem_singleton.mp hy]
  · intro e
    exact absurd (hr.symm.trans e) (by decide)

theorem Conserved.queuePrepared (h : Conserved s [x] a unread taken unseen)
    (hready : (s.ext x).Ready) (hr : s.resetInProgress = true → (s.ext x).bounced = false) :
    ∃ t, s.queueSrb x .prepared = .ok t ∧ Conserved t [] a unread taken unseen ∧
      t.callback = s.callback ∧ t.freshSrbs = s.freshSrbs := by
  refine ⟨_, State.queueSrb_eq h.hand_queued, ?_, rfl, rfl⟩
  refine h.relink ⟨rfl, rfl, rfl, rfl⟩ (fun y => ⟨_, State.setQueued_ext ..⟩) ?_
    (h.queued.enqueue h.hand_queued) h.fresh ?_ ?_
  · refine List.Perm.trans ?_ h.places
    rw [List.perm_iff_count]
    intro y
    simp only [State.setQueued, State.setExt, State.setQueue, State.queue, List.count_append,
      List.count_nil]
    omega
  · intro y hy
    rcases List.mem_append.mp hy with hy | hy
    · exact h.prepared y hy
    · rwa [List.mem_singleton.mp hy]
  · intro e
    refine ⟨(h.reset e).1, fun y hy => ?_⟩
    rcases List.mem_append.mp hy with hy | hy
    · exact (h.reset e).2 y (List.mem_append_left _ hy)
    · rw [List.mem_singleton.mp hy]
      exact hr e

theorem Conserved.removeFresh {rest : List Nat} (h : Conserved s [] a unread taken unseen)
    (hf : s.freshSrbs = x :: rest) :
    ∃ t, s.removeSrbFromQueue x .fresh = .ok t ∧ Conserved t [x] a unread taken unseen ∧
      t.callback = s.callback ∧ t.freshSrbs = rest ∧ (t.ext x).bounced = true ∧
      t.resetInProgress = false ∧ t.bounce = s.bounce := by
  have hm : x ∈ s.queue .fresh := by
    rw [State.queue, hf]
    exact List.mem_cons_self
  have hq := (h.queued x .fresh).mpr hm
  have hrest : (s.queue .fresh).erase x = rest := by
    rw [State.queue, hf, List.erase_cons_head]
  have hn : (s.queue .fresh).Nodup := by
    have := h.nodup_places
    simp only [List.nil_append, List.append_assoc] at this
    exact (List.nodup_append.mp this).1
  have hres : s.resetInProgress = false := by
    by_contra e
    have := (h.reset (by simpa using e)).1
    rw [hf] at this
    cases this
  refine ⟨_, State.removeSrbFromQueue_eq hq, ?_, rfl, hrest, ?_, hres, rfl⟩
  · refine h.relink ⟨rfl, rfl, rfl, rfl⟩ (fun y => ⟨_, State.setQueued_ext ..⟩) ?_
      (h.queued.remove hn hm) ?_ h.prepared ?_
    · refine List.Perm.trans ?_ h.places
      rw [List.perm_iff_count]
      intro y
      simp only [State.setQueued, State.setExt, State.setQueue, hrest, hf, List.count_append,
        List.count_cons, List.count_nil]
      omega
    · intro y hy
      exact h.fresh y (List.mem_of_mem_erase hy)
    · intro e
      exact absurd (hres.symm.trans e) (by decide)
  · rw [State.setQueued_bounced]
    exact h.fresh x hm

/-! ### Preparing and submitting -/

section Prepare
variable {disk : Disk} {srb : Nat → Srb}

theorem Conserved.prepareSrb (h : Conserved s [x] a unread taken unseen)
    (hb : (s.ext x).bounced = false) (ha : srbNeedsBounceBuffer disk (srb x) = false)
    (hz : ¬((srb x).dataTransferLength = 0 ∧ (srb x).dataBuffer % pageSize = 0)) :
    ∃ t, s.prepareSrb disk srb x = .ok t ∧ Conserved t [] a unread taken unseen ∧
      t.callback = s.callback := by
  rw [State.prepareSrb, xmAssert_bind (by simp [hb])]
  by_cases hbig : (srb x).nrSegments > maxSegmentsPerSrb
  · simp only [hbig, if_true]
    exact ⟨_, rfl, h.complete, rfl⟩
  · obtain ⟨request, p, e, hd, hfull⟩ := (fills_aligned ha (srb x).nrSegments).srb
      (srb x).startLogicalBlock (p := ⟨0, s.bounce⟩) (by simp [alignedDone]) (s.ext x).request
    simp only [hbig, if_false, e]
    rw [xmAssert_bind (alignedDone_all ha hd)]
    have hc := h.setExt { s.ext x with request, nrRequests := nrRequestsFor (srb x).nrSegments }
      h.hand_queued
    obtain ⟨t, ht, hct, hcb, -⟩ := hc.queuePrepared
      (by
        simp only [State.setExt, update_self]
        refine ⟨nrRequestsFor_pos (Srb.nrSegments_pos hz), ?_⟩
        rwa [hb])
      (fun _ => by simpa [State.setExt] using hb)
    exact ⟨t, ht, hct, hcb⟩

theorem Conserved.prepareBouncedSrb (h : Conserved s [x] a unread taken unseen)
    (hb : (s.ext x).bounced = true) (hr : s.resetInProgress = false)
    (hpos : 0 < (srb x).dataTransferLength)
    (hlen : (srb x).dataTransferLength ≤ 4294967296 - pageSize)
    (hroom : (srb x).dataTransferLength ≤ maxSegmentsPerSrb * pageSize →
      (srb x).dataTransferLength ≤ s.bounce.length * pageSize) :
    ∃ t, s.prepareBouncedSrb disk srb x = .ok t ∧ Conserved t [] a unread taken unseen ∧
      t.callback = s.callback ∧ t.freshSrbs = s.freshSrbs := by
  have hN := Srb.nrBouncedSegments_eq hlen
  rw [State.prepareBouncedSrb, xmAssert_bind hb]
  by_cases hbig : (srb x).nrBouncedSegments > maxSegmentsPerSrb
  · simp only [hbig, if_true]
    exact ⟨_, rfl, h.complete, rfl, rfl⟩
  · have hbufs : (srb x).nrBouncedSegments ≤ s.bounce.length := by
      simp only [maxSegmentsPerSrb, pageSize] at hbig hroom hN
      omega
    have hfills : Fills (bouncedSegment disk (srb x)) (bouncedDone disk (srb x)
        (srb x).nrBouncedSegments) true (srb x).nrBouncedSegments := fills_bounced _
    obtain ⟨request, p, e, hd, hfull⟩ := hfills.srb (srb x).startLogicalBlock (p := ⟨0, s.bounce⟩)
      ⟨by simp, by simpa using hbufs⟩ (s.ext x).request
    simp only [hbig, if_false, e, if_true]
    rw [xmAssert_bind (bouncedDone_all hlen hd)]
    have hc := h.setExt
      { s.ext x with request, nrRequests := nrRequestsFor (srb x).nrBouncedSegments } h.hand_queued
    have hc : Conserved { s.setExt x { s.ext x with
        request, nrRequests := nrRequestsFor (srb x).nrBouncedSegments } with bounce := p.bounce }
        [x] a unread taken unseen := { hc with queued := hc.queued }
    obtain ⟨t, ht, hct, hcb, hf⟩ := hc.queuePrepared
      (by
        simp only [State.setExt, update_self]
        refine ⟨nrRequestsFor_pos ?_, ?_⟩
        · rw [hN, Nat.div_pos_iff]
          simp only [pageSize]
          omega
        · rwa [hb])
      (fun e => absurd (hr.symm.trans e) (by decide))
    exact ⟨t, ht, hct, hcb, hf⟩

end Prepare

/-- The requests of an SRB on the ring. -/
def blkifIds (x n : Nat) : List BlkifId := (List.range n).map fun i => ⟨x, i⟩

theorem map_srb_blkifIds (x n : Nat) : (blkifIds x n).map BlkifId.srb = List.replicate n x := by
  simp [blkifIds, List.map_map, Function.comp_def, List.map_const']

theorem mem_blkifIds {n : Nat} {id : BlkifId} (h : id ∈ blkifIds x n) : id.srb = x ∧ id.index < n := by
  obtain ⟨i, hi, rfl⟩ := List.mem_map.mp h
  exact ⟨rfl, List.mem_range.mp hi⟩

theorem nodup_blkifIds (x n : Nat) : (blkifIds x n).Nodup :=
  List.nodup_range.map fun _ _ e => congrArg BlkifId.index e

theorem Conserved.submit_ring (h : Conserved s [] a unread taken unseen)
    (hroom : ¬s.ring.prodSlotsAvail < (s.ext x).nrRequests) :
    (s.submitSrb x).ring.Holds a unread taken (unseen ++ blkifIds x (s.ext x).nrRequests) [] := by
  have hl : (blkifIds x (s.ext x).nrRequests).length = (s.ext x).nrRequests := by simp [blkifIds]
  have hf := h.ring.fits
  rw [h.ring.prodSlotsAvail_eq] at hroom
  rw [List.length_nil] at hroom hf
  have hp := (h.ring.puts (blkifIds x (s.ext x).nrRequests) (by
    rw [List.length_nil]
    omega)).pushRequests
  rw [List.nil_append, blkifIds, List.foldl_map] at hp
  exact hp

/-- The head of `PreparedSrbs` goes to the end of `SubmittedSrbs`. -/
def State.moveToSubmitted (s : State) (x : Nat) (rest : List Nat) : State :=
  { s with preparedSrbs := rest, submittedSrbs := s.submittedSrbs ++ [x]
           ext := update s.ext x { s.ext x with queued := some .submitted } }

theorem State.moveToSubmitted_eq {rest : List Nat} (hp : s.preparedSrbs = x :: rest)
    (hq : (s.ext x).queued = some .prepared) :
    (s.removeSrbFromQueue x .prepared >>= fun u => u.queueSrb x .submitted) =
      .ok (s.moveToSubmitted x rest) := by
  rw [State.removeSrbFromQueue_eq hq]
  show State.queueSrb _ _ _ = _
  rw [State.queueSrb_eq (by simp [State.setQueued, State.setExt])]
  simp [State.setQueued, State.setExt, State.setQueue, State.queue, State.moveToSubmitted, hp]

theorem State.Linked.moveToSubmitted {rest : List Nat} (h : s.Linked)
    (hp : s.preparedSrbs = x :: rest) (hn : s.preparedSrbs.Nodup) :
    (s.moveToSubmitted x rest).Linked := by
  have hm : x ∈ s.queue .prepared := by
    rw [State.queue, hp]
    exact List.mem_cons_self
  have hq : (s.ext x).queued = some .prepared := (h x .prepared).mpr hm
  have hr := h.remove (q := .prepared) hn hm
  have hl := hr.enqueue (x := x) (q := .submitted) (by simp [State.setQueued, State.setExt])
  rwa [show State.setQueued _ _ _ = s.moveToSubmitted x rest by
    simp [State.setQueued, State.setExt, State.setQueue, State.queue, State.moveToSubmitted,
      hp]] at hl

theorem Conserved.submit {rest : List Nat} (h : Conserved s [] a unread taken unseen)
    (hp : s.preparedSrbs = x :: rest) (hroom : ¬s.ring.prodSlotsAvail < (s.ext x).nrRequests) :
    ((s.submitSrb x).removeSrbFromQueue x .prepared >>= fun u => u.queueSrb x .submitted) =
      .ok ((s.submitSrb x).moveToSubmitted x rest) ∧
    Conserved ((s.submitSrb x).moveToSubmitted x rest) [] a unread taken
      (unseen ++ blkifIds x (s.ext x).nrRequests) := by
  have hm : x ∈ s.preparedSrbs := hp ▸ List.mem_cons_self
  have hready := h.prepared x hm
  have hnodup := h.nodup_places
  simp only [List.nil_append, List.append_assoc] at hnodup
  have hnodup := (List.nodup_append.mp hnodup).2.1
  have hn : s.preparedSrbs.Nodup := (List.nodup_append.mp hnodup).1
  have hx : x ∉ s.submittedSrbs := fun hc =>
    (List.nodup_append.mp hnodup).2.2 x hm x (List.mem_append_left _ hc) rfl
  have hbody : ∀ y, ∃ q, ((s.submitSrb x).moveToSubmitted x rest).ext y =
      { s.ext y with queued := q } := by
    intro y
    by_cases hy : y = x
    · subst hy
      exact ⟨_, update_self ..⟩
    · exact ⟨_, update_of_ne hy ..⟩
  have hnew : ∀ id ∈ blkifIds x (s.ext x).nrRequests, id ∉ unread ++ taken ++ unseen := by
    intro id hid hc
    have := h.submitted_of_mem hc
    rw [(mem_blkifIds hid).1] at this
    exact hx this
  refine ⟨State.moveToSubmitted_eq hp ((h.queued x .prepared).mpr hm), ?_⟩
  constructor
  case alive => exact h.alive
  case ring => exact h.submit_ring hroom
  case places =>
    refine List.Perm.trans ?_ h.places
    rw [List.perm_iff_count]
    intro y
    simp only [State.moveToSubmitted, State.submitSrb, hp, List.count_append, List.count_nil,
      List.count_cons]
    omega
  case queued => exact State.Linked.moveToSubmitted (s := s.submitSrb x) h.queued hp hn
  case fresh =>
    intro y hy
    obtain ⟨q, e⟩ := hbody y
    rw [e]
    exact h.fresh y hy
  case prepared =>
    intro y hy
    obtain ⟨q, e⟩ := hbody y
    rw [e]
    have := h.prepared y (hp ▸ List.mem_cons_of_mem _ hy)
    exact { this with }
  case submitted =>
    intro y hy
    obtain ⟨q, e⟩ := hbody y
    rw [e]
    rcases List.mem_append.mp hy with hy | hy
    · exact h.submitted y hy
    · rw [List.mem_singleton.mp hy]
      exact hready.pos
  case nodup =>
    rw [← List.append_assoc]
    exact h.nodup.append (nodup_blkifIds ..) fun id h1 h2 => hnew id h2 h1
  case count =>
    intro y
    obtain ⟨q, e⟩ := hbody y
    rw [e, ← List.append_assoc, List.map_append, List.count_append, h.count y, map_srb_blkifIds,
      List.count_replicate]
    show _ = if y ∈ s.submittedSrbs ++ [x] then _ else _
    by_cases hy : y = x
    · subst hy
      simp [hx]
    · simp [hy, Ne.symm hy]
  case full =>
    intro id hid
    obtain ⟨q, e⟩ := hbody id.srb
    rw [e]
    rw [← List.append_assoc] at hid
    rcases List.mem_append.mp hid with hid | hid
    · exact h.full id hid
    · obtain ⟨hs, hi⟩ := mem_blkifIds hid
      rw [hs]
      exact hready.full _ hi
  case reset =>
    intro hr
    refine ⟨(h.reset hr).1, fun y hy => ?_⟩
    obtain ⟨q, e⟩ := hbody y
    rw [e]
    apply (h.reset hr).2 y
    rw [hp]
    simp only [State.moveToSubmitted, State.submitSrb, List.mem_append, List.mem_cons] at hy ⊢
    grind

theorem Conserved.submitLoop {n : Nat} (h : Conserved s [] a unread taken unseen) :
    ∃ t unseen', State.submitLoop n s = .ok t ∧ Conserved t [] a unread taken unseen' ∧
      t.callback = s.callback ∧ t.freshSrbs = s.freshSrbs := by
  induction n generalizing s unseen with
  | zero => exact ⟨s, unseen, rfl, h, rfl, rfl⟩
  | succ n ih =>
    rw [State.submitLoop]
    rcases hp : s.preparedSrbs with _ | ⟨x, rest⟩
    · exact ⟨s, unseen, rfl, h, rfl, rfl⟩
    · simp only
      split
      · exact ⟨s, unseen, rfl, h, rfl, rfl⟩
      · next hroom =>
        obtain ⟨e, hc⟩ := h.submit hp hroom
        obtain ⟨t, unseen', ht, hct, hcb, hf⟩ := ih hc
        refine ⟨t, unseen', ?_, hct, hcb, hf⟩
        rw [← bind_assoc, e]
        exact ht

/-! ### Responses -/

theorem foldlM_freeBounceBuffer {bids : List Nat} (h : bids = [] ∨ s.resetInProgress = false) :
    bids.foldlM State.freeBounceBuffer s = .ok { s with bounce := bids.reverse ++ s.bounce } := by
  induction bids generalizing s with
  | nil => rfl
  | cons bid bids ih =>
    have hr := h.resolve_left (List.cons_ne_nil _ _)
    rw [List.foldlM_cons, State.freeBounceBuffer, if_neg (by simp [hr]), List.reverse_cons,
      List.append_assoc]
    exact ih (.inr hr)

/-- One request of an SRB less. -/
def SrbExtension.answered (e : SrbExtension) (i : Nat) : SrbExtension :=
  { e with request := update e.request i zeroRequest, nrRequests := e.nrRequests - 1 }

section Response
variable {id : BlkifId}

/-- The state when a response was consumed, before it is seen whether it was the last of its SRB. -/
def State.consumed (s : State) (id : BlkifId) (bids : List Nat) : State :=
  { s with ring := s.ring.consume, bounce := bids.reverse ++ s.bounce
           ext := update s.ext id.srb ((s.ext id.srb).answered id.index) }

theorem Conserved.head_submitted (h : Conserved s [] a (id :: unread) taken unseen) :
    id.srb ∈ s.submittedSrbs := h.submitted_of_mem (by simp)

theorem Conserved.prepared_ne_head (h : Conserved s [] a (id :: unread) taken unseen) :
    ∀ y ∈ s.preparedSrbs, y ≠ id.srb := by
  intro y hy e
  have h1 := (h.queued y .prepared).mpr hy
  have h2 := (h.queued id.srb .submitted).mpr h.head_submitted
  rw [e, h2] at h1
  cases h1

/-- What is left on the ring after a response. -/
theorem Conserved.count_rest (h : Conserved s [] a (id :: unread) taken unseen) (y : Nat) :
    ((unread ++ taken ++ unseen).map BlkifId.srb).count y + (if id.srb = y then 1 else 0) =
      if y ∈ s.submittedSrbs then (s.ext y).nrRequests else 0 := by
  rw [← h.count y]
  simp only [List.cons_append, List.map_cons, List.count_cons, beq_iff_eq]

theorem Conserved.full_rest {bids : List Nat} (h : Conserved s [] a (id :: unread) taken unseen)
    {id' : BlkifId} (hm : id' ∈ unread ++ taken ++ unseen) :
    (((s.consumed id bids).ext id'.srb).request id'.index).Full
      ((s.consumed id bids).ext id'.srb).bounced := by
  have hne : id' ≠ id := fun e => by
    have := h.nodup
    simp only [List.cons_append, List.nodup_cons] at this
    exact this.1 (e ▸ hm)
  have hf := h.full id' (by
    simp only [List.cons_append]
    exact List.mem_cons_of_mem _ hm)
  by_cases hs : id'.srb = id.srb
  · have hi : id'.index ≠ id.index := fun e => hne (by
      cases id; cases id'; simp_all)
    rw [hs] at hf ⊢
    simpa [State.consumed, SrbExtension.answered, update_of_ne hi] using hf
  · simpa [State.consumed, update_of_ne hs] using hf

theorem Conserved.completeRequest_eq (h : Conserved s [] a (id :: unread) taken unseen) :
    ∃ bids, s.completeRequest id =
      if (s.ext id.srb).nrRequests - 1 = 0 then
        (s.consumed id bids).removeSrbFromQueue id.srb .submitted >>= fun t =>
          .ok (t.completeSrb id.srb)
      else .ok (s.consumed id bids) := by
  obtain ⟨hl, hb⟩ := h.full id (by simp)
  have hpos := h.submitted id.srb h.head_submitted
  refine ⟨if (s.ext id.srb).bounced then
    ((s.ext id.srb).request id.index).seg.filterMap (·.bid) else [], ?_⟩
  rw [State.completeRequest, xmAssert_bind hl, xmAssert_bind hb]
  dsimp only
  rw [foldlM_freeBounceBuffer]
  · show (xmAssert _ Crash.bugCheck >>= _) = _
    rw [xmAssert_bind (by omega)]
    rfl
  · by_cases hr : s.resetInProgress = true
    · have := (h.reset hr).2 id.srb (List.mem_append_right _ h.head_submitted)
      left
      rw [this]
      rfl
    · right
      simpa using hr

theorem State.Linked.consumed {bids : List Nat} (h : s.Linked) : (s.consumed id bids).Linked := by
  intro y q
  rw [show (s.consumed id bids).queue q = s.queue q by cases q <;> rfl, ← h y q]
  by_cases hy : y = id.srb
  · subst hy
    simp [State.consumed, SrbExtension.answered]
  · simp [State.consumed, update_of_ne hy]

theorem State.consumed_bounced (bids : List Nat) (y : Nat) :
    ((s.consumed id bids).ext y).bounced = (s.ext y).bounced := by
  by_cases hy : y = id.srb
  · subst hy
    simp [State.consumed, SrbExtension.answered]
  · simp [State.consumed, update_of_ne hy]

/-- A response that is not the last of its SRB. -/
theorem Conserved.consumed {bids : List Nat} (h : Conserved s [] a (id :: unread) taken unseen)
    (hn : (s.ext id.srb).nrRequests - 1 ≠ 0) :
    Conserved (s.consumed id bids) [] (a + 1) unread taken unseen := by
  have hx := h.head_submitted
  have hother : ∀ y, y ≠ id.srb → (s.consumed id bids).ext y = s.ext y :=
    fun y hy => update_of_ne hy _ _
  have hne := h.prepared_ne_head
  constructor
  case alive => exact h.alive
  case ring => exact h.ring.consume
  case places => exact h.places
  case queued => exact h.queued.consumed
  case fresh =>
    intro y hy
    rw [State.consumed_bounced]
    exact h.fresh y hy
  case prepared =>
    intro y hy
    rw [hother y (hne y hy)]
    exact h.prepared y hy
  case submitted =>
    intro y hy
    by_cases hyx : y = id.srb
    · subst hyx
      simp only [State.consumed, SrbExtension.answered, update_self]
      omega
    · rw [hother y hyx]
      exact h.submitted y hy
  case nodup => exact (List.nodup_cons.mp h.nodup).2
  case count =>
    intro y
    have hc := h.count_rest y
    show _ = if y ∈ s.submittedSrbs then _ else _
    by_cases hyx : y = id.srb
    · subst hyx
      rw [if_pos hx] at hc ⊢
      simp only [State.consumed, SrbExtension.answered, update_self]
      rw [if_pos rfl] at hc
      omega
    · rw [hother y hyx, ← hc, if_neg (Ne.symm hyx), Nat.add_zero]
  case full => exact fun id' hm => h.full_rest hm
  case reset =>
    intro hr
    refine ⟨(h.reset hr).1, fun y hy => ?_⟩
    rw [State.consumed_bounced]
    exact (h.reset hr).2 y hy

/-- The last response of an SRB. -/
theorem Conserved.last (bids : List Nat) (h : Conserved s [] a (id :: unread) taken unseen)
    (hn : (s.ext id.srb).nrRequests - 1 = 0) :
    ∃ t, (s.consumed id bids).removeSrbFromQueue id.srb .submitted = .ok t ∧
      Conserved t [id.srb] (a + 1) unread taken unseen ∧ t.callback = s.callback := by
  have hx := h.head_submitted
  have hlink : (s.consumed id bids).Linked := h.queued.consumed
  have hnodup := h.nodup_places
  simp only [List.nil_append, List.append_assoc] at hnodup
  have hsub : s.submittedSrbs.Nodup :=
    (List.nodup_append.mp (List.nodup_append.mp (List.nodup_append.mp hnodup).2.1).2.1).1
  have hpos := h.submitted id.srb hx
  have hzero := h.count_rest id.srb
  rw [if_pos hx, if_pos rfl] at hzero
  have hrest : ∀ id' ∈ unread ++ taken ++ unseen, id'.srb ≠ id.srb := by
    intro id' hm e
    have : id.srb ∈ (unread ++ taken ++ unseen).map BlkifId.srb := e ▸ List.mem_map_of_mem hm
    have := List.count_pos_iff.mpr this
    omega
  have hext : ∀ y, y ≠ id.srb → (((s.consumed id bids).setQueue
      (((s.consumed id bids).queue .submitted).erase id.srb) .submitted).setQueued
        id.srb none).ext y = s.ext y := by
    intro y hy
    simp [State.setQueued, State.setExt, State.setQueue, State.consumed, update_of_ne hy]
  have hne := h.prepared_ne_head
  refine ⟨_, State.removeSrbFromQueue_eq ((hlink id.srb .submitted).mpr hx), ?_, rfl⟩
  constructor
  case alive => exact h.alive
  case ring => exact h.ring.consume
  case places =>
    refine List.Perm.trans ?_ h.places
    have he := (List.perm_cons_erase hx).count_eq
    rw [List.perm_iff_count]
    intro y
    have := he y
    simp only [State.setQueued, State.setExt, State.setQueue, State.queue, State.consumed,
      List.count_append, List.count_cons, List.count_nil] at this ⊢
    omega
  case queued => exact hlink.remove hsub hx
  case fresh =>
    intro y hy
    rw [State.setQueued_bounced]
    exact (State.consumed_bounced bids y).trans (h.fresh y hy)
  case prepared =>
    intro y hy
    rw [hext y (hne y hy)]
    exact h.prepared y hy
  case submitted =>
    intro y hy
    obtain ⟨hyx, hy⟩ := hsub.mem_erase_iff.mp hy
    rw [hext y hyx]
    exact h.submitted y hy
  case nodup => exact (List.nodup_cons.mp h.nodup).2
  case count =>
    intro y
    have hc := h.count_rest y
    show _ = if y ∈ s.submittedSrbs.erase id.srb then _ else _
    by_cases hyx : y = id.srb
    · subst hyx
      rw [if_neg (fun hm => (hsub.mem_erase_iff.mp hm).1 rfl)]
      omega
    · rw [hext y hyx]
      simpa [hsub.mem_erase_iff, hyx, Ne.symm hyx] using hc
  case full =>
    intro id' hm
    rw [hext _ (hrest id' hm)]
    exact h.full id' (List.mem_cons_of_mem _ hm)
  case reset =>
    intro hr
    refine ⟨(h.reset hr).1, fun y hy => ?_⟩
    rw [State.setQueued_bounced]
    refine (State.consumed_bounced bids y).trans ((h.reset hr).2 y ?_)
    rcases List.mem_append.mp hy with hy | hy
    · exact List.mem_append_left _ hy
    · exact List.mem_append_right _ (List.mem_of_mem_erase hy)

theorem Conserved.completeRequest (h : Conserved s [] a (id :: unread) taken unseen) :
    ∃ t, s.completeRequest id = .ok t ∧ Conserved t [] (a + 1) unread taken unseen ∧
      t.callback = s.callback := by
  obtain ⟨bids, e⟩ := h.completeRequest_eq
  rw [e]
  split
  · next hn =>
    obtain ⟨t, ht, hc, hcb⟩ := h.last bids hn
    rw [ht]
    exact ⟨_, rfl, hc.complete, hcb⟩
  · next hn => exact ⟨_, rfl, h.consumed hn, rfl⟩

end Response

/-! ### The back end, and new SRBs -/

/-- The back end moves what is on the ring. -/
theorem Conserved.back {r : SharedRing BlkifId BlkifId} {unread' taken' unseen' : List BlkifId}
    (h : Conserved s hand a unread taken unseen) (hr : r.Holds a unread' taken' unseen' [])
    (hp : (unread' ++ taken' ++ unseen').Perm (unread ++ taken ++ unseen)) :
    Conserved { s with ring := r } hand a unread' taken' unseen' := by
  refine { h with ring := hr, nodup := ?_, count := ?_, full := ?_, queued := h.queued }
  · exact hp.nodup_iff.mpr h.nodup
  · intro y
    rw [(hp.map _).count_eq]
    exact h.count y
  · intro id hm
    exact h.full id (hp.mem_iff.mp hm)

/-- A new SRB. -/
theorem Conserved.alloc (h : Conserved s [] a unread taken unseen) (e : SrbExtension)
    (he : e.queued = none) :
    Conserved { s.setExt s.allocated e with allocated := s.allocated + 1 } [s.allocated] a unread
      taken unseen := by
  have hc : Conserved { s with allocated := s.allocated + 1 } [s.allocated] a unread taken unseen := by
    refine { h with places := ?_, queued := h.queued }
    rw [List.range_succ]
    exact (h.places.cons s.allocated).trans (List.perm_append_singleton _ _).symm
  have hs := hc.setExt e he
  exact { hs with queued := hs.queued }

end Conserved

/-! ## Runs -/

/-- Where the callback is, against the ring and the fresh SRBs. -/
def State.AtCallback (s : State) (a : Nat) (unread : List BlkifId) : Prop :=
  match s.callback with
  | .idle => True
  | .responses prod _ => ∃ m ≤ unread.length, prod = u32 (a + m)
  | .fresh srbs => srbs = s.freshSrbs

theorem State.atCallback_idle {s : State} {a : Nat} {unread : List BlkifId}
    (h : s.callback = .idle) : s.AtCallback a unread := by
  simp only [AtCallback, h]

/-- No SRB is lost. -/
def Safe (s : State) : Prop :=
  ∃ a unread taken unseen, Conserved s [] a unread taken unseen ∧ s.AtCallback a unread

section Steps
variable {disk : Disk} {srb : Nat → Srb} {s : State}

/-- What a step is provided with: an aligned SRB touches a page, a bounced SRB has bytes that round
up to pages in 32 bits and finds bounce buffers for them unless it is too big, and a bus reset finds
nothing bounced on its way. -/
def Provided (disk : Disk) (srb : Nat → Srb) (s : State) : Act → Prop
  | .startIo => srbNeedsBounceBuffer disk (srb s.allocated) = false →
      ¬((srb s.allocated).dataTransferLength = 0 ∧ (srb s.allocated).dataBuffer % pageSize = 0)
  | .callbackPrepare =>
    match s.callback with
    | .fresh (x :: _) =>
      0 < (srb x).dataTransferLength ∧ (srb x).dataTransferLength ≤ 4294967296 - pageSize ∧
      ((srb x).dataTransferLength ≤ maxSegmentsPerSrb * pageSize →
        (srb x).dataTransferLength ≤ s.bounce.length * pageSize)
    | _ => True
  | .resetBegin => ∀ x ∈ s.preparedSrbs ++ s.submittedSrbs, (s.ext x).bounced = false
  | _ => True

theorem safe_startIo (h : Safe s) (hi : s.callback = .idle) (hr : s.resetInProgress = false)
    (hok : Provided disk srb s .startIo) : ∃ t, s.startIo disk srb = .ok t ∧ Safe t := by
  obtain ⟨a, unread, taken, unseen, hc, -⟩ := h
  have hn := hc.alloc ⟨fun _ => zeroRequest, 0, srbNeedsBounceBuffer disk (srb s.allocated), none⟩ rfl
  rw [State.startIo]
  cases hb : srbNeedsBounceBuffer disk (srb s.allocated) with
  | true =>
    obtain ⟨t, ht, hct, hcb⟩ := hn.queueFresh (by simp [State.setExt, hb]) hr
    rw [hb] at ht
    exact ⟨t, ht, a, unread, taken, unseen, hct, State.atCallback_idle (hcb.trans hi)⟩
  | false =>
    obtain ⟨t, ht, hct, hcb⟩ := hn.prepareSrb (by simp [State.setExt, hb]) hb (hok hb)
    obtain ⟨u, unseen', hu, hcu, hcb', -⟩ := hct.submitLoop (n := t.preparedSrbs.length)
    rw [hb] at ht
    refine ⟨u, ?_, a, unread, taken, unseen', hcu,
      State.atCallback_idle (hcb'.trans (hcb.trans hi))⟩
    simp only [Bool.false_eq_true, if_false, ht]
    exact hu

theorem safe_response {prod : Nat} {finalCheck : Bool} (h : Safe s)
    (hcb : s.callback = .responses prod finalCheck) (hne : s.ring.rspCons ≠ prod) :
    ∃ id t, s.ring.getResponse = some id ∧ s.completeRequest id = .ok t ∧ Safe t := by
  obtain ⟨a, unread, taken, unseen, hc, hat⟩ := h
  simp only [State.AtCallback, hcb] at hat
  obtain ⟨m, hm, rfl⟩ := hat
  rw [hc.ring.rspCons] at hne
  have hpos : 0 < m := by
    by_contra h0
    rw [show m = 0 by omega, Nat.add_zero] at hne
    exact hne rfl
  obtain ⟨id, rest, rfl⟩ := List.exists_cons_of_length_pos (Nat.lt_of_lt_of_le hpos hm)
  obtain ⟨t, ht, hct, hcbt⟩ := hc.completeRequest
  refine ⟨id, t, hc.ring.getResponse, ht, a + 1, rest, taken, unseen, hct, ?_⟩
  rw [List.length_cons] at hm
  simp only [State.AtCallback, hcbt, hcb]
  exact ⟨m - 1, by omega, congrArg u32 (by omega)⟩

theorem safe_prepare {x : Nat} {srbs : List Nat} (h : Safe s) (hcb : s.callback = .fresh (x :: srbs))
    (hok : Provided disk srb s .callbackPrepare) :
    ∃ t, (do
      let s ← ({ s with callback := .fresh srbs } : State).removeSrbFromQueue x .fresh
      if (s.ext x).bounced then s.prepareBouncedSrb disk srb x else s.prepareSrb disk srb x) =
        .ok t ∧ Safe t := by
  obtain ⟨a, unread, taken, unseen, hc, hat⟩ := h
  simp only [State.AtCallback, hcb] at hat
  simp only [Provided, hcb] at hok
  obtain ⟨hpos, hlen, hroom⟩ := hok
  have hc : Conserved { s with callback := .fresh srbs } [] a unread taken unseen :=
    { hc with queued := hc.queued }
  obtain ⟨u, hu, hcu, hcbu, hfu, hbu, hru, hbufs⟩ := hc.removeFresh hat.symm
  obtain ⟨t, ht, hct, hcbt, hft⟩ : ∃ t, u.prepareBouncedSrb disk srb x = .ok t ∧ _ :=
    hcu.prepareBouncedSrb hbu hru hpos hlen (by rwa [hbufs])
  refine ⟨t, ?_, a, unread, taken, unseen, hct, ?_⟩
  · rw [hu]
    show (if _ then _ else _) = _
    rw [if_pos hbu, ht]
  · simp only [State.AtCallback, hcbt, hcbu, hft, hfu]

/-- The fresh SRBs are aborted. -/
theorem State.Linked.abort (h : s.Linked) (l : List Nat) : State.Linked { s with
    freshSrbs := []
    ext := fun x => if x ∈ s.freshSrbs then { s.ext x with queued := none } else s.ext x
    completions := l } := by
  intro y q
  show (SrbExtension.queued (if y ∈ s.freshSrbs then _ else _)) = _ ↔ _
  split
  · next hy =>
    have hq := (h y .fresh).mpr hy
    constructor
    · intro e
      cases e
    · intro hm
      cases q with
      | fresh => cases hm
      | prepared => exact absurd (hq.symm.trans ((h y .prepared).mpr hm)) (by decide)
      | submitted => exact absurd (hq.symm.trans ((h y .submitted).mpr hm)) (by decide)
  · next hy =>
    rw [h y q]
    cases q with
    | fresh => exact ⟨fun hm => absurd hm hy, fun hm => nomatch hm⟩
    | prepared => exact Iff.rfl
    | submitted => exact Iff.rfl

theorem safe_reset (h : Safe s) (hi : s.callback = .idle)
    (hok : Provided disk srb s .resetBegin) :
    Safe { s with
      resetInProgress := true
      freshSrbs := []
      ext := fun x => if x ∈ s.freshSrbs then { s.ext x with queued := none } else s.ext x
      completions := s.completions ++ s.freshSrbs } := by
  obtain ⟨a, unread, taken, unseen, hc, -⟩ := h
  refine ⟨a, unread, taken, unseen, ?_, State.atCallback_idle hi⟩
  have hext : ∀ y, ∃ q, (if y ∈ s.freshSrbs then { s.ext y with queued := none } else s.ext y) =
      { s.ext y with queued := q } := by
    intro y
    split
    · exact ⟨_, rfl⟩
    · exact ⟨_, rfl⟩
  have hc1 : Conserved { s with
      freshSrbs := []
      ext := fun x => if x ∈ s.freshSrbs then { s.ext x with queued := none } else s.ext x
      completions := s.completions ++ s.freshSrbs } [] a unread taken unseen := by
    refine hc.relink ⟨rfl, rfl, rfl, rfl⟩ hext ?_ (hc.queued.abort _) (fun _ hy => nomatch hy)
      hc.prepared (fun e => ⟨rfl, fun y hy => (hc.reset e).2 y (List.mem_append_left _ hy)⟩)
    refine List.Perm.trans ?_ hc.places
    rw [List.perm_iff_count]
    intro y
    simp only [List.count_append, List.count_nil]
    omega
  refine { hc1 with queued := hc1.queued, reset := fun _ => ⟨rfl, fun y hy => ?_⟩ }
  obtain ⟨q, e⟩ := hext y
  simp only [e]
  exact hok y hy

/-- A step that is provided for does not fail, and loses nothing. -/
theorem safe_act {a : Act} {r : Except Crash State} (h : Safe s) (hok : Provided disk srb s a)
    (hst : act disk srb s a = some r) : ∃ t, r = .ok t ∧ Safe t := by
  cases a with
  | startIo =>
    simp only [act] at hst
    split at hst
    · next hi =>
      split at hst
      · cases hst
      · next hr =>
        cases hst
        exact safe_startIo h hi (by simpa using hr) hok
    · cases hst
  | callbackBegin =>
    simp only [act] at hst
    split at hst
    · cases hst
      obtain ⟨a, unread, taken, unseen, hc, -⟩ := h
      refine ⟨_, rfl, a, unread, taken, unseen, { hc with queued := hc.queued }, ?_⟩
      exact ⟨unread.length, Nat.le_refl _, hc.ring.rspProd⟩
    · cases hst
  | callbackResponse =>
    simp only [act] at hst
    split at hst
    · next hcb =>
      split at hst
      · next hne =>
        obtain ⟨id, t, hg, ht, hs⟩ := safe_response h hcb hne
        rw [hg] at hst
        cases hst
        exact ⟨t, ht, hs⟩
      · cases hst
    · cases hst
  | callbackCheck =>
    simp only [act] at hst
    split at hst
    · next hcb =>
      obtain ⟨a, unread, taken, unseen, hc, hat⟩ := h
      split at hst
      · split at hst
        · cases hst
          refine ⟨_, rfl, a, unread, taken, unseen, { hc with queued := hc.queued }, ?_⟩
          exact ⟨unread.length, Nat.le_refl _, hc.ring.rspProd⟩
        · split at hst
          · cases hst
            exact ⟨_, rfl, a, unread, taken, unseen, { hc with queued := hc.queued }, rfl⟩
          · cases hst
            simp only [State.AtCallback, hcb] at hat
            exact ⟨_, rfl, a, unread, taken, unseen,
              { hc with queued := hc.queued, ring := { hc.ring with } }, hat⟩
      · cases hst
    · cases hst
  | callbackPrepare =>
    simp only [act] at hst
    split at hst
    · next hcb =>
      cases hst
      exact safe_prepare h hcb hok
    · cases hst
  | callbackSubmit =>
    simp only [act] at hst
    split at hst
    · cases hst
      obtain ⟨a, unread, taken, unseen, hc, -⟩ := h
      have hc : Conserved { s with callback := .idle } [] a unread taken unseen :=
        { hc with queued := hc.queued }
      obtain ⟨t, unseen', ht, hct, hcb, -⟩ := hc.submitLoop (n := s.preparedSrbs.length)
      exact ⟨t, ht, a, unread, taken, unseen', hct, State.atCallback_idle hcb⟩
    · cases hst
  | resetBegin =>
    simp only [act] at hst
    split at hst
    · next hi =>
      split at hst
      · cases hst
      · cases hst
        exact ⟨_, rfl, safe_reset h hi hok⟩
    · cases hst
  | resetEnd =>
    simp only [act] at hst
    split at hst
    · next hi =>
      split at hst
      · cases hst
        obtain ⟨a, unread, taken, unseen, hc, -⟩ := h
        exact ⟨_, rfl, a, unread, taken, unseen,
          { hc with queued := hc.queued, reset := fun e => nomatch e }, State.atCallback_idle hi⟩
      · cases hst
    · cases hst
  | otherAllocate =>
    simp only [act] at hst
    split at hst
    · cases hst
      obtain ⟨a, unread, taken, unseen, hc, hat⟩ := h
      exact ⟨_, rfl, a, unread, taken, unseen, { hc with queued := hc.queued }, hat⟩
    · cases hst
  | otherFree bid =>
    obtain ⟨-, hst⟩ := Option.ite_none_right_eq_some.mp hst
    cases hst
    obtain ⟨a, unread, taken, unseen, hc, hat⟩ := h
    exact ⟨_, rfl, a, unread, taken, unseen, { hc with queued := hc.queued }, hat⟩
  | backTake =>
    obtain ⟨r', hr, rfl⟩ := Option.map_eq_some_iff.mp hst
    obtain ⟨a, unread, taken, unseen, hc, hat⟩ := h
    obtain ⟨x, rest, rfl, hh⟩ := hc.ring.take_some hr
    refine ⟨_, rfl, a, unread, _, rest, hc.back hh ?_, hat⟩
    simp
  | backAnswer x =>
    obtain ⟨hx, hst⟩ := Option.ite_none_right_eq_some.mp hst
    cases hst
    obtain ⟨a, unread, taken, unseen, hc, hat⟩ := h
    rw [hc.ring.has] at hx
    refine ⟨_, rfl, a, _, _, unseen, hc.back (hc.ring.answer hx x) ?_, ?_⟩
    · have he := (List.perm_cons_erase hx).symm
      rw [List.append_assoc unread]
      exact ((List.Perm.append_left unread he).append_right unseen)
    · revert hat
      simp only [State.AtCallback]
      split
      · exact id
      · rintro ⟨m, hm, e⟩
        exact ⟨m, by rw [List.length_append]; omega, e⟩
      · exact id

theorem safe_step {a : Act} {t : State} (h : Safe s) (hok : Provided disk srb s a)
    (hst : step disk srb s a = some t) : Safe t := by
  have hal : s.crashed = none := by
    obtain ⟨a, unread, taken, unseen, hc, -⟩ := h
    exact hc.alive
  rw [step, hal] at hst
  obtain ⟨r, hr, rfl⟩ := Option.map_eq_some_iff.mp hst
  obtain ⟨t, rfl, ht⟩ := safe_act h hok hr
  exact ht

theorem safe_init (order : Fin 3) (bounce : List Nat) : Safe (init (32 * 2 ^ order.val) bounce) := by
  refine ⟨0, [], [], [], ?_, State.atCallback_idle rfl⟩
  constructor
  case alive => rfl
  case ring =>
    have hsize : ∀ order : Fin 3, 0 < 32 * 2 ^ order.val ∧ 32 * 2 ^ order.val < 4294967296 ∧
        32 * 2 ^ order.val ∣ 4294967296 := by decide
    obtain ⟨h0, h1, h2⟩ := hsize order
    exact SharedRing.holds_fresh h0 h1 h2
  case places => exact List.Perm.refl _
  case queued =>
    intro y q
    cases q <;> simp [init, State.queue]
  case fresh => exact fun _ hy => nomatch hy
  case prepared => exact fun _ hy => nomatch hy
  case submitted => exact fun _ hy => nomatch hy
  case nodup => exact List.nodup_nil
  case count => exact fun _ => rfl
  case full => exact fun _ hy => nomatch hy
  case reset => exact fun e => nomatch e

/-- As long as every step is provided for: no assertion fails and no lock is taken twice; each SRB is
in one of the queues or was completed, once; every SRB in `SubmittedSrbs` has a request on the ring;
and the requests on the ring fit in it. -/
theorem srbs_conserved {order : Fin 3} {bounce : List Nat}
    (h : (machine disk srb order bounce).Reach (Provided disk srb) s) :
    s.crashed = none ∧
    (s.freshSrbs ++ s.preparedSrbs ++ s.submittedSrbs ++ s.completions).Perm
      (List.range s.allocated) ∧
    (∀ x ∈ s.submittedSrbs, ∃ id ∈ s.outstanding, id.srb = x) ∧
    sub32 s.ring.reqProdPvt s.ring.rspCons ≤ s.ring.nrEnts := by
  obtain ⟨a, unread, taken, unseen, hc, -⟩ : Safe s :=
    h.inv (safe_init order bounce) (fun _ _ _ => safe_step)
  refine ⟨hc.alive, hc.places, fun x hx => ?_, ?_⟩
  · have hcount := hc.count x
    rw [if_pos hx] at hcount
    have hpos := hc.submitted x hx
    obtain ⟨id, hid, e⟩ := List.mem_map.mp (List.count_pos_iff.mp (hcount ▸ hpos))
    refine ⟨id, ?_, e⟩
    rwa [State.outstanding, hc.ring.unread_eq, hc.ring.has, hc.ring.unseen_eq]
  · rw [hc.ring.prod_sub_cons]
    exact hc.ring.fits

end Steps

section Witness

instance (disk : Disk) (srb : Nat → Srb) (s : State) (a : Act) : Decidable (Provided disk srb s a) := by
  unfold Provided
  split
  · infer_instance
  · split <;> infer_instance
  · infer_instance
  · infer_instance

/-- A disk of 512-byte sectors. -/
def disk512 : Disk := ⟨512, by decide, by decide⟩

/-- A read of a whole page, one of 24 sectors that is not aligned, and one of 12 pages and a half. -/
def reads (x : Nat) : Srb :=
  match x with
  | 0 => ⟨8192, 4096, 7, by decide⟩
  | 1 => ⟨8196, 12288, 100, by decide⟩
  | _ => ⟨65536 + 512, 51200, 1000, by decide⟩

/-- The aligned read is answered while the bounced one is prepared; the third, of two requests, is
answered the other way round during a bus reset. -/
theorem srbs_conserved_run :
    ∃ s, (machine disk512 reads 0 [3, 1, 2]).Reach (Provided disk512 reads) s ∧
      s.completions = [0, 1] ∧ s.submittedSrbs = [2] ∧ s.resetInProgress = true ∧
      s.outstanding = [⟨2, 0⟩] ∧ s.crashed = none ∧
      ∀ x ∈ s.submittedSrbs, ∃ id ∈ s.outstanding, id.srb = x := by
  obtain ⟨s, hr, hp⟩ := Machine.exists_reach (machine disk512 reads 0 [3, 1, 2])
    (Provided disk512 reads)
    (fun s => s.completions = [0, 1] ∧ s.submittedSrbs = [2] ∧ s.resetInProgress = true ∧
      s.outstanding = [⟨2, 0⟩])
    [.startIo, .startIo, .backTake, .backAnswer ⟨0, 0⟩, .callbackBegin, .callbackResponse,
      .callbackCheck, .callbackCheck, .callbackPrepare, .callbackSubmit, .startIo, .backTake,
      .backTake, .backTake, .backAnswer ⟨1, 0⟩, .callbackBegin, .callbackResponse, .callbackCheck,
      .callbackCheck, .callbackSubmit, .resetBegin, .backAnswer ⟨2, 1⟩, .callbackBegin,
      .callbackResponse] (by decide +kernel)
  simp only [decide_eq_true_eq] at hp
  have hc := srbs_conserved hr
  exact ⟨s, hr, hp.1, hp.2.1, hp.2.2.1, hp.2.2.2, hc.1, hc.2.2.1⟩

/-- A read of no bytes. -/
def readNothing (_ : Nat) : Srb := ⟨0, 0, 0, by decide⟩

/-- Reads that are not aligned. -/
def readsOdd (_ : Nat) : Srb := ⟨1, 4096, 0, by decide⟩

/-- An SRB of no bytes is submitted with no request. A bounced SRB for which there is no bounce
buffer stops the system, and so does one that a bus reset waits for. -/
theorem srb_stranded :
    (∃ s, (machine disk512 readNothing 0 []).Reach Machine.Any s ∧ s.submittedSrbs = [0] ∧
      s.outstanding = []) ∧
    (∃ s, (machine disk512 readsOdd 0 []).Reach Machine.Any s ∧ s.crashed = some .bugCheck) ∧
    ∃ s, (machine disk512 readsOdd 0 [5]).Reach Machine.Any s ∧ s.crashed = some .spin := by
  refine ⟨?_, ?_, ?_⟩
  · obtain ⟨s, hr, hp⟩ := Machine.exists_reach (machine disk512 readNothing 0 []) Machine.Any
      (fun s => s.submittedSrbs = [0] ∧ s.outstanding = []) [.startIo] (by decide +kernel)
    simp only [decide_eq_true_eq] at hp
    exact ⟨s, hr, hp⟩
  · obtain ⟨s, hr, hp⟩ := Machine.exists_reach (machine disk512 readsOdd 0 []) Machine.Any
      (fun s => s.crashed = some .bugCheck)
      [.startIo, .callbackBegin, .callbackCheck, .callbackCheck, .callbackPrepare]
      (by decide +kernel)
    simp only [decide_eq_true_eq] at hp
    exact ⟨s, hr, hp⟩
  · obtain ⟨s, hr, hp⟩ := Machine.exists_reach (machine disk512 readsOdd 0 [5]) Machine.Any
      (fun s => s.crashed = some .spin)
      [.startIo, .callbackBegin, .callbackCheck, .callbackCheck, .callbackPrepare, .callbackSubmit,
        .resetBegin, .backTake, .backAnswer ⟨0, 0⟩, .callbackBegin, .callbackResponse]
      (by decide +kernel)
    simp only [decide_eq_true_eq] at hp
    exact ⟨s, hr, hp⟩

end Witness

end XcWindows.Xenvbd
