import XcWindows.Xenvbd.Splitting

/-!
# Out of bounce buffers

`PrepareBouncedSrb` records how many segments a request has before it fills them. When the pool runs
out, `CleanupSrb` comes to segments that have no reference, and asserts that they have.
-/

namespace XcWindows.Xenvbd.Requests

open Lib
open Function (update update_of_ne update_self)
open XcWindows.Gnttab (nullGrantRef)

/-- A call of `PrepareBouncedSrb` that gives back what it took, and queues the SRB again. -/
def RollsBack (target : Target) {srb : Srb} (mem : Memory srb) (s : State) : Prop :=
  ∃ t, prepareBouncedSrb target mem s = .ok t ∧
    t.resources.grants.Perm s.resources.grants ∧ t.resources.bounce.Perm s.resources.bounce ∧
    t.freshSrbs = srb.address :: s.freshSrbs ∧ ∀ i < t.ext.nrRequests, t.ext.request i = zeroRequest

section Loops
variable (target : Target) {srb : Srb} (mem : Memory srb)

/-- A turn of the inner loop takes a bounce buffer if there is one, and needs a reference. -/
theorem bouncedSegment_cases (seg : Segment) (p : Progress) :
    p.resources.bounce = [] ∧ bouncedSegment target mem seg p = .ok none ∨
      ∃ bid bounce, p.resources.bounce = bid :: bounce ∧
        (bouncedSegment target mem seg p = .error .grantRef ∨
          ∃ seg' p', bouncedSegment target mem seg p = .ok (some (seg', p')) ∧
            p'.resources.bounce = bounce) := by
  unfold bouncedSegment Resources.allocateBounceBuffer
  cases hb : p.resources.bounce with
  | nil => exact .inl ⟨rfl, rfl⟩
  | cons bid bounce =>
    refine .inr ⟨bid, bounce, rfl, ?_⟩
    simp only
    generalize hr : Resources.memcpy { p.resources with bounce } bid _ _ = w
    have hw : w.bounce = bounce := by
      rw [← hr]
      rfl
    have hg : (w.grantForeignAccess target.backendId (physToPfn (mem.bounceFrame bid * pageSize))
        srb.mode).2.bounce = bounce := by
      unfold Resources.grantForeignAccess
      split <;> exact hw
    generalize w.grantForeignAccess _ _ _ = g at hg ⊢
    rcases xmAssert_cases (p := g.1 ≠ nullGrantRef) (c := Assertion.grantRef) _ with h | ⟨-, h⟩
    · exact .inl h
    · exact .inr ⟨_, _, h, hg⟩

/-- The inner loop has buffers for its segments. -/
theorem fillSegments_enough {n j : Nat} {r : Request} {p : Progress} (hn : n ≤ p.resources.bounce.length) :
    fillSegments (bouncedSegment target mem) n j r p = .error .grantRef ∨
      ∃ r' p', fillSegments (bouncedSegment target mem) n j r p = .ok (r', p', true) ∧
        p'.resources.bounce.length + n = p.resources.bounce.length := by
  induction n generalizing j r p with
  | zero => exact .inr ⟨r, p, rfl, rfl⟩
  | succ n ih =>
    rw [fillSegments]
    rcases bouncedSegment_cases target mem (r.seg j) p with
      ⟨hb, -⟩ | ⟨bid, bounce, hb, he | ⟨seg, p1, he, hp1⟩⟩
    · rw [hb] at hn
      cases hn
    · rw [he]
      exact .inl rfl
    · rw [he]
      rw [hb, List.length_cons] at hn
      rcases ih (j := j + 1) (r := { r with seg := update r.seg j seg }) (p := p1) (by
        rw [hp1]
        omega) with h | ⟨r', p', h, hl⟩
      · exact .inl h
      · refine .inr ⟨r', p', h, ?_⟩
        rw [hp1] at hl
        rw [hb, List.length_cons]
        omega

theorem fillSegments_short {n j : Nat} {r : Request} {p : Progress} (hn : p.resources.bounce.length < n) :
    fillSegments (bouncedSegment target mem) n j r p = .error .grantRef ∨
      ∃ r' p', fillSegments (bouncedSegment target mem) n j r p = .ok (r', p', false) ∧
        r'.nrSegments = r.nrSegments ∧
        ∀ x, x < j ∨ j + p.resources.bounce.length ≤ x → r'.seg x = r.seg x := by
  induction n generalizing j r p with
  | zero => cases hn
  | succ n ih =>
    rw [fillSegments]
    rcases bouncedSegment_cases target mem (r.seg j) p with
      ⟨hb, he⟩ | ⟨bid, bounce, hb, he | ⟨seg, p1, he, hp1⟩⟩
    · rw [he]
      exact .inr ⟨r, p, rfl, rfl, fun _ _ => rfl⟩
    · rw [he]
      exact .inl rfl
    · rw [he]
      rw [hb, List.length_cons] at hn
      rcases ih (j := j + 1) (r := { r with seg := update r.seg j seg }) (p := p1) (by
        rw [hp1]
        omega) with h | ⟨r', p', h, hl, hseg⟩
      · exact .inl h
      · refine .inr ⟨r', p', h, hl, fun x hx => ?_⟩
        rw [hb, List.length_cons] at hx
        rw [hseg x (by
          rw [hp1]
          omega)]
        exact update_of_ne (by omega) ..

/-- The outer loop is left for `cleanup`, in a request that counts a segment it does not have. -/
theorem fillRequests_short (start : Nat) {N sd k i : Nat} (request : Nat → Request) {p : Progress}
    (hN : N < 4294967296) (hsd : sd ≤ N) (hk : N ≤ sd + 11 * k)
    (hn : p.resources.bounce.length < N - sd) :
    fillRequests (bouncedSegment target mem) target srb start N k i request sd p = .error .grantRef ∨
      ∃ f, fillRequests (bouncedSegment target mem) target srb start N k i request sd p = .ok f ∧
        f.done = false ∧ ∃ x, i ≤ x ∧ x < i + k ∧ ∃ j < (f.request x).nrSegments,
          (f.request x).seg j = (request x).seg j := by
  induction k generalizing i request sd p with
  | zero => omega
  | succ k ih =>
    have hthis : min (sub32 N sd) maxSegmentsPerRequest = min (N - sd) 11 := by
      simp only [sub32, maxSegmentsPerRequest]
      omega
    rw [fillRequests, xmAssert, if_pos (address_and srb)]
    simp only [hthis, bind, Except.bind]
    generalize hr : ({ request i with
      id := srb.address ||| i, operation := srb.operation, handle := target.handle
      firstSector := u64 (start + p.sectorsDone), nrSegments := min (N - sd) 11 % 256 } : Request) = r
    have hnr : r.nrSegments = min (N - sd) 11 := by
      rw [← hr]
      exact Nat.mod_eq_of_lt (by omega)
    have hseg : r.seg = (request i).seg := by rw [← hr]
    rcases Nat.lt_or_ge p.resources.bounce.length (min (N - sd) 11) with hlt | hge
    · rcases fillSegments_short target mem (j := 0) (r := r) hlt with
        h | ⟨r', p', h, hl, hs⟩
      · exact .inl (by rw [h])
      · refine .inr ⟨⟨update request i r', sd, p', false⟩, by rw [h]; rfl, rfl, i, Nat.le_refl _,
          by omega, p.resources.bounce.length, ?_, ?_⟩
        · simp only [update_self]
          rw [hl, hnr]
          exact hlt
        · simp only [update_self]
          rw [hs _ (.inr (Nat.zero_add _).le), hseg]
    · rcases fillSegments_enough target mem (j := 0) (r := r) hge with
        h | ⟨r', p', h, hl⟩
      · exact .inl (by rw [h])
      · rw [h]
        simp only [if_true]
        rw [show u32 (sd + min (N - sd) 11) = sd + min (N - sd) 11 from Nat.mod_eq_of_lt (by omega)]
        rcases @ih (sd + min (N - sd) 11) (i + 1) (update request i
            { r' with lastSector := u64 (start + p'.sectorsDone + 18446744073709551615) }) p'
          (by omega) (by omega) (by omega) with h' | ⟨f, h', hd, x, h1, h2, j, hj, hs⟩
        · exact .inl h'
        · refine .inr ⟨f, h', hd, x, by omega, by omega, j, hj, hs.trans ?_⟩
          rw [update_of_ne (by omega)]

end Loops

variable {target : Target} {srb : Srb} {mem : Memory srb} {w : Resources}

/-- A segment without a reference fails the assertion of `CleanupSrb`. -/
theorem cleanupSegments_error {b : Bool} {segs : List Segment}
    (h : ∃ seg ∈ segs, seg.gref = nullGrantRef) : cleanupSegments b segs w = .error .grantRef := by
  induction segs generalizing w with
  | nil =>
    obtain ⟨seg, hs, -⟩ := h
    cases hs
  | cons seg segs ih =>
    obtain ⟨s, hs, hg⟩ := h
    rw [cleanupSegments]
    rcases xmAssert_cases (p := seg.gref ≠ nullGrantRef) (c := Assertion.grantRef) _ with he | ⟨hne, he⟩
    · exact he
    · rw [he]
      rcases List.mem_cons.mp hs with rfl | hs
      · exact absurd hg hne
      · exact ih ⟨s, hs, hg⟩

theorem cleanupSegments_cases (b : Bool) (segs : List Segment) (w : Resources) :
    cleanupSegments b segs w = .error .grantRef ∨ ∃ w', cleanupSegments b segs w = .ok w' := by
  induction segs generalizing w with
  | nil => exact .inr ⟨w, rfl⟩
  | cons seg segs ih =>
    rw [cleanupSegments]
    rcases xmAssert_cases (p := seg.gref ≠ nullGrantRef) (c := Assertion.grantRef) _ with he | ⟨-, he⟩
    · exact .inl he
    · rw [he]
      exact ih _

theorem cleanupRequests_error {is : List Nat} {e : SrbExtension} {i j : Nat} (hnd : is.Nodup)
    (hi : i ∈ is) (hj : j < (e.request i).nrSegments)
    (hg : ((e.request i).seg j).gref = nullGrantRef) : cleanupRequests is e w = .error .grantRef := by
  induction is generalizing e w with
  | nil => cases hi
  | cons x is ih =>
    rw [cleanupRequests]
    rcases List.mem_cons.mp hi with rfl | hm
    · have hs : (e.request i).seg j ∈ (e.request i).segments :=
        List.mem_map_of_mem (List.mem_range.mpr hj)
      rw [cleanupSegments_error ⟨_, hs, hg⟩]
      rfl
    · have hne : i ≠ x := fun he => (List.nodup_cons.mp hnd).1 (he ▸ hm)
      rcases cleanupSegments_cases e.bounced (e.request x).segments w with he | ⟨w', he⟩
      · rw [he]
        rfl
      · rw [he]
        refine ih (List.nodup_cons.mp hnd).2 hm ?_ ?_
        · simp only [update_of_ne hne]
          exact hj
        · simp only [update_of_ne hne]
          exact hg

/-- Whenever the pool has fewer buffers than the SRB has segments, an assertion fails: `XenvbdStartIO` has
zeroed the requests of the SRB, and so has `CleanupSrb`. -/
theorem bounce_exhaustion {s : State} (hzero : s.ext.request = fun _ => zeroRequest)
    (hle : srb.nrBouncedSegments ≤ maxSegmentsPerSrb)
    (hshort : s.resources.bounce.length < srb.nrBouncedSegments) : ¬ RollsBack target mem s := by
  rintro ⟨t, ht, -⟩
  unfold prepareBouncedSrb at ht
  obtain ⟨-, -, ht⟩ := bind_ok ht
  obtain ⟨start, -, ht⟩ := bind_ok ht
  rw [if_neg (Nat.not_lt_of_le hle)] at ht
  simp only [maxSegmentsPerSrb] at hle
  obtain ⟨f, hf, ht⟩ := bind_ok ht
  have hk : srb.nrBouncedSegments ≤ 0 + 11 * nrRequestsFor srb.nrBouncedSegments := by
    simp only [nrRequestsFor, maxSegmentsPerRequest]
    omega
  have hdone := fillRequests_short target mem start (i := 0) s.ext.request (p := ⟨0, s.resources⟩)
    (by omega) (Nat.zero_le _) hk hshort
  rcases hdone with he | ⟨f', he, hd, x, -, hx, j, hj, hs⟩
  · rw [he] at hf
    cases hf
  · rw [he] at hf
    rw [Nat.zero_add] at hx
    obtain rfl := Except.ok.inj hf
    rw [hd] at ht
    simp only [Bool.false_eq_true, if_false] at ht
    obtain ⟨c, hc, -⟩ := bind_ok ht
    rw [cleanupSrb, cleanupRequests_error (i := x) (j := j) List.nodup_range
      (List.mem_range.mpr hx) hj (by rw [hs, hzero]; rfl)] at hc
    cases hc

/-- One bounce buffer is free. -/
def shortState : State := { readState true with resources := ⟨[1024, 2048], [5], [], [], []⟩ }

theorem bounce_exhaustion_short : ¬ RollsBack readTarget readMemory shortState :=
  bounce_exhaustion rfl (by decide) (by decide)

/-- The second segment of the read has no buffer. -/
theorem bounce_exhaustion_assertion :
    ¬ ∀ (target : Target) (srb : Srb) (mem : Memory srb) (s : State), s.ext.bounced = true →
      s.ext.request = (fun _ => zeroRequest) → srb.nrBouncedSegments ≤ maxSegmentsPerSrb →
      s.resources.bounce.length < srb.nrBouncedSegments → RollsBack target mem s := by
  intro hall
  obtain ⟨t, ht, -⟩ := hall readTarget readSrb readMemory shortState rfl rfl (by decide) (by decide)
  have he : (prepareBouncedSrb readTarget readMemory shortState).toOption.isSome = false := by decide
  rw [ht] at he
  cases he

end XcWindows.Xenvbd.Requests
