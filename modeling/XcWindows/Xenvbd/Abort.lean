import Mathlib.Data.List.Perm.Basic
import XcWindows.Xenvbd.Requests

/-!
# Aborting submitted SRBs

`XenvbdCompleteRequests`, for the responses to the requests of an SRB, and `AbortSrbQueue`, which
`XenvbdDisconnectTarget` calls for the SRBs that are still waiting for some. `nr_requests` is at first the
length of the array and then the number of responses to come, and `CleanupSrb` takes it for the length.
-/

namespace XcWindows.Xenvbd.Requests

open Lib
open Function (update update_of_ne)
open XcWindows.Gnttab (GrantRef nullGrantRef)

/-- What the back end answers to request `index`. -/
structure Response where
  index : Nat
  operation : Nat
  okay : Bool

/-- It answers a read or a write. -/
def Response.done (r : Response) : Bool :=
  decide (r.operation = blkifOpRead ∨ r.operation = blkifOpWrite)

abbrev srbStatusSuccess : Nat := 1
abbrev srbStatusError : Nat := 4

/-- An SRB in `SubmittedSrbs`, or completed. -/
structure Submitted where
  dataBuffer : Nat
  ext : SrbExtension
  srbStatus : Nat
  scsiStatus : Nat
  completed : Bool

/-- `for (j ...)` in `XenvbdCompleteRequests`. -/
def completeSegments (q : Submitted) : List Segment → Resources → Except Assertion Resources
  | [], w => .ok w
  | seg :: segs, w => do
    xmAssert (seg.gref ≠ nullGrantRef) .grantRef
    let w := w.endForeignAccess seg.gref
    let w := if q.ext.bounced then
        (w.memcpyBack seg.bid (q.dataBuffer + seg.offset) seg.length).freeBounceBuffer seg.bid
      else w
    completeSegments q segs w

/-- `XenvbdCompleteRequests`, for one response. -/
def completeRequest (austereMode : Bool) (q : Submitted) (w : Resources) (r : Response) :
    Except Assertion (Submitted × Resources) := do
  let (q, w) ←
    if r.done then do
      let srbStatus := if !austereMode && !r.okay then srbStatusError else q.srbStatus
      let w ← completeSegments q (q.ext.request r.index).segments w
      let request := update q.ext.request r.index zeroRequest
      .ok ({ q with srbStatus, ext := { q.ext with request } }, w)
    else .ok (q, w)
  xmAssert (q.ext.nrRequests ≠ 0) .nrRequests
  let q := { q with ext := { q.ext with nrRequests := q.ext.nrRequests - 1 } }
  if q.ext.nrRequests = 0 then
    let scsiStatus := if q.srbStatus = srbStatusSuccess then 0 else scsiAborted
    .ok ({ q with scsiStatus, completed := true }, w)
  else .ok (q, w)

/-- The responses to an SRB. -/
def completeRequests (austereMode : Bool) (q : Submitted) (w : Resources) :
    List Response → Except Assertion (Submitted × Resources)
  | [] => .ok (q, w)
  | r :: rs => do
    let (q, w) ← completeRequest austereMode q w r
    completeRequests austereMode q w rs

def abortSrbQueue (releaseResources : Bool) :
    List Submitted → Resources → Except Assertion (List Submitted × Resources)
  | [], w => .ok ([], w)
  | q :: qs, w => do
    let (ext, w) ← if releaseResources then cleanupSrb q.ext w else .ok (q.ext, w)
    let (qs, w) ← abortSrbQueue releaseResources qs w
    .ok ({ q with ext, scsiStatus := scsiAborted, completed := true } :: qs, w)

/-- An SRB as `SubmitSrb` leaves it, and the responses to it so far; at least one is still to come. -/
structure Submission where
  srb : Submitted
  responses : List Response
  nrRequests : srb.ext.nrRequests ≤ 2
  prepared : ∀ i < srb.ext.nrRequests, 0 < (srb.ext.request i).nrSegments ∧
    ∀ seg ∈ (srb.ext.request i).segments, seg.gref ≠ nullGrantRef
  index_lt : ∀ r ∈ responses, r.index < srb.ext.nrRequests
  distinct : (responses.map Response.index).Nodup
  outstanding : responses.length < srb.ext.nrRequests

/-- The responses to the SRBs of a queue. -/
def answerAll (austereMode : Bool) : List Submission → Resources → Except Assertion (List Submitted × Resources)
  | [], w => .ok ([], w)
  | q :: qs, w => do
    let (s, w) ← completeRequests austereMode q.srb w q.responses
    let (ss, w) ← answerAll austereMode qs w
    .ok (s :: ss, w)

namespace Submission

variable (q : Submission)

/-- The requests that the back end has not completed. -/
def unanswered : List Nat :=
  (List.range q.srb.ext.nrRequests).filter fun i => q.responses.all fun r => !(r.done && r.index == i)

/-- The segments that the SRB holds. -/
def held : List Segment := q.unanswered.flatMap fun i => (q.srb.ext.request i).segments

/-- The bounce buffers that it holds. -/
def heldBuffers : List Nat := if q.srb.ext.bounced then q.held.map Segment.bid else []

/-- One of two requests was answered, and it was the first or is not completed. -/
def Lost : Prop := q.srb.ext.nrRequests = 2 ∧ ∃ r ∈ q.responses, r.index = 0 ∨ r.done = false

end Submission

/-- After the responses, aborting the queue ends each access and frees each buffer that an SRB holds. -/
def ReleasesAll (austereMode : Bool) (queue : List Submission) (w : Resources) : Prop :=
  ∃ ss w1 ss' w2, answerAll austereMode queue w = .ok (ss, w1) ∧
    abortSrbQueue true ss w1 = .ok (ss', w2) ∧
    w2.grants.Perm ((queue.flatMap Submission.held).map Segment.gref ++ w1.grants) ∧
    w2.bounce.Perm (queue.flatMap Submission.heldBuffers ++ w1.bounce)

/-! ## What the loops release -/

variable {w : Resources} {segs : List Segment}

/-- Segments have been released. -/
structure Releases (bounced : Bool) (segs : List Segment) (w w' : Resources) : Prop where
  grants : w'.grants.Perm (segs.map Segment.gref ++ w.grants)
  bounce : w'.bounce.Perm ((if bounced then segs.map Segment.bid else []) ++ w.bounce)

theorem Releases.nil (b : Bool) (w : Resources) : Releases b [] w w :=
  ⟨.refl _, by cases b <;> exact .refl _⟩

theorem Releases.append {b : Bool} {xs ys : List Segment} {w1 w2 : Resources} (h1 : Releases b xs w w1)
    (h2 : Releases b ys w1 w2) : Releases b (xs ++ ys) w w2 := by
  constructor
  · refine h2.grants.trans (((List.Perm.refl _).append h1.grants).trans ?_)
    rw [List.map_append, ← List.append_assoc]
    exact (List.perm_append_comm).append_right _
  · refine h2.bounce.trans (((List.Perm.refl _).append h1.bounce).trans ?_)
    cases b with
    | false => exact .refl _
    | true =>
      simp only [if_true, List.map_append]
      rw [← List.append_assoc]
      exact (List.perm_append_comm).append_right _

theorem Releases.cons {b : Bool} {seg : Segment} {w1 w2 : Resources} (h1 : Releases b [seg] w w1)
    (h2 : Releases b segs w1 w2) : Releases b (seg :: segs) w w2 := h1.append h2

theorem cleanupSegments_releases {b : Bool} (h : ∀ seg ∈ segs, seg.gref ≠ nullGrantRef) :
    ∃ w', cleanupSegments b segs w = .ok w' ∧ Releases b segs w w' := by
  induction segs generalizing w with
  | nil => exact ⟨w, rfl, .nil b w⟩
  | cons seg segs ih =>
    obtain ⟨w', he, hr⟩ := ih (w := if b then (w.endForeignAccess seg.gref).freeBounceBuffer seg.bid
      else w.endForeignAccess seg.gref) fun x hx => h x (.tail _ hx)
    refine ⟨w', ?_, .cons ?_ hr⟩
    · rw [cleanupSegments, xmAssert, if_pos (h seg List.mem_cons_self)]
      exact he
    · cases b <;> exact ⟨.refl _, .refl _⟩

theorem cleanupRequests_releases {is : List Nat} {e : SrbExtension} (hnd : is.Nodup)
    (h : ∀ i ∈ is, ∀ seg ∈ (e.request i).segments, seg.gref ≠ nullGrantRef) :
    ∃ e' w', cleanupRequests is e w = .ok (e', w') ∧
      Releases e.bounced (is.flatMap fun i => (e.request i).segments) w w' := by
  induction is generalizing e w with
  | nil => exact ⟨e, w, rfl, .nil _ w⟩
  | cons x is ih =>
    obtain ⟨hx, hnd'⟩ := List.nodup_cons.mp hnd
    obtain ⟨w1, he1, hr1⟩ := cleanupSegments_releases (b := e.bounced) (w := w) (h x List.mem_cons_self)
    have hne : ∀ i ∈ is, update e.request x zeroRequest i = e.request i := by
      intro i hi
      refine update_of_ne ?_ ..
      rintro rfl
      exact hx hi
    obtain ⟨e', w', he, hr⟩ := ih (e := { e with request := update e.request x zeroRequest })
      (w := w1) hnd' (fun i hi => by
        simp only [hne i hi]
        exact h i (.tail _ hi))
    refine ⟨e', w', ?_, ?_⟩
    · rw [cleanupRequests, he1]
      exact he
    · have hrest : is.flatMap (fun i => (update e.request x zeroRequest i).segments) =
          is.flatMap fun i => (e.request i).segments :=
        List.flatMap_congr fun i hi => congrArg Request.segments (hne i hi)
      rw [List.flatMap_cons, ← hrest]
      exact hr1.append hr

theorem completeSegments_ok (q : Submitted) (h : ∀ seg ∈ segs, seg.gref ≠ nullGrantRef) :
    ∃ w', completeSegments q segs w = .ok w' := by
  induction segs generalizing w with
  | nil => exact ⟨w, rfl⟩
  | cons seg segs ih =>
    rw [completeSegments, xmAssert, if_pos (h seg List.mem_cons_self)]
    exact ih fun x hx => h x (.tail _ hx)

/-! ## An SRB of the queue -/

/-- What `CleanupSrb` releases of an SRB. -/
def Submitted.released (s : Submitted) : List Segment :=
  (List.range s.ext.nrRequests).flatMap fun i => (s.ext.request i).segments

/-- An SRB whose segments have references. -/
def Submitted.Granted (s : Submitted) : Prop :=
  ∀ i < s.ext.nrRequests, ∀ seg ∈ (s.ext.request i).segments, seg.gref ≠ nullGrantRef

theorem length_segments (r : Request) : r.segments.length = r.nrSegments := by
  rw [Request.segments, List.length_map, List.length_range]

theorem segments_zeroRequest : zeroRequest.segments = [] := rfl

theorem completeRequest_two (austereMode : Bool) {q : Submitted} (h2 : q.ext.nrRequests = 2)
    {r : Response} (hg : ∀ seg ∈ (q.ext.request r.index).segments, seg.gref ≠ nullGrantRef) :
    ∃ s w', completeRequest austereMode q w r = .ok (s, w') ∧ s.ext =
      ⟨if r.done then update q.ext.request r.index zeroRequest else q.ext.request, 1,
        q.ext.bounced⟩ := by
  obtain ⟨w', he⟩ := completeSegments_ok (w := w) q hg
  unfold completeRequest
  cases r.done with
  | true =>
    simp only [he, bind, Except.bind, if_true, xmAssert, h2]
    exact ⟨_, _, rfl, rfl⟩
  | false =>
    simp only [bind, Except.bind, Bool.false_eq_true, if_false, xmAssert, h2]
    exact ⟨_, _, rfl, rfl⟩

theorem Submission.answer_one (austereMode : Bool) (q : Submission) (w : Resources) {r : Response}
    (hr : q.responses = [r]) : ∃ s w', completeRequests austereMode q.srb w [r] = .ok (s, w') ∧
      s.ext.bounced = q.srb.ext.bounced ∧ s.Granted ∧ (¬ q.Lost → s.released = q.held) ∧
      (q.Lost → s.released.length < q.held.length) := by
  have hle := q.nrRequests
  have hout := q.outstanding
  rw [hr, List.length_singleton] at hout
  have h2 : q.srb.ext.nrRequests = 2 := by omega
  have hidx : r.index < 2 := h2 ▸ q.index_lt r (by simp [hr])
  have hprep := q.prepared
  rw [h2] at hprep
  obtain ⟨s, w', he, hext⟩ := completeRequest_two (w := w) austereMode h2 (hprep r.index hidx).2
  have hlen : 0 < (q.srb.ext.request 1).segments.length := by
    rw [length_segments]
    exact (hprep 1 (by decide)).1
  have hrel : s.released = (s.ext.request 0).segments := by
    rw [Submitted.released, hext]
    exact List.append_nil _
  refine ⟨s, w', by rw [completeRequests, he]; rfl, by rw [hext], fun i hi => ?_, fun hl => ?_, fun hl => ?_⟩
  · rw [hext] at hi ⊢
    obtain rfl : i = 0 := Nat.lt_one_iff.mp hi
    cases r.done with
    | false => exact (hprep 0 (by decide)).2
    | true =>
      by_cases h0 : r.index = 0
      · simp only [h0, if_true, Function.update_self]
        nofun
      · simp only [if_true, update_of_ne (Ne.symm h0)]
        exact (hprep 0 (by decide)).2
  · have h0 : r.index ≠ 0 := fun h0 => hl ⟨h2, r, by simp [hr], .inl h0⟩
    have hd : r.done = true := by
      by_contra hd
      exact hl ⟨h2, r, by simp [hr], .inr (by simpa using hd)⟩
    have h1 : r.index = 1 := by omega
    rw [hrel, hext]
    simp [Submission.held, Submission.unanswered, h2, hr, h1, hd, List.range_succ]
  · obtain ⟨-, r', hm, hl⟩ := hl
    rw [hr, List.mem_singleton] at hm
    subst hm
    rw [hrel, hext]
    rcases hl with h0 | hd
    · cases hd : r'.done with
      | false => simpa [Submission.held, Submission.unanswered, h2, hr, hd, List.range_succ] using hlen
      | true =>
        simpa [Submission.held, Submission.unanswered, h2, hr, hd, h0, List.range_succ,
          segments_zeroRequest] using hlen
    · simpa [Submission.held, Submission.unanswered, h2, hr, hd, List.range_succ] using hlen

theorem Submission.answer (austereMode : Bool) (q : Submission) (w : Resources) :
    ∃ s w', completeRequests austereMode q.srb w q.responses = .ok (s, w') ∧
      s.ext.bounced = q.srb.ext.bounced ∧ s.Granted ∧ (¬ q.Lost → s.released = q.held) ∧
      (q.Lost → s.released.length < q.held.length) := by
  have hle := q.nrRequests
  have hout := q.outstanding
  have hprep := q.prepared
  match hr : q.responses with
  | [] =>
    refine ⟨q.srb, w, rfl, rfl, fun i hi => (hprep i hi).2, fun _ => ?_, ?_⟩
    · simp [Submitted.released, Submission.held, Submission.unanswered, hr]
    · rintro ⟨-, r, hm, -⟩
      rw [hr] at hm
      cases hm
  | [r] => exact q.answer_one austereMode w hr
  | r1 :: r2 :: rs =>
    rw [hr, List.length_cons, List.length_cons] at hout
    omega

/-! ## The queue -/

/-- An SRB after its responses. -/
structure Answered (q : Submission) (s : Submitted) : Prop where
  bounced : s.ext.bounced = q.srb.ext.bounced
  granted : s.Granted
  all : ¬ q.Lost → s.released = q.held
  fewer : q.Lost → s.released.length < q.held.length

theorem answerAll_ok (austereMode : Bool) (queue : List Submission) (w : Resources) :
    ∃ ss w', answerAll austereMode queue w = .ok (ss, w') ∧
      List.Forall₂ Answered queue ss := by
  induction queue generalizing w with
  | nil => exact ⟨[], w, rfl, .nil⟩
  | cons q qs ih =>
    obtain ⟨s, w1, he1, hb, hg, ha, hf⟩ := q.answer austereMode w
    obtain ⟨ss, w2, he2, h2⟩ := ih w1
    refine ⟨s :: ss, w2, ?_, .cons ⟨hb, hg, ha, hf⟩ h2⟩
    rw [answerAll, he1]
    show (answerAll austereMode qs w1 >>= _) = _
    rw [he2]
    rfl

/-- What aborting a queue frees. -/
def releasedBuffers (s : Submitted) : List Nat :=
  if s.ext.bounced then s.released.map Segment.bid else []

theorem abortSrbQueue_ok {ss : List Submitted} (h : ∀ s ∈ ss, s.Granted) (w : Resources) :
    ∃ ss' w', abortSrbQueue true ss w = .ok (ss', w') ∧
      w'.grants.Perm ((ss.flatMap Submitted.released).map Segment.gref ++ w.grants) ∧
      w'.bounce.Perm (ss.flatMap releasedBuffers ++ w.bounce) := by
  induction ss generalizing w with
  | nil => exact ⟨[], w, rfl, .refl _, .refl _⟩
  | cons s ss ih =>
    obtain ⟨e, w1, he1, hr⟩ := cleanupRequests_releases (e := s.ext) (w := w) List.nodup_range
      fun i hi => h s List.mem_cons_self i (List.mem_range.mp hi)
    obtain ⟨ss', w2, he2, hg, hb⟩ := ih (fun s hs => h s (.tail _ hs)) w1
    refine ⟨{ s with ext := e, scsiStatus := scsiAborted, completed := true } :: ss', w2, ?_, ?_, ?_⟩
    · rw [abortSrbQueue, if_pos rfl, cleanupSrb, he1]
      show (abortSrbQueue true ss w1 >>= _) = _
      rw [he2]
      rfl
    · rw [List.flatMap_cons, List.map_append]
      refine hg.trans (((List.Perm.refl _).append hr.grants).trans ?_)
      rw [← List.append_assoc]
      exact List.perm_append_comm.append_right _
    · rw [List.flatMap_cons]
      refine hb.trans (((List.Perm.refl _).append hr.bounce).trans ?_)
      rw [← List.append_assoc]
      exact List.perm_append_comm.append_right _

variable {queue : List Submission} {ss : List Submitted}

theorem granted_of_answered (h : List.Forall₂ Answered queue ss) : ∀ s ∈ ss, s.Granted := by
  induction h with
  | nil => nofun
  | cons h _ ih =>
    intro s hs
    rcases List.mem_cons.mp hs with rfl | hs
    · exact h.granted
    · exact ih s hs

theorem released_of_not_lost (h : List.Forall₂ Answered queue ss) (hl : ∀ q ∈ queue, ¬ q.Lost) :
    ss.flatMap Submitted.released = queue.flatMap Submission.held ∧
      ss.flatMap releasedBuffers = queue.flatMap Submission.heldBuffers := by
  induction h with
  | nil => exact ⟨rfl, rfl⟩
  | @cons q s qs ss h _ ih =>
    obtain ⟨h1, h2⟩ := ih fun q hq => hl q (.tail _ hq)
    have he := h.all (hl q List.mem_cons_self)
    have hbuf : releasedBuffers s = q.heldBuffers := by
      rw [releasedBuffers, Submission.heldBuffers, h.bounced, he]
    rw [List.flatMap_cons, List.flatMap_cons, List.flatMap_cons, List.flatMap_cons, h1, h2, he, hbuf]
    exact ⟨rfl, rfl⟩

theorem released_lt_of_lost (h : List.Forall₂ Answered queue ss) :
    (ss.flatMap Submitted.released).length ≤ (queue.flatMap Submission.held).length ∧
      ∀ q ∈ queue, q.Lost →
        (ss.flatMap Submitted.released).length < (queue.flatMap Submission.held).length := by
  induction h with
  | nil => exact ⟨Nat.le_refl _, nofun⟩
  | @cons q s qs ss h _ ih =>
    obtain ⟨h1, h2⟩ := ih
    simp only [List.flatMap_cons, List.length_append]
    have hle : s.released.length ≤ q.held.length := by
      by_cases hl : q.Lost
      · exact (h.fewer hl).le
      · rw [h.all hl]
    refine ⟨by omega, fun x hx hl => ?_⟩
    rcases List.mem_cons.mp hx with rfl | hx
    · have := h.fewer hl
      omega
    · have := h2 x hx hl
      omega

/-- Aborting submitted SRBs releases what they hold if and only if none has lost sight of its second
request. -/
theorem abort_releases_iff (austereMode : Bool) (queue : List Submission) (w : Resources) :
    ReleasesAll austereMode queue w ↔ ∀ q ∈ queue, ¬ q.Lost := by
  obtain ⟨ss, w1, he1, hall⟩ := answerAll_ok austereMode queue w
  obtain ⟨ss', w2, he2, hgrants, hbounce⟩ := abortSrbQueue_ok (granted_of_answered hall) w1
  constructor
  · rintro ⟨_, _, _, _, he1', he2', hgrants', -⟩ q hq hl
    obtain ⟨rfl, rfl⟩ := Prod.mk.inj (Except.ok.inj (he1.symm.trans he1'))
    obtain ⟨rfl, rfl⟩ := Prod.mk.inj (Except.ok.inj (he2.symm.trans he2'))
    have hlen := (hgrants.symm.trans hgrants').length_eq
    have hlt := (released_lt_of_lost hall).2 q hq hl
    simp only [List.length_append, List.length_map] at hlen
    omega
  · intro hl
    obtain ⟨h1, h2⟩ := released_of_not_lost hall hl
    rw [h1] at hgrants
    rw [h2] at hbounce
    exact ⟨ss, w1, ss', w2, he1, he2, hgrants, hbounce⟩

/-- A read of two requests, of a page each; the first is completed. -/
def halfRead : Submission where
  srb :=
    ⟨0, ⟨fun i => ⟨blkifOpRead, 768, 4096 + i, 8 * i, 8 * i + 7, 1, fun _ => ⟨1024 * (i + 1), 0, 7, 0, 0, 0⟩⟩, 2,
      false⟩, srbStatusSuccess, 0, false⟩
  responses := [⟨0, blkifOpRead, true⟩]
  nrRequests := by decide
  prepared := by
    intro i _
    refine ⟨Nat.one_pos, fun seg hs => ?_⟩
    obtain ⟨j, -, rfl⟩ := List.mem_map.mp hs
    exact Nat.mul_ne_zero (by decide) (Nat.succ_ne_zero i)
  index_lt := by decide
  distinct := by decide
  outstanding := by decide

/-- The reference of the second request is lost. -/
theorem abort_half_read : ¬ ∀ austereMode queue w, ReleasesAll austereMode queue w := by
  intro hall
  obtain ⟨ss, w1, ss', w2, h1, h2, hg, -⟩ := hall false [halfRead] ⟨[], [], [], [], []⟩
  obtain ⟨rfl, rfl⟩ := Prod.mk.inj (Except.ok.inj h1)
  obtain ⟨rfl, rfl⟩ := Prod.mk.inj (Except.ok.inj h2)
  exact absurd hg.length_eq (by decide)

end XcWindows.Xenvbd.Requests
