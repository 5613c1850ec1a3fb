import XcWindows.Scsifilt.Progress
import XcWindows.Gnttab.Guarantee

/-!
# The grant cache of scsifilt

`initialise_xenvbd_bits` makes a grant cache of `BLKIF_MAX_SEGMENTS_PER_REQUEST + MAX_RING_PAGES`
references. Here the grants of the datapath are those of the grant table, with everything that other
users do to the pool and to their own caches and that remote domains write to the entries in between;
the promise of the cache is what keeps the schedule going.
-/

namespace XcWindows.Scsifilt

open XcWindows.Lib
open XcWindows.Gnttab (GrantRef FrameAnswer Promises nrHeld heldFrom Conserved)

section Grants
variable (env : Nat → FrameAnswer) (addr domid : Nat) (raced : Gnttab.State → GrantRef → List Nat)

/-- The grants of a device whose cache is at `addr`, for the back end `domid`. What remote domains
write while an access is ended is `raced`. -/
def cacheGrants : GrantOps Gnttab.State GrantRef Gnttab.Act where
  grantForeignAccessCache g pfn mode :=
    match Gnttab.step env g (.grantCache addr domid pfn mode) with
    | some g' =>
      if g.outstanding.length < g'.outstanding.length then
        (g'.outstanding.head?.map (·.1), g')
      else (none, g')
    | none => (none, g)
  endForeignAccessCache g ref :=
    match Gnttab.step env g (.endAccessCache addr ref (raced g ref)) with
    | some g' => (decide (g'.outstanding.length < g.outstanding.length), g')
    | none => (false, g)
  other a g := if a.uses addr then g else (Gnttab.step env g a).getD g

variable {env addr domid raced} {g g' : Gnttab.State}

/-- The grant table is in a state it can get to, with the cache of the device. -/
def TableGood (env : Nat → FrameAnswer) (addr least : Nat) (g : Gnttab.State) : Prop :=
  (Gnttab.machine env).Reach Machine.Any g ∧ Promises addr least g

theorem TableGood.step {least : Nat} {a : Gnttab.Act} (h : TableGood env addr least g)
    (hs : Gnttab.step env g a = some g') (ha : a ≠ .freeCache addr) :
    TableGood env addr least g' :=
  ⟨h.1.step trivial hs, h.2.step (Gnttab.conserved_of_reach h.1) hs ha⟩

theorem grantCache_step {pfn : Nat} {mode : Gnttab.GrantMode} {least : Nat}
    (h : TableGood env addr least g)
    (hs : Gnttab.step env g (.grantCache addr domid pfn mode) = some g') :
    ∃ ref, g'.outstanding = Gnttab.hold ref (some addr) g.outstanding := by
  have hc' := (Gnttab.conserved_of_reach (h.step hs (fun e => nomatch e)).1).1
  simp only [Gnttab.step] at hs
  split at hs
  · split at hs
    · obtain rfl := Option.some.inj hs
      generalize hr : Gnttab.gnttabGrantForeignAccessCache _ _ _ _ _ _ = r at hc' ⊢
      cases r with
      | none => cases hc'
      | some x => exact ⟨x.1, rfl⟩
    · cases hs
  · cases hs

theorem endAccessCache_step {ref : GrantRef} {l : List Nat} {least : Nat}
    (h : TableGood env addr least g)
    (hs : Gnttab.step env g (.endAccessCache addr ref l) = some g') :
    g'.outstanding = g.outstanding ∨
      (ref, some addr) ∈ g.outstanding ∧ g'.outstanding = g.outstanding.erase (ref, some addr) := by
  have hc' := (Gnttab.conserved_of_reach (h.step hs (fun e => nomatch e)).1).1
  simp only [Gnttab.step] at hs
  split at hs
  · split at hs
    · next ho =>
      obtain rfl := Option.some.inj hs
      generalize hr : Gnttab.gnttabEndForeignAccessCache _ _ _ _ = r at hc' ⊢
      cases r with
      | none => cases hc'
      | some x =>
        simp only [Gnttab.State.orAssert]
        split
        · exact .inr ⟨ho, rfl⟩
        · exact .inl rfl
    · cases hs
  · cases hs

theorem cacheGrants_guarantee (env : Nat → FrameAnswer) (addr domid least : Nat)
    (raced : Gnttab.State → GrantRef → List Nat) :
    Guarantee (cacheGrants env addr domid raced) (TableGood env addr least) (nrHeld addr) least := by
  constructor
  case grant_some =>
    intro g g' pfn mode ref hg he
    simp only [cacheGrants] at he
    split at he
    · next g1 hs =>
      split at he
      · next hlt =>
        obtain rfl := congrArg Prod.snd he
        refine ⟨hg.step hs (fun e => nomatch e), ?_⟩
        obtain ⟨ref', ho⟩ := grantCache_step hg hs
        rw [ho, Gnttab.hold] at hlt
        rw [nrHeld, nrHeld, ho, Gnttab.hold]
        split
        · next hn => rw [if_pos hn] at hlt; exact absurd hlt (Nat.lt_irrefl _)
        · simp [heldFrom]
      · cases he
    · cases he
  case grant_none =>
    intro g g' pfn mode hg he
    simp only [cacheGrants] at he
    split at he
    · next g1 hs =>
      obtain ⟨ref', ho⟩ := grantCache_step hg hs
      split at he
      · next hlt =>
        obtain ⟨h1, rfl⟩ := Prod.mk.inj he
        rw [ho, Gnttab.hold] at h1 hlt
        split at h1
        · next hn => rw [if_pos hn] at hlt; exact absurd hlt (Nat.lt_irrefl _)
        · cases h1
      · next hlt =>
        obtain rfl := congrArg Prod.snd he
        have hnull : g1.outstanding = g.outstanding := by
          rw [ho, Gnttab.hold]
          split
          · rfl
          · next hn => rw [ho, Gnttab.hold, if_neg hn] at hlt; simp at hlt
        refine ⟨hg.step hs (fun e => nomatch e), by rw [nrHeld, nrHeld, hnull], fun hf => ?_⟩
        by_contra hc
        obtain ⟨gc, hgc, hadd, hmin⟩ := hg.2
        have hcons := Gnttab.conserved_of_reach hg.1
        obtain ⟨free, chain, hacc⟩ := hcons.2
        have hcount := hacc.counted gc hgc
        have hb := Gnttab.backed_of_reach hg.1 gc hgc
        unfold Gnttab.Backed at hb
        rw [hadd] at hcount
        unfold nrHeld at hc
        obtain ⟨ref, s', hs', hne, hout, -⟩ : ∃ ref s', Gnttab.step env g _ = some s' ∧ _ :=
          Gnttab.grantCache_of_population hcons hgc (by omega) domid mode hf
        rw [hadd, hs] at hs'
        obtain rfl := Option.some.inj hs'
        rw [hnull] at hout
        exact absurd (congrArg List.length hout) (by simp)
    · next hs =>
      obtain rfl := congrArg Prod.snd he
      refine ⟨hg, rfl, fun hf => ?_⟩
      -- there is a cache, so the call returns
      obtain ⟨gc, hgc, hadd, -⟩ := hg.2
      simp only [Gnttab.step] at hs
      split at hs
      · rw [if_pos hf] at hs; cases hs
      · next hn =>
        have := List.find?_eq_none.mp hn gc hgc
        simp [hadd] at this
  case end_true =>
    intro g g' ref hg he
    simp only [cacheGrants] at he
    split at he
    · next g1 hs =>
      obtain ⟨h1, rfl⟩ := Prod.mk.inj he
      have hlt := of_decide_eq_true h1
      refine ⟨hg.step hs (by rintro ⟨⟩), ?_⟩
      rcases endAccessCache_step hg hs with ho | ⟨hm, ho⟩
      · rw [ho] at hlt
        exact absurd hlt (Nat.lt_irrefl _)
      · rw [nrHeld, nrHeld, ho, Gnttab.heldFrom_erase hm, if_pos rfl]
    · cases he
  case end_false =>
    intro g g' ref hg he
    simp only [cacheGrants] at he
    split at he
    · next g1 hs =>
      obtain rfl := congrArg Prod.snd he
      exact hg.step hs (by rintro ⟨⟩)
    · obtain rfl := congrArg Prod.snd he
      exact hg
  case other =>
    intro g a hg
    simp only [cacheGrants]
    split
    · exact ⟨hg, rfl⟩
    · next hu =>
      cases hs : Gnttab.step env g a with
      | none => exact ⟨hg, rfl⟩
      | some g' =>
        refine ⟨hg.step hs (fun e => hu ?_), Gnttab.step_nrHeld hs hu⟩
        rw [e]
        rfl

/-- After every step of `schedule_requests`, `unpause_datapath` and `handle_dpc`, whatever grants
have succeeded or failed meanwhile: if the datapath is not paused, the ring is there and requests
wait, then a request is in flight. The back end lets go of the pages of a ring by the time it is
closed, `late_suspend_cb` finds no ring if it does not reconnect, and the device is not being removed. -/
theorem never_stalls {req : Nat → Sfr} {g : Gnttab.State} {s : State Gnttab.State GrantRef}
    (hg : (Gnttab.machine env).Reach Machine.Any g)
    (hcache : Promises addr (blkifMaxSegmentsPerRequest + maxRingPages) g)
    (hnew : nrHeld addr g = 0)
    (h : (machine req (cacheGrants env addr domid raced) g).Reach KeepsDevice s)
    (hring : s.ringLeaked = false) :
    s.pauseCount = 0 → s.ring.isSome → s.schedule.requests ≠ [] → s.inflightRequests ≠ [] :=
  live_of_guarantee (cacheGrants_guarantee env addr domid _ raced) ⟨hg, hcache⟩ hnew h hring

end Grants

section Witness

/-- One grant frame can be mapped, and no more. -/
def oneFrame (n : Nat) : FrameAnswer := if n = 0 then .mapped else .rejected

/-- The grant table with the cache of a device. -/
def withCache : Gnttab.State :=
  (Gnttab.init oneFrame).allocCache oneFrame 1 (blkifMaxSegmentsPerRequest + maxRingPages)

theorem reach_allocCache {env : Nat → FrameAnswer} {addr minPopulation : Nat}
    (h : addr ∉ (Gnttab.init env).caches.map (·.addr)) : (Gnttab.machine env).Reach Machine.Any
      ((Gnttab.init env).allocCache env addr minPopulation) := by
  apply Machine.Reach.step (a := .allocCache (some addr) minPopulation) .init trivial
  exact if_pos h

theorem withCache_good : (Gnttab.machine oneFrame).Reach Machine.Any withCache ∧
    Promises 1 (blkifMaxSegmentsPerRequest + maxRingPages) withCache ∧ nrHeld 1 withCache = 0 := by
  have h : 1 ∉ (Gnttab.init oneFrame).caches.map (·.addr) ∧
      withCache.caches.map (fun gc => (gc.addr, gc.minPopulation)) = [(1, 15)] ∧
      withCache.outstanding = [] := by
    rw [withCache, Gnttab.init_mapped rfl]
    decide +kernel
  obtain ⟨h0, hc, ho⟩ := h
  refine ⟨?_, ?_, by rw [nrHeld, ho]; rfl⟩
  · exact reach_allocCache h0
  · have hm : (1, 15) ∈ withCache.caches.map (fun gc => (gc.addr, gc.minPopulation)) := by
      rw [hc]
      exact List.mem_singleton.mpr rfl
    obtain ⟨gc, hgc, he⟩ := List.mem_map.mp hm
    exact ⟨gc, hgc, (Prod.mk.inj he).1, (Prod.mk.inj he).2⟩

/-- Of 33 requests 32 are on the ring and one waits. -/
theorem never_stalls_run :
    ∃ s, (machine readsDown (cacheGrants oneFrame 1 0 fun _ _ => []) withCache).Reach
        KeepsDevice s ∧ s.schedule.requests = [1] ∧ s.pauseCount = 0 ∧
      s.inflightRequests ≠ [] := by
  obtain ⟨s, hr, hp⟩ := Machine.exists_reach
    (machine readsDown (cacheGrants oneFrame 1 0 fun _ _ => []) withCache) KeepsDevice
    (fun s => s.schedule.requests = [1] ∧ s.pauseCount = 0 ∧ s.ring.isSome ∧ s.ringLeaked = false)
    [.connectBegin .pauser, .connectRing 0 5, .replayGrab, .replayEnqueue, .unpauseDatapath,
      .schedule 33] (by rw [withCache, Gnttab.init_mapped rfl]; decide +kernel)
  simp only [decide_eq_true_eq] at hp
  obtain ⟨hs, hz, hring, hl⟩ := hp
  obtain ⟨hg, hc, hn⟩ := withCache_good
  exact ⟨s, hr, hs, hz, never_stalls hg hc hn hr hl hz hring (by rw [hs]; simp)⟩

/-- If requests wait on a ring that is not paused, one is in flight. -/
def Progresses (s : State Gnttab.State GrantRef) : Prop :=
  s.pauseCount = 0 → s.ring.isSome → s.schedule.requests ≠ [] → s.inflightRequests ≠ []

theorem not_progresses {s : State Gnttab.State GrantRef} (h : s.pauseCount = 0 ∧ s.ring.isSome ∧
    s.schedule.requests ≠ [] ∧ s.inflightRequests = []) : ¬Progresses s :=
  fun hp => hp h.1 h.2.1 h.2.2.1 h.2.2.2

/-- A back end that still uses the pages of a ring when the access to them is ended. -/
def keepsRing (g : Gnttab.State) (ref : GrantRef) : List Nat :=
  if 100 ≤ (g.table.entry (Gnttab.xenGrantRef ref)).frame then [25] else []

def elevenPages (x : Nat) : Sfr := ⟨.read, x, List.replicate 11 7, by decide, by decide⟩

/-- Of 33 requests one waits for the 32 on the ring when a power-down has stored the new power state
and a migration strikes: they are to be replayed, and the old ring stays full. Or the pages of an old
ring are never given back, others have the rest of the pool, and the new ring leaves too few
references for a request. -/
theorem schedule_stalls :
    (¬∀ s, (machine readsDown (cacheGrants oneFrame 1 0 fun _ _ => []) withCache).Reach Machine.Any s →
      Progresses s) ∧
    ¬∀ s, (machine elevenPages (cacheGrants oneFrame 1 0 keepsRing) withCache).Reach KeepsDevice s →
      Progresses s := by
  constructor
  · intro hall
    obtain ⟨s, hr, hp⟩ := Machine.exists_reach
      (machine readsDown (cacheGrants oneFrame 1 0 fun _ _ => []) withCache) Machine.Any
      (fun s => s.pauseCount = 0 ∧ s.ring.isSome ∧ s.schedule.requests ≠ [] ∧
        s.inflightRequests = [])
      [.connectBegin .pauser, .connectRing 0 5, .replayGrab, .replayEnqueue, .setPower .d0,
        .unpauseDatapath, .schedule 33, .setPower .d3, .earlySuspend, .lateSkip]
      (by rw [withCache, Gnttab.init_mapped rfl]; decide +kernel)
    exact not_progresses (of_decide_eq_true hp) (hall s hr)
  · intro hall
    obtain ⟨s, hr, hp⟩ := Machine.exists_reach
      (machine elevenPages (cacheGrants oneFrame 1 0 keepsRing) withCache) KeepsDevice
      (fun s => s.pauseCount = 0 ∧ s.ring.isSome ∧ s.schedule.requests ≠ [] ∧
        s.inflightRequests = [])
      [.other (.allocCache (some 2) 489), .connectBegin .pauser, .connectRing 2 100, .replayGrab,
        .replayEnqueue, .setPower .d0, .unpauseDatapath, .setPower .d3, .pauseDatapath,
        .pauseReturns, .close, .connectBegin .pauser, .connectRing 2 200, .replayGrab,
        .replayEnqueue, .setPower .d0, .unpauseDatapath, .schedule 1]
      (by rw [withCache, Gnttab.init_mapped rfl]; decide +kernel)
    exact not_progresses (of_decide_eq_true hp) (hall s hr)

end Witness

end XcWindows.Scsifilt
