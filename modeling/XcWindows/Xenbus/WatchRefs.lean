import Mathlib.Algebra.BigOperators.Group.List.Basic
import Mathlib.Data.List.Nodup
import XcWindows.Xenbus.Watch

/-!
# The references to a watch handler

What every step of `watchMachine` preserves: the reference count of a handler is what the queue, the
watch thread and the passes over the list hold, and a handler whose `xenbus_unregister_watch` has
seen the count at zero is not referenced any more.
-/

namespace XcWindows.Xenbus.Watch

/-! ## The invariant -/

/-- The handler is on the list. -/
def Phase.linked : Phase → Bool
  | .creating | .live | .unlinking => true
  | .unused | .check | .waiting | .checked | .returned => false

/-- Nobody may hold a reference. -/
def Phase.closed : Phase → Bool
  | .unused | .checked | .returned => true
  | .creating | .live | .unlinking | .check | .waiting => false

theorem Phase.not_closed {p : Phase} (h : p.linked = true) : p.closed ≠ true := by
  cases p <;> simp_all [Phase.linked, Phase.closed]

/-- What holds of one handler. After `xenbus_unregister_watch` has dequeued it, the flag `queued`
stays. -/
structure Own (s : Bus) (h : Nat) : Prop where
  refcount : (s.handler h).refcount = s.refs h
  queued : h ∈ s.pending → (s.handler h).queued = true
  flag : (s.handler h).phase.linked = true → (s.handler h).queued = true → h ∈ s.pending
  list : h ∈ s.list ↔ (s.handler h).phase.linked = true
  clear : (s.handler h).phase.closed = true → s.refs h = 0
  fresh : s.count ≤ h → (s.handler h).phase = .unused

/-- A call of a run without a suspend: a redirection of a registered watch. -/
def Call.settled : Call → Bool
  | .done | .redirect _ _ true => true
  | .reregister | .registering _ | .faulty _ | .put _ | .unwatching _ | .redirect _ _ false => false

structure WatchOk (s : Bus) : Prop where
  own : ∀ h, Own s h
  nodup : s.pending.Nodup
  once : s.list.Nodup
  wake : s.pending ≠ [] → s.thread = .wait → s.event = true
  registered : s.resumed = false → ∀ h, s.active h = true → (s.handler h).currentlyRegistered = true
  settled : s.resumed = false → ∀ k ∈ s.calls, k.settled = true

section Frames

variable {s t : Bus} {h g : Nat} {k k' : Call}

theorem Own.congr (o : Own s h) (hrefcount : (t.handler h).refcount = (s.handler h).refcount)
    (hqueued : (t.handler h).queued = (s.handler h).queued)
    (hphase : (t.handler h).phase = (s.handler h).phase) (hrefs : t.refs h = s.refs h)
    (hpend : h ∈ t.pending ↔ h ∈ s.pending) (hlist : h ∈ t.list ↔ h ∈ s.list)
    (hcount : s.count ≤ t.count) : Own t h := by
  refine ⟨?_, ?_, ?_, ?_, ?_, fun hc => ?_⟩
  · rw [hrefcount, hrefs]
    exact o.refcount
  · rw [hpend, hqueued]
    exact o.queued
  · rw [hpend, hqueued, hphase]
    exact o.flag
  · rw [hlist, hphase]
    exact o.list
  · rw [hphase, hrefs]
    exact o.clear
  · rw [hphase]
    exact o.fresh (Nat.le_trans hcount hc)

/-- A handler that the step does not touch. -/
theorem Own.other {x : Handler} (o : Own s g) (hg : g ≠ h)
    (ht : t.handler = Function.update s.handler h x) (hrefs : t.refs g = s.refs g)
    (hpend : g ∈ t.pending ↔ g ∈ s.pending) (hlist : g ∈ t.list ↔ g ∈ s.list)
    (hcount : s.count ≤ t.count) : Own t g := by
  have e : t.handler g = s.handler g := by rw [ht, Function.update_of_ne hg]
  exact o.congr (by rw [e]) (by rw [e]) (by rw [e]) hrefs hpend hlist hcount

theorem passes_goto (hk : k ∈ s.calls) (ht : t.calls = k' :: s.calls.erase k) (h : Nat) :
    t.passes h + k.holds h = s.passes h + k'.holds h := by
  have h1 := List.sum_map_erase (Call.holds h) hk
  rw [Bus.passes, ht, List.map_cons, List.sum_cons, Bus.passes, ← h1]
  omega

theorem passes_pos (hk : k ∈ s.calls) : k.holds h ≤ s.passes h := by
  have h1 := List.sum_map_erase (Call.holds h) hk
  rw [Bus.passes, ← h1]
  omega

theorem refs_passes (hp : t.pending = s.pending) (ht : t.thread = s.thread) (h : Nat) :
    t.refs h + s.passes h = s.refs h + t.passes h := by
  unfold Bus.refs
  rw [hp, ht]
  omega

/-- A step that changes one handler: what is left to show. -/
theorem WatchOk.change {x : Handler} (ok : WatchOk s)
    (ht : t.handler = Function.update s.handler h x)
    (hrefs : ∀ g, g ≠ h → t.refs g = s.refs g)
    (hpend : ∀ g, g ≠ h → (g ∈ t.pending ↔ g ∈ s.pending))
    (hlist : ∀ g, g ≠ h → (g ∈ t.list ↔ g ∈ s.list)) (hcount : s.count ≤ t.count)
    (hown : t.handler h = x → Own t h) (hnodup : t.pending.Nodup) (honce : t.list.Nodup)
    (hwake : t.pending ≠ [] → t.thread = .wait → t.event = true) (hres : t.resumed = s.resumed)
    (hreg : s.resumed = false → x.phase = .creating ∨ x.phase = .live →
      x.currentlyRegistered = true)
    (hset : s.resumed = false → ∀ k ∈ t.calls, k ∈ s.calls ∨ k.settled = true) : WatchOk t := by
  have hself : t.handler h = x := by rw [ht, Function.update_self]
  refine ⟨fun g => ?_, hnodup, honce, hwake, fun hr g hg => ?_, fun hr k hk => ?_⟩
  · by_cases e : g = h
    · subst e
      exact hown hself
    · exact (ok.own g).other e ht (hrefs g e) (hpend g e) (hlist g e) hcount
  · rw [hres] at hr
    unfold Bus.active at hg
    by_cases e : g = h
    · subst e
      rw [hself] at hg ⊢
      exact hreg hr (by simpa using hg)
    · rw [ht, Function.update_of_ne e] at hg ⊢
      exact ok.registered hr g hg
  · rw [hres] at hr
    rcases hset hr k hk with hk | hk
    · exact ok.settled hr k hk
    · exact hk

theorem WatchOk.registered_of (ok : WatchOk s) (hr : s.resumed = false)
    (hp : (s.handler h).phase = .creating ∨ (s.handler h).phase = .live) :
    (s.handler h).currentlyRegistered = true :=
  ok.registered hr h (by simpa [Bus.active] using hp)

/-- A store to a field that the references do not depend on. -/
theorem WatchOk.store {x : Handler} (ok : WatchOk s) (hx : x.refcount = (s.handler h).refcount)
    (hq : x.queued = (s.handler h).queued) (hp : x.phase = (s.handler h).phase)
    (hr : s.resumed = false → x.phase = .creating ∨ x.phase = .live →
      x.currentlyRegistered = true) : WatchOk (s.set h x) := by
  refine ok.change rfl (fun _ _ => rfl) (fun _ _ => Iff.rfl) (fun _ _ => Iff.rfl) (Nat.le_refl _)
    (fun hself => ?_) ok.nodup ok.once ok.wake rfl hr fun _ _ hk => .inl hk
  refine (ok.own h).congr ?_ ?_ ?_ rfl Iff.rfl Iff.rfl (Nat.le_refl _)
  · rw [hself, hx]
  · rw [hself, hq]
  · rw [hself, hp]

/-- A call goes on with the reference it has. -/
theorem WatchOk.goto (ok : WatchOk s) (hk : k ∈ s.calls) (hholds : ∀ h, k'.holds h = k.holds h)
    (hset : s.resumed = false → k'.settled = true) : WatchOk (s.goto k k') := by
  have hrefs : ∀ h, (s.goto k k').refs h = s.refs h := by
    intro h
    have h1 := passes_goto (t := s.goto k k') hk rfl h
    have h2 := refs_passes (s := s) (t := s.goto k k') rfl rfl h
    rw [hholds] at h1
    omega
  refine ⟨fun h => (ok.own h).congr rfl rfl rfl (hrefs h) Iff.rfl Iff.rfl (Nat.le_refl _), ok.nodup,
    ok.once, ok.wake, ok.registered, fun hres k₁ hk₁ => ?_⟩
  rcases List.mem_cons.mp hk₁ with rfl | hk₁
  · exact hset hres
  · exact ok.settled hres k₁ (List.mem_of_mem_erase hk₁)

theorem settled_goto (hset : s.resumed = false → k'.settled = true)
    (ht : t.calls = k' :: s.calls.erase k) (hr : s.resumed = false) :
    ∀ k₁ ∈ t.calls, k₁ ∈ s.calls ∨ k₁.settled = true := by
  intro k₁ hk₁
  rw [ht] at hk₁
  rcases List.mem_cons.mp hk₁ with rfl | hk₁
  · exact .inr (hset hr)
  · exact .inl (List.mem_of_mem_erase hk₁)

/-- A call takes a reference to a handler on the list. -/
theorem WatchOk.take (ok : WatchOk s) (hk : k ∈ s.calls) (hh : h ∈ s.list)
    (hset : s.resumed = false → k'.settled = true)
    (hholds : ∀ g, k'.holds g = k.holds g + if h = g then 1 else 0) :
    WatchOk ((s.getHandler h).goto k k') := by
  have hrefs : ∀ g, ((s.getHandler h).goto k k').refs g = s.refs g + if h = g then 1 else 0 := by
    intro g
    have h1 := passes_goto (t := (s.getHandler h).goto k k') hk rfl g
    have h2 := refs_passes (s := s) (t := (s.getHandler h).goto k k') rfl rfl g
    rw [hholds] at h1
    omega
  have o := ok.own h
  refine ok.change (h := h) rfl (fun g e => ?_) (fun _ _ => Iff.rfl) (fun _ _ => Iff.rfl)
    (Nat.le_refl _) (fun hself => ?_) ok.nodup ok.once ok.wake rfl (fun hr hp => ok.registered_of hr hp)
    (settled_goto hset rfl)
  · rw [hrefs, if_neg (Ne.symm e), Nat.add_zero]
  · have h1 := hrefs h
    rw [if_pos rfl] at h1
    refine ⟨?_, ?_, ?_, ?_, fun hc => ?_, ?_⟩
    · rw [hself, h1]
      have := o.refcount
      simp only
      omega
    · rw [hself]
      exact o.queued
    · rw [hself]
      exact o.flag
    · rw [hself]
      exact o.list
    · rw [hself] at hc
      exact absurd hc (Phase.not_closed (o.list.mp hh))
    · rw [hself]
      exact o.fresh

/-- The reference of a call, of the queue or of the watch thread is dropped. -/
theorem WatchOk.put (ok : WatchOk s) (ht : t.handler = (s.putHandler h).handler)
    (hrefs : ∀ g, t.refs g + (if h = g then 1 else 0) = s.refs g) (hpend : t.pending = s.pending)
    (hlist : t.list = s.list) (hcount : t.count = s.count) (hres : t.resumed = s.resumed)
    (hwake : t.pending ≠ [] → t.thread = .wait → t.event = true)
    (hset : s.resumed = false → ∀ k ∈ t.calls, k ∈ s.calls ∨ k.settled = true) : WatchOk t := by
  have o := ok.own h
  refine ok.change (h := h) ht (fun g e => ?_) (fun _ _ => by rw [hpend]) (fun _ _ => by rw [hlist])
    (Nat.le_of_eq hcount.symm) (fun hself => ?_) (by rw [hpend]; exact ok.nodup)
    (by rw [hlist]; exact ok.once) hwake hres (fun hr hp => ok.registered_of hr hp) hset
  · have h1 := hrefs g
    rwa [if_neg (Ne.symm e), Nat.add_zero] at h1
  · have h1 := hrefs h
    rw [if_pos rfl] at h1
    refine ⟨?_, ?_, ?_, ?_, fun hc => ?_, ?_⟩
    · rw [hself]
      have := o.refcount
      simp only
      omega
    · rw [hself, hpend]
      exact o.queued
    · rw [hself, hpend]
      exact o.flag
    · rw [hself, hlist]
      exact o.list
    · rw [hself] at hc
      have := o.clear hc
      omega
    · rw [hself, hcount]
      exact o.fresh

/-- A call drops its reference. -/
theorem WatchOk.drop (ok : WatchOk s) (hk : k ∈ s.calls)
    (hset : s.resumed = false → k'.settled = true)
    (hholds : ∀ g, k.holds g = k'.holds g + if h = g then 1 else 0) :
    WatchOk ((s.putHandler h).goto k k') := by
  refine ok.put (h := h) rfl (fun g => ?_) rfl rfl rfl rfl ok.wake (settled_goto hset rfl)
  have h1 := passes_goto (t := (s.putHandler h).goto k k') hk rfl g
  have h2 := refs_passes (s := s) (t := (s.putHandler h).goto k k') rfl rfl g
  rw [hholds] at h1
  omega

/-- `trigger_watch` of a handler that somebody still knows. -/
theorem WatchOk.trigger (ok : WatchOk s) (hopen : (s.handler h).phase.closed ≠ true) :
    WatchOk (s.trigger h) := by
  unfold Bus.trigger
  split
  · exact ok
  · next hq =>
    split
    · exact ok.store rfl rfl rfl fun hr hp => ok.registered_of hr hp
    · have o := ok.own h
      have hnot : h ∉ s.pending := fun hm => hq (o.queued hm)
      have hrefs : ∀ g, ({ (s.set h { s.handler h with queued := true }).getHandler h with
          pending := s.pending ++ [h], event := true } : Bus).refs g =
            s.refs g + if h = g then 1 else 0 := by
        intro g
        change (if g ∈ s.pending ++ [h] then 1 else 0) + s.thread.holds g + s.passes g = _
        unfold Bus.refs
        by_cases e : h = g
        · subst e
          simp only [List.mem_append, List.mem_singleton, or_true, if_true, hnot, if_false]
          omega
        · simp [e, Ne.symm e]
      refine ok.change (h := h) (x := { s.handler h with
          queued := true
          refcount := (s.handler h).refcount + 1
          safeToRelease :=
            if (s.handler h).refcount + 1 = 1 then false else (s.handler h).safeToRelease })
        ?_ (fun g e => ?_) (fun g e => ?_) (fun _ _ => Iff.rfl)
        (Nat.le_refl _) (fun hself => ?_) ?_ ok.once (fun _ _ => rfl) rfl
        (fun hr hp => ok.registered_of hr hp) fun _ _ hk => .inl hk
      · simp [Bus.getHandler, Bus.set, Function.update_idem]
      · rw [hrefs, if_neg (Ne.symm e), Nat.add_zero]
      · simp [e]
      · have h1 := hrefs h
        rw [if_pos rfl] at h1
        refine ⟨?_, fun _ => ?_, fun _ _ => ?_, ?_, fun hc => ?_, ?_⟩
        · rw [hself, h1]
          have := o.refcount
          simp only
          omega
        · rw [hself]
        · simp
        · rw [hself]
          exact o.list
        · rw [hself] at hc
          exact absurd hc hopen
        · rw [hself]
          exact o.fresh
      · exact List.nodup_append.mpr ⟨ok.nodup, List.nodup_singleton h, fun a ha b hb e =>
          hnot (List.mem_singleton.mp hb ▸ e ▸ ha)⟩

end Frames

/-! ## Steps -/

section Steps

variable {s t : Bus} {h : Nat} {k : Call}

/-- The watch thread goes on with the reference it has. -/
theorem WatchOk.advance {pc : ThreadPc} {event : Bool} (ok : WatchOk s)
    (hholds : ∀ h, pc.holds h = s.thread.holds h)
    (hwake : s.pending ≠ [] → pc = .wait → event = true) :
    WatchOk { s with thread := pc, event } := by
  have hrefs : ∀ h, ({ s with thread := pc, event } : Bus).refs h = s.refs h := by
    intro h
    unfold Bus.refs
    rw [hholds h]
    rfl
  exact ⟨fun h => (ok.own h).congr rfl rfl rfl (hrefs h) Iff.rfl Iff.rfl (Nat.le_refl _), ok.nodup,
    ok.once, hwake, ok.registered, ok.settled⟩

/-- The watch thread takes the head of the queue. -/
theorem WatchOk.dequeue {hs : List Nat} (ok : WatchOk s) (hthread : s.thread = .drain)
    (hpend : s.pending = h :: hs) :
    WatchOk { s.set h { s.handler h with queued := false } with
      pending := hs, thread := .dequeued h } := by
  have hnodup := ok.nodup
  rw [hpend] at hnodup
  obtain ⟨hnot, hnodup⟩ := List.nodup_cons.mp hnodup
  have hrefs : ∀ g, ({ s.set h { s.handler h with queued := false } with
      pending := hs, thread := .dequeued h } : Bus).refs g = s.refs g := by
    intro g
    unfold Bus.refs
    rw [hthread, hpend]
    change (if g ∈ hs then 1 else 0) + (if h = g then 1 else 0) + s.passes g = _
    by_cases e : h = g
    · subst e
      simp [hnot, ThreadPc.holds]
    · simp [e, Ne.symm e, ThreadPc.holds]
  have o := ok.own h
  refine ok.change (h := h) rfl (fun g _ => hrefs g) (fun g e => ?_) (fun _ _ => Iff.rfl)
    (Nat.le_refl _) (fun hself => ?_) hnodup ok.once (fun _ e => by cases e) rfl
    (fun hr hp => ok.registered_of hr hp) fun _ _ hk => .inl hk
  · rw [hpend]
    simp [e]
  · refine ⟨?_, fun hm => absurd hm hnot, fun _ hq => ?_, ?_, fun hc => ?_, ?_⟩
    · rw [hself, hrefs]
      exact o.refcount
    · rw [hself] at hq
      cases hq
    · rw [hself]
      exact o.list
    · rw [hrefs]
      rw [hself] at hc
      exact o.clear hc
    · rw [hself]
      exact o.fresh

theorem WatchOk.threadStep (ok : WatchOk s) (ht : s.threadStep = some t) : WatchOk t := by
  unfold Bus.threadStep at ht
  cases hpc : s.thread with
  | wait =>
    simp only [hpc] at ht
    split at ht
    · cases ht
      exact ok.advance (fun h => by rw [hpc]; rfl) fun _ e => by cases e
    · cases ht
  | woken =>
    simp only [hpc] at ht
    cases ht
    exact ok.advance (fun h => by rw [hpc]; rfl) fun _ e => by cases e
  | drain =>
    simp only [hpc] at ht
    split at ht
    · next hp =>
      cases ht
      exact ok.advance (fun h => by rw [hpc]; rfl) fun e => absurd hp e
    · next h hs hp =>
      cases ht
      exact ok.dequeue hpc hp
  | dequeued h =>
    simp only [hpc] at ht
    cases ht
    have ok' : WatchOk (s.set h { s.handler h with starts := (s.handler h).starts + 1 }) :=
      ok.store rfl rfl rfl fun hr hp => ok.registered_of hr hp
    exact ok'.advance (fun g => by change _ = s.thread.holds g; rw [hpc]; rfl) fun _ e => by cases e
  | running h =>
    simp only [hpc] at ht
    cases ht
    exact ok.advance (fun g => by rw [hpc]; rfl) fun _ e => by cases e
  | finished h =>
    simp only [hpc] at ht
    cases ht
    refine ok.put (h := h) rfl (fun g => ?_) rfl rfl rfl rfl (fun _ e => by cases e)
      fun _ _ hk => .inl hk
    unfold Bus.refs
    rw [hpc]
    change (if g ∈ s.pending then 1 else 0) + 0 + s.passes g + _ =
      (if g ∈ s.pending then 1 else 0) + (if h = g then 1 else 0) + s.passes g
    omega

/-- The handler goes to a phase on the same side of the list. -/
theorem WatchOk.setPhase {phase : Phase} (ok : WatchOk s)
    (hlink : phase.linked = (s.handler h).phase.linked)
    (hclosed : phase.closed = true → s.refs h = 0) (hknown : h < s.count)
    (hreg : s.resumed = false → phase = .creating ∨ phase = .live →
      (s.handler h).currentlyRegistered = true) : WatchOk (s.setPhase h phase) := by
  have o := ok.own h
  refine ok.change (h := h) rfl (fun _ _ => rfl) (fun _ _ => Iff.rfl) (fun _ _ => Iff.rfl)
    (Nat.le_refl _) (fun hself => ?_) ok.nodup ok.once ok.wake rfl hreg fun _ _ hk => .inl hk
  refine ⟨?_, ?_, ?_, ?_, fun hc => ?_, fun hc => absurd hknown (Nat.not_lt.mpr hc)⟩
  · rw [hself]
    exact o.refcount
  · rw [hself]
    exact o.queued
  · rw [hself]
    simp only [hlink]
    exact o.flag
  · rw [hself]
    simp only [hlink]
    exact o.list
  · rw [hself] at hc
    exact hclosed hc

theorem WatchOk.known (ok : WatchOk s) (hp : (s.handler h).phase ≠ .unused) : h < s.count := by
  by_contra hc
  exact hp ((ok.own h).fresh (Nat.not_lt.mp hc))

/-- `xenbus_unregister_watch` takes the handler off both lists. -/
theorem WatchOk.unlink (ok : WatchOk s) (hp : (s.handler h).phase = .unlinking) :
    WatchOk { ((if (s.handler h).queued then { s.putHandler h with pending := s.pending.erase h }
        else s).setPhase h .check) with list := s.list.erase h } := by
  have o := ok.own h
  have hknown := ok.known (h := h) (by rw [hp]; simp)
  have hlist : ∀ g, g ≠ h → (g ∈ s.list.erase h ↔ g ∈ s.list) := fun g e =>
    List.mem_erase_of_ne e
  have hgone : h ∉ s.list.erase h := fun hm => (ok.once.mem_erase_iff.mp hm).1 rfl
  by_cases hq : (s.handler h).queued = true
  · have hmem : h ∈ s.pending := o.flag (by rw [hp]; rfl) hq
    have hnot : h ∉ s.pending.erase h := fun hm => (ok.nodup.mem_erase_iff.mp hm).1 rfl
    simp only [hq, if_true]
    have hrefs : ∀ g, ({ ({ s.putHandler h with pending := s.pending.erase h } : Bus).setPhase h .check
        with list := s.list.erase h } : Bus).refs g + (if h = g then 1 else 0) = s.refs g := by
      intro g
      unfold Bus.refs
      change (if g ∈ s.pending.erase h then 1 else 0) + s.thread.holds g + s.passes g + _ = _
      by_cases e : h = g
      · subst e
        simp only [hnot, hmem, if_true, if_false]
        omega
      · simp only [List.mem_erase_of_ne (Ne.symm e), e, if_false]
        omega
    refine ok.change (h := h) (x := { s.handler h with
        refcount := (s.handler h).refcount - 1
        safeToRelease :=
          if (s.handler h).refcount - 1 = 0 then true else (s.handler h).safeToRelease
        phase := .check }) ?_ (fun g e => ?_) (fun g e => List.mem_erase_of_ne e)
      hlist (Nat.le_refl _) (fun hself => ?_) (ok.nodup.erase h) (ok.once.erase h) (fun hne e => ?_) rfl
      (fun _ hx => by simp at hx) fun _ _ hk => .inl hk
    · simp [Bus.setPhase, Bus.putHandler, Bus.set, Function.update_idem]
    · have h1 := hrefs g
      rwa [if_neg (Ne.symm e), Nat.add_zero] at h1
    · have h1 := hrefs h
      rw [if_pos rfl] at h1
      refine ⟨?_, fun hm => absurd hm hnot, fun hl => ?_, ⟨fun hm => absurd hm hgone, fun hl => ?_⟩,
        fun hc => ?_, fun hc => absurd hknown (Nat.not_lt.mpr hc)⟩
      · rw [hself]
        have h2 := o.refcount
        refine Eq.trans ?_ (congrArg Nat.cast (Nat.eq_sub_of_add_eq h1).symm)
        simp only
        omega
      · rw [hself] at hl
        cases hl
      · rw [hself] at hl
        cases hl
      · rw [hself] at hc
        cases hc
    · refine ok.wake (fun e' => hne ?_) e
      change s.pending.erase h = []
      rw [e']
      rfl
  · have hnot : h ∉ s.pending := fun hm => hq (o.queued hm)
    rw [if_neg hq]
    refine ok.change (h := h) rfl (fun _ _ => rfl) (fun _ _ => Iff.rfl) hlist (Nat.le_refl _)
      (fun hself => ?_) ok.nodup (ok.once.erase h) ok.wake rfl (fun _ hx => by simp at hx)
      fun _ _ hk => .inl hk
    refine ⟨?_, fun hm => absurd hm hnot, fun hl => ?_, ⟨fun hm => absurd hm hgone, fun hl => ?_⟩,
      fun hc => ?_, fun hc => absurd hknown (Nat.not_lt.mpr hc)⟩
    · rw [hself]
      exact o.refcount
    · rw [hself] at hl
      cases hl
    · rw [hself] at hl
      cases hl
    · rw [hself] at hc
      cases hc

theorem WatchOk.unregisterStep (ok : WatchOk s) (ht : s.unregisterStep h = some t) :
    WatchOk t := by
  unfold Bus.unregisterStep at ht
  cases hp : (s.handler h).phase with
  | unlinking =>
    simp only [hp] at ht
    cases ht
    exact ok.unlink hp
  | check =>
    simp only [hp] at ht
    cases ht
    have hknown := ok.known (h := h) (by rw [hp]; simp)
    split
    · next hz =>
      refine ok.setPhase (by rw [hp]; rfl) (fun _ => ?_) hknown (fun _ hx => by simp at hx)
      have := (ok.own h).refcount
      omega
    · exact ok.setPhase (by rw [hp]; rfl) (fun e => by cases e) hknown (fun _ hx => by simp at hx)
  | waiting =>
    simp only [hp] at ht
    split at ht
    · cases ht
      have hknown := ok.known (h := h) (by rw [hp]; simp)
      exact ok.setPhase (by rw [hp]; rfl) (fun e => by cases e) hknown (fun _ hx => by simp at hx)
    · cases ht
  | checked =>
    simp only [hp] at ht
    cases ht
    have hknown := ok.known (h := h) (by rw [hp]; simp)
    exact ok.setPhase (by rw [hp]; rfl) (fun _ => (ok.own h).clear (by rw [hp]; rfl)) hknown
      (fun _ hx => by simp at hx)
  | unused | creating | live | returned =>
    simp only [hp] at ht
    cases ht

/-- A pass of `xenbus_recover_from_s3` looks for the next handler. -/
theorem WatchOk.recover (ok : WatchOk s) (hk : .done ∈ s.calls) (hres : s.resumed = true) :
    WatchOk (s.recover.1.goto .done s.recover.2) := by
  have hset : ∀ k : Call, s.resumed = false → k.settled = true := fun k e => by
    rw [hres] at e
    cases e
  unfold Bus.recover
  split
  · next h hf =>
    have hh : h ∈ s.list := List.mem_of_find?_eq_some hf
    have h1 : WatchOk ((s.getHandler h).goto .done (.unwatching h)) :=
      ok.take hk hh (hset _) fun g => by simp [Call.holds]
    exact h1.store (h := h) rfl rfl rfl fun hr hp => h1.registered_of hr hp
  · exact ok.goto hk (fun _ => rfl) (hset _)

/-- A handler to which somebody holds a reference is open. -/
theorem WatchOk.not_closed (ok : WatchOk s) (hr : s.refs h ≠ 0) :
    (s.handler h).phase.closed ≠ true :=
  fun hc => hr ((ok.own h).clear hc)

theorem WatchOk.not_closed_of_call (ok : WatchOk s) (hk : k ∈ s.calls)
    (hg : k.holds h ≠ 0) : (s.handler h).phase.closed ≠ true := by
  apply ok.not_closed
  have h2 := passes_pos (h := h) hk
  unfold Bus.refs
  omega

/-- The scan does not look at the calls. -/
theorem recover_goto (s : Bus) (k : Call) :
    (s.goto k .done).recover.1.goto .done (s.goto k .done).recover.2 =
      s.recover.1.goto k s.recover.2 := by
  have he : (s.goto k .done).recoverableHandler = s.recoverableHandler := rfl
  unfold Bus.recover
  rw [he]
  cases s.recoverableHandler with
  | none => simp [Bus.goto]
  | some h => simp [Bus.goto, Bus.getHandler, Bus.set]

theorem recover_enter (s : Bus) :
    ({ s with calls := .done :: s.calls } : Bus).recover.1.goto .done
        ({ s with calls := .done :: s.calls } : Bus).recover.2 =
      { s.recover.1 with calls := s.recover.2 :: s.calls } := by
  have he : ({ s with calls := .done :: s.calls } : Bus).recoverableHandler =
    s.recoverableHandler := rfl
  unfold Bus.recover
  rw [he]
  cases s.recoverableHandler with
  | none => simp [Bus.goto]
  | some h => simp [Bus.goto, Bus.getHandler, Bus.set]

theorem WatchOk.callStep {ok' : Bool} (ok : WatchOk s) (hk : k ∈ s.calls)
    (ht : s.callStep ok' k = some t) : WatchOk t := by
  -- a pass runs only after a suspend
  have hset : ∀ k', k.settled = false → s.resumed = false → Call.settled k' = true := by
    intro k' hs hr
    rw [ok.settled hr k hk] at hs
    cases hs
  cases k with
  | done => cases ht
  | reregister =>
    simp only [Bus.callStep] at ht
    split at ht
    · next h hf =>
      cases ht
      exact ok.take hk (List.mem_of_find?_eq_some hf) (hset _ rfl) fun g => by simp [Call.holds]
    · cases ht
      exact ok.goto hk (fun _ => rfl) (hset _ rfl)
  | registering h =>
    simp only [Bus.callStep] at ht
    split at ht
    · cases ht
      have h1 : WatchOk (s.set h { s.handler h with currentlyRegistered := true }) :=
        ok.store rfl rfl rfl fun _ _ => rfl
      exact h1.goto hk (fun _ => rfl) (hset _ rfl)
    · cases ht
      have h1 : WatchOk (s.set h { s.handler h with faulty := true }) :=
        ok.store rfl rfl rfl fun hr hp => ok.registered_of hr hp
      exact h1.goto hk (fun _ => rfl) (hset _ rfl)
  | faulty h =>
    cases ht
    have hopen := ok.not_closed_of_call (h := h) hk (by simp [Call.holds])
    have hcalls : (s.trigger h).calls = s.calls ∧ (s.trigger h).resumed = s.resumed := by
      unfold Bus.trigger
      split
      · exact ⟨rfl, rfl⟩
      · split <;> exact ⟨rfl, rfl⟩
    refine (ok.trigger hopen).goto (by rw [hcalls.1]; exact hk) (fun _ => rfl) ?_
    rw [hcalls.2]
    exact hset _ rfl
  | put h =>
    cases ht
    exact ok.drop hk (hset _ rfl) fun g => by simp [Call.holds]
  | unwatching h =>
    have hres : s.resumed = true := by
      by_contra e
      have := ok.settled (by simpa using e) _ hk
      cases this
    have h1 : WatchOk (s.set h { s.handler h with currentlyRegistered := false }) :=
      ok.store rfl rfl rfl fun hr _ => by rw [hres] at hr; cases hr
    have h2 : WatchOk (((s.set h { s.handler h with currentlyRegistered := false }).putHandler h).goto
        (.unwatching h) .done) := h1.drop hk (fun _ => rfl) fun g => by simp [Call.holds]
    have h3 := h2.recover List.mem_cons_self hres
    simp only [Bus.callStep] at ht
    cases ht
    generalize (s.set h { s.handler h with currentlyRegistered := false }).putHandler h = u at h3 ⊢
    rwa [recover_goto] at h3
  | redirect h oldPath oldRegistered =>
    simp only [Bus.callStep] at ht
    split at ht
    · cases ht
      exact ok.goto hk (fun _ => rfl) (fun _ => rfl)
    · cases ht
      have hold : s.resumed = false → oldRegistered = true := by
        intro hr
        have := ok.settled hr _ hk
        cases oldRegistered with
        | true => rfl
        | false => cases this
      have h1 : WatchOk (s.set h { s.handler h with
          path := oldPath, currentlyRegistered := oldRegistered }) :=
        ok.store rfl rfl rfl fun hr _ => hold hr
      refine h1.goto hk (fun _ => ?_) fun hr => ?_
      · cases oldRegistered <;> rfl
      · rw [hold hr]
        rfl

/-- `__xenbus_watch_path` puts a new handler on the list. -/
theorem WatchOk.watchPath {path : String} {event : Bool} (ok : WatchOk s) :
    WatchOk { s.set s.count ⟨path, event, false, false, true, 0, false, false, .creating, 0⟩ with
      count := s.count + 1, list := s.count :: s.list } := by
  have o := ok.own s.count
  have hp := o.fresh (Nat.le_refl _)
  have hzero : s.refs s.count = 0 := o.clear (by rw [hp]; rfl)
  have hlist : s.count ∉ s.list := by
    rw [o.list, hp]
    simp [Phase.linked]
  have hpend : s.count ∉ s.pending := by
    intro hm
    unfold Bus.refs at hzero
    rw [if_pos hm] at hzero
    omega
  refine ok.change (h := s.count) rfl (fun _ _ => rfl) (fun _ _ => Iff.rfl) (fun g e => ?_)
    (Nat.le_succ _) (fun hself => ?_) ok.nodup (List.nodup_cons.mpr ⟨hlist, ok.once⟩) ok.wake rfl
    (fun _ _ => rfl) fun _ _ hk => .inl hk
  · simp [e]
  · refine ⟨?_, fun hm => absurd hm hpend, fun _ hq => ?_, ?_, fun hc => ?_, fun hc => ?_⟩
    · rw [hself]
      exact (congrArg Nat.cast hzero).symm
    · rw [hself] at hq
      cases hq
    · rw [hself]
      simp [Phase.linked]
    · rw [hself] at hc
      cases hc
    · exact absurd hc (Nat.not_succ_le_self _)

/-- A store to a flag of every handler on the list. -/
theorem WatchOk.mark {f : Handler → Handler} (ok : WatchOk s)
    (hf : ∀ x, (f x).refcount = x.refcount ∧ (f x).queued = x.queued ∧ (f x).phase = x.phase) :
    WatchOk { s with handler := fun h => if h ∈ s.list then f (s.handler h) else s.handler h,
                     resumed := true } := by
  refine ⟨fun h => ?_, ok.nodup, ok.once, ok.wake, fun e => (by cases e), fun e => by cases e⟩
  have hx : ∀ h, (if h ∈ s.list then f (s.handler h) else s.handler h).refcount =
        (s.handler h).refcount ∧
      (if h ∈ s.list then f (s.handler h) else s.handler h).queued = (s.handler h).queued ∧
      (if h ∈ s.list then f (s.handler h) else s.handler h).phase = (s.handler h).phase := by
    intro h
    split
    · exact hf _
    · exact ⟨rfl, rfl, rfl⟩
  exact (ok.own h).congr (hx h).1 (hx h).2.1 (hx h).2.2 rfl Iff.rfl Iff.rfl (Nat.le_refl _)

/-- A new call without a reference. -/
theorem WatchOk.enter (ok : WatchOk s) (hholds : ∀ h, k.holds h = 0)
    (hset : s.resumed = false → k.settled = true) : WatchOk { s with calls := k :: s.calls } := by
  have hrefs : ∀ h, ({ s with calls := k :: s.calls } : Bus).refs h = s.refs h := by
    intro h
    unfold Bus.refs Bus.passes
    rw [List.map_cons, List.sum_cons, hholds h, Nat.zero_add]
  refine ⟨fun h => (ok.own h).congr rfl rfl rfl (hrefs h) Iff.rfl Iff.rfl (Nat.le_refl _), ok.nodup,
    ok.once, ok.wake, ok.registered, fun hr k' hk' => ?_⟩
  rcases List.mem_cons.mp hk' with rfl | hk'
  · exact hset hr
  · exact ok.settled hr k' hk'

theorem WatchOk.step {a : Act} (ok : WatchOk s) (ht : s.step a = some t) : WatchOk t := by
  cases a with
  | watchPath path event =>
    cases ht
    exact ok.watchPath
  | registered h ok' =>
    obtain ⟨hp, ht⟩ := Option.ite_none_right_eq_some.mp ht
    have hknown := ok.known (h := h) (by rw [hp]; simp)
    split at ht
    · cases ht
      exact ok.setPhase (by rw [hp]; rfl) (fun e => by cases e) hknown
        fun hr _ => ok.registered_of hr (.inl hp)
    · cases ht
      have h1 : WatchOk (s.setPhase h .unlinking) :=
        ok.setPhase (by rw [hp]; rfl) (fun e => by cases e) hknown (fun _ hx => by simp at hx)
      have h2 := h1.store (h := h) (x := { s.handler h with
        currentlyRegistered := false, phase := .unlinking }) ?_ ?_ ?_ (fun _ hx => by simp at hx)
      · simpa [Bus.setPhase, Bus.set, Function.update_idem] using h2
      · simp [Bus.setPhase, Bus.set]
      · simp [Bus.setPhase, Bus.set]
      · simp [Bus.setPhase, Bus.set]
  | fire h =>
    cases ht
    split
    · next hh => exact ok.trigger (Phase.not_closed ((ok.own h).list.mp hh))
    · exact ok
  | thread => exact ok.threadStep ht
  | redirect h path =>
    obtain ⟨hp, ht⟩ := Option.ite_none_right_eq_some.mp ht
    split at ht
    · cases ht
      exact ok
    · cases ht
      have h1 : WatchOk (s.set h { s.handler h with path, currentlyRegistered := true }) :=
        ok.store rfl rfl rfl fun _ _ => rfl
      refine h1.enter (fun _ => rfl) fun hr => ?_
      rw [ok.registered_of hr (.inr hp)]
      rfl
  | unregister h =>
    obtain ⟨hp, ht⟩ := Option.ite_none_right_eq_some.mp ht
    cases ht
    exact ok.setPhase (by rw [hp]; rfl) (fun e => by cases e) (ok.known (by rw [hp]; simp))
      (fun _ hx => by simp at hx)
  | unregistering h => exact ok.unregisterStep ht
  | resumeEarly =>
    cases ht
    exact ok.mark (f := fun x => { x with currentlyRegistered := false }) fun _ => ⟨rfl, rfl, rfl⟩
  | resumeLate =>
    cases ht
    have h1 : WatchOk { s with resumed := true } :=
      ⟨fun h => (ok.own h).congr rfl rfl rfl rfl Iff.rfl Iff.rfl (Nat.le_refl _), ok.nodup, ok.once,
        ok.wake, fun e => (by cases e), fun e => by cases e⟩
    exact h1.enter (fun _ => rfl) fun e => by cases e
  | recoverFromS3 =>
    have h1 := ok.mark (f := fun x => { x with needsS3Recover := true }) fun _ => ⟨rfl, rfl, rfl⟩
    have h2 := (h1.enter (k := .done) (fun _ => rfl) fun _ => rfl).recover List.mem_cons_self rfl
    rw [recover_enter] at h2
    cases ht
    exact h2
  | call k ok' =>
    obtain ⟨hk, ht⟩ := Option.ite_none_right_eq_some.mp ht
    exact ok.callStep hk ht

theorem watchOk_init : WatchOk watchMachine.init :=
  ⟨fun _ => ⟨rfl, fun h => absurd h List.not_mem_nil, nofun, ⟨nofun, nofun⟩, fun _ => rfl,
    fun _ => rfl⟩, List.nodup_nil, List.nodup_nil, fun h => absurd rfl h, nofun,
    fun _ _ h => absurd h List.not_mem_nil⟩

end Steps

end XcWindows.Xenbus.Watch
