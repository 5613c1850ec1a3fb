import XcWindows.Xenbus.WatchRefs

/-!
# Runs of the watches

How far the watch thread is from the callback of a queued watch, and what that gives over a run.
-/

namespace XcWindows.Xenbus.Watch

open Lib
open Function (update update_self)

/-! ## Progress of the watch thread -/

section Progress

variable {s t : Bus} {h g : Nat} {a : Act}

theorem trigger_frame (s : Bus) (h : Nat) :
    (s.trigger h).thread = s.thread ∧
      ((s.trigger h).pending = s.pending ∨ (s.trigger h).pending = s.pending ++ [h]) := by
  unfold Bus.trigger
  split
  · exact ⟨rfl, .inl rfl⟩
  · split
    · exact ⟨rfl, .inl rfl⟩
    · exact ⟨rfl, .inr rfl⟩

theorem recover_frame (s : Bus) :
    s.recover.1.thread = s.thread ∧ s.recover.1.pending = s.pending := by
  unfold Bus.recover
  split <;> exact ⟨rfl, rfl⟩

/-- What the others do to the queue: they add to its end, or take out a watch that is being
unregistered. -/
theorem queue_step (hne : a ≠ .thread) (ht : s.step a = some t) :
    t.thread = s.thread ∧ (t.pending = s.pending ∨ (∃ g, t.pending = s.pending ++ [g]) ∨
      ∃ g, (s.handler g).phase = .unlinking ∧ t.pending = s.pending.erase g) := by
  cases a with
  | thread => exact absurd rfl hne
  | watchPath | resumeEarly | resumeLate =>
    cases ht
    exact ⟨rfl, .inl rfl⟩
  | registered | redirect =>
    obtain ⟨-, ht⟩ := Option.ite_none_right_eq_some.mp ht
    split at ht <;> cases ht <;> exact ⟨rfl, .inl rfl⟩
  | unregister =>
    obtain ⟨-, ht⟩ := Option.ite_none_right_eq_some.mp ht
    cases ht
    exact ⟨rfl, .inl rfl⟩
  | fire h =>
    cases ht
    split
    · refine ⟨(trigger_frame s h).1, ?_⟩
      rcases (trigger_frame s h).2 with e | e
      · exact .inl e
      · exact .inr (.inl ⟨h, e⟩)
    · exact ⟨rfl, .inl rfl⟩
  | unregistering h =>
    simp only [Bus.step, Bus.unregisterStep] at ht
    split at ht
    · next hp =>
      cases ht
      split
      · exact ⟨rfl, .inr (.inr ⟨h, hp, rfl⟩)⟩
      · exact ⟨rfl, .inl rfl⟩
    · cases ht
      exact ⟨rfl, .inl rfl⟩
    · split at ht
      · cases ht
        exact ⟨rfl, .inl rfl⟩
      · cases ht
    · cases ht
      exact ⟨rfl, .inl rfl⟩
    all_goals cases ht
  | recoverFromS3 =>
    cases ht
    exact ⟨(recover_frame _).1, .inl (recover_frame _).2⟩
  | call k ok =>
    obtain ⟨-, ht⟩ := Option.ite_none_right_eq_some.mp ht
    cases k with
    | done => cases ht
    | reregister =>
      simp only [Bus.callStep] at ht
      split at ht <;> cases ht <;> exact ⟨rfl, .inl rfl⟩
    | registering h | redirect h =>
      simp only [Bus.callStep] at ht
      split at ht <;> cases ht <;> exact ⟨rfl, .inl rfl⟩
    | faulty h =>
      cases ht
      refine ⟨(trigger_frame s h).1, ?_⟩
      rcases (trigger_frame s h).2 with e | e
      · exact .inl e
      · exact .inr (.inl ⟨h, e⟩)
    | put h =>
      cases ht
      exact ⟨rfl, .inl rfl⟩
    | unwatching h =>
      cases ht
      exact ⟨(recover_frame _).1, .inl (recover_frame _).2⟩

theorem idxOf_erase_le {l : List Nat} (hne : g ≠ h) : (l.erase g).idxOf h ≤ l.idxOf h := by
  induction l with
  | nil => exact Nat.le_refl _
  | cons x l ih =>
    by_cases e : x = g
    · subst e
      rw [List.erase_cons_head, List.idxOf_cons_ne _ hne]
      omega
    · rw [List.erase_cons_tail (by simpa using e)]
      by_cases ex : x = h
      · subst ex
        simp
      · rw [List.idxOf_cons_ne _ ex, List.idxOf_cons_ne _ ex]
        omega

/-- A queued watch that is not being unregistered does not fall back. -/
theorem queue_keeps (hne : a ≠ .thread) (ht : s.step a = some t) (hact : s.active h = true)
    (hmem : h ∈ s.pending) : h ∈ t.pending ∧ t.pending.idxOf h ≤ s.pending.idxOf h := by
  rcases (queue_step hne ht).2 with e | ⟨g, e⟩ | ⟨g, hg, e⟩
  · rw [e]
    exact ⟨hmem, Nat.le_refl _⟩
  · rw [e, List.idxOf_append_of_mem hmem]
    exact ⟨List.mem_append_left _ hmem, Nat.le_refl _⟩
  · have hgh : g ≠ h := by
      rintro rfl
      unfold Bus.active at hact
      rw [hg] at hact
      simp at hact
    rw [e]
    exact ⟨(List.mem_erase_of_ne (Ne.symm hgh)).mpr hmem, idxOf_erase_le hgh⟩

/-- A handler only ages: the starts are counted up, what is unregistered stays so, and a closed
handler is not started. -/
structure Ages (x y : Handler) : Prop where
  starts : x.starts ≤ y.starts
  active : y.phase = .creating ∨ y.phase = .live → x.phase = .creating ∨ x.phase = .live
  known : x.phase ≠ .unused → y.phase ≠ .unused
  closed : x.phase.closed = true → y.phase.closed = true ∧ y.starts = x.starts

theorem Ages.of_eq {x y : Handler} (hs : y.starts = x.starts) (hp : y.phase = x.phase) :
    Ages x y :=
  ⟨hs ▸ Nat.le_refl _, fun e => hp ▸ e, fun e => hp ▸ e, fun e => ⟨hp ▸ e, hs⟩⟩

theorem Ages.trans {x y z : Handler} (h1 : Ages x y) (h2 : Ages y z) : Ages x z := by
  refine ⟨Nat.le_trans h1.starts h2.starts, fun e => h1.active (h2.active e),
    fun e => h2.known (h1.known e), fun e => ?_⟩
  obtain ⟨hy, ey⟩ := h1.closed e
  obtain ⟨hz, ez⟩ := h2.closed hy
  exact ⟨hz, ez.trans ey⟩

/-- The callback is started. -/
theorem Ages.start {x : Handler} (hopen : x.phase.closed ≠ true) :
    Ages x { x with starts := x.starts + 1 } :=
  ⟨Nat.le_succ _, fun e => e, fun e => e, fun e => absurd e hopen⟩

/-- The handler goes to a later phase. -/
theorem Ages.phase {x y : Handler} (hs : y.starts = x.starts) (hy : y.phase ≠ .unused)
    (hact : y.phase = .creating ∨ y.phase = .live → x.phase = .creating ∨ x.phase = .live)
    (hclosed : x.phase.closed = true → y.phase.closed = true) : Ages x y :=
  ⟨hs ▸ Nat.le_refl _, hact, fun _ => hy, fun e => ⟨hclosed e, hs⟩⟩

theorem ages_update {x : Handler} (ht : t.handler = update s.handler g x)
    (hx : Ages (s.handler g) x) (h : Nat) : Ages (s.handler h) (t.handler h) := by
  rw [ht]
  by_cases e : h = g
  · subst e
    rw [update_self]
    exact hx
  · rw [Function.update_of_ne e]
    exact .of_eq rfl rfl

/-- A store that leaves the phase and the starts alone. -/
theorem ages_store {x : Handler} (ht : t.handler = update s.handler g x)
    (hs : x.starts = (s.handler g).starts) (hp : x.phase = (s.handler g).phase) (h : Nat) :
    Ages (s.handler h) (t.handler h) :=
  ages_update ht (.of_eq hs hp) h

theorem ages_get (s : Bus) (g h : Nat) : Ages (s.handler h) ((s.getHandler g).handler h) :=
  ages_store rfl (by rfl) (by rfl) h

theorem ages_put (s : Bus) (g h : Nat) : Ages (s.handler h) ((s.putHandler g).handler h) :=
  ages_store rfl (by rfl) (by rfl) h

theorem ages_trigger (hopen : (s.handler g).phase.closed ≠ true) (h : Nat) :
    Ages (s.handler h) ((s.trigger g).handler h) := by
  unfold Bus.trigger
  split
  · exact .of_eq rfl rfl
  · split
    · exact ages_update rfl (.start hopen) h
    · have h1 : Ages (s.handler h) ((s.set g { s.handler g with queued := true }).handler h) :=
        ages_store rfl (by rfl) (by rfl) h
      exact h1.trans (ages_get _ g h)

theorem ages_recover (s : Bus) (h : Nat) : Ages (s.handler h) (s.recover.1.handler h) := by
  unfold Bus.recover
  split
  · next g _ => exact (ages_get s g h).trans (ages_store rfl (by rfl) (by rfl) h)
  · exact .of_eq rfl rfl

theorem ages_threadStep (ok : WatchOk s) (ht : s.threadStep = some t) (h : Nat) :
    Ages (s.handler h) (t.handler h) := by
  unfold Bus.threadStep at ht
  split at ht
  · split at ht <;> cases ht
    exact .of_eq rfl rfl
  · cases ht
    exact .of_eq rfl rfl
  · split at ht <;> cases ht
    · exact .of_eq rfl rfl
    · exact ages_store rfl (by rfl) (by rfl) h
  · next g hpc =>
    cases ht
    refine ages_update rfl (.start (ok.not_closed ?_)) h
    unfold Bus.refs
    rw [hpc]
    simp only [ThreadPc.holds, if_true]
    omega
  · cases ht
    exact .of_eq rfl rfl
  · cases ht
    exact ages_put s _ h

theorem ages_unregisterStep (ht : s.unregisterStep g = some t) (h : Nat) :
    Ages (s.handler h) (t.handler h) := by
  unfold Bus.unregisterStep at ht
  split at ht
  · next hp =>
    cases ht
    split
    · refine (ages_put s g h).trans (ages_update rfl (.phase (by rfl) (by simp) (by simp) fun e => ?_) h)
      simp [Bus.putHandler, Bus.set, hp, Phase.closed] at e
    · refine ages_update rfl (.phase (by rfl) (by simp) (by simp) fun e => ?_) h
      rw [hp] at e
      cases e
  · next hp =>
    cases ht
    split
    · refine ages_update rfl (.phase (by rfl) (by simp) (by simp) fun _ => rfl) h
    · refine ages_update rfl (.phase (by rfl) (by simp) (by simp) fun e => ?_) h
      rw [hp] at e
      cases e
  · next hp =>
    split at ht <;> cases ht
    refine ages_update rfl (.phase (by rfl) (by simp) (by simp) fun e => ?_) h
    rw [hp] at e
    cases e
  · cases ht
    exact ages_update rfl (.phase (by rfl) (by simp) (by simp) fun _ => rfl) h
  all_goals cases ht

theorem ages_callStep {ok' : Bool} {k : Call} (ok : WatchOk s) (hk : k ∈ s.calls)
    (ht : s.callStep ok' k = some t) (h : Nat) : Ages (s.handler h) (t.handler h) := by
  cases k with
  | done => cases ht
  | reregister =>
    simp only [Bus.callStep] at ht
    split at ht <;> cases ht
    · exact ages_get s _ h
    · exact .of_eq rfl rfl
  | registering g =>
    simp only [Bus.callStep] at ht
    split at ht <;> cases ht <;> exact ages_store rfl (by rfl) (by rfl) h
  | faulty g =>
    cases ht
    exact ages_trigger (ok.not_closed_of_call hk (by simp [Call.holds])) h
  | put g =>
    cases ht
    exact ages_put s g h
  | unwatching g =>
    cases ht
    have h1 : Ages (s.handler h)
        ((s.set g { s.handler g with currentlyRegistered := false }).handler h) :=
      ages_store rfl (by rfl) (by rfl) h
    exact (h1.trans (ages_put _ g h)).trans (ages_recover _ h)
  | redirect g oldPath oldRegistered =>
    simp only [Bus.callStep] at ht
    split at ht <;> cases ht
    · exact .of_eq rfl rfl
    · exact ages_store rfl (by rfl) (by rfl) h

theorem ages_mark {f : Handler → Handler} (hf : ∀ x, Ages x (f x)) (h : Nat) :
    Ages (s.handler h) (if h ∈ s.list then f (s.handler h) else s.handler h) := by
  split
  · exact hf _
  · exact .of_eq rfl rfl

theorem ages_step (ok : WatchOk s) (ht : s.step a = some t) (hh : h < s.count) :
    Ages (s.handler h) (t.handler h) := by
  cases a with
  | watchPath path event =>
    cases ht
    have e : h ≠ s.count := Nat.ne_of_lt hh
    exact .of_eq (by simp [Bus.set, e]) (by simp [Bus.set, e])
  | registered g ok' =>
    obtain ⟨hp, ht⟩ := Option.ite_none_right_eq_some.mp ht
    split at ht <;> cases ht
    · refine ages_update rfl (.phase (by rfl) (by simp) (fun _ => .inl hp) fun e => ?_) h
      rw [hp] at e
      cases e
    · refine ages_update rfl (.phase (by rfl) (by simp) (by simp) fun e => ?_) h
      rw [hp] at e
      cases e
  | fire g =>
    cases ht
    split
    · next hg => exact ages_trigger (Phase.not_closed ((ok.own g).list.mp hg)) h
    · exact .of_eq rfl rfl
  | thread => exact ages_threadStep ok ht h
  | redirect g path =>
    obtain ⟨-, ht⟩ := Option.ite_none_right_eq_some.mp ht
    split at ht <;> cases ht
    · exact .of_eq rfl rfl
    · exact ages_store rfl (by rfl) (by rfl) h
  | unregister g =>
    obtain ⟨hp, ht⟩ := Option.ite_none_right_eq_some.mp ht
    cases ht
    refine ages_update rfl (.phase (by rfl) (by simp) (by simp) fun e => ?_) h
    rw [hp] at e
    cases e
  | unregistering g => exact ages_unregisterStep ht h
  | resumeEarly =>
    cases ht
    exact ages_mark (f := fun x => { x with currentlyRegistered := false })
      (fun _ => .of_eq rfl rfl) h
  | resumeLate =>
    cases ht
    exact .of_eq rfl rfl
  | recoverFromS3 =>
    cases ht
    have h1 := ages_mark (s := s) (f := fun x => { x with needsS3Recover := true })
      (fun _ => .of_eq rfl rfl) h
    have h2 := ages_recover { s with
      handler := fun h =>
        if h ∈ s.list then { s.handler h with needsS3Recover := true } else s.handler h
      resumed := true } h
    exact h1.trans h2
  | call k ok' =>
    obtain ⟨hk, ht⟩ := Option.ite_none_right_eq_some.mp ht
    exact ages_callStep ok hk ht h

/-- The callback of a queued watch has not been started `n + 1` times yet. -/
structure Queued (n h : Nat) (s : Bus) : Prop where
  ok : WatchOk s
  active : s.active h = true
  starts : n ≤ (s.handler h).starts
  queue : h ∈ s.pending ∨ s.thread = .dequeued h

/-- It has been started, or `xenbus_unregister_watch` was called. -/
structure Served (n h : Nat) (s : Bus) : Prop where
  ok : WatchOk s
  known : (s.handler h).phase ≠ .unused
  served : n < (s.handler h).starts ∨ s.active h = false

theorem active_iff : s.active h = true ↔
    (s.handler h).phase = .creating ∨ (s.handler h).phase = .live := by
  simp [Bus.active]

theorem active_known (hact : s.active h = true) : (s.handler h).phase ≠ .unused := by
  intro e
  rw [active_iff, e] at hact
  simp at hact

theorem active_step (ok : WatchOk s) (ht : s.step a = some t) (hh : h < s.count) (hact : s.active h = false) :
    t.active h = false := by
  by_contra e
  have := (ages_step ok ht hh).active (active_iff.mp (by simpa using e))
  rw [← active_iff, hact] at this
  cases this

theorem Served.step {n : Nat} (h' : Served n h s) (ht : s.step a = some t) : Served n h t := by
  have hknown := h'.ok.known h'.known
  have hages := ages_step h'.ok ht hknown
  refine ⟨h'.ok.step ht, hages.known h'.known, ?_⟩
  rcases h'.served with hs | hs
  · exact .inl (Nat.lt_of_lt_of_le hs hages.starts)
  · exact .inr (active_step h'.ok ht hknown hs)

/-- The watch thread gets one step nearer to the callback. -/
theorem Queued.thread {n : Nat} (q : Queued n h s) (ht : s.threadStep = some t) :
    n < (t.handler h).starts ∨
      (h ∈ t.pending ∨ t.thread = .dequeued h) ∧ t.rank h + 1 ≤ s.rank h := by
  have hstarts := q.starts
  have hqueue := q.queue
  unfold Bus.threadStep at ht
  unfold Bus.rank
  cases hpc : s.thread with
  | wait | woken | running g | finished g =>
    have hmem : h ∈ s.pending := by simpa [hpc] using hqueue
    simp only [hpc] at ht
    first
      | cases ht
      | (split at ht <;> cases ht)
    exact .inr ⟨.inl hmem, Nat.le_refl _⟩
  | drain =>
    have hmem : h ∈ s.pending := by simpa [hpc] using hqueue
    simp only [hpc] at ht
    split at ht
    · next hp =>
      rw [hp] at hmem
      cases hmem
    · next g gs hp =>
      cases ht
      rw [hp] at hmem ⊢
      by_cases e : g = h
      · subst e
        refine .inr ⟨.inr rfl, ?_⟩
        simp
      · have hmem' : h ∈ gs := by simpa [Ne.symm e] using hmem
        refine .inr ⟨.inl hmem', ?_⟩
        simp only [e, if_false, List.idxOf_cons_ne _ e]
        omega
  | dequeued g =>
    simp only [hpc] at ht
    cases ht
    by_cases e : g = h
    · subst e
      refine .inl ?_
      change n < (update s.handler g _ g).starts
      rw [update_self]
      exact Nat.lt_succ_of_le hstarts
    · have hmem : h ∈ s.pending := by simpa [hpc, e] using hqueue
      refine .inr ⟨.inl hmem, ?_⟩
      simp only [e, if_false]
      exact Nat.le_refl _

/-- Whatever the others do, they do not keep the watch thread from the callback. -/
theorem Queued.step {n : Nat} (q : Queued n h s) (ht : s.step a = some t) :
    Served n h t ∨ Queued n h t ∧ t.rank h + (if a = .thread then 1 else 0) ≤ s.rank h := by
  have hages := ages_step q.ok ht (q.ok.known (active_known q.active))
  have hknown := hages.known (active_known q.active)
  by_cases hact : t.active h = true
  · have hstarts := Nat.le_trans q.starts hages.starts
    by_cases hthread : a = .thread
    · subst hthread
      rw [if_pos rfl]
      rcases q.thread ht with hs | ⟨hq, hr⟩
      · exact .inl ⟨q.ok.step ht, hknown, .inl hs⟩
      · exact .inr ⟨⟨q.ok.step ht, hact, hstarts, hq⟩, hr⟩
    · rw [if_neg hthread, Nat.add_zero]
      have hpc := (queue_step hthread ht).1
      refine .inr ⟨⟨q.ok.step ht, hact, hstarts, ?_⟩, ?_⟩
      · rcases q.queue with hq | hq
        · exact .inl (queue_keeps hthread ht q.active hq).1
        · exact .inr (hpc.trans hq)
      · unfold Bus.rank
        rw [hpc]
        rcases q.queue with hq | hq
        · have := (queue_keeps hthread ht q.active hq).2
          cases s.thread with
          | dequeued g =>
            by_cases e : g = h
            · simp [e]
            · simp only [e, if_false]
              omega
          | _ =>
            simp only
            omega
        · rw [hq]
          simp
  · exact .inl ⟨q.ok.step ht, hknown, .inr (by simpa using hact)⟩

theorem rank_pos (s : Bus) (h : Nat) : 0 < s.rank h := by
  unfold Bus.rank
  split
  all_goals try split
  all_goals omega

/-- A trigger queues the watch, or it was queued, or its event is set. -/
theorem WatchOk.triggered (ok : WatchOk s) (hact : s.active h = true) :
    h ∈ (s.trigger h).pending ∨ (s.handler h).starts < ((s.trigger h).handler h).starts := by
  have hlinked : (s.handler h).phase.linked = true := by
    rcases active_iff.mp hact with e | e <;> rw [e] <;> rfl
  unfold Bus.trigger
  split
  · next hq => exact .inl ((ok.own h).flag hlinked hq)
  · split
    · refine .inr ?_
      change _ < (update s.handler h _ h).starts
      rw [update_self]
      exact Nat.lt_succ_self _
    · exact .inl (List.mem_append_right _ (List.mem_singleton.mpr rfl))

/-- After a trigger, enough steps of the watch thread start the callback. -/
theorem WatchOk.serves {n : Nat} {acts : List Act} (ok : WatchOk s)
    (hknown : (s.handler h).phase ≠ .unused) (hn : n ≤ (s.handler h).starts)
    (htr : h ∈ s.pending ∨ n < (s.handler h).starts)
    (hr : watchMachine.runFrom Machine.Any s acts = some t) (hact' : t.active h = true)
    (hsteps : s.rank h ≤ acts.countP (· = .thread)) : n < (t.handler h).starts := by
  have hend : Served n h t := by
    have hrun : Served n h s → Served n h t := fun hd =>
      Machine.runFrom_inv (I := Served n h) (fun _ _ _ h' _ ht => h'.step ht) hd hr
    by_cases hact : s.active h = true
    · rcases htr with hp | hs
      · have hq : Queued n h s := ⟨ok, hact, hn, .inl hp⟩
        have hrank := Machine.runFrom_rank (P := Queued n h) (Q := Served n h)
          (r := fun s => s.rank h) (p := fun a => decide (a = .thread))
          (fun _ _ _ h' _ ht => h'.step ht) (fun _ _ _ q _ ht => by simpa using q.step ht) hq hr
        rcases hrank with hd | ⟨-, hle⟩
        · exact hd
        · have := rank_pos t h
          omega
      · exact hrun ⟨ok, hknown, .inl hs⟩
    · exact hrun ⟨ok, hknown, .inr (by simpa using hact)⟩
  rcases hend.served with hs | hs
  · exact hs
  · rw [hact'] at hs
    cases hs

/-- A handler that was freed is left alone. -/
theorem WatchOk.closed_run {acts : List Act} (ok : WatchOk s)
    (hp : (s.handler h).phase = .returned)
    (hr : watchMachine.runFrom Machine.Any s acts = some t) :
    (t.handler h).starts = (s.handler h).starts ∧ t.thread.holds h = 0 := by
  have hinv : WatchOk t ∧ (t.handler h).phase ≠ .unused ∧ (t.handler h).phase.closed = true ∧
      (t.handler h).starts = (s.handler h).starts := by
    refine Machine.runFrom_inv (I := fun t => WatchOk t ∧ (t.handler h).phase ≠ .unused ∧
      (t.handler h).phase.closed = true ∧ (t.handler h).starts = (s.handler h).starts) ?_ ?_ hr
    · rintro u a v ⟨hu, hknown, hc, hs⟩ - ht
      have hages := ages_step hu ht (hu.known hknown)
      exact ⟨hu.step ht, hages.known hknown, (hages.closed hc).1, (hages.closed hc).2.trans hs⟩
    · exact ⟨ok, by rw [hp]; simp, by rw [hp]; rfl, rfl⟩
  obtain ⟨ht, -, hc, hs⟩ := hinv
  have := (ht.own h).clear hc
  unfold Bus.refs at this
  exact ⟨hs, by omega⟩

theorem WatchOk.no_passes (ok : WatchOk s) (hr : s.resumed = false) (h : Nat) :
    s.passes h = 0 := by
  refine List.sum_eq_zero fun n hn => ?_
  obtain ⟨k, hk, rfl⟩ := List.mem_map.mp hn
  have := ok.settled hr k hk
  cases k with
  | done | redirect => rfl
  | _ => cases this

end Progress

/-! ## Runs -/

/-- In every run: once `xenbus_unregister_watch` has returned, the callback does not run and is never
started again; a trigger that comes before `xenbus_unregister_watch` was called is followed by a
start of the callback after at most `rank` steps of the watch thread, unless it is called in the
meantime, and the watch thread can take a step whenever a watch is queued; and the reference count is
one for being queued, one for running, and one for each pass of `reregister_all_watches` or
`xenbus_recover_from_s3` that works on the handler; there is none before the first suspend. -/
theorem watch_lifetime {s : Bus} (hr : Machine.Reach watchMachine Machine.Any s) :
    (∀ h, (s.handler h).phase = .returned →
      ∀ acts t, watchMachine.runFrom Machine.Any s acts = some t →
        (t.handler h).starts = (s.handler h).starts ∧ t.thread.holds h = 0) ∧
    (∀ h a u, s.active h = true → (a = .fire h ∨ ∃ ok, a = .call (.faulty h) ok) →
      s.step a = some u →
      ∀ acts t, watchMachine.runFrom Machine.Any u acts = some t → t.active h = true →
        u.rank h ≤ acts.countP (· = .thread) → (s.handler h).starts < (t.handler h).starts) ∧
    (s.pending ≠ [] → s.threadStep.isSome = true) ∧
    ∀ h, (s.handler h).refcount =
        (((if h ∈ s.pending then 1 else 0) + s.thread.holds h + s.passes h : Nat) : Int) ∧
      (s.resumed = false → s.passes h = 0) := by
  have ok : WatchOk s := hr.inv watchOk_init fun _ _ _ h _ ht => h.step ht
  refine ⟨fun h hp acts t => ok.closed_run hp, fun h a u hact ha hu acts t hrun hact' hsteps => ?_,
    fun hne => ?_, fun h => ⟨(ok.own h).refcount, fun hres => ok.no_passes hres h⟩⟩
  · have hlist : h ∈ s.list := by
      rw [(ok.own h).list]
      rcases active_iff.mp hact with e | e <;> rw [e] <;> rfl
    have hknown : h < s.count := ok.known (active_known hact)
    have hu' := ok.step hu
    have hages := ages_step ok hu hknown
    -- both actions trigger the watch
    have htr : h ∈ u.pending ∨ (s.handler h).starts < (u.handler h).starts := by
      rcases ha with rfl | ⟨ok', rfl⟩
      · simp only [Bus.step, hlist, if_true, Option.some.injEq] at hu
        rw [← hu]
        exact ok.triggered hact
      · simp only [Bus.step] at hu
        split at hu
        · cases hu
          exact ok.triggered hact
        · cases hu
    exact hu'.serves (hages.known (active_known hact)) hages.starts htr hrun hact' hsteps
  · unfold Bus.threadStep
    split
    · next hpc => rw [if_pos (ok.wake hne hpc)]; rfl
    · rfl
    · split <;> rfl
    all_goals rfl

/-- A watch fires, its callback runs and it is unregistered meanwhile. -/
theorem watch_lifetime_run :
    ∃ s, Machine.Reach watchMachine Machine.Any s ∧ (s.handler 0).phase = .returned ∧
      (s.handler 0).starts = 1 ∧ (s.handler 0).refcount = 0 ∧
      ∀ acts t, watchMachine.runFrom Machine.Any s acts = some t → (t.handler 0).starts = 1 := by
  obtain ⟨s, hr, hs⟩ :=
    Machine.exists_reach watchMachine Machine.Any
      (fun s => decide ((s.handler 0).phase = .returned ∧ (s.handler 0).starts = 1 ∧
        0 ∉ s.pending ∧ s.thread = .drain ∧ s.resumed = false))
      [.watchPath "control/shutdown" false, .fire 0, .registered 0 true, .thread, .thread, .thread,
        .thread, .fire 0, .unregister 0, .unregistering 0, .unregistering 0, .thread, .thread,
        .unregistering 0, .unregistering 0, .unregistering 0]
      (by decide +kernel)
  obtain ⟨h1, h2, h3, h4, h5⟩ := of_decide_eq_true hs
  obtain ⟨hret, -, -, href⟩ := watch_lifetime hr
  refine ⟨s, hr, h1, h2, ?_, fun acts t ht => ?_⟩
  · rw [(href 0).1, (href 0).2 h5, h4, if_neg h3]
    rfl
  · rw [(hret 0 h1 acts t ht).1, h2]

/-- A redirection that fails after a suspend registers the watch again, with a reference of its
own. -/
theorem watch_reference_of_pass :
    ∃ s, Machine.Reach watchMachine Machine.Any s ∧ (s.handler 0).refcount = 1 ∧
      s.pending = [] ∧ s.thread = .wait := by
  obtain ⟨s, hr, hs⟩ :=
    Machine.exists_reach watchMachine Machine.Any
      (fun s => decide ((s.handler 0).refcount = 1 ∧ s.pending = [] ∧ s.thread = .wait))
      [.watchPath "device/vbd/768" false, .registered 0 true, .resumeEarly, .redirect 0 "device/vbd/832",
        .call (.redirect 0 "device/vbd/768" false) false, .call .reregister true]
      (by decide +kernel)
  exact ⟨s, hr, of_decide_eq_true hs⟩

end XcWindows.Xenbus.Watch
