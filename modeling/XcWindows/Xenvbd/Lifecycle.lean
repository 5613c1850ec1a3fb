import XcWindows.Xenvbd.Targets

/-!
# Every target is kept or destroyed

`Kept` says where each target is: in `XenvbdTargetInfo`, in the hands of a scan that is going to
destroy it, or destroyed. Outside of a scan no target in the table is condemned, and in a scan only
one is. It is kept by all steps that are `Disposable`: those in which an extraction leaves no
condemned target behind, and in which a target is not started when a scan gets to destroying it.
-/

namespace XcWindows.Xenvbd.Targets

open XcWindows.Lib
open Function (update_of_ne update_self)

/-- What a scan is going to destroy next. -/
def Scan.hand : Scan → Option Nat
  | .destroying list => list
  | .waiting t _ => some t
  | _ => none

namespace State

/-- The target that a scan is going to destroy next. -/
def hand (s : State) (n : Nat) : Option Nat := (s.scan n).hand

/-- The target is in `XenvbdTargetInfo`. -/
def Listed (s : State) (t : Nat) : Prop := ∃ i, s.info i = some t

end State

structure Kept (s : State) : Prop where
  alive : s.crashed ≠ some .condemned
  bound : ∀ {i t}, s.info i = some t → i < maxDisks ∧ t < s.created
  inj : ∀ {i j t}, s.info i = some t → s.info j = some t → i = j
  lock : ∀ n, (s.scan n).enumerates = true ↔ s.enumLock = some n
  clear : (∀ n, s.scan n ≠ .extracting) → ∀ t, s.Listed t → (s.target t).condemned = false
  one : ∀ {t u}, s.Listed t → s.Listed u → (s.target t).condemned = true →
    (s.target u).condemned = true → t = u
  hand : ∀ {n t}, s.hand n = some t →
    t < s.created ∧ ¬s.Listed t ∧ t ∉ s.destroyed ∧ (s.target t).next = none
  handInj : ∀ {n m t}, s.hand n = some t → s.hand m = some t → n = m
  single : ∀ {n t list}, s.scan n = .waiting t list → list = none
  nodup : s.destroyed.Nodup
  destroyed : ∀ {t}, t ∈ s.destroyed → t < s.created ∧ ¬s.Listed t
  everywhere : ∀ t < s.created, s.Listed t ∨ (∃ n, s.hand n = some t) ∨ t ∈ s.destroyed

/-- A step that condemns, extracts and destroys nothing, and links no target that was extracted. -/
structure Same (s t : State) : Prop where
  crashed : t.crashed = s.crashed
  info : t.info = s.info
  created : t.created = s.created
  enumLock : t.enumLock = s.enumLock
  scan : t.scan = s.scan
  destroyed : t.destroyed = s.destroyed
  condemned : ∀ x, (t.target x).condemned = (s.target x).condemned
  next : ∀ x, ¬s.Listed x → (s.target x).next = none → (t.target x).next = none

section Same
variable {s t u : State}

theorem Same.refl (s : State) : Same s s :=
  ⟨rfl, rfl, rfl, rfl, rfl, rfl, fun _ => rfl, fun _ _ h => h⟩

theorem Same.trans (h : Same s t) (h' : Same t u) : Same s u := by
  refine ⟨h'.crashed.trans h.crashed, h'.info.trans h.info, h'.created.trans h.created,
    h'.enumLock.trans h.enumLock, h'.scan.trans h.scan, h'.destroyed.trans h.destroyed,
    fun x => (h'.condemned x).trans (h.condemned x), fun x hx hn => h'.next x ?_ (h.next x hx hn)⟩
  rwa [State.Listed, h.info]

theorem Same.setTarget (x : Nat) (T : TargetInfo) (hc : T.condemned = (s.target x).condemned)
    (hn : ¬s.Listed x → (s.target x).next = none → T.next = none) : Same s (s.setTarget x T) := by
  refine ⟨rfl, rfl, rfl, rfl, rfl, rfl, fun y => ?_, fun y hy hn' => ?_⟩
  · by_cases e : y = x
    · subst e
      simpa [State.setTarget] using hc
    · simp [State.setTarget, update_of_ne e]
  · by_cases e : y = x
    · subst e
      simpa [State.setTarget] using hn hy hn'
    · simpa [State.setTarget, update_of_ne e] using hn'

/-- A change of other fields of a target. -/
theorem Same.update (x : Nat) (T : TargetInfo) (hc : T.condemned = (s.target x).condemned)
    (hn : T.next = (s.target x).next) : Same s (s.setTarget x T) :=
  .setTarget x T hc fun _ h => hn.trans h

theorem Same.calls (h : Same s t) (c : List Call) : Same s { t with calls := c } := { h with }

theorem Same.begin (h : Same s t) (c : Call) : Same s (t.begin c) := h.calls _

theorem same_reference (x : Nat) : Same s (s.reference x) := .update x _ rfl rfl

theorem same_dereference (x : Nat) : Same s (s.dereference x) := .update x _ rfl rfl

theorem same_suspendTarget (x : Nat) : Same s (s.suspendTarget x) := .update x _ rfl rfl

theorem same_markResuming (x : Nat) : Same s (s.markResuming x) := .update x _ rfl rfl

/-- A loop over the slots each turn of which is such a step. -/
theorem same_foldl {f : State → Nat → State} (hf : ∀ s i, Same s (f s i)) (l : List Nat) :
    Same s (l.foldl f s) := by
  induction l generalizing s with
  | nil => exact .refl s
  | cons i l ih => exact (hf s i).trans ih

theorem same_markPending : Same s s.markPending := by
  refine same_foldl (fun s i => ?_) slots
  split
  · exact .update _ _ rfl rfl
  · exact .refl s

theorem same_stopAdapter : Same s s.stopAdapter := by
  refine same_foldl (fun s i => ?_) slots
  split
  · exact same_suspendTarget _
  · exact .refl s

theorem same_resumeTarget {x : Nat} (h : s.resumeTarget x = .ok t) : Same s t := by
  obtain ⟨-, h⟩ := xmAssert_bind_ok h
  cases h
  exact (Same.update x { s.target x with resuming := false, resumed := true } rfl rfl).trans
    (same_dereference x)

theorem same_release {x : Nat} (h : s.release x = .ok t) : Same s t := by
  obtain ⟨-, h⟩ := xmAssert_bind_ok h
  cases h
  exact same_dereference x

theorem same_resumeAllMark {l : List Nat} {list list' : Option Nat}
    (h : State.resumeAllMark l s list = .ok (t, list')) : Same s t := by
  induction l generalizing s list with
  | nil =>
    cases h
    exact .refl _
  | cons i l ih =>
    rw [State.resumeAllMark] at h
    split at h
    · exact ih h
    · next x hx =>
      split at h
      · obtain ⟨-, h⟩ := xmAssert_bind_ok h
        refine (same_markResuming x).trans (Same.trans ?_ (ih h))
        exact .setTarget x _ rfl fun hn => absurd ⟨i, hx⟩ hn
      · exact ih h

theorem same_irpProcess {x : Nat} {ok : Bool} {minor : Minor}
    (h : s.irpProcess x ok minor = .ok t) : Same s t := by
  cases minor with
  | startDevice =>
    obtain ⟨-, h⟩ := xmAssert_bind_ok h
    cases h
    split
    · exact .update x _ rfl rfl
    · exact .refl s
  | stopDevice => cases h; exact .update x _ rfl rfl
  | removeDevice => cases h; exact .update x _ rfl rfl
  | eject => cases h; exact .update x _ rfl rfl
  | surpriseRemoval =>
    obtain ⟨-, h⟩ := xmAssert_bind_ok h
    cases h
    exact .update x _ rfl rfl
  | queryId => cases h; exact .refl s
  | queryCapabilities => cases h; exact .refl s
  | cancelRemoveDevice => cases h; exact .refl s
  | deviceUsageNotification => cases h; exact .refl s

theorem same_advance {ok : Bool} {c : Call} (h : s.advance ok c = some (.ok t)) : Same s t := by
  cases c with
  | irp minor x done =>
    cases done with
    | false =>
      obtain ⟨u, hu, h⟩ := bind_ok (Option.some.inj h)
      cases h
      exact (same_irpProcess hu).begin _
    | true =>
      cases h
      exact same_dereference x
  | backendStateChanged x =>
    cases h
    exact same_dereference x
  | targetStart x done =>
    cases done with
    | false =>
      obtain ⟨-, h⟩ := xmAssert_bind_ok (Option.some.inj h)
      cases h
      split
      · exact (Same.update x { s.target x with started := true } rfl rfl).begin _
      · exact (Same.refl s).begin _
    | true => exact same_release (Option.some.inj h)
  | targetStop x done =>
    cases done with
    | false =>
      cases h
      exact (Same.update x { s.target x with started := false } rfl rfl).begin _
    | true => exact same_release (Option.some.inj h)
  | targetResume x stage =>
    cases stage with
    | marked =>
      obtain ⟨-, h⟩ := xmAssert_bind_ok (Option.some.inj h)
      cases h
      exact (Same.refl s).begin _
    | running =>
      obtain ⟨u, hu, h⟩ := bind_ok (Option.some.inj h)
      cases h
      exact (same_resumeTarget hu).begin _
    | waiting =>
      rw [State.advance] at h
      split at h
      · cases h
      · cases h
        exact (Same.refl s).begin _
    | done => exact same_release (Option.some.inj h)
  | targetLateResume x stage =>
    cases stage with
    | marked =>
      obtain ⟨-, h⟩ := xmAssert_bind_ok (Option.some.inj h)
      cases h
      exact (Same.refl s).begin _
    | running => exact same_resumeTarget (Option.some.inj h)
    | waiting => cases h
    | done => cases h

theorem same_filterCall {i : Nat} {f : State → Nat → State} (hf : ∀ s x, Same s (f s x))
    (h : s.filterCall i f = .ok t) : Same s t := by
  unfold State.filterCall at h
  split at h
  · cases h
  · next x _ =>
    cases h
    exact (same_reference x).trans (hf _ x)

theorem same_irpBegin {d : Nat} {minor : Minor} (h : s.irpBegin d minor = .ok t) : Same s t := by
  unfold State.irpBegin at h
  split at h
  · cases h
    exact .refl _
  · next x found _ =>
    obtain ⟨-, h⟩ := xmAssert_bind_ok h
    cases h
    refine Same.begin ?_ _
    split
    · exact same_reference x
    · exact .refl _

/-- The actions of a scan. -/
def Act.scans : Act → Bool
  | .scanBegin .. | .scanEntry .. | .scanOut _ | .scanCheck _ | .scanMerge .. | .scanExtract _
  | .scanDestroy _ | .scanFree _ => true
  | _ => false

/-- What is not a scan leaves the targets where they are. -/
theorem same_act {a : Act} (ha : a.scans = false) (h : act s a = some (.ok t)) : Same s t := by
  cases a with
  | scanBegin | scanEntry | scanOut | scanCheck | scanMerge | scanExtract | scanDestroy | scanFree =>
    cases ha
  | mapDeviceObject d i =>
    simp only [act, Option.some.injEq, State.mapDeviceObject] at h
    split at h
    · cases h
      exact .refl _
    · obtain ⟨-, h⟩ := xmAssert_bind_ok h
      cases h
      exact .update _ _ rfl rfl
  | irp d minor => exact same_irpBegin (Option.some.inj h)
  | backendStateChanged i =>
    simp only [act] at h
    split at h
    · cases h
    · next x _ =>
      split at h
      · cases h
      · cases h
        exact (same_reference x).begin _
  | targetStart i => exact same_filterCall (fun s _ => (Same.refl s).begin _) (Option.some.inj h)
  | targetStop i => exact same_filterCall (fun s _ => (Same.refl s).begin _) (Option.some.inj h)
  | targetResume i =>
    refine same_filterCall (fun s x => ?_) (Option.some.inj h)
    split
    · exact (same_markResuming x).begin _
    · exact (Same.refl s).begin _
  | call c ok =>
    obtain ⟨-, h⟩ := Option.ite_none_right_eq_some.mp h
    exact ((Same.refl s).calls _).trans (same_advance h)
  | stopAdapter =>
    simp only [act, Option.some.injEq, Except.ok.injEq] at h
    rw [← h]
    exact same_stopAdapter
  | targetEarlyResume x =>
    obtain ⟨-, h⟩ := Option.ite_none_right_eq_some.mp h
    cases h
    exact same_suspendTarget x
  | targetLateResume x =>
    obtain ⟨-, h⟩ := Option.ite_none_right_eq_some.mp h
    cases h
    split
    · exact (same_markResuming x).begin _
    · exact .refl _
  | resumeAll =>
    simp only [act] at h
    split at h
    · obtain ⟨⟨u, list⟩, hu, h⟩ := bind_ok (Option.some.inj h)
      cases h
      exact { same_resumeAllMark hu with }
    · cases h
  | resumeAllNext =>
    simp only [act] at h
    split at h
    · cases h
      exact { Same.refl s with }
    · next x _ =>
      cases h
      exact { Same.setTarget (s := s) x { s.target x with next := none } rfl
        (fun _ _ => rfl) with }
    · obtain ⟨-, h⟩ := xmAssert_bind_ok (Option.some.inj h)
      cases h
      exact { Same.refl s with }
    · cases h
  | resumeAllEnd =>
    simp only [act] at h
    split at h
    · obtain ⟨u, hu, h⟩ := bind_ok (Option.some.inj h)
      cases h
      exact { same_resumeTarget hu with }
    · cases h

theorem Kept.same (h : Kept s) (hs : Same s t) : Kept t := by
  have hl : ∀ x, t.Listed x ↔ s.Listed x := fun x => by
    rw [State.Listed, State.Listed, hs.info]
  have hh : ∀ n, t.hand n = s.hand n := fun n => by
    rw [State.hand, State.hand, hs.scan]
  constructor
  case alive =>
    rw [hs.crashed]
    exact h.alive
  case bound =>
    intro i x hx
    rw [hs.info] at hx
    rw [hs.created]
    exact h.bound hx
  case inj =>
    intro i j x hi hj
    rw [hs.info] at hi hj
    exact h.inj hi hj
  case lock =>
    intro n
    rw [hs.scan, hs.enumLock]
    exact h.lock n
  case clear =>
    intro hx x hm
    rw [hs.scan] at hx
    rw [hs.condemned]
    exact h.clear hx x ((hl x).mp hm)
  case one =>
    intro x y hx hy hcx hcy
    rw [hs.condemned] at hcx hcy
    exact h.one ((hl x).mp hx) ((hl y).mp hy) hcx hcy
  case hand =>
    intro n x hx
    rw [hh] at hx
    obtain ⟨h1, h2, h3, h4⟩ := h.hand hx
    rw [hs.created, hl, hs.destroyed]
    exact ⟨h1, h2, h3, hs.next x h2 h4⟩
  case handInj =>
    intro n m x hn hm
    rw [hh] at hn hm
    exact h.handInj hn hm
  case single =>
    intro n x list hx
    rw [hs.scan] at hx
    exact h.single hx
  case nodup =>
    rw [hs.destroyed]
    exact h.nodup
  case destroyed =>
    intro x hx
    rw [hs.destroyed] at hx
    rw [hs.created, hl]
    exact h.destroyed hx
  case everywhere =>
    intro x hx
    rw [hs.created] at hx
    simp only [hl, hh, hs.destroyed]
    exact h.everywhere x hx

end Same

/-! ## Scans -/

section Scans
variable {s t : State} {n : Nat}

theorem scan_setScan_self (p : Scan) : (s.setScan n p).scan n = p := update_self ..

theorem scan_setScan_of_ne (p : Scan) {m : Nat} (h : m ≠ n) : (s.setScan n p).scan m = s.scan m :=
  update_of_ne h ..

/-- A scan goes on with what it has in its hands. -/
theorem hand_setScan {p : Scan} (h : (s.setScan n p).hand n = s.hand n) (m : Nat) :
    (s.setScan n p).hand m = s.hand m := by
  by_cases e : m = n
  · rw [e, h]
  · simp [State.hand, State.setScan, update_of_ne e]

theorem hand_of_enumerates (h : (s.scan n).enumerates = true) : s.hand n = none := by
  unfold State.hand
  cases e : s.scan n with
  | destroying list => rw [e] at h; cases h
  | waiting x list => rw [e] at h; cases h
  | idle | reading | merging | extracting => rfl

/-- A scan takes `XenvbdEnumLock`, or goes on with it. -/
theorem Kept.goOn {p : Scan} (h : Kept s)
    (hn : s.enumLock = none ∧ s.scan n = .idle ∨ s.enumLock = some n) (hp : p.enumerates = true)
    (hc : p ≠ .extracting → ∀ x, s.Listed x → (s.target x).condemned = false) :
    Kept { s.setScan n p with enumLock := some n } := by
  have h0 : s.hand n = none := by
    rcases hn with ⟨-, e⟩ | e
    · exact congrArg Scan.hand e
    · exact hand_of_enumerates ((h.lock n).mpr e)
  have hpn : (s.setScan n p).hand n = none :=
    hand_of_enumerates (by rwa [scan_setScan_self])
  have hh : ∀ m, State.hand { s.setScan n p with enumLock := some n } m = s.hand m :=
    hand_setScan (hpn.trans h0.symm)
  constructor
  case alive => exact h.alive
  case bound => exact h.bound
  case inj => exact h.inj
  case lock =>
    intro m
    by_cases e : m = n
    · subst e
      exact ⟨fun _ => rfl, fun _ => by rw [← hp]; exact congrArg _ (scan_setScan_self p)⟩
    · have hm : s.enumLock ≠ some m := by
        rcases hn with ⟨hn, -⟩ | hn <;> rw [hn]
        · nofun
        · exact fun he => e (Option.some.inj he).symm
      have := (h.lock m).not.mpr hm
      constructor
      · intro he
        exact absurd ((congrArg Scan.enumerates (scan_setScan_of_ne p e)).symm.trans he) this
      · intro he
        exact absurd (Option.some.inj he).symm e
  case clear =>
    intro hx
    exact hc fun e => hx n ((scan_setScan_self p).trans e)
  case one => exact h.one
  case hand =>
    intro m x hm
    rw [hh] at hm
    exact h.hand hm
  case handInj =>
    intro m k x hm hk
    rw [hh] at hm hk
    exact h.handInj hm hk
  case single =>
    intro m x list hm
    by_cases e : m = n
    · subst e
      rw [show State.scan _ m = p from scan_setScan_self p] at hm
      rw [hm] at hp
      cases hp
    · exact h.single ((scan_setScan_of_ne p e).symm.trans hm)
  case nodup => exact h.nodup
  case destroyed => exact h.destroyed
  case everywhere =>
    intro x hx
    simp only [hh]
    exact h.everywhere x hx

theorem Kept.goOn_locked {p : Scan} (h : Kept s) (hn : s.enumLock = some n)
    (hp : p.enumerates = true)
    (hc : p ≠ .extracting → ∀ x, s.Listed x → (s.target x).condemned = false) :
    Kept (s.setScan n p) := by
  have := h.goOn (.inr hn) hp hc
  rwa [← hn] at this

/-- Up to the check no target is condemned. -/
theorem Kept.clear_of_scan {p : Scan} (h : Kept s) (hp : s.scan n = p) (he : p.enumerates = true)
    (hne : p ≠ .extracting) : ∀ x, s.Listed x → (s.target x).condemned = false := by
  apply h.clear
  intro m hm
  have hn := (h.lock n).mp (by rw [hp, he])
  have hm' := (h.lock m).mp (by rw [hm]; rfl)
  obtain rfl := Option.some.inj (hn.symm.trans hm')
  exact hne (hp.symm.trans hm)

/-- A scan condemns a target. -/
theorem Kept.condemn {x : Nat} (h : Kept s) (hn : s.scan n = .extracting)
    (hc : ∀ y, s.Listed y → (s.target y).condemned = false) :
    Kept (s.setTarget x { s.target x with condemned := true }) := by
  have hcond : ∀ y, s.Listed y → ((s.setTarget x { s.target x with condemned := true }).target
      y).condemned = true → y = x := by
    intro y hy e
    by_contra hne
    rw [show (s.setTarget x _).target y = s.target y from update_of_ne hne ..,
      hc y hy] at e
    cases e
  refine { h with clear := fun hx => absurd hn (hx n), one := ?_, hand := ?_ }
  · intro y z hy hz hcy hcz
    rw [hcond y hy hcy, hcond z hz hcz]
  · intro m y hm
    obtain ⟨h1, h2, h3, h4⟩ := h.hand hm
    refine ⟨h1, h2, h3, ?_⟩
    by_cases e : y = x
    · subst e
      simpa [State.setTarget] using h4
    · simpa [State.setTarget, update_of_ne e] using h4

/-- The pass gets through, takes note of something, or condemns a target. -/
theorem statePass_cases (hc : ∀ x, s.Listed x → (s.target x).condemned = false) (l : List Nat) :
    s.statePass l = .ok none ∨ (∃ t, s.statePass l = .ok (some t) ∧ Same s t) ∨
      ∃ x, s.statePass l = .ok (some (s.setTarget x { s.target x with condemned := true })) := by
  induction l with
  | nil => exact .inl rfl
  | cons i l ih =>
    rw [State.statePass]
    split
    · exact ih
    · next x hx =>
      dsimp only
      rw [xmAssert_bind (by simp [hc x ⟨i, hx⟩])]
      split
      · exact .inr (.inr ⟨x, rfl⟩)
      · split
        · exact .inr (.inr ⟨x, rfl⟩)
        · split
          · exact .inr (.inr ⟨x, rfl⟩)
          · split
            · exact .inr (.inl ⟨s, rfl, .refl s⟩)
            · split
              · exact .inr (.inl ⟨_, rfl, .update x _ rfl rfl⟩)
              · split
                · exact .inr (.inl ⟨_, rfl, .update x _ rfl rfl⟩)
                · exact ih

theorem Kept.check {newDisks : List Nat} {r : Except Crash State} (h : Kept s)
    (hn : s.scan n = .reading newDisks) (hr : s.check n newDisks = r) : ∃ t, r = .ok t ∧ Kept t := by
  have hc := h.clear_of_scan hn rfl (by nofun)
  have hl := (h.lock n).mp (by rw [hn]; rfl)
  subst hr
  unfold State.check
  rcases statePass_cases hc slots with e | ⟨t, e, ht⟩ | ⟨x, e⟩
  · rw [e]
    refine ⟨_, rfl, h.goOn_locked hl ?_ fun _ => hc⟩
    split <;> rfl
  · rw [e]
    refine ⟨_, rfl, (h.same ht).goOn_locked (ht.enumLock.trans hl) rfl (by simp)⟩
  · rw [e]
    refine ⟨_, rfl, ?_⟩
    exact (h.goOn_locked (p := .extracting) hl rfl (by simp)).condemn (scan_setScan_self _) hc

theorem findSlot_some {path i : Nat} {l : List Nat} (h : s.findSlot path l = .ok (some i)) :
    s.info i = none ∧ i ∈ l := by
  induction l with
  | nil => cases h
  | cons j l ih =>
    rw [State.findSlot] at h
    split at h
    · next hj =>
      cases h
      exact ⟨hj, List.mem_cons_self⟩
    · obtain ⟨-, h⟩ := xmAssert_bind_ok h
      obtain ⟨h1, h2⟩ := ih h
      exact ⟨h1, List.mem_cons_of_mem _ h2⟩

theorem Kept.setupTarget {i path : Nat} (h : Kept s) (hi : s.info i = none) (hlt : i < maxDisks) :
    Kept (s.setupTarget i path) := by
  have hinfo : ∀ {j x}, (s.setupTarget i path).info j = some x →
      j = i ∧ x = s.created ∨ j ≠ i ∧ s.info j = some x := by
    intro j x hj
    by_cases e : j = i
    · subst e
      rw [show (s.setupTarget j path).info j = some s.created from update_self ..] at hj
      exact .inl ⟨rfl, (Option.some.inj hj).symm⟩
    · rw [show (s.setupTarget i path).info j = s.info j from update_of_ne e ..] at hj
      exact .inr ⟨e, hj⟩
  have hlist : ∀ {x}, (s.setupTarget i path).Listed x → x = s.created ∨ s.Listed x := by
    rintro x ⟨j, hj⟩
    rcases hinfo hj with ⟨-, e⟩ | ⟨-, hj⟩
    · exact .inl e
    · exact .inr ⟨j, hj⟩
  have hold : ∀ {x}, s.Listed x → (s.setupTarget i path).Listed x := by
    rintro x ⟨j, hj⟩
    refine ⟨j, ?_⟩
    have e : j ≠ i := fun e => by
      rw [e, hi] at hj
      cases hj
    rw [← hj]
    exact update_of_ne e ..
  have htar : ∀ {x}, x ≠ s.created → (s.setupTarget i path).target x = s.target x :=
    fun hx => update_of_ne hx ..
  have hnew : ((s.setupTarget i path).target s.created).condemned = false := by
    rw [show (s.setupTarget i path).target s.created = _ from update_self ..]
  constructor
  case alive => exact h.alive
  case bound =>
    intro j x hj
    rcases hinfo hj with ⟨rfl, rfl⟩ | ⟨-, hj⟩
    · exact ⟨hlt, Nat.lt_succ_self _⟩
    · exact ⟨(h.bound hj).1, Nat.lt_succ_of_lt (h.bound hj).2⟩
  case inj =>
    intro j k x hj hk
    rcases hinfo hj with ⟨ej, hxj⟩ | ⟨-, hj'⟩ <;> rcases hinfo hk with ⟨ek, hxk⟩ | ⟨-, hk'⟩
    · rw [ej, ek]
    · exact absurd (hxj ▸ (h.bound hk').2) (Nat.lt_irrefl _)
    · exact absurd (hxk ▸ (h.bound hj').2) (Nat.lt_irrefl _)
    · exact h.inj hj' hk'
  case lock => exact h.lock
  case clear =>
    intro hx x hl
    by_cases e : x = s.created
    · rw [e, hnew]
    · rw [htar e]
      exact h.clear hx x ((hlist hl).resolve_left e)
  case one =>
    intro x y hx hy hcx hcy
    have hxe : x ≠ s.created := fun e => by
      rw [e, hnew] at hcx
      cases hcx
    have hye : y ≠ s.created := fun e => by
      rw [e, hnew] at hcy
      cases hcy
    rw [htar hxe] at hcx
    rw [htar hye] at hcy
    exact h.one ((hlist hx).resolve_left hxe) ((hlist hy).resolve_left hye) hcx hcy
  case hand =>
    intro m x hm
    obtain ⟨h1, h2, h3, h4⟩ := h.hand hm
    have e : x ≠ s.created := Nat.ne_of_lt h1
    refine ⟨Nat.lt_succ_of_lt h1, fun hl => h2 ((hlist hl).resolve_left e), h3, ?_⟩
    rwa [htar e]
  case handInj => exact h.handInj
  case single => exact h.single
  case nodup => exact h.nodup
  case destroyed =>
    intro x hx
    obtain ⟨h1, h2⟩ := h.destroyed hx
    exact ⟨Nat.lt_succ_of_lt h1, fun hl => h2 ((hlist hl).resolve_left (Nat.ne_of_lt h1))⟩
  case everywhere =>
    intro x hx
    rcases Nat.lt_succ_iff_lt_or_eq.mp hx with hx | rfl
    · rcases h.everywhere x hx with hl | hr
      · exact .inl (hold hl)
      · exact .inr hr
    · exact .inl ⟨i, update_self ..⟩

theorem Kept.merge {path : Nat} {newDisks : List Nat} {ok : Bool} (h : Kept s)
    (hn : s.scan n = .merging (path :: newDisks)) (hr : s.merge n path newDisks ok = .ok t) :
    Kept t := by
  have hc := h.clear_of_scan hn rfl (by nofun)
  have hl := (h.lock n).mp (by rw [hn]; rfl)
  have hrest : Scan.enumerates (if newDisks = [] then .extracting else .merging newDisks) = true := by
    split <;> rfl
  unfold State.merge at hr
  obtain ⟨slot, hs, hr⟩ := bind_ok hr
  cases slot with
  | none =>
    cases hr
    exact h.goOn_locked hl hrest fun _ => hc
  | some i =>
    obtain ⟨hi, hm⟩ := findSlot_some hs
    have hk : Kept (s.setupTarget i path) := h.setupTarget hi (List.mem_range.mp hm)
    cases hr
    split
    · exact hk.goOn_locked hl hrest fun _ => hk.clear_of_scan hn rfl (by nofun)
    · exact h.goOn_locked hl rfl (by simp)

theorem extract_none {l : List Nat} {list : Option Nat}
    (h : ∀ i ∈ l, ∀ x, s.info i = some x → (s.target x).condemned = false) :
    State.extract l s list = .ok (s, list) := by
  induction l with
  | nil => rfl
  | cons i l ih =>
    have ih := ih fun j hj => h j (List.mem_cons_of_mem _ hj)
    rw [State.extract]
    split
    · exact ih
    · next x hx =>
      rw [if_neg (c := (s.target x).condemned = true) (by simp [h i List.mem_cons_self x hx]), ih]
      split <;> rfl

/-- If no condemned target is suspended and there is only one, it is the one that is extracted. -/
theorem extract_cases {l : List Nat} {list : Option Nat} (hk : Kept s)
    (hs : ∀ x, s.Listed x → (s.target x).condemned = true → (s.target x).suspended = false)
    (h : State.extract l s none = .ok (t, list)) :
    (t = s ∧ list = none ∧ ∀ i ∈ l, ∀ x, s.info i = some x → (s.target x).condemned = false) ∨
    ∃ i x, s.info i = some x ∧ (s.target x).condemned = true ∧ list = some x ∧
      t = (s.setInfo i none).setTarget x { s.target x with next := none } := by
  induction l with
  | nil =>
    cases h
    exact .inl ⟨rfl, rfl, fun _ hi => nomatch hi⟩
  | cons i l ih =>
    rw [State.extract] at h
    split at h
    · next hi =>
      rcases ih h with ⟨h1, h2, h3⟩ | h
      · refine .inl ⟨h1, h2, fun j hj x hx => ?_⟩
        rcases List.mem_cons.mp hj with rfl | hj
        · rw [hi] at hx
          cases hx
        · exact h3 j hj x hx
      · exact .inr h
    · next x hx =>
      by_cases hc : (s.target x).condemned = true
      · rw [if_neg (by simp [hs x ⟨i, hx⟩ hc]), if_pos hc] at h
        obtain ⟨-, h⟩ := xmAssert_bind_ok h
        rw [extract_none] at h
        · cases h
          exact .inr ⟨i, x, hx, hc, rfl, rfl⟩
        · intro j _ y hy
          have hij : j ≠ i := fun e => by
            rw [e, show State.info _ i = none from update_self ..] at hy
            cases hy
          rw [show State.info _ j = s.info j from update_of_ne hij ..] at hy
          have hyx : y ≠ x := fun e => hij (hk.inj (e ▸ hy) hx)
          rw [show State.target _ y = s.target y from update_of_ne hyx ..]
          by_contra hcy
          exact hyx (hk.one ⟨j, hy⟩ ⟨i, hx⟩ (by simpa using hcy) hc)
      · rw [if_neg (c := (s.target x).condemned = true) hc, ite_self] at h
        rcases ih h with ⟨h1, h2, h3⟩ | h
        · refine .inl ⟨h1, h2, fun j hj y hy => ?_⟩
          rcases List.mem_cons.mp hj with rfl | hj
          · obtain rfl := Option.some.inj (hx.symm.trans hy)
            simpa using hc
          · exact h3 j hj y hy
        · exact .inr h

/-- The lock is free once the scan is in the destruction loop. -/
theorem Kept.extract_lock {p : Scan} (h : Kept s) (hn : s.scan n = .extracting) (hp : p.enumerates = false)
    (m : Nat) : (Function.update s.scan n p m).enumerates = true ↔ (none : Option Nat) = some m := by
  have hl := (h.lock n).mp (by rw [hn]; rfl)
  by_cases e : m = n
  · subst e
    rw [update_self, hp]
    exact ⟨nofun, nofun⟩
  · rw [update_of_ne e]
    exact ⟨fun he => absurd (Option.some.inj (((h.lock m).mp he).symm.trans hl)) e, nofun⟩

theorem Kept.extract_single {list : Option Nat} (h : Kept s) {m x : Nat} {l : Option Nat}
    (hm : Function.update s.scan n (.destroying list) m = .waiting x l) : l = none := by
  by_cases e : m = n
  · rw [e, update_self] at hm
    cases hm
  · rw [update_of_ne e] at hm
    exact h.single hm

/-- No target is condemned. -/
theorem Kept.extract_none (h : Kept s) (hn : s.scan n = .extracting)
    (hc : ∀ i ∈ slots, ∀ x, s.info i = some x → (s.target x).condemned = false) :
    Kept { s.setScan n (.destroying none) with enumLock := none } := by
  have hn0 : s.hand n = none := hand_of_enumerates (by rw [hn]; rfl)
  have hh : ∀ m, State.hand { s.setScan n (.destroying none) with enumLock := none } m =
      s.hand m := hand_setScan (by rw [hn0, State.hand, scan_setScan_self, Scan.hand])
  refine { h with lock := h.extract_lock hn rfl, clear := ?_, hand := ?_, handInj := ?_, single := h.extract_single,
                  everywhere := ?_ }
  · rintro - x ⟨i, hi⟩
    exact hc i (List.mem_range.mpr (h.bound hi).1) x hi
  · intro m x hm
    rw [hh] at hm
    exact h.hand hm
  · intro m k x hm hk
    rw [hh] at hm hk
    exact h.handInj hm hk
  · intro x hx
    simp only [hh]
    exact h.everywhere x hx

/-- The condemned target `x` is taken out of slot `i`. -/
theorem Kept.extract_one {i x : Nat} (h : Kept s) (hn : s.scan n = .extracting) (hi : s.info i = some x)
    (hcx : (s.target x).condemned = true) :
    Kept { ((s.setInfo i none).setTarget x { s.target x with next := none }).setScan n
      (.destroying (some x)) with enumLock := none } := by
  have hn0 : s.hand n = none := hand_of_enumerates (by rw [hn]; rfl)
  have hinfo : ∀ {j y}, Function.update s.info i none j = some y → s.info j = some y ∧ y ≠ x := by
    intro j y hj
    have e : j ≠ i := fun e => by
      rw [e, update_self] at hj
      cases hj
    rw [update_of_ne e] at hj
    exact ⟨hj, fun hy => e (h.inj (hy ▸ hj) hi)⟩
  have hkeep : ∀ {y}, s.Listed y → y ≠ x → ∃ j, Function.update s.info i none j = some y := by
    rintro y ⟨j, hj⟩ hy
    refine ⟨j, ?_⟩
    have e : j ≠ i := fun e => by
      rw [e, hi] at hj
      exact hy (Option.some.inj hj).symm
    rwa [update_of_ne e]
  have hcond : ∀ y, (Function.update s.target x { s.target x with next := none } y).condemned =
      (s.target y).condemned := fun y =>
    (Same.setTarget (s := s) x { s.target x with next := none } rfl (fun _ _ => rfl)).condemned y
  have hself : (Function.update s.scan n (.destroying (some x)) n).hand = some x := by
    rw [update_self, Scan.hand]
  have hother : ∀ {m}, m ≠ n → (Function.update s.scan n (.destroying (some x)) m).hand =
      s.hand m := fun hm => by
    rw [update_of_ne hm, State.hand]
  have hin : ∀ {m}, s.hand m ≠ some x := fun hm => (h.hand hm).2.1 ⟨i, hi⟩
  constructor
  case alive => exact h.alive
  case bound =>
    intro j y hj
    exact h.bound (hinfo hj).1
  case inj =>
    intro j k y hj hk
    exact h.inj (hinfo hj).1 (hinfo hk).1
  case lock => exact h.extract_lock hn rfl
  case clear =>
    rintro - y ⟨j, hj⟩
    obtain ⟨hj, hy⟩ := hinfo hj
    apply (hcond y).trans
    by_contra hc
    exact hy (h.one ⟨j, hj⟩ ⟨i, hi⟩ (by simpa using hc) hcx)
  case one =>
    rintro y z ⟨j, hj⟩ ⟨k, hk⟩ hcy hcz
    exact h.one ⟨j, (hinfo hj).1⟩ ⟨k, (hinfo hk).1⟩ ((hcond y).symm.trans hcy)
      ((hcond z).symm.trans hcz)
  case hand =>
    intro m y hm
    by_cases e : m = n
    · subst e
      obtain rfl := Option.some.inj (hself.symm.trans hm)
      refine ⟨(h.bound hi).2, fun ⟨j, hj⟩ => (hinfo hj).2 rfl,
        fun hd => (h.destroyed hd).2 ⟨i, hi⟩, ?_⟩
      show (Function.update s.target x { s.target x with next := none } x).next = none
      rw [update_self]
    · have hm := (hother e).symm.trans hm
      obtain ⟨h1, h2, h3, h4⟩ := h.hand hm
      refine ⟨h1, fun ⟨j, hj⟩ => h2 ⟨j, (hinfo hj).1⟩, h3, ?_⟩
      have hy : y ≠ x := fun hy => hin (hy ▸ hm)
      show (Function.update s.target x { s.target x with next := none } y).next = none
      rwa [update_of_ne hy]
  case handInj =>
    intro m k y hm hk
    by_cases em : m = n <;> by_cases ek : k = n
    · rw [em, ek]
    · subst em
      obtain rfl := Option.some.inj (hself.symm.trans hm)
      exact absurd ((hother ek).symm.trans hk) hin
    · subst ek
      obtain rfl := Option.some.inj (hself.symm.trans hk)
      exact absurd ((hother em).symm.trans hm) hin
    · exact h.handInj ((hother em).symm.trans hm) ((hother ek).symm.trans hk)
  case single => exact h.extract_single
  case nodup => exact h.nodup
  case destroyed =>
    intro y hy
    exact ⟨(h.destroyed hy).1, fun ⟨j, hj⟩ => (h.destroyed hy).2 ⟨j, (hinfo hj).1⟩⟩
  case everywhere =>
    intro y hy
    by_cases e : y = x
    · subst e
      exact .inr (.inl ⟨n, hself⟩)
    · rcases h.everywhere y hy with hl | ⟨m, hm⟩ | hd
      · exact .inl (hkeep hl e)
      · have hmn : m ≠ n := fun hmn => by
          rw [hmn, hn0] at hm
          cases hm
        exact .inr (.inl ⟨m, (hother hmn).trans hm⟩)
      · exact .inr (.inr hd)

theorem Kept.extract {list : Option Nat} (h : Kept s) (hn : s.scan n = .extracting)
    (hs : ∀ x, s.Listed x → (s.target x).condemned = true → (s.target x).suspended = false)
    (he : State.extract slots s none = .ok (t, list)) :
    Kept { t.setScan n (.destroying list) with enumLock := none } := by
  rcases extract_cases h hs he with ⟨rfl, rfl, hc⟩ | ⟨i, x, hi, hcx, rfl, rfl⟩
  · exact h.extract_none hn hc
  · exact h.extract_one hn hi hcx

/-- The destruction loop goes on. -/
theorem Kept.turn {p : Scan} (h : Kept s) (hn : (s.scan n).enumerates = false)
    (hp : p.enumerates = false) (hh : p.hand = s.hand n)
    (hsingle : ∀ x list, p = .waiting x list → list = none) : Kept (s.setScan n p) := by
  have hh : ∀ m, (s.setScan n p).hand m = s.hand m :=
    hand_setScan ((congrArg Scan.hand (scan_setScan_self p)).trans hh)
  refine { h with lock := ?_, clear := ?_, hand := ?_, handInj := ?_, single := ?_,
                  everywhere := ?_ }
  · intro m
    show _ ↔ s.enumLock = some m
    rw [← h.lock m]
    by_cases e : m = n
    · rw [e, scan_setScan_self, hp, hn]
    · rw [scan_setScan_of_ne p e]
  · intro hx
    refine h.clear fun m hm => ?_
    by_cases e : m = n
    · rw [← e, hm] at hn
      cases hn
    · exact hx m ((scan_setScan_of_ne p e).trans hm)
  · intro m x hm
    rw [hh] at hm
    exact h.hand hm
  · intro m k x hm hk
    rw [hh] at hm hk
    exact h.handInj hm hk
  · intro m x list hm
    by_cases e : m = n
    · rw [e, scan_setScan_self] at hm
      exact hsingle x list hm
    · rw [scan_setScan_of_ne p e] at hm
      exact h.single hm
  · intro x hx
    simp only [hh]
    exact h.everywhere x hx

theorem Kept.destroyNext {x : Nat} {r : Except Crash State} (h : Kept s)
    (hn : s.scan n = .destroying (some x)) (hs : (s.target x).started = false)
    (hr : s.destroyNext n x = r) : ∃ t, r = .ok t ∧ Kept t := by
  have hh : s.hand n = some x := congrArg Scan.hand hn
  have hx := (h.hand hh).2.2.2
  have hk : Kept (s.setTarget x { s.target x with next := none }) :=
    h.same (.setTarget x _ rfl fun _ _ => rfl)
  subst hr
  simp only [State.destroyNext]
  rw [if_neg (by simp [State.setTarget, hs]), hx]
  refine ⟨_, rfl, hk.turn (n := n) (congrArg Scan.enumerates hn) rfl hh.symm ?_⟩
  rintro y list ⟨⟩
  rfl

theorem Kept.free {x : Nat} {list : Option Nat} (h : Kept s) (hn : s.scan n = .waiting x list) :
    Kept { s.setScan n (.destroying list) with destroyed := x :: s.destroyed } := by
  obtain rfl := h.single hn
  have hx : s.hand n = some x := congrArg Scan.hand hn
  obtain ⟨h1, h2, h3, -⟩ := h.hand hx
  have hself : (Function.update s.scan n (.destroying none) n).hand = none := by
    rw [update_self, Scan.hand]
  have hother : ∀ {m}, m ≠ n → (Function.update s.scan n (.destroying none) m).hand = s.hand m :=
    fun hm => by rw [update_of_ne hm, State.hand]
  have hsome : ∀ {m y}, (Function.update s.scan n (.destroying none) m).hand = some y →
      s.hand m = some y ∧ y ≠ x := by
    intro m y hm
    have e : m ≠ n := fun e => by
      rw [e, hself] at hm
      cases hm
    rw [hother e] at hm
    exact ⟨hm, fun hy => e (h.handInj (hy ▸ hm) hx)⟩
  refine { h with lock := ?_, clear := ?_, hand := ?_, handInj := ?_, single := ?_, nodup := ?_,
                  destroyed := ?_, everywhere := ?_ }
  · intro m
    show (Function.update s.scan n (.destroying none) m).enumerates = true ↔ s.enumLock = some m
    rw [← h.lock m]
    by_cases e : m = n
    · rw [e, hn, update_self]
      rfl
    · rw [update_of_ne e]
  · intro hc
    refine h.clear fun m hm => ?_
    by_cases e : m = n
    · rw [e, hn] at hm
      cases hm
    · exact hc m ((scan_setScan_of_ne _ e).trans hm)
  · intro m y hm
    obtain ⟨hm, hy⟩ := hsome hm
    obtain ⟨k1, k2, k3, k4⟩ := h.hand hm
    refine ⟨k1, k2, fun hd => ?_, k4⟩
    rcases List.mem_cons.mp hd with e | hd
    · exact hy e
    · exact k3 hd
  · intro m k y hm hk
    exact h.handInj (hsome hm).1 (hsome hk).1
  · intro m y l hm
    by_cases e : m = n
    · rw [e] at hm
      cases (scan_setScan_self _).symm.trans hm
    · exact h.single ((scan_setScan_of_ne _ e).symm.trans hm)
  · exact List.nodup_cons.mpr ⟨h3, h.nodup⟩
  · intro y hy
    rcases List.mem_cons.mp hy with rfl | hy
    · exact ⟨h1, h2⟩
    · exact h.destroyed hy
  · intro y hy
    rcases h.everywhere y hy with hl | ⟨m, hm⟩ | hd
    · exact .inl hl
    · by_cases e : m = n
      · subst e
        obtain rfl := Option.some.inj (hx.symm.trans hm)
        exact .inr (.inr List.mem_cons_self)
      · exact .inr (.inl ⟨m, (hother e).trans hm⟩)
    · exact .inr (.inr (List.mem_cons_of_mem _ hd))

end Scans

/-! ## Runs -/

section Errors
variable {s : State} {c : Crash}

theorem findSlot_error {path : Nat} {l : List Nat} (h : s.findSlot path l = .error c) :
    c = .sameNode := by
  induction l with
  | nil => cases h
  | cons i l ih =>
    rw [State.findSlot] at h
    split at h
    · cases h
    · rcases xmAssert_bind_error h with ⟨-, e⟩ | h
      · exact e
      · exact ih h

theorem extract_error {l : List Nat} {list : Option Nat} (h : State.extract l s list = .error c) :
    c = .next := by
  induction l generalizing s list with
  | nil => cases h
  | cons i l ih =>
    rw [State.extract] at h
    split at h
    · exact ih h
    · split at h
      · exact ih h
      · split at h
        · rcases xmAssert_bind_error h with ⟨-, e⟩ | h
          · exact e
          · exact ih h
        · exact ih h

theorem resumeAllMark_error {l : List Nat} {list : Option Nat}
    (h : State.resumeAllMark l s list = .error c) : c = .next := by
  induction l generalizing s list with
  | nil => cases h
  | cons i l ih =>
    rw [State.resumeAllMark] at h
    split at h
    · exact ih h
    · split at h
      · rcases xmAssert_bind_error h with ⟨-, e⟩ | h
        · exact e
        · exact ih h
      · exact ih h

theorem resumeTarget_error {x : Nat} (h : s.resumeTarget x = .error c) : c = .references := by
  rcases xmAssert_bind_error h with ⟨-, e⟩ | h
  · exact e
  · cases h

theorem release_error {x : Nat} (h : s.release x = .error c) : c = .references := by
  rcases xmAssert_bind_error h with ⟨-, e⟩ | h
  · exact e
  · cases h

theorem irpProcess_error {x : Nat} {ok : Bool} {minor : Minor}
    (h : s.irpProcess x ok minor = .error c) : c = .started ∨ c = .notDisappeared := by
  cases minor with
  | startDevice =>
    rcases xmAssert_bind_error h with ⟨-, e⟩ | h
    · exact .inl e
    · cases h
  | surpriseRemoval =>
    rcases xmAssert_bind_error h with ⟨-, e⟩ | h
    · exact .inr e
    · cases h
  | stopDevice | removeDevice | eject | queryId | queryCapabilities | cancelRemoveDevice
  | deviceUsageNotification => cases h

theorem advance_error {ok : Bool} {call : Call} (h : s.advance ok call = some (.error c)) :
    c = .started ∨ c = .notDisappeared ∨ c = .references ∨ c = .notResuming := by
  cases call with
  | irp minor x done =>
    cases done with
    | false =>
      rcases bind_error (Option.some.inj h) with h | ⟨u, -, h⟩
      · rcases irpProcess_error h with e | e
        · exact .inl e
        · exact .inr (.inl e)
      · cases h
    | true => cases h
  | backendStateChanged x => cases h
  | targetStart x done =>
    cases done with
    | false =>
      rcases xmAssert_bind_error (Option.some.inj h) with ⟨-, e⟩ | h
      · exact .inl e
      · cases h
    | true => exact .inr (.inr (.inl (release_error (Option.some.inj h))))
  | targetStop x done =>
    cases done with
    | false => cases h
    | true => exact .inr (.inr (.inl (release_error (Option.some.inj h))))
  | targetResume x stage =>
    cases stage with
    | marked =>
      rcases xmAssert_bind_error (Option.some.inj h) with ⟨-, e⟩ | h
      · exact .inr (.inr (.inr e))
      · cases h
    | running =>
      rcases bind_error (Option.some.inj h) with h | ⟨u, -, h⟩
      · exact .inr (.inr (.inl (resumeTarget_error h)))
      · cases h
    | waiting =>
      rw [State.advance] at h
      split at h <;> cases h
    | done => exact .inr (.inr (.inl (release_error (Option.some.inj h))))
  | targetLateResume x stage =>
    cases stage with
    | marked =>
      rcases xmAssert_bind_error (Option.some.inj h) with ⟨-, e⟩ | h
      · exact .inr (.inr (.inr e))
      · cases h
    | running => exact .inr (.inr (.inl (resumeTarget_error (Option.some.inj h))))
    | waiting => cases h
    | done => cases h

theorem filterCall_error {i : Nat} {f : State → Nat → State} (h : s.filterCall i f = .error c) :
    c = .noTarget := by
  unfold State.filterCall at h
  split at h
  · cases h
    rfl
  · cases h

/-- Only the check of a scan asserts that nothing is condemned. -/
theorem act_error {a : Act} (h : act s a = some (.error c)) (hc : c = .condemned) :
    ∃ n newDisks, s.scan n = .reading newDisks ∧ s.check n newDisks = .error c := by
  subst hc
  cases a with
  | scanBegin n ok =>
    simp only [act] at h
    split at h <;> cases h
  | scanEntry n entry =>
    simp only [act] at h
    split at h
    · cases entry with
      | ignored => cases h
      | newDisk path => cases h
      | enumerated id =>
        rcases xmAssert_bind_error (Option.some.inj h) with ⟨-, e⟩ | h
        · cases e
        · split at h <;> cases h
    · cases h
  | scanOut n =>
    simp only [act] at h
    split at h <;> cases h
  | scanCheck n =>
    simp only [act] at h
    split at h
    · next newDisks hn => exact ⟨n, newDisks, hn, Option.some.inj h⟩
    · cases h
  | scanMerge n ok =>
    simp only [act] at h
    split at h
    · rcases bind_error (Option.some.inj h) with h | ⟨slot, -, h⟩
      · cases findSlot_error h
      · cases slot <;> cases h
    · cases h
  | scanExtract n =>
    simp only [act] at h
    split at h
    · rcases bind_error (Option.some.inj h) with h | ⟨_, -, h⟩
      · cases extract_error h
      · cases h
    · cases h
  | scanDestroy n =>
    simp only [act] at h
    split at h
    · cases h
    · simp only [State.destroyNext, Option.some.injEq] at h
      split at h
      · split at h <;> cases h
      · cases h
    · cases h
  | scanFree n =>
    simp only [act] at h
    split at h
    · split at h <;> cases h
    · cases h
  | mapDeviceObject d i =>
    simp only [act, Option.some.injEq, State.mapDeviceObject] at h
    split at h
    · cases h
    · rcases xmAssert_bind_error h with ⟨-, e⟩ | h
      · cases e
      · cases h
  | irp d minor =>
    simp only [act, Option.some.injEq, State.irpBegin] at h
    split at h
    · cases h
    · rcases xmAssert_bind_error h with ⟨-, e⟩ | h
      · cases e
      · cases h
  | backendStateChanged i =>
    simp only [act] at h
    split at h
    · cases h
    · split at h <;> cases h
  | targetStart i => cases filterCall_error (Option.some.inj h)
  | targetStop i => cases filterCall_error (Option.some.inj h)
  | targetResume i => cases filterCall_error (Option.some.inj h)
  | call call ok =>
    obtain ⟨-, h⟩ := Option.ite_none_right_eq_some.mp h
    rcases advance_error h with e | e | e | e <;> cases e
  | stopAdapter => simp [act] at h
  | targetEarlyResume x =>
    simp only [act] at h
    split at h <;> cases h
  | targetLateResume x =>
    simp only [act] at h
    split at h <;> cases h
  | resumeAll =>
    simp only [act] at h
    split at h
    · rcases bind_error (Option.some.inj h) with h | ⟨_, -, h⟩
      · cases resumeAllMark_error h
      · cases h
    · cases h
  | resumeAllNext =>
    simp only [act] at h
    split at h
    · cases h
    · cases h
    · rcases xmAssert_bind_error (Option.some.inj h) with ⟨-, e⟩ | h
      · cases e
      · cases h
    · cases h
  | resumeAllEnd =>
    simp only [act] at h
    split at h
    · rcases bind_error (Option.some.inj h) with h | ⟨_, -, h⟩
      · cases resumeTarget_error h
      · cases h
    · cases h

end Errors

section Runs
variable {s t : State}

/-- An extraction finds no condemned target suspended, and a target that is to be destroyed is not
started. -/
def Disposable (s : State) : Act → Prop
  | .scanExtract _ => ∀ i ∈ slots, ∀ x ∈ s.info i,
      (s.target x).condemned = true → (s.target x).suspended = false
  | .scanDestroy n => ∀ x ∈ s.hand n, (s.target x).started = false
  | _ => True

theorem Kept.act {a : Act} (h : Kept s) (hok : Disposable s a) (ha : act s a = some (.ok t)) :
    Kept t := by
  cases hsc : a.scans with
  | false => exact h.same (same_act hsc ha)
  | true =>
    cases a with
    | scanBegin n ok =>
      obtain ⟨hn, ha⟩ := Option.ite_none_right_eq_some.mp ha
      have hc := h.clear fun m hm => by
        have := (h.lock m).mp (by rw [hm]; rfl)
        rw [hn.2] at this
        cases this
      cases ha
      cases ok with
      | true =>
        have hs := same_markPending (s := s)
        have hk := h.same hs
        refine hk.goOn (.inl ⟨hs.enumLock.trans hn.2, ?_⟩) rfl fun _ x hx => ?_
        · rw [hs.scan, hn.1]
        · rw [hs.condemned]
          rw [State.Listed, hs.info] at hx
          exact hc x hx
      | false => exact h.goOn (.inl ⟨hn.2, hn.1⟩) rfl (by simp)
    | scanEntry n entry =>
      simp only [Targets.act] at ha
      split at ha
      · next newDisks hn =>
        cases entry with
        | ignored =>
          cases ha
          exact h
        | enumerated id =>
          obtain ⟨-, ha⟩ := xmAssert_bind_ok (Option.some.inj ha)
          split at ha
          · cases ha
          · cases ha
            exact h.same (.update _ _ rfl rfl)
        | newDisk path =>
          cases ha
          exact h.goOn_locked ((h.lock n).mp (by rw [hn]; rfl)) rfl
            fun _ => h.clear_of_scan hn rfl (by nofun)
      · cases ha
    | scanOut n =>
      simp only [Targets.act] at ha
      split at ha
      · next hn =>
        cases ha
        exact h.goOn_locked ((h.lock n).mp (by rw [hn]; rfl)) rfl (by simp)
      · next hn =>
        cases ha
        exact h.goOn_locked ((h.lock n).mp (by rw [hn]; rfl)) rfl (by simp)
      · cases ha
    | scanCheck n =>
      simp only [Targets.act] at ha
      split at ha
      · next hn =>
        obtain ⟨u, e, hu⟩ := h.check hn (Option.some.inj ha)
        cases e
        exact hu
      · cases ha
    | scanMerge n ok =>
      simp only [Targets.act] at ha
      split at ha
      · next hn => exact h.merge hn (Option.some.inj ha)
      · cases ha
    | scanExtract n =>
      simp only [Targets.act] at ha
      split at ha
      · next hn =>
        obtain ⟨⟨u, list⟩, hu, ha⟩ := bind_ok (Option.some.inj ha)
        cases ha
        refine h.extract hn ?_ hu
        rintro x ⟨i, hi⟩ hc
        exact hok i (List.mem_range.mpr (h.bound hi).1) x hi hc
      · cases ha
    | scanDestroy n =>
      simp only [Targets.act] at ha
      split at ha
      · next hn =>
        cases ha
        exact h.turn (by rw [hn]; rfl) rfl (congrArg Scan.hand hn).symm (by nofun)
      · next x hn =>
        obtain ⟨u, e, hu⟩ := h.destroyNext hn (hok x (congrArg Scan.hand hn)) (Option.some.inj ha)
        cases e
        exact hu
      · cases ha
    | scanFree n =>
      simp only [Targets.act] at ha
      split at ha
      · next hn =>
        split at ha
        · cases ha
          exact h.free hn
        · cases ha
      · cases ha
    | mapDeviceObject | irp | backendStateChanged | targetStart | targetStop | targetResume | call
    | stopAdapter | targetEarlyResume | targetLateResume | resumeAll | resumeAllNext
    | resumeAllEnd => cases hsc

theorem kept_step {a : Act} (h : Kept s) (hok : Disposable s a) (hst : step s a = some t) :
    Kept t := by
  unfold step at hst
  split at hst
  · cases hst
  · obtain ⟨r, hr, rfl⟩ := Option.map_eq_some_iff.mp hst
    cases r with
    | ok t => exact h.act hok hr
    | error c =>
      refine { h with alive := fun e => ?_ }
      obtain ⟨n, newDisks, hn, hc⟩ := act_error hr (Option.some.inj e)
      obtain ⟨u, hu, -⟩ := h.check hn hc
      cases hu

theorem kept_init : Kept init where
  alive := nofun
  bound := nofun
  inj := nofun
  lock _ := ⟨nofun, nofun⟩
  clear _ _ := nofun
  one := nofun
  hand := nofun
  handInj := nofun
  single := nofun
  nodup := List.nodup_nil
  destroyed := nofun
  everywhere _ := nofun

/-- As long as an extraction finds no condemned target suspended and no target is started when it is
to be destroyed: no scan finds a target condemned already; each target is in `XenvbdTargetInfo`, in
the hands of one scan that is going to destroy it, or destroyed, in one of these and once. -/
theorem targets_kept (h : machine.Reach Disposable s) :
    s.crashed ≠ some .condemned ∧ s.destroyed.Nodup ∧
    (∀ x < s.created, (∃ i, s.info i = some x) ∨ (∃ n, s.hand n = some x) ∨ x ∈ s.destroyed) ∧
    (∀ i j x, s.info i = some x → s.info j = some x → i = j) ∧
    (∀ n m x, s.hand n = some x → s.hand m = some x → n = m) ∧
    (∀ i x, s.info i = some x → x ∉ s.destroyed ∧ ∀ n, s.hand n ≠ some x) ∧
    ∀ n x, s.hand n = some x → x ∉ s.destroyed := by
  have hk : Kept s := h.inv kept_init fun _ _ _ => kept_step
  refine ⟨hk.alive, hk.nodup, hk.everywhere, fun _ _ _ => hk.inj, fun _ _ _ => hk.handInj,
    fun i x hi => ⟨fun hd => (hk.destroyed hd).2 ⟨i, hi⟩, fun n hn => (hk.hand hn).2.1 ⟨i, hi⟩⟩,
    fun n x hn => (hk.hand hn).2.2.1⟩

end Runs

section Witness

instance (s : State) (a : Act) : Decidable (Disposable s a) := by
  unfold Disposable
  split <;> infer_instance

/-- A scan that finds two new disks and sets them up. -/
def setUpTwo : List Act :=
  [.scanBegin 0 true, .scanEntry 0 (.newDisk 768), .scanEntry 0 (.newDisk 5632), .scanCheck 0,
    .scanMerge 0 true, .scanMerge 0 true, .scanExtract 0, .scanDestroy 0, .mapDeviceObject 70 0,
    .mapDeviceObject 71 1]

/-- A PnP request for target `x`, whose device object is `d`. -/
def pnp (d x : Nat) (minor : Minor) : List Act :=
  [.irp d minor, .call (.irp minor x false) true, .call (.irp minor x true) true]

/-- A scan in which both disks are still there. -/
def rescan (n : Nat) : List Act :=
  [.scanBegin n true, .scanEntry n (.enumerated 0), .scanEntry n (.enumerated 1), .scanCheck n,
    .scanExtract n]

/-- One target is started, suspended, resumed, stopped and ejected; the next scan destroys it. -/
theorem targets_kept_run :
    ∃ s, machine.Reach Disposable s ∧ s.created = 2 ∧ s.destroyed = [0] ∧ s.info 1 = some 1 ∧
      s.crashed ≠ some .condemned ∧ (∀ i, s.info i ≠ some 0) := by
  obtain ⟨s, hr, hp⟩ := Machine.exists_reach machine Disposable
    (fun s => s.created = 2 ∧ s.destroyed = [0] ∧ s.info 1 = some 1)
    (List.flatten [setUpTwo, pnp 70 0 .startDevice, [.targetEarlyResume 0, .targetLateResume 0,
      .call (.targetLateResume 0 .marked) true, .call (.targetLateResume 0 .running) true],
      pnp 70 0 .removeDevice, pnp 70 0 .eject, rescan 1,
      [.scanDestroy 1, .scanFree 1, .scanDestroy 1]]) (by decide +kernel)
  simp only [decide_eq_true_eq] at hp
  have hk := targets_kept hr
  exact ⟨s, hr, hp.1, hp.2.1, hp.2.2, hk.1, fun i hi => (hk.2.2.2.2.2.1 i 0 hi).1 (by simp [hp.2.1])⟩

/-- A target that is suspended when it is condemned fails the assertion of the next scan. A started
target that is extracted together with such a one is in nobody's hands in the end. -/
theorem target_lost :
    (∃ s, machine.Reach Machine.Any s ∧ s.crashed = some .condemned) ∧
    ∃ s, machine.Reach Machine.Any s ∧ s.crashed = none ∧ s.created = 2 ∧ s.destroyed = [0] ∧
      slots.filterMap s.info = [] ∧ s.scan 0 = .idle ∧ s.scan 1 = .idle ∧ s.scan 2 = .idle := by
  refine ⟨?_, ?_⟩
  · obtain ⟨s, hr, hp⟩ := Machine.exists_reach machine Machine.Any
      (fun s => s.crashed = some .condemned)
      (List.flatten [setUpTwo, [.targetEarlyResume 0], pnp 70 0 .eject, rescan 1, [.scanDestroy 1,
        .scanBegin 2 true, .scanEntry 2 (.enumerated 0), .scanEntry 2 (.enumerated 1),
        .scanCheck 2]]) (by decide +kernel)
    simp only [decide_eq_true_eq] at hp
    exact ⟨s, hr, hp⟩
  · obtain ⟨s, hr, hp⟩ := Machine.exists_reach machine Machine.Any
      (fun s => s.crashed = none ∧ s.created = 2 ∧ s.destroyed = [0] ∧
        slots.filterMap s.info = [] ∧ s.scan 0 = .idle ∧ s.scan 1 = .idle ∧ s.scan 2 = .idle)
      (List.flatten [setUpTwo, pnp 71 1 .startDevice, [.targetEarlyResume 1], pnp 71 1 .eject,
        rescan 1, [.scanDestroy 1, .targetLateResume 1, .call (.targetLateResume 1 .marked) true,
        .call (.targetLateResume 1 .running) true], pnp 70 0 .eject, rescan 2,
        [.scanDestroy 2, .scanDestroy 2, .scanFree 2, .scanDestroy 2]]) (by decide +kernel)
    simp only [decide_eq_true_eq] at hp
    exact ⟨s, hr, hp⟩

end Witness

end XcWindows.Xenvbd.Targets
