import Mathlib.Data.List.Perm.Basic
import Mathlib.Data.List.FinRange
import XcWindows.Lib.Machine

/-!
# SRBs redirected through scsifilt

The slow path of `xenvbd/filterio.c`: an SRB that comes to xenvbd while a filter is attached to its target
is handed to scsifilt, which gives it back later, and a timer of scsiport polls for those that are back.
The functions run under `XenvbdTargetInfoLock`, so that each is one step. The targets are those that are
in `XenvbdTargetInfo`; what becomes of the SRBs is kept beside them.
-/

namespace XcWindows.Xenvbd.Redirected

open Lib Machine

structure FilterTarget where
  scsifilt : Bool
  pendingRedirectComplete : List Nat
  outstandingRedirectedSrbs : Nat
  /-- all that were ever redirected, those that scsifilt has, and those for which `CompleteSrb` was called -/
  redirected : List Nat
  held : List Nat
  completed : List Nat

structure State (n : Nat) where
  targets : Fin n → FilterTarget
  timer : Bool

variable {n : Nat}

def State.set (s : State n) (j : Fin n) (f : FilterTarget) : State n :=
  { s with targets := Function.update s.targets j f }

/-- `XenvbdFilterRequestPoll`, under a condition -/
def State.requestPoll (s : State n) (c : Bool) : State n := { s with timer := s.timer || c }

def switchToFilter (f : FilterTarget) : FilterTarget := { f with scsifilt := true }

def switchFromFilter (f : FilterTarget) : FilterTarget := { f with scsifilt := false }

/-- `XenvbdCompleteRedirectedSrb`; `none` is its assertion. -/
def completeRedirectedSrb (srb : Nat) (f : FilterTarget) : Option FilterTarget :=
  if f.outstandingRedirectedSrbs ≠ 0 then
    some { f with
      pendingRedirectComplete := f.pendingRedirectComplete ++ [srb]
      held := f.held.erase srb }
  else none

/-- The counter and the queue of scsifilt when an SRB is redirected. -/
def handOver (srb : Nat) (f : FilterTarget) : FilterTarget :=
  { f with
    outstandingRedirectedSrbs := f.outstandingRedirectedSrbs + 1
    redirected := srb :: f.redirected
    held := srb :: f.held }

def redirectSrbThroughScsifilt (j : Fin n) (srb : Nat) (s : State n) : State n :=
  let f := handOver srb (s.targets j)
  (s.set j f).requestPoll (f.outstandingRedirectedSrbs == 1)

/-- The loop of `XenvbdFilterPoll`. -/
def drain : List Nat → FilterTarget → FilterTarget
  | [], f => f
  | srb :: queue, f =>
    drain queue { f with
      pendingRedirectComplete := queue
      completed := f.completed ++ [srb]
      outstandingRedirectedSrbs := f.outstandingRedirectedSrbs - 1 }

def filterPoll (j : Fin n) (s : State n) : State n :=
  let f := drain (s.targets j).pendingRedirectComplete (s.targets j)
  (s.set j f).requestPoll (f.outstandingRedirectedSrbs != 0)

/-- The body of the loop of `XenvbdTimerFunc`; a target without a filter has its event channel raised. -/
def timerTarget (s : State n) (j : Fin n) : State n :=
  if (s.targets j).scsifilt then filterPoll j s else s

def timerFunc (s : State n) : State n := (List.finRange n).foldl timerTarget s

inductive Action (n : Nat) where
  | switchTo (j : Fin n)
  | switchFrom (j : Fin n)
  /-- `XenvbdStartIO` with a read or a write -/
  | redirect (j : Fin n) (srb : Nat)
  /-- scsifilt gives back an SRB that it has -/
  | complete (j : Fin n) (srb : Nat)
  | expire
deriving DecidableEq

def step (s : State n) : Action n → Option (State n)
  | .switchTo j => some (s.set j (switchToFilter (s.targets j)))
  | .switchFrom j => some (s.set j (switchFromFilter (s.targets j)))
  | .redirect j srb => if (s.targets j).scsifilt then some (redirectSrbThroughScsifilt j srb s) else none
  | .complete j srb =>
    if srb ∈ (s.targets j).held then (completeRedirectedSrb srb (s.targets j)).map (s.set j) else none
  | .expire => if s.timer then some (timerFunc { s with timer := false }) else none

def machine (n : Nat) : Machine (State n) (Action n) where
  init := ⟨fun _ => ⟨false, [], 0, [], [], []⟩, false⟩
  step := step

/-- The timer does not expire while a target has SRBs outstanding but no filter. -/
def Polled (s : State n) (a : Action n) : Prop :=
  a = .expire → ∀ j, (s.targets j).outstandingRedirectedSrbs ≠ 0 → (s.targets j).scsifilt = true

instance (s : State n) (a : Action n) : Decidable (Polled s a) :=
  inferInstanceAs (Decidable (a = .expire → ∀ j, (s.targets j).outstandingRedirectedSrbs ≠ 0 →
    (s.targets j).scsifilt = true))

/-! ## One target -/

/-- Each SRB that was redirected is in one place, and the counter is the number of those not completed. -/
structure Counted (f : FilterTarget) : Prop where
  srbs : f.redirected.Perm (f.held ++ f.pendingRedirectComplete ++ f.completed)
  outstanding : f.outstandingRedirectedSrbs = f.held.length + f.pendingRedirectComplete.length

theorem completeRedirectedSrb_some {srb : Nat} {f f' : FilterTarget} (h : completeRedirectedSrb srb f = some f') :
    f.outstandingRedirectedSrbs ≠ 0 ∧ f' = { f with
      pendingRedirectComplete := f.pendingRedirectComplete ++ [srb]
      held := f.held.erase srb } := by
  unfold completeRedirectedSrb at h
  split at h
  case isTrue hne => exact ⟨hne, (Option.some.inj h).symm⟩
  case isFalse => cases h

theorem drain_eq (queue : List Nat) (f : FilterTarget) :
    drain queue f = { f with
      pendingRedirectComplete := if queue = [] then f.pendingRedirectComplete else []
      completed := f.completed ++ queue
      outstandingRedirectedSrbs := f.outstandingRedirectedSrbs - queue.length } := by
  induction queue generalizing f with
  | nil => simp [drain]
  | cons srb queue ih =>
    rw [drain, ih]
    simp only [List.append_assoc, List.singleton_append, List.length_cons, reduceCtorEq, if_false]
    congr 1
    · split
      · assumption
      · rfl
    · omega

/-- A target once it was polled. -/
def polled (f : FilterTarget) : FilterTarget :=
  { f with
    pendingRedirectComplete := []
    completed := f.completed ++ f.pendingRedirectComplete
    outstandingRedirectedSrbs := f.outstandingRedirectedSrbs - f.pendingRedirectComplete.length }

theorem drain_pending (f : FilterTarget) : drain f.pendingRedirectComplete f = polled f := by
  rw [drain_eq, polled]
  congr 1
  split
  · assumption
  · rfl

theorem Counted.polled {f : FilterTarget} (h : Counted f) : Counted (polled f) := by
  refine ⟨?_, ?_⟩
  · have hswap : (f.pendingRedirectComplete ++ f.completed).Perm (f.completed ++ f.pendingRedirectComplete) :=
      List.perm_append_comm
    simpa [Redirected.polled, List.append_assoc] using
      h.srbs.trans (by simpa using hswap.append_left f.held)
  · simp only [Redirected.polled, List.length_nil, Nat.add_zero]
    have := h.outstanding
    omega

theorem Counted.handOver {f : FilterTarget} (h : Counted f) (srb : Nat) : Counted (handOver srb f) := by
  refine ⟨h.srbs.cons srb, ?_⟩
  simp only [Redirected.handOver, List.length_cons]
  have := h.outstanding
  omega

theorem Counted.complete {f : FilterTarget} (h : Counted f) {srb : Nat} (hheld : srb ∈ f.held) :
    ∃ f', completeRedirectedSrb srb f = some f' ∧ Counted f' := by
  have hpos := List.length_pos_of_mem hheld
  have hout := h.outstanding
  refine ⟨_, if_pos (by omega), ?_, ?_⟩
  · refine h.srbs.trans ?_
    refine List.Perm.append_right _ ?_
    refine ((List.perm_cons_erase hheld).append_right _).trans ?_
    simp only [List.cons_append, ← List.append_assoc]
    exact (List.perm_append_singleton _ _).symm
  · simp only [List.length_append, List.length_singleton, List.length_erase_of_mem hheld]
    omega

/-! ## The timer -/

/-- What the expiry of the timer does to a target. -/
def expired (f : FilterTarget) : FilterTarget := if f.scsifilt then polled f else f

theorem Counted.expired {f : FilterTarget} (h : Counted f) : Counted (expired f) := by
  unfold Redirected.expired
  split
  · exact h.polled
  · exact h

/-- The target has to be polled again. -/
def Again (f : FilterTarget) : Prop := f.scsifilt = true ∧ (polled f).outstandingRedirectedSrbs ≠ 0

theorem timerTarget_targets (s : State n) (j : Fin n) :
    (timerTarget s j).targets = Function.update s.targets j (expired (s.targets j)) := by
  unfold timerTarget filterPoll
  split
  case isTrue hf => simp only [State.requestPoll, State.set, drain_pending, expired, hf, if_true]
  case isFalse hf => simp [expired, hf]

theorem timerTarget_timer (s : State n) (j : Fin n) :
    (timerTarget s j).timer = true ↔ s.timer = true ∨ Again (s.targets j) := by
  unfold timerTarget filterPoll
  split
  case isTrue hf => simp [State.requestPoll, State.set, drain_pending, Again, hf]
  case isFalse hf => simp [Again, hf]

theorem foldl_timerTarget (js : List (Fin n)) (hjs : js.Nodup) (s : State n) :
    (∀ j, (js.foldl timerTarget s).targets j = if j ∈ js then expired (s.targets j) else s.targets j) ∧
    ((js.foldl timerTarget s).timer = true ↔ s.timer = true ∨ ∃ j ∈ js, Again (s.targets j)) := by
  induction js generalizing s with
  | nil => simp
  | cons i js ih =>
    obtain ⟨hi, hjs⟩ := List.nodup_cons.1 hjs
    obtain ⟨htargets, htimer⟩ := ih hjs (timerTarget s i)
    have hother : ∀ j, j ≠ i → (timerTarget s i).targets j = s.targets j := by
      intro j hj
      rw [timerTarget_targets, Function.update_of_ne hj]
    constructor
    · intro j
      rw [List.foldl_cons, htargets]
      by_cases hj : j = i
      · subst hj
        simp [hi, timerTarget_targets]
      · simp [hj, hother]
    · rw [List.foldl_cons, htimer, timerTarget_timer, or_assoc]
      refine or_congr_right ?_
      simp only [List.mem_cons, exists_eq_or_imp]
      refine or_congr_right (exists_congr fun j => and_congr_right fun hj => ?_)
      rw [hother j fun h => hi (h ▸ hj)]

theorem timerFunc_targets (s : State n) (j : Fin n) : (timerFunc s).targets j = expired (s.targets j) := by
  rw [timerFunc, (foldl_timerTarget _ (List.nodup_finRange n) s).1, if_pos (List.mem_finRange j)]

theorem timerFunc_timer (s : State n) :
    (timerFunc s).timer = true ↔ s.timer = true ∨ ∃ j, Again (s.targets j) := by
  simp [timerFunc, (foldl_timerTarget _ (List.nodup_finRange n) s).2]

/-! ## Runs -/

theorem step_cases {s t : State n} {a : Action n} (h : step s a = some t) :
    (∃ j b, a = (if b then .switchTo j else .switchFrom j) ∧
      t = s.set j { s.targets j with scsifilt := b }) ∨
    (∃ j srb, a = .redirect j srb ∧ (s.targets j).scsifilt = true ∧
      t = redirectSrbThroughScsifilt j srb s) ∨
    (∃ j srb f, a = .complete j srb ∧ srb ∈ (s.targets j).held ∧
      completeRedirectedSrb srb (s.targets j) = some f ∧ t = s.set j f) ∨
    (a = .expire ∧ s.timer = true ∧ t = timerFunc { s with timer := false }) := by
  cases a with
  | switchTo j => exact .inl ⟨j, true, rfl, (Option.some.inj h).symm⟩
  | switchFrom j => exact .inl ⟨j, false, rfl, (Option.some.inj h).symm⟩
  | redirect j srb =>
    simp only [step] at h
    split at h
    case isTrue hf => exact .inr (.inl ⟨j, srb, rfl, hf, (Option.some.inj h).symm⟩)
    case isFalse => cases h
  | complete j srb =>
    simp only [step] at h
    split at h
    case isTrue hheld =>
      obtain ⟨f, hf, rfl⟩ := Option.map_eq_some_iff.1 h
      exact .inr (.inr (.inl ⟨j, srb, f, rfl, hheld, hf, rfl⟩))
    case isFalse => cases h
  | expire =>
    simp only [step] at h
    split at h
    case isTrue htimer => exact .inr (.inr (.inr ⟨rfl, htimer, (Option.some.inj h).symm⟩))
    case isFalse => cases h

theorem forall_set {P : FilterTarget → Prop} {s : State n} (h : ∀ j, P (s.targets j)) (j : Fin n)
    {f : FilterTarget} (hf : P f) (i : Fin n) : P ((s.set j f).targets i) := by
  by_cases hi : i = j
  · subst hi
    simpa [State.set] using hf
  · simpa [State.set, hi] using h i

theorem Counted.step {s t : State n} {a : Action n} (h : ∀ j, Counted (s.targets j))
    (hstep : step s a = some t) (i : Fin n) : Counted (t.targets i) := by
  obtain ⟨j, b, -, rfl⟩ | ⟨j, srb, -, -, rfl⟩ | ⟨j, srb, f, -, hheld, hf, rfl⟩ | ⟨-, -, rfl⟩ :=
    step_cases hstep
  · exact forall_set h j (f := { s.targets j with scsifilt := b }) ⟨(h j).srbs, (h j).outstanding⟩ i
  · exact forall_set h j ((h j).handOver srb) i
  · obtain ⟨f', hf', hcounted⟩ := (h j).complete hheld
    obtain rfl := Option.some.inj (hf'.symm.trans hf)
    exact forall_set h j hcounted i
  · rw [timerFunc_targets]
    exact (h i).expired

theorem counted {s : State n} {ok : State n → Action n → Prop} (h : Reach (machine n) ok s) (j : Fin n) :
    Counted (s.targets j) := by
  have hall : ∀ j, Counted (s.targets j) :=
    h.inv (I := fun s => ∀ j, Counted (s.targets j)) (fun _ => ⟨.refl _, rfl⟩)
      fun _ _ _ hs _ hstep => Counted.step hs hstep
  exact hall j

/-- The timer is requested as long as there is an SRB to poll for. -/
def Armed (s : State n) : Prop := ∀ j, (s.targets j).outstandingRedirectedSrbs ≠ 0 → s.timer = true

theorem Armed.step {s t : State n} {a : Action n} (h : Armed s) (hok : Polled s a)
    (hstep : step s a = some t) : Armed t := by
  obtain ⟨j, b, -, rfl⟩ | ⟨j, srb, -, -, rfl⟩ | ⟨j, srb, f, -, -, hf, rfl⟩ | ⟨rfl, -, rfl⟩ :=
    step_cases hstep
  · exact fun i => forall_set (P := fun f => f.outstandingRedirectedSrbs ≠ 0 → s.timer = true) h j
      (f := { s.targets j with scsifilt := b }) (h j) i
  · intro i hi
    simp only [redirectSrbThroughScsifilt, State.requestPoll, Bool.or_eq_true, beq_iff_eq, handOver] at hi ⊢
    by_cases h0 : (s.targets j).outstandingRedirectedSrbs = 0
    · exact .inr (by omega)
    · exact .inl (h j h0)
  · obtain ⟨hne, rfl⟩ := completeRedirectedSrb_some hf
    exact fun i => forall_set (P := fun f => f.outstandingRedirectedSrbs ≠ 0 → s.timer = true) h j
      (fun _ => h j hne) i
  · intro i hi
    rw [timerFunc_targets] at hi
    refine (timerFunc_timer _).2 (.inr ⟨i, ?_⟩)
    simp only at hi ⊢
    -- a target that still has SRBs outstanding had them before, and so its filter
    have hfilter : (s.targets i).scsifilt = true := by
      by_contra hno
      rw [expired, if_neg hno] at hi
      exact hno (hok rfl i hi)
    rw [expired, if_pos hfilter] at hi
    exact ⟨hfilter, hi⟩

theorem armed {s : State n} (h : Reach (machine n) Polled s) : Armed s :=
  h.inv (fun _ hj => absurd rfl hj) fun _ _ _ hs hok hstep => Armed.step hs hok hstep

/-! ## SRBs that are back -/

/-- How often an SRB was completed, and how often it was or is about to be. -/
def done (s : State n) (j : Fin n) (srb : Nat) : Nat := (s.targets j).completed.count srb

def back (s : State n) (j : Fin n) (srb : Nat) : Nat :=
  (s.targets j).pendingRedirectComplete.count srb + done s j srb

theorem polled_back (f : FilterTarget) (srb : Nat) :
    (polled f).completed.count srb = f.pendingRedirectComplete.count srb + f.completed.count srb := by
  rw [polled, List.count_append, Nat.add_comm]

theorem step_done {s t : State n} {a : Action n} (hstep : step s a = some t) (i : Fin n) (srb : Nat) :
    done s i srb ≤ done t i srb ∧ back s i srb ≤ back t i srb := by
  have hset : ∀ (u : State n) (j : Fin n) (f : FilterTarget), u.targets = s.targets →
      (s.targets j).completed.count srb ≤ f.completed.count srb →
      (s.targets j).pendingRedirectComplete.count srb ≤ f.pendingRedirectComplete.count srb →
      done s i srb ≤ done (u.set j f) i srb ∧ back s i srb ≤ back (u.set j f) i srb := by
    intro u j f hu hdone hpending
    unfold back done
    by_cases hi : i = j
    · subst hi
      simp only [State.set, Function.update_self]
      omega
    · simp only [State.set, Function.update_of_ne hi, hu]
      omega
  obtain ⟨j, b, -, rfl⟩ | ⟨j, new, -, -, rfl⟩ | ⟨j, given, f, -, -, hf, rfl⟩ | ⟨-, -, rfl⟩ :=
    step_cases hstep
  · exact hset s j { s.targets j with scsifilt := b } rfl (Nat.le_refl _) (Nat.le_refl _)
  · exact hset s j (handOver new (s.targets j)) rfl (Nat.le_refl _) (Nat.le_refl _)
  · obtain ⟨-, rfl⟩ := completeRedirectedSrb_some hf
    refine hset s j _ rfl (Nat.le_refl _) ?_
    simp
  · unfold back done
    rw [timerFunc_targets, expired]
    split
    · simp [polled]
      omega
    · exact ⟨Nat.le_refl _, Nat.le_refl _⟩

theorem expire_done {s t : State n} (hcounted : ∀ j, Counted (s.targets j)) (hok : Polled s .expire)
    (hstep : step s .expire = some t) (i : Fin n) (srb : Nat) : back s i srb ≤ done t i srb := by
  simp only [step] at hstep
  split at hstep
  case isFalse => cases hstep
  obtain rfl := Option.some.inj hstep
  unfold back done
  rw [timerFunc_targets, expired]
  split
  case isTrue => exact Nat.le_of_eq (polled_back _ srb).symm
  case isFalse hno =>
    have h0 : (s.targets i).outstandingRedirectedSrbs = 0 := by
      by_contra hne
      exact hno (hok rfl i hne)
    have hlen : (s.targets i).pendingRedirectComplete = [] := by
      refine List.eq_nil_of_length_eq_zero ?_
      have := (hcounted i).outstanding
      omega
    simp [hlen]

theorem run_done {s t : State n} {as : List (Action n)}
    (hcounted : ∀ j, Counted (s.targets j)) (hrun : (machine n).runFrom Polled s as = some t)
    (hexpire : Action.expire ∈ as) (i : Fin n) (srb : Nat) : back s i srb ≤ done t i srb := by
  induction as generalizing s with
  | nil => cases hexpire
  | cons a as ih =>
    simp only [runFrom] at hrun
    split at hrun
    case isFalse => cases hrun
    case isTrue hok =>
      obtain ⟨u, hu, hrest⟩ := Option.bind_eq_some_iff.1 hrun
      by_cases ha : a = .expire
      · subst ha
        have hle := expire_done hcounted hok hu i srb
        exact runFrom_inv (I := fun u => back s i srb ≤ done u i srb)
          (fun _ _ _ h _ hstep => Nat.le_trans h (step_done hstep i srb).1) hle hrest
      · have hmem : Action.expire ∈ as := by simpa [Ne.symm ha] using hexpire
        exact Nat.le_trans (step_done hu i srb).2 (ih (Counted.step hcounted hu) hrest hmem)

/-- The counter is right, a timer call is pending as long as it is not zero, no assertion fires, and all
that is back is completed by the next time that the timer expires. -/
structure Served (s : State n) : Prop where
  counted : ∀ j, Counted (s.targets j)
  armed : Armed s
  given_back : ∀ j, ∀ srb ∈ (s.targets j).held, (completeRedirectedSrb srb (s.targets j)).isSome
  picked_up : ∀ j, ∀ srb ∈ (s.targets j).pendingRedirectComplete, ∀ as t,
    (machine n).runFrom Polled s as = some t → Action.expire ∈ as → done s j srb < done t j srb

/-- Redirected SRBs are polled for as long as the timer finds their filter. -/
theorem redirected_srbs_served {s : State n} (h : Reach (machine n) Polled s) : Served s := by
  have hcounted : ∀ j, Counted (s.targets j) := counted h
  refine ⟨hcounted, armed h, fun j srb hheld => ?_, fun j srb hback as t hrun hexpire => ?_⟩
  · obtain ⟨f, hf, -⟩ := (hcounted j).complete hheld
    rw [hf]
    rfl
  · have hle := run_done hcounted hrun hexpire j srb
    have hpos := List.count_pos_iff.2 hback
    unfold back at hle
    omega

/-! ## A filter that is detached -/

/-- No filter is detached from a target with SRBs outstanding. -/
def Kept (s : State n) (a : Action n) : Prop :=
  ∀ j, a = .switchFrom j → (s.targets j).outstandingRedirectedSrbs = 0

theorem kept_attached {s : State n} (h : Reach (machine n) Kept s) (j : Fin n)
    (hj : (s.targets j).outstandingRedirectedSrbs ≠ 0) : (s.targets j).scsifilt = true := by
  have hinv : ∀ j, (s.targets j).outstandingRedirectedSrbs ≠ 0 → (s.targets j).scsifilt = true := by
    refine h.inv (I := fun s => ∀ j, (s.targets j).outstandingRedirectedSrbs ≠ 0 →
      (s.targets j).scsifilt = true) (fun _ h => absurd rfl h) fun s a t hs hok hstep => ?_
    let P : FilterTarget → Prop := fun f => f.outstandingRedirectedSrbs ≠ 0 → f.scsifilt = true
    obtain ⟨j, b, ha, rfl⟩ | ⟨j, srb, -, hf, rfl⟩ | ⟨j, srb, f, -, -, hf, rfl⟩ | ⟨rfl, -, rfl⟩ :=
      step_cases hstep
    · refine forall_set (P := P) hs j (f := { s.targets j with scsifilt := b }) fun hne => ?_
      cases b with
      | true => rfl
      | false => exact absurd (hok j ha) hne
    · exact forall_set (P := P) hs j (fun _ => hf)
    · obtain ⟨hne, rfl⟩ := completeRedirectedSrb_some hf
      exact forall_set (P := P) hs j fun _ => hs j hne
    · intro i hi
      rw [timerFunc_targets] at hi ⊢
      unfold expired at hi ⊢
      split
      case isTrue hf => exact hf
      case isFalse hf =>
        rw [if_neg hf] at hi
        exact hs i hi
  exact hinv j hj

theorem reach_of_kept {s : State n} (h : Reach (machine n) Kept s) : Reach (machine n) Polled s := by
  induction h with
  | init => exact .init
  | step hr _ hstep ih => exact ih.step (fun _ => kept_attached hr) hstep

/-- No timer call is pending, though every target has SRBs outstanding. -/
def Stuck (s : State n) : Prop :=
  s.timer = false ∧ ∀ j, (s.targets j).outstandingRedirectedSrbs ≠ 0

theorem Stuck.step {s t : State n} {a : Action n} (h : Stuck s) (hstep : step s a = some t) :
    Stuck t ∧ ∀ j srb, done t j srb = done s j srb := by
  obtain ⟨htimer, hout⟩ := h
  let P : FilterTarget → Prop := fun f => f.outstandingRedirectedSrbs ≠ 0
  have hset : ∀ (j : Fin n) (f : FilterTarget), f.completed = (s.targets j).completed →
      ∀ i srb, ((s.set j f).targets i).completed.count srb = (s.targets i).completed.count srb := by
    intro j f hf i srb
    by_cases hi : i = j
    · subst hi
      simp [State.set, hf]
    · simp [State.set, hi]
  obtain ⟨j, b, -, rfl⟩ | ⟨j, srb, -, -, rfl⟩ | ⟨j, srb, f, -, -, hf, rfl⟩ | ⟨-, htrue, -⟩ :=
    step_cases hstep
  · exact ⟨⟨htimer, forall_set (P := P) hout j (f := { s.targets j with scsifilt := b }) (hout j)⟩,
      hset j _ rfl⟩
  · have hne : (handOver srb (s.targets j)).outstandingRedirectedSrbs ≠ 0 := Nat.succ_ne_zero _
    refine ⟨⟨?_, forall_set (P := P) hout j hne⟩, hset j _ rfl⟩
    have := hout j
    simp [redirectSrbThroughScsifilt, State.requestPoll, State.set, handOver, htimer, this]
  · obtain ⟨hne, rfl⟩ := completeRedirectedSrb_some hf
    exact ⟨⟨htimer, forall_set (P := P) hout j (hout j)⟩, hset j _ rfl⟩
  · rw [htimer] at htrue
    cases htrue

theorem Stuck.run {s t : State n} (h : Stuck s) {as : List (Action n)}
    (hrun : (machine n).runFrom Any s as = some t) : Stuck t ∧ ∀ j srb, done t j srb = done s j srb :=
  runFrom_inv (I := fun u => Stuck u ∧ ∀ j srb, done u j srb = done s j srb)
    (fun _ _ _ hu _ hstep =>
      ⟨(hu.1.step hstep).1, fun j srb => ((hu.1.step hstep).2 j srb).trans (hu.2 j srb)⟩)
    ⟨h, fun _ _ => rfl⟩ hrun

/-- An SRB is redirected, its filter is detached, the timer expires, and the SRB comes back. -/
def detached : List (Action 1) := [.switchTo 0, .redirect 0 7, .switchFrom 0, .expire, .complete 0 7]

/-- Nobody picks it up. -/
theorem detached_not_served : ∃ s : State 1, Reach (machine 1) Any s ∧
    (s.targets 0).pendingRedirectComplete = [7] ∧ Stuck s ∧ ¬Served s := by
  obtain ⟨s, hr, hs⟩ := exists_reach (machine 1) Any
    (fun s => decide ((s.targets 0).pendingRedirectComplete = [7] ∧ s.timer = false ∧
      ∀ j, (s.targets j).outstandingRedirectedSrbs ≠ 0)) detached (by decide)
  obtain ⟨hback, htimer, hout⟩ := of_decide_eq_true hs
  refine ⟨s, hr, hback, ⟨htimer, hout⟩, fun h => ?_⟩
  have := h.armed 0 (hout 0)
  rw [htimer] at this
  cases this

/-- A run in which the SRB is polled for twice. -/
theorem polled_twice_served : ∃ s : State 1, (s.targets 0).completed = [7] ∧ Served s := by
  obtain ⟨s, hr, hs⟩ := exists_reach (machine 1) Polled
    (fun s => decide ((s.targets 0).completed = [7]))
    [.switchTo 0, .redirect 0 7, .expire, .complete 0 7, .expire] (by decide)
  exact ⟨s, of_decide_eq_true hs, redirected_srbs_served hr⟩

end XcWindows.Xenvbd.Redirected
