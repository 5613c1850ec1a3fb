import XcWindows.Xenbus.WatchRun

/-!
# A watch that is unregistered from its own callback

`watchMachine` with the calls of `xenbus_unregister_watch` that a callback makes on the watch thread:
the callback does not go on before the call has returned. The comment in `xenbus_unregister_watch`
says that the only reference of the watch thread is the one for being queued; but the thread keeps
that reference, without the flag, until the callback has returned. So the call that unregisters the
watch whose callback makes it waits, and for the thread it runs on.
-/

namespace XcWindows.Xenbus.Watch

open Lib

structure Nested where
  bus : Bus
  /-- the watch that the callback on the watch thread is unregistering -/
  calling : Option Nat

inductive NestedAct where
  /-- a step of another thread, of the watch thread, or of a call of `xenbus_unregister_watch` -/
  | bus (a : Act)
  /-- the callback calls `xenbus_unregister_watch` -/
  | call (g : Nat)
deriving DecidableEq

namespace Nested

variable (s : Nested)

/-- The watch thread: a callback that is in `xenbus_unregister_watch` goes on when that returns. -/
def threadStep : Option Nested :=
  match s.calling with
  | none => (s.bus.step .thread).map fun b => { s with bus := b }
  | some g => if (s.bus.handler g).phase = .returned then some { s with calling := none } else none

def step : NestedAct → Option Nested
  | .bus .thread => s.threadStep
  | .bus a => (s.bus.step a).map fun b => { s with bus := b }
  | .call g =>
    match s.bus.thread, s.calling with
    | .running _, none => (s.bus.step (.unregister g)).map fun b => ⟨b, some g⟩
    | _, _ => none

/-- The callback of the watch is in `xenbus_unregister_watch` of the watch itself. -/
def InItself (h : Nat) : Prop := s.bus.thread = .running h ∧ s.calling = some h

/-- And that waits for the references to go, one of which is the thread's own. -/
def WaitsForItself (h : Nat) : Prop :=
  s.InItself h ∧ (s.bus.handler h).phase = .waiting ∧ s.bus.thread.holds h = 1

end Nested

def nestedMachine : Machine Nested NestedAct where
  init := ⟨watchMachine.init, none⟩
  step := Nested.step

/-- The watches are as they can be, and the one that is being unregistered was. -/
structure NestedOk (s : Nested) : Prop where
  watch : WatchOk s.bus
  called : ∀ g, s.calling = some g →
    (s.bus.handler g).phase ≠ .unused ∧ s.bus.active g = false

variable {s t : Nested} {h : Nat} {a : NestedAct}

theorem nested_step_cases (ht : s.step a = some t) :
    (∃ b, a = .bus b ∧ s.bus.step b = some t.bus ∧ t.calling = s.calling ∧
      (b = .thread → s.calling = none)) ∨
    (∃ g, s.calling = some g ∧ (s.bus.handler g).phase = .returned ∧ t = { s with calling := none }) ∨
    ∃ g, a = .call g ∧ s.calling = none ∧ s.bus.step (.unregister g) = some t.bus ∧
      t.calling = some g := by
  cases a with
  | call g =>
    simp only [Nested.step] at ht
    split at ht
    · next hc =>
      obtain ⟨b, hb, rfl⟩ := Option.map_eq_some_iff.mp ht
      exact .inr (.inr ⟨g, rfl, hc, hb, rfl⟩)
    · cases ht
  | bus b =>
    by_cases hb : b = .thread
    · subst hb
      simp only [Nested.step, Nested.threadStep] at ht
      split at ht
      · next hc =>
        obtain ⟨u, hu, rfl⟩ := Option.map_eq_some_iff.mp ht
        exact .inl ⟨.thread, rfl, hu, rfl, fun _ => hc⟩
      · next g hc =>
        obtain ⟨hp, ht⟩ := Option.ite_none_right_eq_some.mp ht
        exact .inr (.inl ⟨g, hc, hp, (Option.some.inj ht).symm⟩)
    · have hst : s.step (.bus b) = (s.bus.step b).map fun u => { s with bus := u } := by
        cases b <;> first | rfl | exact absurd rfl hb
      rw [hst] at ht
      obtain ⟨u, hu, rfl⟩ := Option.map_eq_some_iff.mp ht
      exact .inl ⟨b, rfl, hu, rfl, fun e => absurd e hb⟩

theorem unregister_inactive {b c : Bus} {g : Nat} (hc : b.step (.unregister g) = some c) :
    (c.handler g).phase ≠ .unused ∧ c.active g = false := by
  simp only [Bus.step] at hc
  obtain ⟨-, hc⟩ := Option.ite_none_right_eq_some.mp hc
  obtain rfl := Option.some.inj hc
  simp [Bus.active, Bus.setPhase, Bus.set]

theorem NestedOk.step (ok : NestedOk s) (ht : s.step a = some t) : NestedOk t := by
  rcases nested_step_cases ht with ⟨b, -, hb, hcall, -⟩ | ⟨g, -, -, rfl⟩ | ⟨g, -, -, hb, hcall⟩
  · refine ⟨ok.watch.step hb, fun g hg => ?_⟩
    obtain ⟨hk, hact⟩ := ok.called g (hcall ▸ hg)
    have hlt := ok.watch.known hk
    exact ⟨(ages_step ok.watch hb hlt).known hk, active_step ok.watch hb hlt hact⟩
  · exact ⟨ok.watch, fun g hg => by cases hg⟩
  · refine ⟨ok.watch.step hb, fun g' hg => ?_⟩
    obtain rfl := Option.some.inj (hcall.symm.trans hg)
    exact unregister_inactive hb

theorem nestedOk_init : NestedOk nestedMachine.init := ⟨watchOk_init, fun _ hg => by cases hg⟩

/-! ## The reference of the callback -/

theorem NestedOk.refcount_pos (ok : NestedOk s) (hself : s.InItself h) :
    s.bus.refs h ≠ 0 ∧ 1 ≤ (s.bus.handler h).refcount := by
  have hholds : s.bus.thread.holds h = 1 := by simp [hself.1, ThreadPc.holds]
  have hrefs : s.bus.refs h ≠ 0 := by
    unfold Bus.refs
    omega
  refine ⟨hrefs, ?_⟩
  rw [(ok.watch.own h).refcount]
  omega

theorem NestedOk.phase (ok : NestedOk s) (hself : s.InItself h) :
    (s.bus.handler h).phase = .unlinking ∨ (s.bus.handler h).phase = .check ∨
      (s.bus.handler h).phase = .waiting := by
  have hopen := ok.watch.not_closed (ok.refcount_pos hself).1
  have hact := (ok.called h hself.2).2
  unfold Bus.active at hact
  cases hp : (s.bus.handler h).phase <;> simp_all [Phase.closed]

theorem NestedOk.inItself_step (ok : NestedOk s) (hself : s.InItself h) (ht : s.step a = some t) :
    t.InItself h := by
  rcases nested_step_cases ht with ⟨b, -, hb, hcall, hthread⟩ | ⟨g, hg, hp, -⟩ | ⟨g, -, hnone, -, -⟩
  · have hne : b ≠ .thread := by
      intro e
      have := (hthread e).symm.trans hself.2
      cases this
    exact ⟨(queue_step hne hb).1.trans hself.1, hcall.trans hself.2⟩
  · obtain rfl := Option.some.inj (hg.symm.trans hself.2)
    have := ok.phase hself
    simp [hp] at this
  · rw [hself.2] at hnone
    cases hnone

theorem NestedOk.waits (ok : NestedOk s) (hself : s.InItself h)
    (hp : (s.bus.handler h).phase = .check) (ht : s.step (.bus (.unregistering h)) = some t) :
    t.WaitsForItself h := by
  have hself' := ok.inItself_step hself ht
  refine ⟨hself', ?_, by simp [hself'.1, ThreadPc.holds]⟩
  have hpos := (ok.refcount_pos hself).2
  have hne : (s.bus.handler h).refcount ≠ 0 := by omega
  simp only [Nested.step, Bus.step, Bus.unregisterStep, hp, hne, if_false, Option.map_some,
    Option.some.injEq] at ht
  subst ht
  simp [Bus.setPhase, Bus.set]

theorem unlink_enabled (hp : (s.bus.handler h).phase = .unlinking) :
    ∃ t, s.step (.bus (.unregistering h)) = some t ∧ (t.bus.handler h).phase = .check := by
  simp only [Nested.step, Bus.step, Bus.unregisterStep, hp, Option.map_some]
  exact ⟨_, rfl, by simp [Bus.setPhase, Bus.set]⟩

theorem check_enabled (hp : (s.bus.handler h).phase = .check) :
    ∃ t, s.step (.bus (.unregistering h)) = some t := by
  simp only [Nested.step, Bus.step, Bus.unregisterStep, hp, Option.map_some]
  exact ⟨_, rfl⟩

theorem NestedOk.reaches_wait (ok : NestedOk s) (hself : s.InItself h) :
    ∃ acts t, nestedMachine.runFrom Machine.Any s acts = some t ∧ t.WaitsForItself h := by
  have hcheck : ∀ {u : Nested}, NestedOk u → u.InItself h → (u.bus.handler h).phase = .check →
      ∃ t, u.step (.bus (.unregistering h)) = some t ∧ t.WaitsForItself h := by
    intro u ok hself hp
    obtain ⟨t, ht⟩ := check_enabled hp
    exact ⟨t, ht, ok.waits hself hp ht⟩
  rcases ok.phase hself with hp | hp | hp
  · obtain ⟨u, hu, hpu⟩ := unlink_enabled hp
    obtain ⟨t, ht, hw⟩ := hcheck (ok.step hu) (ok.inItself_step hself hu) hpu
    exact ⟨[.bus (.unregistering h), .bus (.unregistering h)], t,
      by simp [Machine.runFrom, nestedMachine, hu, ht], hw⟩
  · obtain ⟨t, ht, hw⟩ := hcheck ok hself hp
    exact ⟨[.bus (.unregistering h)], t, by simp [Machine.runFrom, nestedMachine, ht], hw⟩
  · exact ⟨[], s, rfl, hself, hp, by simp [hself.1, ThreadPc.holds]⟩

/-- `xenbus_unregister_watch` of a watch, called from the watch's own callback: under every schedule
the call stays in its loop, where it waits for the thread it runs on whenever it looks at the count,
and it is not true that it never waits. -/
theorem self_unregister_waits (hr : Machine.Reach nestedMachine Machine.Any s)
    (hself : s.InItself h) :
    (∀ acts t, nestedMachine.runFrom Machine.Any s acts = some t →
      t.InItself h ∧
      ((t.bus.handler h).phase = .unlinking ∨ (t.bus.handler h).phase = .check ∨
        (t.bus.handler h).phase = .waiting) ∧
      ((t.bus.handler h).phase = .check →
        ∀ u, t.step (.bus (.unregistering h)) = some u → u.WaitsForItself h)) ∧
    ¬ ∀ acts t, nestedMachine.runFrom Machine.Any s acts = some t → ¬ t.WaitsForItself h := by
  have ok : NestedOk s := hr.inv nestedOk_init fun _ _ _ ok _ ht => ok.step ht
  refine ⟨fun acts t ht => ?_, fun hnever => ?_⟩
  · obtain ⟨ok', hself'⟩ :=
      Machine.runFrom_inv (I := fun u => NestedOk u ∧ u.InItself h)
        (fun _ _ _ hi _ hst => ⟨hi.1.step hst, hi.1.inItself_step hi.2 hst⟩) ⟨ok, hself⟩ ht
    exact ⟨hself', ok'.phase hself', fun hp u hu => ok'.waits hself' hp hu⟩
  · obtain ⟨acts, t, ht, hw⟩ := ok.reaches_wait hself
    exact hnever acts t ht hw

/-- A watch fires once, and its callback unregisters it. -/
def selfUnregistering : List NestedAct :=
  [.bus (.watchPath "control/shutdown" false), .bus (.registered 0 true), .bus (.fire 0),
    .bus .thread, .bus .thread, .bus .thread, .bus .thread, .call 0]

theorem self_unregister_waits_once :
    ∃ s, Machine.Reach nestedMachine Machine.Any s ∧ s.InItself 0 ∧
      ¬ ∀ acts t, nestedMachine.runFrom Machine.Any s acts = some t → ¬ t.WaitsForItself 0 := by
  obtain ⟨s, hr, hs⟩ :=
    Machine.exists_reach nestedMachine Machine.Any
      (fun s => decide (s.bus.thread = .running 0 ∧ s.calling = some 0)) selfUnregistering
      (by decide +kernel)
  have hself : s.bus.thread = .running 0 ∧ s.calling = some 0 := of_decide_eq_true hs
  exact ⟨s, hr, hself, (self_unregister_waits hr hself).2⟩

/-- With nothing else queued, and nobody else at work. -/
theorem self_unregister_deadlock :
    ¬ ∀ s, Machine.Reach nestedMachine Machine.Any s → ∀ h, s.InItself h → ¬ s.WaitsForItself h := by
  intro hall
  obtain ⟨s, hr, hs⟩ :=
    Machine.exists_reach nestedMachine Machine.Any
      (fun s => decide (s.bus.thread = .running 0 ∧ s.calling = some 0 ∧
        (s.bus.handler 0).phase = .waiting))
      (List.flatten [selfUnregistering, [.bus (.unregistering 0), .bus (.unregistering 0)]])
      (by decide +kernel)
  obtain ⟨h1, h2, h3⟩ := of_decide_eq_true hs
  exact hall s hr 0 ⟨h1, h2⟩ ⟨⟨h1, h2⟩, h3, by simp [h1, ThreadPc.holds]⟩

end XcWindows.Xenbus.Watch
