import XcWindows.Lib.Machine
import XcWindows.Lib.Num

/-!
# Quiescing the processors

`xenutil/suspend.c`: the CPU that holds `_g_QuiesceLock` captures every other CPU in a DPC
(`SpinProcessorDpc`) and then, together with them, raises to `HIGH_LEVEL` and takes one from the
shared `processorCount`. A CPU that has spun for too long gives its one back and lowers its IRQL
for a while; nobody leaves `GatherInterruptDisabledProcessors` before the count is 0. `CpuPc` are
the places of a CPU between its accesses to what the CPUs share.
-/

namespace XcWindows.Suspend

open Lib
open Function (update update_of_ne update_self)

def quiesceWait : Nat := 2048

/-- Where a CPU is in `GatherInterruptDisabledProcessors`. -/
inductive GatherPc where
  | raise
  | decrement
  /-- the test of the inner loop -/
  | spin (spinCount : Nat)
  | readOld (spinCount : Nat)
  | exchange (spinCount : Nat) (old : Int)
  | lower
  /-- the test of the outer loop, after the CPU has backed off or not -/
  | check (raised : Bool)
deriving DecidableEq

/-- Where a CPU is. -/
inductive CpuPc (n : Nat) where
  | idle
  -- QuiesceSystem
  | acquire
  | launch (numbers : List (Fin n))
  | waitDpcs
  | setPhase
  | gather (initiator : Bool) (g : GatherPc)
  | waitAdvance
  /-- `QuiesceSystem` has returned -/
  | quiesced
  -- UnquiesceSystem
  | unquiesce
  | unlock
  -- SpinProcessorDpc
  | dpc
  | waitPhase
  | advance
  | waitRelease
  | lower
deriving DecidableEq

structure System (n : Nat) where
  /-- the CPU that holds `_g_QuiesceLock` -/
  quiesceLock : Option (Fin n)
  processorSpinCount1 : Int
  processorSpinCount2 : Int
  quiescePhase : Bool
  /-- the local of `QuiesceSystem` that the DPCs point to -/
  processorCount : Int
  /-- whether the DPC of a CPU is queued -/
  queued : Fin n → Bool
  /-- whether a CPU is at `HIGH_LEVEL` -/
  high : Fin n → Bool
  pc : Fin n → CpuPc n

namespace System

variable {n : Nat} (s : System n) (c : Fin n)

def goto (pc : CpuPc n) : System n := { s with pc := update s.pc c pc }

def setHigh (high : Bool) : System n := { s with high := update s.high c high }

/-- The next step of `GatherInterruptDisabledProcessors`; `initiator` tells which function called. -/
def gatherStep (initiator : Bool) : GatherPc → System n
  | .raise => (s.setHigh c true).goto c (.gather initiator .decrement)
  | .decrement =>
    { s with processorCount := s.processorCount - 1 }.goto c (.gather initiator (.spin 0))
  | .spin k =>
    if s.processorCount = 0 then s.goto c (.gather initiator (.check true))
    else if k + 1 > quiesceWait then s.goto c (.gather initiator (.readOld (k + 1)))
    else s.goto c (.gather initiator (.spin (k + 1)))
  | .readOld k =>
    if s.processorCount = 0 then s.goto c (.gather initiator (.check true))
    else s.goto c (.gather initiator (.exchange k s.processorCount))
  | .exchange k old =>
    if s.processorCount = old then
      { s with processorCount := old + 1 }.goto c (.gather initiator .lower)
    else s.goto c (.gather initiator (.spin k))
  | .lower => (s.setHigh c false).goto c (.gather initiator (.check false))
  | .check _ =>
    if s.processorCount ≠ 0 then s.goto c (.gather initiator .raise)
    else s.goto c (if initiator then .waitAdvance else .advance)

/-- The next step of a CPU. -/
def cpuStep : Option (System n) :=
  match s.pc c with
  | .idle | .quiesced => none
  | .acquire =>
    match s.quiesceLock with
    | some _ => none
    | none =>
      some ({ s with
        quiesceLock := some c
        processorSpinCount1 := n - 1
        processorSpinCount2 := n - 1
        processorCount := n }.goto c (.launch (List.finRange n)))
  | .launch [] => some (s.goto c .waitDpcs)
  | .launch (number :: numbers) =>
    some <|
      if number = c then s.goto c (.launch numbers)
      else { s with queued := update s.queued number true }.goto c (.launch numbers)
  | .waitDpcs => some (if s.processorSpinCount1 = 0 then s.goto c .setPhase else s)
  | .setPhase => some ({ s with quiescePhase := true }.goto c (.gather true .raise))
  | .gather initiator g => some (s.gatherStep c initiator g)
  | .waitAdvance => some (if s.processorSpinCount2 = 0 then s.goto c .quiesced else s)
  | .unquiesce => some ((s.setHigh c false).goto c .unlock)
  | .unlock => some ({ s with quiesceLock := none }.goto c .idle)
  | .dpc =>
    some ({ s with processorSpinCount1 := s.processorSpinCount1 - 1 }.goto c .waitPhase)
  | .waitPhase => some (if s.quiescePhase then s.goto c (.gather false .raise) else s)
  | .advance =>
    some ({ s with processorSpinCount2 := s.processorSpinCount2 - 1 }.goto c .waitRelease)
  | .waitRelease => some (if s.quiescePhase then s else s.goto c .lower)
  | .lower => some ((s.setHigh c false).goto c .idle)

end System

/-- What happens on a CPU: a thread calls `QuiesceSystem` or `UnquiesceSystem`, the CPU takes its
DPC, or it goes on. -/
inductive CpuAct where
  | quiesce
  | dpc
  | unquiesce
  | run
deriving DecidableEq

def System.step {n : Nat} (s : System n) (a : Fin n × CpuAct) : Option (System n) :=
  match a.2 with
  | .quiesce => if s.pc a.1 = .idle then some (s.goto a.1 .acquire) else none
  | .dpc =>
    if s.pc a.1 = .idle ∧ s.queued a.1 = true then
      some ({ s with queued := update s.queued a.1 false }.goto a.1 .dpc)
    else none
  | .unquiesce =>
    if s.pc a.1 = .quiesced then some ({ s with quiescePhase := false }.goto a.1 .unquiesce) else none
  | .run => s.cpuStep a.1

/-- `n` processors, none of them in the code above. -/
def quiesceMachine (n : Nat) : Machine (System n) (Fin n × CpuAct) where
  init :=
    { quiesceLock := none
      processorSpinCount1 := 0
      processorSpinCount2 := 0
      quiescePhase := false
      processorCount := 0
      queued := fun _ => false
      high := fun _ => false
      pc := fun _ => .idle }
  step := System.step

/-! ## What the places say -/

/-- The CPU is at `HIGH_LEVEL` here. -/
def GatherPc.atHigh : GatherPc → Bool
  | .raise => false
  | .check raised => raised
  | .decrement | .spin _ | .readOld _ | .exchange _ _ | .lower => true

/-- The CPU has taken its one from the count and not given it back. -/
def GatherPc.down : GatherPc → Bool
  | .spin _ | .readOld _ | .exchange _ _ => true
  | .check raised => raised
  | .raise | .decrement | .lower => false

namespace CpuPc

variable {n : Nat}

def atHigh : CpuPc n → Bool
  | .gather _ g => g.atHigh
  | .waitAdvance | .quiesced | .unquiesce | .advance | .waitRelease | .lower => true
  | .idle | .acquire | .launch _ | .waitDpcs | .setPhase | .unlock | .dpc | .waitPhase => false

def down : CpuPc n → Bool
  | .gather _ g => g.down
  | .waitAdvance | .quiesced | .advance | .waitRelease => true
  | .idle | .acquire | .launch _ | .waitDpcs | .setPhase | .unquiesce | .unlock | .dpc | .waitPhase
  | .lower => false

/-- The CPU has read a count of 0. -/
def seenZero : CpuPc n → Bool
  | .gather _ (.check raised) => raised
  | .waitAdvance | .quiesced | .advance | .waitRelease => true
  | _ => false

/-- The CPU is in the code between the acquisition of `_g_QuiesceLock` and its release. -/
def holds : CpuPc n → Bool
  | .launch _ | .waitDpcs | .setPhase | .waitAdvance | .quiesced | .unquiesce | .unlock => true
  | .gather initiator _ => initiator
  | .idle | .acquire | .dpc | .waitPhase | .advance | .waitRelease | .lower => false

/-- `QuiesceSystem` up to the change of the phase. -/
def launching : CpuPc n → Bool
  | .launch _ | .waitDpcs | .setPhase => true
  | _ => false

/-- The CPU that started phase 1. -/
def gathering : CpuPc n → Bool
  | .gather initiator _ => initiator
  | .waitAdvance | .quiesced => true
  | _ => false

/-- The CPU has left the last round, or is about to. -/
def outside : CpuPc n → Bool
  | .idle | .acquire | .waitRelease | .lower => true
  | _ => false

/-- The CPU is in its DPC while phase 1 lasts. -/
def inPhase1 : CpuPc n → Bool
  | .gather initiator _ => !initiator
  | .waitPhase | .advance | .waitRelease => true
  | _ => false

/-- Where CPU `c` can be, and whether its DPC can be queued, while the initiator is at a place. -/
def Aux (c : Fin n) (p : CpuPc n) (queued : Bool) : CpuPc n → Prop
  | .launch numbers => (p.outside = true ∧ (c ∈ numbers → queued = false)) ∨
      ((p = .dpc ∨ p = .waitPhase) ∧ queued = false ∧ c ∉ numbers)
  | .waitDpcs => p.outside = true ∨ ((p = .dpc ∨ p = .waitPhase) ∧ queued = false)
  | .setPhase => p = .waitPhase ∧ queued = false
  | .gather initiator _ => initiator = true ∧ p.inPhase1 = true ∧ queued = false
  | .waitAdvance => p.inPhase1 = true ∧ queued = false
  | .quiesced => p = .waitRelease ∧ queued = false
  | .unquiesce | .unlock => p.outside = true ∧ queued = false
  | .idle | .acquire | .dpc | .waitPhase | .advance | .waitRelease | .lower => False

end CpuPc

/-! ## The invariant -/

section Invariant

variable {n : Nat}

/-- A round of `c₀`: where the other CPUs are and what the counts count. -/
structure Round (s : System n) (c₀ : Fin n) : Prop where
  own : s.queued c₀ = false
  phase : s.quiescePhase = (s.pc c₀).gathering
  aux : ∀ c, c ≠ c₀ → CpuPc.Aux c (s.pc c) (s.queued c) (s.pc c₀)
  nodup : ∀ numbers, s.pc c₀ = .launch numbers → numbers.Nodup
  spin1 : (s.pc c₀).launching = true →
    s.processorSpinCount1 = num fun c => decide (c ≠ c₀) && decide (s.pc c ≠ .waitPhase)
  before : (s.pc c₀).launching = true → s.processorCount = n ∧ s.processorSpinCount2 = n - 1
  count : (s.pc c₀).gathering = true → s.processorCount = num fun c => !(s.pc c).down
  spin2 : (s.pc c₀).gathering = true →
    s.processorSpinCount2 = num fun c => decide (c ≠ c₀) && decide (s.pc c ≠ .waitRelease)
  zero : (s.pc c₀).gathering = true → ∀ c, (s.pc c).seenZero = true → s.processorCount = 0

structure QuiesceOk (s : System n) : Prop where
  holds : ∀ c, (s.pc c).holds = true ↔ s.quiesceLock = some c
  free : s.quiesceLock = none →
    s.quiescePhase = false ∧ ∀ c, (s.pc c).outside = true ∧ s.queued c = false
  round : ∀ c₀, s.quiesceLock = some c₀ → Round s c₀
  high : ∀ c, s.high c = (s.pc c).atHigh
  old : ∀ c initiator k old, s.pc c = .gather initiator (.exchange k old) → old ≠ 0

variable {s t : System n} {c c₀ : Fin n} {p : CpuPc n}

theorem num_others (c₀ : Fin n) {f : Fin n → Bool} (h : ∀ c, f c = decide (c ≠ c₀)) :
    (num f : Int) = n - 1 := by
  have h1 : num f + 1 = num fun _ : Fin n => true := by
    apply num_off (c := c₀) rfl
    · simp [h]
    · intro x hx; simp [h, hx]
  have h2 : (num fun _ : Fin n => true) = Fintype.card (Fin n) := num_of_all fun _ => rfl
  rw [Fintype.card_fin] at h2
  omega

/-- CPU `c` goes to `p`; what it does to the counts and the DPCs is left open. -/
structure Moves (s t : System n) (c : Fin n) (p : CpuPc n) : Prop where
  pc : t.pc = update s.pc c p
  lock : t.quiesceLock = s.quiesceLock
  high : t.high c = p.atHigh
  others : ∀ x, x ≠ c → t.high x = s.high x

theorem Moves.at (m : Moves s t c p) : t.pc c = p := by rw [m.pc, update_self]

theorem Moves.of_ne (m : Moves s t c p) {x : Fin n} (h : x ≠ c) : t.pc x = s.pc x := by
  rw [m.pc, update_of_ne h]

theorem QuiesceOk.move {p : CpuPc n} (h : QuiesceOk s) (m : Moves s t c p)
    (hp : p.holds = (s.pc c).holds)
    (hfree : s.quiesceLock = none →
      t.quiescePhase = false ∧ p.outside = true ∧ ∀ x, t.queued x = false)
    (hround : ∀ c₀, s.quiesceLock = some c₀ → Round s c₀ → Round t c₀)
    (hold : ∀ r k o, p = .gather r (.exchange k o) → o ≠ 0) : QuiesceOk t := by
  refine ⟨fun x => ?_, fun hl => ?_, fun c₀ hl => ?_, fun x => ?_, fun x r k o hx => ?_⟩
  · rw [m.lock]
    by_cases hx : x = c
    · subst hx; rw [m.at, hp]; exact h.holds x
    · rw [m.of_ne hx]; exact h.holds x
  · rw [m.lock] at hl
    obtain ⟨h1, h2, h3⟩ := hfree hl
    refine ⟨h1, fun x => ⟨?_, h3 x⟩⟩
    by_cases hx : x = c
    · subst hx; rw [m.at]; exact h2
    · rw [m.of_ne hx]; exact ((h.free hl).2 x).1
  · rw [m.lock] at hl
    exact hround c₀ hl (h.round c₀ hl)
  · by_cases hx : x = c
    · subst hx; rw [m.at, m.high]
    · rw [m.of_ne hx, m.others x hx, h.high x]
  · by_cases hxc : x = c
    · subst hxc; rw [m.at] at hx; exact hold r k o hx
    · rw [m.of_ne hxc] at hx; exact h.old x r k o hx

theorem CpuPc.outside_holds (h : p.outside = true) : p.holds = false := by
  cases p <;> first | rfl | cases h

theorem CpuPc.Aux.outside {q : Bool} {i p' : CpuPc n} (h : Aux c p q i) (hp : p.outside = true)
    (hp' : p'.outside = true) (hi : i.gathering = false) : Aux c p' q i := by
  cases i with
  | launch numbers =>
    rcases h with h | ⟨rfl | rfl, -⟩
    · exact .inl ⟨hp', h.2⟩
    · cases hp
    · cases hp
  | waitDpcs => exact .inl hp'
  | setPhase => rw [h.1] at hp; cases hp
  | gather r g => rw [h.1] at hi; cases hi
  | unquiesce | unlock => exact ⟨hp', h.2⟩
  | waitAdvance | quiesced => cases hi
  | _ => exact h.elim

theorem Round.move (h : Round s c₀) (m : Moves s t c p) (hc : c ≠ c₀)
    (hq : ∀ x, x ≠ c → t.queued x = s.queued x) (hph : t.quiescePhase = s.quiescePhase)
    (haux : CpuPc.Aux c p (t.queued c) (s.pc c₀))
    (h1 : (s.pc c₀).launching = true →
      t.processorSpinCount1 = num fun x => decide (x ≠ c₀) && decide (t.pc x ≠ .waitPhase))
    (hb : (s.pc c₀).launching = true → t.processorCount = n ∧ t.processorSpinCount2 = n - 1)
    (hcount : (s.pc c₀).gathering = true → t.processorCount = num fun x => !(t.pc x).down)
    (h2 : (s.pc c₀).gathering = true →
      t.processorSpinCount2 = num fun x => decide (x ≠ c₀) && decide (t.pc x ≠ .waitRelease))
    (hz : (s.pc c₀).gathering = true → ∀ x, (t.pc x).seenZero = true → t.processorCount = 0) :
    Round t c₀ := by
  have hc₀ := m.of_ne hc.symm
  refine ⟨?_, ?_, fun x hx => ?_, ?_, ?_, ?_, ?_, ?_, ?_⟩
  · rw [hq c₀ hc.symm]; exact h.own
  · rw [hph, hc₀]; exact h.phase
  · rw [hc₀]
    by_cases hxc : x = c
    · subst hxc; rw [m.at]; exact haux
    · rw [m.of_ne hxc, hq x hxc]; exact h.aux x hx
  all_goals rw [hc₀]
  · exact h.nodup
  · exact h1
  · exact hb
  · exact hcount
  · exact h2
  · exact hz

theorem QuiesceOk.phase0 (h : QuiesceOk s) (hs : (s.pc c).outside = true)
    (hne : s.pc c ≠ .waitRelease) : s.quiescePhase = false := by
  cases hl : s.quiesceLock with
  | none => exact (h.free hl).1
  | some c₀ =>
    have hr := h.round c₀ hl
    have hc : c ≠ c₀ := by
      rintro rfl
      have := (h.holds c).mpr hl
      rw [CpuPc.outside_holds hs] at this
      cases this
    have ha := hr.aux c hc
    rw [hr.phase]
    cases hi : s.pc c₀ <;> rw [hi] at ha <;> try rfl
    all_goals cases hp : s.pc c <;> simp_all [CpuPc.Aux, CpuPc.inPhase1, CpuPc.outside]

/-- A CPU between two rounds moves. -/
theorem QuiesceOk.moveOutside (h : QuiesceOk s) (m : Moves s t c p)
    (hs : (s.pc c).outside = true) (hp : p.outside = true) (hph : s.quiescePhase = false)
    (hq : t.queued = s.queued) (hph' : t.quiescePhase = s.quiescePhase)
    (h1 : t.processorSpinCount1 = s.processorSpinCount1)
    (h2 : t.processorSpinCount2 = s.processorSpinCount2)
    (h3 : t.processorCount = s.processorCount) : QuiesceOk t := by
  refine h.move m ?_ (fun hl => ⟨by rw [hph', hph], hp, fun x => ?_⟩) (fun c₀ hl hr => ?_) ?_
  · rw [CpuPc.outside_holds hp, CpuPc.outside_holds hs]
  · rw [hq]; exact ((h.free hl).2 x).2
  · have hne : c ≠ c₀ := by
      rintro rfl
      have := (h.holds c).mpr hl
      rw [CpuPc.outside_holds hs] at this
      cases this
    have hg : (s.pc c₀).gathering = false := by rw [← hr.phase, hph]
    refine hr.move m hne (fun x _ => by rw [hq]) hph' ?_ (fun hl => ?_) (fun hl => ?_) ?_ ?_ ?_
    · rw [hq]; exact (hr.aux c hne).outside hs hp hg
    · rw [h1, hr.spin1 hl]
      refine congrArg _ (num_congr fun x => ?_)
      by_cases hx : x = c
      · subst hx
        have e1 : t.pc x ≠ .waitPhase := by rw [m.at]; rintro rfl; cases hp
        have e2 : s.pc x ≠ .waitPhase := by intro e; rw [e] at hs; cases hs
        simp [e1, e2]
      · rw [m.of_ne hx]
    · rw [h2, h3]; exact hr.before hl
    all_goals intro hl; rw [hg] at hl; cases hl
  · rintro r k o rfl; cases hp

/-- A CPU in its DPC takes part in a round of another. -/
theorem QuiesceOk.inRound (h : QuiesceOk s) (hp : (s.pc c).outside = false)
    (hh : (s.pc c).holds = false) : ∃ c₀, s.quiesceLock = some c₀ ∧ c ≠ c₀ ∧ Round s c₀ := by
  cases hl : s.quiesceLock with
  | none =>
    have := ((h.free hl).2 c).1
    rw [hp] at this
    cases this
  | some c₀ =>
    refine ⟨c₀, rfl, ?_, h.round c₀ hl⟩
    rintro rfl
    have := (h.holds c).mpr hl
    rw [hh] at this
    cases this

theorem Round.inPhase1 (h : Round s c₀) (hg : (s.pc c₀).gathering = true) {x : Fin n} (hx : x ≠ c₀) :
    (s.pc x).inPhase1 = true ∧ s.queued x = false := by
  have ha := h.aux x hx
  cases hi : s.pc c₀ <;> rw [hi] at ha hg <;> try cases hg
  · exact ⟨ha.2.1, ha.2.2⟩
  · exact ha
  · exact ⟨by rw [ha.1]; rfl, ha.2⟩

theorem Moves.num_congr (m : Moves s t c p) (f : Fin n → CpuPc n → Bool)
    (h : f c p = f c (s.pc c)) : (num fun x => f x (t.pc x)) = num fun x => f x (s.pc x) := by
  apply Lib.num_congr
  intro x
  by_cases hx : x = c
  · subst hx; rw [m.at, h]
  · rw [m.of_ne hx]

theorem Moves.num_off (m : Moves s t c p) (f : Fin n → CpuPc n → Bool) (h1 : f c (s.pc c) = true)
    (h2 : f c p = false) : (num fun x => f x (t.pc x)) + 1 = num fun x => f x (s.pc x) :=
  Lib.num_off h1 (by rw [m.at, h2]) fun x hx => by rw [m.of_ne hx]

theorem Moves.num_on (m : Moves s t c p) (f : Fin n → CpuPc n → Bool) (h1 : f c (s.pc c) = false)
    (h2 : f c p = true) : (num fun x => f x (t.pc x)) = (num fun x => f x (s.pc x)) + 1 :=
  Lib.num_on h1 (by rw [m.at, h2]) fun x hx => by rw [m.of_ne hx]

theorem Round.phase1 (h : Round s c₀) (hg : (s.pc c₀).gathering = true) (m : Moves s t c p)
    (hnq : s.pc c₀ ≠ .quiesced)
    (hp : c = c₀ ∧ (p = .waitAdvance ∨ ∃ g, p = .gather true g) ∨ c ≠ c₀ ∧ p.inPhase1 = true)
    (hq : t.queued = s.queued) (hph : t.quiescePhase = s.quiescePhase)
    (hcount : t.processorCount = num fun x => !(t.pc x).down)
    (h2 : t.processorSpinCount2 = num fun x => decide (x ≠ c₀) && decide (t.pc x ≠ .waitRelease))
    (hz : ∀ x, (t.pc x).seenZero = true → t.processorCount = 0) : Round t c₀ := by
  have hnl : ∀ p : CpuPc n, p.gathering = true → p.launching = false := by
    intro p hp; cases p <;> first | rfl | cases hp
  rcases hp with ⟨rfl, hp⟩ | ⟨hc, hp⟩
  · have hgp : p.gathering = true := by rcases hp with rfl | ⟨g, rfl⟩ <;> rfl
    refine ⟨by rw [hq]; exact h.own, ?_, fun x hx => ?_, ?_, ?_, ?_, fun _ => hcount, fun _ => h2,
      fun _ => hz⟩
    all_goals rw [m.at]
    · rw [hph, h.phase, hg, hgp]
    · obtain ⟨h3, h4⟩ := h.inPhase1 hg hx
      rw [m.of_ne hx, hq]
      rcases hp with rfl | ⟨g, rfl⟩
      · exact ⟨h3, h4⟩
      · exact ⟨rfl, h3, h4⟩
    · rcases hp with rfl | ⟨g, rfl⟩ <;> intro l e <;> cases e
    all_goals intro hl; rw [hnl p hgp] at hl; cases hl
  · refine h.move m hc (fun x _ => by rw [hq]) hph ?_ ?_ ?_ (fun _ => hcount) (fun _ => h2)
      (fun _ => hz)
    · have hqc : t.queued c = false := by rw [hq]; exact (h.inPhase1 hg hc).2
      cases hi : s.pc c₀ <;> rw [hi] at hg hnq <;> try cases hg
      · exact ⟨rfl, hp, hqc⟩
      · exact ⟨hp, hqc⟩
      · exact absurd rfl hnq
    all_goals intro hl; rw [hnl _ hg] at hl; cases hl

/-- A CPU in `GatherInterruptDisabledProcessors` is in phase 1. -/
theorem QuiesceOk.inGather {r : Bool} {g : GatherPc} (h : QuiesceOk s) (hc : s.pc c = .gather r g) :
    ∃ c₀, s.quiesceLock = some c₀ ∧ Round s c₀ ∧ (s.pc c₀).gathering = true ∧
      s.pc c₀ ≠ .quiesced ∧ (r = true ∧ c = c₀ ∨ r = false ∧ c ≠ c₀) := by
  cases r with
  | true =>
    have hl := (h.holds c).mp (by rw [hc]; rfl)
    exact ⟨c, hl, h.round c hl, by rw [hc]; rfl, by rw [hc]; simp, .inl ⟨rfl, rfl⟩⟩
  | false =>
    obtain ⟨c₀, hl, hne, hr⟩ := h.inRound (c := c) (by rw [hc]; rfl) (by rw [hc]; rfl)
    have ha := hr.aux c hne
    rw [hc] at ha
    refine ⟨c₀, hl, hr, ?_, ?_, .inr ⟨rfl, hne⟩⟩
    · cases hi : s.pc c₀ <;> rw [hi] at ha <;> simp_all [CpuPc.Aux, CpuPc.gathering, CpuPc.outside]
    · intro hi
      rw [hi] at ha
      cases ha.1

/-- The counts and the DPCs are as they were. -/
structure Keeps (s t : System n) : Prop where
  queued : t.queued = s.queued
  phase : t.quiescePhase = s.quiescePhase
  spin1 : t.processorSpinCount1 = s.processorSpinCount1
  spin2 : t.processorSpinCount2 = s.processorSpinCount2

theorem QuiesceOk.gatherMove {r : Bool} {g : GatherPc} (h : QuiesceOk s)
    (hc : s.pc c = .gather r g) (m : Moves s t c p) (k : Keeps s t)
    (hp : (∃ g', p = .gather r g') ∨ p = (if r then .waitAdvance else .advance))
    (hcount : s.processorCount = (num fun x => !(s.pc x).down) →
      t.processorCount = num fun x => !(t.pc x).down)
    (hz : (∀ x, (s.pc x).seenZero = true → s.processorCount = 0) →
      s.processorCount = (num fun x => !(s.pc x).down) →
      ∀ x, (t.pc x).seenZero = true → t.processorCount = 0)
    (hold : ∀ r k o, p = .gather r (.exchange k o) → o ≠ 0) : QuiesceOk t := by
  obtain ⟨c₀, hl, hr, hg, hnq, hrole⟩ := h.inGather hc
  have hpr : p ≠ .waitRelease := by
    rcases hp with ⟨g', rfl⟩ | rfl
    · simp
    · split <;> simp
  refine h.move m ?_ (fun hn => ?_) (fun c₁ hl' hr' => ?_) hold
  · rw [hc]
    rcases hp with ⟨g', rfl⟩ | rfl
    · rfl
    · cases r <;> rfl
  · rw [hl] at hn; cases hn
  · rw [hl] at hl'
    cases hl'
    refine hr.phase1 hg m hnq ?_ k.queued k.phase (hcount (hr.count hg)) ?_
      (hz (hr.zero hg) (hr.count hg))
    · rcases hrole with ⟨rfl, rfl⟩ | ⟨rfl, hne⟩
      · rcases hp with ⟨g', rfl⟩ | rfl
        · exact .inl ⟨rfl, .inr ⟨g', rfl⟩⟩
        · exact .inl ⟨rfl, .inl rfl⟩
      · refine .inr ⟨hne, ?_⟩
        rcases hp with ⟨g', rfl⟩ | rfl <;> rfl
    · rw [k.spin2, hr.spin2 hg]
      refine congrArg _ (m.num_congr (fun x q => decide (x ≠ c₀) && decide (q ≠ .waitRelease)) ?_).symm
      rw [hc]
      simp [hpr]

/-- Who has not read a count of 0 yet keeps it that way. -/
theorem Moves.seenZero (m : Moves s t c p) (hp : p.seenZero = false)
    (h : ∀ x, (s.pc x).seenZero = true → s.processorCount = 0) :
    ∀ x, (t.pc x).seenZero = true → s.processorCount = 0 := by
  intro x hx
  by_cases hxc : x = c
  · subst hxc; rw [m.at, hp] at hx; cases hx
  · rw [m.of_ne hxc] at hx; exact h x hx

theorem goto_moves {s' : System n} (hpc : s'.pc = s.pc) (hl : s'.quiesceLock = s.quiesceLock)
    (hh : s'.high c = p.atHigh) (ho : ∀ x, x ≠ c → s'.high x = s.high x) :
    Moves s (s'.goto c p) c p :=
  ⟨by simp only [System.goto, hpc], hl, hh, ho⟩

theorem QuiesceOk.gather {r : Bool} {g : GatherPc} (h : QuiesceOk s) (hc : s.pc c = .gather r g) :
    QuiesceOk (s.gatherStep c r g) := by
  have hhigh := h.high c
  rw [hc] at hhigh
  have hat : ∀ p : CpuPc n, p.atHigh = g.atHigh → s.high c = p.atHigh := by
    intro p hp; rw [hhigh, hp]; rfl
  have hsame : ∀ p : CpuPc n, p.down = g.down → ∀ {t : System n}, Moves s t c p →
      t.processorCount = s.processorCount →
      s.processorCount = (num fun x => !(s.pc x).down) →
      t.processorCount = num fun x => !(t.pc x).down := by
    intro p hp t m ht hs
    rw [ht, hs]
    exact congrArg _ (m.num_congr (fun _ q => !q.down) (by rw [hp, hc]; rfl)).symm
  -- `processorCount = 0` means that this CPU, too, has taken its one
  have hdown : s.processorCount = 0 → s.processorCount = (num fun x => !(s.pc x).down) →
      g.down = true := by
    intro h0 hs
    rw [h0] at hs
    have := num_eq_zero.mp (by exact_mod_cast hs.symm) c
    simpa [hc, CpuPc.down] using this
  cases g with
  | raise =>
    have m : Moves s ((s.setHigh c true).goto c (.gather r .decrement)) c _ :=
      goto_moves rfl rfl (by simp [System.setHigh, CpuPc.atHigh, GatherPc.atHigh])
        fun x hx => update_of_ne hx _ _
    exact h.gatherMove hc m ⟨rfl, rfl, rfl, rfl⟩ (.inl ⟨_, rfl⟩) (hsame _ rfl m rfl)
      (fun hz _ => m.seenZero rfl hz) (by simp)
  | decrement =>
    simp only [System.gatherStep]
    have m : Moves s ({ s with processorCount := s.processorCount - 1 }.goto c
        (.gather r (.spin 0))) c _ := goto_moves rfl rfl (hat _ rfl) fun _ _ => rfl
    refine h.gatherMove hc m ⟨rfl, rfl, rfl, rfl⟩ (.inl ⟨_, rfl⟩) (fun hs => ?_) (fun hz hs x hx => ?_)
      (by simp)
    · have := m.num_off (fun _ q => !q.down) (by rw [hc]; rfl) rfl
      simp only [System.goto] at this ⊢
      omega
    · have := hdown (m.seenZero rfl hz x hx) hs
      cases this
  | spin k =>
    simp only [System.gatherStep]
    split
    · next h0 =>
      have m : Moves s (s.goto c (.gather r (.check true))) c _ :=
        goto_moves rfl rfl (hat _ rfl) fun _ _ => rfl
      exact h.gatherMove hc m ⟨rfl, rfl, rfl, rfl⟩ (.inl ⟨_, rfl⟩) (hsame _ rfl m rfl)
        (fun _ _ _ _ => h0) (by simp)
    · split
      · have m : Moves s (s.goto c (.gather r (.readOld (k + 1)))) c _ :=
          goto_moves rfl rfl (hat _ rfl) fun _ _ => rfl
        exact h.gatherMove hc m ⟨rfl, rfl, rfl, rfl⟩ (.inl ⟨_, rfl⟩) (hsame _ rfl m rfl)
          (fun hz _ => m.seenZero rfl hz) (by simp)
      · have m : Moves s (s.goto c (.gather r (.spin (k + 1)))) c _ :=
          goto_moves rfl rfl (hat _ rfl) fun _ _ => rfl
        exact h.gatherMove hc m ⟨rfl, rfl, rfl, rfl⟩ (.inl ⟨_, rfl⟩) (hsame _ rfl m rfl)
          (fun hz _ => m.seenZero rfl hz) (by simp)
  | readOld k =>
    simp only [System.gatherStep]
    split
    · next h0 =>
      have m : Moves s (s.goto c (.gather r (.check true))) c _ :=
        goto_moves rfl rfl (hat _ rfl) fun _ _ => rfl
      exact h.gatherMove hc m ⟨rfl, rfl, rfl, rfl⟩ (.inl ⟨_, rfl⟩) (hsame _ rfl m rfl)
        (fun _ _ _ _ => h0) (by simp)
    · next h0 =>
      have m : Moves s (s.goto c (.gather r (.exchange k s.processorCount))) c _ :=
        goto_moves rfl rfl (hat _ rfl) fun _ _ => rfl
      refine h.gatherMove hc m ⟨rfl, rfl, rfl, rfl⟩ (.inl ⟨_, rfl⟩) (hsame _ rfl m rfl)
        (fun hz _ => m.seenZero rfl hz) ?_
      intro r' k' o e
      cases e
      exact h0
  | exchange k old =>
    simp only [System.gatherStep]
    split
    · next heq =>
      have m : Moves s ({ s with processorCount := old + 1 }.goto c (.gather r .lower)) c _ :=
        goto_moves rfl rfl (hat _ rfl) fun _ _ => rfl
      refine h.gatherMove hc m ⟨rfl, rfl, rfl, rfl⟩ (.inl ⟨_, rfl⟩) (fun hs => ?_)
        (fun hz _ x hx => ?_) (by simp)
      · have := m.num_on (fun _ q => !q.down) (by rw [hc]; rfl) rfl
        simp only [System.goto] at this ⊢
        omega
      · have h0 := m.seenZero rfl hz x hx
        exact absurd (heq.symm.trans h0) (h.old c r k old hc)
    · have m : Moves s (s.goto c (.gather r (.spin k))) c _ :=
        goto_moves rfl rfl (hat _ rfl) fun _ _ => rfl
      exact h.gatherMove hc m ⟨rfl, rfl, rfl, rfl⟩ (.inl ⟨_, rfl⟩) (hsame _ rfl m rfl)
        (fun hz _ => m.seenZero rfl hz) (by simp)
  | lower =>
    have m : Moves s ((s.setHigh c false).goto c (.gather r (.check false))) c _ :=
      goto_moves rfl rfl (by simp [System.setHigh, CpuPc.atHigh, GatherPc.atHigh])
        fun x hx => update_of_ne hx _ _
    exact h.gatherMove hc m ⟨rfl, rfl, rfl, rfl⟩ (.inl ⟨_, rfl⟩) (hsame _ rfl m rfl)
      (fun hz _ => m.seenZero rfl hz) (by simp)
  | check raised =>
    obtain ⟨c₀, -, hr, hg, -, -⟩ := h.inGather hc
    simp only [System.gatherStep]
    split
    · next hne =>
      cases raised with
      | true => exact absurd (hr.zero hg c (by rw [hc]; rfl)) hne
      | false =>
        have m : Moves s (s.goto c (.gather r .raise)) c _ :=
          goto_moves rfl rfl (hat _ rfl) fun _ _ => rfl
        exact h.gatherMove hc m ⟨rfl, rfl, rfl, rfl⟩ (.inl ⟨_, rfl⟩) (hsame _ rfl m rfl)
          (fun hz _ => m.seenZero rfl hz) (by simp)
    · next h0 =>
      have h0 := not_not.mp h0
      have hd := hdown h0 (hr.count hg)
      cases raised with
      | false => cases hd
      | true =>
        have m : Moves s (s.goto c (if r then .waitAdvance else .advance)) c _ :=
          goto_moves rfl rfl (hat _ (by cases r <;> rfl)) fun _ _ => rfl
        exact h.gatherMove hc m ⟨rfl, rfl, rfl, rfl⟩ (.inr rfl) (hsame _ (by cases r <;> rfl) m rfl)
          (fun _ _ _ _ => h0) (by cases r <;> simp)

theorem QuiesceOk.takeDpc (h : QuiesceOk s) (hc : s.pc c = .idle) (hq : s.queued c = true) :
    QuiesceOk ({ s with queued := update s.queued c false }.goto c .dpc) := by
  have m : Moves s ({ s with queued := update s.queued c false }.goto c .dpc) c .dpc :=
    goto_moves rfl rfl (by rw [h.high c, hc]; rfl) fun _ _ => rfl
  refine h.move m (by rw [hc]; rfl) (fun hl => ?_) (fun c₀ hl hr => ?_) (by simp)
  · rw [((h.free hl).2 c).2] at hq; cases hq
  · have hne : c ≠ c₀ := by
      rintro rfl
      rw [hr.own] at hq
      cases hq
    have hg : (s.pc c₀).gathering = false := by
      by_contra hg
      rw [(hr.inPhase1 (by simpa using hg) hne).2] at hq
      cases hq
    refine hr.move m hne (fun x hx => update_of_ne hx _ _) rfl ?_ (fun hl => ?_) hr.before ?_ ?_ ?_
    · have ha := hr.aux c hne
      rw [hc, hq] at ha
      have hq' : update s.queued c false c = false := update_self ..
      simp only [System.goto, hq']
      cases hi : s.pc c₀ <;> rw [hi] at ha <;> simp_all [CpuPc.Aux]
    · show s.processorSpinCount1 = _
      rw [hr.spin1 hl]
      refine congrArg _ (m.num_congr (fun x q => decide (x ≠ c₀) && decide (q ≠ .waitPhase)) ?_).symm
      rw [hc]
      simp
    all_goals intro hl; rw [hg] at hl; cases hl

theorem QuiesceOk.moveAux (h : QuiesceOk s) (m : Moves s t c p) (hs : (s.pc c).outside = false)
    (hh : (s.pc c).holds = false) (hp : p.holds = false)
    (hold : ∀ r k o, p = .gather r (.exchange k o) → o ≠ 0)
    (hround : ∀ c₀, c ≠ c₀ → Round s c₀ → Round t c₀) : QuiesceOk t := by
  obtain ⟨c₁, hl₁, hne, -⟩ := h.inRound hs hh
  refine h.move m (by rw [hp, hh]) (fun hl => ?_) (fun c₀ hl hr => hround c₀ ?_ hr) hold
  · rw [hl] at hl₁; cases hl₁
  · rw [hl] at hl₁
    cases hl₁
    exact hne

theorem QuiesceOk.dpc (h : QuiesceOk s) (hc : s.pc c = .dpc) :
    QuiesceOk ({ s with processorSpinCount1 := s.processorSpinCount1 - 1 }.goto c .waitPhase) := by
  have m : Moves s ({ s with processorSpinCount1 := s.processorSpinCount1 - 1 }.goto c .waitPhase) c
    .waitPhase := goto_moves rfl rfl (by rw [h.high c, hc]; rfl) fun _ _ => rfl
  refine h.moveAux m (by rw [hc]; rfl) (by rw [hc]; rfl) rfl (by simp) fun c₀ hne hr => ?_
  have ha := hr.aux c hne
  rw [hc] at ha
  have hg : (s.pc c₀).gathering = false := by
    by_contra hg
    have := (hr.inPhase1 (by simpa using hg) hne).1
    rw [hc] at this
    cases this
  refine hr.move m hne (fun _ _ => rfl) rfl ?_ (fun hl => ?_) hr.before ?_ ?_ ?_
  · simp only [System.goto]
    cases hi : s.pc c₀ <;> rw [hi] at ha <;> simp_all [CpuPc.Aux, CpuPc.outside, CpuPc.inPhase1]
  · have h1 := hr.spin1 hl
    have h2 := m.num_off (fun x q => decide (x ≠ c₀) && decide (q ≠ .waitPhase))
      (by rw [hc]; simp [hne]) (by simp)
    simp only [System.goto] at h1 h2 ⊢
    omega
  all_goals intro hl; rw [hg] at hl; cases hl

/-- A CPU in its DPC sees phase 1. -/
theorem QuiesceOk.enter (h : QuiesceOk s) (hc : s.pc c = .waitPhase) (hph : s.quiescePhase = true) :
    QuiesceOk (s.goto c (.gather false .raise)) := by
  have m : Moves s (s.goto c (.gather false .raise)) c _ :=
    goto_moves rfl rfl (by rw [h.high c, hc]; rfl) fun _ _ => rfl
  refine h.moveAux m (by rw [hc]; rfl) (by rw [hc]; rfl) rfl (by simp) fun c₀ hne hr => ?_
  have hg : (s.pc c₀).gathering = true := by rw [← hr.phase, hph]
  refine hr.phase1 hg m ?_ (.inr ⟨hne, rfl⟩) rfl rfl ?_ ?_ (m.seenZero rfl (hr.zero hg))
  · intro hi
    have ha := hr.aux c hne
    rw [hc, hi] at ha
    cases ha.1
  · show s.processorCount = _
    rw [hr.count hg]
    exact congrArg _ (m.num_congr (fun _ q => !q.down) (by rw [hc]; rfl)).symm
  · show s.processorSpinCount2 = _
    rw [hr.spin2 hg]
    refine congrArg _ (m.num_congr (fun x q => decide (x ≠ c₀) && decide (q ≠ .waitRelease)) ?_).symm
    rw [hc]
    simp

/-- A CPU that has left the loop tells the initiator. -/
theorem QuiesceOk.advance (h : QuiesceOk s) (hc : s.pc c = .advance) :
    QuiesceOk ({ s with processorSpinCount2 := s.processorSpinCount2 - 1 }.goto c .waitRelease) := by
  have m : Moves s ({ s with processorSpinCount2 := s.processorSpinCount2 - 1 }.goto c .waitRelease) c
    .waitRelease := goto_moves rfl rfl (by rw [h.high c, hc]; rfl) fun _ _ => rfl
  refine h.moveAux m (by rw [hc]; rfl) (by rw [hc]; rfl) rfl (by simp) fun c₀ hne hr => ?_
  have ha := hr.aux c hne
  rw [hc] at ha
  have hg : (s.pc c₀).gathering = true := by
    cases hi : s.pc c₀ <;> rw [hi] at ha <;> simp_all [CpuPc.Aux, CpuPc.gathering, CpuPc.outside]
  have h0 := hr.zero hg c (by rw [hc]; rfl)
  refine hr.phase1 hg m ?_ (.inr ⟨hne, rfl⟩) rfl rfl ?_ ?_ (fun _ _ => h0)
  · intro hi
    rw [hi] at ha
    cases ha.1
  · show s.processorCount = _
    rw [hr.count hg]
    exact congrArg _ (m.num_congr (fun _ q => !q.down) (by rw [hc]; rfl)).symm
  · have h1 := hr.spin2 hg
    have h2 := m.num_off (fun x q => decide (x ≠ c₀) && decide (q ≠ .waitRelease))
      (by rw [hc]; simp [hne]) (by simp)
    simp only [System.goto] at h1 h2 ⊢
    omega

/-- The initiator starts a round. -/
theorem QuiesceOk.acquire (h : QuiesceOk s) (hc : s.pc c = .acquire) (hl : s.quiesceLock = none) :
    QuiesceOk ({ s with
      quiesceLock := some c
      processorSpinCount1 := n - 1
      processorSpinCount2 := n - 1
      processorCount := n }.goto c (.launch (List.finRange n))) := by
  obtain ⟨hph, hout⟩ := h.free hl
  refine ⟨fun x => ?_, fun hl' => ?_, fun c₀ hl' => ?_, fun x => ?_, fun x r k o hx => ?_⟩
  · simp only [System.goto, Option.some.injEq]
    by_cases hx : x = c
    · subst hx; simp [CpuPc.holds]
    · rw [update_of_ne hx, CpuPc.outside_holds (hout x).1]
      simp [Ne.symm hx]
  · simp [System.goto] at hl'
  · simp only [System.goto, Option.some.injEq] at hl'
    subst hl'
    have hpc : ∀ x, x ≠ c → update s.pc c (.launch (List.finRange n)) x = s.pc x :=
      fun x hx => update_of_ne hx _ _
    refine ⟨(hout c).2, ?_, fun x hx => ?_, ?_, fun _ => ?_, fun _ => ⟨rfl, rfl⟩, ?_, ?_, ?_⟩
    all_goals simp only [System.goto, update_self]
    · exact hph
    · rw [hpc x hx]
      exact .inl ⟨(hout x).1, fun _ => (hout x).2⟩
    · intro l e
      cases e
      exact List.nodup_finRange n
    · refine (num_others c fun x => ?_).symm
      by_cases hx : x = c
      · simp [hx]
      · have hne : s.pc x ≠ .waitPhase := by
          intro e
          have := (hout x).1
          rw [e] at this
          cases this
        simp [hx, hne]
    all_goals intro hg; cases hg
  · by_cases hx : x = c
    · subst hx
      simp only [System.goto, update_self]
      rw [h.high x, hc]
      rfl
    · simp only [System.goto, update_of_ne hx]
      exact h.high x
  · by_cases hxc : x = c
    · subst hxc; simp [System.goto] at hx
    · simp only [System.goto, update_of_ne hxc] at hx
      exact h.old x r k o hx

theorem QuiesceOk.moveHolder (h : QuiesceOk s) (m : Moves s t c p) (hs : (s.pc c).holds = true)
    (hp : p.holds = true) (hold : ∀ r k o, p = .gather r (.exchange k o) → o ≠ 0)
    (hround : Round s c → Round t c) : QuiesceOk t := by
  have hl := (h.holds c).mp hs
  refine h.move m (by rw [hp, hs]) (fun hn => ?_) (fun c₀ hl' hr => ?_) hold
  · rw [hl] at hn; cases hn
  · rw [hl] at hl'
    cases hl'
    exact hround hr

/-- The initiator goes on before the change of the phase. -/
theorem Round.launch (h : Round s c) (m : Moves s t c p) (hs : (s.pc c).launching = true)
    (hp : p.launching = true) (hn : ∀ numbers, p = .launch numbers → numbers.Nodup)
    (hown : t.queued c = false) (hph : t.quiescePhase = s.quiescePhase)
    (h1 : t.processorSpinCount1 = s.processorSpinCount1)
    (h2 : t.processorSpinCount2 = s.processorSpinCount2)
    (h3 : t.processorCount = s.processorCount)
    (haux : ∀ x, x ≠ c → CpuPc.Aux x (s.pc x) (t.queued x) p) : Round t c := by
  have hng : ∀ p : CpuPc n, p.launching = true → p.gathering = false := by
    intro p hp; cases p <;> first | rfl | cases hp
  refine ⟨hown, ?_, fun x hx => ?_, ?_, fun _ => ?_, fun _ => ?_, ?_, ?_, ?_⟩
  all_goals try rw [m.at]
  · rw [hph, h.phase, hng p hp, hng _ hs]
  · rw [m.of_ne hx]; exact haux x hx
  · exact hn
  · rw [h1, h.spin1 hs]
    exact congrArg _ (m.num_congr (fun x q => decide (x ≠ c) && decide (q ≠ .waitPhase)) (by simp)).symm
  · rw [h2, h3]; exact h.before hs
  all_goals intro hg; rw [hng p hp] at hg; cases hg

/-- A CPU that is at its old IRQL goes to a place with the same. -/
theorem QuiesceOk.movesTo (h : QuiesceOk s) (hp : p.atHigh = (s.pc c).atHigh) {s' : System n}
    (hpc : s'.pc = s.pc) (hl : s'.quiesceLock = s.quiesceLock) (hh : s'.high = s.high) :
    Moves s (s'.goto c p) c p :=
  goto_moves hpc hl (by rw [hh, h.high c, hp]) fun x _ => by rw [hh]

theorem QuiesceOk.queue {number : Fin n} {numbers : List (Fin n)} (h : QuiesceOk s)
    (hc : s.pc c = .launch (number :: numbers)) : QuiesceOk (if number = c then
      s.goto c (.launch numbers) else
      { s with queued := update s.queued number true }.goto c (.launch numbers)) := by
  have hnd : ∀ {t : System n}, Round s c → ∀ l, CpuPc.launch numbers = .launch l → l.Nodup := by
    intro t hr l e
    cases e
    exact (List.nodup_cons.mp (hr.nodup _ hc)).2
  split
  · next heq =>
    refine h.moveHolder (h.movesTo (by rw [hc]; rfl) rfl rfl rfl) (by rw [hc]; rfl) rfl (by simp) fun hr => ?_
    refine hr.launch (h.movesTo (by rw [hc]; rfl) rfl rfl rfl) (by rw [hc]; rfl) rfl (@hnd s hr) hr.own rfl rfl rfl
      rfl fun x hx => ?_
    have ha := hr.aux x hx
    rw [hc] at ha
    rcases ha with ⟨h1, h2⟩ | ⟨h1, h2, h3⟩
    · exact .inl ⟨h1, fun hm => h2 (List.mem_cons_of_mem _ hm)⟩
    · exact .inr ⟨h1, h2, fun hm => h3 (List.mem_cons_of_mem _ hm)⟩
  · next hne =>
    refine h.moveHolder (h.movesTo (by rw [hc]; rfl) rfl rfl rfl) (by rw [hc]; rfl) rfl (by simp) fun hr => ?_
    refine hr.launch (h.movesTo (by rw [hc]; rfl) rfl rfl rfl) (by rw [hc]; rfl) rfl (@hnd s hr) ?_ rfl rfl rfl
      rfl fun x hx => ?_
    · exact (update_of_ne (Ne.symm hne) _ _).trans hr.own
    · have ha := hr.aux x hx
      rw [hc] at ha
      have hmem := List.nodup_cons.mp (hr.nodup _ hc)
      simp only [System.goto]
      rcases ha with ⟨h1, h2⟩ | ⟨h1, h2, h3⟩
      · refine .inl ⟨h1, fun hm => ?_⟩
        have hxn : x ≠ number := by rintro rfl; exact hmem.1 hm
        rw [update_of_ne hxn]
        exact h2 (List.mem_cons_of_mem _ hm)
      · have hxn : x ≠ number := by rintro rfl; exact h3 (List.mem_cons_self ..)
        rw [update_of_ne hxn]
        exact .inr ⟨h1, h2, fun hm => h3 (List.mem_cons_of_mem _ hm)⟩

theorem QuiesceOk.queuedAll (h : QuiesceOk s) (hc : s.pc c = .launch []) :
    QuiesceOk (s.goto c .waitDpcs) := by
  have m := @QuiesceOk.movesTo n s c .waitDpcs h (by rw [hc]; rfl) s rfl rfl rfl
  refine h.moveHolder m (by rw [hc]; rfl) rfl (by simp) fun hr => ?_
  refine hr.launch m (by rw [hc]; rfl) rfl (by simp) hr.own rfl rfl rfl rfl fun x hx => ?_
  have ha := hr.aux x hx
  rw [hc] at ha
  rcases ha with ⟨h1, -⟩ | ⟨h1, h2, -⟩
  · exact .inl h1
  · exact .inr ⟨h1, h2⟩

theorem QuiesceOk.captured (h : QuiesceOk s) (hc : s.pc c = .waitDpcs)
    (h0 : s.processorSpinCount1 = 0) : QuiesceOk (s.goto c .setPhase) := by
  have m := @QuiesceOk.movesTo n s c .setPhase h (by rw [hc]; rfl) s rfl rfl rfl
  refine h.moveHolder m (by rw [hc]; rfl) rfl (by simp) fun hr => ?_
  refine hr.launch m (by rw [hc]; rfl) rfl (by simp) hr.own rfl rfl rfl rfl fun x hx => ?_
  have h1 := hr.spin1 (by rw [hc]; rfl)
  rw [h0] at h1
  have hx' := num_eq_zero.mp (by exact_mod_cast h1.symm) x
  simp only [hx, not_false_eq_true, decide_true, Bool.true_and, decide_eq_false_iff_not,
    not_not] at hx'
  have ha := hr.aux x hx
  rw [hc, hx'] at ha
  rcases ha with ha | ⟨-, ha⟩
  · cases ha
  · exact ⟨hx', ha⟩

theorem QuiesceOk.setPhase (h : QuiesceOk s) (hc : s.pc c = .setPhase) :
    QuiesceOk ({ s with quiescePhase := true }.goto c (.gather true .raise)) := by
  have m : Moves s ({ s with quiescePhase := true }.goto c (.gather true .raise)) c _ :=
    h.movesTo (by rw [hc]; rfl) rfl rfl rfl
  refine h.moveHolder m (by rw [hc]; rfl) rfl (by simp) fun hr => ?_
  have hx : ∀ x, x ≠ c → s.pc x = .waitPhase ∧ s.queued x = false := by
    intro x hx
    have ha := hr.aux x hx
    rw [hc] at ha
    exact ha
  obtain ⟨h1, h2⟩ := hr.before (by rw [hc]; rfl)
  refine ⟨hr.own, ?_, fun x hxc => ?_, ?_, ?_, ?_, fun _ => ?_, fun _ => ?_, fun _ x hz => ?_⟩
  · rw [m.at]; rfl
  · rw [m.at, m.of_ne hxc, (hx x hxc).1]
    exact ⟨rfl, rfl, (hx x hxc).2⟩
  · rw [m.at]; simp
  · rw [m.at]; intro hl; cases hl
  · rw [m.at]; intro hl; cases hl
  · refine h1.trans (congrArg Nat.cast ?_)
    refine ((num_of_all fun x => ?_).trans (Fintype.card_fin n)).symm
    by_cases hxc : x = c
    · subst hxc; rw [m.at]; rfl
    · rw [m.of_ne hxc, (hx x hxc).1]; rfl
  · refine h2.trans (num_others c fun x => ?_).symm
    by_cases hxc : x = c
    · simp [hxc]
    · rw [m.of_ne hxc, (hx x hxc).1]; simp
  · by_cases hxc : x = c
    · subst hxc; rw [m.at] at hz; cases hz
    · rw [m.of_ne hxc, (hx x hxc).1] at hz; cases hz

theorem QuiesceOk.quiesced (h : QuiesceOk s) (hc : s.pc c = .waitAdvance)
    (h0 : s.processorSpinCount2 = 0) : QuiesceOk (s.goto c .quiesced) := by
  have m := @QuiesceOk.movesTo n s c .quiesced h (by rw [hc]; rfl) s rfl rfl rfl
  refine h.moveHolder m (by rw [hc]; rfl) rfl (by simp) fun hr => ?_
  have hg : (s.pc c).gathering = true := by rw [hc]; rfl
  have hx : ∀ x, x ≠ c → s.pc x = .waitRelease := by
    intro x hx
    have h1 := hr.spin2 hg
    rw [h0] at h1
    have hx' := num_eq_zero.mp (by exact_mod_cast h1.symm) x
    simpa [hx] using hx'
  refine ⟨hr.own, ?_, fun x hxc => ?_, ?_, ?_, ?_, fun _ => ?_, fun _ => ?_, fun _ x _ => ?_⟩
  · rw [m.at]; exact hr.phase.trans hg
  · rw [m.at, m.of_ne hxc]
    exact ⟨hx x hxc, (hr.inPhase1 hg hxc).2⟩
  · rw [m.at]; simp
  · rw [m.at]; intro hl; cases hl
  · rw [m.at]; intro hl; cases hl
  · refine (hr.count hg).trans (congrArg _ ?_)
    exact (m.num_congr (fun _ q => !q.down) (by rw [hc]; rfl)).symm
  · refine (hr.spin2 hg).trans (congrArg _ ?_)
    exact (m.num_congr (fun x q => decide (x ≠ c) && decide (q ≠ .waitRelease)) (by simp)).symm
  · exact hr.zero hg c (by rw [hc]; rfl)

/-- The initiator goes on after phase 1. -/
theorem QuiesceOk.moveRelease (h : QuiesceOk s) (m : Moves s t c p) (hs : (s.pc c).holds = true)
    (hp : p = .unquiesce ∨ p = .unlock) (hph : t.quiescePhase = false) (hq : t.queued = s.queued)
    (hx : Round s c → ∀ x, x ≠ c → (s.pc x).outside = true ∧ s.queued x = false) : QuiesceOk t := by
  have hl : p.launching = false ∧ p.gathering = false ∧ p.holds = true := by
    rcases hp with rfl | rfl <;> exact ⟨rfl, rfl, rfl⟩
  refine h.moveHolder m hs hl.2.2 (by rcases hp with rfl | rfl <;> simp) fun hr => ?_
  refine ⟨by rw [hq]; exact hr.own, by rw [hph, m.at, hl.2.1], fun x hxc => ?_, ?_, ?_, ?_, ?_, ?_, ?_⟩
  · rw [m.at, m.of_ne hxc, hq]
    rcases hp with rfl | rfl <;> exact hx hr x hxc
  · rw [m.at]
    rcases hp with rfl | rfl <;> simp
  all_goals rw [m.at]
  all_goals intro hn; rcases hp with rfl | rfl <;> cases hn

theorem QuiesceOk.unlock (h : QuiesceOk s) (hc : s.pc c = .unlock) :
    QuiesceOk ({ s with quiesceLock := none }.goto c .idle) := by
  have hl := (h.holds c).mp (by rw [hc]; rfl)
  have hr := h.round c hl
  have hx : ∀ x, x ≠ c → (s.pc x).outside = true ∧ s.queued x = false := by
    intro x hx
    have ha := hr.aux x hx
    rw [hc] at ha
    exact ha
  have hpc : ∀ x, x ≠ c → update s.pc c .idle x = s.pc x :=
    fun x hx => update_of_ne hx _ _
  refine ⟨fun x => ?_, fun _ => ⟨?_, fun x => ?_⟩, fun c₀ hl' => ?_, fun x => ?_, fun x r k o hxo => ?_⟩
  all_goals simp only [System.goto] at *
  · by_cases hxc : x = c
    · subst hxc; simp [CpuPc.holds]
    · rw [hpc x hxc, CpuPc.outside_holds (hx x hxc).1]
      simp
  · rw [hr.phase, hc]; rfl
  · by_cases hxc : x = c
    · subst hxc; rw [update_self]; exact ⟨rfl, hr.own⟩
    · rw [hpc x hxc]; exact hx x hxc
  · cases hl'
  · by_cases hxc : x = c
    · subst hxc; rw [update_self, h.high x, hc]; rfl
    · rw [hpc x hxc]; exact h.high x
  · by_cases hxc : x = c
    · subst hxc; simp at hxo
    · rw [hpc x hxc] at hxo; exact h.old x r k o hxo

theorem QuiesceOk.run (h : QuiesceOk s) (hs : s.cpuStep c = some t) : QuiesceOk t := by
  unfold System.cpuStep at hs
  cases hc : s.pc c with
  | idle | quiesced => simp [hc] at hs
  | acquire =>
    cases hl : s.quiesceLock with
    | some c' => simp [hc, hl] at hs
    | none =>
      simp only [hc, hl, Option.some.injEq] at hs
      subst hs
      exact h.acquire hc hl
  | launch numbers =>
    cases numbers with
    | nil =>
      simp only [hc, Option.some.injEq] at hs
      subst hs
      exact h.queuedAll hc
    | cons number numbers =>
      simp only [hc, Option.some.injEq] at hs
      subst hs
      exact h.queue hc
  | waitDpcs =>
    simp only [hc, Option.some.injEq] at hs
    subst hs
    split
    · next h0 => exact h.captured hc h0
    · exact h
  | setPhase =>
    simp only [hc, Option.some.injEq] at hs
    subst hs
    exact h.setPhase hc
  | gather r g =>
    simp only [hc, Option.some.injEq] at hs
    subst hs
    exact h.gather hc
  | waitAdvance =>
    simp only [hc, Option.some.injEq] at hs
    subst hs
    split
    · next h0 => exact h.quiesced hc h0
    · exact h
  | unquiesce =>
    simp only [hc, Option.some.injEq] at hs
    subst hs
    have m : Moves s ((s.setHigh c false).goto c .unlock) c .unlock :=
      goto_moves rfl rfl (update_self ..) fun x hx => update_of_ne hx _ _
    have hr := h.round c ((h.holds c).mp (by rw [hc]; rfl))
    refine h.moveRelease m (by rw [hc]; rfl) (.inr rfl) ?_ rfl fun hr x hx => ?_
    · show s.quiescePhase = false
      rw [hr.phase, hc]; rfl
    · have ha := hr.aux x hx
      rw [hc] at ha
      exact ha
  | unlock =>
    simp only [hc, Option.some.injEq] at hs
    subst hs
    exact h.unlock hc
  | dpc =>
    simp only [hc, Option.some.injEq] at hs
    subst hs
    exact h.dpc hc
  | waitPhase =>
    simp only [hc, Option.some.injEq] at hs
    subst hs
    split
    · next hph => exact h.enter hc hph
    · exact h
  | advance =>
    simp only [hc, Option.some.injEq] at hs
    subst hs
    exact h.advance hc
  | waitRelease =>
    simp only [hc, Option.some.injEq] at hs
    subst hs
    split
    · exact h
    · next hph =>
      exact h.moveOutside (h.movesTo (by rw [hc]; rfl) rfl rfl rfl) (by rw [hc]; rfl) rfl
        (by simpa using hph) rfl rfl rfl rfl rfl
  | lower =>
    simp only [hc, Option.some.injEq] at hs
    subst hs
    have m : Moves s ((s.setHigh c false).goto c .idle) c .idle :=
      goto_moves rfl rfl (update_self ..) fun x hx => update_of_ne hx _ _
    exact h.moveOutside m (by rw [hc]; rfl) rfl (h.phase0 (by rw [hc]; rfl) (by rw [hc]; simp)) rfl rfl
      rfl rfl rfl

theorem QuiesceOk.step {a : Fin n × CpuAct} (h : QuiesceOk s) (hs : s.step a = some t) :
    QuiesceOk t := by
  obtain ⟨c, a⟩ := a
  cases a with
  | quiesce =>
    simp only [System.step] at hs
    split at hs <;> cases hs
    next hc =>
    exact h.moveOutside (h.movesTo (by rw [hc]; rfl) rfl rfl rfl) (by rw [hc]; rfl) rfl
      (h.phase0 (by rw [hc]; rfl) (by rw [hc]; simp)) rfl rfl rfl rfl rfl
  | dpc =>
    simp only [System.step] at hs
    split at hs <;> cases hs
    next hc => exact h.takeDpc hc.1 hc.2
  | unquiesce =>
    simp only [System.step] at hs
    split at hs <;> cases hs
    next hc =>
    have m : Moves s ({ s with quiescePhase := false }.goto c .unquiesce) c .unquiesce :=
      h.movesTo (by rw [hc]; rfl) rfl rfl rfl
    refine h.moveRelease m (by rw [hc]; rfl) (.inl rfl) rfl rfl fun hr x hx => ?_
    have ha := hr.aux x hx
    rw [hc] at ha
    rw [ha.1]
    exact ⟨rfl, ha.2⟩
  | run => exact h.run hs

theorem quiesceOk_init (n : Nat) : QuiesceOk (quiesceMachine n).init := by
  refine ⟨fun c => ?_, fun _ => ⟨rfl, fun _ => ⟨rfl, rfl⟩⟩, fun _ hl => ?_, fun _ => rfl, fun _ _ _ _ e => ?_⟩
  · simp [quiesceMachine, CpuPc.holds]
  · cases hl
  · cases e

end Invariant

/-! ## The barrier -/

namespace CpuPc

variable {n : Nat}

/-- The CPU is in `GatherInterruptDisabledProcessors`. -/
def inGather : CpuPc n → Bool
  | .gather _ _ => true
  | _ => false

/-- The CPU is at `HIGH_LEVEL` but has yet to take its one from the count, or to lower its IRQL
after it has given it back. -/
def between : CpuPc n → Bool
  | .gather _ .decrement | .gather _ .lower => true
  | _ => false

/-- The CPU uses the count, or is going to in this round. -/
def usesCount : CpuPc n → Bool
  | .dpc | .waitPhase | .gather _ _ => true
  | _ => false

/-- `QuiesceSystem` has returned on this CPU and the lock is still held. -/
def returned : CpuPc n → Bool
  | .quiesced | .unquiesce | .unlock => true
  | _ => false

end CpuPc

section Barrier

variable {n : Nat} {s t : System n} {c c₀ : Fin n}

theorem QuiesceOk.round_of (h : QuiesceOk s) (hc : (s.pc c₀).holds = true) : Round s c₀ :=
  h.round c₀ ((h.holds c₀).mp hc)

theorem CpuPc.gathering_holds {p : CpuPc n} (h : p.gathering = true) : p.holds = true := by
  cases p <;> first | exact h | cases h

/-- When the count is 0, every CPU has taken its one. -/
theorem Round.down (h : Round s c₀) (hg : (s.pc c₀).gathering = true) (h0 : s.processorCount = 0)
    (x : Fin n) : (s.pc x).down = true := by
  have hn := h.count hg
  rw [h0] at hn
  have hx := num_eq_zero.mp (by exact_mod_cast hn.symm) x
  exact (Bool.not_eq_false' ..).mp hx

theorem QuiesceOk.high_of_down (h : QuiesceOk s) {x : Fin n} (hx : (s.pc x).down = true) :
    s.high x = true := by
  rw [h.high x]
  cases hp : s.pc x with
  | gather r g =>
    rw [hp] at hx
    cases g <;> first | rfl | exact hx
  | waitAdvance | quiesced | advance | waitRelease => rfl
  | _ => rw [hp] at hx; cases hx

theorem leaves_at_zero {a : CpuAct} (hs : s.step (c, a) = some t) (hin : (s.pc c).inGather = true)
    (hout : (t.pc c).inGather = false) : s.processorCount = 0 := by
  obtain ⟨r, g, hc⟩ : ∃ r g, s.pc c = .gather r g := by
    cases hp : s.pc c <;> rw [hp] at hin <;> first | exact ⟨_, _, rfl⟩ | cases hin
  cases a <;> simp only [System.step, hc, reduceCtorEq, false_and, if_false] at hs
  simp only [System.cpuStep, hc, Option.some.injEq] at hs
  subst hs
  cases g <;> simp only [System.gatherStep] at hout <;> repeat' split at hout
  all_goals first | assumption | simp_all [System.goto, CpuPc.inGather]

theorem QuiesceOk.zero_stays {a : Fin n × CpuAct} (h : QuiesceOk s) (hg : (s.pc c₀).gathering = true)
    (h0 : s.processorCount = 0) (hs : s.step a = some t) : t.processorCount = 0 := by
  have hr := h.round_of (CpuPc.gathering_holds hg)
  obtain ⟨c, a⟩ := a
  cases a with
  | quiesce | dpc | unquiesce =>
    simp only [System.step] at hs
    split at hs <;> cases hs
    exact h0
  | run =>
    simp only [System.step, System.cpuStep] at hs
    cases hc : s.pc c with
    | acquire =>
      have hl := (h.holds c₀).mp (CpuPc.gathering_holds hg)
      simp [hc, hl] at hs
    | gather r g =>
      have hd := hr.down hg h0 c
      rw [hc] at hd
      simp only [hc, Option.some.injEq] at hs
      subst hs
      cases g with
      | decrement => cases hd
      | exchange k old =>
        have hne := h.old c r k old hc
        simp only [System.gatherStep]
        rw [if_neg (by rw [h0]; exact Ne.symm hne)]
        exact h0
      | _ =>
        simp only [System.gatherStep]
        repeat' split
        all_goals exact h0
    | launch numbers =>
      cases numbers <;> simp only [hc, Option.some.injEq] at hs <;> subst hs
      · exact h0
      · split <;> exact h0
    | idle | quiesced => simp [hc] at hs
    | _ =>
      simp only [hc, Option.some.injEq] at hs
      subst hs
      repeat' split
      all_goals exact h0

/-- In phase 1 the CPUs that have not taken their one are below `HIGH_LEVEL` or on their way. -/
theorem CpuPc.not_down {p : CpuPc n} (h : p.gathering = true ∨ p.inPhase1 = true) :
    (!p.down) = (!p.atHigh || p.between) ∧ ((!p.atHigh) = true → p.between = false) := by
  cases p with
  | gather r g => cases g <;> simp [down, GatherPc.down, atHigh, GatherPc.atHigh, between]
  | waitAdvance | quiesced | waitPhase | advance | waitRelease => exact ⟨rfl, fun _ => rfl⟩
  | _ => rcases h with h | h <;> cases h

theorem Round.not_used (h : Round s c₀) (hret : (s.pc c₀).returned = true) (x : Fin n) :
    (s.pc x).usesCount = false ∧ s.queued x = false := by
  have hout : ∀ p : CpuPc n, p.outside = true → p.usesCount = false := by
    intro p hp; cases p <;> first | rfl | cases hp
  by_cases hx : x = c₀
  · subst hx
    refine ⟨?_, h.own⟩
    cases hp : s.pc x <;> rw [hp] at hret <;> first | rfl | cases hret
  · have ha := h.aux x hx
    cases hi : s.pc c₀ <;> rw [hi] at ha hret <;> try cases hret
    · rw [ha.1]; exact ⟨rfl, ha.2⟩
    · exact ⟨hout _ ha.1, ha.2⟩
    · exact ⟨hout _ ha.1, ha.2⟩

end Barrier

/-- The barrier: a CPU leaves `GatherInterruptDisabledProcessors` only while all are at
`HIGH_LEVEL`; the count is the CPUs below `HIGH_LEVEL` and those that are between the IRQL and the
count; it stays 0; and once `QuiesceSystem` has returned nobody uses it. -/
theorem quiesce_barrier {n : Nat} {s : System n} (h : (quiesceMachine n).Reach Machine.Any s) :
    (∀ c a t, s.step (c, a) = some t → (s.pc c).inGather = true → (t.pc c).inGather = false →
      ∀ x, s.high x = true) ∧
    (∀ c₀, (s.pc c₀).launching = true → s.processorCount = n) ∧
    (∀ c₀, (s.pc c₀).gathering = true → s.processorCount =
      (num fun x => !s.high x) + num fun x => (s.pc x).between) ∧
    (∀ c₀ a t, (s.pc c₀).gathering = true → s.processorCount = 0 → s.step a = some t →
      t.processorCount = 0) ∧
    ∀ c₀, (s.pc c₀).returned = true → ∀ x, (s.pc x).usesCount = false ∧ s.queued x = false := by
  have hs : QuiesceOk s := h.inv (quiesceOk_init n) fun _ _ _ hs _ hst => hs.step hst
  refine ⟨fun c a t hst hin hout x => ?_, fun c₀ hl => ?_, fun c₀ hg => ?_, fun c₀ a t hg h0 hst => ?_,
    fun c₀ hret x => ?_⟩
  · have h0 := leaves_at_zero hst hin hout
    obtain ⟨r, g, hc⟩ : ∃ r g, s.pc c = .gather r g := by
      cases hp : s.pc c <;> rw [hp] at hin <;> first | exact ⟨_, _, rfl⟩ | cases hin
    obtain ⟨c₀, -, hr, hg, -⟩ := hs.inGather hc
    exact hs.high_of_down (hr.down hg h0 x)
  · exact ((hs.round_of (by cases hp : s.pc c₀ <;> rw [hp] at hl <;> first | rfl | cases hl)).before hl).1
  · have hr := hs.round_of (CpuPc.gathering_holds hg)
    have hx : ∀ x, (s.pc x).gathering = true ∨ (s.pc x).inPhase1 = true := by
      intro x
      by_cases hx : x = c₀
      · subst hx; exact .inl hg
      · exact .inr (hr.inPhase1 hg hx).1
    have hnum : (num fun x => !(s.pc x).down) =
        (num fun x => !s.high x) + num fun x => (s.pc x).between := by
      apply num_or
      · intro x; rw [hs.high x]; exact (CpuPc.not_down (hx x)).1
      · intro x; rw [hs.high x]; exact (CpuPc.not_down (hx x)).2
    rw [hr.count hg, hnum]
    exact Int.natCast_add _ _
  · exact hs.zero_stays hg h0 hst
  · refine (hs.round_of ?_).not_used hret x
    cases hp : s.pc c₀ <;> rw [hp] at hret <;> first | rfl | cases hret

/-- Right after the only CPU of a system has raised its IRQL, the count is still 1. -/
theorem count_not_below_high : ∃ s, (quiesceMachine 1).Reach Machine.Any s ∧
    (s.pc 0).gathering = true ∧ s.processorCount = 1 ∧ (num fun x => !s.high x) = 0 := by
  obtain ⟨s, hr, hs⟩ := Machine.exists_reach (quiesceMachine 1) Machine.Any
    (fun s => (s.pc 0).gathering = true ∧ s.processorCount = 1 ∧ (num fun x => !s.high x) = 0)
    ((0, .quiesce) :: .replicate 6 (0, .run)) (by decide +kernel)
  exact ⟨s, hr, by simpa using hs⟩

/-- Two CPUs, quiesced. -/
theorem quiesce_barrier_run : ∃ s, (quiesceMachine 2).Reach Machine.Any s ∧ s.pc 0 = .quiesced ∧
    (s.pc 1).usesCount = false ∧ s.processorCount =
      (num fun x => !s.high x) + num fun x => (s.pc x).between := by
  obtain ⟨s, hr, hs⟩ := Machine.exists_reach (quiesceMachine 2) Machine.Any
    (fun s => s.pc 0 = .quiesced)
    (List.flatten [[(0, .quiesce)], .replicate 4 (0, .run), [(1, .dpc), (1, .run)],
      .replicate 4 (0, .run), .replicate 6 (1, .run), .replicate 3 (0, .run)]) (by decide +kernel)
  have hq : s.pc 0 = .quiesced := by simpa using hs
  have hb := quiesce_barrier hr
  exact ⟨s, hr, hq, (hb.2.2.2.2 0 (by rw [hq]; rfl) 1).1, hb.2.2.1 0 (by rw [hq]; rfl)⟩

end XcWindows.Suspend
