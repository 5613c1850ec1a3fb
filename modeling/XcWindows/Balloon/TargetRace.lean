import XcWindows.Lib.Word
import XcWindows.Balloon.Run

/-!
# The race for the target

In one iteration the balloon worker reads `Balloon.TargetPages` up to three times: it compares it
with the current pages, and subtracts. `BalloonTargetChanged` runs on the watch thread and stores
between any two of these reads. The subtraction is one of `ULONG`s: when the target has changed sides
since the comparison, the worker asks for almost `2^32` pages.

`Raced` is the invariant of the runs in which no such store falls there (`SameSide`) and the set keeps
its count (`GivesBackApart`, `PutBackServed`).
-/

namespace XcWindows.Balloon

open XcWindows.Lib

/-- The worker's next read of `TargetPages`: for one of its comparisons, or for the argument of the
call behind it. -/
inductive TargetRead where
  | less
  | inflate
  | greater
  | deflate
  deriving DecidableEq

structure RaceState where
  balloon : State
  read : TargetRead
  /-- `TargetPages` as last read for an argument. -/
  operand : Nat

inductive RaceAct where
  /-- The store of `BalloonTargetChanged`. -/
  | target (pages : Nat)
  /-- The worker reads `TargetPages`; the flags are the `FIST` ones. -/
  | read (fistInflation fistDeflation : Bool)
  /-- A turn of `BalloonInflate` or `BalloonDeflate`. -/
  | inflate (env : InflateEnv)
  | deflate (env : DeflateEnv)

/-- The call of `BalloonInflate` or `BalloonDeflate` up to its loop: nothing is done for no pages or
when the `FIST` flag is set. -/
def RaceState.ask (s : RaceState) (phase : Phase) (skip : Bool) (requested : Nat) : RaceState :=
  { s with
    balloon := if skip ∨ requested = 0 then s.balloon else { s.balloon with phase }
    read := .less
    operand := s.balloon.targetPages }

/-- The worker's next read of `TargetPages`. -/
def readTarget (s : RaceState) (fistInflation fistDeflation : Bool) : RaceState :=
  let target := s.balloon.targetPages
  let current := s.balloon.currentPages
  match s.read with
  | .less => { s with read := if target < current then .inflate else .greater }
  | .inflate =>
    let requested := sub32 current target
    s.ask (.inflating requested 0) fistInflation requested
  | .greater => { s with read := if target > current then .deflate else .less }
  | .deflate =>
    let requested := sub32 target current
    s.ask (.deflating requested 0) fistDeflation requested

def raceStep (s : RaceState) : RaceAct → Option RaceState
  | .target pages => (step s.balloon (.target pages)).map fun balloon => { s with balloon }
  | .read fistInflation fistDeflation =>
    if s.balloon.phase = .idle then some (readTarget s fistInflation fistDeflation) else none
  | .inflate env => (step s.balloon (.inflate env)).map fun balloon => { s with balloon }
  | .deflate env => (step s.balloon (.deflate env)).map fun balloon => { s with balloon }

/-- `MaxPages` is a `ULONG`. -/
def raceInit (maxPages : Nat) : RaceState := ⟨init (u32 maxPages), .less, u32 maxPages⟩

def raceMachine (maxPages : Nat) : Machine RaceState RaceAct := ⟨raceInit maxPages, raceStep⟩

/-! ## What is asked for -/

/-- The number of pages asked for is the difference that was compared; to deflate, the set has had as
many when the call began. -/
def AskedOk (s : RaceState) : Prop :=
  match s.balloon.phase with
  | .idle => True
  | .inflating requested _ => requested + s.operand = s.balloon.currentPages
  | .deflating requested returned =>
    s.balloon.currentPages + requested = s.operand ∧
      requested ≤ s.balloon.balloonedOut.length + returned

/-- A store between a comparison and its subtraction keeps the target on its side. -/
def SameSide (s : RaceState) (pages : Nat) : Prop :=
  match s.read with
  | .inflate => min pages s.balloon.maxPages ≤ s.balloon.currentPages
  | .deflate => s.balloon.currentPages ≤ min pages s.balloon.maxPages
  | _ => True

/-- The set keeps its count: nothing given back to Windows follows a frame that stays, and there is an
entry for what is put back. -/
def RaceOk (s : RaceState) : RaceAct → Prop
  | .target pages => SameSide s pages
  | .read _ _ => True
  | .inflate env => TurnOk s.balloon (.inflate env)
  | .deflate env => TurnOk s.balloon (.deflate env)

structure Raced (maxPages : Nat) (s : RaceState) : Prop where
  balanced : Balanced maxPages s.balloon
  idle : s.read ≠ .less → s.balloon.phase = .idle
  inflate : s.read = .inflate → s.balloon.targetPages ≤ s.balloon.currentPages
  deflate : s.read = .deflate → s.balloon.currentPages ≤ s.balloon.targetPages
  asked : AskedOk s

section Race
variable {maxPages : Nat} {s : RaceState} {t : State}

theorem raced_init (maxPages : Nat) : Raced (u32 maxPages) (raceInit maxPages) where
  balanced := balanced_init _
  idle h := absurd rfl h
  inflate h := by cases h
  deflate h := by cases h
  asked := trivial

theorem Balanced.current_le (h : Balanced maxPages t) (hph : t.phase = .idle) :
    t.balloonedOut.length + t.currentPages = t.maxPages := by
  simpa only [PagesOk, hph] using h.pages

theorem Raced.ask (h : Raced maxPages s) {phase : Phase} {skip : Bool} {requested : Nat}
    (hph : s.balloon.phase = .idle) (hpages : PagesOk { s.balloon with phase })
    (hasked : AskedOk { s with balloon := { s.balloon with phase }
                               operand := s.balloon.targetPages }) :
    Raced maxPages (s.ask phase skip requested) := by
  have hb := h.balanced
  by_cases hskip : skip = true ∨ requested = 0
  · unfold RaceState.ask
    rw [if_pos hskip]
    refine ⟨hb, fun hc => absurd rfl hc, fun hc => (by cases hc), fun hc => (by cases hc), ?_⟩
    simp only [AskedOk, hph]
  · unfold RaceState.ask
    rw [if_neg hskip]
    exact ⟨⟨hb.rs, hb.set, hb.taken, hb.frames, hpages, hb.target, hb.max, hb.noCrash⟩,
      fun hc => absurd rfl hc, fun hc => (by cases hc), fun hc => (by cases hc), hasked⟩

theorem Raced.read (h : Raced maxPages s) (hmax : maxPages < 4294967296)
    (hph : s.balloon.phase = .idle) (fistInflation fistDeflation : Bool) :
    Raced maxPages (readTarget s fistInflation fistDeflation) := by
  have hb := h.balanced
  have hcur := hb.current_le hph
  have htarget := hb.target
  have hm := hb.max
  have hasked := h.asked
  unfold readTarget
  split
  · refine ⟨hb, fun _ => hph, ?_, ?_, hasked⟩
    · simp only
      split
      · intro _; omega
      · intro hc; cases hc
    · simp only
      split <;> exact fun hc => by cases hc
  · next hread =>
    have hle := h.inflate hread
    have hsub : sub32 s.balloon.currentPages s.balloon.targetPages =
        s.balloon.currentPages - s.balloon.targetPages := by simp only [sub32]; omega
    apply h.ask hph
    · rw [hsub]
      simp only [PagesOk, State.balloonedOut] at *
      omega
    · rw [hsub]
      simp only [AskedOk]
      omega
  · refine ⟨hb, fun _ => hph, ?_, ?_, hasked⟩
    · simp only
      split <;> exact fun hc => by cases hc
    · simp only
      split
      · intro _; omega
      · intro hc; cases hc
  · next hread =>
    have hle := h.deflate hread
    have hsub : sub32 s.balloon.targetPages s.balloon.currentPages =
        s.balloon.targetPages - s.balloon.currentPages := by simp only [sub32]; omega
    apply h.ask hph
    · rw [hsub]
      simp only [PagesOk, State.balloonedOut] at *
      omega
    · rw [hsub]
      simp only [AskedOk, State.balloonedOut] at *
      omega

theorem balloonInflate_phase {requested acquired : Nat} {env : InflateEnv} {b : State}
    (heq : balloonInflate b requested acquired env = some t) :
    t.phase = .idle ∨ (∃ n, t.phase = .inflating requested n) ∧ t.currentPages = b.currentPages := by
  simp only [balloonInflate, Option.bind_eq_bind, Option.bind_eq_some_iff] at heq
  obtain ⟨array, -, ⟨released, rs⟩, -, freed, -, heq⟩ := heq
  split at heq
  · cases heq; exact .inl rfl
  · cases heq; exact .inr ⟨⟨_, rfl⟩, rfl⟩

theorem balloonDeflate_phase {requested returned : Nat} {env : DeflateEnv} {b : State}
    (heq : balloonDeflate b requested returned env = some t) :
    t.phase = .idle ∨ (∃ n, t.phase = .deflating requested n) ∧ t.currentPages = b.currentPages := by
  simp only [balloonDeflate, Option.bind_eq_bind, Option.bind_eq_some_iff] at heq
  obtain ⟨⟨array, populated, rs⟩, -, freed, -, heq⟩ := heq
  split at heq
  · cases heq; exact .inl rfl
  · cases heq; exact .inr ⟨⟨_, rfl⟩, rfl⟩

theorem raced_turn (hread : s.read = .less) (ht : Balanced maxPages t)
    (hasked : AskedOk { s with balloon := t }) : Raced maxPages { s with balloon := t } :=
  ⟨ht, fun hc => absurd hread hc, fun hc => (by rw [hread] at hc; cases hc),
    fun hc => (by rw [hread] at hc; cases hc), hasked⟩

/-- During an operation the worker's next read is its first. -/
theorem Raced.less (h : Raced maxPages s) (hph : s.balloon.phase ≠ .idle) : s.read = .less := by
  by_contra hc
  exact hph (h.idle hc)

theorem Raced.step {a : RaceAct} {s' : RaceState} (hmax : maxPages < 4294967296)
    (h : Raced maxPages s) (hok : RaceOk s a) (hs : raceStep s a = some s') : Raced maxPages s' := by
  have hb := h.balanced
  have hasked := h.asked
  cases a with
  | target pages =>
    simp only [raceStep, Option.map_eq_some_iff] at hs
    obtain ⟨t, ht, rfl⟩ := hs
    have hbt := hb.step (a := .target pages) trivial ht
    obtain rfl := Option.some.inj ht
    refine ⟨hbt, h.idle, fun hc => ?_, fun hc => ?_, hasked⟩
    · simp only [RaceOk, SameSide] at hok
      rw [hc] at hok
      exact hok
    · simp only [RaceOk, SameSide] at hok
      rw [hc] at hok
      exact hok
  | read fistInflation fistDeflation =>
    simp only [raceStep] at hs
    split at hs
    · next hph => cases hs; exact h.read hmax hph _ _
    · cases hs
  | inflate env =>
    simp only [raceStep, Option.map_eq_some_iff] at hs
    obtain ⟨t, ht, rfl⟩ := hs
    have hbt := hb.step (a := .inflate env) hok ht
    simp only [Balloon.step] at ht
    split at ht
    · next requested acquired hph =>
      split at ht
      · apply raced_turn (h.less (by simp [hph])) hbt
        cases hturn : balloonInflate s.balloon requested acquired env with
        | none =>
          rw [hturn] at ht
          obtain rfl := Option.some.inj ht
          exact hasked
        | some u =>
          rw [hturn] at ht
          obtain rfl : u = t := Option.some.inj ht
          rcases balloonInflate_phase hturn with hidle | ⟨⟨n, hn⟩, hcur⟩
          · simp only [AskedOk, hidle]
          · simp only [AskedOk, hph] at hasked
            simp only [AskedOk, hn, hcur]
            exact hasked
      · cases ht
    · cases ht
  | deflate env =>
    simp only [raceStep, Option.map_eq_some_iff] at hs
    obtain ⟨t, ht, rfl⟩ := hs
    have hbt := hb.step (a := .deflate env) hok ht
    simp only [Balloon.step] at ht
    split at ht
    · next requested returned hph =>
      apply raced_turn (h.less (by simp [hph])) hbt
      cases hturn : balloonDeflate s.balloon requested returned env with
      | none =>
        rw [hturn] at ht
        obtain rfl := Option.some.inj ht
        exact hasked
      | some u =>
        rw [hturn] at ht
        obtain rfl : u = t := Option.some.inj ht
        rcases balloonDeflate_phase hturn with hidle | ⟨⟨n, hn⟩, hcur⟩
        · simp only [AskedOk, hidle]
        · have hpu := hbt.pages
          simp only [PagesOk, hn, hcur] at hpu
          simp only [AskedOk, hph] at hasked
          simp only [AskedOk, hn, hcur]
          exact ⟨hasked.1, by omega⟩
    · cases ht

theorem raced_of_reach (h : (raceMachine maxPages).Reach RaceOk s) : Raced (u32 maxPages) s :=
  h.inv (raced_init maxPages) fun _ _ _ hi hok hs => hi.step (Nat.mod_lt _ (by decide)) hok hs

/-- However the updates of the target fall, as long as none between a comparison and its subtraction
changes sides and the set keeps its count, the worker asks for the difference it has compared, which
is no more than there is. -/
theorem target_race (h : (raceMachine maxPages).Reach RaceOk s) : AskedOk s :=
  (raced_of_reach h).asked

end Race

/-- Two pages are ballooned out. -/
def twoOut : List RaceAct :=
  [.target 8, .read false false, .read false false,
    .inflate ⟨[5, 3], fun _ => true, fun _ => true, 2, false, false⟩]

/-- The target falls to 6, the worker compares, and the target rises to 10 before it subtracts. -/
theorem target_race_underflows : ∃ s, (raceMachine 10).Reach Machine.Any s ∧
    s.balloon.phase = .inflating 4294967294 0 ∧ s.balloon.currentPages = 8 ∧ ¬ AskedOk s := by
  obtain ⟨s, hr, hp⟩ := Machine.exists_reach (raceMachine 10) Machine.Any
    (fun s => s.balloon.phase = .inflating 4294967294 0 ∧ s.balloon.currentPages = 8)
    (List.flatten [twoOut, [.target 6, .read false false, .target 10, .read false false]]) (by decide +kernel)
  simp only [decide_eq_true_eq] at hp
  refine ⟨s, hr, hp.1, hp.2, fun hc => ?_⟩
  simp only [AskedOk, hp.1, hp.2] at hc
  omega

instance (s : RaceState) (pages : Nat) : Decidable (SameSide s pages) :=
  match h : s.read with
  | .inflate => decidable_of_iff (min pages s.balloon.maxPages ≤ s.balloon.currentPages)
      (by simp [SameSide, h])
  | .deflate => decidable_of_iff (s.balloon.currentPages ≤ min pages s.balloon.maxPages)
      (by simp [SameSide, h])
  | .less => isTrue (by simp [SameSide, h])
  | .greater => isTrue (by simp [SameSide, h])

instance (s : RaceState) : ∀ a, Decidable (RaceOk s a)
  | .target pages => inferInstanceAs (Decidable (SameSide s pages))
  | .read _ _ => isTrue trivial
  | .inflate env => inferInstanceAs (Decidable (TurnOk s.balloon (.inflate env)))
  | .deflate env => inferInstanceAs (Decidable (TurnOk s.balloon (.deflate env)))

/-- The target rises while the worker is about to deflate, and it asks for both pages. -/
theorem target_race_run : ∃ s, (raceMachine 10).Reach RaceOk s ∧
    (s.balloon.phase = .deflating 2 0 ∧ s.balloon.currentPages = 8) ∧ AskedOk s := by
  obtain ⟨s, hr, hp⟩ := Machine.exists_reach (raceMachine 10) RaceOk
    (fun s => s.balloon.phase = .deflating 2 0 ∧ s.balloon.currentPages = 8)
    (List.flatten [twoOut,
      [.target 9, .read false false, .read false false, .target 10, .read false false]])
    (by decide +kernel)
  exact ⟨s, hr, by simpa using hp, target_race hr⟩

end XcWindows.Balloon
