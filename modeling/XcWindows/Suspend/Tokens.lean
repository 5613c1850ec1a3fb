import XcWindows.Lib.Machine
import XcWindows.Lib.Word

/-!
# Suspend tokens

`xenutil/suspend.c`: a caller of `EvtchnAllocateSuspendToken` puts its token on
`suspend_token_list`, or counts an anonymous one when there is no memory, and then waits until the
suspend thread is idle; `SuspendThread` clears `suspend_thread_idle` before it looks for tokens.
`CallPc` and `WorkerPc` are the places of a call and of the thread between their accesses to the
shared variables; what `suspend_token_lock` protects is one step. A call of the machine is one
token, from its allocation to its release, and there are as many as one likes.
-/

namespace XcWindows.Suspend

open Lib
open Function (update update_of_ne update_self)

/-- Where the use of a token is; `anonymous` tells whether there was no memory for it. -/
inductive CallPc where
  | start
  /-- the token was counted or listed, `suspend_thread` is still to be read -/
  | inserted (anonymous : Bool)
  /-- in `KeWaitForSingleObject` -/
  | waiting (anonymous : Bool)
  /-- `EvtchnAllocateSuspendToken` has returned -/
  | held (anonymous : Bool)
  /-- `EvtchnReleaseSuspendToken` has yet to signal the thread -/
  | released
  | done
deriving DecidableEq

/-- Where `SuspendThread` is. -/
inductive WorkerPc where
  | none
  | start
  | top
  | wait
  | awake
  | read
  | checkCount
  | checkList
  | remove
  | suspending
deriving DecidableEq

/-- What `xenbus_read` finds in `control/shutdown`. -/
inductive Shutdown where
  | unreadable
  | suspend
  | other
deriving DecidableEq

/-- `LaunchSuspendThread` between the creation of the thread and the store to `suspend_thread`, or
`KillSuspendThread` waiting for the thread. -/
inductive ControlPc where
  | idle
  | spawned
  | killing
deriving DecidableEq

structure State where
  tokenList : List Nat
  anonymousTokenCount : Nat
  suspendThread : Bool
  suspendThreadIdle : Bool
  event : Bool
  exit : Bool
  worker : WorkerPc
  control : ControlPc
  call : Nat → CallPc
  /-- the tokens allocated and not released yet -/
  outstanding : List Nat

inductive Act where
  | launch (created : Bool)
  | store
  | kill
  | killed
  /-- a watch or another signal wakes the thread -/
  | wake
  | worker (found : Shutdown)
  | allocate (i : Nat) (memory : Bool)
  | readThread (i : Nat)
  | waited (i : Nat)
  | release (i : Nat)
  | signal (i : Nat)

namespace State

variable (s : State)

def setCall (i : Nat) (pc : CallPc) : State := { s with call := update s.call i pc }

/-- The locked part of `EvtchnAllocateSuspendToken`. -/
def allocate (i : Nat) (memory : Bool) : State :=
  { s.setCall i (.inserted !memory) with
    tokenList := if memory then s.tokenList ++ [i] else s.tokenList
    anonymousTokenCount := if memory then s.anonymousTokenCount else u32 (s.anonymousTokenCount + 1)
    outstanding := s.outstanding ++ [i] }

/-- The locked part of `EvtchnReleaseSuspendToken`. -/
def release (i : Nat) (anonymous : Bool) : State :=
  { s.setCall i .released with
    tokenList := if anonymous then s.tokenList else s.tokenList.erase i
    anonymousTokenCount :=
      if anonymous then u32 (s.anonymousTokenCount + 1) else s.anonymousTokenCount
    outstanding := s.outstanding.erase i }

/-- The next step of `SuspendThread`. -/
def workerStep (found : Shutdown) : Option State :=
  match s.worker with
  | .none => none
  -- xenbus_await_initialisation and the watch; the thread ends if they fail
  | .start => some { s with worker := if found = .unreadable then .none else .top }
  | .top => some { s with suspendThreadIdle := true, worker := .wait }
  -- XmThreadWait
  | .wait =>
    if s.exit then some { s with worker := .none }
    else if s.event then some { s with event := false, worker := .awake }
    else none
  | .awake =>
    some <|
      if s.exit then { s with worker := .none }
      else { s with suspendThreadIdle := false, worker := .read }
  | .read => some { s with worker := if found = .suspend then .checkCount else .top }
  | .checkCount =>
    some { s with worker := if s.anonymousTokenCount = 0 then .checkList else .top }
  | .checkList => some { s with worker := if s.tokenList = [] then .remove else .top }
  | .remove => some { s with worker := .suspending }
  | .suspending => some { s with worker := .top }

/-- `XM_ASSERT` ends a run. -/
def step : Act → Option State
  | .launch created =>
    match s.control with
    | .idle =>
      some <|
        if s.suspendThread || !created then s
        else { s with event := false, exit := false, worker := .start, control := .spawned }
    | .spawned | .killing => none
  | .store =>
    match s.control with
    | .spawned => some { s with suspendThread := true, control := .idle }
    | .idle | .killing => none
  | .kill =>
    match s.control with
    | .idle =>
      some <| if s.suspendThread then { s with exit := true, event := true, control := .killing } else s
    | .spawned | .killing => none
  | .killed =>
    if s.control = .killing ∧ s.worker = .none then
      some { s with suspendThread := false, control := .idle }
    else none
  | .wake => some { s with event := true }
  | .worker found => s.workerStep found
  | .allocate i memory =>
    match s.call i with
    | .start => some (s.allocate i memory)
    | _ => none
  | .readThread i =>
    match s.call i with
    | .inserted anonymous =>
      some (s.setCall i (if s.suspendThread then .waiting anonymous else .held anonymous))
    | _ => none
  | .waited i =>
    match s.call i with
    | .waiting anonymous => if s.suspendThreadIdle then some (s.setCall i (.held anonymous)) else none
    | _ => none
  | .release i =>
    match s.call i with
    | .held anonymous =>
      if anonymous ∧ s.anonymousTokenCount = 0 then none else some (s.release i anonymous)
    | _ => none
  | .signal i =>
    match s.call i with
    | .released => some { s.setCall i .done with event := s.event || s.suspendThread }
    | _ => none

end State

/-- After `SuspendPreInit`. -/
def machine : Machine State Act where
  init :=
    { tokenList := []
      anonymousTokenCount := 0
      suspendThread := false
      suspendThreadIdle := false
      event := false
      exit := false
      worker := .none
      control := .idle
      call := fun _ => .start
      outstanding := [] }
  step := State.step

/-! ## The tokens -/

/-- The token of a call is listed, counted, or not there. -/
def CallPc.token : CallPc → Option Bool
  | .inserted anonymous | .waiting anonymous | .held anonymous => some anonymous
  | .start | .released | .done => none

/-- The steps of the suspend thread and of the threads that launch, kill and wake it. -/
def Act.Control : Act → Prop
  | .launch _ | .store | .kill | .killed | .wake | .worker _ => True
  | .allocate _ _ | .readThread _ | .waited _ | .release _ | .signal _ => False

section Steps

variable {s t : State} {a : Act}

theorem step_control (ha : a.Control) (h : s.step a = some t) : t.tokenList = s.tokenList ∧
    t.anonymousTokenCount = s.anonymousTokenCount ∧ t.call = s.call ∧
    t.outstanding = s.outstanding := by
  cases a <;> simp only [Act.Control] at ha
  all_goals
    simp only [State.step, State.workerStep] at h
    repeat' split at h
    all_goals cases h
    all_goals exact ⟨rfl, rfl, rfl, rfl⟩

theorem step_call (ha : ¬ a.Control) (h : s.step a = some t) : t.worker = s.worker ∧
    t.suspendThreadIdle = s.suspendThreadIdle ∧
    ((∃ i memory, a = .allocate i memory ∧ s.call i = .start ∧
        t.tokenList = (s.allocate i memory).tokenList ∧ t.call = (s.allocate i memory).call ∧
        t.anonymousTokenCount = (s.allocate i memory).anonymousTokenCount ∧
        t.outstanding = s.outstanding ++ [i]) ∨
      (∃ i anonymous, a = .release i ∧ s.call i = .held anonymous ∧
        t.tokenList = (s.release i anonymous).tokenList ∧ t.call = (s.release i anonymous).call ∧
        t.anonymousTokenCount = (s.release i anonymous).anonymousTokenCount ∧
        t.outstanding = s.outstanding.erase i) ∨
      (∃ i pc, t.call = update s.call i pc ∧ pc.token = (s.call i).token ∧
        (∀ b, pc = .held b → a = .readThread i ∧ s.suspendThread = false ∨
          s.suspendThreadIdle = true) ∧
        t.tokenList = s.tokenList ∧ t.anonymousTokenCount = s.anonymousTokenCount ∧
        t.outstanding = s.outstanding)) := by
  cases a with
  | allocate i memory =>
    simp only [State.step] at h
    split at h <;> cases h
    next hc => exact ⟨rfl, rfl, .inl ⟨i, memory, rfl, hc, rfl, rfl, rfl, rfl⟩⟩
  | readThread i =>
    simp only [State.step] at h
    split at h <;> cases h
    next b hc =>
    refine ⟨rfl, rfl, .inr (.inr ⟨i, _, rfl, ?_, fun c hp => ?_, rfl, rfl, rfl⟩)⟩
    · split <;> simp [hc, CallPc.token]
    · split at hp
      · cases hp
      · next hn => exact .inl ⟨rfl, by simpa using hn⟩
  | waited i =>
    simp only [State.step] at h
    split at h
    · next b hc =>
      split at h <;> cases h
      next hidle => exact ⟨rfl, rfl, .inr (.inr ⟨i, _, rfl, by simp [hc, CallPc.token],
        fun _ _ => .inr hidle, rfl, rfl, rfl⟩)⟩
    · cases h
  | release i =>
    simp only [State.step] at h
    split at h
    · next b hc =>
      split at h <;> cases h
      exact ⟨rfl, rfl, .inr (.inl ⟨i, b, rfl, hc, rfl, rfl, rfl, rfl⟩)⟩
    · cases h
  | signal i =>
    simp only [State.step] at h
    split at h <;> cases h
    next hc => exact ⟨rfl, rfl, .inr (.inr ⟨i, _, rfl, by simp [hc, CallPc.token],
      fun _ hp => CallPc.noConfusion hp, rfl, rfl, rfl⟩)⟩
  | _ => exact absurd trivial ha

/-- Every token that is out is on the list, unless it is anonymous. -/
structure Tokens (s : State) : Prop where
  listed : ∀ i, (s.call i).token = some false → i ∈ s.tokenList
  out : ∀ i, (s.call i).token ≠ none → i ∈ s.outstanding

theorem Tokens.step (h : Tokens s) (hs : s.step a = some t) : Tokens t := by
  by_cases ha : a.Control
  · obtain ⟨h1, -, h2, h3⟩ := step_control ha hs
    exact ⟨by rw [h1, h2]; exact h.listed, by rw [h2, h3]; exact h.out⟩
  obtain ⟨-, -, h'⟩ := step_call ha hs
  rcases h' with ⟨i, m, -, hc, h1, h2, -, h3⟩ | ⟨i, b, -, hc, h1, h2, -, h3⟩ |
    ⟨i, pc, h1, h2, -, h3, -, h4⟩
  · refine ⟨fun j hj => ?_, fun j hj => ?_⟩
    · rw [h1]
      rw [h2] at hj
      by_cases hji : j = i
      · subst hji
        cases m <;> simp [State.allocate, State.setCall, CallPc.token] at hj ⊢
      · simp only [State.allocate, State.setCall, update_of_ne hji] at hj ⊢
        split
        · exact List.mem_append_left _ (h.listed j hj)
        · exact h.listed j hj
    · rw [h3]
      rw [h2] at hj
      by_cases hji : j = i
      · subst hji; simp
      · simp only [State.allocate, State.setCall, update_of_ne hji] at hj
        exact List.mem_append_left _ (h.out j hj)
  · refine ⟨fun j hj => ?_, fun j hj => ?_⟩
    · rw [h1]
      rw [h2] at hj
      by_cases hji : j = i
      · subst hji; simp [State.release, State.setCall, CallPc.token] at hj
      · simp only [State.release, State.setCall, update_of_ne hji] at hj ⊢
        split
        · exact h.listed j hj
        · exact (List.mem_erase_of_ne hji).mpr (h.listed j hj)
    · rw [h3]
      rw [h2] at hj
      by_cases hji : j = i
      · subst hji; simp [State.release, State.setCall, CallPc.token] at hj
      · simp only [State.release, State.setCall, update_of_ne hji] at hj
        exact (List.mem_erase_of_ne hji).mpr (h.out j hj)
  · have hj : ∀ j, (t.call j).token = (s.call j).token := by
      intro j
      rw [h1]
      by_cases hji : j = i
      · subst hji; rw [update_self, h2]
      · rw [update_of_ne hji]
    exact ⟨fun j ht => h3 ▸ h.listed j (hj j ▸ ht), fun j ht => h4 ▸ h.out j (hj j ▸ ht)⟩

end Steps

/-! ## Exclusion -/

/-- `SuspendThread` between `KeClearEvent(&suspend_thread_idle)` and the next `KeSetEvent`. -/
def WorkerPc.Busy : WorkerPc → Prop
  | .read | .checkCount | .checkList | .remove | .suspending => True
  | .none | .start | .top | .wait | .awake => False

instance (pc : WorkerPc) : Decidable pc.Busy :=
  match pc with
  | .read | .checkCount | .checkList | .remove | .suspending => isTrue trivial
  | .none | .start | .top | .wait | .awake => isFalse id

/-- No allocation misses the thread because `LaunchSuspendThread` has not stored `suspend_thread`
yet, and the count of anonymous tokens does not overflow. -/
def TokenOk (s : State) : Act → Prop
  | .allocate _ memory => memory = false → s.anonymousTokenCount + 1 < 4294967296
  | .release i => s.call i = .held true → s.anonymousTokenCount + 1 < 4294967296
  | .readThread _ => s.worker.Busy → s.suspendThread = true
  | _ => True

instance (s : State) (a : Act) : Decidable (TokenOk s a) :=
  match a with
  | .allocate _ memory =>
    inferInstanceAs (Decidable (memory = false → s.anonymousTokenCount + 1 < 4294967296))
  | .release i =>
    inferInstanceAs (Decidable (s.call i = .held true → s.anonymousTokenCount + 1 < 4294967296))
  | .readThread _ => inferInstanceAs (Decidable (s.worker.Busy → s.suspendThread = true))
  | .launch _ | .store | .kill | .killed | .wake | .worker _ | .waited _ | .signal _ => isTrue trivial

/-- What the thread has seen of the tokens so far. -/
structure Excluded (s : State) : Prop where
  tokens : Tokens s
  counted : ∀ i, (s.call i).token = some true → 0 < s.anonymousTokenCount
  idle : s.worker.Busy → s.suspendThreadIdle = false
  noAnonymous : s.worker = .checkList → ∀ i, s.call i ≠ .held true
  noToken : s.worker = .remove ∨ s.worker = .suspending → ∀ i b, s.call i ≠ .held b

section Exclusion

variable {s t : State} {a : Act}

theorem Excluded.of_rest (h1 : Tokens s) (h2 : ∀ i, (s.call i).token = some true →
    0 < s.anonymousTokenCount) (hw : ¬ s.worker.Busy) : Excluded s := by
  refine ⟨h1, h2, fun hb => absurd hb hw, fun hb => ?_, fun hb => ?_⟩
  · rw [hb] at hw; exact absurd trivial hw
  · rcases hb with hb | hb <;> rw [hb] at hw <;> exact absurd trivial hw

theorem Excluded.worker {found : Shutdown} (h : Excluded s) (hs : s.workerStep found = some t) :
    Excluded t := by
  obtain ⟨-, h2, h3, -⟩ := @step_control s t (.worker found) trivial hs
  have htok : Tokens t := @Tokens.step s t (.worker found) h.tokens hs
  have hcount : ∀ i, (t.call i).token = some true → 0 < t.anonymousTokenCount := by
    rw [h2, h3]; exact h.counted
  have hidle := h.idle
  unfold State.workerStep at hs
  cases hw : s.worker with
  | none => simp [hw] at hs
  | start =>
    simp only [hw, Option.some.injEq] at hs
    subst hs
    refine .of_rest htok hcount ?_
    dsimp only
    split <;> exact id
  | top | suspending =>
    simp only [hw, Option.some.injEq] at hs
    subst hs
    exact .of_rest htok hcount id
  | wait =>
    simp only [hw] at hs
    repeat' split at hs
    all_goals cases hs
    all_goals exact .of_rest htok hcount id
  | awake =>
    simp only [hw, Option.some.injEq] at hs
    split at hs
    · subst hs; exact .of_rest htok hcount id
    · subst hs
      exact ⟨htok, hcount, fun _ => rfl, fun e => (by cases e), fun e => by rcases e with e | e <;> cases e⟩
  | read =>
    rw [hw] at hidle
    simp only [hw, Option.some.injEq] at hs
    subst hs
    by_cases hf : found = .suspend
    · simp only [hf, if_true] at htok hcount ⊢
      exact ⟨htok, hcount, fun _ => hidle trivial, fun e => (by cases e),
        fun e => by rcases e with e | e <;> cases e⟩
    · simp only [hf, if_false] at htok hcount ⊢
      exact .of_rest htok hcount id
  | checkCount =>
    rw [hw] at hidle
    simp only [hw, Option.some.injEq] at hs
    subst hs
    by_cases hz : s.anonymousTokenCount = 0
    · simp only [hz, if_true] at htok hcount ⊢
      refine ⟨htok, hcount, fun _ => hidle trivial, fun _ i hi => ?_,
        fun e => by rcases e with e | e <;> cases e⟩
      have := h.counted i (by rw [show s.call i = .held true from hi]; rfl)
      omega
    · simp only [hz, if_false] at htok hcount ⊢
      exact .of_rest htok hcount id
  | checkList =>
    rw [hw] at hidle
    simp only [hw, Option.some.injEq] at hs
    subst hs
    by_cases hz : s.tokenList = []
    · simp only [hz, if_true] at htok hcount ⊢
      refine ⟨htok, hcount, fun _ => hidle trivial, fun e => (by cases e), fun _ i b hi => ?_⟩
      have hi : s.call i = .held b := hi
      cases b with
      | true => exact h.noAnonymous hw i hi
      | false =>
        have := h.tokens.listed i (by rw [hi]; rfl)
        rw [hz] at this
        cases this
    · simp only [hz, if_false] at htok hcount ⊢
      exact .of_rest htok hcount id
  | remove =>
    rw [hw] at hidle
    simp only [hw, Option.some.injEq] at hs
    subst hs
    exact ⟨htok, hcount, fun _ => hidle trivial, fun e => (by cases e), fun _ => h.noToken (.inl hw)⟩

theorem Excluded.control (h : Excluded s) (ha : a.Control) (hs : s.step a = some t) : Excluded t := by
  obtain ⟨h1, h2, h3, h4⟩ := step_control ha hs
  have htok := h.tokens.step hs
  have hcount : ∀ i, (t.call i).token = some true → 0 < t.anonymousTokenCount := by
    rw [h2, h3]; exact h.counted
  cases a with
  | worker found => exact h.worker hs
  | launch created =>
    simp only [State.step] at hs
    split at hs <;> cases hs
    by_cases hc : (s.suspendThread || !created) = true
    · rw [if_pos hc]; exact h
    · rw [if_neg hc] at htok hcount ⊢
      exact .of_rest htok hcount id
  | store | kill | killed | wake =>
    simp only [State.step] at hs
    repeat' split at hs
    all_goals cases hs
    all_goals exact ⟨htok, hcount, h.idle, h.noAnonymous, h.noToken⟩
  | _ => exact ha.elim

theorem Excluded.no_new (h : Excluded s) (ha : ¬ a.Control) (hok : TokenOk s a)
    (hs : s.step a = some t) (hb : s.worker.Busy) {j : Nat} {b : Bool} (hj : t.call j = .held b) :
    s.call j = .held b := by
  obtain ⟨-, -, h'⟩ := step_call ha hs
  rcases h' with ⟨i, m, -, -, -, h2, -⟩ | ⟨i, c, -, -, -, h2, -⟩ | ⟨i, pc, h1, -, h2, -⟩
  · rw [h2] at hj
    by_cases hji : j = i
    · subst hji; simp [State.allocate, State.setCall] at hj
    · simpa [State.allocate, State.setCall, update_of_ne hji] using hj
  · rw [h2] at hj
    by_cases hji : j = i
    · subst hji; simp [State.release, State.setCall] at hj
    · simpa [State.release, State.setCall, update_of_ne hji] using hj
  · rw [h1] at hj
    by_cases hji : j = i
    · subst hji
      rw [update_self] at hj
      rcases h2 b hj with ⟨rfl, hn⟩ | hidle
      · rw [hok hb] at hn; cases hn
      · rw [h.idle hb] at hidle; cases hidle
    · rwa [update_of_ne hji] at hj

theorem Excluded.call (h : Excluded s) (ha : ¬ a.Control) (hok : TokenOk s a)
    (hs : s.step a = some t) : Excluded t := by
  obtain ⟨hw, hidle, h'⟩ := step_call ha hs
  refine ⟨h.tokens.step hs, ?_, by rw [hw, hidle]; exact h.idle, fun e i hi => ?_, fun e i b hi => ?_⟩
  · rcases h' with ⟨i, m, rfl, -, -, h2, h3, -⟩ | ⟨i, c, rfl, hc, -, h2, h3, -⟩ |
      ⟨i, pc, h1, h2, -, -, h3, -⟩
    · intro j hj
      rw [h3]
      rw [h2] at hj
      cases m with
      | false =>
        have := hok rfl
        simp only [State.allocate, u32, Bool.false_eq_true, if_false, Nat.mod_eq_of_lt this]
        omega
      | true =>
        simp only [State.allocate, State.setCall, if_true] at hj ⊢
        by_cases hji : j = i
        · subst hji; simp [CallPc.token] at hj
        · rw [update_of_ne hji] at hj; exact h.counted j hj
    · intro j hj
      rw [h3]
      rw [h2] at hj
      cases c with
      | true =>
        have := hok hc
        simp only [State.release, u32, if_true, Nat.mod_eq_of_lt this]
        omega
      | false =>
        simp only [State.release, State.setCall, Bool.false_eq_true, if_false] at hj ⊢
        by_cases hji : j = i
        · subst hji; simp [CallPc.token] at hj
        · rw [update_of_ne hji] at hj; exact h.counted j hj
    · intro j hj
      rw [h3]
      rw [h1] at hj
      by_cases hji : j = i
      · subst hji; rw [update_self, h2] at hj; exact h.counted j hj
      · rw [update_of_ne hji] at hj; exact h.counted j hj
  · rw [hw] at e
    exact h.noAnonymous e i (h.no_new ha hok hs (by rw [e]; trivial) hi)
  · rw [hw] at e
    refine h.noToken e i b (h.no_new ha hok hs ?_ hi)
    rcases e with e | e <;> rw [e] <;> trivial

theorem excluded_init : Excluded machine.init :=
  .of_rest ⟨fun _ h => (by cases h), fun _ h => absurd rfl h⟩ (fun _ h => by cases h) id

end Exclusion

/-- `DoSuspend` does not run while a token is held. -/
theorem suspend_excluded {s : State} (h : machine.Reach TokenOk s) (hw : s.worker = .suspending)
    (i : Nat) (anonymous : Bool) : s.call i ≠ .held anonymous := by
  have hs : Excluded s := h.inv excluded_init fun s a t hs hok hst => by
    by_cases ha : a.Control
    · exact hs.control ha hst
    · exact hs.call ha hok hst
  exact hs.noToken (.inr hw) i anonymous

/-- From the creation of the suspend thread to `DoSuspend`. -/
def toSuspend : List Act :=
  [.worker .other, .worker .other, .wake, .worker .other, .worker .other, .worker .suspend,
    .worker .other, .worker .other, .worker .other]

/-- The thread can get to `DoSuspend` before `XmSpawnThread` has returned to
`LaunchSuspendThread`; an allocation then finds no thread to wait for. -/
theorem suspend_not_excluded : ∃ s, machine.Reach Machine.Any s ∧ s.worker = .suspending ∧
    s.call 0 = .held false := by
  obtain ⟨s, hr, hs⟩ := Machine.exists_reach machine Machine.Any
    (fun s => s.worker = .suspending ∧ s.call 0 = .held false)
    (List.flatten [.launch true :: toSuspend, [.allocate 0 true, .readThread 0]]) (by decide +kernel)
  exact ⟨s, hr, by simpa using hs⟩

/-- A token is held and released, another is still waited for. -/
theorem suspend_excluded_run : ∃ s, machine.Reach TokenOk s ∧ s.worker = .suspending ∧
    s.call 0 = .done ∧ s.call 1 = .waiting true ∧ ∀ i b, s.call i ≠ .held b := by
  obtain ⟨s, hr, hs⟩ := Machine.exists_reach machine TokenOk
    (fun s => s.worker = .suspending ∧ s.call 0 = .done ∧ s.call 1 = .waiting true)
    (List.flatten [[.allocate 0 true, .readThread 0, .release 0, .signal 0, .launch true, .store],
      toSuspend, [.allocate 1 false, .readThread 1]]) (by decide +kernel)
  simp only [decide_eq_true_eq] at hs
  exact ⟨s, hr, hs.1, hs.2.1, hs.2.2, fun i b => suspend_excluded hr hs.1 i b⟩

/-! ## Accounting -/

/-- No anonymous token is released, and their count does not overflow. -/
def CountOk (s : State) : Act → Prop
  | .allocate _ memory => memory = false → s.anonymousTokenCount + 1 < 4294967296
  | .release i => s.call i ≠ .held true
  | _ => True

instance (s : State) (a : Act) : Decidable (CountOk s a) :=
  match a with
  | .allocate _ memory =>
    inferInstanceAs (Decidable (memory = false → s.anonymousTokenCount + 1 < 4294967296))
  | .release i => inferInstanceAs (Decidable (s.call i ≠ .held true))
  | .readThread _ | .launch _ | .store | .kill | .killed | .wake | .worker _ | .waited _
  | .signal _ => isTrue trivial

/-- The tokens counted and listed are the ones outstanding. -/
structure Counted (s : State) : Prop where
  tokens : Tokens s
  count : s.anonymousTokenCount + s.tokenList.length = s.outstanding.length

theorem Counted.step {s t : State} {a : Act} (h : Counted s) (hok : CountOk s a)
    (hs : s.step a = some t) : Counted t := by
  refine ⟨h.tokens.step hs, ?_⟩
  have hc := h.count
  by_cases ha : a.Control
  · obtain ⟨h1, h2, -, h3⟩ := step_control ha hs
    rw [h1, h2, h3, hc]
  obtain ⟨-, -, h'⟩ := step_call ha hs
  rcases h' with ⟨i, m, rfl, -, h1, -, h2, h3⟩ | ⟨i, b, rfl, hb, h1, -, h2, h3⟩ |
    ⟨i, pc, -, -, -, h1, h2, h3⟩
  · rw [h1, h2, h3]
    cases m with
    | true => simp [State.allocate]; omega
    | false =>
      have := hok rfl
      simp only [State.allocate, u32, Bool.false_eq_true, if_false, List.length_append,
        List.length_singleton, Nat.mod_eq_of_lt this]
      omega
  · rw [h1, h2, h3]
    cases b with
    | true => exact absurd hb hok
    | false =>
      have hl := h.tokens.listed i (by rw [hb]; rfl)
      have ho := h.tokens.out i (by rw [hb]; exact Option.some_ne_none _)
      have := List.length_pos_of_mem hl
      simp only [State.release, Bool.false_eq_true, if_false, List.length_erase_of_mem hl,
        List.length_erase_of_mem ho]
      omega
  · rw [h1, h2, h3, hc]

/-- While no anonymous token is released, the count and the list together are the tokens
outstanding; without any, the thread goes ahead. -/
theorem token_accounting {s : State} (h : machine.Reach CountOk s) :
    s.anonymousTokenCount + s.tokenList.length = s.outstanding.length ∧
      (s.outstanding = [] → ∀ found,
        (s.worker = .checkCount → s.workerStep found = some { s with worker := .checkList }) ∧
        (s.worker = .checkList → s.workerStep found = some { s with worker := .remove })) := by
  have hc : Counted s := h.inv ⟨excluded_init.tokens, rfl⟩ fun _ _ _ hs hok hst => hs.step hok hst
  refine ⟨hc.count, fun hout found => ?_⟩
  have h0 := hc.count
  rw [hout, List.length_nil, Nat.add_eq_zero_iff, List.length_eq_zero_iff] at h0
  refine ⟨fun hw => ?_, fun hw => ?_⟩
  · simp only [State.workerStep, hw, h0.1, if_true]
  · simp only [State.workerStep, hw, h0.2, if_true]

/-- The release of an anonymous token counts it a second time. -/
theorem token_counted_twice : ∃ s, machine.Reach Machine.Any s ∧ s.outstanding = [] ∧
    s.tokenList = [] ∧ s.anonymousTokenCount = 2 := by
  obtain ⟨s, hr, hs⟩ := Machine.exists_reach machine Machine.Any
    (fun s => s.outstanding = [] ∧ s.tokenList = [] ∧ s.anonymousTokenCount = 2)
    [.allocate 0 false, .readThread 0, .release 0] (by decide +kernel)
  exact ⟨s, hr, by simpa using hs⟩

theorem token_accounting_run : ∃ s, machine.Reach CountOk s ∧ s.outstanding = [1] ∧
    s.anonymousTokenCount + s.tokenList.length = s.outstanding.length := by
  obtain ⟨s, hr, hs⟩ := Machine.exists_reach machine CountOk (fun s => s.outstanding = [1])
    [.allocate 0 true, .allocate 1 false, .readThread 0, .release 0] (by decide +kernel)
  exact ⟨s, hr, by simpa using hs, (token_accounting hr).1⟩

end XcWindows.Suspend
