import Mathlib.Algebra.GroupWithZero.Nat
import Mathlib.Algebra.BigOperators.Group.List.Basic
import XcWindows.Lib.Machine
import XcWindows.Lib.Num
import XcWindows.V4v.Listener

/-!
# The connection timer

`V4vStartConnectionTimer` and `V4vStopConnectionTimer` of `xenv4v/xenv4v.c` and everything that
calls them: `V4vCtrlConnect`, the ACK in `V4vProcessPreConnectReads`,
`V4vDisconnectStreamAndSignal`, `V4vDispatchCleanup` and `V4vCsqCompleteCanceledIrp`. The counter is
a byte under its own lock; the state of a context is stored before or after it, and the timer is set
and cancelled behind the lock. Calls on any number of threads take these steps one at a time.
-/

namespace XcWindows.V4v.ConnectTimer

open Lib
open Function (update update_self)

structure Ctx where
  state : CtxState
  type : CtxType
deriving DecidableEq

/-- What a handler does with a context it has counted down for. -/
inductive Target where
  | connected | disconnected
  /-- `V4vDispatchCleanup`: passive for a listener, else closed -/
  | cleanup
deriving DecidableEq

/-- What a call is about to do. -/
inductive Call where
  -- V4vCtrlConnect
  | connectType (c : Nat)
  | connectState (c : Nat)
  | startTimer (c : Nat)
  | setTimer (c : Nat)
  | insert (c : Nat)
  -- V4vStopConnectionTimer, and what its caller stores then
  | stopTimer (c : Nat) (next : Option Target)
  | cancelTimer (c : Nat) (next : Option Target)
  | store (c : Nat) (target : Target) (counted : Bool)
deriving DecidableEq

def Call.ctx : Call → Nat
  | .connectType c | .connectState c | .startTimer c | .setTimer c | .insert c => c
  | .stopTimer c _ | .cancelTimer c _ | .store c _ _ => c

structure World where
  ctx : Nat → Ctx
  count : Nat
  timerCounter : Nat
  timer : Bool
  calls : List Call

inductive Act where
  | create
  /-- a handler that knows nothing of connections stores to the state and the type -/
  | other (c : Nat) (state : CtxState) (type : CtxType)
  | connect (c : Nat)
  /-- `V4vProcessPreConnectReads` has the ACK -/
  | acknowledged (c : Nat)
  | signal (c : Nat)
  | cleanup (c : Nat)
  /-- `V4vCsqCompleteCanceledIrp`, for an IRP of the context -/
  | cancelled (c : Nat)
  | stopDevice
  /-- the next step of a call; `ok` is whether the connect IRP could be queued -/
  | run (k : Call) (ok : Bool)

namespace World

variable (s : World)

def setState (c : Nat) (state : CtxState) : World :=
  { s with ctx := update s.ctx c { s.ctx c with state } }

/-- The call `k` goes on as `ks`. -/
def put (k : Call) (ks : List Call) : World := { s with calls := ks ++ s.calls.erase k }

def begin (k : Call) : World := { s with calls := k :: s.calls }

def target (c : Nat) : Target → CtxState
  | .connected => .connected
  | .disconnected => .disconnected
  | .cleanup => if (s.ctx c).type = .listener then .passive else .closed

end World

/-- How a caller of `V4vStopConnectionTimer` goes on. -/
def afterStop (c : Nat) : Option Target → List Call
  | none => []
  | some target => [.store c target true]

namespace World

variable (s : World)

def runCall (ok : Bool) : Call → World
  | k@(.connectType c) =>
    { s with ctx := update s.ctx c { s.ctx c with type := .connector } }.put k
      [.connectState c]
  | k@(.connectState c) => (s.setState c .connecting).put k [.startTimer c]
  | k@(.startTimer c) =>
    let count := (s.timerCounter + 1) % 256
    { s with timerCounter := count }.put k [if count = 1 then .setTimer c else .insert c]
  | k@(.setTimer c) => { s with timer := true }.put k [.insert c]
  | k@(.insert c) => s.put k (if ok then [] else [.stopTimer c (some .disconnected)])
  | k@(.stopTimer c next) =>
    if s.timerCounter > 0 then
      let count := s.timerCounter - 1
      { s with timerCounter := count }.put k
        (if count = 0 then [.cancelTimer c next] else afterStop c next)
    else s.put k (afterStop c next)
  | k@(.cancelTimer c next) => { s with timer := false }.put k (afterStop c next)
  | k@(.store c target _) => (s.setState c (s.target c target)).put k []

def step : Act → Option World
  | .create =>
    some { s with
      ctx := update s.ctx s.count ⟨.uninitialized, .unspecified⟩, count := s.count + 1 }
  | .other c state type =>
    if c < s.count ∧ state ≠ .connecting then
      some { s with ctx := update s.ctx c ⟨state, type⟩ }
    else none
  | .connect c =>
    if c < s.count ∧ (s.ctx c).state = .bound then some (s.begin (.connectType c)) else none
  | .acknowledged c =>
    if (s.ctx c).state = .connecting then some (s.begin (.stopTimer c (some .connected))) else none
  | .signal c =>
    some (s.begin (if (s.ctx c).state = .connecting then .stopTimer c (some .disconnected)
      else .store c .disconnected false))
  | .cleanup c =>
    some (s.begin (if (s.ctx c).state = .connecting then .stopTimer c (some .cleanup)
      else .store c .cleanup false))
  | .cancelled c =>
    some (if (s.ctx c).type = .connector ∧ (s.ctx c).state = .connecting then
      s.begin (.stopTimer c none) else s)
  | .stopDevice => some { s with timer := false }
  | .run k ok => if k ∈ s.calls ∧ Call.ctx k < s.count then some (s.runCall ok k) else none

/-- The number of contexts in the CONNECTING state. -/
def connecting : Nat := Nat.count (fun c => (s.ctx c).state = .connecting) s.count

def total (f : Call → Nat) : Nat := (s.calls.map f).sum

end World

/-- The device after `AddDevice`. -/
def timerMachine : Machine World Act where
  init := ⟨fun _ => ⟨.uninitialized, .unspecified⟩, 0, 0, false, []⟩
  step := World.step

/-! ## The invariant -/

namespace Call

/-- The context is CONNECTING and not counted yet. -/
def owes : Call → Nat
  | .startTimer _ => 1
  | _ => 0

/-- The context is not counted any more and still CONNECTING. -/
def left : Call → Nat
  | .cancelTimer _ (some _) => 1
  | .store _ _ true => 1
  | _ => 0

/-- `KeSetTimerEx` is due. -/
def sets : Call → Nat
  | .setTimer _ => 1
  | _ => 0

/-- `KeCancelTimer` is due. -/
def cancels : Call → Nat
  | .cancelTimer _ _ => 1
  | _ => 0

end Call

/-- The condition on a step of a call. -/
def CarefulCall (s : World) : Call → Prop
  | .connectState c => (s.ctx c).state ≠ .connecting
  | .startTimer _ => s.timerCounter < 255
  | .setTimer _ => s.timerCounter ≠ 0 ∨ s.total Call.cancels ≠ 0
  | .stopTimer _ _ => 0 < s.timerCounter
  | .cancelTimer _ _ => s.timerCounter = 0 ∨ s.total Call.sets ≠ 0
  | .store c _ counted => (s.ctx c).state = .connecting ↔ counted = true
  | .connectType _ | .insert _ => True

/-- The condition on a step: at most 255 contexts are counted; no IRP of a connector that is
CONNECTING is cancelled; the counter is not zero when it is counted down; a context leaves
CONNECTING by the call that has counted down for it; the device is not stopped while the timer is
needed; the timer is set and cancelled as the counter says, or the opposite is due. -/
def Careful (s : World) : Act → Prop
  | .other c _ _ => (s.ctx c).state ≠ .connecting
  | .cancelled c => ¬ ((s.ctx c).type = .connector ∧ (s.ctx c).state = .connecting)
  | .stopDevice => s.timerCounter = 0 ∨ s.total Call.sets ≠ 0
  | .run k _ => CarefulCall s k
  | _ => True

instance (s : World) : (k : Call) → Decidable (CarefulCall s k)
  | .connectState c => inferInstanceAs (Decidable ((s.ctx c).state ≠ .connecting))
  | .startTimer _ => inferInstanceAs (Decidable (s.timerCounter < 255))
  | .setTimer _ =>
    inferInstanceAs (Decidable (s.timerCounter ≠ 0 ∨ s.total Call.cancels ≠ 0))
  | .stopTimer _ _ => inferInstanceAs (Decidable (0 < s.timerCounter))
  | .cancelTimer _ _ =>
    inferInstanceAs (Decidable (s.timerCounter = 0 ∨ s.total Call.sets ≠ 0))
  | .store c _ counted =>
    inferInstanceAs (Decidable ((s.ctx c).state = .connecting ↔ counted = true))
  | .connectType _ | .insert _ => inferInstanceAs (Decidable True)

instance (s : World) : (a : Act) → Decidable (Careful s a)
  | .other c _ _ => inferInstanceAs (Decidable ((s.ctx c).state ≠ .connecting))
  | .cancelled c =>
    inferInstanceAs (Decidable (¬ ((s.ctx c).type = .connector ∧ (s.ctx c).state = .connecting)))
  | .stopDevice => inferInstanceAs (Decidable (s.timerCounter = 0 ∨ s.total Call.sets ≠ 0))
  | .run k _ => inferInstanceAs (Decidable (CarefulCall s k))
  | .create | .connect _ | .acknowledged _ | .signal _ | .cleanup _ =>
    inferInstanceAs (Decidable True)

structure Counted (s : World) : Prop where
  number : s.connecting = s.timerCounter + s.total Call.owes + s.total Call.left
  started : s.timerCounter ≠ 0 → s.timer = true ∨ s.total Call.sets ≠ 0
  stopped : s.timerCounter = 0 → s.timer = false ∨ s.total Call.cancels ≠ 0
  leaves : ∀ k ∈ s.calls, ∀ c, k ≠ .stopTimer c none

section Steps

variable {s t : World} {k : Call} {ks : List Call} {c : Nat} {state : CtxState}

theorem total_put (f : Call → Nat) (hk : k ∈ s.calls) (ht : t.calls = ks ++ s.calls.erase k) :
    t.total f + f k = s.total f + (ks.map f).sum := by
  have := List.sum_map_erase f hk
  rw [World.total, World.total, ht, List.map_append, List.sum_append]
  omega

theorem total_begin (f : Call → Nat) (s : World) (k : Call) :
    (s.begin k).total f = f k + s.total f := by
  rw [World.total, World.begin, List.map_cons, List.sum_cons]
  rfl

theorem connecting_update (hc : c < s.count) (hcount : t.count = s.count)
    (hothers : ∀ d, d ≠ c → (t.ctx d).state = (s.ctx d).state) :
    t.connecting + (if (s.ctx c).state = .connecting then 1 else 0) =
      s.connecting + (if (t.ctx c).state = .connecting then 1 else 0) := by
  have hne : ∀ d, d ≠ c → ((t.ctx d).state = .connecting ↔ (s.ctx d).state = .connecting) :=
    fun d hd => by rw [hothers d hd]
  unfold World.connecting
  rw [hcount]
  have hsame : ((t.ctx c).state = .connecting ↔ (s.ctx c).state = .connecting) →
      Nat.count (fun d => (t.ctx d).state = .connecting) s.count =
        Nat.count (fun d => (s.ctx d).state = .connecting) s.count := by
    intro h
    refine count_congr fun d _ => ?_
    by_cases hd : d = c
    · exact hd ▸ h
    · exact hne d hd
  by_cases hs : (s.ctx c).state = .connecting
  · by_cases ht : (t.ctx c).state = .connecting
    · rw [if_pos hs, if_pos ht, hsame (iff_of_true ht hs)]
    · rw [if_pos hs, if_neg ht]
      exact count_off hc hs ht hne
  · by_cases ht : (t.ctx c).state = .connecting
    · rw [if_neg hs, if_pos ht]
      exact count_on hc hs ht hne
    · rw [if_neg hs, if_neg ht, hsame (iff_of_false ht hs)]

theorem leaves_put (h : ∀ k ∈ s.calls, ∀ c, k ≠ .stopTimer c none)
    (hks : ∀ k' ∈ ks, ∀ c, k' ≠ .stopTimer c none) (ht : t.calls = ks ++ s.calls.erase k) :
    ∀ k ∈ t.calls, ∀ c, k ≠ .stopTimer c none := by
  intro k' hk'
  rw [ht] at hk'
  rcases List.mem_append.mp hk' with hk' | hk'
  · exact hks k' hk'
  · exact h k' (List.mem_of_mem_erase hk')

theorem afterStop_leaves (c : Nat) (next : Option Target) :
    ∀ k ∈ afterStop c next, ∀ d, k ≠ .stopTimer d none := by
  intro k hk d
  cases next with
  | none => cases hk
  | some target =>
    obtain rfl := List.mem_singleton.mp hk
    simp

theorem Counted.put (h : Counted s) (hk : k ∈ s.calls) (ht : t.calls = ks ++ s.calls.erase k)
    (hks : ∀ k' ∈ ks, ∀ c, k' ≠ .stopTimer c none)
    (hnumber : ∀ owes left sets cancels : Nat,
      owes + k.owes = s.total Call.owes + (ks.map Call.owes).sum →
      left + k.left = s.total Call.left + (ks.map Call.left).sum →
      sets + k.sets = s.total Call.sets + (ks.map Call.sets).sum →
      cancels + k.cancels = s.total Call.cancels + (ks.map Call.cancels).sum →
      t.connecting = t.timerCounter + owes + left ∧
        (t.timerCounter ≠ 0 → t.timer = true ∨ sets ≠ 0) ∧
        (t.timerCounter = 0 → t.timer = false ∨ cancels ≠ 0)) : Counted t := by
  obtain ⟨h1, h2, h3⟩ := hnumber _ _ _ _ (total_put Call.owes hk ht) (total_put Call.left hk ht)
    (total_put Call.sets hk ht) (total_put Call.cancels hk ht)
  exact ⟨h1, h2, h3, leaves_put h.leaves hks ht⟩

theorem afterStop_sums (c : Nat) (next : Option Target) :
    ((afterStop c next).map Call.owes).sum = 0 ∧
      ((afterStop c next).map Call.left).sum = (if next = none then 0 else 1) ∧
      ((afterStop c next).map Call.sets).sum = 0 ∧
      ((afterStop c next).map Call.cancels).sum = 0 := by
  cases next with
  | none => exact ⟨rfl, rfl, rfl, rfl⟩
  | some target => exact ⟨rfl, rfl, rfl, rfl⟩

theorem left_cancelTimer (c : Nat) (next : Option Target) :
    (Call.cancelTimer c next).left = if next = none then 0 else 1 := by
  cases next <;> rfl

theorem setState_connecting (state : CtxState) (hc : c < s.count) :
    (s.setState c state).connecting + (if (s.ctx c).state = .connecting then 1 else 0) =
      s.connecting + (if state = .connecting then 1 else 0) := by
  have h := connecting_update (t := s.setState c state) hc rfl fun d hd => by
    simp [World.setState, hd]
  have hnew : ((s.setState c state).ctx c).state = state := by simp [World.setState]
  rwa [hnew] at h

theorem setType_connecting (type : CtxType) (hc : c < s.count) :
    World.connecting { s with ctx := update s.ctx c { s.ctx c with type } } =
      s.connecting := by
  have h := connecting_update
    (t := { s with ctx := update s.ctx c { s.ctx c with type } }) hc rfl fun d hd => by
      simp [hd]
  simp only [update_self] at h
  exact Nat.add_right_cancel h

theorem target_ne_connecting (target : Target) : s.target c target ≠ .connecting := by
  cases target with
  | connected => simp [World.target]
  | disconnected => simp [World.target]
  | cleanup =>
    show (if _ then _ else _) ≠ _
    split <;> simp

theorem Counted.runCall (h : Counted s) {ok : Bool} (hk : k ∈ s.calls) (hc : Call.ctx k < s.count)
    (hok : CarefulCall s k) : Counted (s.runCall ok k) := by
  obtain ⟨hnum, hstart, hstop, hleaves⟩ := id h
  cases k with
  | connectType c =>
    refine h.put hk rfl (by simp) fun owes left sets cancels h1 h2 h3 h4 => ?_
    have hsame := setType_connecting .connector hc
    change (s.runCall ok (.connectType c)).connecting = s.connecting at hsame
    simp [Call.owes, Call.left, Call.sets, Call.cancels] at h1 h2 h3 h4
    rw [hsame, h1, h2, h3, h4]
    exact ⟨hnum, hstart, hstop⟩
  | connectState c =>
    refine h.put hk rfl (by simp) fun owes left sets cancels h1 h2 h3 h4 => ?_
    have hc : c < s.count := hc
    have hmore := setState_connecting .connecting hc
    change (s.runCall ok (.connectState c)).connecting + _ = _ at hmore
    rw [if_neg hok, if_pos rfl, Nat.add_zero] at hmore
    simp [Call.owes, Call.left, Call.sets, Call.cancels] at h1 h2 h3 h4
    rw [hmore, h1, h2, h3, h4]
    exact ⟨by simp only [World.runCall, World.put, World.setState]; omega, hstart, hstop⟩
  | startTimer c =>
    have hlt : s.timerCounter < 255 := hok
    have hmod : (s.timerCounter + 1) % 256 = s.timerCounter + 1 := Nat.mod_eq_of_lt (by omega)
    have hcounter : (s.runCall ok (.startTimer c)).timerCounter = s.timerCounter + 1 := hmod
    have hsame : (s.runCall ok (.startTimer c)).connecting = s.connecting := rfl
    refine h.put hk rfl (by intro k' hk' d; split at hk' <;> simp_all)
      fun owes left sets cancels h1 h2 h3 h4 => ?_
    rw [hcounter, hsame]
    simp only [hmod] at h1 h2 h3 h4
    refine ⟨?_, fun _ => ?_, by omega⟩
    · split at h1 <;> simp_all [Call.owes, Call.left] <;> omega
    · by_cases h0 : s.timerCounter = 0
      · -- the first one sets the timer
        rw [h0, if_pos rfl] at h3
        simp [Call.sets] at h3
        exact .inr (by omega)
      · refine (hstart h0).imp_right fun hs => ?_
        rw [if_neg (by omega)] at h3
        simp [Call.sets] at h3
        omega
  | setTimer c =>
    refine h.put hk rfl (by simp) fun owes left sets cancels h1 h2 h3 h4 => ?_
    have hdue : s.timerCounter ≠ 0 ∨ s.total Call.cancels ≠ 0 := hok
    simp [Call.owes, Call.left, Call.sets, Call.cancels] at h1 h2 h3 h4
    rw [h1, h2, h4]
    exact ⟨hnum, fun _ => .inl rfl, fun h0 => .inr (hdue.resolve_left fun hne => hne h0)⟩
  | insert c =>
    refine h.put hk rfl (by intro k' hk' d; split at hk' <;> simp_all)
      fun owes left sets cancels h1 h2 h3 h4 => ?_
    have hzero : owes = s.total Call.owes ∧ left = s.total Call.left ∧ sets = s.total Call.sets ∧
        cancels = s.total Call.cancels := by
      cases ok <;> simp_all [Call.owes, Call.left, Call.sets, Call.cancels]
    obtain ⟨rfl, rfl, rfl, rfl⟩ := hzero
    exact ⟨hnum, hstart, hstop⟩
  | stopTimer c next =>
    have hpos : 0 < s.timerCounter := hok
    have hnext : next ≠ none := by
      rintro rfl
      exact hleaves _ hk c rfl
    obtain ⟨e1, e2, e3, e4⟩ := afterStop_sums c next
    rw [if_neg hnext] at e2
    have hrun : s.runCall ok (.stopTimer c next) =
        { s with timerCounter := s.timerCounter - 1 }.put (.stopTimer c next)
          (if s.timerCounter - 1 = 0 then [.cancelTimer c next] else afterStop c next) := by
      simp only [World.runCall]
      rw [if_pos hpos]
    rw [hrun]
    refine h.put hk rfl (fun k' hk' => ?_) fun owes left sets cancels h1 h2 h3 h4 => ?_
    · split at hk'
      · simp_all
      · exact afterStop_leaves c next k' hk'
    · have hsums : owes = s.total Call.owes ∧ left = s.total Call.left + 1 ∧
          sets = s.total Call.sets ∧
          cancels = s.total Call.cancels + if s.timerCounter - 1 = 0 then 1 else 0 := by
        split at h1
        · next h0 =>
          rw [if_pos h0] at h2 h3 h4 ⊢
          simp only [List.map_cons, List.map_nil, List.sum_cons, List.sum_nil, left_cancelTimer,
            if_neg hnext] at h1 h2 h3 h4
          simpa [Call.owes, Call.left, Call.sets, Call.cancels] using ⟨h1, h2, h3, h4⟩
        · next h0 =>
          rw [if_neg h0] at h2 h3 h4 ⊢
          rw [e1] at h1
          rw [e2] at h2
          rw [e3] at h3
          rw [e4] at h4
          exact ⟨h1, h2, h3, h4⟩
      obtain ⟨rfl, rfl, rfl, rfl⟩ := hsums
      have hnum' : s.connecting =
          s.timerCounter - 1 + s.total Call.owes + (s.total Call.left + 1) := by omega
      refine ⟨hnum', fun h0 => ?_, fun h0 => ?_⟩
      · have h0 : s.timerCounter - 1 ≠ 0 := h0
        exact hstart (by omega)
      · have h0 : s.timerCounter - 1 = 0 := h0
        refine .inr ?_
        rw [if_pos h0]
        omega
  | cancelTimer c next =>
    refine h.put hk rfl (afterStop_leaves c next) fun owes left sets cancels h1 h2 h3 h4 => ?_
    obtain ⟨e1, e2, e3, e4⟩ := afterStop_sums c next
    rw [e1] at h1
    rw [e2, left_cancelTimer] at h2
    rw [e3] at h3
    have hdue : s.timerCounter = 0 ∨ s.total Call.sets ≠ 0 := hok
    obtain ⟨rfl, rfl, rfl⟩ : owes = s.total Call.owes ∧ left = s.total Call.left ∧
        sets = s.total Call.sets := ⟨h1, by omega, h3⟩
    exact ⟨hnum, fun h0 => .inr (hdue.resolve_left h0), fun _ => .inl rfl⟩
  | store c target counted =>
    refine h.put hk rfl (by simp) fun owes left sets cancels h1 h2 h3 h4 => ?_
    have hc : c < s.count := hc
    have hless := setState_connecting (s.target c target) hc
    change (s.runCall ok (.store c target counted)).connecting + _ = _ at hless
    rw [if_neg (target_ne_connecting target), Nat.add_zero] at hless
    simp [Call.owes, Call.sets, Call.cancels] at h1 h2 h3 h4
    have hleft : left + (if (s.ctx c).state = .connecting then 1 else 0) = s.total Call.left := by
      cases counted with
      | true => rw [if_pos (hok.mpr rfl)]; exact h2
      | false =>
        rw [if_neg fun hs => by cases hok.mp hs]
        exact h2
    rw [h1, h3, h4]
    refine ⟨?_, hstart, hstop⟩
    show _ = s.timerCounter + _ + _
    omega

theorem Counted.begin (h : Counted s) (k : Call) (hk : ∀ c, k ≠ .stopTimer c none)
    (howes : k.owes = 0) (hleft : k.left = 0) (hsets : k.sets = 0) (hcancels : k.cancels = 0) :
    Counted (s.begin k) := by
  refine ⟨?_, ?_, ?_, ?_⟩
  · rw [total_begin, total_begin, howes, hleft, Nat.zero_add, Nat.zero_add]
    exact h.number
  · rw [total_begin, hsets, Nat.zero_add]
    exact h.started
  · rw [total_begin, hcancels, Nat.zero_add]
    exact h.stopped
  · intro k' hk' c
    rcases List.mem_cons.mp hk' with rfl | hk'
    · exact hk c
    · exact h.leaves k' hk' c

theorem Counted.step {a : Act} (h : Counted s) (hok : Careful s a) (hs : s.step a = some t) :
    Counted t := by
  cases a with
  | create =>
    cases hs
    refine ⟨?_, h.started, h.stopped, h.leaves⟩
    refine Eq.trans ?_ h.number
    rw [World.connecting, Nat.count_succ, if_neg (by simp)]
    refine count_congr fun d hd => ?_
    show (update s.ctx s.count _ d).state = _ ↔ _
    rw [Function.update_of_ne (Nat.ne_of_lt hd)]
  | other c state type =>
    simp only [World.step] at hs
    split at hs
    · next hc =>
      cases hs
      refine ⟨?_, h.started, h.stopped, h.leaves⟩
      have hless := connecting_update
        (t := { s with ctx := update s.ctx c ⟨state, type⟩ }) hc.1 rfl fun d hd => by
          simp [hd]
      have hnew : (update s.ctx c ⟨state, type⟩ c).state ≠ .connecting := by
        rw [update_self]
        exact hc.2
      rw [if_neg hok, if_neg hnew] at hless
      exact hless.trans h.number
    · cases hs
  | connect c =>
    simp only [World.step] at hs
    split at hs
    · cases hs
      exact h.begin _ (by simp) rfl rfl rfl rfl
    · cases hs
  | acknowledged c =>
    simp only [World.step] at hs
    split at hs
    · cases hs
      exact h.begin _ (by simp) rfl rfl rfl rfl
    · cases hs
  | signal c =>
    cases hs
    split
    · exact h.begin _ (by simp) rfl rfl rfl rfl
    · exact h.begin _ (by simp) rfl rfl rfl rfl
  | cleanup c =>
    cases hs
    split
    · exact h.begin _ (by simp) rfl rfl rfl rfl
    · exact h.begin _ (by simp) rfl rfl rfl rfl
  | cancelled c =>
    simp only [World.step] at hs
    rw [if_neg hok] at hs
    cases hs
    exact h
  | stopDevice =>
    cases hs
    exact ⟨h.number, fun h0 => .inr (hok.resolve_left h0), fun _ => .inl rfl, h.leaves⟩
  | run k ok =>
    simp only [World.step] at hs
    split at hs
    · next hk =>
      cases hs
      exact h.runCall hk.1 hk.2 hok
    · cases hs

theorem Counted.init : Counted timerMachine.init :=
  ⟨rfl, fun h => absurd rfl h, fun _ => .inl rfl, nofun⟩

end Steps

/-- In every run whose steps meet the condition, the contexts that are CONNECTING are those that are
counted, those that are about to be and those that are about to leave, and the timer runs as the
counter says unless a call is about to set or cancel it. So when no call is under way the counter is
the number of CONNECTING contexts, and the timer runs exactly when there is one. -/
theorem timer_counted {s : World} (h : Machine.Reach timerMachine Careful s) :
    s.connecting = s.timerCounter + s.total Call.owes + s.total Call.left ∧
      (s.total Call.sets = 0 → s.total Call.cancels = 0 →
        (s.timer = true ↔ s.timerCounter ≠ 0)) ∧
      (s.calls = [] → s.timerCounter = s.connecting ∧
        (s.timer = true ↔ ∃ c < s.count, (s.ctx c).state = .connecting)) := by
  have hc : Counted s := h.inv Counted.init fun _ _ _ hc hok hs => hc.step hok hs
  have htimer : s.total Call.sets = 0 → s.total Call.cancels = 0 →
      (s.timer = true ↔ s.timerCounter ≠ 0) := by
    intro hsets hcancels
    constructor
    · intro ht h0
      rcases hc.stopped h0 with hf | hne
      · rw [ht] at hf; cases hf
      · exact hne hcancels
    · intro h0
      exact (hc.started h0).resolve_right fun hne => hne hsets
  refine ⟨hc.number, htimer, fun hcalls => ?_⟩
  have hzero : ∀ f, s.total f = 0 := fun f => by rw [World.total, hcalls]; rfl
  have hnum := hc.number
  rw [hzero, hzero] at hnum
  have hnum : s.connecting = s.timerCounter := hnum
  refine ⟨hnum.symm, (htimer (hzero _) (hzero _)).trans ?_⟩
  rw [← hnum]
  constructor
  · intro hne
    by_contra hno
    exact hne (Nat.count_iff_forall_not.mpr fun c hc hs => hno ⟨c, hc, hs⟩)
  · rintro ⟨c, hc, hs⟩
    exact count_ne_zero hc hs

/-- The steps of `V4vCtrlConnect` for the context `c`; `first` is whether it sets the timer. -/
def connectRun (c : Nat) (first : Bool) : List Act :=
  List.flatten [[.create, .other c .bound .unspecified, .connect c, .run (.connectType c) true,
    .run (.connectState c) true, .run (.startTimer c) true],
    if first then [.run (.setTimer c) true] else [], [.run (.insert c) true]]

/-- Two contexts connect and the ACK of one of them comes in. -/
theorem timer_counted_run :
    ∃ s, Machine.Reach timerMachine Careful s ∧ (s.timerCounter = 1 ∧ s.count = 2) ∧
      s.timerCounter = s.connecting ∧
      (s.timer = true ↔ ∃ c < s.count, (s.ctx c).state = .connecting) := by
  obtain ⟨s, hs, hp⟩ := Machine.exists_reach timerMachine Careful
    (fun s => decide (s.calls = [] ∧ s.timerCounter = 1 ∧ s.count = 2))
    (List.flatten [connectRun 0 true, connectRun 1 false, [.acknowledged 0,
      .run (.stopTimer 0 (some .connected)) true, .run (.store 0 .connected true) true]])
    (by decide +kernel)
  obtain ⟨hcalls, hnum⟩ := of_decide_eq_true hp
  exact ⟨s, hs, hnum, (timer_counted hs).2.2 hcalls⟩

/-- Of two contexts that connect, the IRP of one is cancelled and its handle closed: both count
down, so the timer is off while the other one is still CONNECTING. -/
theorem cancelled_counts_twice :
    ¬ ∀ s, Machine.Reach timerMachine Machine.Any s → s.calls = [] →
      s.timerCounter = s.connecting ∧
        (s.timer = true ↔ ∃ c < s.count, (s.ctx c).state = .connecting) := by
  intro hall
  obtain ⟨s, hs, hp⟩ := Machine.exists_reach timerMachine Machine.Any
    (fun s => decide (s.calls = [] ∧ s.timer = false ∧ 1 < s.count ∧
      (s.ctx 1).state = .connecting))
    (List.flatten [connectRun 0 true, connectRun 1 false, [.cancelled 0,
      .run (.stopTimer 0 none) true, .cleanup 0, .run (.stopTimer 0 (some .cleanup)) true,
      .run (.cancelTimer 0 (some .cleanup)) true, .run (.store 0 .cleanup true) true]])
    (by decide +kernel)
  obtain ⟨hcalls, hoff, hlt, hconn⟩ := of_decide_eq_true hp
  have hon := (hall s hs hcalls).2.mpr ⟨1, hlt, hconn⟩
  rw [hoff] at hon
  cases hon

end XcWindows.V4v.ConnectTimer
