import Mathlib.Logic.Function.Basic
import Mathlib.Data.Fintype.Basic
import XcWindows.Lib.Machine
import XcWindows.V4v.Listener

/-!
# The state of a context

Every store to the state and to the ring of one v4v context: the IOCTL handlers of
`xenv4v/ioctl.c`, an ACCEPT on another handle that names this context as its accepter, the reads
and writes of `rw.c` and the cleanup of `create.c`. Each of `n` threads runs one of them at a time;
a handler reads the state in one step and stores to the context in later ones, so that handlers
interleave. Allocations, hypercalls, queue insertions and what the peer sends decide the outcome of
a step.

The ghosts record whether the state has left IDLE and BOUND and how often the ring was assigned.
-/

namespace XcWindows.V4v.OneWay

open Lib
open Function (update update_of_ne update_self)

/-- What a thread is about to do to the context. -/
inductive Pc where
  | none
  | initializeFile
  -- V4vCtrlBind
  | bindCheck | bindRing | bindType | bindState
  -- V4vCtrlListen
  | listenCheck | listenType | listenState
  -- V4vCtrlConnect
  | connectCheck | connectType | connectState | connectInsert
  -- V4vCtrlConnectWait
  | waitCheck | waitType | waitState | waitInsert
  | acceptInitializeFile
  | acceptAttach | acceptType | acceptState
  -- V4vDoAccepts
  | doAccepts | acknowledge
  -- V4vCtrlDisconnect
  | disconnectCheck | disconnectState
  /-- `V4vProcessContextReads`, `V4vDispatchRead` -/
  | reads
  /-- `V4vProcessPreConnectReads` with the state it was called for -/
  | preConnect (state : CtxState)
  | write
  | signal
  -- V4vDispatchCleanup
  | cleanupCheck | cleanupState (type : CtxType)
deriving DecidableEq

/-- Where a thread may start. -/
def Pc.entry : Pc → Bool
  | initializeFile | bindCheck | listenCheck | connectCheck | waitCheck | acceptInitializeFile | doAccepts
  | disconnectCheck | reads | write | signal | cleanupCheck => true
  | _ => false

structure Ctx (n : Nat) where
  state : CtxState
  type : CtxType
  ringObject : Option Nat
  thread : Fin n → Pc
  leftIdle : Bool
  leftBound : Bool
  assigned : Nat

inductive Act (n : Nat) where
  | start (i : Fin n) (pc : Pc)
  /-- the next step of a thread, which goes well or not; `ring` is what it attaches -/
  | run (i : Fin n) (ok : Bool) (ring : Nat)

section Step
variable {n : Nat}

def Ctx.goto (s : Ctx n) (i : Fin n) (pc : Pc) : Ctx n :=
  { s with thread := update s.thread i pc }

/-- `InterlockedExchange(&ctx->state, state)` -/
def Ctx.setState (s : Ctx n) (state : CtxState) : Ctx n :=
  { s with
    state
    leftIdle := s.leftIdle || (s.state = .idle && state ≠ .idle)
    leftBound := s.leftBound || (s.state = .bound && state ≠ .bound) }

def Ctx.setRing (s : Ctx n) (ring : Nat) : Ctx n :=
  { s with ringObject := some ring, assigned := s.assigned + 1 }

/-- The next step of a thread at `pc`. -/
def Ctx.run (s : Ctx n) (i : Fin n) (ok : Bool) (ring : Nat) : Pc → Option (Ctx n)
  | .none => none
  | .initializeFile => some ((if ok then s.setState .idle else s).goto i .none)
  | .bindCheck => some (s.goto i (if s.state = .idle then .bindRing else .none))
  -- a failed bind releases the ring it finds and leaves the pointer
  | .bindRing => some (if ok then (s.setRing ring).goto i .bindType else s.goto i .none)
  | .bindType => some ({ s with type := .datagram }.goto i .bindState)
  | .bindState => some ((s.setState .bound).goto i .none)
  | .listenCheck => some (s.goto i (if s.state = .bound && ok then .listenType else .none))
  | .listenType => some ({ s with type := .listener }.goto i .listenState)
  | .listenState => some ((s.setState .listening).goto i .none)
  | .connectCheck => some (s.goto i (if s.state = .bound then .connectType else .none))
  | .connectType => some ({ s with type := .connector }.goto i .connectState)
  | .connectState => some ((s.setState .connecting).goto i .connectInsert)
  | .connectInsert => some ((if ok then s else s.setState .disconnected).goto i .none)
  | .waitCheck => some (s.goto i (if s.state = .bound then .waitType else .none))
  | .waitType => some ({ s with type := .connector }.goto i .waitState)
  | .waitState => some ((s.setState .waiting).goto i .waitInsert)
  | .waitInsert => some ((if ok then s else s.setState .disconnected).goto i .none)
  | .acceptInitializeFile => some (if ok then (s.setState .idle).goto i .acceptAttach else s.goto i .none)
  | .acceptAttach => some ((s.setRing ring).goto i .acceptType)
  | .acceptType => some ({ s with type := .accepter }.goto i .acceptState)
  | .acceptState => some ((s.setState .accepting).goto i .none)
  | .doAccepts => some ((s.setState .accepted).goto i .acknowledge)
  | .acknowledge => some ((if ok then s else s.setState .disconnected).goto i .none)
  | .disconnectCheck =>
    some (s.goto i
      (if s.state = .connected ∨ s.state = .accepted then .disconnectState else .none))
  | .disconnectState => some ((s.setState .disconnected).goto i .none)
  | .reads =>
    some (s.goto i
      (match s.state with
      | .connecting | .waiting => .preConnect s.state
      | .connected | .listening | .passive | .accepted => if ok then .none else .signal
      | _ => .none))
  | .preConnect state =>
    some (if ok then (if state = .connecting then s.setState .connected else s).goto i .none
      else s.goto i .signal)
  -- the ACK of a waiter was sent
  | .write => some (if ok then (s.setState .connected).goto i .none else s.goto i .signal)
  | .signal => some ((s.setState .disconnected).goto i .none)
  | .cleanupCheck => some (s.goto i (.cleanupState s.type))
  | .cleanupState type =>
    some ((s.setState (if type = .listener then .passive else .closed)).goto i .none)

def Ctx.step (s : Ctx n) : Act n → Option (Ctx n)
  | .start i pc => if s.thread i = .none ∧ pc.entry = true then some (s.goto i pc) else none
  | .run i ok ring => s.run i ok ring (s.thread i)

end Step

/-- A context that `V4vDispatchCreate` has just made. -/
def ctxMachine (n : Nat) : Machine (Ctx n) (Act n) where
  init := ⟨.uninitialized, .unspecified, none, fun _ => .none, false, false, 0⟩
  step := Ctx.step

/-- A BIND or an ACCEPT that is past its check and has not stored the new state yet. -/
def Pc.attaches : Pc → Bool
  | bindRing | bindType | bindState | acceptAttach | acceptType | acceptState => true
  | _ => false

/-- The context was neither bound nor given a role yet. -/
def Fresh (state : CtxState) : Prop := state = .uninitialized ∨ state = .idle

instance (state : CtxState) : Decidable (Fresh state) := inferInstanceAs (Decidable (_ ∨ _))

/-- No other thread is in the middle of a BIND or an ACCEPT. -/
def Alone {n : Nat} (s : Ctx n) (i : Fin n) : Prop := ∀ j, j ≠ i → (s.thread j).attaches = false

instance {n : Nat} (s : Ctx n) (i : Fin n) : Decidable (Alone s i) :=
  inferInstanceAs (Decidable (∀ j, j ≠ i → (s.thread j).attaches = false))

/-- A context is initialized, by itself or for an ACCEPT, only while it is fresh, and a BIND or an
ACCEPT goes on only while no other one is at work on the context. -/
def Guard {n : Nat} (s : Ctx n) (i : Fin n) (ok : Bool) : Pc → Prop
  | .initializeFile => ok = true → Fresh s.state
  | .acceptInitializeFile => ok = true → Fresh s.state ∧ Alone s i
  | .bindCheck => s.state = .idle → Alone s i
  | _ => True

instance {n : Nat} (s : Ctx n) (i : Fin n) (ok : Bool) : DecidablePred (Guard s i ok)
  | .initializeFile => inferInstanceAs (Decidable (_ → _))
  | .acceptInitializeFile => inferInstanceAs (Decidable (_ → _ ∧ _))
  | .bindCheck => inferInstanceAs (Decidable (_ → _))
  | .none | .bindRing | .bindType | .bindState | .listenCheck | .listenType | .listenState
  | .connectCheck | .connectType | .connectState | .connectInsert | .waitCheck | .waitType
  | .waitState | .waitInsert | .acceptAttach | .acceptType | .acceptState | .doAccepts
  | .acknowledge | .disconnectCheck | .disconnectState | .reads | .preConnect _ | .write | .signal
  | .cleanupCheck | .cleanupState _ => isTrue trivial

def Guarded {n : Nat} (s : Ctx n) : Act n → Prop
  | .run i ok _ => Guard s i ok (s.thread i)
  | .start _ _ => True

instance {n : Nat} (s : Ctx n) : DecidablePred (Guarded s)
  | .run i ok _ => inferInstanceAs (Decidable (Guard s i ok (s.thread i)))
  | .start _ _ => isTrue trivial

/-! ## The invariant -/

/-- A BIND that has not stored the new state yet. -/
def Pc.binds : Pc → Bool
  | bindRing | bindType | bindState => true
  | _ => false

/-- The ring is still to be assigned. -/
def Pc.unringed : Pc → Bool
  | bindRing | acceptAttach => true
  | _ => false

/-- The ring is assigned and the state still to be stored. -/
def Pc.ringed : Pc → Bool
  | bindType | bindState | acceptType | acceptState => true
  | _ => false

structure OneWayOk {n : Nat} (s : Ctx n) : Prop where
  idle : s.leftIdle = true → ¬ Fresh s.state
  bound : s.leftBound = true → s.state ≠ .bound
  late : s.state = .bound ∨ s.leftBound = true → s.leftIdle = true
  attach : ∀ i, (s.thread i).attaches = true → s.state = .idle ∨ s.leftIdle = true
  binds : ∀ i, (s.thread i).binds = true → s.state ≠ .bound ∧ s.leftBound = false
  alone : ∀ i j, (s.thread i).attaches = true → (s.thread j).attaches = true → i = j
  unringed : ∀ i, (s.thread i).unringed = true → s.assigned = 0
  ringed : s.assigned ≠ 0 → ¬ Fresh s.state ∨ ∃ i, (s.thread i).ringed = true
  assigned : s.assigned ≤ 1

section Steps

variable {n : Nat} {s t : Ctx n} {i : Fin n} {pc : Pc}

theorem Pc.ringed_attaches (h : pc.ringed = true) : pc.attaches = true := by
  cases pc <;> first | rfl | cases h

theorem Pc.unringed_attaches (h : pc.unringed = true) : pc.attaches = true := by
  cases pc <;> first | rfl | cases h

theorem Pc.binds_attaches (h : pc.binds = true) : pc.attaches = true := by
  cases pc <;> first | rfl | cases h

theorem thread_of_attaches {j : Fin n} (hpc : pc.attaches = false)
    (h : (update s.thread i pc j).attaches = true) :
    j ≠ i ∧ (s.thread j).attaches = true := by
  by_cases e : j = i
  · subst e
    rw [update_self, hpc] at h
    cases h
  · rw [update_of_ne e] at h
    exact ⟨e, h⟩

theorem thread_of_not_ringed {j : Fin n} (hi : (s.thread i).ringed = false)
    (hj : (s.thread j).ringed = true) : (update s.thread i pc j).ringed = true := by
  have hne : j ≠ i := by
    rintro rfl
    rw [hi] at hj
    cases hj
  rw [update_of_ne hne]
  exact hj

/-- A step that stores neither to the state nor to the ring. -/
theorem OneWayOk.goto {type : CtxType} (h : OneWayOk s) (hi : (s.thread i).ringed = false)
    (hpc : pc.attaches = false) : OneWayOk ({ s with type }.goto i pc) := by
  have hth : ∀ {p : Pc → Bool}, (∀ q, p q = true → q.attaches = true) → ∀ j,
      p (update s.thread i pc j) = true → p (s.thread j) = true := by
    intro p hp j hj
    have hne := (thread_of_attaches hpc (hp _ hj)).1
    rwa [update_of_ne hne] at hj
  refine ⟨h.idle, h.bound, h.late, fun j hj => h.attach j (hth (fun _ h => h) j hj),
    fun j hj => h.binds j (hth (fun _ => Pc.binds_attaches) j hj),
    fun j k hj hk => h.alone j k (hth (fun _ h => h) j hj) (hth (fun _ h => h) k hk),
    fun j hj => h.unringed j (hth (fun _ => Pc.unringed_attaches) j hj), fun ha => ?_, h.assigned⟩
  refine (h.ringed ha).imp id fun ⟨j, hj⟩ => ⟨j, thread_of_not_ringed hi hj⟩

theorem OneWayOk.next {type : CtxType} (h : OneWayOk s) (ha : (s.thread i).attaches = true)
    (hb : pc.binds = (s.thread i).binds) (hu : pc.unringed = false) (hr : pc.ringed = true) :
    OneWayOk ({ s with type }.goto i pc) := by
  have hth : ∀ {p : Pc → Bool} {j}, (pc.attaches = true → p pc = true → p (s.thread i) = true) →
      p (update s.thread i pc j) = true → p (s.thread j) = true := by
    intro p j hp hj
    by_cases e : j = i
    · subst e
      rw [update_self] at hj
      exact hp (Pc.ringed_attaches hr) hj
    · rwa [update_of_ne e] at hj
  refine ⟨h.idle, h.bound, h.late, fun j hj => h.attach j (hth (fun _ _ => ha) hj),
    fun j hj => h.binds j (hth (fun _ e => hb ▸ e) hj),
    fun j k hj hk => h.alone j k (hth (fun _ _ => ha) hj) (hth (fun _ _ => ha) hk),
    fun j hj => h.unringed j (hth (fun _ e => by rw [hu] at e; cases e) hj), fun hne => ?_,
    h.assigned⟩
  refine (h.ringed hne).imp id fun _ => ⟨i, ?_⟩
  show (update s.thread i pc i).ringed = true
  rw [update_self]
  exact hr

theorem OneWayOk.store {state : CtxState} (h : OneWayOk s) (hf : ¬ Fresh state)
    (hb : state ≠ .bound) (hpc : pc.attaches = false) :
    OneWayOk ((s.setState state).goto i pc) := by
  have hidle : state ≠ .idle := fun e => hf (.inr e)
  refine ⟨fun _ => hf, fun _ => hb, fun hl => ?_, fun j hj => ?_, fun j hj => ⟨hb, ?_⟩,
    fun j k hj hk => ?_, fun j hj => ?_, fun _ => .inl hf, h.assigned⟩
  · have : s.leftIdle = true := by
      rcases hl with hl | hl
      · exact absurd hl hb
      · simp only [Ctx.goto, Ctx.setState, Bool.or_eq_true, Bool.and_eq_true, decide_eq_true_eq]
          at hl
        exact h.late (hl.symm.imp And.left id)
    simp [Ctx.goto, Ctx.setState, this]
  · right
    rcases h.attach j (thread_of_attaches hpc hj).2 with hs | hs
    · simp [Ctx.goto, Ctx.setState, hs, hidle]
    · simp [Ctx.goto, Ctx.setState, hs]
  · obtain ⟨hne, -⟩ := thread_of_attaches hpc (Pc.binds_attaches hj)
    simp only [Ctx.goto, update_of_ne hne] at hj
    obtain ⟨h1, h2⟩ := h.binds j hj
    simp [Ctx.goto, Ctx.setState, h1, h2]
  · exact h.alone j k (thread_of_attaches hpc hj).2 (thread_of_attaches hpc hk).2
  · obtain ⟨hne, -⟩ := thread_of_attaches hpc (Pc.unringed_attaches hj)
    simp only [Ctx.goto, update_of_ne hne] at hj
    exact h.unringed j hj

theorem OneWayOk.setRing (h : OneWayOk s) (ring : Nat) (hi : (s.thread i).unringed = true)
    (hb : pc.binds = (s.thread i).binds) (hr : pc.ringed = true) :
    OneWayOk ((s.setRing ring).goto i pc) := by
  have ha := Pc.unringed_attaches hi
  have h0 : s.assigned = 0 := h.unringed i hi
  have hself : (update s.thread i pc i) = pc := update_self ..
  -- nobody else is in the middle of a BIND or an ACCEPT
  have hother : ∀ j, j ≠ i → (s.thread j).attaches = false := by
    intro j hne
    by_contra hj
    exact hne (h.alone j i (by simpa using hj) ha)
  have hat : ∀ j, (update s.thread i pc j).attaches = true → j = i := by
    intro j hj
    by_contra hne
    rw [update_of_ne hne, hother j hne] at hj
    cases hj
  refine ⟨h.idle, h.bound, h.late, fun _ _ => h.attach i ha, fun j hj => ?_, fun j k hj hk => ?_,
    fun j hj => ?_, fun _ => .inr ⟨i, (congrArg Pc.ringed hself).trans hr⟩, ?_⟩
  · have := hat j (Pc.binds_attaches hj)
    subst this
    simp only [Ctx.goto, Ctx.setRing, hself, hb] at hj
    exact h.binds j hj
  · rw [hat j hj, hat k hk]
  · have := hat j (Pc.unringed_attaches hj)
    subst this
    simp only [Ctx.goto, Ctx.setRing, hself] at hj
    cases pc <;> first | (cases hj; done) | cases hr
  · show s.assigned + 1 ≤ 1
    rw [h0]

/-- While the context is fresh and no BIND or ACCEPT is at work, nothing has been attached. -/
theorem OneWayOk.unassigned (h : OneWayOk s) (hf : Fresh s.state) (ha : Alone s i)
    (hi : (s.thread i).attaches = false) : s.assigned = 0 := by
  by_contra hne
  rcases h.ringed hne with hn | ⟨j, hj⟩
  · exact hn hf
  · have hja := Pc.ringed_attaches hj
    by_cases e : j = i
    · rw [e, hi] at hja; cases hja
    · rw [ha j e] at hja; cases hja

theorem OneWayOk.initializeFile (h : OneWayOk s) (hf : Fresh s.state)
    (hi : (s.thread i).attaches = false) (hpc : pc = .none ∨ pc = .acceptAttach ∧ Alone s i) :
    OneWayOk ((s.setState .idle).goto i pc) := by
  have hli : s.leftIdle = false := by
    by_contra hl
    exact h.idle (by simpa using hl) hf
  have hnb : s.state ≠ .bound := by
    rcases hf with e | e <;> rw [e] <;> simp
  have hlb : s.leftBound = false := by
    by_contra hl
    rw [h.late (.inr (by simpa using hl))] at hli
    cases hli
  have hset : s.setState .idle = { s with state := .idle } := by
    simp [Ctx.setState, hli, hlb, hnb]
  have hpb : pc.binds = false := by rcases hpc with rfl | ⟨rfl, -⟩ <;> rfl
  have hsame : ∀ {p : Pc → Bool} {j}, p pc = false →
      p (update s.thread i pc j) = true → j ≠ i ∧ p (s.thread j) = true := by
    intro p j hp hj
    by_cases e : j = i
    · subst e
      rw [update_self, hp] at hj
      cases hj
    · rw [update_of_ne e] at hj
      exact ⟨e, hj⟩
  rw [hset]
  refine ⟨fun hl => ?_, fun hl => ?_, fun hl => ?_, fun _ _ => .inl rfl, fun j hj => ⟨nofun, hlb⟩,
    fun j k hj hk => ?_, fun j hj => ?_, fun hne => ?_, h.assigned⟩
  · have : s.leftIdle = true := hl
    rw [hli] at this
    cases this
  · have : s.leftBound = true := hl
    rw [hlb] at this
    cases this
  · rcases hl with hl | hl
    · cases hl
    · have : s.leftBound = true := hl
      rw [hlb] at this
      cases this
  · rcases hpc with rfl | ⟨rfl, ha⟩
    · exact h.alone j k (thread_of_attaches rfl hj).2 (thread_of_attaches rfl hk).2
    · have only : ∀ l, (update s.thread i .acceptAttach l).attaches = true → l = i := by
        intro l hl
        by_contra hne
        rw [update_of_ne hne, ha l hne] at hl
        cases hl
      rw [only j hj, only k hk]
  · rcases hpc with rfl | ⟨rfl, ha⟩
    · exact h.unringed j (hsame rfl hj).2
    · exact h.unassigned hf ha hi
  · rcases h.ringed hne with hn | ⟨j, hj⟩
    · exact absurd hf hn
    · refine .inr ⟨j, thread_of_not_ringed ?_ hj⟩
      by_contra hr
      rw [Pc.ringed_attaches (by simpa using hr)] at hi
      cases hi

theorem OneWayOk.bindCheck (h : OneWayOk s) (hs : s.state = .idle) (ha : Alone s i)
    (hi : (s.thread i).attaches = false) : OneWayOk (s.goto i .bindRing) := by
  have hf : Fresh s.state := .inr hs
  have h0 := h.unassigned hf ha hi
  have only : ∀ l, (update s.thread i .bindRing l).attaches = true → l = i := by
    intro l hl
    by_contra hne
    rw [update_of_ne hne, ha l hne] at hl
    cases hl
  refine ⟨h.idle, h.bound, h.late, fun _ _ => .inl hs, fun _ _ => ⟨?_, ?_⟩, fun j k hj hk => ?_,
    fun _ _ => h0, fun hne => absurd h0 hne, h.assigned⟩
  · show s.state ≠ .bound
    rw [hs]
    simp
  · show s.leftBound = false
    by_contra hl
    exact h.idle (h.late (.inr (by simpa using hl))) hf
  · rw [only j hj, only k hk]

theorem OneWayOk.bindState (h : OneWayOk s) (hi : s.thread i = .bindState) :
    OneWayOk ((s.setState .bound).goto i .none) := by
  have hat : (s.thread i).attaches = true := by rw [hi]; rfl
  obtain ⟨hnb, hlb⟩ := h.binds i (by rw [hi]; rfl)
  have hli : (s.setState .bound).leftIdle = true := by
    rcases h.attach i hat with hs | hs
    · simp [Ctx.setState, hs]
    · simp [Ctx.setState, hs]
  have hlb' : (s.setState .bound).leftBound = false := by simp [Ctx.setState, hnb, hlb]
  have hnf : ¬ Fresh .bound := by rintro (e | e) <;> cases e
  have hnone : ∀ j, (update s.thread i Pc.none j).attaches ≠ true := by
    intro j hj
    obtain ⟨hne, hj⟩ := thread_of_attaches rfl hj
    exact hne (h.alone j i hj hat)
  refine ⟨fun _ => hnf, fun hl => ?_, fun _ => hli, fun j hj => absurd hj (hnone j),
    fun j hj => absurd (Pc.binds_attaches hj) (hnone j), fun j k hj => absurd hj (hnone j),
    fun j hj => absurd (Pc.unringed_attaches hj) (hnone j), fun _ => .inl hnf, h.assigned⟩
  have : (s.setState .bound).leftBound = true := hl
  rw [hlb'] at this
  cases this

theorem not_fresh {state : CtxState} (h1 : state ≠ .uninitialized) (h2 : state ≠ .idle) :
    ¬ Fresh state := by
  rintro (e | e)
  · exact h1 e
  · exact h2 e

theorem OneWayOk.run {ok : Bool} {ring : Nat} (h : OneWayOk s)
    (hg : Guard s i ok (s.thread i)) (hs : s.run i ok ring (s.thread i) = some t) :
    OneWayOk t := by
  have hr : ∀ {q}, s.thread i = q → q.ringed = false → (s.thread i).ringed = false :=
    fun e hq => by rw [e]; exact hq
  have ha : ∀ {q b}, s.thread i = q → q.attaches = b → (s.thread i).attaches = b :=
    fun e hq => by rw [e]; exact hq
  have later : ∀ {state pc}, state ≠ .uninitialized → state ≠ .idle → state ≠ .bound →
      pc.attaches = false → OneWayOk ((s.setState state).goto i pc) :=
    fun h1 h2 h3 hpc => h.store (not_fresh h1 h2) h3 hpc
  cases hp : s.thread i with
  | none => rw [hp] at hs; cases hs
  | initializeFile =>
    rw [hp] at hs hg
    cases hs
    cases ok with
    | true => exact h.initializeFile (hg rfl) (ha hp rfl) (.inl rfl)
    | false => exact h.goto (hr hp rfl) rfl
  | acceptInitializeFile =>
    rw [hp] at hs hg
    cases hs
    cases ok with
    | true => exact h.initializeFile (hg rfl).1 (ha hp rfl) (.inr ⟨rfl, (hg rfl).2⟩)
    | false => exact h.goto (hr hp rfl) rfl
  | bindCheck =>
    rw [hp] at hs hg
    cases hs
    split
    · next he => exact h.bindCheck he (hg he) (ha hp rfl)
    · exact h.goto (hr hp rfl) rfl
  | bindRing =>
    rw [hp] at hs
    cases hs
    cases ok with
    | true => exact h.setRing ring (by rw [hp]; rfl) (by rw [hp]; rfl) rfl
    | false => exact h.goto (hr hp rfl) rfl
  | acceptAttach =>
    rw [hp] at hs
    cases hs
    exact h.setRing ring (by rw [hp]; rfl) (by rw [hp]; rfl) rfl
  | bindType | acceptType =>
    rw [hp] at hs
    cases hs
    exact h.next (ha hp rfl) (by rw [hp]; rfl) rfl rfl
  | bindState =>
    rw [hp] at hs
    cases hs
    exact h.bindState hp
  | listenCheck | connectCheck | waitCheck | disconnectCheck =>
    rw [hp] at hs
    cases hs
    split <;> exact h.goto (hr hp rfl) rfl
  | listenType | connectType | waitType | cleanupCheck =>
    rw [hp] at hs
    cases hs
    exact h.goto (hr hp rfl) rfl
  | listenState | connectState | waitState | acceptState | doAccepts | disconnectState | signal =>
    rw [hp] at hs
    cases hs
    exact later (by simp) (by simp) (by simp) rfl
  | connectInsert | waitInsert | acknowledge =>
    rw [hp] at hs
    cases hs
    cases ok with
    | true => exact h.goto (hr hp rfl) rfl
    | false => exact later (by simp) (by simp) (by simp) rfl
  | reads =>
    rw [hp] at hs
    cases hs
    apply h.goto (hr hp rfl)
    split <;> first | rfl | split <;> rfl
  | preConnect state =>
    rw [hp] at hs
    cases hs
    cases ok with
    | true =>
      simp only [if_true]
      split
      · exact later (by simp) (by simp) (by simp) rfl
      · exact h.goto (hr hp rfl) rfl
    | false => exact h.goto (hr hp rfl) rfl
  | write =>
    rw [hp] at hs
    cases hs
    cases ok with
    | true => exact later (by simp) (by simp) (by simp) rfl
    | false => exact h.goto (hr hp rfl) rfl
  | cleanupState type =>
    rw [hp] at hs
    cases hs
    split <;> exact later (by simp) (by simp) (by simp) rfl

theorem OneWayOk.step {a : Act n} (h : OneWayOk s) (hg : Guarded s a) (hs : s.step a = some t) :
    OneWayOk t := by
  cases a with
  | start i pc =>
    simp only [Ctx.step] at hs
    split at hs
    · next hc =>
      cases hs
      apply h.goto (by rw [hc.1]; rfl)
      cases pc <;> first | rfl | exact absurd hc.2 (by simp [Pc.entry])
    · cases hs
  | run i ok ring => exact h.run hg hs

theorem oneWayOk_init (n : Nat) : OneWayOk (ctxMachine n).init :=
  ⟨nofun, nofun, (by rintro (h | h) <;> cases h), nofun, nofun, nofun, nofun,
    fun h => absurd rfl h, Nat.zero_le _⟩

end Steps

/-! ## Runs -/

/-- In every run in which a context is initialized only while it is fresh, and BIND and ACCEPT do
not overlap on it: the state never returns to IDLE or BOUND once it has left it, and the ring is
assigned at most once. -/
theorem state_one_way (n : Nat) {s : Ctx n} (h : Machine.Reach (ctxMachine n) Guarded s) :
    (s.leftIdle = true → s.state ≠ .idle) ∧ (s.leftBound = true → s.state ≠ .bound) ∧
      s.assigned ≤ 1 := by
  have ho : OneWayOk s := h.inv (oneWayOk_init n) fun _ _ _ ho hg hs => ho.step hg hs
  exact ⟨fun hl e => ho.idle hl (.inr e), ho.bound, ho.assigned⟩

/-- A context is initialized, bound and connected. -/
theorem state_one_way_run :
    ∃ s, Machine.Reach (ctxMachine 1) Guarded s ∧ s.state = .connected ∧ s.assigned = 1 ∧
      s.leftIdle = true ∧ s.leftBound = true ∧ s.state ≠ .idle ∧ s.state ≠ .bound := by
  obtain ⟨s, hr, hs⟩ :=
    Machine.exists_reach (ctxMachine 1) Guarded
      (fun s => decide (s.state = .connected ∧ s.assigned = 1 ∧ s.leftIdle = true ∧
        s.leftBound = true))
      (List.flatten
        [[.start 0 .initializeFile, .run 0 true 0], .start 0 .bindCheck :: .replicate 4 (.run 0 true 7),
          .start 0 .connectCheck :: .replicate 4 (.run 0 true 0),
          [.start 0 .reads, .run 0 true 0, .run 0 true 0]])
      (by decide +kernel)
  obtain ⟨h1, h2, h3, h4⟩ := of_decide_eq_true hs
  have hw := state_one_way 1 hr
  exact ⟨s, hr, h1, h2, h3, h4, hw.1 h3, hw.2.1 h4⟩

/-- INITIALIZE takes a bound context back to IDLE, and it can be bound again. -/
theorem state_not_one_way :
    (∃ s, Machine.Reach (ctxMachine 1) Machine.Any s ∧ s.leftIdle = true ∧ s.state = .idle) ∧
    (∃ s, Machine.Reach (ctxMachine 1) Machine.Any s ∧ s.leftBound = true ∧ s.state = .bound) ∧
    ∃ s, Machine.Reach (ctxMachine 1) Machine.Any s ∧ s.assigned = 2 := by
  refine ⟨?_, ?_, ?_⟩
  · obtain ⟨s, hr, hs⟩ :=
      Machine.exists_reach (ctxMachine 1) Machine.Any
        (fun s => decide (s.leftIdle = true ∧ s.state = .idle))
        (List.flatten
          [[.start 0 .initializeFile, .run 0 true 0],
            .start 0 .bindCheck :: .replicate 4 (.run 0 true 7),
            [.start 0 .initializeFile, .run 0 true 0]])
        (by decide +kernel)
    exact ⟨s, hr, of_decide_eq_true hs⟩
  · obtain ⟨s, hr, hs⟩ :=
      Machine.exists_reach (ctxMachine 1) Machine.Any
        (fun s => decide (s.leftBound = true ∧ s.state = .bound))
        (List.flatten
          [[.start 0 .initializeFile, .run 0 true 0],
            .start 0 .bindCheck :: .replicate 4 (.run 0 true 7),
            [.start 0 .initializeFile, .run 0 true 0],
            .start 0 .bindCheck :: .replicate 4 (.run 0 true 8)])
        (by decide +kernel)
    exact ⟨s, hr, of_decide_eq_true hs⟩
  · obtain ⟨s, hr, hs⟩ :=
      Machine.exists_reach (ctxMachine 1) Machine.Any (fun s => decide (s.assigned = 2))
        (List.flatten
          [[.start 0 .initializeFile, .run 0 true 0],
            .start 0 .bindCheck :: .replicate 4 (.run 0 true 7),
            [.start 0 .initializeFile, .run 0 true 0],
            .start 0 .bindCheck :: .replicate 4 (.run 0 true 8)])
        (by decide +kernel)
    exact ⟨s, hr, of_decide_eq_true hs⟩

end XcWindows.V4v.OneWay
