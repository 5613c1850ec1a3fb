import XcWindows.Evtchn.Interrupt
import XcWindows.Lib.Links

/-!
# The event-channel ports

`EventChannelHandlers` and the list of `HeadEvtchnHandler` in `xenutil/evtchn.c`: the functions that
make a port, `reconstruct_handler` and `register_handler`, `EvtchnPortStop`, `EvtchnClose` and
`EvtchnRecoverFromSuspend`. What Xen answers to a hypercall is free, the hypercall and the
registration of a new port are two steps, and so are the two halves of `EvtchnPortStop` around the
wait for the interrupt and the DPC. Table and list have the same ports after every step; but
`reconstruct_handler` reports success for a fixed port that could not be registered, and the recovery
does not look at what it reports.
-/

namespace XcWindows.Evtchn

open Lib
open Function (update update_of_ne update_self)

/-- What a caller has of a port. -/
inductive PortStatus where
  | unused
  /-- allocated, and past the hypercall -/
  | creating
  /-- a non-null `EVTCHN_PORT` was returned -/
  | returned
  /-- in `EvtchnPortStop`, of `EvtchnClose` if `close` -/
  | stopping (close : Bool)
  | stopped
  | freed
deriving DecidableEq

/-- The fields of the ports, named by the order of their allocation, and the two structures. -/
structure Ports where
  next : Nat → Option Nat
  prev : Nat → Option Nat
  xenPort : Nat → Int
  cls : Nat → EvtchnClass
  status : Nat → PortStatus
  count : Nat
  eventChannelHandlers : Int → Option Nat
  headEvtchnHandler : Option Nat

inductive PortFault where
  | assertion
  | bugCheck
deriving DecidableEq

namespace Ports

variable (s : Ports)

def setStatus (h : Nat) (status : PortStatus) : Ports :=
  { s with status := update s.status h status }

def setXenPort (h : Nat) (port : Int) : Ports :=
  { s with xenPort := update s.xenPort h port }

/-- `*p = v` for a `prev` or `next` pointer, where `p` may be null. -/
def store (f : Nat → Option Nat) (p v : Option Nat) : Nat → Option Nat :=
  match p with
  | some q => update f q v
  | none => f

/-- `register_handler`, and whether it succeeds -/
def registerHandler (h : Nat) : Except PortFault (Ports × Bool) :=
  if 0 ≤ s.xenPort h ∧ s.xenPort h < maxEvtchn then
    if (s.eventChannelHandlers (s.xenPort h)).isSome then .ok (s, false)
    else
      .ok ({ s with
        eventChannelHandlers := update s.eventChannelHandlers (s.xenPort h) (some h)
        next := update s.next h s.headEvtchnHandler
        prev := store (update s.prev h none) s.headEvtchnHandler (some h)
        headEvtchnHandler := some h }, true)
  else .error .assertion

/-- The hypercall of `reconstruct_handler`, which a fixed port does not need; `none` is an error. -/
def bind (h : Nat) (answer : Option Nat) : Option Ports :=
  match s.cls h with
  | .fixed => some s
  | .interdomain | .interdomainDpc | .alien | .virq =>
    answer.map fun port => s.setXenPort h port

/-- The rest of `reconstruct_handler` -/
def install (h : Nat) : Except PortFault Ports := do
  let (s, success) ← s.registerHandler h
  match s.cls h with
  | .fixed => return s
  | .interdomain | .interdomainDpc | .alien | .virq =>
    if success then return s else throw .bugCheck

def reconstructHandler (h : Nat) (answer : Option Nat) : Except PortFault (Ports × Bool) :=
  match s.bind h answer with
  | none => .ok (s, false)
  | some s => do return (← s.install h, true)

/-- The port of `allocate_handler`, with its class, and the first half of `reconstruct_handler`. The
caller gets a null port if there is no memory or the hypercall fails. -/
def create (cls : EvtchnClass) (xenPort : Int) (alloc : Bool) (answer : Option Nat) : Ports :=
  let h := s.count
  let s' := { s with
    cls := update s.cls h cls
    xenPort := update s.xenPort h xenPort
    status := update s.status h .creating
    count := s.count + 1 }
  if alloc then
    match s'.bind h answer with
    | some s'' => s''
    | none => s'.setStatus h .freed
  else s

def evtchnRegisterHandler (xenPort : Int) (alloc : Bool) : Ports :=
  s.create .fixed xenPort alloc none

def evtchnBindVirq (alloc : Bool) (answer : Option Nat) : Ports := s.create .virq 0 alloc answer

def evtchnAllocUnboundDpc (alloc : Bool) (answer : Option Nat) : Ports :=
  s.create .interdomainDpc 0 alloc answer

def evtchnConnectRemotePort (alloc : Bool) (answer : Option Nat) : Ports :=
  s.create .alien 0 alloc answer

def evtchnAllocUnbound (alloc : Bool) (answer : Option Nat) : Ports :=
  s.create .interdomain 0 alloc answer

/-- The second half of the call that makes a port, which returns it. -/
def created (h : Nat) : Except PortFault Ports := do
  return (← s.install h).setStatus h .returned

/-- `EvtchnPortStop` under the lock; `EVTCHNOP_close` goes with the unlinking. -/
def evtchnPortStop (h : Nat) : Except PortFault Ports :=
  if 0 ≤ s.xenPort h ∧ s.eventChannelHandlers (s.xenPort h) = some h then
    if s.xenPort h < maxEvtchn then
      .ok { s with
        prev := store s.prev (s.next h) (s.prev h)
        next := store s.next (s.prev h) (s.next h)
        headEvtchnHandler := if (s.prev h).isSome then s.headEvtchnHandler else s.next h
        eventChannelHandlers := update s.eventChannelHandlers (s.xenPort h) none }
    else .error .assertion
  else .ok s

/-- The loop of `EvtchnRecoverFromSuspend`, which may go round `left` more times. -/
def recoverLoop (answer : Nat → Option Nat) : Nat → Option Nat → Ports → Except PortFault Ports
  | _, none, s => .ok s
  | left, some h, s => do
    let n := s.next h
    let (s, _) ← s.reconstructHandler h (answer h)
    match left with
    | 0 => throw .bugCheck
    | left + 1 => recoverLoop answer left n s

def evtchnRecoverFromSuspend (answer : Nat → Option Nat) : Except PortFault Ports :=
  recoverLoop answer maxEvtchn s.headEvtchnHandler
    { s with eventChannelHandlers := fun _ => none, headEvtchnHandler := none }

end Ports

inductive PortAct where
  | registerHandler (xenPort : Int) (alloc : Bool)
  | bindVirq (alloc : Bool) (answer : Option Nat)
  | allocUnboundDpc (alloc : Bool) (answer : Option Nat)
  | connectRemotePort (alloc : Bool) (answer : Option Nat)
  | allocUnbound (alloc : Bool) (answer : Option Nat)
  /-- the call that makes `h` goes on -/
  | created (h : Nat)
  | stop (h : Nat)
  | close (h : Nat)
  | stopDone (h : Nat)
  | recover (answer : Nat → Option Nat)

/-- The port may be stopped: it was returned and is not closed, and nobody stops it. -/
def PortStatus.stoppable : PortStatus → Bool
  | .returned | .stopped => true
  | .unused | .creating | .stopping _ | .freed => false

def Ports.step (s : Ports) : PortAct → Option Ports
  | .registerHandler xenPort alloc => some (s.evtchnRegisterHandler xenPort alloc)
  | .bindVirq alloc answer => some (s.evtchnBindVirq alloc answer)
  | .allocUnboundDpc alloc answer => some (s.evtchnAllocUnboundDpc alloc answer)
  | .connectRemotePort alloc answer => some (s.evtchnConnectRemotePort alloc answer)
  | .allocUnbound alloc answer => some (s.evtchnAllocUnbound alloc answer)
  | .created h => if s.status h = .creating then (s.created h).toOption else none
  | .stop h =>
    if (s.status h).stoppable then
      (s.evtchnPortStop h).toOption.map fun t => t.setStatus h (.stopping false)
    else none
  | .close h =>
    if (s.status h).stoppable then
      (s.evtchnPortStop h).toOption.map fun t => t.setStatus h (.stopping true)
    else none
  | .stopDone h =>
    match s.status h with
    | .stopping close =>
      some ((s.setXenPort h (-1)).setStatus h (if close then .freed else .stopped))
    | _ => none
  | .recover answer => (s.evtchnRecoverFromSuspend answer).toOption

/-- No ports; a failed assertion or a bug check ends the run. -/
def portsMachine : Machine Ports PortAct where
  init :=
    { next := fun _ => none, prev := fun _ => none, xenPort := fun _ => 0,
      cls := fun _ => .interdomain, status := fun _ => .unused, count := 0,
      eventChannelHandlers := fun _ => none, headEvtchnHandler := none }
  step := Ports.step

/-! ## Table and list -/

/-- The list and the table have the ports `xs`. -/
structure Describes (s : Ports) (xs : List Nat) : Prop where
  links : ∃ tail, Dll s.next s.prev s.headEvtchnHandler tail xs
  entry : ∀ h ∈ xs, 0 ≤ s.xenPort h ∧ s.xenPort h < maxEvtchn ∧
    s.eventChannelHandlers (s.xenPort h) = some h
  listed : ∀ port h, s.eventChannelHandlers port = some h → h ∈ xs ∧ s.xenPort h = port

variable {s t : Ports} {h : Nat} {xs : List Nat}

theorem describes_nil (ht : ∀ port, s.eventChannelHandlers port = none)
    (hh : s.headEvtchnHandler = none) : Describes s [] := by
  refine ⟨⟨none, ?_⟩, by simp, fun port h he => ?_⟩
  · rw [hh]
    exact Dll.nil
  · rw [ht port] at he
    cases he

theorem Describes.nodup (d : Describes s xs) : xs.Nodup := by
  obtain ⟨_, hl⟩ := d.links
  exact hl.nodup

theorem Describes.frame (d : Describes s xs) (hn : t.next = s.next) (hp : t.prev = s.prev)
    (hh : t.headEvtchnHandler = s.headEvtchnHandler)
    (ht : t.eventChannelHandlers = s.eventChannelHandlers)
    (hx : ∀ h ∈ xs, t.xenPort h = s.xenPort h) : Describes t xs := by
  refine ⟨?_, fun h hm => ?_, fun port h he => ?_⟩
  · rw [hn, hp, hh]
    exact d.links
  · rw [hx h hm, ht]
    exact d.entry h hm
  · rw [ht] at he
    obtain ⟨hm, e⟩ := d.listed port h he
    exact ⟨hm, (hx h hm).trans e⟩

theorem Describes.setStatus (d : Describes s xs) (status : PortStatus) :
    Describes (s.setStatus h status) xs :=
  d.frame rfl rfl rfl rfl fun _ _ => rfl

theorem Describes.setXenPort (d : Describes s xs) (hh : h ∉ xs) (port : Int) :
    Describes (s.setXenPort h port) xs :=
  d.frame rfl rfl rfl rfl fun x hx => by
    have hne : x ≠ h := fun e => hh (e ▸ hx)
    simp [Ports.setXenPort, update_of_ne hne]

theorem store_apply (f : Nat → Option Nat) (p v : Option Nat) (x : Nat) :
    Ports.store f p v x = if p = some x then v else f x := by
  cases p with
  | none => simp [Ports.store]
  | some q => simp [Ports.store, Function.update_apply, eq_comm]

theorem registerHandler_cases {b : Bool} (hr : s.registerHandler h = .ok (t, b)) :
    (b = false ∧ t = s ∧ (s.eventChannelHandlers (s.xenPort h)).isSome) ∨
    b = true ∧ s.eventChannelHandlers (s.xenPort h) = none ∧
      0 ≤ s.xenPort h ∧ s.xenPort h < maxEvtchn ∧
      t = { s with
        eventChannelHandlers := update s.eventChannelHandlers (s.xenPort h) (some h)
        next := update s.next h s.headEvtchnHandler
        prev := Ports.store (update s.prev h none) s.headEvtchnHandler (some h)
        headEvtchnHandler := some h } := by
  unfold Ports.registerHandler at hr
  split at hr
  · next hrange =>
    split at hr
    · next hsome =>
      cases hr
      exact .inl ⟨rfl, rfl, hsome⟩
    · next hnone =>
      cases hr
      exact .inr ⟨rfl, by simpa using hnone, hrange.1, hrange.2, rfl⟩
  · cases hr

theorem Describes.register (d : Describes s xs) (hh : h ∉ xs)
    (hr : s.registerHandler h = .ok (t, true)) : Describes t (h :: xs) := by
  rcases registerHandler_cases hr with ⟨hb, -⟩ | ⟨-, hfree, h0, h1, rfl⟩
  · cases hb
  have hne : ∀ x ∈ xs, x ≠ h := by
    rintro x hx rfl
    exact hh hx
  have hport : ∀ x ∈ xs, s.xenPort x ≠ s.xenPort h := by
    intro x hx e
    have := (d.entry x hx).2.2
    rw [e, hfree] at this
    cases this
  refine ⟨?_, fun x hx => ?_, fun port x he => ?_⟩
  · obtain ⟨tail, hl⟩ := d.links
    have hhead : ∀ q, s.headEvtchnHandler = some q → q ∈ xs := fun q e =>
      List.mem_of_mem_head? (hl.head_eq.symm.trans e)
    refine ⟨tail.or (some h), hl.cons hh (update_self ..) ?_ (fun x hx => ?_) fun x hx => ?_⟩
    · refine (store_apply _ _ _ h).trans ?_
      rw [if_neg fun e => hh (hhead h e), update_self]
    · exact update_of_ne (hne x hx) ..
    · refine (store_apply _ _ _ x).trans ?_
      rw [update_of_ne (hne x hx)]
  · rcases List.mem_cons.mp hx with rfl | hx
    · exact ⟨h0, h1, update_self ..⟩
    · obtain ⟨h2, h3, h4⟩ := d.entry x hx
      exact ⟨h2, h3, (update_of_ne (hport x hx) ..).trans h4⟩
  · by_cases hp : port = s.xenPort h
    · subst hp
      simp only [update_self, Option.some.injEq] at he
      subst he
      exact ⟨List.mem_cons_self, rfl⟩
    · simp only [update_of_ne hp] at he
      obtain ⟨hx, e⟩ := d.listed port x he
      exact ⟨.tail _ hx, e⟩

theorem Describes.stop (d : Describes s xs) (hr : s.evtchnPortStop h = .ok t) :
    Describes t (xs.filter (· ≠ h)) := by
  unfold Ports.evtchnPortStop at hr
  split at hr
  · next hreg =>
    split at hr
    · next hlt =>
      cases hr
      obtain ⟨hm, -⟩ := d.listed _ _ hreg.2
      obtain ⟨l₁, l₂, rfl⟩ := List.append_of_mem hm
      have hnd := d.nodup
      rw [List.nodup_append, List.nodup_cons] at hnd
      have hne : ∀ x ∈ l₁ ++ l₂, x ≠ h := by
        rintro x hx rfl
        rcases List.mem_append.mp hx with hx | hx
        · exact hnd.2.2 x hx x List.mem_cons_self rfl
        · exact hnd.2.1.1 hx
      have hfilter : (l₁ ++ h :: l₂).filter (· ≠ h) = l₁ ++ l₂ := by
        rw [List.filter_append, List.filter_cons_of_neg (by simp), ← List.filter_append]
        exact List.filter_eq_self.mpr fun x hx => by simpa using hne x hx
      rw [hfilter]
      have hmem : ∀ x ∈ l₁ ++ l₂, x ∈ l₁ ++ h :: l₂ := by
        intro x hx
        rcases List.mem_append.mp hx with hx | hx
        · exact List.mem_append_left _ hx
        · exact List.mem_append_right _ (.tail _ hx)
      refine ⟨?_, fun x hx => ?_, fun port x he => ?_⟩
      · obtain ⟨tail, hl⟩ := d.links
        exact ⟨_, hl.remove (fun x _ => store_apply _ _ _ x) fun x _ => store_apply _ _ _ x⟩
      · obtain ⟨h0, h1, h2⟩ := d.entry x (hmem x hx)
        refine ⟨h0, h1, (update_of_ne (fun e => ?_) ..).trans h2⟩
        rw [e, hreg.2] at h2
        exact hne x hx (Option.some.inj h2).symm
      · by_cases hp : port = s.xenPort h
        · simp [hp] at he
        · simp only [update_of_ne hp] at he
          obtain ⟨hx, e⟩ := d.listed port x he
          have hxh : x ≠ h := by
            rintro rfl
            exact hp e.symm
          refine ⟨?_, e⟩
          rw [← hfilter]
          exact List.mem_filter.mpr ⟨hx, by simpa using hxh⟩
    · cases hr
  · next hreg =>
    cases hr
    have hh : h ∉ xs := fun hm => hreg ⟨(d.entry h hm).1, (d.entry h hm).2.2⟩
    have hne : ∀ x ∈ xs, x ≠ h := by
      rintro x hx rfl
      exact hh hx
    rw [List.filter_eq_self.mpr fun x hx => by simpa using hne x hx]
    exact d

/-! ## Registering again -/

/-- The number that the hypercall of `reconstruct_handler` leaves in a port. -/
def Ports.newPort (s : Ports) (h : Nat) (answer : Option Nat) : Option Int :=
  match s.cls h with
  | .fixed => some (s.xenPort h)
  | .interdomain | .interdomainDpc | .alien | .virq => answer.map fun port => (port : Int)

theorem bind_eq (answer : Option Nat) :
    s.bind h answer = (s.newPort h answer).map (s.setXenPort h) := by
  unfold Ports.bind Ports.newPort
  cases s.cls h with
  | fixed => simp [Ports.setXenPort]
  | interdomain | interdomainDpc | alien | virq => cases answer <;> rfl

theorem registerHandler_frame {b : Bool} (hr : s.registerHandler h = .ok (t, b)) :
    t.status = s.status ∧ t.count = s.count ∧ t.cls = s.cls ∧ t.xenPort = s.xenPort ∧
      ∀ x, x ≠ h → t.next x = s.next x := by
  rcases registerHandler_cases hr with ⟨-, rfl, -⟩ | ⟨-, -, -, -, rfl⟩
  · exact ⟨rfl, rfl, rfl, rfl, fun _ _ => rfl⟩
  · exact ⟨rfl, rfl, rfl, rfl, fun x hx => update_of_ne hx ..⟩

theorem install_cases (hi : s.install h = .ok t) :
    ∃ b, s.registerHandler h = .ok (t, b) ∧ (b = false → s.cls h = .fixed) := by
  unfold Ports.install at hi
  obtain ⟨⟨u, b⟩, hu, hi⟩ := bind_ok hi
  have hcls : u.cls h = s.cls h := by rw [(registerHandler_frame hu).2.2.1]
  cases hc : u.cls h with
  | fixed =>
    simp only [hc] at hi
    cases hi
    exact ⟨b, hu, fun _ => hcls ▸ hc⟩
  | interdomain | interdomainDpc | alien | virq =>
    cases b <;> simp [hc, pure, Except.pure, throw, throwThe, MonadExceptOf.throw] at hi
    subst hi
    exact ⟨true, hu, by simp⟩

theorem Describes.registerHandler {b : Bool} (d : Describes s xs) (hh : h ∉ xs)
    (hr : s.registerHandler h = .ok (t, b)) : Describes t (if b then h :: xs else xs) := by
  cases b with
  | true => exact d.register hh hr
  | false =>
    rcases registerHandler_cases hr with ⟨-, rfl, -⟩ | ⟨hb, -⟩
    · exact d
    · cases hb

theorem reconstructHandler_cases {answer : Option Nat} {b : Bool}
    (hr : s.reconstructHandler h answer = .ok (t, b)) :
    (s.newPort h answer = none ∧ t = s) ∨
      ∃ port b', s.newPort h answer = some port ∧
        (s.setXenPort h port).registerHandler h = .ok (t, b') ∧ (b' = false → s.cls h = .fixed) := by
  unfold Ports.reconstructHandler at hr
  rw [bind_eq] at hr
  cases hp : s.newPort h answer with
  | none =>
    simp only [hp, Option.map_none] at hr
    cases hr
    exact .inl ⟨rfl, rfl⟩
  | some port =>
    simp only [hp, Option.map_some] at hr
    obtain ⟨u, hu, hr⟩ := bind_ok hr
    cases hr
    obtain ⟨b', hb, hfix⟩ := install_cases hu
    exact .inr ⟨port, b', rfl, hb, hfix⟩

/-- Each port of `rest` gets a number, which no other one has. -/
def Good (s : Ports) (answer : Nat → Option Nat) (ys rest : List Nat) : Prop :=
  ∀ x ∈ rest, ∃ port, s.newPort x (answer x) = some port ∧ (∀ y ∈ ys, s.xenPort y ≠ port) ∧
    ∀ x' ∈ rest, x' ≠ x → s.newPort x' (answer x') ≠ some port

/-- The ports `rest` are registered again, after `ys`. -/
structure Recovered (s t : Ports) (answer : Nat → Option Nat) (ys rest zs : List Nat) : Prop where
  describes : Describes t zs
  sub : ∀ z ∈ zs, z ∈ ys ∨ z ∈ rest
  status : t.status = s.status
  count : t.count = s.count
  old : ∀ y ∈ ys, y ∈ zs
  all : Good s answer ys rest → ∀ x ∈ rest, x ∈ zs

theorem newPort_congr {answer : Option Nat} (hc : t.cls = s.cls) (hx : t.xenPort h = s.xenPort h) :
    t.newPort h answer = s.newPort h answer := by
  simp [Ports.newPort, hc, hx]

theorem Good.registered {answer : Nat → Option Nat} {rest ys : List Nat} {port : Int}
    (good : Good s answer ys (h :: rest)) (hhr : h ∉ rest) (hh : h ∉ ys)
    (hport : s.newPort h (answer h) = some port) (hcls : t.cls = s.cls)
    (hx : t.xenPort = update s.xenPort h port) : Good t answer (h :: ys) rest := by
  have hne : ∀ x ∈ rest, x ≠ h := fun x hm e => hhr (e ▸ hm)
  have hxen : ∀ x, x ≠ h → t.xenPort x = s.xenPort x := fun x hm => by
    rw [hx, update_of_ne hm]
  intro x hm
  obtain ⟨q, hq, h1, h2⟩ := good x (.tail _ hm)
  refine ⟨q, (newPort_congr hcls (hxen x (hne x hm))).trans hq, fun y hy => ?_, fun x' hm' hxx => ?_⟩
  · rcases List.mem_cons.mp hy with rfl | hy
    · rw [hx, update_self]
      rintro rfl
      exact h2 y List.mem_cons_self (Ne.symm (hne x hm)) hport
    · rw [hxen y fun e => hh (e ▸ hy)]
      exact h1 y hy
  · rw [newPort_congr hcls (hxen x' (hne x' hm'))]
    exact h2 x' (.tail _ hm') hxx

theorem Describes.registers {b : Bool} {port : Int} (d : Describes s xs) (hh : h ∉ xs)
    (hfree : ∀ y ∈ xs, s.xenPort y ≠ port) (hr : (s.setXenPort h port).registerHandler h = .ok (t, b)) :
    b = true := by
  rcases registerHandler_cases hr with ⟨-, -, hsome⟩ | ⟨hb, -⟩
  · obtain ⟨y, hy⟩ := Option.isSome_iff_exists.mp hsome
    obtain ⟨hm, e⟩ := (d.setXenPort hh port).listed _ _ hy
    have hyh : y ≠ h := fun e => hh (e ▸ hm)
    simp only [Ports.setXenPort, update_self, update_of_ne hyh] at e
    exact absurd e (hfree y hm)
  · exact hb

theorem Describes.recoverLoop {answer : Nat → Option Nat} {rest ys : List Nat} {left : Nat}
    {o : Option Nat} (hseg : Seg s.next o rest none) (hnd : rest.Nodup)
    (hd : ∀ x ∈ rest, x ∉ ys) (d : Describes s ys)
    (hr : Ports.recoverLoop answer left o s = .ok t) : ∃ zs, Recovered s t answer ys rest zs := by
  induction rest generalizing s ys left o with
  | nil =>
    obtain rfl : o = none := hseg
    cases left <;> cases hr <;>
      exact ⟨ys, d, fun _ hz => .inl hz, rfl, rfl, fun _ hy => hy, fun _ _ hx => by cases hx⟩
  | cons h rest ih =>
    obtain ⟨rfl, hseg⟩ := hseg
    obtain ⟨hhr, hnd⟩ := List.nodup_cons.mp hnd
    have hh : h ∉ ys := hd h List.mem_cons_self
    cases left with
    | zero =>
      obtain ⟨_, -, hr⟩ := bind_ok hr
      cases hr
    | succ left =>
      obtain ⟨⟨u, b⟩, hu, hr⟩ := bind_ok hr
      rcases reconstructHandler_cases hu with ⟨hnone, rfl⟩ | ⟨port, b', hport, hreg, hfix⟩
      · -- the hypercall failed: the port is in neither structure
        obtain ⟨zs, r⟩ := ih hseg hnd (fun x hx => hd x (.tail _ hx)) d hr
        refine ⟨zs, r.describes, fun z hz => (r.sub z hz).imp_right (.tail _), r.status, r.count,
          r.old, fun good => ?_⟩
        obtain ⟨port, hp, -⟩ := good h List.mem_cons_self
        rw [hnone] at hp
        cases hp
      · obtain ⟨f1, f2, f3, f4, f5⟩ := registerHandler_frame hreg
        have hne : ∀ x ∈ rest, x ≠ h := by
          rintro x hx rfl
          exact hhr hx
        have d' := (d.setXenPort hh port).registerHandler hh hreg
        obtain ⟨zs, r⟩ := ih (hseg.congr fun x hx => f5 x (hne x hx)) hnd
          (fun x hx hm => by
            have hx' : x ∈ h :: ys := by
              cases b' with
              | true => exact hm
              | false => exact .tail _ hm
            rcases List.mem_cons.mp hx' with e | hy
            · exact hne x hx e
            · exact hd x (.tail _ hx) hy) d' hr
        refine ⟨zs, r.describes, fun z hz => ?_, r.status.trans f1, r.count.trans f2,
          fun y hy => r.old y ?_, fun good => ?_⟩
        · rcases r.sub z hz with hm | hm
          · cases b' with
            | true => exact (List.mem_cons.mp hm).elim (fun e => .inr (e ▸ List.mem_cons_self)) .inl
            | false => exact .inl hm
          · exact .inr (.tail _ hm)
        · cases b' with
          | true => exact .tail _ hy
          | false => exact hy
        · -- the number is free, so the port was registered
          obtain ⟨port', hp, hys, hrest⟩ := good h List.mem_cons_self
          obtain rfl : port = port' := Option.some.inj (hport.symm.trans hp)
          obtain rfl := d.registers hh hys hreg
          have good' := good.registered hhr hh hport f3 f4
          intro x hx
          rcases List.mem_cons.mp hx with rfl | hx
          · exact r.old x List.mem_cons_self
          · exact r.all good' x hx

/-! ## Runs -/

/-- The port is in the table. -/
def Ports.Registered (s : Ports) (h : Nat) : Prop := ∃ port, s.eventChannelHandlers port = some h

/-- A fixed port is registered under a number that is free, and on a recovery every hypercall
succeeds and no two ports get the same number. -/
def PortStepOk (s : Ports) : PortAct → Prop
  | .created h => s.cls h = .fixed → s.eventChannelHandlers (s.xenPort h) = none
  | .recover answer => ∀ h, s.Registered h → ∃ port, s.newPort h (answer h) = some port ∧
      ∀ h', s.Registered h' → h' ≠ h → s.newPort h' (answer h') ≠ some port
  | .registerHandler .. | .bindVirq .. | .allocUnboundDpc .. | .connectRemotePort .. |
    .allocUnbound .. | .stop _ | .close _ | .stopDone _ => True

/-- Only ports that callers have are listed. -/
structure PortsOk (s : Ports) (xs : List Nat) : Prop where
  describes : Describes s xs
  returned : ∀ h ∈ xs, s.status h = .returned
  fresh : ∀ h, s.count ≤ h → s.status h = .unused

theorem PortsOk.notMem (ok : PortsOk s xs) (hs : s.status h ≠ .returned) : h ∉ xs :=
  fun hm => hs (ok.returned h hm)

theorem Describes.registered (d : Describes s xs) : s.Registered h ↔ h ∈ xs :=
  ⟨fun ⟨port, hp⟩ => (d.listed port h hp).1, fun hm => ⟨_, (d.entry h hm).2.2⟩⟩

theorem PortsOk.setStatus {status : PortStatus} (ok : PortsOk s xs) (hh : h ∉ xs)
    (hk : h < s.count) : PortsOk (s.setStatus h status) xs := by
  refine ⟨ok.describes.setStatus status, fun x hx => ?_, fun x hx => ?_⟩
  · have hne : x ≠ h := fun e => hh (e ▸ hx)
    exact (update_of_ne hne ..).trans (ok.returned x hx)
  · have hne : x ≠ h := by
      have : s.count ≤ x := hx
      omega
    exact (update_of_ne hne ..).trans (ok.fresh x hx)

theorem PortsOk.known (ok : PortsOk s xs) (hs : s.status h ≠ .unused) : h < s.count := by
  by_contra hc
  exact hs (ok.fresh h (by omega))

theorem PortsOk.create (ok : PortsOk s xs) (cls : EvtchnClass) (xenPort : Int) (alloc : Bool)
    (answer : Option Nat) :
    PortsOk (s.create cls xenPort alloc answer) xs ∧
      ∀ h, (s.create cls xenPort alloc answer).status h = .returned → s.status h = .returned := by
  have hh : s.count ∉ xs := ok.notMem (by simp [ok.fresh s.count (Nat.le_refl _)])
  have hne : ∀ x ∈ xs, x ≠ s.count := fun x hx e => hh (e ▸ hx)
  unfold Ports.create
  cases alloc with
  | false => exact ⟨ok, fun _ h => h⟩
  | true =>
    simp only [if_true]
    -- whatever the number and the status of the new port
    have hnew : ∀ (status : PortStatus) (t : Ports), status ≠ .returned →
        t.next = s.next → t.prev = s.prev → t.headEvtchnHandler = s.headEvtchnHandler →
        t.eventChannelHandlers = s.eventChannelHandlers →
        (∀ x, x ≠ s.count → t.xenPort x = s.xenPort x) →
        t.status = update s.status s.count status → t.count = s.count + 1 →
        PortsOk t xs ∧ ∀ h, t.status h = .returned → s.status h = .returned := by
      intro status t hst h1 h2 h3 h4 h5 h6 h7
      refine ⟨⟨ok.describes.frame h1 h2 h3 h4 fun x hx => h5 x (hne x hx), fun x hx => ?_,
        fun x hx => ?_⟩, fun x hx => ?_⟩
      · rw [h6, update_of_ne (hne x hx)]
        exact ok.returned x hx
      · rw [h6, update_of_ne (by omega)]
        exact ok.fresh x (by omega)
      · rw [h6] at hx
        by_cases hxc : x = s.count
        · subst hxc
          rw [update_self] at hx
          exact absurd hx hst
        · rwa [update_of_ne hxc] at hx
    rw [bind_eq]
    cases hp : Ports.newPort _ s.count answer with
    | none =>
      exact hnew .freed _ (by simp) rfl rfl rfl rfl (fun x hx => update_of_ne hx ..)
        (Function.update_idem ..) rfl
    | some port =>
      exact hnew .creating _ (by simp) rfl rfl rfl rfl
        (fun x hx => (update_of_ne hx ..).trans (update_of_ne hx ..)) rfl rfl

theorem PortsOk.created (ok : PortsOk s xs) (hs : s.status h = .creating)
    (hr : s.created h = .ok t) :
    ∃ ys, PortsOk t ys ∧ (∀ x ∈ xs, x ∈ ys) ∧ (∀ x, t.status x = .returned → s.status x = .returned ∨ x = h) ∧
      ((s.cls h = .fixed → s.eventChannelHandlers (s.xenPort h) = none) → h ∈ ys) := by
  have hh : h ∉ xs := ok.notMem (by simp [hs])
  obtain ⟨u, hu, hr⟩ := bind_ok hr
  cases hr
  obtain ⟨b, hreg, hfix⟩ := install_cases hu
  obtain ⟨f1, f2, -⟩ := registerHandler_frame hreg
  have d := ok.describes.registerHandler hh hreg
  refine ⟨_, ⟨d.setStatus .returned, fun x hx => ?_, fun x hx => ?_⟩, fun x hx => ?_, fun x hx => ?_,
    fun hfree => ?_⟩
  · by_cases hxh : x = h
    · subst hxh
      exact update_self ..
    · refine (update_of_ne hxh ..).trans ?_
      rw [f1]
      cases b with
      | true => exact ok.returned x ((List.mem_cons.mp hx).resolve_left hxh)
      | false => exact ok.returned x hx
  · have hk := ok.known (h := h) (by simp [hs])
    have hx' : u.count ≤ x := hx
    rw [f2] at hx'
    refine (update_of_ne (by omega) ..).trans ?_
    rw [f1]
    exact ok.fresh x hx'
  · cases b with
    | true => exact .tail _ hx
    | false => exact hx
  · by_cases hxh : x = h
    · exact .inr hxh
    · left
      rw [← f1]
      exact (update_of_ne hxh ..).symm.trans hx
  · cases b with
    | true => exact List.mem_cons_self
    | false =>
      rcases registerHandler_cases hreg with ⟨-, -, hsome⟩ | ⟨hb, -⟩
      · rw [hfree (hfix rfl)] at hsome
        cases hsome
      · cases hb

theorem PortsOk.stop (close : Bool) (ok : PortsOk s xs) (hs : (s.status h).stoppable = true)
    (hr : s.evtchnPortStop h = .ok t) :
    PortsOk (t.setStatus h (.stopping close)) (xs.filter (· ≠ h)) ∧
      ∀ x, (t.setStatus h (.stopping close)).status x = .returned →
        s.status x = .returned ∧ x ≠ h := by
  have hf : t.status = s.status ∧ t.count = s.count := by
    unfold Ports.evtchnPortStop at hr
    split at hr
    · split at hr
      · cases hr
        exact ⟨rfl, rfl⟩
      · cases hr
    · cases hr
      exact ⟨rfl, rfl⟩
  have hk : h < s.count := ok.known (by
    intro e
    rw [e] at hs
    cases hs)
  refine ⟨⟨(ok.describes.stop hr).setStatus _, fun x hx => ?_, fun x hx => ?_⟩, fun x hx => ?_⟩
  · obtain ⟨hm, hne⟩ := List.mem_filter.mp hx
    refine (update_of_ne (by simpa using hne) ..).trans ?_
    rw [hf.1]
    exact ok.returned x hm
  · have hx' : t.count ≤ x := hx
    rw [hf.2] at hx'
    refine (update_of_ne (by omega) ..).trans ?_
    rw [hf.1]
    exact ok.fresh x hx'
  · by_cases hxh : x = h
    · subst hxh
      have := (update_self ..).symm.trans hx
      cases this
    · refine ⟨?_, hxh⟩
      rw [← hf.1]
      exact (update_of_ne hxh ..).symm.trans hx

theorem PortsOk.stopDone {close : Bool} (ok : PortsOk s xs) (hs : s.status h = .stopping close) :
    PortsOk ((s.setXenPort h (-1)).setStatus h (if close then .freed else .stopped)) xs ∧
      ∀ x, ((s.setXenPort h (-1)).setStatus h (if close then .freed else .stopped)).status x =
        .returned → s.status x = .returned := by
  have hh : h ∉ xs := ok.notMem (by simp [hs])
  have ok' : PortsOk (s.setXenPort h (-1)) xs :=
    ⟨ok.describes.setXenPort hh (-1), ok.returned, ok.fresh⟩
  refine ⟨ok'.setStatus hh (ok.known (by simp [hs])), fun x hx => ?_⟩
  by_cases hxh : x = h
  · subst hxh
    have := (update_self ..).symm.trans hx
    cases close <;> cases this
  · exact (update_of_ne hxh ..).symm.trans hx

theorem PortsOk.recover {answer : Nat → Option Nat} (ok : PortsOk s xs)
    (hr : s.evtchnRecoverFromSuspend answer = .ok t) :
    ∃ ys, PortsOk t ys ∧ t.status = s.status ∧
      (PortStepOk s (.recover answer) → ∀ x ∈ xs, x ∈ ys) := by
  obtain ⟨tail, hl⟩ := ok.describes.links
  have d0 : Describes { s with eventChannelHandlers := fun _ => none, headEvtchnHandler := none } [] :=
    describes_nil (fun _ => rfl) rfl
  obtain ⟨ys, r⟩ := Describes.recoverLoop (s := { s with
    eventChannelHandlers := fun _ => none, headEvtchnHandler := none }) hl.next hl.nodup (by simp) d0 hr
  refine ⟨ys, ⟨r.describes, fun x hx => ?_, fun x hx => ?_⟩, r.status, fun hok => r.all fun x hx => ?_⟩
  · rw [r.status]
    exact ok.returned x ((r.sub x hx).resolve_left (by simp))
  · rw [r.count] at hx
    rw [r.status]
    exact ok.fresh x hx
  · obtain ⟨port, hp, hne⟩ := hok x (ok.describes.registered.mpr hx)
    exact ⟨port, hp, by simp, fun x' hx' => hne x' (ok.describes.registered.mpr hx')⟩

/-- Callers have only ports that are in both structures. -/
def Installed (s : Ports) (xs : List Nat) : Prop := ∀ h, s.status h = .returned → h ∈ xs

theorem ports_step {a : PortAct} (ok : PortsOk s xs) (ht : s.step a = some t) :
    ∃ ys, PortsOk t ys ∧ (PortStepOk s a → Installed s xs → Installed t ys) := by
  have hcreate : ∀ {cls : EvtchnClass} {xenPort : Int} {alloc : Bool} {answer : Option Nat},
      s.create cls xenPort alloc answer = t →
      ∃ ys, PortsOk t ys ∧ (PortStepOk s a → Installed s xs → Installed t ys) := by
    rintro cls xenPort alloc answer rfl
    obtain ⟨ok', hret⟩ := ok.create cls xenPort alloc answer
    exact ⟨xs, ok', fun _ hi h hh => hi h (hret h hh)⟩
  have hstop : ∀ {h : Nat} {close : Bool}, (s.status h).stoppable = true →
      (s.evtchnPortStop h).toOption.map (fun t => t.setStatus h (.stopping close)) = some t →
      ∃ ys, PortsOk t ys ∧ (PortStepOk s a → Installed s xs → Installed t ys) := by
    intro h close hs ht
    obtain ⟨u, hu, rfl⟩ := Option.map_eq_some_iff.mp ht
    obtain ⟨ok', hret⟩ := ok.stop close hs (toOption_ok hu)
    refine ⟨_, ok', fun _ hi x hx => ?_⟩
    obtain ⟨h1, h2⟩ := hret x hx
    exact List.mem_filter.mpr ⟨hi x h1, by simpa using h2⟩
  cases a with
  | registerHandler | bindVirq | allocUnboundDpc | connectRemotePort | allocUnbound =>
    exact hcreate (Option.some.inj ht)
  | created h =>
    obtain ⟨hs, ht⟩ := Option.ite_none_right_eq_some.mp ht
    obtain ⟨ys, ok', hold, hret, hnew⟩ := ok.created hs (toOption_ok ht)
    refine ⟨ys, ok', fun hok hi x hx => ?_⟩
    rcases hret x hx with hx | rfl
    · exact hold x (hi x hx)
    · exact hnew hok
  | stop h | close h =>
    obtain ⟨hs, ht⟩ := Option.ite_none_right_eq_some.mp ht
    exact hstop hs ht
  | stopDone h =>
    simp only [Ports.step] at ht
    split at ht
    · next close hs =>
      obtain rfl := Option.some.inj ht
      obtain ⟨ok', hret⟩ := ok.stopDone hs
      exact ⟨xs, ok', fun _ hi x hx => hi x (hret x hx)⟩
    · cases ht
  | recover answer =>
    obtain ⟨ys, ok', hst, hall⟩ := ok.recover (toOption_ok ht)
    refine ⟨ys, ok', fun hok hi x hx => hall hok x (hi x ?_)⟩
    rw [← hst]
    exact hx

theorem portsOk_init : PortsOk portsMachine.init [] :=
  ⟨describes_nil (fun _ => rfl) rfl, by simp, fun _ _ => rfl⟩

/-- In every run table and list have the same ports. In a run in which fixed ports get free numbers and
recoveries succeed for every port, they have every port that was returned and is not being stopped. -/
theorem handler_registration (s : Ports) :
    (Machine.Reach portsMachine Machine.Any s → ∃ xs, Describes s xs) ∧
      (Machine.Reach portsMachine PortStepOk s → ∃ xs, Describes s xs ∧ Installed s xs) := by
  constructor
  · intro hr
    obtain ⟨xs, ok⟩ := hr.inv (I := fun s => ∃ xs, PortsOk s xs) ⟨[], portsOk_init⟩
      fun s a t ⟨_, ok⟩ _ ht => (ports_step ok ht).imp fun _ h => h.1
    exact ⟨xs, ok.describes⟩
  · intro hr
    obtain ⟨xs, ok, hi⟩ := hr.inv (I := fun s => ∃ xs, PortsOk s xs ∧ Installed s xs)
      ⟨[], portsOk_init, fun h hh => by cases hh⟩
      fun s a t ⟨_, ok, hi⟩ hok ht => (ports_step ok ht).imp fun _ h => ⟨h.1, h.2 hok hi⟩
    exact ⟨xs, ok.describes, hi⟩

/-- A fixed port is registered. -/
theorem handler_registration_fixed :
    ∃ s xs, s.status 0 = .returned ∧ Describes s xs ∧ 0 ∈ xs := by
  have h1 : Machine.Reach portsMachine PortStepOk _ :=
    Machine.Reach.init.step (a := .registerHandler 3 true) trivial rfl
  have h2 : Machine.Reach portsMachine PortStepOk _ := h1.step (a := .created 0) (fun _ => rfl) rfl
  obtain ⟨xs, hd, hi⟩ := (handler_registration _).2 h2
  exact ⟨_, xs, rfl, hd, hi 0 rfl⟩

/-- Xen refuses the port after a resume: the caller keeps it, and it is in neither. -/
theorem handler_registration_lost :
    ¬ ∀ s, Machine.Reach portsMachine Machine.Any s → ∃ xs, Describes s xs ∧ Installed s xs := by
  intro hall
  obtain ⟨s, hr, hs⟩ := Machine.exists_reach portsMachine Machine.Any
    (fun s => decide (s.status 0 = .returned ∧ s.eventChannelHandlers (s.xenPort 0) = none))
    [.allocUnbound true (some 5), .created 0, .recover fun _ => none] (by decide)
  obtain ⟨h1, h2⟩ := of_decide_eq_true hs
  obtain ⟨xs, hd, hi⟩ := hall s hr
  have := (hd.entry 0 (hi 0 h1)).2.2
  rw [h2] at this
  cases this

end XcWindows.Evtchn
