import XcWindows.Lib.Prog
import XcWindows.Xenvbd.BouncePool

/-!
# The target of a PnP request

`XenvbdProcessPdoPnpIrp` in `xenvbd/xenvbd.c` with the requests it carries out. It searches
`XenvbdTargetInfo` for the target that has the device object. When no slot has it, `Target` is still what
was in the last slot, so the request counts as one for an unknown device object only if that slot is empty.
PnP requests arrive at `PASSIVE_LEVEL`, one at a time here.
-/

namespace XcWindows.Xenvbd.Pnp

open Lib Bounce
open Function (update update_of_ne update_self)

inductive IdType where
  | deviceId
  | hardwareIds
  | compatibleIds
  | instanceId
  | serialNumber
deriving DecidableEq

/-- `DEVICE_USAGE_NOTIFICATION_TYPE` -/
inductive Usage where
  | undefined
  | paging
  | hibernation
  | dumpFile
  | other (type : Nat)
deriving DecidableEq

/-- `MinorFunction` with its parameters; `other` are those that go straight to scsiport. -/
inductive Minor where
  | queryId (type : IdType)
  | queryCapabilities
  | startDevice
  | stopDevice
  | removeDevice
  | cancelRemoveDevice
  | eject
  | surpriseRemoval
  | deviceUsageNotification (type : Usage) (inPath : Bool)
  | other (code : Nat)
deriving DecidableEq

/-- The requests that look for their target. -/
def Minor.looksUp : Minor → Bool
  | .other _ => false
  | _ => true

structure Irp where
  deviceObject : Nat
  minor : Minor

/-- What PnP reads and writes of `XHBD_TARGET_INFO`. -/
structure Target where
  targetId : Nat
  targetPath : String
  xenbusNodeName : String
  removable : Bool
  started : Bool
  connected : Bool
  disappeared : Bool
  ejected : Bool
  surpriseRemoved : Bool
  paging : Bool
  hibernation : Bool
  dumpFile : Bool
  deviceObject : Option Nat
  references : UInt32
  ejectRequested : Bool
  ejectPending : Bool
  info : Nat

/-- What the driver sets of `DEVICE_CAPABILITIES`. -/
structure Capabilities where
  removable : Bool
  ejectSupported : Bool
  surpriseRemovalOK : Bool
  uniqueID : Bool

/-- What is done outside of the targets. -/
inductive Event where
  | dispatch (deviceObject : Nat)
  | queryInstanceId (deviceObject : Nat)
  | requestEject (deviceObject : Option Nat)
  | prepareBackend (target : Nat) (path : String)
  | connect (target : Nat) (path : String)
  | closeFrontend (target : Nat) (path : String)
  | disconnect (target : Nat) (path : String)
  | write (path value : String)
  | writeFlag (path flag : String) (value : Bool)
  /-- `XenvbdRequestInvalidate`, if there is a port to kick -/
  | invalidate
deriving DecidableEq

/-- What the rest of the system answers. -/
structure Answers where
  austereMode : Bool
  fdo : Option Nat
  deviceExtension : Bool
  /-- `ScsiportDispatchPnp`, an `NTSTATUS` -/
  dispatch : Int
  backendPath : Option String
  prepare : Int
  filter : Nat → Option (List Char)
  connect : Int
  backendInfo : Option Nat
  errorPath : Bool
  /-- the nodes `target-id` and `state` of the frontend -/
  frontendId : Option Nat
  frontendState : Bool
  kickPort : Bool
  instanceId : Option (List Nat)
  /-- `RtlUnicodeStringToInteger` to the base 16 -/
  toInteger : List Nat → Option Nat

inductive Crash where
  | fdo
  | deviceExtension
  | mapped
  | references
  | started
  | pending
  | notDisappeared
  | austereMode
deriving DecidableEq

structure State where
  info : Nat → Option Nat
  target : Nat → Target
  capabilities : Capabilities
  events : List Event
  /-- what the request returns -/
  status : Int
  /-- the target that the request is carried out on -/
  current : Option Nat

abbrev statusPending : Int := 0x103
abbrev vdiskRemovable : Nat := 2

/-- A failed assertion stops the system where it is. -/
def xmAssert (p : Prop) [Decidable p] (c : Crash) : Prog State Crash := fun s =>
  if p then .ok s else .error (c, s)

namespace State

def setTarget (s : State) (t : Nat) (T : Target) : State :=
  { s with target := update s.target t T }

@[simp] theorem setTarget_target (s : State) (t : Nat) (T : Target) : (s.setTarget t T).target t = T :=
  update_self ..

def emit (s : State) (e : Event) : State := { s with events := s.events ++ [e] }

def dispatchPnp (a : Answers) (d : Nat) (s : State) : State :=
  { s.emit (.dispatch d) with status := a.dispatch }

def requestInvalidate (a : Answers) (s : State) : State := if a.kickPort then s.emit .invalidate else s

end State

/-! ## The requests -/

section Requests
variable (a : Answers) (t d : Nat) (s : State)

def queryCapabilitiesPdo : State :=
  let T := s.target t
  let c := s.capabilities
  let c := if T.removable then { c with removable := true, ejectSupported := true } else c
  let c := if T.info &&& vdiskRemovable ≠ 0 then { c with surpriseRemovalOK := true } else c
  State.dispatchPnp a d { s with capabilities := { c with uniqueID := true } }

/-- `strncmp` with "present" up to the length of what was read. -/
def filterPresent (targetId : Nat) : Bool :=
  (a.filter targetId).any fun r => r.take 8 == ("present".toList ++ [Char.ofNat 0]).take r.length

/-- `fail1` of `StartPdo` -/
def startPdoFailed : Except (Crash × State) State := xmAssert (¬(s.target t).started) .started s

def startPdo : Except (Crash × State) State :=
  let s := s.dispatchPnp a d
  if a.dispatch < 0 then startPdoFailed t s
  else do
    let s ← xmAssert (a.dispatch ≠ statusPending) .pending s
    match a.backendPath with
    | none => startPdoFailed t s
    | some path =>
      let s ← xmAssert (¬(s.target t).started) .started s
      let s := s.emit (.prepareBackend t path)
      if a.prepare < 0 then startPdoFailed t s
      else
        let s := s.setTarget t { s.target t with started := true }
        if filterPresent a (s.target t).targetId then .ok s
        else
          let s := s.emit (.connect t path)
          if a.connect < 0 then startPdoFailed t (s.setTarget t { s.target t with started := false })
          else
            .ok (s.setTarget t { s.target t with
              connected := true
              info := a.backendInfo.getD (s.target t).info })

def stopPdo : State :=
  let s :=
    match a.backendPath with
    | none => s
    | some path =>
      if (s.target t).connected then
        ((s.emit (.closeFrontend t path)).emit (.disconnect t path)).setTarget t
          { s.target t with connected := false }
      else s
  (s.setTarget t { s.target t with started := false }).dispatchPnp a d

def cancelRemovePdo : State :=
  let s :=
    if (s.target t).ejectRequested then
      let s := s.setTarget t { s.target t with ejectRequested := false }
      if a.errorPath then
        s.emit (.write s!"error/{(s.target t).xenbusNodeName}/error" "Unplug failed due to open handle(s)!")
      else s
    else s
  s.dispatchPnp a d

/-- `XenbusEjectTarget`; its transaction is repeated until it is not refused. -/
def ejectTarget : State :=
  let s := s.setTarget t { s.target t with ejected := true }
  if a.frontendId = some (s.target t).targetId ∧ a.frontendState then
    s.emit (.writeFlag (s.target t).xenbusNodeName "ejected" true)
  else s

def ejectPdo : State := ((ejectTarget a t s).requestInvalidate a).dispatchPnp a d

def surpriseRemovalPdo : Except (Crash × State) State := do
  let s ← xmAssert (s.target t).disappeared .notDisappeared s
  let s := s.setTarget t { s.target t with surpriseRemoved := true }
  .ok ((s.requestInvalidate a).dispatchPnp a d)

def updateTargetUsage : Except (Crash × State) State := do
  let s ← xmAssert (¬a.austereMode) .austereMode s
  let T := s.target t
  .ok (((s.emit (.writeFlag T.targetPath "paging" T.paging)).emit
    (.writeFlag T.targetPath "hibernation" T.hibernation)).emit (.writeFlag T.targetPath "dump" T.dumpFile))

def deviceUsagePdo (type : Usage) (inPath : Bool) : Except (Crash × State) State := do
  let s ←
    match type with
    | .paging => updateTargetUsage a t (s.setTarget t { s.target t with paging := inPath })
    | .hibernation => updateTargetUsage a t (s.setTarget t { s.target t with hibernation := inPath })
    | .dumpFile => updateTargetUsage a t (s.setTarget t { s.target t with dumpFile := inPath })
    | .undefined | .other _ => .ok s
  .ok (s.dispatchPnp a d)

/-- The target id in an instance id: `btl`, or `bbttll` from Windows 2003 on. -/
def Answers.targetIdOf (id : List Nat) : Option Nat :=
  if id.length = 3 then a.toInteger ((id.drop 1).take 1)
  else if id.length = 6 then a.toInteger ((id.drop 2).take 2)
  else none

/-- The target that scsiport reports for a device object, which is not looked for among the slots. -/
def Answers.reported : Option Nat := (a.instanceId.bind a.targetIdOf).bind s.info

def mapDeviceObjectToTargetId : Except (Crash × State) State :=
  let s := s.emit (.queryInstanceId d)
  match a.reported s with
  | none => .ok s
  | some t => do
    let s ← xmAssert ((s.target t).deviceObject = none) .mapped s
    .ok (s.setTarget t { s.target t with deviceObject := some d })

/-- The check for a pending eject request. -/
def checkEject : State :=
  if (s.target t).ejectPending then
    (s.setTarget t { s.target t with ejectPending := false, ejectRequested := true }).emit
      (.requestEject (s.target t).deviceObject)
  else s

end Requests

def process (a : Answers) (t d : Nat) (s : State) : Minor → Except (Crash × State) State
  | .queryId _ => .ok (s.dispatchPnp a d)
  | .queryCapabilities => .ok (queryCapabilitiesPdo a t d s)
  | .startDevice => startPdo a t d s
  | .stopDevice => .ok (stopPdo a t d s)
  | .removeDevice => .ok (stopPdo a t d s)
  | .cancelRemoveDevice => .ok (cancelRemovePdo a t d s)
  | .eject => .ok (ejectPdo a t d s)
  | .surpriseRemoval => surpriseRemovalPdo a t d s
  | .deviceUsageNotification type inPath => deviceUsagePdo a t d s type inPath
  -- these do not get here
  | .other _ => .ok s

/-- The search; `last` is what `Target` was in the slot before. The flag says that it has the device
object. -/
def findTarget (s : State) (d : Nat) : List Nat → Option Nat → Option Nat × Bool
  | [], last => (last, false)
  | i :: rest, _ =>
    match s.info i with
    | none => findTarget s d rest none
    | some t => if (s.target t).deviceObject = some d then (some t, true) else findTarget s d rest (some t)

/-- The rest of `XenvbdProcessPdoPnpIrp`, with a target. -/
def carryOut (a : Answers) (irp : Irp) (t : Nat) (s : State) : Except (Crash × State) State := do
  let s := { s with current := some t }
  let s ← xmAssert ((s.target t).references ≠ 0) .references s
  let s ← process a t irp.deviceObject (checkEject t s) irp.minor
  .ok (s.setTarget t { s.target t with references := (s.target t).references - 1 })

/-- `XenvbdProcessPdoPnpIrp` after its assertions. -/
def processPdo (a : Answers) (irp : Irp) (s : State) : Except (Crash × State) State :=
  if irp.minor.looksUp = false then .ok (s.dispatchPnp a irp.deviceObject)
  else
    match findTarget s irp.deviceObject (List.range (maxDisks a.austereMode)) none with
    | (none, _) =>
      if irp.minor = .queryId .deviceId then do
        let s ← mapDeviceObjectToTargetId a irp.deviceObject s
        .ok (s.dispatchPnp a irp.deviceObject)
      else .ok (s.dispatchPnp a irp.deviceObject)
    | (some t, found) =>
      let T := s.target t
      carryOut a irp t (if found then s.setTarget t { T with references := T.references + 1 } else s)

def processPdoPnpIrp (a : Answers) (irp : Irp) (s : State) : Except (Crash × State) State := do
  let s := { s with current := none }
  let s ← xmAssert (some irp.deviceObject ≠ a.fdo) .fdo s
  let s ← xmAssert (a.deviceExtension = true) .deviceExtension s
  processPdo a irp s

/-- The state that a request leaves, if an assertion stops it too. -/
def after : Except (Crash × State) State → State
  | .ok s => s
  | .error (_, s) => s

/-! ## What a request leaves alone -/

/-- A request for target `t` changes neither the other targets nor what finds and holds it. -/
structure Touches (t : Nat) (s s' : State) : Prop where
  info : s'.info = s.info
  current : s'.current = s.current
  others : ∀ x, x ≠ t → s'.target x = s.target x
  deviceObject : (s'.target t).deviceObject = (s.target t).deviceObject
  references : (s'.target t).references = (s.target t).references

/-- The same if it can be stopped by an assertion. -/
abbrev Leaves (t : Nat) (s : State) : Except (Crash × State) State → Prop :=
  Prog.Post (Touches t s) fun _ => Touches t s

variable {a : Answers} {t d : Nat} {s s' s'' : State} {irp : Irp}

namespace Touches

theorem refl (t : Nat) (s : State) : Touches t s s := ⟨rfl, rfl, fun _ _ => rfl, rfl, rfl⟩

theorem trans (h : Touches t s s') (h' : Touches t s' s'') : Touches t s s'' :=
  ⟨h'.info.trans h.info, h'.current.trans h.current, fun x hx => (h'.others x hx).trans (h.others x hx),
    h'.deviceObject.trans h.deviceObject, h'.references.trans h.references⟩

theorem setTarget (h : Touches t s s') {T : Target}
    (hT : T.deviceObject = (s'.target t).deviceObject ∧ T.references = (s'.target t).references) :
    Touches t s (s'.setTarget t T) := by
  refine h.trans ⟨rfl, rfl, fun x hx => update_of_ne hx .., ?_, ?_⟩
  · rw [State.setTarget_target, hT.1]
  · rw [State.setTarget_target, hT.2]

theorem emit (h : Touches t s s') (e : Event) : Touches t s (s'.emit e) := ⟨h.1, h.2, h.3, h.4, h.5⟩

theorem dispatchPnp (h : Touches t s s') (a : Answers) (d : Nat) : Touches t s (s'.dispatchPnp a d) :=
  ⟨h.1, h.2, h.3, h.4, h.5⟩

theorem requestInvalidate (h : Touches t s s') (a : Answers) : Touches t s (s'.requestInvalidate a) := by
  unfold State.requestInvalidate
  split
  · exact h.emit _
  · exact h

theorem xmAssert (h : Touches t s s') (p : Prop) [Decidable p] (c : Crash) : Leaves t s (xmAssert p c s') := by
  unfold Pnp.xmAssert
  split <;> exact h

end Touches

theorem startPdoFailed_touches (h : Touches t s s') : Leaves t s (startPdoFailed t s') := h.xmAssert ..

theorem startPdo_touches : Leaves t s (startPdo a t d s) := by
  have hs := (Touches.refl t s).dispatchPnp a d
  unfold startPdo
  dsimp only
  split
  · exact startPdoFailed_touches hs
  · refine (hs.xmAssert ..).bind fun s1 h1 => ?_
    split
    · exact startPdoFailed_touches h1
    · refine (h1.xmAssert ..).bind fun s2 h2 => ?_
      have h3 := h2.emit (.prepareBackend t ‹String›)
      split
      · exact startPdoFailed_touches h3
      · split
        · exact h3.setTarget (by simp)
        · split
          · exact startPdoFailed_touches (.setTarget (.emit (.setTarget h3 (by simp)) _) (by simp))
          · exact Touches.setTarget (.emit (.setTarget h3 (by simp)) _) (by simp)

theorem stopPdo_touches : Touches t s (stopPdo a t d s) := by
  have hs := Touches.refl t s
  unfold stopPdo
  dsimp only
  refine .dispatchPnp (.setTarget ?_ (by simp)) a d
  split
  · exact hs
  · split
    · exact .setTarget (.emit (.emit hs _) _) (by exact ⟨rfl, rfl⟩)
    · exact hs

theorem cancelRemovePdo_touches : Touches t s (cancelRemovePdo a t d s) := by
  have hs := Touches.refl t s
  unfold cancelRemovePdo
  dsimp only
  refine .dispatchPnp ?_ a d
  split
  · split
    · exact .emit (.setTarget hs (by simp)) _
    · exact .setTarget hs (by simp)
  · exact hs

theorem ejectPdo_touches : Touches t s (ejectPdo a t d s) := by
  have hs := Touches.refl t s
  unfold ejectPdo ejectTarget
  refine .dispatchPnp (.requestInvalidate ?_ a) a d
  dsimp only
  split
  · exact .emit (.setTarget hs (by simp)) _
  · exact .setTarget hs (by simp)

theorem surpriseRemovalPdo_touches : Leaves t s (surpriseRemovalPdo a t d s) := by
  refine ((Touches.refl t s).xmAssert ..).bind fun s1 h1 => ?_
  exact Touches.dispatchPnp (.requestInvalidate (.setTarget h1 (by simp)) a) a d

theorem updateTargetUsage_touches (h : Touches t s s') : Leaves t s (updateTargetUsage a t s') :=
  (h.xmAssert ..).bind fun _ h => ((h.emit _).emit _).emit _

theorem deviceUsagePdo_touches {type : Usage} {inPath : Bool} :
    Leaves t s (deviceUsagePdo a t d s type inPath) := by
  have hs := Touches.refl t s
  have hdone : ∀ {T : Target}, T.deviceObject = (s.target t).deviceObject ∧
      T.references = (s.target t).references →
      Leaves t s (updateTargetUsage a t (s.setTarget t T) >>= fun s => .ok (s.dispatchPnp a d)) :=
    fun hT => (updateTargetUsage_touches (hs.setTarget hT)).bind fun _ h => h.dispatchPnp a d
  cases type with
  | paging => exact hdone ⟨rfl, rfl⟩
  | hibernation => exact hdone ⟨rfl, rfl⟩
  | dumpFile => exact hdone ⟨rfl, rfl⟩
  | undefined => exact hs.dispatchPnp a d
  | other _ => exact hs.dispatchPnp a d

theorem checkEject_touches : Touches t s (checkEject t s) := by
  unfold checkEject
  split
  · exact .emit (.setTarget (.refl t s) (by simp)) _
  · exact .refl t s

theorem process_touches (m : Minor) : Leaves t s (process a t d s m) := by
  have hs := Touches.refl t s
  cases m with
  | queryId _ => exact hs.dispatchPnp a d
  | queryCapabilities => exact ⟨rfl, rfl, fun _ _ => rfl, rfl, rfl⟩
  | startDevice => exact startPdo_touches
  | stopDevice => exact stopPdo_touches
  | removeDevice => exact stopPdo_touches
  | cancelRemoveDevice => exact cancelRemovePdo_touches
  | eject => exact ejectPdo_touches
  | surpriseRemoval => exact surpriseRemovalPdo_touches
  | deviceUsageNotification type inPath => exact deviceUsagePdo_touches
  | other _ => exact hs

/-! ## The search -/

/-- The first target in `XenvbdTargetInfo` with the device object. -/
def State.FirstWith (s : State) (austereMode : Bool) (d t : Nat) : Prop :=
  ∃ i < maxDisks austereMode, s.info i = some t ∧ (s.target t).deviceObject = some d ∧
    ∀ j < i, ∀ u, s.info j = some u → (s.target u).deviceObject ≠ some d

theorem State.FirstWith.unique {austereMode : Bool} {u : Nat} (h : s.FirstWith austereMode d t)
    (h' : s.FirstWith austereMode d u) : t = u := by
  obtain ⟨i, -, hi, hd, hmin⟩ := h
  obtain ⟨j, -, hj, hd', hmin'⟩ := h'
  rcases Nat.lt_trichotomy i j with hlt | rfl | hlt
  · exact absurd hd (hmin' i hlt t hi)
  · exact Option.some.inj (hi.symm.trans hj)
  · exact absurd hd' (hmin j hlt u hj)

theorem findTarget_range' (s : State) (d m k : Nat) (last : Option Nat) :
    (∃ i t, k ≤ i ∧ i < k + m ∧ s.info i = some t ∧ (s.target t).deviceObject = some d ∧
        (∀ j, k ≤ j → j < i → ∀ u, s.info j = some u → (s.target u).deviceObject ≠ some d) ∧
        findTarget s d (List.range' k m) last = (some t, true)) ∨
      (∀ i, k ≤ i → i < k + m → ∀ u, s.info i = some u → (s.target u).deviceObject ≠ some d) ∧
        findTarget s d (List.range' k m) last = (if m = 0 then last else s.info (k + m - 1), false) := by
  induction m generalizing k last with
  | zero => exact .inr ⟨fun i h1 h2 => absurd h2 (by omega), rfl⟩
  | succ m ih =>
    rw [List.range'_succ]
    -- what slot `k` leaves to the others, when it does not have the device object
    have hskip : (∀ u, s.info k = some u → (s.target u).deviceObject ≠ some d) →
        findTarget s d (k :: List.range' (k + 1) m) last = findTarget s d (List.range' (k + 1) m) (s.info k) := by
      intro h
      rw [findTarget]
      cases hk : s.info k with
      | none => rfl
      | some u => exact if_neg (h u hk)
    by_cases hk : ∃ u, s.info k = some u ∧ (s.target u).deviceObject = some d
    · obtain ⟨u, hu, hd⟩ := hk
      refine .inl ⟨k, u, Nat.le_refl k, by omega, hu, hd, fun j h1 h2 => absurd h2 (by omega), ?_⟩
      rw [findTarget, hu]
      exact if_pos hd
    · have hk' : ∀ u, s.info k = some u → (s.target u).deviceObject ≠ some d :=
        fun u hu hd => hk ⟨u, hu, hd⟩
      rw [hskip hk']
      rcases ih (k + 1) (s.info k) with ⟨i, t, h1, h2, hi, hd, hmin, he⟩ | ⟨hall, he⟩
      · refine .inl ⟨i, t, by omega, by omega, hi, hd, fun j hj hlt u hu => ?_, he⟩
        rcases Nat.eq_or_lt_of_le hj with rfl | hj
        · exact hk' u hu
        · exact hmin j hj hlt u hu
      · refine .inr ⟨fun i h1 h2 u hu => ?_, he.trans ?_⟩
        · rcases Nat.eq_or_lt_of_le h1 with rfl | h1
          · exact hk' u hu
          · exact hall i h1 (by omega) u hu
        · rw [if_neg (Nat.succ_ne_zero m)]
          split
          · next hm => rw [hm]; rfl
          · rw [show k + 1 + m - 1 = k + (m + 1) - 1 by omega]

theorem findTarget_slots (s : State) (austereMode : Bool) (d : Nat) :
    (∃ t, s.FirstWith austereMode d t ∧
        findTarget s d (List.range (maxDisks austereMode)) none = (some t, true)) ∨
      (∀ t, ¬ s.FirstWith austereMode d t) ∧
        findTarget s d (List.range (maxDisks austereMode)) none =
          (s.info (maxDisks austereMode - 1), false) := by
  have hpos : maxDisks austereMode ≠ 0 := by cases austereMode <;> decide
  rw [List.range_eq_range']
  rcases findTarget_range' s d (maxDisks austereMode) 0 none with ⟨i, t, -, h2, hi, hd, hmin, he⟩ | ⟨hall, he⟩
  · exact .inl ⟨t, ⟨i, by omega, hi, hd, fun j => hmin j (Nat.zero_le j)⟩, he⟩
  · refine .inr ⟨?_, ?_⟩
    · rintro t ⟨i, hlt, hi, hd, -⟩
      exact hall i (Nat.zero_le i) (by omega) t hi hd
    · rw [he, if_neg hpos, Nat.zero_add]

/-! ## What a request does -/

theorem carryOut_post (a : Answers) (irp : Irp) (t : Nat) (s : State) :
    Prog.Post
      (fun s' => s'.current = some t ∧ (∀ x, x ≠ t → s'.target x = s.target x) ∧
        (s'.target t).references = (s.target t).references - 1)
      (fun _ => Touches t { s with current := some t }) (carryOut a irp t s) := by
  refine ((Touches.refl t { s with current := some t }).xmAssert ..).bind fun s1 h1 => ?_
  have h2 := h1.trans checkEject_touches
  have h3 : Leaves t { s with current := some t } (process a t irp.deviceObject (checkEject t s1) irp.minor) :=
    (process_touches irp.minor).mono (fun _ => h2.trans) fun _ _ => h2.trans
  refine h3.bind fun s2 h => ⟨h.current, fun x hx => ?_, ?_⟩
  · exact (update_of_ne hx ..).trans (h.others x hx)
  · rw [State.setTarget_target]
    exact congrArg (· - 1) h.references

theorem carryOut_spec (a : Answers) (irp : Irp) (t : Nat) (s : State) :
    (after (carryOut a irp t s)).current = some t ∧
      (∀ x, x ≠ t → (after (carryOut a irp t s)).target x = s.target x) ∧
      ∀ s', carryOut a irp t s = .ok s' → (s'.target t).references = (s.target t).references - 1 := by
  have h := carryOut_post a irp t s
  cases hr : carryOut a irp t s with
  | error e =>
    rw [hr] at h
    exact ⟨h.current, h.others, nofun⟩
  | ok s' =>
    rw [hr] at h
    refine ⟨h.1, h.2.1, ?_⟩
    rintro _ ⟨⟩
    exact h.2.2

/-- The target that a request for the device id makes the one of the device object. -/
def Irp.Maps (irp : Irp) (a : Answers) (s : State) (t : Nat) : Prop :=
  irp.minor = .queryId .deviceId ∧ a.reported s = some t ∧ (s.target t).deviceObject = none

instance (irp : Irp) (a : Answers) (s : State) (t : Nat) : Decidable (irp.Maps a s t) :=
  inferInstanceAs (Decidable (_ ∧ _))

theorem mapDeviceObjectToTargetId_spec (a : Answers) (irp : Irp) (s : State)
    (hm : irp.minor = .queryId .deviceId) :
    (after (mapDeviceObjectToTargetId a irp.deviceObject s)).current = s.current ∧
      ∀ x, (after (mapDeviceObjectToTargetId a irp.deviceObject s)).target x =
        if irp.Maps a s x then { s.target x with deviceObject := some irp.deviceObject } else s.target x := by
  unfold mapDeviceObjectToTargetId
  dsimp only
  have hrep : a.reported (s.emit (.queryInstanceId irp.deviceObject)) = a.reported s := rfl
  rw [hrep]
  cases hr : a.reported s with
  | none =>
    refine ⟨rfl, fun x => ?_⟩
    rw [if_neg]
    · rfl
    · intro h
      cases hr.symm.trans h.2.1
  | some t =>
    by_cases hd : (s.target t).deviceObject = none
    · have he : xmAssert (((s.emit (.queryInstanceId irp.deviceObject)).target t).deviceObject = none) .mapped
          (s.emit (.queryInstanceId irp.deviceObject)) = .ok (s.emit (.queryInstanceId irp.deviceObject)) :=
        if_pos hd
      simp only [he]
      refine ⟨rfl, fun x => ?_⟩
      show update s.target t _ x = _
      by_cases hx : x = t
      · rw [hx, update_self, if_pos ⟨hm, hr, hd⟩]
        rfl
      · rw [update_of_ne hx, if_neg]
        exact fun h => hx (Option.some.inj (h.2.1.symm.trans hr))
    · have he : xmAssert (((s.emit (.queryInstanceId irp.deviceObject)).target t).deviceObject = none) .mapped
          (s.emit (.queryInstanceId irp.deviceObject)) =
          .error (.mapped, s.emit (.queryInstanceId irp.deviceObject)) := if_neg hd
      simp only [he]
      refine ⟨rfl, fun x => ?_⟩
      rw [if_neg]
      · rfl
      · intro h
        obtain rfl : x = t := Option.some.inj (h.2.1.symm.trans hr)
        exact hd h.2.2

theorem processPdoPnpIrp_eq (hf : some irp.deviceObject ≠ a.fdo) (he : a.deviceExtension = true) :
    processPdoPnpIrp a irp s = processPdo a irp { s with current := none } := by
  simp only [processPdoPnpIrp, xmAssert, if_pos hf, if_pos he]
  rfl

section ProcessPdo
variable (hs : s.current = none)
include hs

theorem processPdo_other (a : Answers) (hm : irp.minor.looksUp = false) :
    (after (processPdo a irp s)).current = none ∧ (after (processPdo a irp s)).target = s.target := by
  rw [processPdo, if_pos hm]
  exact ⟨hs, rfl⟩

theorem processPdo_unknown (hm : irp.minor.looksUp = true)
    (ht : findTarget s irp.deviceObject (List.range (maxDisks a.austereMode)) none = (none, false)) :
    (after (processPdo a irp s)).current = none ∧ ∀ x,
      (after (processPdo a irp s)).target x =
        if irp.Maps a s x then { s.target x with deviceObject := some irp.deviceObject } else s.target x := by
  rw [processPdo, if_neg (by simp [hm]), ht]
  dsimp only
  split
  · next hq =>
    obtain ⟨hc, hT⟩ := mapDeviceObjectToTargetId_spec a irp s hq
    cases hr : mapDeviceObjectToTargetId a irp.deviceObject s with
    | error e =>
      rw [hr] at hc hT
      exact ⟨hc.trans hs, hT⟩
    | ok s' =>
      rw [hr] at hc hT
      exact ⟨hc.trans hs, hT⟩
  · next hq =>
    refine ⟨hs, fun x => ?_⟩
    rw [if_neg fun h => hq h.1]
    rfl

end ProcessPdo

/-- What is right about a request: it is carried out on the first target with its device object, and it
leaves the others alone. -/
structure LookupOk (a : Answers) (irp : Irp) (s : State) : Prop where
  acts : ∀ t, (after (processPdoPnpIrp a irp s)).current = some t ↔
    irp.minor.looksUp = true ∧ s.FirstWith a.austereMode irp.deviceObject t
  others : ∀ t, (after (processPdoPnpIrp a irp s)).current = some t → ∀ x, x ≠ t →
    (after (processPdoPnpIrp a irp s)).target x = s.target x
  unknown : (after (processPdoPnpIrp a irp s)).current = none → ∀ x,
    (after (processPdoPnpIrp a irp s)).target x =
      if irp.Maps a s x then { s.target x with deviceObject := some irp.deviceObject } else s.target x
  references : ∀ s', processPdoPnpIrp a irp s = .ok s' → ∀ x, (s'.target x).references = (s.target x).references

theorem LookupOk.of_unknown (hf : some irp.deviceObject ≠ a.fdo) (he : a.deviceExtension = true)
    (hno : irp.minor.looksUp = true → ∀ t, ¬ s.FirstWith a.austereMode irp.deviceObject t)
    (hc : (after (processPdo a irp { s with current := none })).current = none)
    (hT : ∀ x, (after (processPdo a irp { s with current := none })).target x =
      if irp.Maps a s x then { s.target x with deviceObject := some irp.deviceObject } else s.target x) :
    LookupOk a irp s := by
  rw [← processPdoPnpIrp_eq hf he] at hc hT
  refine ⟨fun t => ?_, fun t ht => ?_, fun _ => hT, fun s' hr x => ?_⟩
  · rw [hc]
    exact ⟨nofun, fun h => (hno h.1 t h.2).elim⟩
  · rw [hc] at ht
    cases ht
  · have := hT x
    rw [hr] at this
    rw [show s'.target x = _ from this]
    split <;> rfl

/-- A PnP request is carried out on the first target with its device object and on no other, given that
there is one or that the last slot is empty. -/
theorem pnp_lookup (a : Answers) (irp : Irp) (s : State) (hf : some irp.deviceObject ≠ a.fdo)
    (he : a.deviceExtension = true)
    (hslot : irp.minor.looksUp = true → (∃ t, s.FirstWith a.austereMode irp.deviceObject t) ∨
      s.info (maxDisks a.austereMode - 1) = none) : LookupOk a irp s := by
  by_cases hm : irp.minor.looksUp = true
  · rcases findTarget_slots { s with current := none } a.austereMode irp.deviceObject with
      ⟨t, hfirst, hfind⟩ | ⟨hno, hfind⟩
    · have heq : processPdoPnpIrp a irp s = carryOut a irp t (State.setTarget { s with current := none } t
          { s.target t with references := (s.target t).references + 1 }) := by
        rw [processPdoPnpIrp_eq hf he, processPdo, if_neg (by simp [hm]), hfind]
        rfl
      obtain ⟨hc, ho, hr⟩ := carryOut_spec a irp t (State.setTarget { s with current := none } t
        { s.target t with references := (s.target t).references + 1 })
      rw [← heq] at hc ho hr
      have hother : ∀ x, x ≠ t → (after (processPdoPnpIrp a irp s)).target x = s.target x :=
        fun x hx => (ho x hx).trans (update_of_ne hx ..)
      refine ⟨fun u => ?_, fun u hu => ?_, fun hn => ?_, fun s' hs' x => ?_⟩
      · rw [hc]
        exact ⟨fun e => ⟨hm, Option.some.inj e ▸ hfirst⟩, fun h => congrArg some (hfirst.unique h.2)⟩
      · obtain rfl : t = u := Option.some.inj (hc.symm.trans hu)
        exact hother
      · rw [hc] at hn
        cases hn
      · by_cases hx : x = t
        · have h1 := hr s' hs'
          rw [State.setTarget_target] at h1
          rw [hx, h1]
          exact UInt32.add_sub_cancel ..
        · have h1 := hother x hx
          rw [hs'] at h1
          exact congrArg Target.references h1
    · have hlast : s.info (maxDisks a.austereMode - 1) = none :=
        (hslot hm).resolve_left fun ⟨t, ht⟩ => hno t ht
      have hlast' : State.info { s with current := none } (maxDisks a.austereMode - 1) = none := hlast
      rw [hlast'] at hfind
      obtain ⟨hc, hT⟩ := processPdo_unknown rfl hm hfind
      exact .of_unknown hf he (fun _ => hno) hc hT
  · rw [Bool.not_eq_true] at hm
    have hs : State.current { s with current := none } = none := rfl
    obtain ⟨hc, hT⟩ := processPdo_other hs a hm
    refine .of_unknown hf he (fun h => by rw [hm] at h; cases h) hc fun x => ?_
    rw [hT, if_neg]
    intro h
    rw [h.1] at hm
    cases hm

/-- A disk that PnP does not know yet. -/
def freshTarget : Target :=
  ⟨0, "data/scsi/target/0", "device/vbd/768", false, false, false, false, false, false, false, false, false,
    none, 0, false, false, 0⟩

def freshState : State :=
  ⟨fun i => if i = 0 then some 0 else none, fun _ => freshTarget, ⟨false, false, false, false⟩, [], 0, none⟩

/-- Scsiport reports target 0. -/
def freshAnswers : Answers :=
  ⟨false, some 1, true, 0, some "backend", 0, fun _ => none, 0, none, true, some 0, true, true,
    some [48, 48, 48], fun _ => some 0⟩

/-- The first request for the device maps it. -/
theorem pnp_lookup_fresh :
    (after (processPdoPnpIrp freshAnswers ⟨7, .queryId .deviceId⟩ freshState)).target 0 =
      { freshTarget with deviceObject := some 7 } := by
  have h := pnp_lookup freshAnswers ⟨7, .queryId .deviceId⟩ freshState (by decide) rfl fun _ => .inr rfl
  rw [h.unknown rfl, if_pos ⟨rfl, rfl, rfl⟩]
  rfl

/-- The same without the requests that are passed on and without the mapping: a request for an unknown device
object would change no target. -/
structure LookupAlone (a : Answers) (irp : Irp) (s : State) : Prop where
  acts : ∀ t, (after (processPdoPnpIrp a irp s)).current = some t ↔
    ∃ i < maxDisks a.austereMode, s.info i = some t ∧ (s.target t).deviceObject = some irp.deviceObject
  unknown : (∀ i < maxDisks a.austereMode, ∀ t, s.info i = some t →
    (s.target t).deviceObject ≠ some irp.deviceObject) → (after (processPdoPnpIrp a irp s)).target = s.target

theorem pnp_lookup_maps : ¬ ∀ a irp s, some irp.deviceObject ≠ a.fdo → a.deviceExtension = true →
    LookupAlone a irp s := by
  intro hall
  have h := (hall freshAnswers ⟨7, .queryId .deviceId⟩ freshState (by decide) rfl).unknown fun _ _ _ _ => nofun
  have h0 : some 7 = (none : Option Nat) := congrArg Target.deviceObject (congrFun h 0)
  cases h0

end XcWindows.Xenvbd.Pnp
