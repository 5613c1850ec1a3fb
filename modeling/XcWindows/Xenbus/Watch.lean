import Mathlib.Algebra.GroupWithZero.Nat
import XcWindows.Lib.Machine

/-!
# XenStore watches

The watches of `xenutil/xenbus.c`: `__xenbus_watch_path`, `fire_watch_by_ident`, `trigger_watch`, the
watch thread, `xenbus_redirect_watch`, `xenbus_unregister_watch`, and what takes references besides,
`reregister_all_watches` and `xenbus_recover_from_s3`. What is done under the watch lock is one step;
a request to xenstored, its answer free, lies between two steps. A handler is named by the order of
its allocation, as xenstored names it by its token, so that a client's `xenbus_trigger_watch` of a
watch it has not unregistered is an event of the ring too. The watch thread is never told to exit:
that happens only when the product string is missing at start-up.
-/

namespace XcWindows.Xenbus.Watch

open Lib

/-- How far `__xenbus_watch_path` and `xenbus_unregister_watch` are with a handler. -/
inductive Phase where
  | unused
  | creating
  | live
  | unlinking
  | check
  | waiting
  | checked
  | returned
deriving DecidableEq

structure Handler where
  path : String
  /-- the callback is `set_event_handler` -/
  event : Bool
  faulty : Bool
  needsS3Recover : Bool
  currentlyRegistered : Bool
  refcount : Int
  safeToRelease : Bool
  queued : Bool
  phase : Phase
  starts : Nat
deriving DecidableEq

inductive ThreadPc where
  | wait
  | woken
  | drain
  | dequeued (h : Nat)
  | running (h : Nat)
  | finished (h : Nat)
deriving DecidableEq

inductive Call where
  | done
  /-- `reregister_all_watches`, about to scan the list -/
  | reregister
  | registering (h : Nat)
  | faulty (h : Nat)
  | put (h : Nat)
  | unwatching (h : Nat)
  /-- `xenbus_redirect_watch` waits for `register_watch_handler` -/
  | redirect (h : Nat) (oldPath : String) (oldRegistered : Bool)
deriving DecidableEq

structure Bus where
  handler : Nat → Handler
  count : Nat
  list : List Nat
  pending : List Nat
  event : Bool
  thread : ThreadPc
  calls : List Call
  resumed : Bool

inductive Act where
  | watchPath (path : String) (event : Bool)
  | registered (h : Nat) (ok : Bool)
  | fire (h : Nat)
  | thread
  | redirect (h : Nat) (path : String)
  | unregister (h : Nat)
  | unregistering (h : Nat)
  | resumeEarly
  | resumeLate
  | recoverFromS3
  | call (k : Call) (ok : Bool)
deriving DecidableEq

namespace Bus

variable (s : Bus)

def set (h : Nat) (x : Handler) : Bus := { s with handler := Function.update s.handler h x }

def setPhase (h : Nat) (phase : Phase) : Bus := s.set h { s.handler h with phase }

def goto (k k' : Call) : Bus := { s with calls := k' :: s.calls.erase k }

def getHandler (h : Nat) : Bus :=
  s.set h { s.handler h with
    refcount := (s.handler h).refcount + 1
    safeToRelease := if (s.handler h).refcount + 1 = 1 then false else (s.handler h).safeToRelease }

def putHandler (h : Nat) : Bus :=
  s.set h { s.handler h with
    refcount := (s.handler h).refcount - 1
    safeToRelease := if (s.handler h).refcount - 1 = 0 then true else (s.handler h).safeToRelease }

/-- `trigger_watch`; for an event watch this is where the callback is run. -/
def trigger (h : Nat) : Bus :=
  if (s.handler h).queued then s
  else if (s.handler h).event then
    s.set h { s.handler h with starts := (s.handler h).starts + 1 }
  else
    { (s.set h { s.handler h with queued := true }).getHandler h with
      pending := s.pending ++ [h], event := true }

def unregisteredHandler : Option Nat :=
  s.list.find? fun h => !(s.handler h).currentlyRegistered && !(s.handler h).faulty

def recoverableHandler : Option Nat :=
  s.list.find? fun h => (s.handler h).needsS3Recover && !(s.handler h).faulty

/-- `retry:` in `xenbus_recover_from_s3`: the state and how the call goes on. -/
def recover : Bus × Call :=
  match s.recoverableHandler with
  | some h =>
    ((s.getHandler h).set h { (s.getHandler h).handler h with needsS3Recover := false },
      .unwatching h)
  | none => (s, .reregister)

def threadStep : Option Bus :=
  match s.thread with
  | .wait => if s.event then some { s with thread := .woken } else none
  | .woken => some { s with event := false, thread := .drain }
  | .drain =>
    match s.pending with
    | [] => some { s with thread := .wait }
    | h :: hs =>
      some { s.set h { s.handler h with queued := false } with pending := hs, thread := .dequeued h }
  | .dequeued h =>
    some { s.set h { s.handler h with starts := (s.handler h).starts + 1 } with
      thread := .running h }
  | .running h => some { s with thread := .finished h }
  | .finished h => some { s.putHandler h with thread := .drain }

def unregisterStep (h : Nat) : Option Bus :=
  match (s.handler h).phase with
  | .unlinking =>
    some
      { ((if (s.handler h).queued then { s.putHandler h with pending := s.pending.erase h }
          else s).setPhase h .check) with
        list := s.list.erase h }
  | .check => some (s.setPhase h (if (s.handler h).refcount = 0 then .checked else .waiting))
  | .waiting => if (s.handler h).safeToRelease then some (s.setPhase h .check) else none
  | .checked => some (s.setPhase h .returned)
  | .unused | .creating | .live | .returned => none

def callStep (ok : Bool) : Call → Option Bus
  | .done => none
  | .reregister =>
    match s.unregisteredHandler with
    | some h => some ((s.getHandler h).goto .reregister (.registering h))
    | none => some (s.goto .reregister .done)
  | .registering h =>
    if ok then
      some ((s.set h { s.handler h with currentlyRegistered := true }).goto (.registering h) (.put h))
    else some ((s.set h { s.handler h with faulty := true }).goto (.registering h) (.faulty h))
  | .faulty h => some ((s.trigger h).goto (.faulty h) (.put h))
  | .put h => some ((s.putHandler h).goto (.put h) .reregister)
  | .unwatching h =>
    let u := (s.set h { s.handler h with currentlyRegistered := false }).putHandler h
    some (u.recover.1.goto (.unwatching h) u.recover.2)
  | k@(.redirect h oldPath oldRegistered) =>
    if ok then some (s.goto k .done)
    else
      some
        ((s.set h { s.handler h with path := oldPath, currentlyRegistered := oldRegistered }).goto k
          (if oldRegistered then .done else .reregister))

def step : Act → Option Bus
  | .watchPath path event =>
    some { s.set s.count ⟨path, event, false, false, true, 0, false, false, .creating, 0⟩ with
      count := s.count + 1, list := s.count :: s.list }
  | .registered h ok =>
    if (s.handler h).phase = .creating then
      if ok then some (s.setPhase h .live)
      else some (s.set h { s.handler h with currentlyRegistered := false, phase := .unlinking })
    else none
  | .fire h => some (if h ∈ s.list then s.trigger h else s)
  | .thread => s.threadStep
  | .redirect h path =>
    if (s.handler h).phase = .live then
      if (s.handler h).path = path then some s
      else
        some { s.set h { s.handler h with path, currentlyRegistered := true } with
          calls := .redirect h (s.handler h).path (s.handler h).currentlyRegistered :: s.calls }
    else none
  | .unregister h => if (s.handler h).phase = .live then some (s.setPhase h .unlinking) else none
  | .unregistering h => s.unregisterStep h
  | .resumeEarly =>
    some { s with
      handler := fun h =>
        if h ∈ s.list then { s.handler h with currentlyRegistered := false } else s.handler h
      resumed := true }
  | .resumeLate => some { s with calls := .reregister :: s.calls, resumed := true }
  | .recoverFromS3 =>
    let u := { s with
      handler := fun h =>
        if h ∈ s.list then { s.handler h with needsS3Recover := true } else s.handler h
      resumed := true }
    some { u.recover.1 with calls := u.recover.2 :: s.calls }
  | .call k ok => if k ∈ s.calls then s.callStep ok k else none

end Bus

/-- No watch yet; the watch thread waits. -/
def watchMachine : Machine Bus Act where
  init :=
    ⟨fun _ => ⟨"", false, false, false, false, 0, false, false, .unused, 0⟩, 0, [], [], false, .wait,
      [], false⟩
  step := Bus.step

/-! ## References -/

/-- The reference of the watch thread, from the dequeuing to the put. -/
def ThreadPc.holds (h : Nat) : ThreadPc → Nat
  | .dequeued h' | .running h' | .finished h' => if h' = h then 1 else 0
  | .wait | .woken | .drain => 0

def Call.holds (h : Nat) : Call → Nat
  | .registering h' | .faulty h' | .put h' | .unwatching h' => if h' = h then 1 else 0
  | .done | .reregister | .redirect _ _ _ => 0

namespace Bus

variable (s : Bus)

def passes (h : Nat) : Nat := (s.calls.map (Call.holds h)).sum

/-- Queued, running, and in the hands of a pass. -/
def refs (h : Nat) : Nat :=
  (if h ∈ s.pending then 1 else 0) + s.thread.holds h + s.passes h

def active (h : Nat) : Bool :=
  (s.handler h).phase = .creating || (s.handler h).phase = .live

/-- Steps of the watch thread until it starts the callback of a queued handler. -/
def rank (h : Nat) : Nat :=
  match s.thread with
  | .wait => 4 * s.pending.idxOf h + 4
  | .woken => 4 * s.pending.idxOf h + 3
  | .drain => 4 * s.pending.idxOf h + 2
  | .dequeued h' => if h' = h then 1 else 4 * s.pending.idxOf h + 5
  | .running _ => 4 * s.pending.idxOf h + 4
  | .finished _ => 4 * s.pending.idxOf h + 3

end Bus

end XcWindows.Xenbus.Watch
