import XcWindows.Lib.Machine
import XcWindows.Lib.Rotate
import XcWindows.Lib.Word

/-!
# The event-channel interrupt

`EvtchnHandleInterrupt` of `xenutil/evtchn.c`: as long as Xen has an upcall pending, the selector word
is taken, and from the port after `last_evtchn_serviced` on every pending port that is not masked is
serviced. Each word of the shared page is read once in a pass, so that `Page` has what is read,
whatever other processors and the handlers do to the page meanwhile. The position counts up on every
pass, also when the selector is empty, and is set to the port on every service; nothing brings it back
below the number of ports, and nothing compares a port with the size of the handler table.
-/

namespace XcWindows.Evtchn

open Lib

/-- The class of an `evtchn_port_handler` -/
inductive EvtchnClass where
  | interdomain
  | interdomainDpc
  | fixed
  | virq
  | alien
deriving DecidableEq

/-- `MAX_EVTCHN`, the size of `EventChannelHandlers` -/
abbrev maxEvtchn : Nat := 256

inductive Arch where
  | amd64
  | x86
deriving DecidableEq

/-- `EVTCHNS_PER_TOPLEVEL`: the bits of a word, and the words of each array of the shared page -/
def Arch.toplevel : Arch → Nat
  | .amd64 => 64
  | .x86 => 32

/-- What `FireHandler` or `EvtchnHandleInterrupt` does about a port. -/
inductive Service where
  | dpc
  /-- `EvtchnClearEvtchn` and the callback -/
  | callback
  /-- no handler: `EvtchnClearEvtchn` -/
  | clear
deriving DecidableEq

def fireHandler : Option EvtchnClass → Service
  | some .interdomainDpc | some .alien => .dpc
  | some .interdomain | some .fixed | some .virq => .callback
  | none => .clear

/-- Why a pass is stopped: an array is left, or a loop goes on for more than a turn. -/
inductive Fault where
  | selector (topSelector : Nat)
  | port (port : Nat)
  | running
deriving DecidableEq

/-- What a pass reads of the shared page. -/
structure Page (n : Nat) where
  evtchnPendingSel : BitVec n
  evtchnPending : Nat → BitVec n
  evtchnMask : Nat → BitVec n

/-- `last_evtchn_serviced`, and the ports that were serviced. -/
structure Scan where
  lastEvtchnServiced : Nat
  serviced : List (Nat × Service)
deriving DecidableEq

variable {n : Nat} (handlers : Nat → Option EvtchnClass) (page : Page n)

/-- The body of the loop over a word, for a bit that is set. -/
def service (port : Nat) (s : Scan) : Except Fault Scan :=
  if port < maxEvtchn then .ok ⟨port, s.serviced ++ [(port, fireHandler (handlers port))]⟩
  else .error (.port port)

def evtchnsPending (top : Nat) : BitVec n := page.evtchnPending top &&& ~~~page.evtchnMask top

/-- The body of the loop over the selector, for a bit that is set. -/
def serviceWord (top sub : Nat) (s : Scan) : Except Fault Scan :=
  if top < n then
    scan .running (fun b => service handlers (top * n + b)) n (evtchnsPending page top) sub s
  else .error (.selector top)

/-- `while (sel)` -/
def selectorLoop : Nat → BitVec n → Nat → Nat → Scan → Except Fault Scan
  | 0, sel, _, _, s => if sel = 0 then .ok s else .error .running
  | fuel + 1, sel, top, sub, s =>
    if sel = 0 then .ok s
    else if sel &&& bit n top ≠ 0 then
      serviceWord handlers page top sub s >>=
        selectorLoop fuel (sel &&& ~~~bit n top) ((top + 1) % n) 0
    else selectorLoop fuel sel ((top + 1) % n) 0 s

/-- One pass of the loop over `evtchn_upcall_pending`. -/
def pass (s : Scan) : Except Fault Scan :=
  let last := u32 (s.lastEvtchnServiced + 1)
  selectorLoop handlers page (n + 1) page.evtchnPendingSel (last / n) (last % n) ⟨last, s.serviced⟩

/-- `EvtchnHandleInterrupt`, which finds an upcall pending once for each page. -/
def evtchnHandleInterrupt (pages : List (Page n)) (last : Nat) : Except Fault (Scan × Bool) :=
  (pages.foldlM (fun s page => pass handlers page s) ⟨last, []⟩).map fun s =>
    (s, !s.serviced.isEmpty)

/-- Interrupts, and the position they leave. -/
def interruptMachine (n : Nat) : Machine Nat (List (Page n)) where
  init := 0
  step last pages :=
    match evtchnHandleInterrupt handlers pages last with
    | .ok (s, _) => some s.lastEvtchnServiced
    | .error _ => none

/-- The port is pending, not masked and under a selector bit that is set. -/
def Page.Due (port : Nat) : Prop :=
  page.evtchnPendingSel.getLsbD (port / n) = true ∧
    (page.evtchnPending (port / n)).getLsbD (port % n) = true ∧
    (page.evtchnMask (port / n)).getLsbD (port % n) = false

/-- A pass from the position `last` stops, leaves no array, and services the ports that are due, each
once. -/
def Dispatches (last : Nat) : Prop :=
  ∃ s, pass handlers page ⟨last, []⟩ = .ok s ∧ (s.serviced.map Prod.fst).Nodup ∧
    ∀ port, port ∈ s.serviced.map Prod.fst ↔ page.Due port

/-! ## The loops -/

variable {handlers} {page} {s : Scan}

theorem selectorLoop_zero (fuel : Nat) (sel : BitVec n) (top : Nat) (s : Scan) :
    selectorLoop handlers page fuel sel top 0 s =
      scan .running (fun top => serviceWord handlers page top 0) fuel sel top s := by
  induction fuel generalizing sel top s with
  | zero => rfl
  | succ fuel ih =>
    rw [selectorLoop, scan]
    split
    · rfl
    · split
      · congr 1
        funext s'
        exact ih _ _ _
      · exact ih _ _ _

theorem selectorLoop_eq {fuel top sub : Nat} (htop : top < n) (hf : n ≤ fuel) (sel : BitVec n) :
    selectorLoop handlers page fuel sel top sub s =
      (setBits sel top n).foldlM
        (fun s t => serviceWord handlers page t (if t = top then sub else 0) s) s := by
  obtain ⟨k, hk⟩ : ∃ k, n = k + 1 := ⟨n - 1, by omega⟩
  obtain ⟨fuel, rfl⟩ : ∃ f, fuel = f + 1 := ⟨fuel - 1, by omega⟩
  have hnext : (top + 1) % n < n := Nat.mod_lt _ (by omega)
  have hnot : top ∉ turn n ((top + 1) % n) k := (List.nodup_cons.mp (nodup_turn htop hk.ge)).1
  have hall : ∀ b, sel.getLsbD b = true → b ∈ turn n top (k + 1) := by
    intro b hb
    rw [← hk, mem_turn_self htop]
    exact BitVec.lt_of_getLsbD hb
  -- the words behind the first are scanned from bit 0
  have htail : ∀ (sel' : BitVec n) (s' : Scan),
      (∀ b, sel'.getLsbD b = true → b ∈ turn n ((top + 1) % n) k) →
      selectorLoop handlers page fuel sel' ((top + 1) % n) 0 s' =
        (setBits sel' ((top + 1) % n) k).foldlM
          (fun s t => serviceWord handlers page t (if t = top then sub else 0) s) s' := by
    intro sel' s' hsel
    rw [selectorLoop_zero, scan_turn hnext (by omega) (by omega) hsel]
    refine foldlM_congr (fun t ht s => ?_) s'
    have hne : t ≠ top := by
      rintro rfl
      exact hnot (List.mem_filter.mp ht).1
    rw [if_neg hne]
  have hset : setBits sel top n = setBits sel top (k + 1) := by rw [← hk]
  rw [selectorLoop, hset]
  by_cases hz : sel = 0
  · subst hz
    rw [if_pos rfl, setBits_zero]
    rfl
  rw [if_neg hz]
  by_cases hb : sel.getLsbD top = true
  · rw [if_pos ((and_bit_ne_zero htop).mpr hb), setBits_of_set htop hk.ge hb, List.foldlM_cons,
      if_pos rfl]
    congr 1
    funext s'
    refine htail _ s' fun b hb' => ?_
    rw [getLsbD_clear htop, Bool.and_eq_true, decide_eq_true_eq] at hb'
    exact (List.mem_cons.mp (hall b hb'.1)).resolve_left hb'.2
  · rw [if_neg (fun h => hb ((and_bit_ne_zero htop).mp h)), setBits_of_unset hb]
    refine htail _ s fun b hb' => ?_
    exact (List.mem_cons.mp (hall b hb')).resolve_left fun e => hb (e ▸ hb')

/-! ## The ports of a pass -/

/-- The ports of a word from a bit on. -/
def wordPorts (page : Page n) (top sub : Nat) : List Nat :=
  (setBits (evtchnsPending page top) sub n).map (top * n + ·)

/-- The ports of a pass from a word and a bit on, in the order in which they are serviced. -/
def ports (page : Page n) (top sub : Nat) : List Nat :=
  (setBits page.evtchnPendingSel top n).flatMap fun t => wordPorts page t (if t = top then sub else 0)

theorem serviceWord_eq {top sub : Nat} (htop : top < n) (hsub : sub < n) :
    serviceWord handlers page top sub s =
      (wordPorts page top sub).foldlM (fun s port => service handlers port s) s := by
  rw [serviceWord, if_pos htop, scan_eq hsub (Nat.le_refl n), wordPorts, List.foldlM_map]

theorem selectorLoop_ports {fuel top sub : Nat} (htop : top < n) (hsub : sub < n) (hf : n ≤ fuel) :
    selectorLoop handlers page fuel page.evtchnPendingSel top sub s =
      (ports page top sub).foldlM (fun s port => service handlers port s) s := by
  rw [selectorLoop_eq htop hf, ports, foldlM_flatMap]
  refine foldlM_congr (fun t ht s => ?_) s
  have hlt : t < n := BitVec.lt_of_getLsbD ((mem_setBits htop).mp ht)
  have hs : (if t = top then sub else 0) < n := by split <;> omega
  exact serviceWord_eq hlt hs

theorem port_div {top b : Nat} (hb : b < n) : (top * n + b) / n = top := by
  rw [Nat.mul_comm, Nat.mul_add_div (by omega), Nat.div_eq_of_lt hb, Nat.add_zero]

theorem mem_wordPorts {top sub port : Nat} (hsub : sub < n) :
    port ∈ wordPorts page top sub ↔
      port / n = top ∧ (evtchnsPending page top).getLsbD (port % n) = true := by
  unfold wordPorts
  rw [List.mem_map]
  constructor
  · rintro ⟨b, hb, rfl⟩
    rw [mem_setBits hsub] at hb
    have hlt := BitVec.lt_of_getLsbD hb
    rw [Nat.mul_add_mod_of_lt hlt]
    exact ⟨port_div hlt, hb⟩
  · rintro ⟨rfl, hb⟩
    exact ⟨port % n, (mem_setBits hsub).mpr hb, Nat.div_add_mod' port n⟩

theorem mem_ports {top sub port : Nat} (htop : top < n) (hsub : sub < n) :
    port ∈ ports page top sub ↔ page.Due port := by
  have hmod : port % n < n := Nat.mod_lt _ (by omega)
  have hword : ∀ t, port ∈ wordPorts page t (if t = top then sub else 0) ↔
      port / n = t ∧ (evtchnsPending page t).getLsbD (port % n) = true :=
    fun t => mem_wordPorts (by split <;> omega)
  simp only [ports, List.mem_flatMap, mem_setBits htop, hword, Page.Due]
  constructor
  · rintro ⟨t, hsel, rfl, hp⟩
    rw [evtchnsPending, BitVec.getLsbD_and, BitVec.getLsbD_not] at hp
    simpa [hsel, hmod] using hp
  · rintro ⟨hsel, hp, hm⟩
    refine ⟨port / n, hsel, rfl, ?_⟩
    rw [evtchnsPending, BitVec.getLsbD_and, BitVec.getLsbD_not, hp, hm]
    simpa using hmod

theorem nodup_ports {top sub : Nat} (htop : top < n) (hsub : sub < n) :
    (ports page top sub).Nodup := by
  have hlt : ∀ t, (if t = top then sub else 0) < n := fun t => by split <;> omega
  refine List.nodup_flatMap.mpr ⟨fun t _ => ?_, ?_⟩
  · exact (nodup_setBits (hlt t)).map fun b b' e => by simpa using e
  · refine (nodup_setBits htop).imp fun hne port h1 h2 => hne ?_
    rw [mem_wordPorts (hlt _)] at h1 h2
    exact h1.1.symm.trans h2.1

theorem serviceAll_ok (handlers : Nat → Option EvtchnClass) {l : List Nat}
    (h : ∀ port ∈ l, port < maxEvtchn) (s : Scan) :
    ∃ s', l.foldlM (fun s port => service handlers port s) s = .ok s' ∧
      s'.serviced.map Prod.fst = s.serviced.map Prod.fst ++ l := by
  induction l generalizing s with
  | nil => exact ⟨s, rfl, by simp⟩
  | cons port l ih =>
    rw [List.foldlM_cons, service, if_pos (h port List.mem_cons_self)]
    obtain ⟨s', h1, h2⟩ := ih (fun q hq => h q (.tail _ hq))
      ⟨port, s.serviced ++ [(port, fireHandler (handlers port))]⟩
    exact ⟨s', h1, by simpa using h2⟩

theorem lt_of_serviceAll {l : List Nat} {s s' : Scan}
    (h : l.foldlM (fun s port => service handlers port s) s = .ok s') :
    ∀ port ∈ l, port < maxEvtchn := by
  induction l generalizing s with
  | nil => simp
  | cons port l ih =>
    rw [List.foldlM_cons] at h
    obtain ⟨u, hu, h⟩ := bind_ok h
    unfold service at hu
    split at hu
    · next hlt =>
      intro q hq
      rcases List.mem_cons.mp hq with rfl | hq
      · exact hlt
      · exact ih h q hq
    · cases hu

/-! ## Passes -/

/-- The position is outside the selector, and the bit that is tested for it is set. -/
def Beyond (page : Page n) (last : Nat) : Prop :=
  n ≤ u32 (last + 1) / n ∧ page.evtchnPendingSel.getLsbD (u32 (last + 1) / n % n) = true

theorem pass_beyond {last : Nat} (h : Beyond page last) :
    pass handlers page ⟨last, []⟩ = .error (.selector (u32 (last + 1) / n)) := by
  obtain ⟨hle, hb⟩ := h
  have hlt := BitVec.lt_of_getLsbD hb
  have hz : page.evtchnPendingSel ≠ 0 := by
    intro e
    rw [e] at hb
    simp at hb
  simp only [pass, selectorLoop]
  rw [if_neg hz, if_pos (by rw [← bit_mod]; exact (and_bit_ne_zero hlt).mpr hb), serviceWord,
    if_neg (Nat.not_lt.mpr hle)]
  rfl

theorem pass_ports (handlers : Nat → Option EvtchnClass) {last : Nat} (hn : 0 < n) (h : ¬ Beyond page last) :
    ∃ top sub, top < n ∧ sub < n ∧
      pass handlers page ⟨last, []⟩ =
        (ports page top sub).foldlM (fun s port => service handlers port s) ⟨u32 (last + 1), []⟩ := by
  by_cases htop : u32 (last + 1) / n < n
  · exact ⟨_, _, htop, Nat.mod_lt _ hn, selectorLoop_ports htop (Nat.mod_lt _ hn) (by omega)⟩
  · have hmod : u32 (last + 1) / n % n < n := Nat.mod_lt _ hn
    have hnext : (u32 (last + 1) / n + 1) % n < n := Nat.mod_lt _ hn
    refine ⟨_, 0, hnext, hn, ?_⟩
    rw [← selectorLoop_ports hnext hn (Nat.le_refl n)]
    simp only [pass, selectorLoop]
    split
    · next hz =>
      rw [selectorLoop_eq hnext (Nat.le_refl n), hz, setBits_zero]
      rfl
    · rw [if_neg]
      rw [← bit_mod, and_bit_ne_zero hmod]
      exact fun hb => h ⟨Nat.not_lt.mp htop, hb⟩

/-- A pass stops, stays inside the arrays and services every port that is due, and nothing else, exactly
once, from every position, unless the position is outside the selector and meets a bit that is set,
or a port that is due is outside the handler table. -/
theorem evtchn_pass_iff (arch : Arch) (handlers : Nat → Option EvtchnClass)
    (page : Page arch.toplevel) (last : Nat) :
    Dispatches handlers page last ↔
      ¬ Beyond page last ∧ ∀ port, page.Due port → port < maxEvtchn := by
  have hn : 0 < arch.toplevel := by cases arch <;> decide
  constructor
  · rintro ⟨s, hs, -, -⟩
    have hin : ¬ Beyond page last := by
      intro hb
      rw [pass_beyond hb] at hs
      cases hs
    obtain ⟨top, sub, htop, hsub, e⟩ := pass_ports handlers hn hin
    rw [e] at hs
    exact ⟨hin, fun port hd => lt_of_serviceAll hs port ((mem_ports htop hsub).mpr hd)⟩
  · rintro ⟨hin, hlt⟩
    obtain ⟨top, sub, htop, hsub, e⟩ := pass_ports handlers hn hin
    obtain ⟨s, hs, hports⟩ := serviceAll_ok handlers
      (fun port hp => hlt port ((mem_ports htop hsub).mp hp)) ⟨u32 (last + 1), []⟩
    rw [List.map_nil, List.nil_append] at hports
    refine ⟨s, e.trans hs, ?_, fun port => ?_⟩
    · rw [hports]
      exact nodup_ports htop hsub
    · rw [hports]
      exact mem_ports htop hsub

/-! ## Spurious interrupts -/

/-- An upcall with an empty selector. -/
def spurious (n : Nat) : Page n := ⟨0, fun _ => 0, fun _ => 0⟩

theorem pass_spurious (s : Scan) :
    pass handlers (spurious n) s = .ok ⟨u32 (s.lastEvtchnServiced + 1), s.serviced⟩ := by
  simp [pass, selectorLoop, spurious]

theorem spurious_run (k : Nat) {last : Nat} (h : last + k < 4294967296) :
    (List.replicate k (spurious n)).foldlM (fun s page => pass handlers page s) ⟨last, []⟩ =
      .ok ⟨last + k, []⟩ := by
  induction k generalizing last with
  | zero => rfl
  | succ k ih =>
    have hu : u32 (last + 1) = last + 1 := Nat.mod_eq_of_lt (by omega)
    rw [List.replicate_succ, List.foldlM_cons, pass_spurious, hu]
    refine (ih (by omega)).trans ?_
    rw [Nat.add_right_comm, Nat.add_assoc]

theorem reach_spurious {last : Nat} (h : last < 4294967296) :
    Machine.Reach (interruptMachine (n := n) handlers) Machine.Any last := by
  have hrun : (interruptMachine (n := n) handlers).step 0 (List.replicate last (spurious n)) =
      some last := by
    simp only [interruptMachine, evtchnHandleInterrupt]
    rw [spurious_run last (by omega), Nat.zero_add]
    rfl
  exact Machine.Reach.init.step trivial hrun

/-- Port 0 is pending. -/
def port0 (n : Nat) : Page n := ⟨1, fun _ => 1, fun _ => 0⟩

/-- Spurious upcalls until the position is at the last port: the next event indexes the word behind
the shared arrays. -/
theorem evtchn_pass_beyond :
    ¬ ∀ (handlers : Nat → Option EvtchnClass) (last : Nat),
      Machine.Reach (interruptMachine (n := 64) handlers) Machine.Any last →
      ∀ page : Page 64, Dispatches handlers page last := by
  intro hall
  have hbad := hall (fun _ => none) 4095 (reach_spurious (by decide)) (port0 64)
  have hbeyond : Beyond (port0 64) 4095 := ⟨by decide, by decide⟩
  exact ((evtchn_pass_iff .amd64 _ _ _).mp hbad).1 hbeyond

end XcWindows.Evtchn
