import Mathlib.Algebra.BigOperators.Group.List.Basic
import XcWindows.V4v.Contexts

/-!
# The reference counts are right

In a run of `deviceMachine` that is `Careful`, the count of every context is the number of its
holders, a context that was freed has none and is not touched again, and a context whose count is
zero is being freed.
-/

namespace XcWindows.V4v.Contexts

open Lib
open Function (update_of_ne update_self)

/-- A context that was not created yet. -/
structure Blank (x : Ctx) : Prop where
  alive : x.alive = false
  refc : x.refc = 0
  linked : x.linked = false
  handle : x.handle = false
  type : x.type = .unspecified
  listenerContext : x.listenerContext = none

/-- What a context says of itself. -/
structure CtxOk (x : Ctx) : Prop where
  attached : x.listenerContext ≠ none ↔ x.type = .accepter
  stream : streamType x.type = true → x.state ≠ .uninitialized ∧ x.state ≠ .idle
  listening : x.state = .listening → x.type = .listener
  connected : x.state = .connected ∨ x.state = .accepted → streamType x.type = true
  linked : x.type = .listener → x.refc ≠ 0 → x.linked = true
  alive : x.refc ≠ 0 → x.alive = true

/-- The type of a context that is released by `release c k` does not change any more, or its handle
is open. -/
def Settled (s : Device) (c : Nat) (k : Call) : Prop :=
  (s.ctx c).type = .accepter ∨ (s.ctx c).type = .listener ∨ (s.ctx c).handle = false ∨
    k.names c = true

def Call.isIrp : Call → Bool
  | .irp _ _ => true
  | _ => false

/-- What the routine has stored. -/
def DispatchPc.Ok (s : Device) (c : Nat) : DispatchPc → Prop
  | .listenState => (s.ctx c).type = .listener
  | .connectState | .connectInsert | .waitState | .waitInsert => (s.ctx c).type = .connector
  | .disconnectState => streamType (s.ctx c).type = true
  | _ => True

def Call.Ok (s : Device) : Call → Prop
  | .dispatch c pc => pc.Ok s c
  | .accept l a pc =>
    (s.ctx l).type = .listener ∧ (pc = .insert → (s.ctx a).listenerContext = some l)
  | .pending l a | .cancelled l a | .complete _ l a _ => (s.ctx a).listenerContext = some l
  | .cleanup c pc => (s.ctx c).handle = false ∧ (pc ≠ .start → (s.ctx c).type ≠ .listener)
  | .release c k => Settled s c k ∧ k.isIrp = false ∧ k.Ok s
  | .drop c val k =>
    Settled s c k ∧ (val = (s.ctx c).type ∨ k.names c = true) ∧ k.isIrp = false ∧ k.Ok s
  | .free _ k => k.isIrp = false ∧ k.Ok s
  | .reader _ a => (s.ctx a).type = .accepter
  | .done | .doAccepts _ | .irp _ _ | .pass _ => True

structure Held (s : Device) : Prop where
  fault : s.fault = false
  refc : ∀ c, (s.ctx c).refc = s.holders c
  freeing : ∀ c, s.total (Call.frees c) =
    if (s.ctx c).alive = true ∧ (s.ctx c).refc = 0 then 1 else 0
  fresh : ∀ c, s.count ≤ c → Blank (s.ctx c)
  ok : ∀ c, CtxOk (s.ctx c)
  listeners : ∀ a l, (s.ctx a).listenerContext = some l → (s.ctx l).type = .listener
  unlinks : ∀ c, (s.ctx c).type ≠ .listener → (if (s.ctx c).linked then 1 else 0) =
    (if (s.ctx c).handle then 1 else 0) + s.total (Call.unlinks c)
  sole : ∀ c, s.total (Call.initialized c) ≤ 1
  idle : ∀ c, s.total (Call.initialized c) ≠ 0 → (s.ctx c).state = .idle
  named : ∀ k ∈ s.calls, ∀ c, k.names c = true → (s.ctx c).handle = true
  irps : ∀ kind c, .irp kind c ∈ s.calls → kind ≠ .write → (s.ctx c).refc ≠ 0
  calls : ∀ k ∈ s.calls, k.Ok s

/-! ## Sums and frames -/

attribute [local simp] Call.holds Call.frees Call.unlinks Call.initialized

section Frames

variable {s t : Device} {k k' : Call} {c : Nat} {x : Ctx}

theorem total_erase (f : Call → Nat) (hk : k ∈ s.calls) :
    f k + ((s.calls.erase k).map f).sum = s.total f :=
  List.sum_map_erase f hk

/-- The call `k` goes on as `ks`. -/
theorem total_put {f : Call → Nat} {ks : List Call} (hk : k ∈ s.calls)
    (ht : t.calls = ks ++ s.calls.erase k) : t.total f + f k = s.total f + (ks.map f).sum := by
  rw [Device.total, ht, List.map_append, List.sum_append, ← total_erase f hk]
  omega

theorem total_cons {f : Call → Nat} (ht : t.calls = k :: s.calls) :
    t.total f = f k + s.total f := by
  rw [Device.total, ht, List.map_cons, List.sum_cons]
  rfl

theorem le_total (f : Call → Nat) (hk : k ∈ s.calls) : f k ≤ s.total f := by
  rw [← total_erase f hk]
  omega

/-- What a step may not undo: the type of a stream and of a closed context, the listener of an
accepter, a closed handle. -/
structure Frame (s t : Device) : Prop where
  type : ∀ c, (t.ctx c).type = (s.ctx c).type ∨ (s.ctx c).handle = true ∧
    streamType (s.ctx c).type = false
  listener : ∀ a l, (s.ctx a).listenerContext = some l → (t.ctx a).listenerContext = some l
  handle : ∀ c, (s.ctx c).handle = false → (t.ctx c).handle = false

theorem Frame.keeps_stream (h : Frame s t) (hc : streamType (s.ctx c).type = true) :
    (t.ctx c).type = (s.ctx c).type := by
  rcases h.type c with e | e
  · exact e
  · rw [hc] at e
    exact absurd e.2 (by simp)

theorem Frame.keeps_type {type : CtxType} (h : Frame s t) (hc : (s.ctx c).type = type)
    (hs : streamType type = true) : (t.ctx c).type = type :=
  (h.keeps_stream (by rw [hc, hs])).trans hc

theorem Frame.keeps_listener (h : Frame s t) (hc : (s.ctx c).type = .listener) :
    (t.ctx c).type = .listener :=
  h.keeps_type hc rfl

theorem Frame.keeps_accepter (h : Frame s t) (hc : (s.ctx c).type = .accepter) :
    (t.ctx c).type = .accepter :=
  h.keeps_type hc rfl

theorem DispatchPc.Ok.congr {pc : DispatchPc} (htype : (t.ctx c).type = (s.ctx c).type)
    (h : pc.Ok s c) : pc.Ok t c := by
  cases pc with
  | listenState | connectState | connectInsert | waitState | waitInsert => exact htype.trans h
  | disconnectState => exact (congrArg streamType htype).trans h
  | _ => trivial

theorem DispatchPc.Ok.frame {pc : DispatchPc} (hf : Frame s t) (h : pc.Ok s c) : pc.Ok t c := by
  cases pc with
  | listenState => exact hf.keeps_listener h
  | connectState | connectInsert | waitState | waitInsert => exact hf.keeps_type h rfl
  | disconnectState =>
    have h : streamType (s.ctx c).type = true := h
    exact (congrArg streamType (hf.keeps_stream h)).trans h
  | _ => trivial

theorem Settled.frame (h : Settled s c k) (hf : Frame s t) : Settled t c k := by
  rcases h with h | h | h | h
  · exact .inl (hf.keeps_accepter h)
  · exact .inr (.inl (hf.keeps_listener h))
  · exact .inr (.inr (.inl (hf.handle c h)))
  · exact .inr (.inr (.inr h))

theorem Call.Ok.frame (hf : Frame s t) (h : k.Ok s) : k.Ok t := by
  induction k with
  | dispatch c pc => exact DispatchPc.Ok.frame hf h
  | accept l a pc => exact ⟨hf.keeps_listener h.1, fun e => hf.listener a l (h.2 e)⟩
  | pending l a | cancelled l a | complete _ l a _ => exact hf.listener a l h
  | cleanup c pc =>
    refine ⟨hf.handle c h.1, fun e => ?_⟩
    rcases hf.type c with ht | ht
    · rw [ht]
      exact h.2 e
    · rw [h.1] at ht
      exact absurd ht.1 (by simp)
  | release c k ih => exact ⟨h.1.frame hf, h.2.1, ih h.2.2⟩
  | drop c val k ih =>
    refine ⟨h.1.frame hf, ?_, h.2.2.1, ih h.2.2.2⟩
    rcases hf.type c with ht | ht
    · rw [ht]
      exact h.2.1
    · refine .inr ?_
      rcases h.1 with hs | hs | hs | hs
      · rw [hs] at ht
        exact absurd ht.2 (by simp [streamType])
      · rw [hs] at ht
        exact absurd ht.2 (by simp [streamType])
      · rw [hs] at ht
        exact absurd ht.1 (by simp)
      · exact hs
  | free c k ih => exact ⟨h.1, ih h.2⟩
  | reader cs a => exact hf.keeps_accepter h
  | done | doAccepts | irp | pass => trivial

/-- The context `c` becomes `x`. -/
theorem frame_update (ht : t.ctx = Function.update s.ctx c x)
    (htype : x.type = (s.ctx c).type ∨ (s.ctx c).handle = true ∧
      streamType (s.ctx c).type = false)
    (hl : ∀ l, (s.ctx c).listenerContext = some l → x.listenerContext = some l)
    (hh : (s.ctx c).handle = false → x.handle = false) : Frame s t := by
  refine ⟨fun d => ?_, fun d l hd => ?_, fun d hd => ?_⟩
  all_goals
    rw [ht]
    by_cases e : d = c
    · subst e
      rw [update_self]
      first | exact htype | exact hl l hd | exact hh hd
    · rw [update_of_ne e]
      first | exact .inl rfl | exact hd

end Frames

/-! ## Who is alive -/

section Alive

variable {s t : Device} {k : Call} {c a l : Nat}

theorem Held.pos_of_holds (h : Held s) (hk : k ∈ s.calls) (hc : k.holds c ≠ 0) :
    (s.ctx c).refc ≠ 0 := by
  have h1 := h.refc c
  have h2 := le_total (Call.holds c) hk
  unfold Device.holders at h1
  omega

theorem Held.pos_of_handle (h : Held s) (hc : (s.ctx c).handle = true) : (s.ctx c).refc ≠ 0 := by
  have h1 := h.refc c
  unfold Device.holders at h1
  rw [if_pos hc] at h1
  omega

theorem Held.linked_of_handle (h : Held s) (hc : (s.ctx c).handle = true) :
    (s.ctx c).linked = true := by
  by_cases ht : (s.ctx c).type = .listener
  · exact (h.ok c).linked ht (h.pos_of_handle hc)
  · have := h.unlinks c ht
    rw [if_pos hc] at this
    by_contra hl
    rw [if_neg hl] at this
    omega

theorem Held.pos_of_linked (h : Held s) (hc : (s.ctx c).linked = true) : (s.ctx c).refc ≠ 0 := by
  have h1 := h.refc c
  unfold Device.holders at h1
  rw [if_pos hc] at h1
  omega

theorem Held.live (h : Held s) (hc : (s.ctx c).refc ≠ 0) : s.live c = true := by
  unfold Device.live
  rw [(h.ok c).alive hc]
  simpa using hc

theorem Held.lt_count (h : Held s) (hc : (s.ctx c).refc ≠ 0) : c < s.count := by
  by_contra hlt
  exact hc (h.fresh c (by omega)).refc

/-- An accepter keeps its listener. -/
theorem Held.pos_of_attached (h : Held s) (ha : (s.ctx a).refc ≠ 0)
    (hl : (s.ctx a).listenerContext = some l) : (s.ctx l).refc ≠ 0 := by
  have h1 := h.refc l
  have h2 : s.attached l ≠ 0 := count_ne_zero (h.lt_count ha) ⟨ha, hl⟩
  unfold Device.holders at h1
  omega

end Alive

/-! ## Steps that leave the references alone -/

section Quiet

variable {s t : Device} {k : Call} {c : Nat} {x : Ctx}

/-- A call that is new after the step. -/
structure New (s t : Device) (k : Call) : Prop where
  ok : k.Ok t
  named : ∀ d, k.names d = true → (s.ctx d).handle = true
  irps : ∀ kind d, k = .irp kind d → kind ≠ .write → (s.ctx d).refc ≠ 0

theorem isIrp_ne {kind : IrpKind} {d : Nat} (h : k.isIrp = false) : k ≠ .irp kind d := by
  rintro rfl
  cases h

/-- A step that changes one context: what is left to show. -/
theorem Held.update (h : Held s) (hctx : t.ctx = Function.update s.ctx c x)
    (hcount : t.count = s.count) (hfault : t.fault = s.fault) (hfr : Frame s t)
    (hblank : s.count ≤ c → Blank x) (hok : CtxOk x)
    (hlis : ∀ l, x.listenerContext = some l → (s.ctx l).type = .listener)
    (hrefc : ∀ d, (t.ctx d).refc = t.holders d)
    (hfree : ∀ d, t.total (Call.frees d) =
      if (t.ctx d).alive = true ∧ (t.ctx d).refc = 0 then 1 else 0)
    (hunl : ∀ d, (t.ctx d).type ≠ .listener → (if (t.ctx d).linked then 1 else 0) =
      (if (t.ctx d).handle then 1 else 0) + t.total (Call.unlinks d))
    (hsole : ∀ d, t.total (Call.initialized d) ≤ 1)
    (hidle : ∀ d, t.total (Call.initialized d) ≠ 0 → (t.ctx d).state = .idle)
    (hnew : ∀ k ∈ t.calls, k ∈ s.calls ∨ New s t k)
    (hnamed : ∀ k ∈ t.calls, ∀ d, k.names d = true → (s.ctx d).handle = true →
      (t.ctx d).handle = true)
    (hirps : ∀ kind d, .irp kind d ∈ t.calls → kind ≠ .write → (s.ctx d).refc ≠ 0 →
      (t.ctx d).refc ≠ 0) : Held t := by
  have hself : t.ctx c = x := by rw [hctx, update_self]
  have hother : ∀ d, d ≠ c → t.ctx d = s.ctx d := fun d hd => by rw [hctx, update_of_ne hd]
  have hcases : ∀ k ∈ t.calls, k.Ok t ∧ (∀ d, k.names d = true → (s.ctx d).handle = true) ∧
      ∀ kind d, k = .irp kind d → kind ≠ .write → (s.ctx d).refc ≠ 0 := by
    intro k hk
    rcases hnew k hk with hk | hk
    · exact ⟨(h.calls k hk).frame hfr, h.named k hk, fun kind d e => h.irps kind d (e ▸ hk)⟩
    · exact ⟨hk.ok, hk.named, hk.irps⟩
  refine ⟨hfault.trans h.fault, hrefc, hfree, fun d hd => ?_, fun d => ?_, fun a l e => ?_, hunl,
    hsole, hidle, fun k hk d hn => ?_, fun kind d hk hw => ?_, fun k hk => (hcases k hk).1⟩
  · rw [hcount] at hd
    by_cases e : d = c
    · subst e
      rw [hself]
      exact hblank hd
    · rw [hother d e]
      exact h.fresh d hd
  · by_cases e : d = c
    · subst e
      rw [hself]
      exact hok
    · rw [hother d e]
      exact h.ok d
  · refine hfr.keeps_listener ?_
    by_cases ea : a = c
    · subst ea
      rw [hself] at e
      exact hlis l e
    · rw [hother a ea] at e
      exact h.listeners a l e
  · exact hnamed k hk d hn ((hcases k hk).2.1 d hn)
  · exact hirps kind d hk hw ((hcases _ hk).2.2 kind d rfl hw)

/-- A step that changes at most the type and the state of one context and moves no reference. -/
theorem Held.quiet {type : CtxType} {state : CtxState} (h : Held s)
    (hctx : t.ctx = Function.update s.ctx c { s.ctx c with type, state })
    (hcount : t.count = s.count) (hfault : t.fault = s.fault)
    (hok : CtxOk { s.ctx c with type, state })
    (htype : type = (s.ctx c).type ∨ (s.ctx c).handle = true ∧
      streamType (s.ctx c).type = false)
    (hholds : ∀ d, t.total (Call.holds d) = s.total (Call.holds d))
    (hfrees : ∀ d, t.total (Call.frees d) = s.total (Call.frees d))
    (hunl : ∀ d, (s.ctx d).type ≠ .listener →
      t.total (Call.unlinks d) = s.total (Call.unlinks d))
    (hsole : ∀ d, t.total (Call.initialized d) ≤ 1)
    (hidle : ∀ d, t.total (Call.initialized d) ≠ 0 → (t.ctx d).state = .idle)
    (hnew : ∀ k ∈ t.calls, k ∈ s.calls ∨ New s t k) : Held t := by
  have hfr : Frame s t := frame_update hctx htype (fun _ e => e) (fun e => e)
  -- the fields that count references are those of `s`
  have hd : ∀ d, (t.ctx d).refc = (s.ctx d).refc ∧ (t.ctx d).alive = (s.ctx d).alive ∧
      (t.ctx d).linked = (s.ctx d).linked ∧ (t.ctx d).handle = (s.ctx d).handle ∧
      (t.ctx d).listenerContext = (s.ctx d).listenerContext := by
    intro d
    rw [hctx]
    by_cases e : d = c
    · subst e
      rw [update_self]
      exact ⟨rfl, rfl, rfl, rfl, rfl⟩
    · rw [update_of_ne e]
      exact ⟨rfl, rfl, rfl, rfl, rfl⟩
  refine h.update hctx hcount hfault hfr (fun hc => ?_) hok (h.listeners c) (fun d => ?_) (fun d => ?_)
    (fun d hdt => ?_) hsole hidle hnew (fun k _ d _ e => ?_) fun _ d _ _ e => ?_
  · have hb := h.fresh c hc
    refine ⟨hb.alive, hb.refc, hb.linked, hb.handle, ?_, hb.listenerContext⟩
    rcases htype with e | e
    · exact e.trans hb.type
    · rw [hb.handle] at e
      exact absurd e.1 (by simp)
  · have hat : t.attached d = s.attached d := by
      unfold Device.attached
      rw [hcount]
      refine count_congr fun a _ => ?_
      rw [(hd a).1, (hd a).2.2.2.2]
    unfold Device.holders
    rw [(hd d).1, (hd d).2.2.1, (hd d).2.2.2.1, hholds, hat]
    exact h.refc d
  · rw [hfrees, (hd d).1, (hd d).2.1]
    exact h.freeing d
  · have hds : (s.ctx d).type ≠ .listener := fun e => hdt (hfr.keeps_listener e)
    rw [(hd d).2.2.1, (hd d).2.2.2.1, hunl d hds]
    exact h.unlinks d hds
  · rw [(hd d).2.2.2.1]
    exact e
  · rw [(hd d).1]
    exact e

/-- The calls `l'` hold, free and unlink what the calls `l` do. -/
structure Balanced (l l' : List Call) : Prop where
  holds : ∀ d, (l'.map (Call.holds d)).sum = (l.map (Call.holds d)).sum
  frees : ∀ d, (l'.map (Call.frees d)).sum = (l.map (Call.frees d)).sum
  unlinks : ∀ d, (l'.map (Call.unlinks d)).sum = (l.map (Call.unlinks d)).sum
  initialized : ∀ d, (l'.map (Call.initialized d)).sum = (l.map (Call.initialized d)).sum

theorem Balanced.refl (l : List Call) : Balanced l l :=
  ⟨fun _ => rfl, fun _ => rfl, fun _ => rfl, fun _ => rfl⟩

theorem Balanced.put {ks : List Call} (h : Balanced [k] ks) (hk : k ∈ s.calls) :
    Balanced s.calls (ks ++ s.calls.erase k) := by
  have hsum : ∀ f : Call → Nat, (ks.map f).sum = ([k].map f).sum →
      ((ks ++ s.calls.erase k).map f).sum = (s.calls.map f).sum := by
    intro f hf
    rw [List.map_append, List.sum_append, hf, List.map_singleton, List.sum_singleton]
    exact total_erase f hk
  exact ⟨fun d => hsum _ (h.holds d), fun d => hsum _ (h.frees d), fun d => hsum _ (h.unlinks d),
    fun d => hsum _ (h.initialized d)⟩

theorem Balanced.irp (l : List Call) (kind : IrpKind) (c : Nat) :
    Balanced l (.irp kind c :: l) := by
  constructor <;> intro d <;> simp

theorem Call.Ok.congr (h : k.Ok s) (hctx : t.ctx = s.ctx) : k.Ok t :=
  h.frame ⟨fun _ => .inl (by rw [hctx]), fun _ _ e => by rw [hctx]; exact e,
    fun _ e => by rw [hctx]; exact e⟩

/-- A store to the type and the state of a context. -/
theorem Held.store {type : CtxType} {state : CtxState} {calls : List Call} (h : Held s)
    (hbal : Balanced s.calls calls) (hok : CtxOk { s.ctx c with type, state })
    (htype : type = (s.ctx c).type ∨ (s.ctx c).handle = true ∧
      streamType (s.ctx c).type = false)
    (hidle : s.total (Call.initialized c) ≠ 0 → state = .idle)
    (hnew : ∀ k ∈ calls, k ∈ s.calls ∨
      New s { s with ctx := Function.update s.ctx c { s.ctx c with type, state }, calls } k) :
    Held { s with ctx := Function.update s.ctx c { s.ctx c with type, state }, calls } := by
  refine h.quiet rfl rfl rfl hok htype hbal.holds hbal.frees (fun d _ => hbal.unlinks d)
    (fun d => ?_) (fun d hne => ?_) hnew
  · exact (hbal.initialized d).trans_le (h.sole d)
  · have hinit : s.total (Call.initialized d) ≠ 0 := fun e => hne ((hbal.initialized d).trans e)
    by_cases e : d = c
    · subst e
      simp only [update_self]
      exact hidle hinit
    · simp only [update_of_ne e]
      exact h.idle d hinit

/-- A store to the state alone, by a call that goes on as `ks`. -/
theorem Held.setState {ks : List Call} (h : Held s) (c : Nat) (state : CtxState)
    (hk : k ∈ s.calls) (hbal : Balanced [k] ks)
    (hstream : streamType (s.ctx c).type = true → state ≠ .uninitialized ∧ state ≠ .idle)
    (hlist : state = .listening → (s.ctx c).type = .listener)
    (hconn : state = .connected ∨ state = .accepted → streamType (s.ctx c).type = true)
    (hidle : s.total (Call.initialized c) ≠ 0 → state = .idle)
    (hnew : ∀ k' ∈ ks, New s (s.setState c state) k') :
    Held ((s.setState c state).put k ks) := by
  refine h.store (hbal.put hk) ?_ (.inl rfl) hidle fun k' hk' => ?_
  · have hok := h.ok c
    exact ⟨hok.attached, hstream, hlist, hconn, hok.linked, hok.alive⟩
  · rcases List.mem_append.mp hk' with hk' | hk'
    · exact .inr ⟨(hnew k' hk').ok.congr rfl, (hnew k' hk').named, (hnew k' hk').irps⟩
    · exact .inl (List.mem_of_mem_erase hk')

/-- Calls go on and store nothing. -/
theorem Held.recall {calls : List Call} (h : Held s) (hbal : Balanced s.calls calls)
    (hnew : ∀ k ∈ calls, k ∈ s.calls ∨ New s s k) : Held { s with calls } := by
  have hst := h.store (c := 0) hbal (h.ok 0) (.inl rfl) (h.idle 0)
  simp only [Function.update_eq_self] at hst
  refine hst fun k hk => ?_
  rcases hnew k hk with hk | hk
  · exact .inl hk
  · exact .inr ⟨hk.ok.congr rfl, hk.named, hk.irps⟩

theorem Held.put {ks : List Call} (h : Held s) (hk : k ∈ s.calls) (hbal : Balanced [k] ks)
    (hnew : ∀ k' ∈ ks, New s s k') : Held (s.put k ks) := by
  refine h.recall (hbal.put hk) fun k' hk' => ?_
  rcases List.mem_append.mp hk' with hk' | hk'
  · exact .inr (hnew k' hk')
  · exact .inl (List.mem_of_mem_erase hk')

end Quiet

/-! ## Steps that take or drop a reference -/

section Refs

variable {s t : Device} {k k' : Call} {c : Nat} {x : Ctx}

/-- A step that changes the count or the list link of one context. -/
theorem Held.refs (h : Held s) (hctx : t.ctx = Function.update s.ctx c x)
    (hcount : t.count = s.count) (hfault : t.fault = s.fault)
    (hx : x = { s.ctx c with refc := x.refc, linked := x.linked }) (hpos : (s.ctx c).refc ≠ 0)
    (hok : x.type = .listener → x.refc ≠ 0 → x.linked = true)
    (hrefc : ∀ d, (t.ctx d).refc = t.holders d)
    (hfree : ∀ d, t.total (Call.frees d) =
      s.total (Call.frees d) + if d = c ∧ x.refc = 0 then 1 else 0)
    (hunl : ∀ d, (s.ctx d).type ≠ .listener → (if (t.ctx d).linked then 1 else 0) =
      (if (s.ctx d).handle then 1 else 0) + t.total (Call.unlinks d))
    (hinit : ∀ d, t.total (Call.initialized d) = s.total (Call.initialized d))
    (hquiet : x.refc = 0 → ∀ kind, kind ≠ .write → .irp kind c ∉ t.calls)
    (hnew : ∀ k ∈ t.calls, k ∈ s.calls ∨ New s t k) : Held t := by
  have hself : t.ctx c = x := by rw [hctx, update_self]
  have hother : ∀ d, d ≠ c → t.ctx d = s.ctx d := fun d hd => by rw [hctx, update_of_ne hd]
  have htype : x.type = (s.ctx c).type := by rw [hx]
  have hl : x.listenerContext = (s.ctx c).listenerContext := by rw [hx]
  have hh : x.handle = (s.ctx c).handle := by rw [hx]
  have hst : x.state = (s.ctx c).state := by rw [hx]
  have hal : x.alive = true := by rw [hx]; exact (h.ok c).alive hpos
  have hfr : Frame s t :=
    frame_update hctx (.inl htype) (fun l e => hl.trans e) (fun e => hh.trans e)
  have hd : ∀ d, (t.ctx d).type = (s.ctx d).type ∧ (t.ctx d).handle = (s.ctx d).handle ∧
      (t.ctx d).state = (s.ctx d).state := by
    intro d
    by_cases e : d = c
    · subst e
      rw [hself]
      exact ⟨htype, hh, hst⟩
    · rw [hother d e]
      exact ⟨rfl, rfl, rfl⟩
  have hs := h.ok c
  refine h.update hctx hcount hfault hfr (fun hc => absurd (h.fresh c hc).refc hpos)
    ⟨?_, ?_, ?_, ?_, hok, fun _ => hal⟩ (fun l e => h.listeners c l (hl.symm.trans e)) hrefc (fun d => ?_)
    (fun d hdt => ?_) (fun d => ?_) (fun d hne => ?_) hnew (fun k _ d _ e => ?_) fun kind d hk hw e => ?_
  · rw [hl, htype]
    exact hs.attached
  · rw [hst, htype]
    exact hs.stream
  · rw [hst, htype]
    exact hs.listening
  · rw [hst, htype]
    exact hs.connected
  · rw [hfree, h.freeing]
    by_cases e : d = c
    · subst e
      rw [hself, if_neg (fun e => hpos e.2), hal]
      simp
    · have hz : (if d = c ∧ x.refc = 0 then 1 else 0) = 0 := if_neg fun hc => e hc.1
      rw [hother d e, hz, Nat.add_zero]
  · rw [(hd d).2.1]
    rw [(hd d).1] at hdt
    exact hunl d hdt
  · rw [hinit]
    exact h.sole d
  · rw [hinit] at hne
    rw [(hd d).2.2]
    exact h.idle d hne
  · rw [(hd d).2.1]
    exact e
  · by_cases ed : d = c
    · subst ed
      rw [hself]
      exact fun hz => hquiet hz kind hw hk
    · rw [hother d ed]
      exact e

/-- The attached accepters stay, as long as a positive count stays positive. -/
theorem attached_eq (hctx : t.ctx = Function.update s.ctx c x) (hcount : t.count = s.count)
    (hl : x.listenerContext = (s.ctx c).listenerContext)
    (hpos : x.refc ≠ 0 ↔ (s.ctx c).refc ≠ 0) (d : Nat) : t.attached d = s.attached d := by
  unfold Device.attached
  rw [hcount]
  refine count_congr fun a _ => ?_
  rw [hctx]
  by_cases e : a = c
  · subst e
    rw [update_self, hl, hpos]
  · rw [update_of_ne e]

/-- `V4vAddRefContext` -/
theorem Held.addRef {ks : List Call} (h : Held s) (c : Nat) (hk : k ∈ s.calls)
    (hpos : (s.ctx c).refc ≠ 0)
    (hholds : ∀ d, (ks.map (Call.holds d)).sum = k.holds d + if d = c then 1 else 0)
    (hfrees : ∀ d, (ks.map (Call.frees d)).sum = k.frees d)
    (hunl : ∀ d, (ks.map (Call.unlinks d)).sum = k.unlinks d)
    (hinit : ∀ d, (ks.map (Call.initialized d)).sum = k.initialized d)
    (hnew : ∀ k' ∈ ks, New s (s.addRef c) k') : Held ((s.addRef c).put k ks) := by
  have htot : ∀ {f : Call → Nat}, ((s.addRef c).put k ks).total f + f k =
      s.total f + (ks.map f).sum := total_put hk rfl
  have hat := attached_eq (s := s) (t := (s.addRef c).put k ks) (c := c) rfl rfl rfl
    ⟨fun _ => hpos, fun _ => Nat.succ_ne_zero _⟩
  refine h.refs (c := c) rfl rfl rfl rfl hpos (fun ht _ => (h.ok c).linked ht hpos) (fun d => ?_)
    (fun d => ?_) (fun d hdt => ?_) (fun d => ?_) (fun hz => absurd hz (Nat.succ_ne_zero _))
    fun k' hk' => ?_
  · have h1 := h.refc d
    have h2 := @htot (Call.holds d)
    rw [hholds] at h2
    unfold Device.holders at h1 ⊢
    rw [hat d]
    by_cases e : d = c
    · subst e
      simp only [Device.put, Device.addRef, Device.set, update_self, if_pos] at h2 ⊢
      omega
    · simp only [Device.put, Device.addRef, Device.set, update_of_ne e, if_neg e] at h2 ⊢
      omega
  · have h2 := @htot (Call.frees d)
    rw [hfrees] at h2
    rw [if_neg (fun e => Nat.succ_ne_zero _ e.2)]
    omega
  · have h2 := @htot (Call.unlinks d)
    rw [hunl] at h2
    have h1 := h.unlinks d hdt
    have hli : (((s.addRef c).put k ks).ctx d).linked = (s.ctx d).linked := by
      by_cases e : d = c
      · subst e; simp [Device.put, Device.addRef, Device.set]
      · simp [Device.put, Device.addRef, Device.set, e]
    rw [hli, h1]
    omega
  · have h2 := @htot (Call.initialized d)
    rw [hinit] at h2
    omega
  · rcases List.mem_append.mp hk' with hk' | hk'
    · exact .inr ⟨(hnew k' hk').ok.congr rfl, (hnew k' hk').named, (hnew k' hk').irps⟩
    · exact .inl (List.mem_of_mem_erase hk')

/-- An accepter whose count goes to zero is no longer attached. -/
theorem attached_drop (h : Held s) (hctx : t.ctx = Function.update s.ctx c x)
    (hcount : t.count = s.count) (hl : x.listenerContext = (s.ctx c).listenerContext)
    (hpos : (s.ctx c).refc ≠ 0) (d : Nat) :
    t.attached d + (if x.refc = 0 ∧ (s.ctx c).listenerContext = some d then 1 else 0) =
      s.attached d := by
  by_cases hz : x.refc = 0
  · by_cases hd : (s.ctx c).listenerContext = some d
    · rw [if_pos ⟨hz, hd⟩]
      unfold Device.attached
      rw [hcount]
      refine count_off (i := c) (h.lt_count hpos) ⟨hpos, hd⟩ ?_ fun a ha => ?_
      · rw [hctx, update_self]
        exact fun hc => hc.1 hz
      · rw [hctx, update_of_ne ha]
    · rw [if_neg fun hc => hd hc.2, Nat.add_zero]
      unfold Device.attached
      rw [hcount]
      refine count_congr fun a _ => ?_
      rw [hctx]
      by_cases e : a = c
      · subst e
        rw [update_self, hl]
        exact ⟨fun hc => absurd hc.2 hd, fun hc => absurd hc.2 hd⟩
      · rw [update_of_ne e]
  · rw [if_neg fun hc => hz hc.1, Nat.add_zero]
    exact attached_eq hctx hcount hl ⟨fun _ => hpos, fun _ => hz⟩ d

/-- The call `k` gives up a reference to `c`, or the list link (`unlink`), and goes on as `k''`,
which is `k'` after the rest of the release. -/
theorem Held.dropTo {k'' : Call} (h : Held s) (k' : Call) (unlink : Bool) (hk : k ∈ s.calls)
    (hctx : t.ctx = Function.update s.ctx c x) (hcount : t.count = s.count)
    (hfault : t.fault = s.fault) (hcalls : t.calls = [k''] ++ s.calls.erase k)
    (hx : x = { s.ctx c with refc := x.refc, linked := x.linked })
    (hlink : (if (s.ctx c).linked then 1 else 0) + x.refc =
      (if x.linked then 1 else 0) + ((s.ctx c).refc - if unlink then 0 else 1))
    (hpos : (s.ctx c).refc ≠ 0)
    (hok : x.type = .listener → x.refc ≠ 0 → x.linked = true)
    (hholds : ∀ d, k.holds d = k'.holds d + if d = c ∧ unlink = false then 1 else 0)
    (hholds' : ∀ d, k''.holds d =
      k'.holds d + if x.refc = 0 ∧ (s.ctx c).listenerContext = some d then 1 else 0)
    (hfrees : ∀ d, k''.frees d = k.frees d + if d = c ∧ x.refc = 0 then 1 else 0)
    (hunl : ∀ d, (s.ctx d).type ≠ .listener → (if d = c ∧ unlink = true then 1 else 0) +
      k''.unlinks d = k.unlinks d)
    (hunl' : (s.ctx c).type ≠ .listener → x.linked = ((s.ctx c).linked && !unlink))
    (hinit : ∀ d, k''.initialized d = k.initialized d)
    (hquiet : x.refc = 0 → ∀ kind, kind ≠ .write → .irp kind c ∉ s.calls)
    (hirp : k''.isIrp = false) (hnew : New s t k'') : Held t := by
  have htot : ∀ {f : Call → Nat}, t.total f + f k = s.total f + f k'' := by
    intro f
    have := total_put (f := f) hk hcalls
    simpa using this
  have hl : x.listenerContext = (s.ctx c).listenerContext := by rw [hx]
  have hh : x.handle = (s.ctx c).handle := by rw [hx]
  have hself : t.ctx c = x := by rw [hctx, update_self]
  have hother : ∀ d, d ≠ c → t.ctx d = s.ctx d := fun d hd => by rw [hctx, update_of_ne hd]
  have hat := attached_drop h hctx hcount hl hpos
  -- an accepter is not its own listener
  have hnot : (s.ctx c).listenerContext ≠ some c := by
    intro e
    have h1 := h.listeners c c e
    rw [(h.ok c).attached.mp (by rw [e]; simp)] at h1
    cases h1
  refine h.refs hctx hcount hfault hx hpos hok (fun d => ?_) (fun d => ?_) (fun d hdt => ?_)
    (fun d => ?_) (fun hz kind hw hk₁ => ?_) fun k₁ hk₁ => ?_
  · have h1 := h.refc d
    have h2 := @htot (Call.holds d)
    have h3 := hat d
    have h4 := hholds d
    have h5 := hholds' d
    have h6 := le_total (Call.holds d) hk
    unfold Device.holders at h1 ⊢
    by_cases e : d = c
    · subst e
      rw [hself, hh]
      rw [if_neg fun hc => hnot hc.2] at h3 h5
      cases unlink <;> simp at h4 hlink <;> omega
    · rw [hother d e]
      rw [if_neg fun hc => e hc.1] at h4
      omega
  · have h2 := @htot (Call.frees d)
    rw [hfrees] at h2
    omega
  · have h2 := @htot (Call.unlinks d)
    have h3 := hunl d hdt
    have h1 := h.unlinks d hdt
    by_cases e : d = c
    · subst e
      rw [hself, hunl' hdt]
      cases unlink <;> cases hlk : (s.ctx d).linked <;> simp [hlk] at h1 h3 ⊢ <;> omega
    · rw [hother d e, h1]
      rw [if_neg fun hc => e hc.1] at h3
      omega
  · have h2 := @htot (Call.initialized d)
    rw [hinit] at h2
    omega
  · rw [hcalls] at hk₁
    rcases List.mem_append.mp hk₁ with hk₁ | hk₁
    · exact isIrp_ne hirp (List.mem_singleton.mp hk₁).symm
    · exact hquiet hz kind hw (List.mem_of_mem_erase hk₁)
  · rw [hcalls] at hk₁
    rcases List.mem_append.mp hk₁ with hk₁ | hk₁
    · rw [List.mem_singleton.mp hk₁]
      exact .inr hnew
    · exact .inl (List.mem_of_mem_erase hk₁)

theorem dropRef_eq {k'' : Call} {val : CtxType} (hlive : s.live c = true)
    (hk'' : s.afterDrop c val k' = some k'') :
    s.dropRef k c val k' = some ((s.set c (s.dropped c val)).put k [k'']) := by
  unfold Device.dropRef Device.touch
  rw [hk'', if_pos hlive]

/-- More than the last references: the release only counts down. -/
theorem dropRef_many {val : CtxType} (hlive : s.live c = true)
    (hmany : (s.ctx c).refc - 1 ≠ 0) (hlast : val = .listener → (s.ctx c).refc - 1 ≠ 1) :
    s.dropRef k c val k' =
      some ((s.set c { s.ctx c with refc := (s.ctx c).refc - 1 }).put k [k']) := by
  have hx : s.dropped c val = { s.ctx c with refc := (s.ctx c).refc - 1 } :=
    if_neg fun e => hlast e.1 e.2
  have hk : s.afterDrop c val k' = some k' := by
    unfold Device.afterDrop
    rw [hx, if_neg hmany]
  rw [dropRef_eq hlive hk, hx]

/-- The call `k` is `k'` with one more reference to `c`. -/
structure Gives (k : Call) (c : Nat) (k' : Call) : Prop where
  holds : ∀ d, k.holds d = k'.holds d + if d = c then 1 else 0
  frees : ∀ d, k.frees d = k'.frees d
  unlinks : ∀ d, k.unlinks d = k'.unlinks d
  initialized : ∀ d, k.initialized d = k'.initialized d
  names : ∀ d, k.names d = k'.names d
  isIrp : k'.isIrp = false

theorem gives_drop {val : CtxType} (h : k.isIrp = false) : Gives (.drop c val k) c k := by
  refine ⟨fun d => ?_, fun _ => rfl, fun _ => rfl, fun _ => rfl, fun _ => rfl, h⟩
  rw [Call.holds, Nat.add_comm]
  simp only [eq_comm]

theorem gives_pass (c : Nat) (cs : List Nat) : Gives (.pass (c :: cs)) c (.pass cs) := by
  refine ⟨fun d => ?_, fun _ => rfl, fun _ => rfl, fun _ => rfl, fun _ => rfl, rfl⟩
  by_cases e : d = c
  · subst e
    simp [Call.holds]
  · simp [Call.holds, e, Ne.symm e]

theorem Gives.pos (hg : Gives k c k') (h : Held s) (hk : k ∈ s.calls) : (s.ctx c).refc ≠ 0 := by
  refine h.pos_of_holds hk ?_
  rw [hg.holds c, if_pos rfl]
  omega

/-- The list link and the call that gives the reference up. -/
theorem Gives.two_le (hg : Gives k c k') (h : Held s) (hk : k ∈ s.calls)
    (hl : (s.ctx c).linked = true) : 2 + (if (s.ctx c).handle then 1 else 0) ≤ (s.ctx c).refc := by
  have h1 := h.refc c
  have h2 := le_total (Call.holds c) hk
  rw [hg.holds c, if_pos rfl] at h2
  unfold Device.holders at h1
  rw [if_pos hl] at h1
  omega

/-- One reference less, and not the last. -/
theorem Held.dropRef_many {val : CtxType} (h : Held s) (hk : k ∈ s.calls) (hg : Gives k c k')
    (hok : k'.Ok s) (hmany : (s.ctx c).refc - 1 ≠ 0)
    (hlast : val = .listener → (s.ctx c).refc - 1 ≠ 1)
    (ht : s.dropRef k c val k' = some t) : Held t := by
  have hpos := hg.pos h hk
  rw [Contexts.dropRef_many (h.live hpos) hmany hlast] at ht
  cases ht
  refine h.dropTo k' false hk rfl rfl rfl rfl rfl ?_ hpos ?_ ?_ ?_ ?_ ?_ ?_ ?_
    (fun hz => absurd hz hmany) hg.isIrp ?_
  · simp
  · exact fun htype _ => (h.ok c).linked htype hpos
  · simpa using hg.holds
  · simp [hmany]
  · simpa [hmany] using fun d => (hg.frees d).symm
  · simpa using fun d _ => (hg.unlinks d).symm
  · simp
  · exact fun d => (hg.initialized d).symm
  · refine ⟨hok.frame (frame_update rfl (.inl rfl) (fun _ e => e) fun e => e), fun d hn => ?_,
      fun _ _ e => absurd e (isIrp_ne hg.isIrp)⟩
    exact h.named k hk d ((hg.names d).trans hn)

theorem Quiet.irps {val : CtxType} (h : Quiet s c val)
    (hlast : (s.ctx c).refc = 1 ∨ val = .listener ∧ (s.ctx c).refc = 2) (kind : IrpKind)
    (hw : kind ≠ .write) : .irp kind c ∉ s.calls := by
  obtain ⟨hr, hs⟩ := h hlast
  cases kind with
  | read => exact hr
  | sending => exact hs
  | write => exact absurd rfl hw

/-- The count of an accepter goes to zero. -/
theorem Held.dropRef_accepter (h : Held s) (hk : k ∈ s.calls) (hg : Gives k c k')
    (hok : k'.Ok s) (htype : (s.ctx c).type = .accepter) (hone : (s.ctx c).refc = 1)
    (hquiet : Quiet s c .accepter)
    (ht : s.dropRef k c .accepter k' = some t) : Held t := by
  obtain ⟨l, hl⟩ := Option.ne_none_iff_exists'.mp ((h.ok c).attached.mpr htype)
  have hx : s.dropped c .accepter = { s.ctx c with refc := 0 } := by
    unfold Device.dropped
    rw [if_neg (by simp), hone]
  have hk'' : s.afterDrop c .accepter k' = some (.release l (.free c k')) := by
    unfold Device.afterDrop
    rw [hx, if_pos rfl, if_pos rfl, hl]
    rfl
  have hpos := hg.pos h hk
  rw [dropRef_eq (h.live hpos) hk'', hx] at ht
  cases ht
  have hfr : Frame s (s.set c { s.ctx c with refc := 0 }) :=
    frame_update rfl (.inl rfl) (fun _ e => e) fun e => e
  refine h.dropTo k' false hk rfl rfl rfl rfl rfl ?_ hpos ?_ ?_ ?_ ?_ ?_ ?_ ?_
    (fun _ => hquiet.irps (.inl hone)) rfl ?_
  · simp [hone]
  · exact fun _ e => absurd rfl e
  · simpa using hg.holds
  · intro d
    simp only [Call.holds, true_and, hl, Option.some.injEq]
    omega
  · intro d
    simp only [Call.frees, hg.frees, and_true, eq_comm]
    omega
  · simpa [Call.unlinks] using fun d _ => (hg.unlinks d).symm
  · simp
  · exact fun d => (hg.initialized d).symm
  · refine ⟨⟨.inr (.inl ?_), rfl, hg.isIrp, (hok.frame hfr).congr rfl⟩, fun d hn => ?_,
      fun _ _ e => by cases e⟩
    · exact hfr.keeps_listener (h.listeners c l hl)
    · exact h.named k hk d ((hg.names d).trans hn)

/-- The count of another context goes to zero; for a listener that is when only the list link is
left. -/
theorem Held.dropRef_last (h : Held s) (hk : k ∈ s.calls) (hg : Gives k c k')
    (hok : k'.Ok s) (htype : (s.ctx c).type ≠ .accepter)
    (hlast : (s.ctx c).refc = if (s.ctx c).type = .listener then 2 else 1)
    (hquiet : Quiet s c (s.ctx c).type)
    (ht : s.dropRef k c (s.ctx c).type k' = some t) : Held t := by
  have hnone : (s.ctx c).listenerContext = none := by
    by_contra e
    exact htype ((h.ok c).attached.mp e)
  have hpos := hg.pos h hk
  have hx : s.dropped c (s.ctx c).type = { s.ctx c with
      refc := 0
      linked := if (s.ctx c).type = .listener then false else (s.ctx c).linked } := by
    unfold Device.dropped
    by_cases e : (s.ctx c).type = .listener
    · rw [if_pos e] at hlast
      rw [if_pos ⟨e, by rw [hlast]⟩, if_pos e]
    · rw [if_neg e] at hlast
      rw [if_neg fun hc => e hc.1, if_neg e, hlast]
  have hk'' : s.afterDrop c (s.ctx c).type k' = some (.free c k') := by
    unfold Device.afterDrop
    rw [hx, if_pos rfl, if_neg htype]
  rw [dropRef_eq (h.live hpos) hk'', hx] at ht
  cases ht
  have hlast' : (s.ctx c).refc = 1 ∨ (s.ctx c).type = .listener ∧ (s.ctx c).refc = 2 := by
    by_cases e : (s.ctx c).type = .listener
    · exact .inr ⟨e, by rw [hlast, if_pos e]⟩
    · exact .inl (by rw [hlast, if_neg e])
  refine h.dropTo k' false hk rfl rfl rfl rfl rfl ?_ hpos ?_ ?_ ?_ ?_ ?_ ?_ ?_
    (fun _ => hquiet.irps hlast') rfl ?_
  · by_cases e : (s.ctx c).type = .listener
    · simp [hlast, e, (h.ok c).linked e hpos]
    · simp [hlast, e]
  · exact fun _ e => absurd rfl e
  · simpa using hg.holds
  · intro d
    simp [Call.holds, hnone]
  · intro d
    simp only [Call.frees, hg.frees, and_true, eq_comm]
    omega
  · simpa [Call.unlinks] using fun d _ => (hg.unlinks d).symm
  · intro e
    simp [e]
  · exact fun d => (hg.initialized d).symm
  · refine ⟨⟨hg.isIrp, hok.frame (frame_update rfl (.inl rfl) (fun _ e => e) fun e => e)⟩,
      fun d hn => ?_, fun _ _ e => by cases e⟩
    exact h.named k hk d ((hg.names d).trans hn)

/-- A call gives up a reference it holds. -/
theorem Held.dropRef {val : CtxType} (h : Held s) (hk : k ∈ s.calls) (hg : Gives k c k')
    (hok : k'.Ok s) (hval : val = (s.ctx c).type ∨ k'.names c = true) (hquiet : Quiet s c val)
    (ht : s.dropRef k c val k' = some t) : Held t := by
  have hpos := hg.pos h hk
  rcases hval with rfl | hn
  · by_cases htype : (s.ctx c).type = .listener
    · have h2 := hg.two_le h hk ((h.ok c).linked htype hpos)
      by_cases hlast : (s.ctx c).refc = 2
      · exact h.dropRef_last hk hg hok (by rw [htype]; simp) (by rw [if_pos htype, hlast]) hquiet ht
      · exact h.dropRef_many hk hg hok (by omega) (fun _ => by omega) ht
    · by_cases hone : (s.ctx c).refc = 1
      · by_cases hacc : (s.ctx c).type = .accepter
        · rw [hacc] at ht hquiet
          exact h.dropRef_accepter hk hg hok hacc hone hquiet ht
        · exact h.dropRef_last hk hg hok hacc (by rw [if_neg htype, hone]) hquiet ht
      · exact h.dropRef_many hk hg hok (by omega) (fun e => absurd e htype) ht
  · -- an ACCEPT names the context: the list and the handle keep it
    have hh := h.named k hk c ((hg.names c).trans hn)
    have h2 := hg.two_le h hk (h.linked_of_handle hh)
    rw [if_pos hh] at h2
    exact h.dropRef_many hk hg hok (by omega) (fun _ => by omega) ht

/-- `V4vDispatchCleanup` takes the context off the list. -/
theorem Held.unlink (h : Held s) (hk : .cleanup c .unlink ∈ s.calls)
    (ht : (s.set c { s.ctx c with linked := false }).dropRef (.cleanup c .unlink) c (s.ctx c).type
      (.cleanup c .handle) = some t) : Held t := by
  obtain ⟨hh, htype⟩ := h.calls _ hk
  have htype := htype (by simp)
  have hpos : (s.ctx c).refc ≠ 0 := h.pos_of_holds hk (by simp [Call.holds])
  have h1 := h.unlinks c htype
  have h2 := le_total (Call.unlinks c) hk
  simp only [Call.unlinks, ne_eq, reduceCtorEq, not_false_eq_true, and_self, if_true] at h2
  have hl : (s.ctx c).linked = true := by
    by_contra e
    rw [if_neg e] at h1
    omega
  have hmany : (s.ctx c).refc - 1 ≠ 0 := by
    have h3 := h.refc c
    have h4 := le_total (Call.holds c) hk
    unfold Device.holders at h3
    simp only [Call.holds, if_pos] at h4
    rw [if_pos hl] at h3
    omega
  have hs : ((s.set c { s.ctx c with linked := false }).ctx c) =
      { s.ctx c with linked := false } := update_self ..
  have hlive : (s.set c { s.ctx c with linked := false }).live c = true := by
    unfold Device.live
    rw [hs]
    exact h.live hpos
  rw [Contexts.dropRef_many hlive (by rw [hs]; exact hmany)
    (fun e => absurd e htype), hs] at ht
  cases ht
  refine h.dropTo (c := c) (.cleanup c .handle) true hk (Function.update_idem ..) rfl rfl rfl rfl ?_ hpos
    ?_ ?_ ?_ ?_ ?_ ?_ ?_ (fun hz => absurd hz hmany) rfl ?_
  · simp [hl]
    omega
  · exact fun e => absurd e htype
  · simp [Call.holds]
  · simp [Call.holds, hmany]
  · simp [Call.frees, hmany]
  · intro d _
    simp only [Call.unlinks]
    simp [eq_comm]
  · simp
  · exact fun _ => rfl
  · refine ⟨⟨?_, fun _ => ?_⟩, fun d hn => (by cases hn), fun _ _ e => (by cases e)⟩
    · simp [Device.put, Device.set, hh]
    · simpa [Device.put, Device.set] using htype

end Refs

/-! ## Accepters, new contexts and freed ones -/

section Special

variable {s t : Device} {k : Call} {c a l : Nat}

theorem names_of_initialized (h : k.initialized c ≠ 0) : k.names c = true := by
  induction k with
  | accept l a pc =>
    by_cases e : a = c ∧ (pc = .addRefListener ∨ pc = .attach)
    · obtain ⟨rfl, rfl | rfl⟩ := e <;> simp [Call.names]
    · exact absurd (if_neg e) h
  | release d k ih | drop d val k ih | free d k ih => exact ih h
  | done | dispatch | pending | cancelled | doAccepts | complete | irp | cleanup | pass | reader =>
    exact absurd rfl h

theorem exists_of_total {f : Call → Nat} (h : s.total f ≠ 0) : ∃ k ∈ s.calls, f k ≠ 0 := by
  by_contra hn
  push Not at hn
  refine h (List.sum_eq_zero fun n hm => ?_)
  obtain ⟨k, hk, rfl⟩ := List.mem_map.mp hm
  exact hn k hk

/-- An ACCEPT that is about to attach the context holds its handle open. -/
theorem Held.handle_of_initialized (h : Held s) (hi : s.total (Call.initialized c) ≠ 0) :
    (s.ctx c).handle = true := by
  obtain ⟨k, hk, hne⟩ := exists_of_total hi
  exact h.named k hk c (names_of_initialized hne)

theorem CtxOk.not_stream {x : Ctx} (h : CtxOk x)
    (hs : x.state = .uninitialized ∨ x.state = .idle) : streamType x.type = false := by
  rw [← Bool.not_eq_true]
  intro e
  obtain ⟨h1, h2⟩ := h.stream e
  rcases hs with hs | hs
  · exact h1 hs
  · exact h2 hs

/-- A context that is no stream is no accepter and no listener. -/
theorem CtxOk.unattached {x : Ctx} (h : CtxOk x) (hs : streamType x.type = false) :
    x.type ≠ .listener ∧ x.type ≠ .accepter ∧ x.listenerContext = none := by
  have ha : x.type ≠ .accepter := fun e => by
    rw [e] at hs
    cases hs
  refine ⟨fun e => ?_, ha, ?_⟩
  · rw [e] at hs
    cases hs
  · by_contra e
    exact ha (h.attached.mp e)

/-- `V4vCtrlAccept` gives its reference to the listener to the accepter. -/
theorem Held.attach (h : Held s) (hk : .accept l a .attach ∈ s.calls) :
    Held ((s.set a { s.ctx a with
      listenerContext := some l, type := .accepter, state := .accepting }).put (.accept l a .attach)
        [.accept l a .insert]) := by
  have hinit : s.total (Call.initialized a) = 1 := by
    have h1 := le_total (Call.initialized a) hk
    have h2 := h.sole a
    simp only [Call.initialized, or_true, and_self, if_true] at h1
    omega
  have hidle := h.idle a (by omega)
  have hhandle := h.handle_of_initialized (c := a) (by omega)
  have hstream := (h.ok a).not_stream (.inr hidle)
  obtain ⟨hnl, -, hnone⟩ := (h.ok a).unattached hstream
  have hl : (s.ctx l).type = .listener := (h.calls _ hk).1
  have hne : l ≠ a := by
    rintro rfl
    exact hnl hl
  have hpos := h.pos_of_handle hhandle
  generalize hu : (s.set a { s.ctx a with
      listenerContext := some l, type := .accepter, state := .accepting }).put (.accept l a .attach)
        [.accept l a .insert] = u
  have hself : u.ctx a = { s.ctx a with
      listenerContext := some l, type := .accepter, state := .accepting } := by
    subst hu
    simp [Device.put, Device.set]
  have hother : ∀ d, d ≠ a → u.ctx d = s.ctx d := by
    intro d hd
    subst hu
    simp [Device.put, Device.set, hd]
  have hcount : u.count = s.count := by
    subst hu
    rfl
  have hcalls : u.calls = [.accept l a .insert] ++ s.calls.erase (.accept l a .attach) := by
    subst hu
    rfl
  have htot : ∀ f : Call → Nat,
      u.total f + f (.accept l a .attach) = s.total f + f (.accept l a .insert) := by
    intro f
    simpa using total_put (f := f) hk hcalls
  have hfr : Frame s u := by
    subst hu
    refine frame_update rfl (.inr ⟨hhandle, hstream⟩) (fun l' e => ?_) fun e => e
    rw [hnone] at e
    cases e
  have hsame : ∀ d, (u.ctx d).refc = (s.ctx d).refc ∧ (u.ctx d).alive = (s.ctx d).alive ∧
      (u.ctx d).linked = (s.ctx d).linked ∧ (u.ctx d).handle = (s.ctx d).handle := by
    intro d
    by_cases e : d = a
    · subst e
      rw [hself]
      exact ⟨rfl, rfl, rfl, rfl⟩
    · rw [hother d e]
      exact ⟨rfl, rfl, rfl, rfl⟩
  have hatt : ∀ d, u.attached d = s.attached d + if l = d then 1 else 0 := by
    intro d
    unfold Device.attached
    rw [hcount]
    by_cases e : l = d
    · rw [if_pos e]
      refine count_on (i := a) (h.lt_count hpos) (fun hc => ?_) ?_ fun x hx => ?_
      · rw [hnone] at hc
        cases hc.2
      · rw [hself]
        exact ⟨hpos, congrArg some e⟩
      · rw [hother x hx]
    · rw [if_neg e, Nat.add_zero]
      refine count_congr fun x _ => ?_
      by_cases ex : x = a
      · subst ex
        rw [hself, hnone]
        simp [e]
      · rw [hother x ex]
  refine h.update (c := a) (x := u.ctx a) ?_ hcount ?_ hfr (fun hc => ?_) ?_ (fun l' e => ?_)
    (fun d => ?_) (fun d => ?_) (fun d hd => ?_) (fun d => ?_) (fun d hd => ?_) (fun k hk' => ?_)
    (fun k _ d _ e => ?_) fun _ d _ _ e => ?_
  · rw [hself]
    subst hu
    rfl
  · subst hu
    rfl
  · have := h.lt_count hpos
    omega
  · rw [hself]
    exact ⟨by simp, by simp, by simp, by simp, by simp, (h.ok a).alive⟩
  · rw [hself] at e
    cases e
    exact hl
  · have h1 := h.refc d
    have h2 := htot (Call.holds d)
    unfold Device.holders at h1 ⊢
    rw [(hsame d).1, (hsame d).2.2.1, (hsame d).2.2.2, hatt]
    simp only [Call.holds, and_true, reduceCtorEq, and_false, if_false] at h2
    omega
  · have h2 := htot (Call.frees d)
    rw [(hsame d).1, (hsame d).2.1, ← h.freeing]
    simpa [Call.frees] using h2
  · have h2 := htot (Call.unlinks d)
    rw [(hsame d).2.2.1, (hsame d).2.2.2, h.unlinks d fun e => hd (hfr.keeps_listener e)]
    simpa [Call.unlinks] using h2.symm
  · have h2 := htot (Call.initialized d)
    have h3 := h.sole d
    simp only [Call.initialized, reduceCtorEq, or_self, and_false, if_false] at h2
    omega
  · have h2 := htot (Call.initialized d)
    simp only [Call.initialized, reduceCtorEq, or_self, and_false, or_true, and_true, if_false] at h2
    have hda : d ≠ a := by
      rintro rfl
      rw [if_pos rfl] at h2
      omega
    rw [hother d hda]
    exact h.idle d (by omega)
  · rw [hcalls] at hk'
    rcases List.mem_append.mp hk' with hk' | hk'
    · rw [List.mem_singleton.mp hk']
      refine .inr ⟨⟨?_, fun _ => ?_⟩, fun d hn => h.named _ hk d hn, fun _ _ e => (by cases e)⟩
      · rw [hother l hne]
        exact hl
      · rw [hself]
    · exact .inl (List.mem_of_mem_erase hk')
  · rw [(hsame d).2.2.2]
    exact e
  · rw [(hsame d).1]
    exact e

/-- An IRP that `f` does not count is taken away. -/
theorem sum_filter_ne {f : Call → Nat} (hf : f k = 0) (ks : List Call) :
    ((ks.filter (· ≠ k)).map f).sum = (ks.map f).sum := by
  induction ks with
  | nil => rfl
  | cons k' ks ih =>
    by_cases e : k' = k
    · subst e
      rw [List.filter_cons_of_neg (by simp), ih, List.map_cons, List.sum_cons, hf, Nat.zero_add]
    · rw [List.filter_cons_of_pos (by simpa using e), List.map_cons, List.sum_cons, ih,
        List.map_cons, List.sum_cons]

/-- The context is freed. -/
theorem Held.free {k' : Call} (h : Held s) (hk : .free c k' ∈ s.calls)
    (ht : s.runCall true (.free c k') = some t) : Held t := by
  have hone : s.total (Call.frees c) ≠ 0 := by
    have h1 := le_total (Call.frees c) hk
    simp only [Call.frees, if_true] at h1
    omega
  have hz : (s.ctx c).alive = true ∧ (s.ctx c).refc = 0 := by
    by_contra e
    exact hone ((h.freeing c).trans (if_neg e))
  simp only [Device.runCall, hz.1, if_true, Option.some.injEq] at ht
  have hctx : t.ctx = Function.update s.ctx c { s.ctx c with alive := false } := by
    subst ht
    rfl
  have hcount : t.count = s.count := by
    subst ht
    rfl
  have hcalls : t.calls = k' :: (s.calls.erase (.free c k')).filter (· ≠ .irp .write c) := by
    subst ht
    rfl
  have hself : t.ctx c = { s.ctx c with alive := false } := by rw [hctx, update_self]
  have hother : ∀ d, d ≠ c → t.ctx d = s.ctx d := fun d hd => by rw [hctx, update_of_ne hd]
  have htot : ∀ f : Call → Nat, f (.irp .write c) = 0 →
      t.total f + f (.free c k') = s.total f + f k' := by
    intro f hf
    rw [Device.total, hcalls, List.map_cons, List.sum_cons, sum_filter_ne hf, ← total_erase f hk]
    omega
  have hfr : Frame s t := frame_update hctx (.inl rfl) (fun _ e => e) fun e => e
  have hsame : ∀ d, (t.ctx d).refc = (s.ctx d).refc ∧ (t.ctx d).type = (s.ctx d).type ∧
      (t.ctx d).linked = (s.ctx d).linked ∧ (t.ctx d).handle = (s.ctx d).handle ∧
      (t.ctx d).state = (s.ctx d).state := by
    intro d
    by_cases e : d = c
    · subst e
      rw [hself]
      exact ⟨rfl, rfl, rfl, rfl, rfl⟩
    · rw [hother d e]
      exact ⟨rfl, rfl, rfl, rfl, rfl⟩
  obtain ⟨hirp, hok⟩ := h.calls _ hk
  have hc := h.ok c
  refine h.update hctx hcount (by subst ht; rfl) hfr (fun hlt => ?_)
    ⟨hc.attached, hc.stream, hc.listening, hc.connected, hc.linked, fun e => absurd hz.2 e⟩ (h.listeners c)
    (fun d => ?_) (fun d => ?_) (fun d hd => ?_) (fun d => ?_) (fun d hd => ?_) (fun k hk' => ?_)
    (fun k _ d _ e => ?_) fun _ d _ _ e => ?_
  · have hb := h.fresh c hlt
    exact ⟨rfl, hb.refc, hb.linked, hb.handle, hb.type, hb.listenerContext⟩
  · have h2 := htot (Call.holds d) rfl
    have hat := attached_eq hctx hcount rfl Iff.rfl d
    have h1 := h.refc d
    simp only [Call.holds] at h2
    unfold Device.holders at h1 ⊢
    rw [(hsame d).1, (hsame d).2.2.1, (hsame d).2.2.2.1, hat, h1]
    omega
  · have h2 := htot (Call.frees d) rfl
    have h1 := h.freeing d
    simp only [Call.frees] at h2
    by_cases e : d = c
    · subst e
      rw [if_pos hz] at h1
      rw [hself]
      simp only [if_true, Bool.false_eq_true, false_and, if_false] at h2 ⊢
      omega
    · rw [if_neg (Ne.symm e)] at h2
      rw [hother d e, ← h1]
      omega
  · have h2 := htot (Call.unlinks d) rfl
    simp only [Call.unlinks] at h2
    rw [(hsame d).2.1] at hd
    rw [(hsame d).2.2.1, (hsame d).2.2.2.1, h.unlinks d hd]
    omega
  · have h2 := htot (Call.initialized d) rfl
    have h3 := h.sole d
    simp only [Call.initialized] at h2
    omega
  · have h2 := htot (Call.initialized d) rfl
    simp only [Call.initialized] at h2
    rw [(hsame d).2.2.2.2]
    exact h.idle d (by omega)
  · rw [hcalls] at hk'
    rcases List.mem_cons.mp hk' with rfl | hk'
    · exact .inr ⟨hok.frame hfr, fun d hn => h.named (.free c _) hk d hn,
        fun _ _ e => absurd e (isIrp_ne hirp)⟩
    · exact .inl (List.mem_of_mem_erase (List.mem_of_mem_filter hk'))
  · rw [(hsame d).2.2.2.1]
    exact e
  · rw [(hsame d).1]
    exact e

/-- The last handle is closed. -/
theorem Held.close (h : Held s) (hh : (s.ctx c).handle = true)
    (hnames : ∀ k ∈ s.calls, k.names c = false) :
    Held { s.set c { s.ctx c with handle := false } with
      calls := .cleanup c .start :: s.calls } := by
  have hfr : Frame s { s.set c { s.ctx c with handle := false } with
      calls := .cleanup c .start :: s.calls } :=
    frame_update rfl (.inl rfl) (fun _ e => e) fun _ => rfl
  have hc := h.ok c
  have hat := attached_eq (s := s) (t := { s.set c { s.ctx c with handle := false } with
      calls := .cleanup c .start :: s.calls }) (c := c) rfl rfl rfl Iff.rfl
  refine h.update rfl rfl rfl hfr (fun hlt => ?_)
    ⟨hc.attached, hc.stream, hc.listening, hc.connected, hc.linked, hc.alive⟩ (h.listeners c) (fun d => ?_)
    (fun d => ?_) (fun d hd => ?_) (fun d => ?_) (fun d hd => ?_) (fun k hk => ?_)
    (fun k hk d hn e => ?_) fun _ d _ _ e => ?_
  · exact absurd hh (by rw [(h.fresh c hlt).handle]; simp)
  · have h1 := h.refc d
    unfold Device.holders at h1 ⊢
    rw [hat, total_cons rfl]
    by_cases e : d = c
    · subst e
      simp [Device.set, Call.holds, hh, Device.total] at h1 ⊢
      omega
    · simp [Device.set, Call.holds, e, Ne.symm e, Device.total] at h1 ⊢
      omega
  · have h1 := h.freeing d
    rw [total_cons rfl]
    by_cases e : d = c
    · subst e
      simpa [Device.set, Call.frees, Device.total] using h1
    · simpa [Device.set, Call.frees, e, Device.total] using h1
  · rw [total_cons rfl]
    by_cases e : d = c
    · subst e
      have h1 := h.unlinks d (by simpa [Device.set] using hd)
      rw [if_pos hh] at h1
      simpa [Device.set, Call.unlinks, Device.total] using h1
    · have h1 := h.unlinks d (by simpa [Device.set, e] using hd)
      simpa [Device.set, Call.unlinks, e, Ne.symm e, Device.total] using h1
  · rw [total_cons rfl]
    simpa [Call.initialized] using h.sole d
  · rw [total_cons rfl] at hd
    have h1 := h.idle d (by simpa [Call.initialized] using hd)
    by_cases e : d = c
    · subst e
      simpa [Device.set] using h1
    · simpa [Device.set, e] using h1
  · rcases List.mem_cons.mp hk with rfl | hk
    · refine .inr ⟨⟨?_, fun e => absurd rfl e⟩, fun d hn => (by cases hn), fun _ _ e => (by cases e)⟩
      simp [Device.set]
    · exact .inl hk
  · have hdc : d ≠ c := by
      rintro rfl
      rcases List.mem_cons.mp hk with rfl | hk
      · cases hn
      · rw [hnames k hk] at hn
        cases hn
    simpa [Device.set, hdc] using e
  · by_cases ed : d = c
    · subst ed
      simpa [Device.set] using e
    · simpa [Device.set, ed] using e

/-- What a call says of contexts it does not know. -/
theorem Call.Ok.of_fresh {x : Ctx} (hb : Blank (s.ctx c)) (htype : x.type = .unspecified)
    (hctx : t.ctx = Function.update s.ctx c x) (hk : k.Ok s) (hholds : k.holds c = 0) : k.Ok t := by
  have hother : ∀ d, d ≠ c → t.ctx d = s.ctx d := fun d hd => by rw [hctx, update_of_ne hd]
  have htypes : ∀ d, (t.ctx d).type = (s.ctx d).type := by
    intro d
    by_cases e : d = c
    · subst e
      rw [hctx, update_self, htype, hb.type]
    · rw [hother d e]
  have hlis : ∀ a l, (s.ctx a).listenerContext = some l → (t.ctx a).listenerContext = some l := by
    intro a l e
    by_cases ea : a = c
    · subst ea
      rw [hb.listenerContext] at e
      cases e
    · rw [hother a ea]
      exact e
  have hset : ∀ d k, d ≠ c → Settled s d k → Settled t d k := by
    intro d k hd hs
    unfold Settled at hs ⊢
    rwa [hother d hd]
  have hne : ∀ d n, (if d = c then 1 else 0) + n = 0 → d ≠ c := by
    intro d n e hd
    rw [if_pos hd] at e
    omega
  induction k with
  | dispatch d pc => exact DispatchPc.Ok.congr (htypes d) hk
  | accept l a pc => exact ⟨(htypes l).trans hk.1, fun e => hlis a l (hk.2 e)⟩
  | pending l a | cancelled l a | complete _ l a _ => exact hlis a l hk
  | cleanup d pc =>
    have hd := hne d 0 hholds
    exact ⟨(by rw [hother d hd]; exact hk.1), fun e => (by rw [hother d hd]; exact hk.2 e)⟩
  | release d k ih =>
    have hd := hne d _ hholds
    refine ⟨hset d k hd hk.1, hk.2.1, ih hk.2.2 ?_⟩
    rw [Call.holds] at hholds
    omega
  | drop d val k ih =>
    have hd := hne d _ hholds
    refine ⟨hset d k hd hk.1, ?_, hk.2.2.1, ih hk.2.2.2 ?_⟩
    · rw [htypes]
      exact hk.2.1
    · rw [Call.holds] at hholds
      omega
  | free d k ih => exact ⟨hk.1, ih hk.2 hholds⟩
  | reader cs a => exact (htypes a).trans hk
  | done | doAccepts | irp | pass => trivial

/-- `V4vDispatchCreate` -/
theorem Held.create (h : Held s) (ht : s.step .create = some t) : Held t := by
  have hb := h.fresh s.count le_rfl
  simp only [Device.step, Option.some.injEq] at ht
  have hctx : t.ctx = Function.update s.ctx s.count
      ⟨true, 2, true, true, .unspecified, .uninitialized, none⟩ := by
    subst ht
    rfl
  have hcount : t.count = s.count + 1 := by
    subst ht
    rfl
  have hcalls : t.calls = s.calls := by
    subst ht
    rfl
  have htot : ∀ f, t.total f = s.total f := fun f => by rw [Device.total, hcalls]; rfl
  have hself : t.ctx s.count = ⟨true, 2, true, true, .unspecified, .uninitialized, none⟩ := by
    rw [hctx, update_self]
  have hother : ∀ d, d ≠ s.count → t.ctx d = s.ctx d := fun d hd => by
    rw [hctx, update_of_ne hd]
  have hatt : ∀ d, t.attached d = s.attached d := by
    intro d
    unfold Device.attached
    rw [hcount, Nat.count_succ, hself, if_neg (by simp), Nat.add_zero]
    refine count_congr fun a ha => ?_
    rw [hother a (by omega)]
  -- nobody knows the new context
  have hzero := h.refc s.count
  rw [hb.refc] at hzero
  unfold Device.holders at hzero
  have hnew : ∀ d, (s.ctx d).handle = true → d ≠ s.count := by
    rintro d hd rfl
    rw [hb.handle] at hd
    cases hd
  refine ⟨?_, fun d => ?_, fun d => ?_, fun d hd => ?_, fun d => ?_, fun a l e => ?_, fun d hd => ?_,
    fun d => (htot _).trans_le (h.sole d), fun d hd => ?_, fun k hk d hn => ?_, fun kind d hk hw => ?_,
    fun k hk => ?_⟩
  · subst ht
    exact h.fault
  · have h1 := h.refc d
    unfold Device.holders at h1 ⊢
    rw [htot, hatt]
    by_cases e : d = s.count
    · subst e
      rw [hself]
      simp only [if_true]
      omega
    · rw [hother d e]
      exact h1
  · rw [htot, h.freeing]
    by_cases e : d = s.count
    · subst e
      rw [hself, hb.alive]
      simp
    · rw [hother d e]
  · rw [hcount] at hd
    rw [hother d (by omega)]
    exact h.fresh d (by omega)
  · by_cases e : d = s.count
    · subst e
      rw [hself]
      exact ⟨by simp, by simp [streamType], by simp, by simp, by simp, by simp⟩
    · rw [hother d e]
      exact h.ok d
  · have hac : a ≠ s.count := by
      rintro rfl
      rw [hself] at e
      cases e
    rw [hother a hac] at e
    have hl := h.listeners a l e
    have hlc : l ≠ s.count := by
      rintro rfl
      rw [hb.type] at hl
      cases hl
    rw [hother l hlc]
    exact hl
  · rw [htot]
    by_cases e : d = s.count
    · subst e
      have h1 := h.unlinks s.count (by rw [hb.type]; simp)
      rw [hb.linked, hb.handle] at h1
      rw [hself]
      simp only [if_true]
      simp only [Bool.false_eq_true, if_false] at h1
      omega
    · rw [hother d e] at hd ⊢
      exact h.unlinks d hd
  · rw [htot] at hd
    rw [hother d (hnew d (h.handle_of_initialized hd))]
    exact h.idle d hd
  · rw [hcalls] at hk
    have hd := h.named k hk d hn
    rw [hother d (hnew d hd)]
    exact hd
  · rw [hcalls] at hk
    have hd := h.irps kind d hk hw
    have hdc : d ≠ s.count := by
      rintro rfl
      exact hd hb.refc
    rw [hother d hdc]
    exact hd
  · rw [hcalls] at hk
    refine (h.calls k hk).of_fresh hb rfl hctx ?_
    have := le_total (Call.holds s.count) hk
    omega

/-- `V4vGetAllContexts` -/
theorem Held.snapshot (h : Held s) :
    Held { s with
      ctx := fun c =>
        if c ∈ s.contextList then { s.ctx c with refc := (s.ctx c).refc + 1 } else s.ctx c
      calls := .pass s.contextList :: s.calls } := by
  generalize hu : ({ s with
      ctx := fun c =>
        if c ∈ s.contextList then { s.ctx c with refc := (s.ctx c).refc + 1 } else s.ctx c
      calls := .pass s.contextList :: s.calls } : Device) = u
  have hctx : ∀ d, u.ctx d = { s.ctx d with
      refc := (s.ctx d).refc + if d ∈ s.contextList then 1 else 0 } := by
    intro d
    subst hu
    by_cases e : d ∈ s.contextList
    · simp [e]
    · simp [e]
  have hcalls : u.calls = .pass s.contextList :: s.calls := by
    subst hu
    rfl
  have hcount : u.count = s.count := by
    subst hu
    rfl
  -- a context on the list has a reference for the link
  have hpos : ∀ d ∈ s.contextList, (s.ctx d).refc ≠ 0 := fun d hd =>
    h.pos_of_linked (by simpa using (List.mem_filter.mp hd).2)
  have hrefc : ∀ d, (u.ctx d).refc ≠ 0 ↔ (s.ctx d).refc ≠ 0 := by
    intro d
    rw [hctx]
    by_cases e : d ∈ s.contextList
    · simpa [e] using hpos d e
    · simp [e]
  have hfr : Frame s u := by
    refine ⟨fun d => .inl ?_, fun a l e => ?_, fun d e => ?_⟩
    · rw [hctx]
    · rw [hctx]
      exact e
    · rw [hctx]
      exact e
  have hnodup : s.contextList.Nodup := List.nodup_range.filter _
  refine ⟨?_, fun d => ?_, fun d => ?_, fun d hd => ?_, fun d => ?_, fun a l e => ?_, fun d hd => ?_,
    fun d => ?_, fun d hd => ?_, fun k hk d hn => ?_, fun kind d hk hw => ?_, fun k hk => ?_⟩
  · subst hu
    exact h.fault
  · have hat : u.attached d = s.attached d := by
      unfold Device.attached
      rw [hcount]
      refine count_congr fun a _ => ?_
      rw [hrefc, hctx]
    have h1 := h.refc d
    unfold Device.holders at h1 ⊢
    rw [hat, total_cons hcalls, Call.holds, hnodup.count, hctx]
    simp only
    omega
  · rw [total_cons hcalls, Call.frees, Nat.zero_add, h.freeing]
    have hz : (u.ctx d).refc = 0 ↔ (s.ctx d).refc = 0 := not_iff_not.mp (hrefc d)
    have hal : (u.ctx d).alive = (s.ctx d).alive := by rw [hctx]
    simp only [hal, hz]
  · rw [hcount] at hd
    have hb := h.fresh d hd
    rw [hctx]
    refine ⟨hb.alive, ?_, hb.linked, hb.handle, hb.type, hb.listenerContext⟩
    by_contra e
    rw [← hctx] at e
    exact (hrefc d).mp e hb.refc
  · have hd := h.ok d
    have hr := hrefc d
    rw [hctx] at hr ⊢
    exact ⟨hd.attached, hd.stream, hd.listening, hd.connected, fun e e' => hd.linked e (hr.mp e'),
      fun e => hd.alive (hr.mp e)⟩
  · rw [hctx] at e
    exact hfr.keeps_listener (h.listeners a l e)
  · rw [total_cons hcalls, Call.unlinks, Nat.zero_add, hctx]
    exact h.unlinks d fun e => hd (hfr.keeps_listener e)
  · rw [total_cons hcalls, Call.initialized, Nat.zero_add]
    exact h.sole d
  · rw [total_cons hcalls, Call.initialized, Nat.zero_add] at hd
    rw [hctx]
    exact h.idle d hd
  · rw [hctx]
    rw [hcalls] at hk
    rcases List.mem_cons.mp hk with rfl | hk
    · cases hn
    · exact h.named k hk d hn
  · rw [hrefc]
    rw [hcalls] at hk
    rcases List.mem_cons.mp hk with hk | hk
    · cases hk
    · exact h.irps kind d hk hw
  · rw [hcalls] at hk
    rcases List.mem_cons.mp hk with rfl | hk
    · trivial
    · exact (h.calls k hk).frame hfr

/-- `V4vDoAccepts` takes an accept IRP. -/
theorem Held.take {o : Option (List Nat)} (h : Held s) (ho : k.origin l = some o) (hk : k ∈ s.calls)
    (hp : .pending l a ∈ s.calls) :
    Held { s with
      calls := .complete o l a .release :: (s.calls.erase k).erase (.pending l a) } := by
  have hok : (s.ctx a).listenerContext = some l := h.calls _ hp
  -- the call that takes it holds the snapshot of its pass
  have hkind : k = .doAccepts l ∧ o = none ∨ ∃ cs, k = .pass cs ∧ o = some cs := by
    cases k with
    | doAccepts l' =>
      simp only [Call.origin, Option.ite_none_right_eq_some, Option.some.injEq] at ho
      obtain ⟨rfl, rfl⟩ := ho
      exact .inl ⟨rfl, rfl⟩
    | pass cs =>
      simp only [Call.origin, Option.ite_none_right_eq_some, Option.some.injEq] at ho
      obtain ⟨-, rfl⟩ := ho
      exact .inr ⟨cs, rfl, rfl⟩
    | _ => cases ho
  have hne : Call.pending l a ≠ k := by
    rcases hkind with ⟨rfl, -⟩ | ⟨cs, rfl, -⟩ <;> simp
  have hsum : ∀ f : Call → Nat, f (.complete o l a .release) = f k + f (.pending l a) →
      ((Call.complete o l a .release :: (s.calls.erase k).erase (.pending l a)).map f).sum =
        (s.calls.map f).sum := by
    intro f hf
    have h1 := total_erase f hk
    have h2 := List.sum_map_erase f ((List.mem_erase_of_ne hne).mpr hp)
    rw [List.map_cons, List.sum_cons, hf]
    change _ = s.total f
    omega
  refine h.recall ⟨fun d => hsum _ ?_, fun d => hsum _ ?_, fun d => hsum _ ?_, fun d => hsum _ ?_⟩
    fun k' hk' => ?_
  · rcases hkind with ⟨rfl, rfl⟩ | ⟨cs, rfl, rfl⟩ <;> simp [Call.holds]
  · rcases hkind with ⟨rfl, rfl⟩ | ⟨cs, rfl, rfl⟩ <;> rfl
  · rcases hkind with ⟨rfl, rfl⟩ | ⟨cs, rfl, rfl⟩ <;> rfl
  · rcases hkind with ⟨rfl, rfl⟩ | ⟨cs, rfl, rfl⟩ <;> rfl
  · rcases List.mem_cons.mp hk' with rfl | hk'
    · refine .inr ⟨hok, fun d hn => ?_, fun _ _ e => by cases e⟩
      simp only [Call.names, Bool.or_eq_true, beq_iff_eq, Bool.and_eq_true] at hn
      rcases hn with rfl | ⟨hn, rfl⟩
      · exact h.named _ hp a (by simp [Call.names])
      · rcases hkind with ⟨rfl, -⟩ | ⟨cs, -, rfl⟩
        · exact h.named _ hk l (by simp [Call.names])
        · cases hn
    · exact .inl (List.mem_of_mem_erase (List.mem_of_mem_erase hk'))

/-- `V4vCtrlAccept` makes the accepter IDLE. -/
theorem Held.initializeAccepter (h : Held s) (hk : .accept l a .initializeFile ∈ s.calls)
    (hun : Uninitialized s a) (hzero : ∀ k ∈ s.calls, k.initialized a = 0) :
    Held ((s.setState a .idle).put (.accept l a .initializeFile)
      [.accept l a .addRefListener]) := by
  have htot : ∀ f : Call → Nat, ((s.setState a .idle).put (.accept l a .initializeFile)
      [.accept l a .addRefListener]).total f + f (.accept l a .initializeFile) =
        s.total f + f (.accept l a .addRefListener) := by
    intro f
    have := total_put (f := f) (t := (s.setState a .idle).put (.accept l a .initializeFile)
      [.accept l a .addRefListener]) hk rfl
    simpa using this
  have hz : s.total (Call.initialized a) = 0 := by
    by_contra e
    obtain ⟨k, hk, hne⟩ := exists_of_total e
    exact hne (hzero k hk)
  have hc := h.ok a
  have hstream := hc.not_stream hun
  have hnl := (hc.unattached hstream).1
  refine h.quiet (c := a) rfl rfl rfl ⟨hc.attached, fun hs => ?_, by simp, by simp, hc.linked, hc.alive⟩
    (.inl rfl) (fun d => ?_) (fun d => ?_) (fun d _ => ?_) (fun d => ?_) (fun d hne => ?_)
    fun k' hk' => ?_
  · rw [hstream] at hs
    cases hs
  · simpa [Call.holds] using htot (Call.holds d)
  · simpa [Call.frees] using htot (Call.frees d)
  · simpa [Call.unlinks] using htot (Call.unlinks d)
  · have h1 := htot (Call.initialized d)
    have h2 := h.sole d
    by_cases e : a = d
    · subst e
      simp [Call.initialized] at h1
      omega
    · simp [Call.initialized, e] at h1
      omega
  · have h1 := htot (Call.initialized d)
    by_cases e : a = d
    · subst e
      simp [Device.put, Device.setState, Device.set]
    · simp only [Call.initialized, e, false_and, if_false, Nat.add_zero] at h1
      rw [h1] at hne
      simpa [Device.put, Device.setState, Device.set, Ne.symm e] using h.idle d hne
  · rcases List.mem_append.mp hk' with hk' | hk'
    · rw [List.mem_singleton.mp hk']
      refine .inr ⟨⟨?_, fun e => by cases e⟩, fun d hn => h.named _ hk d hn, fun _ _ e => by cases e⟩
      have hl : (s.ctx l).type = .listener := (h.calls _ hk).1
      have hne : l ≠ a := by
        rintro rfl
        exact hnl hl
      simpa [Device.put, Device.setState, Device.set, hne] using hl
    · exact .inl (List.mem_of_mem_erase hk')

/-- `V4vDispatchCleanup` of a listener: the list link stays for the accepters. -/
theorem Held.passive (h : Held s) (hk : .cleanup c .start ∈ s.calls)
    (htype : (s.ctx c).type = .listener) :
    Held ((s.setState c .passive).put (.cleanup c .start) [.release c .done]) := by
  have htot : ∀ f : Call → Nat, ((s.setState c .passive).put (.cleanup c .start)
      [.release c .done]).total f + f (.cleanup c .start) = s.total f + f (.release c .done) := by
    intro f
    have := total_put (f := f) (t := (s.setState c .passive).put (.cleanup c .start)
      [.release c .done]) hk rfl
    simpa using this
  have hc := h.ok c
  have hinit : ∀ d, ((s.setState c .passive).put (.cleanup c .start) [.release c .done]).total
      (Call.initialized d) = s.total (Call.initialized d) := fun d => by
    simpa [Call.initialized] using htot (Call.initialized d)
  refine h.quiet (c := c) rfl rfl rfl ⟨hc.attached, by simp, by simp, by simp, hc.linked, hc.alive⟩
    (.inl rfl) (fun d => ?_) (fun d => ?_) (fun d hd => ?_) (fun d => ?_) (fun d hne => ?_)
    fun k' hk' => ?_
  · simpa [Call.holds] using htot (Call.holds d)
  · simpa [Call.frees] using htot (Call.frees d)
  · have hdc : c ≠ d := by
      rintro rfl
      exact hd htype
    simpa [Call.unlinks, hdc] using htot (Call.unlinks d)
  · exact (hinit d).trans_le (h.sole d)
  · rw [hinit] at hne
    have hdc : d ≠ c := by
      rintro rfl
      exact ((h.ok d).unattached ((h.ok d).not_stream (.inr (h.idle d hne)))).1 htype
    simpa [Device.put, Device.setState, Device.set, hdc] using h.idle d hne
  · rcases List.mem_append.mp hk' with hk' | hk'
    · rw [List.mem_singleton.mp hk']
      refine .inr ⟨⟨.inr (.inl ?_), rfl, trivial⟩, fun d hn => (by cases hn), fun _ _ e => by cases e⟩
      simpa [Device.put, Device.setState, Device.set] using htype
    · exact .inl (List.mem_of_mem_erase hk')

end Special

/-! ## One step -/

section Steps

variable {s t u : Device} {k k' : Call} {c a l : Nat} {ok : Bool}

theorem touch_live (h : s.live c = true) : s.touch c u = some u := by
  unfold Device.touch
  rw [if_pos h]

theorem touch_some (h : s.live c = true) (ht : s.touch c u = some t) : u = t :=
  Option.some.inj ((touch_live h).symm.trans ht)

/-- A call that goes on as one that names no more and is no IRP. -/
theorem New.of_mem (h : Held s) (hk : k ∈ s.calls) (hok : k'.Ok t)
    (hnames : ∀ d, k'.names d = true → k.names d = true) (hirp : k'.isIrp = false) : New s t k' :=
  ⟨hok, fun d hn => h.named k hk d (hnames d hn), fun _ _ e => absurd e (isIrp_ne hirp)⟩

theorem Held.put_one (h : Held s) (hk : k ∈ s.calls) (hbal : Balanced [k] [k']) (hok : k'.Ok s)
    (hnames : ∀ d, k'.names d = true → k.names d = true) (hirp : k'.isIrp = false) :
    Held (s.put k [k']) := by
  refine h.put hk hbal fun k₁ hk₁ => ?_
  rw [List.mem_singleton.mp hk₁]
  exact .of_mem h hk hok hnames hirp

theorem Held.setState_one {state : CtxState} (h : Held s) (hk : k ∈ s.calls)
    (hbal : Balanced [k] [k'])
    (hstream : streamType (s.ctx c).type = true → state ≠ .uninitialized ∧ state ≠ .idle)
    (hlist : state = .listening → (s.ctx c).type = .listener)
    (hconn : state = .connected ∨ state = .accepted → streamType (s.ctx c).type = true)
    (hidle : s.total (Call.initialized c) ≠ 0 → state = .idle) (hok : k'.Ok s)
    (hnames : ∀ d, k'.names d = true → k.names d = true) (hirp : k'.isIrp = false) :
    Held ((s.setState c state).put k [k']) := by
  refine h.setState c state hk hbal hstream hlist hconn hidle fun k₁ hk₁ => ?_
  rw [List.mem_singleton.mp hk₁]
  have hfr : Frame s (s.setState c state) := frame_update rfl (.inl rfl) (fun _ e => e) fun e => e
  exact .of_mem h hk (hok.frame hfr) hnames hirp

/-- The accepter of an accept IRP has its type for good. -/
theorem Held.accepter (h : Held s) (ha : (s.ctx a).listenerContext = some l) :
    (s.ctx a).type = .accepter :=
  (h.ok a).attached.mp (by rw [ha]; simp)

theorem Held.not_initialized (h : Held s) (hs : streamType (s.ctx c).type = true) :
    s.total (Call.initialized c) = 0 := by
  by_contra e
  exact ((h.ok c).stream hs).2 (h.idle c e)

/-- `V4vCtrlAccept` -/
theorem Held.runAccept {pc : AcceptPc} (h : Held s) (hk : .accept l a pc ∈ s.calls)
    (hcare : CarefulCall s ok (.accept l a pc)) (ht : s.runCall ok (.accept l a pc) = some t) :
    Held t := by
  obtain ⟨hl, hins⟩ := h.calls _ hk
  have hlh := h.named _ hk l (by simp [Call.names])
  cases pc with
  | lookup =>
    cases ht
    by_cases hh : (s.ctx a).handle = true
    · rw [if_pos hh]
      refine h.put hk ?_ fun k' hk' => ?_
      · constructor <;> intro d <;> simp
      · rw [List.mem_singleton.mp hk']
        refine ⟨⟨hl, fun e => by cases e⟩, fun d hn => ?_, fun _ _ e => by cases e⟩
        simp only [Call.names, Bool.or_eq_true, beq_iff_eq, Bool.and_eq_true] at hn
        rcases hn with rfl | ⟨rfl, -⟩
        · exact hlh
        · exact hh
    · rw [if_neg hh]
      refine h.put_one hk ?_ trivial (fun d hn => by cases hn) rfl
      constructor <;> intro d <;> simp
  | addRef =>
    have hah := h.named _ hk a (by simp [Call.names])
    obtain rfl := touch_some (h.live (h.pos_of_handle hah)) ht
    refine h.addRef a hk (h.pos_of_handle hah) (fun d => ?_) (fun _ => rfl) (fun _ => rfl)
      (fun d => ?_) fun k' hk' => ?_
    · simp [Call.holds, eq_comm]
    · simp [Call.initialized]
    · rw [List.mem_singleton.mp hk']
      refine .of_mem h hk ⟨?_, fun e => by cases e⟩ (fun d hn => hn) rfl
      exact (frame_update rfl (.inl rfl) (fun _ e => e) fun e => e : Frame s (s.addRef a)).keeps_listener hl
  | initializeFile =>
    have hah := h.named _ hk a (by simp [Call.names])
    obtain rfl := touch_some (h.live (h.pos_of_handle hah)) ht
    cases ok with
    | true =>
      obtain ⟨hun, hzero⟩ := hcare rfl
      exact h.initializeAccepter hk hun hzero
    | false =>
      refine h.put_one hk ?_ ⟨.inr (.inr (.inr ?_)), rfl, hl, fun e => by cases e⟩ (fun d hn => hn) rfl
      · constructor <;> intro d <;> simp
      · simp [Call.names]
  | addRefListener =>
    obtain rfl := touch_some (h.live (h.pos_of_handle hlh)) ht
    refine h.addRef l hk (h.pos_of_handle hlh) (fun d => ?_) (fun _ => rfl) (fun _ => rfl)
      (fun d => ?_) fun k' hk' => ?_
    · simp [Call.holds, eq_comm]
    · simp [Call.initialized]
    · rw [List.mem_singleton.mp hk']
      refine .of_mem h hk ⟨?_, fun e => by cases e⟩ (fun d hn => hn) rfl
      exact (frame_update rfl (.inl rfl) (fun _ e => e) fun e => e : Frame s (s.addRef l)).keeps_listener hl
  | attach =>
    have hah := h.named _ hk a (by simp [Call.names])
    obtain rfl := touch_some (h.live (h.pos_of_handle hah)) ht
    exact h.attach hk
  | insert =>
    cases ht
    have hins' : ok = true := hcare
    rw [if_pos hins']
    refine h.put hk ?_ fun k' hk' => ?_
    · constructor <;> intro d <;> simp
    · simp only [List.mem_cons, List.not_mem_nil, or_false] at hk'
      rcases hk' with rfl | rfl
      · exact .of_mem h hk (hins rfl) (fun d hn => by simp_all [Call.names]) rfl
      · exact .of_mem h hk trivial (fun d hn => by simp_all [Call.names]) rfl
  | failed =>
    cases ht
    refine h.put_one hk ?_ trivial (fun d hn => by cases hn) rfl
    constructor <;> intro d <;> simp

/-- `V4vDoAccepts` with an accept IRP. -/
theorem Held.runComplete {o : Option (List Nat)} {pc : CompletePc} (h : Held s)
    (hk : .complete o l a pc ∈ s.calls) (ht : s.runCall ok (.complete o l a pc) = some t) :
    Held t := by
  have hl : (s.ctx a).listenerContext = some l := h.calls _ hk
  have hacc := h.accepter hl
  have hah := h.named _ hk a (by simp [Call.names])
  have hlive := h.live (h.pos_of_handle hah)
  have hinit := h.not_initialized (c := a) (by rw [hacc]; rfl)
  cases pc with
  | release =>
    simp only [Device.runCall] at ht
    rw [if_pos (h.live (h.pos_of_attached (h.pos_of_handle hah) hl)),
      touch_live hlive] at ht
    cases ht
    refine h.put_one hk ?_ ⟨.inl hacc, rfl, hl⟩ (fun d hn => hn) rfl
    constructor <;> intro d <;> simp [Nat.add_comm]
  | state =>
    obtain rfl := touch_some hlive ht
    refine h.setState_one hk ?_ (by simp) (by simp) (fun _ => by rw [hacc]; rfl)
      (fun e => absurd hinit e) hl (fun d hn => hn) rfl
    constructor <;> intro d <;> simp
  | acknowledge =>
    obtain rfl := touch_some hlive ht
    have hbal : Balanced [.complete o l a .acknowledge] [.back o l] := by
      constructor <;> intro d <;> cases o <;>
        simp [Call.back, Call.holds, Call.frees, Call.unlinks, Call.initialized]
    have hok : (Call.back o l).Ok s := by cases o <;> trivial
    have hnames : ∀ d, (Call.back o l).names d = true →
        (Call.complete o l a .acknowledge).names d = true := by
      intro d hn
      cases o with
      | none => simp_all [Call.back, Call.names]
      | some cs => cases hn
    have hirp : (Call.back o l).isIrp = false := by cases o <;> rfl
    cases ok with
    | true => exact h.put_one hk hbal hok hnames hirp
    | false =>
      exact h.setState_one hk hbal (by simp) (by simp) (by simp) (fun e => absurd hinit e) hok hnames
        hirp

/-- `V4vDispatchCleanup` -/
theorem Held.runCleanup {pc : CleanupPc} (h : Held s) (hk : .cleanup c pc ∈ s.calls)
    (ht : s.runCall ok (.cleanup c pc) = some t) : Held t := by
  obtain ⟨hh, htype⟩ := h.calls _ hk
  have hpos : (s.ctx c).refc ≠ 0 := h.pos_of_holds hk (by simp [Call.holds])
  cases pc with
  | start =>
    obtain rfl := touch_some (h.live hpos) ht
    by_cases hl : (s.ctx c).type = .listener
    · rw [if_pos hl]
      exact h.passive hk hl
    · rw [if_neg hl]
      have hinit : s.total (Call.initialized c) = 0 := by
        by_contra e
        rw [h.handle_of_initialized e] at hh
        cases hh
      refine h.setState_one hk ?_ (by simp) (by simp) (by simp) (fun e => absurd hinit e)
        ⟨hh, fun _ => hl⟩ (fun d hn => hn) rfl
      constructor <;> intro d <;> simp
  | unlink => exact h.unlink hk ht
  | handle =>
    cases ht
    refine h.put_one hk ?_ ⟨.inr (.inr (.inl hh)), rfl, trivial⟩ (fun d hn => hn) rfl
    constructor <;> intro d <;> simp

@[simp]
theorem setType_type {type : CtxType} : ((s.setType c type).ctx c).type = type := by
  simp only [Device.setType, Device.set, update_self]

/-- How a dispatch routine on `c` goes on. -/
inductive Goes (s : Device) (c : Nat) : Call → Prop where
  | done : Goes s c .done
  | dispatch {pc : DispatchPc} (hok : pc.Ok s c) : Goes s c (.dispatch c pc)

theorem Goes.ite {pc : DispatchPc} (p : Prop) [Decidable p] (hok : p → pc.Ok s c) :
    Goes s c (if p then .dispatch c pc else .done) := by
  split
  · next hp => exact .dispatch (hok hp)
  · exact .done

/-- It holds and frees nothing. -/
theorem Goes.balanced {pc : DispatchPc} (h : Goes s c k) : Balanced [.dispatch c pc] [k] := by
  cases h <;> constructor <;> intro d <;> simp

theorem Goes.callOk (h : Goes s c k) : k.Ok s := by
  cases h with
  | done => trivial
  | dispatch hok => exact hok

theorem Goes.names {pc : DispatchPc} (h : Goes s c k) (d : Nat) (hn : k.names d = true) :
    (Call.dispatch c pc).names d = true := by
  cases h with
  | done => cases hn
  | dispatch _ => exact hn

theorem Goes.isIrp (h : Goes s c k) : k.isIrp = false := by
  cases h <;> rfl

theorem Held.dispatchGo {pc : DispatchPc} (h : Held s) (hk : .dispatch c pc ∈ s.calls)
    (hg : Goes s c k) : Held (s.put (.dispatch c pc) [k]) :=
  h.put_one hk hg.balanced hg.callOk hg.names hg.isIrp

/-- A dispatch routine stores the state of its file. -/
theorem Held.dispatchState {pc : DispatchPc} {state : CtxState} (h : Held s)
    (hk : .dispatch c pc ∈ s.calls) (hg : Goes s c k)
    (hstream : streamType (s.ctx c).type = true → state ≠ .uninitialized ∧ state ≠ .idle)
    (hlist : state = .listening → (s.ctx c).type = .listener)
    (hconn : state ≠ .connected ∧ state ≠ .accepted)
    (hidle : s.total (Call.initialized c) ≠ 0 → state = .idle) :
    Held ((s.setState c state).put (.dispatch c pc) [k]) := by
  refine h.setState_one hk hg.balanced hstream hlist ?_ hidle hg.callOk hg.names hg.isIrp
  rintro (e | e)
  · exact absurd e hconn.1
  · exact absurd e hconn.2

/-- A dispatch routine of a stream stores a later state. -/
theorem Held.dispatchStream {pc : DispatchPc} {state : CtxState} (h : Held s)
    (hk : .dispatch c pc ∈ s.calls) (hg : Goes s c k) (htype : streamType (s.ctx c).type = true)
    (hlist : state = .listening → (s.ctx c).type = .listener)
    (hlate : state ≠ .uninitialized ∧ state ≠ .idle)
    (hconn : state ≠ .connected ∧ state ≠ .accepted) :
    Held ((s.setState c state).put (.dispatch c pc) [k]) :=
  h.dispatchState hk hg (fun _ => hlate) hlist hconn fun e => absurd (h.not_initialized htype) e

/-- A dispatch routine stores the type of a file that has no role yet. -/
theorem Held.dispatchType {pc pc' : DispatchPc} {type : CtxType} (h : Held s)
    (hk : .dispatch c pc ∈ s.calls) (hfrom : streamType (s.ctx c).type = false)
    (hto : type ≠ .accepter)
    (hstate : (s.ctx c).state = .bound ∨ (s.ctx c).state = .idle ∧ streamType type = false)
    (hok : pc'.Ok (s.setType c type) c) :
    Held ((s.setType c type).put (.dispatch c pc) [.dispatch c pc']) := by
  have hc := h.ok c
  have hh := h.named _ hk c (by simp [Call.names])
  have hnone := (hc.unattached hfrom).2.2
  have hbal : Balanced [.dispatch c pc] [.dispatch c pc'] := (Goes.dispatch hok).balanced
  refine h.store (hbal.put hk)
    ⟨⟨fun e => absurd hnone e, fun e => absurd e hto⟩, fun hs => ?_, fun e => ?_, fun e => ?_,
      fun _ _ => h.linked_of_handle hh, hc.alive⟩ (.inr ⟨hh, hfrom⟩) (h.idle c) fun k hk' => ?_
  · rcases hstate with e | ⟨-, e⟩
    · simp only at hs ⊢
      simp [e]
    · rw [e] at hs
      cases hs
  · rcases hstate with e' | ⟨e', -⟩ <;> simp [e'] at e
  · rcases hstate with e' | ⟨e', -⟩ <;> simp [e'] at e
  · rcases List.mem_append.mp hk' with hk' | hk'
    · rw [List.mem_singleton.mp hk']
      exact .inr ⟨hok.congr rfl, fun d hn => h.named _ hk d hn, fun _ _ e => by cases e⟩
    · exact .inl (List.mem_of_mem_erase hk')

/-- An IRP of the file is queued. -/
theorem Held.dispatchQueue {pc : DispatchPc} {kind : IrpKind} (h : Held s)
    (hk : .dispatch c pc ∈ s.calls) :
    Held (s.queue (.dispatch c pc) kind c (.dispatch c .process)) := by
  have hh := h.named _ hk c (by simp [Call.names])
  refine h.put hk ?_ fun k hk' => ?_
  · constructor <;> intro d <;> simp
  · simp only [List.mem_cons, List.not_mem_nil, or_false] at hk'
    rcases hk' with rfl | rfl
    · refine ⟨trivial, fun d hn => (by cases hn), fun _ d e _ => ?_⟩
      cases e
      exact h.pos_of_handle hh
    · exact .of_mem h hk trivial (fun d hn => hn) rfl

theorem Held.startDispatch {pc : DispatchPc} (h : Held s) (hh : (s.ctx c).handle = true)
    (he : pc.entry = true) : Held { s with calls := .dispatch c pc :: s.calls } := by
  refine h.recall ?_ fun k hk => ?_
  · constructor <;> intro d <;> simp
  · rcases List.mem_cons.mp hk with rfl | hk
    · refine .inr ⟨?_, fun d hn => ?_, fun _ _ e => by cases e⟩
      · cases pc <;> trivial
      · have hd : c = d := by simpa [Call.names] using hn
        exact hd ▸ hh
    · exact .inl hk

/-- `V4vCtrlAccept` has found its file LISTENING. -/
theorem Held.startAccept (h : Held s) (hk : .dispatch l (.acceptCheck a) ∈ s.calls)
    (hst : (s.ctx l).state = .listening) :
    Held (s.put (.dispatch l (.acceptCheck a)) [.accept l a .lookup]) := by
  refine h.put_one hk ?_ ⟨(h.ok l).listening hst, fun e => by cases e⟩ (fun d hn => ?_) rfl
  · constructor <;> intro d <;> simp
  · simpa [Call.names] using hn

/-- The next step of a dispatch routine. -/
theorem Held.runDispatch {pc : DispatchPc} (h : Held s) (hk : .dispatch c pc ∈ s.calls)
    (hcare : CarefulDispatch s ok c pc)
    (ht : s.runDispatch ok (.dispatch c pc) c pc = some t) : Held t := by
  have hh := h.named _ hk c (by simp [Call.names])
  have hlive := h.live (h.pos_of_handle hh)
  have hok : pc.Ok s c := h.calls _ hk
  cases pc with
  | initializeFile =>
    obtain rfl := touch_some hlive ht
    cases ok with
    | true =>
      have hnot := (h.ok c).not_stream (hcare rfl)
      refine h.dispatchState hk .done (fun hs => ?_) (by simp) (by simp) (fun _ => rfl)
      rw [hnot] at hs
      cases hs
    | false => exact h.dispatchGo hk .done
  | bindCheck | listenCheck | connectCheck | waitCheck =>
    obtain rfl := touch_some hlive ht
    exact h.dispatchGo hk (.ite _ fun _ => trivial)
  | disconnectCheck =>
    obtain rfl := touch_some hlive ht
    exact h.dispatchGo hk (.ite _ fun hst => (h.ok c).connected hst)
  | bindType =>
    obtain rfl := touch_some hlive ht
    cases ok with
    | true =>
      have hidle := hcare rfl
      exact h.dispatchType hk ((h.ok c).not_stream (.inr hidle)) (by simp) (.inr ⟨hidle, rfl⟩) trivial
    | false => exact h.dispatchGo hk .done
  | bindState =>
    obtain rfl := touch_some hlive ht
    obtain ⟨-, hzero⟩ := hcare
    refine h.dispatchState hk .done (by simp) (by simp) (by simp) fun e => ?_
    obtain ⟨k, hk, hne⟩ := exists_of_total e
    exact absurd (hzero k hk) hne
  | listenType =>
    obtain rfl := touch_some hlive ht
    cases ok with
    | true =>
      obtain ⟨hbound, hfrom⟩ := hcare rfl
      exact h.dispatchType hk hfrom (by simp) (.inl hbound) setType_type
    | false => exact h.dispatchGo hk .done
  | connectType | waitType =>
    obtain rfl := touch_some hlive ht
    exact h.dispatchType hk hcare.2 (by simp) (.inl hcare.1) setType_type
  | listenState =>
    obtain rfl := touch_some hlive ht
    have htype : (s.ctx c).type = .listener := hok
    exact h.dispatchStream hk .done (by rw [htype]; rfl) (fun _ => htype) (by simp) (by simp)
  | connectState | waitState =>
    obtain rfl := touch_some hlive ht
    have htype : (s.ctx c).type = .connector := hok
    exact h.dispatchStream hk (.dispatch hok) (by rw [htype]; rfl) (by simp) (by simp) (by simp)
  | connectInsert | waitInsert =>
    have htype : (s.ctx c).type = .connector := hok
    simp only [Device.runDispatch] at ht
    split at ht
    · cases ht
      exact h.dispatchQueue hk
    · obtain rfl := touch_some hlive ht
      exact h.dispatchStream hk .done (by rw [htype]; rfl) (by simp) (by simp) (by simp)
  | disconnectState =>
    obtain rfl := touch_some hlive ht
    exact h.dispatchStream hk .done hok (by simp) (by simp) (by simp)
  | acceptCheck a =>
    obtain rfl := touch_some hlive ht
    split
    · next hst => exact h.startAccept hk hst
    · exact h.dispatchGo hk .done
  | pend kind =>
    obtain rfl := touch_some hlive ht
    exact h.dispatchGo hk (.ite _ fun _ => trivial)
  | insert kind =>
    simp only [Device.runDispatch, Option.some.injEq] at ht
    subst ht
    split
    · exact h.dispatchQueue hk
    · exact h.dispatchGo hk .done
  | process =>
    obtain rfl := touch_some hlive ht
    exact h.dispatchGo hk .done

/-- The next step of a call. -/
theorem Held.runCall (h : Held s) (hk : k ∈ s.calls) (hcare : CarefulCall s ok k)
    (ht : s.runCall ok k = some t) : Held t := by
  have hok := h.calls k hk
  cases k with
  | done | irp kind c => cases ht
  | dispatch c pc => exact h.runDispatch hk hcare ht
  | accept l a pc => exact h.runAccept hk hcare ht
  | complete o l a pc => exact h.runComplete hk ht
  | cleanup c pc => exact h.runCleanup hk ht
  | pending l a =>
    cases ht
    refine h.put_one hk ?_ hok (fun d hn => hn) rfl
    constructor <;> intro d <;> simp
  | cancelled l a =>
    have hpos : (s.ctx a).refc ≠ 0 := h.pos_of_holds hk (by simp [Call.holds])
    have hacc : (s.ctx a).state = .accepting := hcare
    simp only [Device.runCall] at ht
    rw [if_pos (h.live (h.pos_of_attached hpos hok)), touch_live (h.live hpos),
      if_pos hacc] at ht
    cases ht
    refine h.put_one hk ?_ ⟨.inl (h.accepter hok), rfl, trivial⟩ (fun d hn => by cases hn) rfl
    constructor <;> intro d <;> simp
  | doAccepts l =>
    have hlh := h.named _ hk l (by simp [Call.names])
    obtain rfl := touch_some (h.live (h.pos_of_handle hlh)) ht
    refine h.put_one hk ?_ trivial (fun d hn => by cases hn) rfl
    constructor <;> intro d <;> simp
  | release c k' =>
    obtain ⟨hs, hirp, hok'⟩ := hok
    have hpos : (s.ctx c).refc ≠ 0 := h.pos_of_holds hk (by simp [Call.holds])
    obtain rfl := touch_some (h.live hpos) ht
    refine h.put_one hk ?_ ⟨hs, .inl rfl, hirp, hok'⟩ (fun d hn => hn) rfl
    constructor <;> intro d <;> simp
  | drop c val k' =>
    obtain ⟨-, hval, hirp, hok'⟩ := hok
    exact h.dropRef hk (gives_drop hirp) hok' hval hcare ht
  | free c k' => exact h.free hk ht
  | pass cs =>
    cases cs with
    | nil =>
      cases ht
      refine h.put_one hk ?_ trivial (fun d hn => by cases hn) rfl
      constructor <;> intro d <;> simp
    | cons c cs => exact h.dropRef hk (gives_pass c cs) trivial (.inl rfl) hcare ht
  | reader cs a =>
    have hpos : (s.ctx a).refc ≠ 0 := h.pos_of_holds hk (by simp [Call.holds])
    obtain rfl := touch_some (h.live hpos) ht
    refine h.put_one hk ?_ ⟨.inl hok, rfl, trivial⟩ (fun d hn => hn) rfl
    constructor <;> intro d <;> simp [Nat.add_comm]

/-- Whoever works on a context keeps it. -/
theorem Held.pos_of_uses (h : Held s) (hu : s.uses c k = true) : (s.ctx c).refc ≠ 0 := by
  simp only [Device.uses, Bool.and_eq_true, decide_eq_true_eq] at hu
  obtain ⟨hk, hw⟩ := hu
  cases k with
  | dispatch d pc => exact h.pos_of_handle (h.named _ hk c hw)
  | complete o l a pc =>
    cases pc with
    | acknowledge =>
      have ha : a = c := by simpa [Call.worksOn] using hw
      exact h.pos_of_handle (h.named _ hk c (by simp [Call.names, ha]))
    | release | state => cases hw
  | pass cs =>
    refine h.pos_of_holds hk ?_
    have hmem : c ∈ cs := by simpa [Call.worksOn] using hw
    simpa [Call.holds, List.count_eq_zero] using hmem
  | reader cs a =>
    refine h.pos_of_holds hk ?_
    have hmem : c ∈ cs ∨ a = c := by simpa [Call.worksOn] using hw
    rcases hmem with hmem | rfl
    · have : cs.count c ≠ 0 := by simpa [List.count_eq_zero] using hmem
      simp only [Call.holds]
      omega
    · simp [Call.holds]
  | irp kind d =>
    cases kind with
    | sending =>
      have hd : d = c := by simpa [Call.worksOn] using hw
      exact h.irps .sending c (hd ▸ hk) (by simp)
    | read | write => cases hw
  | _ => cases hw

/-- A step of the device that is careful keeps the counts right. -/
theorem Held.step {act : Act} (h : Held s) (hcare : Careful s act) (ht : s.step act = some t) :
    Held t := by
  cases act with
  | create => exact h.create ht
  | run k ok =>
    obtain ⟨hk, ht⟩ := Option.ite_none_right_eq_some.mp ht
    exact h.runCall hk hcare ht
  | dispatch c pc =>
    obtain ⟨hc, ht⟩ := Option.ite_none_right_eq_some.mp ht
    cases ht
    exact h.startDispatch hc.1 hc.2
  | turn c kind kind' =>
    obtain ⟨hk, ht⟩ := Option.ite_none_right_eq_some.mp ht
    obtain rfl := touch_some (h.live hcare) ht
    refine h.put hk ?_ fun k' hk' => ?_
    · constructor <;> intro d <;> simp
    · rw [List.mem_singleton.mp hk']
      refine ⟨trivial, fun d hn => (by cases hn), fun _ d e _ => ?_⟩
      cases e
      exact hcare
  | finish c kind =>
    obtain ⟨hk, ht⟩ := Option.ite_none_right_eq_some.mp ht
    obtain rfl := touch_some (h.live hcare) ht
    refine h.put_one hk ?_ trivial (fun d hn => by cases hn) rfl
    constructor <;> intro d <;> simp
  | snapshot ok =>
    cases ht
    split
    · exact h.snapshot
    · exact h
  | transition k c state =>
    obtain ⟨hc, ht⟩ := Option.ite_none_right_eq_some.mp ht
    obtain ⟨huse, hst⟩ := hc
    have hstream : streamType (s.ctx c).type = true := by
      rcases hst with e | e
      · exact e.2
      · rw [e.2]
        rfl
    obtain rfl := touch_some (h.live (h.pos_of_uses huse)) ht
    have hok := h.ok c
    refine h.store (.refl _)
      ⟨hok.attached, fun _ => ?_, fun e => ?_, fun _ => hstream, hok.linked, hok.alive⟩ (.inl rfl)
      (fun e => absurd (h.not_initialized hstream) e) fun _ hk => .inl hk
    · rcases hst with ⟨rfl, -⟩ | ⟨rfl, -⟩ <;> simp
    · rcases hst with ⟨rfl, -⟩ | ⟨rfl, -⟩ <;> cases e
  | send k c =>
    obtain ⟨hu, ht⟩ := Option.ite_none_right_eq_some.mp ht
    obtain rfl := touch_some (h.live (h.pos_of_uses hu)) ht
    refine h.recall (.irp _ _ _) fun k' hk' => ?_
    rcases List.mem_cons.mp hk' with rfl | hk'
    · exact .inr ⟨trivial, fun d hn => (by cases hn), fun kind d e hw => by cases e; exact absurd rfl hw⟩
    · exact .inl hk'
  | lookup cs a =>
    obtain ⟨hc, ht⟩ := Option.ite_none_right_eq_some.mp ht
    obtain ⟨hk, hmem, -, hacc⟩ := hc
    cases ht
    refine h.addRef a hk (h.pos_of_linked (by simpa using (List.mem_filter.mp hmem).2))
      (fun d => ?_) (fun _ => rfl) (fun _ => rfl) (fun _ => rfl) fun k' hk' => ?_
    · simp [Call.holds, eq_comm]
    · rw [List.mem_singleton.mp hk']
      refine .of_mem h hk ?_ (fun d hn => hn) rfl
      exact (frame_update rfl (.inl rfl) (fun _ e => e) fun e => e :
        Frame s (s.addRef a)).keeps_accepter hacc
  | take k l a =>
    simp only [Device.step] at ht
    split at ht
    · cases ht
    · next o ho =>
      split at ht
      · next hk =>
        cases ht
        exact h.take ho hk.1 hk.2
      · cases ht
  | cleanup c =>
    obtain ⟨hh, ht⟩ := Option.ite_none_right_eq_some.mp ht
    cases ht
    exact h.close hh hcare

end Steps

/-! ## Runs -/

end XcWindows.V4v.Contexts
