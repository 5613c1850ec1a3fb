import XcWindows.Xennet6.Shadows

/-!
# The transmitter over whole runs

In every run of the transmitter a TX shadow is free, in the chain of one net buffer of a queued list,
or has a fake ARP in it, and a net buffer list is still to be queued, is queued, or was completed to
NDIS, once. `Kept` says it of the shadows, with the chains as lists; most steps trade the shadows of
one net buffer with the pool (`Kept.trade`).

The shadow of a fake ARP that is on the ring at a suspend stays with it, for nobody answers any more.
-/

namespace XcWindows.Xennet6

open Lib
open Function (update update_of_ne update_self)

/-- What a net buffer has. -/
def Owns (sh : Fin maxTxFrags → TxShadow) (b : BufferId) (xs : List (Fin maxTxFrags)) :
    Option Reserved → Prop
  | none => xs = []
  | some r =>
    match r.state with
    | .unprepared | .completed => xs = []
    | .prepared => Chain sh r.txShadowHeadId xs ∧ (∀ x ∈ xs, Ready b sh x) ∧
      r.physicalBufferCount = xs.countP fun x => !(sh x).isExtra
    | .sent | .drop => Chain sh r.txShadowHeadId xs ∧ (∀ x ∈ xs, Has b sh x) ∧
      r.physicalBufferCount = ownedData sh xs

section
variable {sh sh' : Fin maxTxFrags → TxShadow} {b : BufferId} {x : Fin maxTxFrags}
  {xs : List (Fin maxTxFrags)} {r : Option Reserved}

theorem Owns.has (h : Owns sh b xs r) (hx : x ∈ xs) : Has b sh x := by
  unfold Owns at h
  split at h
  · subst h
    cases hx
  · split at h
    · subst h
      cases hx
    · subst h
      cases hx
    · exact (h.2.1 x hx).toHas
    · exact h.2.1 x hx
    · exact h.2.1 x hx

theorem Owns.congr (h : Owns sh b xs r) (hs : ∀ x ∈ xs, sh' x = sh x) : Owns sh' b xs r := by
  have hchain {id : TxId} (hc : Chain sh id xs) : Chain sh' id xs :=
    hc.congr fun x hx => by rw [hs x hx]; exact ⟨rfl, rfl⟩
  have hhas (x) (hx : x ∈ xs) (hh : Has b sh x) : Has b sh' x := hh.congr (hs x hx)
  have howned : ownedData sh' xs = ownedData sh xs := List.countP_congr fun x hx => by rw [hs x hx]
  unfold Owns at h ⊢
  split at h
  · exact h
  · split at h
    · exact h
    · exact h
    · obtain ⟨hc, hr, hn⟩ := h
      refine ⟨hchain hc, fun x hx => ⟨hhas x hx (hr x hx).toHas, ?_⟩, hn.trans ?_⟩
      · rw [hs x hx]
        exact (hr x hx).ownedByBackend
      · exact List.countP_congr fun x hx => by rw [hs x hx]
    · exact ⟨hchain h.1, fun x hx => hhas x hx (h.2.1 x hx), h.2.2.trans howned.symm⟩
    · exact ⟨hchain h.1, fun x hx => hhas x hx (h.2.1 x hx), h.2.2.trans howned.symm⟩

end

/-- Where the shadows are: `free` in the free list, and `chain b` in the chain of the net buffer `b`. -/
structure Kept (lists : Nat → NetBufferList) (s : State) (free : List (Fin maxTxFrags))
    (chain : BufferId → List (Fin maxTxFrags)) : Prop where
  pool : Pool s.info free
  owns : ∀ b, Owns s.info.shadow b (chain b) (s.reserved b)
  nodup : ∀ b, (chain b).Nodup
  apart : ∀ b b' x, x ∈ chain b → x ∈ chain b' → b = b'
  covered : ∀ x, x ∈ free ∨ (∃ b, x ∈ chain b) ∨
    (s.info.shadow x).isFakeArp = true ∧ (s.info.shadow x).buffer = none
  queued : ∀ b, chain b ≠ [] → b ∈ s.queuedBuffers lists

section Kept
variable {lists : Nat → NetBufferList} {s t : State} {free free' xs : List (Fin maxTxFrags)}
  {chain : BufferId → List (Fin maxTxFrags)} {b : BufferId} {x : Fin maxTxFrags}

theorem Kept.not_free (h : Kept lists s free chain) (hx : x ∈ chain b) : x ∉ free := fun hf => by
  have hu := ((h.owns b).has hx).inUse
  rw [(h.pool.mem_iff x).mp hf] at hu
  cases hu

section Reserved
variable {r : Reserved} (h : Kept lists s free chain) (hr : s.reserved b = some r)
include h hr

theorem Kept.chain_nil (hst : r.state = .unprepared ∨ r.state = .completed) : chain b = [] := by
  have ho := h.owns b
  rw [hr] at ho
  cases r
  rcases hst with rfl | rfl <;> exact ho

theorem Kept.prepared (hst : r.state = .prepared) : Chain s.info.shadow r.txShadowHeadId (chain b) ∧
    (∀ x ∈ chain b, Ready b s.info.shadow x) ∧
      r.physicalBufferCount = (chain b).countP fun x => !(s.info.shadow x).isExtra := by
  have ho := h.owns b
  rw [hr] at ho
  cases r
  cases hst
  exact ho

theorem Kept.sent (hst : r.state = .sent ∨ r.state = .drop) :
    Chain s.info.shadow r.txShadowHeadId (chain b) ∧ (∀ x ∈ chain b, Has b s.info.shadow x) ∧
      r.physicalBufferCount = ownedData s.info.shadow (chain b) := by
  have ho := h.owns b
  rw [hr] at ho
  cases r
  rcases hst with rfl | rfl <;> exact ho

end Reserved

theorem Kept.length_le (h : Kept lists s free chain) (b : BufferId) :
    (chain b).length ≤ maxTxFrags := length_le_of_nodup (h.nodup b)

/-- What is done to the rest of the state. -/
theorem Kept.congr (h : Kept lists s free chain) (hi : t.info = s.info)
    (hr : t.reserved = s.reserved) (hq : t.queuedList = s.queuedList) : Kept lists t free chain where
  pool := hi ▸ h.pool
  owns b := by rw [hi, hr]; exact h.owns b
  nodup := h.nodup
  apart := h.apart
  covered x := by rw [hi]; exact h.covered x
  queued b hb := by rw [State.queuedBuffers, hq]; exact h.queued b hb

/-- A net buffer trades shadows with the pool. -/
theorem Kept.trade (h : Kept lists s free chain) {r : Option Reserved}
    (hr : t.reserved = update s.reserved b r) (hq : t.queuedList = s.queuedList)
    (hb : xs ≠ [] → b ∈ s.queuedBuffers lists) (hp : Pool t.info free')
    (hx : Owns t.info.shadow b xs r) (hnd : xs.Nodup)
    (hmem : ∀ x, x ∈ free' ∨ x ∈ xs ↔ x ∈ free ∨ x ∈ chain b)
    (hf : ∀ x, x ∉ free → x ∉ chain b → t.info.shadow x = s.info.shadow x) :
    Kept lists t free' (update chain b xs) := by
  have hother : ∀ b', b' ≠ b → ∀ x ∈ chain b', x ∉ free ∧ x ∉ chain b := fun b' hne x hx =>
    ⟨h.not_free hx, fun hm => hne (h.apart b' b x hx hm)⟩
  have hxs : ∀ b', b' ≠ b → ∀ x ∈ chain b', x ∉ xs := fun b' hne x hx hm =>
    ((hmem x).mp (.inr hm)).elim (hother b' hne x hx).1 (hother b' hne x hx).2
  have hself : update chain b xs b = xs := update_self ..
  have hsame : ∀ b', b' ≠ b → update chain b xs b' = chain b' :=
    fun b' hne => update_of_ne hne ..
  generalize update chain b xs = chain' at hself hsame
  subst hself
  constructor
  case pool => exact hp
  case owns =>
    intro b'
    rw [hr]
    rcases eq_or_ne b' b with rfl | hne
    · rwa [update_self]
    · rw [update_of_ne hne, hsame b' hne]
      exact (h.owns b').congr fun x hx => hf x (hother b' hne x hx).1 (hother b' hne x hx).2
  case nodup =>
    intro b'
    rcases eq_or_ne b' b with rfl | hne
    · exact hnd
    · exact hsame b' hne ▸ h.nodup b'
  case apart =>
    intro b1 b2 x h1 h2
    rcases eq_or_ne b1 b with hb1 | hb1 <;> rcases eq_or_ne b2 b with hb2 | hb2
    · rw [hb1, hb2]
    · exact absurd (hb1 ▸ h1) (hxs b2 hb2 x (hsame b2 hb2 ▸ h2))
    · exact absurd (hb2 ▸ h2) (hxs b1 hb1 x (hsame b1 hb1 ▸ h1))
    · exact h.apart b1 b2 x (hsame b1 hb1 ▸ h1) (hsame b2 hb2 ▸ h2)
  case covered =>
    intro x
    by_cases hin : x ∈ free ∨ x ∈ chain b
    · exact ((hmem x).mpr hin).imp_right fun hm => .inl ⟨b, hm⟩
    · rw [not_or] at hin
      rcases h.covered x with hm | ⟨b', hm⟩ | ha
      · exact absurd hm hin.1
      · have hne : b' ≠ b := fun e => hin.2 (e ▸ hm)
        exact .inr (.inl ⟨b', hsame b' hne ▸ hm⟩)
      · rw [hf x hin.1 hin.2]
        exact .inr (.inr ha)
  case queued =>
    intro b' hne'
    rw [State.queuedBuffers, hq]
    rcases eq_or_ne b' b with rfl | hne
    · exact hb hne'
    · exact h.queued b' (hsame b' hne ▸ hne')

/-- A net buffer that has nothing changes its state. -/
theorem Kept.mark (h : Kept lists s free chain) {r : Reserved} (hnil : chain b = [])
    (hst : r.state = .unprepared ∨ r.state = .completed) (hi : t.info = s.info)
    (hr : t.reserved = update s.reserved b (some r)) (hq : t.queuedList = s.queuedList) :
    Kept lists t free (update chain b []) := by
  refine h.trade hr hq (fun hne => absurd rfl hne) (hi ▸ h.pool) ?_ List.nodup_nil
    (fun x => by rw [hnil]) fun x _ _ => by rw [hi]
  unfold Owns
  rcases hst with e | e <;> (dsimp only; rw [e])

/-! ## Preparing -/

/-- Where the lists are. -/
def State.books (s : State) : List Nat × Nat × List SendCall × Nat × List Nat :=
  (s.queuedList, s.queuedCount, s.calls, s.allocated, s.completions)

/-- The shadows are kept, and the lists are where they were. -/
def Keeps (lists : Nat → NetBufferList) (s t : State) : Prop :=
  (∃ free chain, Kept lists t free chain) ∧ t.books = s.books

theorem Keeps.queuedList (h : Keeps lists s t) : t.queuedList = s.queuedList := congrArg (·.1) h.2

theorem getReserved_ok {r : Reserved} (h : s.getReserved b = .ok r) : s.reserved b = some r := by
  unfold State.getReserved at h
  split at h
  · next r' hr => rw [hr, Except.ok.inj h]
  · cases h

theorem getReserved_setReserved (s : State) (b : BufferId) (r : Reserved) :
    (s.setReserved b r).getReserved b = .ok r := by
  simp only [State.getReserved, State.setReserved, update_self]

theorem Kept.prepareFragments (h : Kept lists s free chain) (hb : b ∈ s.queuedBuffers lists)
    {r : Reserved} (hr : s.reserved b = some r) (hst : r.state = .unprepared) {answers : Answers}
    {mdls : List Mdl} {offset dataSize count : Nat} {done : Bool}
    (hok : s.prepareFragments lists answers b mdls offset dataSize count = .ok (done, t)) :
    Keeps lists s t := by
  have hnil := h.chain_nil hr (.inl hst)
  unfold State.prepareFragments at hok
  obtain ⟨-, hok⟩ := xmAssert_bind_ok hok
  dsimp only at hok
  generalize hextra : (if (lists b.list).mss ≠ 0 then 1 else 0) = extra at hok
  split at hok
  · cases hok
    exact ⟨⟨free, chain, h⟩, rfl⟩
  obtain ⟨frags, -, hok⟩ := bind_ok hok
  obtain ⟨s1, halloc, hok⟩ := bind_ok hok
  obtain ⟨hne, hok⟩ := xmAssert_bind_ok hok
  obtain ⟨-, hok⟩ := xmAssert_bind_ok hok
  obtain ⟨-, c, he⟩ | ⟨xs, rest, p', head, rfl, hlen, hs1, htaken⟩ :=
    @allocateFragments_none _ _ _ answers (lists b.list).mss dataSize _ _ h.pool hr hne
  · rw [he] at halloc
    cases halloc
  rw [hs1] at halloc
  cases halloc
  have hnd := htaken.nodup
  have hmax := length_le_of_nodup hnd
  rw [List.length_append, hlen, hextra] at hmax
  rw [getReserved_setReserved, ok_bind] at hok
  cases hok
  refine ⟨⟨rest, update chain b xs, h.trade (Function.update_idem ..) rfl (fun _ => hb)
    htaken.pool ⟨htaken.chain, htaken.ready, ?_⟩ (List.nodup_append.mp hnd).1 (fun x => ?_)
    fun x hx _ => ?_⟩, rfl⟩
  · refine Eq.trans ?_ htaken.data.symm
    dsimp only
    rw [Nat.add_sub_cancel]
    have hsize : maxTxFrags = 256 := rfl
    exact Nat.mod_eq_of_lt (by omega)
  · rw [hnil, List.mem_append]
    simp [or_comm]
  · exact htaken.same x fun hm => hx (List.mem_append_left _ hm)

theorem Keeps.refl (h : Kept lists s free chain) : Keeps lists s s :=
  ⟨⟨free, chain, h⟩, rfl⟩

theorem Kept.prepareNetBuffer (h : Kept lists s free chain) (hb : b ∈ s.queuedBuffers lists)
    {r : Reserved} (hr : s.reserved b = some r) (hst : r.state = .unprepared) {answers : Answers}
    {done : Bool} (hok : s.prepareNetBuffer lists answers b = .ok (done, t)) : Keeps lists s t := by
  have hnil := h.chain_nil hr (.inl hst)
  have hget : s.getReserved b = .ok r := by rw [State.getReserved, hr]
  unfold State.prepareNetBuffer at hok
  rw [hget, ok_bind] at hok
  dsimp only at hok
  split at hok
  · split at hok
    · exact h.prepareFragments hb hr hst hok
    · generalize (if s.bounceBufferInUse = true then 0 else _) = bytesCopied at hok
      split at hok
      · cases hok
        exact .refl h
      · -- copied, whether there are enough shadows or not
        have h1 : Kept lists (({ s with
            bounceBufferInUse := true, bounceByteCount := bytesCopied } : State).setReserved b
              { r with bounced := true }) free (update chain b []) :=
          h.mark (r := { r with bounced := true }) hnil (.inl hst) rfl rfl rfl
        exact h1.prepareFragments hb (update_self ..) hst hok
  · split at hok
    · exact h.prepareFragments hb hr hst hok
    · cases hok
      exact ⟨⟨free, _, h.mark hnil (.inr rfl) rfl rfl rfl⟩, rfl⟩

theorem Keeps.trans {u : State} (h : Keeps lists s t) (h' : Keeps lists t u) : Keeps lists s u :=
  ⟨h'.1, h'.2.trans h.2⟩

theorem Keeps.prepareLoop {answers : Answers} {bs : List BufferId}
    (hbs : ∀ b ∈ bs, b ∈ s.queuedBuffers lists) (h : Kept lists s free chain)
    (hok : State.prepareLoop lists answers bs s = .ok t) : Keeps lists s t := by
  induction bs generalizing s free chain with
  | nil =>
    cases hok
    exact .refl h
  | cons b bs ih =>
    have hrest : ∀ b ∈ bs, b ∈ s.queuedBuffers lists := fun b hb => hbs b (.tail _ hb)
    rw [State.prepareLoop] at hok
    obtain ⟨r, hr, hok⟩ := bind_ok hok
    split at hok
    · next hst =>
      obtain ⟨⟨done, u⟩, hu, hok⟩ := bind_ok hok
      have hk := h.prepareNetBuffer (hbs b (.head _)) (getReserved_ok hr) hst hu
      dsimp only at hok
      obtain ⟨free', chain', h'⟩ := hk.1
      split at hok
      · refine hk.trans (ih (fun b hb => ?_) h' hok)
        rw [State.queuedBuffers, hk.queuedList]
        exact hrest b hb
      · cases hok
        exact hk
    · exact ih hrest h hok

/-! ## Sending -/

theorem Has.own {sh sh' : Fin maxTxFrags → TxShadow} {o : Bool} (h : Has b sh x)
    (e : sh' x = { sh x with ownedByBackend := o }) : Has b sh' x := by
  have hid : idOf sh' x = idOf sh x := by rw [idOf, idOf, e]
  refine ⟨?_, ?_, ?_, ?_⟩
  · rw [e]; exact h.inUse
  · rw [e]; exact h.isFakeArp
  · rw [e]; exact h.extra
  · rw [hid, e]; exact h.data

theorem Kept.sendNetBuffer (h : Kept lists s free chain) {done : Bool}
    (hok : s.sendNetBuffer b = .ok (done, t)) : Keeps lists s t := by
  unfold State.sendNetBuffer at hok
  obtain ⟨r, hr, hok⟩ := bind_ok hok
  obtain ⟨-, hok⟩ := xmAssert_bind_ok hok
  obtain ⟨hst, hok⟩ := xmAssert_bind_ok hok
  split at hok
  · cases hok
    exact .refl h
  obtain ⟨ids, hids, hok⟩ := bind_ok hok
  obtain ⟨-, hok⟩ := xmAssert_bind_ok hok
  split at hok
  · cases hok
    exact .refl h
  obtain ⟨hc, hready, hn⟩ := h.prepared (getReserved_ok hr) hst
  rw [h.pool.chainIds hc (h.length_le b)] at hids
  cases hids
  obtain ⟨s1, hs1, hok⟩ := bind_ok hok
  have hd : ∀ x ∈ chain b, x ∉ free := fun x hx => h.not_free hx
  obtain ⟨ring, puts, hsend⟩ := sendShadows (s := s.setReserved b { r with state := .sent }) (b := b)
    h.pool (h.nodup b) hd fun x hx => (hready x hx).ownedByBackend
  cases hsend.symm.trans hs1
  cases hok
  have hgive : ∀ x ∈ chain b, (s.info.mapOn (chain b) TxShadow.give).shadow x =
      { s.info.shadow x with ownedByBackend := true } := fun x hx => if_pos hx
  have howned : ownedData (s.info.mapOn (chain b) TxShadow.give).shadow (chain b) =
      (chain b).countP fun x => !(s.info.shadow x).isExtra :=
    List.countP_congr fun x hx => by rw [hgive x hx, Bool.true_and]
  have hchain : Chain (s.info.mapOn (chain b) TxShadow.give).shadow r.txShadowHeadId (chain b) :=
    hc.congr fun x hx => by rw [hgive x hx]; exact ⟨rfl, rfl⟩
  have hp := h.pool.mapOn hd (f := TxShadow.give) (fun _ => rfl) fun _ => rfl
  exact ⟨⟨free, _, h.trade rfl rfl (h.queued b) hp
    ⟨hchain, fun x hx => (hready x hx).toHas.own (hgive x hx), hn.trans howned.symm⟩ (h.nodup b)
    (fun _ => Iff.rfl) fun x _ hx => TxShadowInfo.mapOn_of_not_mem hx⟩, rfl⟩

theorem Keeps.sendLoop {bs : List BufferId} {n m : Nat} (h : Kept lists s free chain)
    (hok : State.sendLoop bs n s = .ok (m, t)) : Keeps lists s t := by
  induction bs generalizing s free chain n with
  | nil =>
    cases hok
    exact .refl h
  | cons b bs ih =>
    rw [State.sendLoop] at hok
    obtain ⟨r, -, hok⟩ := bind_ok hok
    split at hok
    · obtain ⟨⟨done, u⟩, hu, hok⟩ := bind_ok hok
      have hk := h.sendNetBuffer hu
      dsimp only at hok
      obtain ⟨free', chain', h'⟩ := hk.1
      split at hok
      · exact hk.trans (ih h' hok)
      · cases hok
        exact hk
    · exact ih h hok

theorem Keeps.run {answers : Answers} (h : Kept lists s free chain)
    (hok : s.run lists answers = .ok t) : Keeps lists s t := by
  unfold State.run at hok
  obtain ⟨s1, h1, hok⟩ := bind_ok hok
  obtain ⟨⟨n, s2⟩, h2, hok⟩ := bind_ok hok
  obtain ⟨-, hok⟩ := xmAssert_bind_ok hok
  cases hok
  have hk1 := Keeps.prepareLoop (fun _ hb => hb) h h1
  obtain ⟨free1, chain1, hk⟩ := hk1.1
  have hk2 := Keeps.sendLoop hk h2
  obtain ⟨free2, chain2, hk⟩ := hk2.1
  exact ⟨⟨free2, chain2, hk.congr rfl rfl rfl⟩, hk2.2.trans hk1.2⟩

/-! ## Completing -/

theorem completeNetBuffer_ok {r : Reserved} (hp : Pool s.info free)
    (hc : Chain s.info.shadow r.txShadowHeadId xs) (hnd : xs.Nodup) (hd : ∀ x ∈ xs, x ∉ free)
    (hdone : ∀ x ∈ xs, Done b (s.info.shadow x)) (hok : s.completeNetBuffer b r = .ok t) :
    Pool t.info (xs.reverse ++ free) ∧ (∀ y ∉ xs, t.info.shadow y = s.info.shadow y) ∧
      t.reserved = update s.reserved b
        (some { r with state := .completed, txShadowHeadId := invalidTxShadowId }) ∧
      t.books = s.books := by
  unfold State.completeNetBuffer State.cleanupNetBuffer at hok
  obtain ⟨s1, hs1, hok⟩ := bind_ok hok
  rw [getReserved_setReserved, ok_bind] at hs1
  obtain ⟨-, hs1⟩ := xmAssert_bind_ok hs1
  obtain ⟨ids, hids, hs1⟩ := bind_ok hs1
  cases (hp.chainIds hc (length_le_of_nodup hnd)).symm.trans hids
  obtain ⟨p', hfold, hp', hsame⟩ :=
    cleanupShadows (s := s.setReserved b { r with state := .completed }) hp hnd hd hdone
  obtain ⟨s2, hs2, hs1⟩ := bind_ok hs1
  cases hfold.symm.trans hs2
  cases hs1
  split at hok
  · obtain ⟨-, hok⟩ := xmAssert_bind_ok hok
    cases hok
    exact ⟨hp', hsame, Function.update_idem .., rfl⟩
  · cases hok
    exact ⟨hp', hsame, Function.update_idem .., rfl⟩

/-- A net buffer whose fragments have come back, in `u`, is completed. -/
theorem Kept.completeNetBuffer (h : Kept lists s free chain) {u : State} {r : Reserved}
    (hp : Pool u.info free) (hu : ∀ y ∉ chain b, u.info.shadow y = s.info.shadow y)
    (hr : u.reserved = s.reserved) (hl : u.books = s.books)
    (hc : Chain u.info.shadow r.txShadowHeadId (chain b))
    (hdone : ∀ x ∈ chain b, Done b (u.info.shadow x)) (hok : u.completeNetBuffer b r = .ok t) :
    Keeps lists s t := by
  obtain ⟨hp', hsame, hr', hl'⟩ :=
    completeNetBuffer_ok hp hc (h.nodup b) (fun x hx => h.not_free hx) hdone hok
  rw [hr] at hr'
  refine ⟨⟨_, _, h.trade hr' (congrArg (·.1) (hl'.trans hl)) (fun hne => absurd rfl hne) hp' rfl
    List.nodup_nil (fun x => ?_) fun y _ hy => (hsame y hy).trans (hu y hy)⟩, hl'.trans hl⟩
  simp [or_comm]

theorem Has.done {sh : Fin maxTxFrags → TxShadow} (h : Has b sh x)
    (h0 : (sh x).isExtra = false → (sh x).ownedByBackend = false) : Done b (sh x) := by
  refine ⟨h.isFakeArp, ?_⟩
  cases he : (sh x).isExtra with
  | true => exact .inl ⟨rfl, (h.extra he).1, (h.extra he).2.1⟩
  | false => exact .inr ⟨rfl, (h.data he).1, h0 he⟩

theorem TxShadow.return_eq (t : TxShadow) : ∃ o, t.return = { t with ownedByBackend := o } ∧
    (t.isExtra = false → o = false) := by
  unfold TxShadow.return
  split
  · exact ⟨false, rfl, fun _ => rfl⟩
  · next hc =>
    refine ⟨t.ownedByBackend, rfl, fun he => ?_⟩
    by_contra ho
    exact hc ⟨by simpa using ho, by simp [he]⟩

theorem Kept.resumeBuffer (h : Kept lists s free chain) (hok : s.resumeBuffer b = .ok t) :
    Keeps lists s t := by
  unfold State.resumeBuffer at hok
  obtain ⟨r, hr, hok⟩ := bind_ok hok
  split at hok
  case isFalse =>
    cases hok
    exact .refl h
  case isTrue hst =>
    obtain ⟨hc, hhas, hn⟩ := h.sent (getReserved_ok hr) (.inr hst)
    obtain ⟨ids, hids, hok⟩ := bind_ok hok
    cases (h.pool.chainIds hc (h.length_le b)).symm.trans hids
    obtain ⟨⟨u, n⟩, hu, hok⟩ := bind_ok hok
    obtain ⟨hn0, hok⟩ := xmAssert_bind_ok hok
    have hd : ∀ x ∈ chain b, x ∉ free := fun x hx => h.not_free hx
    have hreturn := returnShadows (n := 0) h.pool (h.nodup b) hd fun x hx => (hhas x hx).isFakeArp
    rw [Nat.add_zero, ← hn] at hreturn
    cases hreturn.symm.trans hu
    have hmap : ∀ x ∈ chain b, ∃ o, (s.info.mapOn (chain b) TxShadow.return).shadow x =
        { s.info.shadow x with ownedByBackend := o } ∧ ((s.info.shadow x).isExtra = false → o = false) :=
      fun x hx => by
        obtain ⟨o, he, hf⟩ := TxShadow.return_eq (s.info.shadow x)
        exact ⟨o, (if_pos hx).trans he, hf⟩
    refine h.completeNetBuffer (u := { s with info := s.info.mapOn (chain b) TxShadow.return })
      (r := { r with physicalBufferCount := 0 })
      (h.pool.mapOn hd TxShadow.return_inUse TxShadow.return_generation)
      (fun y hy => TxShadowInfo.mapOn_of_not_mem hy) rfl rfl
      (hc.congr fun x hx => ?_) (fun x hx => ?_) hok
    · obtain ⟨o, he, -⟩ := hmap x hx
      rw [he]
      exact ⟨rfl, rfl⟩
    · obtain ⟨o, he, hf⟩ := hmap x hx
      refine ((hhas x hx).own he).done fun hx => ?_
      rw [he] at hx ⊢
      exact hf hx

/-! ## The lists -/

/-- What a run keeps. -/
structure Conserved (lists : Nat → NetBufferList) (s : State) : Prop where
  shadows : ∃ free chain, Kept lists s free chain
  /-- the lists that NDIS has sent are completed, still to be queued, or queued -/
  lists : (s.completions ++ s.calls.flatMap (·.rest) ++ s.queuedList).Perm (List.range s.allocated)
  count : s.queuedCount = s.queuedList.length

theorem Conserved.keeps (h : Conserved lists s) (hk : Keeps lists s t) : Conserved lists t := by
  obtain ⟨hs, hbooks⟩ := hk
  simp only [State.books, Prod.mk.injEq] at hbooks
  obtain ⟨hq, hn, hc, ha, hd⟩ := hbooks
  exact ⟨hs, by rw [hd, hc, hq, ha]; exact h.lists, by rw [hn, hq]; exact h.count⟩

/-- What is done to the rest of the state. -/
theorem Conserved.congr (h : Conserved lists s) (hi : t.info = s.info)
    (hr : t.reserved = s.reserved) (hl : t.books = s.books) : Conserved lists t := by
  obtain ⟨free, chain, hk⟩ := h.shadows
  exact h.keeps ⟨⟨free, chain, hk.congr hi hr (congrArg (·.1) hl)⟩, hl⟩

theorem Conserved.nodup (h : Conserved lists s) :
    (s.completions ++ s.calls.flatMap (·.rest) ++ s.queuedList).Nodup :=
  h.lists.nodup_iff.mpr List.nodup_range

theorem mem_buffersOf {k : Nat} (hb : b ∈ buffersOf lists k) : b.list = k := by
  obtain ⟨j, -, rfl⟩ := List.mem_map.mp hb
  rfl

theorem Kept.list_mem (h : Kept lists s free chain) (hb : chain b ≠ []) : b.list ∈ s.queuedList := by
  obtain ⟨k, hk, hm⟩ := List.mem_flatMap.mp (h.queued b hb)
  exact mem_buffersOf hm ▸ hk

theorem allCompleted_ok {bs : List BufferId} (hok : s.allCompleted bs = .ok true) :
    ∀ b ∈ bs, ∃ r, s.reserved b = some r ∧ r.state = .completed := by
  induction bs with
  | nil => exact fun b hb => absurd hb List.not_mem_nil
  | cons b bs ih =>
    rw [State.allCompleted] at hok
    obtain ⟨r, hr, hok⟩ := bind_ok hok
    split at hok
    · cases hok
    · next hst =>
      intro b' hb'
      rcases List.mem_cons.mp hb' with rfl | hb'
      · exact ⟨r, getReserved_ok hr, not_not.mp hst⟩
      · exact ih hok b' hb'

theorem Conserved.maybeComplete (h : Conserved lists s) {k : Nat} (hk : k ∈ s.queuedList)
    (hok : s.maybeCompleteNetBufferList lists k = .ok t) :
    Conserved lists t ∧ ∀ k' ∈ s.queuedList, k' ≠ k → k' ∈ t.queuedList := by
  unfold State.maybeCompleteNetBufferList at hok
  obtain ⟨completed, hall, hok⟩ := bind_ok hok
  cases completed with
  | false =>
    cases hok
    exact ⟨h, fun k' hk' _ => hk'⟩
  | true =>
    cases hok
    obtain ⟨free, chain, hkept⟩ := h.shadows
    have hnil : ∀ b ∈ buffersOf lists k, chain b = [] := fun b hb => by
      obtain ⟨r, hr, hst⟩ := allCompleted_ok hall b hb
      exact hkept.chain_nil hr (.inr hst)
    refine ⟨⟨⟨free, chain, hkept.pool, fun b => ?_, hkept.nodup, hkept.apart, hkept.covered,
      fun b hb => ?_⟩, ?_, ?_⟩, fun k' hk' hne => (List.mem_erase_of_ne hne).mpr hk'⟩
    · dsimp only
      split
      · next hb => exact hnil b hb
      · exact hkept.owns b
    · obtain ⟨k', hk', hm⟩ := List.mem_flatMap.mp (hkept.queued b hb)
      have hne : k' ≠ k := fun e => hb (hnil b (e ▸ hm))
      exact List.mem_flatMap.mpr ⟨k', (List.mem_erase_of_ne hne).mpr hk', hm⟩
    · refine List.Perm.trans ?_ h.lists
      have hpos := List.count_pos_iff.mpr hk
      rw [List.perm_iff_count]
      intro a
      simp only [List.count_append, List.count_erase, List.count_singleton, beq_iff_eq]
      split
      · next e =>
        subst e
        omega
      · omega
    · rw [List.length_erase_of_mem hk, h.count]

theorem Keeps.resumeBuffers {bs : List BufferId} (h : Kept lists s free chain)
    (hok : bs.foldlM State.resumeBuffer s = .ok t) : Keeps lists s t := by
  induction bs generalizing s free chain with
  | nil =>
    cases hok
    exact .refl h
  | cons b bs ih =>
    rw [List.foldlM_cons] at hok
    obtain ⟨u, hu, hok⟩ := bind_ok hok
    have hk := h.resumeBuffer hu
    obtain ⟨free', chain', h'⟩ := hk.1
    exact hk.trans (ih h' hok)

theorem Conserved.resumeLists {ks : List Nat} (h : Conserved lists s) (hnd : ks.Nodup)
    (hks : ∀ k ∈ ks, k ∈ s.queuedList) (hok : ks.foldlM (State.resumeList lists) s = .ok t) :
    Conserved lists t := by
  induction ks generalizing s with
  | nil =>
    cases hok
    exact h
  | cons k ks ih =>
    obtain ⟨hk, hnd⟩ := List.nodup_cons.mp hnd
    rw [List.foldlM_cons] at hok
    obtain ⟨v, hv, hok⟩ := bind_ok hok
    unfold State.resumeList at hv
    obtain ⟨u, hu, hv⟩ := bind_ok hv
    obtain ⟨free, chain, hkept⟩ := h.shadows
    have hkeeps := Keeps.resumeBuffers hkept hu
    obtain ⟨hv', hmem⟩ := (h.keeps hkeeps).maybeComplete (hkeeps.queuedList ▸ hks k (.head _)) hv
    refine ih hv' hnd (fun k' hk' => ?_) hok
    exact hmem k' (hkeeps.queuedList ▸ hks k' (.tail _ hk')) fun e => hk (e ▸ hk')

/-! ## Responses -/

theorem Pool.eq_idOf {p : TxShadowInfo} {id : TxId} (h : Pool p free)
    (hok : p.getTxShadow id = .ok x) : id = idOf p.shadow x := by
  obtain ⟨-, hok⟩ := xmAssert_bind_ok hok
  obtain ⟨hg, hok⟩ := xmAssert_bind_ok hok
  obtain rfl := Except.ok.inj hok
  have hlt := h.generation (txIdIndex id)
  rw [idOf, wrapTxId_eq _ hlt, hg]
  exact (Nat.mod_add_div' id 256).symm

theorem TxShadowInfo.set_set (p : TxShadowInfo) (x : Fin maxTxFrags) (t t' : TxShadow) :
    (p.set x t).set x t' = p.set x t' := by
  simp only [TxShadowInfo.set, Function.update_idem]

/-- A fake ARP takes a shadow or gives it back. -/
theorem Kept.arp (h : Kept lists s free chain) (hx : ∀ b, x ∉ chain b) (hp : Pool t.info free')
    (hr : t.reserved = s.reserved) (hq : t.queuedList = s.queuedList)
    (hmem : ∀ y, y ≠ x → y ∈ free → y ∈ free')
    (hcov : x ∈ free' ∨ (t.info.shadow x).isFakeArp = true ∧ (t.info.shadow x).buffer = none)
    (hf : ∀ y, y ≠ x → t.info.shadow y = s.info.shadow y) : Kept lists t free' chain where
  pool := hp
  owns b := by
    rw [hr]
    exact (h.owns b).congr fun y hy => hf y fun e => hx b (e ▸ hy)
  nodup := h.nodup
  apart := h.apart
  covered y := by
    by_cases hy : y = x
    · subst hy
      exact hcov.imp_right .inr
    · rw [hf y hy]
      exact (h.covered y).imp_left (hmem y hy)
  queued b hb := by rw [State.queuedBuffers, hq]; exact h.queued b hb

/-- A net buffer of which the back end has a shadow is out. -/
theorem Kept.out (h : Kept lists s free chain) (hx : x ∈ chain b)
    (ho : (s.info.shadow x).ownedByBackend = true) :
    ∃ r, s.reserved b = some r ∧ (r.state = .sent ∨ r.state = .drop) := by
  cases hr : s.reserved b with
  | none =>
    have hown := h.owns b
    rw [hr] at hown
    rw [show chain b = [] from hown] at hx
    cases hx
  | some r =>
    cases hst : r.state with
    | unprepared => rw [h.chain_nil hr (.inl hst)] at hx; cases hx
    | completed => rw [h.chain_nil hr (.inr hst)] at hx; cases hx
    | prepared =>
      have hno := ((h.prepared hr hst).2.1 x hx).ownedByBackend
      rw [ho] at hno
      cases hno
    | sent => exact ⟨r, rfl, .inl hst⟩
    | drop => exact ⟨r, rfl, .inr hst⟩

/-- One fragment less is out. -/
theorem ownedData_unown {p : TxShadowInfo} (hnd : xs.Nodup) (hx : x ∈ xs)
    (ho : (p.shadow x).ownedByBackend = true) (he : (p.shadow x).isExtra = false) :
    ownedData (p.set x (p.shadow x).unown).shadow xs + 1 = ownedData p.shadow xs := by
  induction xs with
  | nil => cases hx
  | cons y ys ih =>
    obtain ⟨hy, hnd⟩ := List.nodup_cons.mp hnd
    simp only [ownedData, List.countP_cons] at ih ⊢
    rcases List.mem_cons.mp hx with rfl | hx
    · have hsame : ys.countP (fun z => ((p.set x (p.shadow x).unown).shadow z).ownedByBackend &&
          !((p.set x (p.shadow x).unown).shadow z).isExtra) =
          ys.countP fun z => (p.shadow z).ownedByBackend && !(p.shadow z).isExtra :=
        List.countP_congr fun z hz => by
          have hne : z ≠ x := fun e => hy (e ▸ hz)
          rw [p.set_of_ne _ hne]
      rw [hsame, p.set_self]
      simp [TxShadow.unown, ho, he]
    · have hne : y ≠ x := fun e => hy (e ▸ hx)
      rw [p.set_of_ne _ hne, ← ih hnd hx]
      omega

theorem Conserved.handleResponse (h : Conserved lists s) {rsp : TxResponse}
    (hok : s.handleResponse lists rsp = .ok t) : Conserved lists t := by
  cases rsp with
  | null =>
    cases hok
    exact h.congr rfl rfl rfl
  | done id =>
  obtain ⟨free, chain, hk⟩ := h.shadows
  unfold State.handleResponse at hok
  dsimp only at hok
  obtain ⟨x, hx, hok⟩ := bind_ok hok
  obtain rfl := hk.pool.eq_idOf hx
  obtain ⟨hextra, hok⟩ := xmAssert_bind_ok hok
  obtain ⟨hown, hok⟩ := xmAssert_bind_ok hok
  rw [Bool.not_eq_true] at hextra
  have hxf : x ∉ free := fun hf => by
    rw [(hk.pool.clean x hf).ownedByBackend] at hown
    cases hown
  have hu := hk.pool.mem_of_not hxf
  simp only [State.setShadow, TxShadowInfo.set_self] at hok
  split at hok
  case isTrue ha =>
    -- a fake ARP
    have hnone : ∀ b, x ∉ chain b := fun b hm => by
      have hno := ((hk.owns b).has hm).isFakeArp
      rw [show (s.info.shadow x).isFakeArp = true from ha] at hno
      cases hno
    have hbuf : (s.info.shadow x).buffer = none := by
      rcases hk.covered x with hf | ⟨b, hm⟩ | hf
      · exact absurd hf hxf
      · exact absurd hm (hnone b)
      · exact hf.2
    obtain ⟨info, hinfo, hok⟩ := bind_ok hok
    cases hok
    rw [TxShadowInfo.set_set] at hinfo
    obtain ⟨hfree, hp⟩ := hk.pool.free_set hxf (t := { s.info.shadow x with
      ownedByBackend := false, isFakeArp := false, grantRef := none }) hu rfl ⟨rfl, hextra, rfl, rfl, hbuf⟩
    cases hfree.symm.trans hinfo
    refine h.keeps ⟨⟨_, chain, hk.arp hnone hp rfl rfl
      (fun y _ hy => .tail _ hy) (.inl (.head _)) fun y hy => ?_⟩, rfl⟩
    rw [TxShadowInfo.freed_of_ne _ hy]
    exact s.info.set_of_ne _ hy
  case isFalse ha =>
    split at hok
    · cases hok
    next b hbuf =>
    have hxb : x ∈ chain b := by
      rcases hk.covered x with hf | ⟨b', hm⟩ | hf
      · exact absurd hf hxf
      · obtain rfl := Option.some.inj (((hk.owns b').has hm).data hextra |>.1.symm.trans hbuf)
        exact hm
      · exact absurd hf.1 ha
    obtain ⟨r, hr, hst⟩ := hk.out hxb hown
    obtain ⟨hc, hhas, hn⟩ := hk.sent hr hst
    let p := s.info.set x (s.info.shadow x).unown
    have hcount : ownedData p.shadow (chain b) + 1 = _ := ownedData_unown (hk.nodup b) hxb hown hextra
    have hless : r.physicalBufferCount - 1 = ownedData p.shadow (chain b) := by omega
    have hp : Pool p free := hk.pool.set hxf hu rfl
    have hset (y) : p.shadow y = { s.info.shadow y with
        ownedByBackend := if y = x then false else (s.info.shadow y).ownedByBackend } := by
      rcases eq_or_ne y x with rfl | hy
      · rw [s.info.set_self, if_pos rfl]
        rfl
      · rw [s.info.set_of_ne _ hy, if_neg hy]
    have hc' : Chain p.shadow r.txShadowHeadId (chain b) :=
      hc.congr fun y _ => by rw [hset y]; exact ⟨rfl, rfl⟩
    have hhas' : ∀ y ∈ chain b, Has b p.shadow y := fun y hy => (hhas y hy).own (hset y)
    have hout : ∀ y ∉ chain b, p.shadow y = s.info.shadow y :=
      fun y hy => s.info.set_of_ne _ fun e => hy (e ▸ hxb)
    obtain ⟨r', hr', hok⟩ := bind_ok hok
    cases hr.symm.trans (getReserved_ok hr')
    obtain ⟨-, hok⟩ := xmAssert_bind_ok hok
    split at hok
    · -- more fragments are out
      cases hok
      refine h.keeps ⟨⟨free, _, hk.trade rfl rfl (hk.queued b) hp ?_ (hk.nodup b)
        (fun _ => Iff.rfl) fun y _ hy => hout y hy⟩, rfl⟩
      unfold Owns
      dsimp only
      rcases hst with hst | hst <;>
      · rw [hst]
        exact ⟨hc', hhas', hless⟩
    · next hzero =>
      -- the last
      rw [not_not] at hzero
      obtain ⟨-, hok⟩ := xmAssert_bind_ok hok
      obtain ⟨v, hv, hok⟩ := bind_ok hok
      have hnone : ∀ y ∈ chain b, ¬(((p.shadow y).ownedByBackend && !(p.shadow y).isExtra) = true) :=
        List.countP_eq_zero.mp (hless.symm.trans hzero)
      have hkeeps := hk.completeNetBuffer
        (u := { s with ring := s.ring.consume, info := p })
        (r := { r with physicalBufferCount := r.physicalBufferCount - 1 })
        hp hout rfl rfl hc'
        (fun y hy => (hhas' y hy).done fun he => by simpa [he] using hnone y hy) hv
      have hmem : b.list ∈ s.queuedList := hk.list_mem fun e => by rw [e] at hxb; cases hxb
      exact ((h.keeps hkeeps).maybeComplete (hkeeps.queuedList ▸ hmem) hok).1

/-! ## The other steps -/

theorem Conserved.sendFakeArp (h : Conserved lists s) {gref : Option Nat}
    (hok : s.sendFakeArp gref = .ok t) : Conserved lists t := by
  obtain ⟨free, chain, hk⟩ := h.shadows
  unfold State.sendFakeArp at hok
  split at hok
  · cases hok
    exact h
  obtain ⟨⟨id, info⟩, halloc, hok⟩ := bind_ok hok
  obtain ⟨y, hy, hok⟩ := bind_ok hok
  cases hok
  cases free with
  | nil => cases hk.pool.allocate_nil.symm.trans halloc
  | cons x free =>
    cases hk.pool.allocate_cons.symm.trans halloc
    have hp := hk.pool.allocated
    obtain rfl : x = y := Except.ok.inj ((hp.getTxShadow x).symm.trans hy)
    have hx : x ∉ free := (List.nodup_cons.mp hk.pool.nodup).1
    have hclean := hk.pool.clean x (.head _)
    refine h.keeps ⟨⟨free, chain, hk.arp (x := x) (fun b hb => hk.not_free hb (.head _)) (hp.set hx ?_ rfl)
      rfl rfl (fun y hne hy => (List.mem_cons.mp hy).resolve_left hne) (.inr ?_) fun y hne => ?_⟩,
      rfl⟩
    · rw [s.info.allocated_self]
    · dsimp only
      rw [TxShadowInfo.set_self, s.info.allocated_self]
      exact ⟨rfl, hclean.buffer⟩
    · exact (TxShadowInfo.set_of_ne _ _ hne).trans (s.info.allocated_of_ne hne)

/-- The lists that a call has still to queue, and those of the others. -/
theorem rest_perm {calls : List SendCall} {i : Nat} (call : SendCall) (hi : i < calls.length) :
    ((calls.set i call).flatMap (·.rest)).Perm (call.rest ++ (calls.eraseIdx i).flatMap (·.rest)) :=
  (List.set_perm_cons_eraseIdx hi call).flatMap_right _

theorem rest_perm_self {calls : List SendCall} {i : Nat} {call : SendCall} (hi : calls[i]? = some call) :
    (calls.flatMap (·.rest)).Perm (call.rest ++ (calls.eraseIdx i).flatMap (·.rest)) := by
  obtain ⟨hlt, rfl⟩ := List.getElem?_eq_some_iff.mp hi
  have hperm := rest_perm calls[i] hlt
  rwa [List.set_getElem_self] at hperm

theorem Conserved.sendNext (h : Conserved lists s) {i k : Nat} {rest : List Nat}
    (hi : s.calls[i]? = some ⟨k :: rest, false⟩)
    (hok : s.sendNext lists i ⟨k :: rest, false⟩ k = .ok t) : Conserved lists t := by
  obtain ⟨free, chain, hk⟩ := h.shadows
  have hlt := (List.getElem?_eq_some_iff.mp hi).1
  have hperm := rest_perm_self hi
  have hknew : k ∉ s.queuedList := fun hm => by
    have hnd := h.nodup
    rw [List.append_assoc] at hnd
    have hin : k ∈ s.calls.flatMap (·.rest) := hperm.mem_iff.mpr (List.mem_append_left _ (.head _))
    exact (List.nodup_append.mp (List.nodup_append.mp hnd).2.1).2.2 k hin k hm rfl
  have hnil : ∀ b ∈ buffersOf lists k, chain b = [] := fun b hb => by
    by_contra hne
    exact hknew (mem_buffersOf hb ▸ hk.list_mem hne)
  have howns : ∀ b, Owns s.info.shadow b (chain b) (if b ∈ buffersOf lists k then
      some (State.newReserved ((lists k).buffer b.index)) else s.reserved b) := fun b => by
    split
    · next hb => exact hnil b hb
    · exact hk.owns b
  unfold State.sendNext at hok
  obtain ⟨-, hok⟩ := xmAssert_bind_ok hok
  dsimp only at hok
  split at hok
  · cases hok
    refine ⟨⟨free, chain, hk.pool, howns, hk.nodup, hk.apart, hk.covered, hk.queued⟩, ?_, h.count⟩
    refine List.Perm.trans ?_ h.lists
    exact (((rest_perm ⟨k :: rest, true⟩ hlt).trans hperm.symm).append_left _).append_right _
  · cases hok
    refine ⟨⟨free, chain, hk.pool, howns, hk.nodup, hk.apart, hk.covered, fun b hb => ?_⟩, ?_, ?_⟩
    · obtain ⟨k', hk', hm⟩ := List.mem_flatMap.mp (hk.queued b hb)
      exact List.mem_flatMap.mpr ⟨k', List.mem_append_left _ hk', hm⟩
    · refine List.Perm.trans ?_ h.lists
      have hset := rest_perm ⟨rest, false⟩ hlt
      rw [List.perm_iff_count] at hset hperm ⊢
      intro a
      have h1 := hset a
      have h2 := hperm a
      simp only [List.count_append, List.count_cons, List.tail_cons, List.count_nil] at h1 h2 ⊢
      omega
    · rw [List.length_append, h.count]
      rfl

theorem Conserved.sendDone (h : Conserved lists s) {i : Nat} {call : SendCall} {answers : Answers}
    (hi : s.calls[i]? = some call) (hok : s.sendDone lists answers i call = .ok t) :
    Conserved lists t := by
  obtain ⟨free, chain, hk⟩ := h.shadows
  unfold State.sendDone at hok
  obtain ⟨u, hu, hok⟩ := bind_ok hok
  cases hok
  have hkeeps := Keeps.run hk hu
  have hu := h.keeps hkeeps
  obtain ⟨free', chain', hk'⟩ := hu.shadows
  refine ⟨⟨free', chain', hk'.congr rfl rfl rfl⟩, List.Perm.trans ?_ hu.lists, hu.count⟩
  have hcalls : u.calls = s.calls := congrArg (fun b => b.2.2.1) hkeeps.2
  rw [List.append_assoc u.completions]
  exact ((rest_perm_self (hcalls ▸ hi)).symm.append_left _).append_right _

theorem Conserved.sendBegin (h : Conserved lists s) (n : Nat) (paused : Bool) :
    Conserved lists { s with
      allocated := s.allocated + n, calls := s.calls ++ [⟨List.range' s.allocated n, paused⟩] } := by
  obtain ⟨free, chain, hk⟩ := h.shadows
  refine ⟨⟨free, chain, hk.congr rfl rfl rfl⟩, ?_, h.count⟩
  have hrange : List.range (s.allocated + n) = List.range s.allocated ++ List.range' s.allocated n := by
    rw [List.range_eq_range', List.range_eq_range', ← List.range'_append_1, Nat.zero_add]
  rw [hrange]
  refine List.Perm.trans ?_ (h.lists.append_right _)
  rw [List.perm_iff_count]
  intro a
  simp only [List.flatMap_append, List.flatMap_cons, List.flatMap_nil, List.count_append,
    List.append_nil]
  omega

theorem Conserved.resumeEarly (h : Conserved lists s) : Conserved lists (s.resumeEarly lists) := by
  obtain ⟨free, chain, hk⟩ := h.shadows
  refine ⟨⟨free, chain, hk.pool, fun b => ?_, hk.nodup, hk.apart, hk.covered, hk.queued⟩, h.lists, h.count⟩
  have ho := hk.owns b
  unfold State.resumeEarly
  dsimp only
  split
  · cases hr : s.reserved b with
    | none => rwa [hr] at ho
    | some r =>
      rw [hr] at ho
      rw [Option.map_some]
      split
      · next hst =>
        unfold Owns at ho
        dsimp only at ho
        rw [hst] at ho
        exact ho
      · exact ho
  · exact ho

/-! ## Runs -/

theorem Conserved.lockedAct (h : Conserved lists s) {a : Act}
    (hact : lockedAct lists s a = some (.ok t)) : Conserved lists t := by
  obtain ⟨free, chain, hk⟩ := h.shadows
  cases a with
  | sendNext i =>
    simp only [Xennet6.lockedAct] at hact
    split at hact
    · next hi => exact h.sendNext hi (Option.some.inj hact)
    · cases hact
  | sendDone i answers =>
    simp only [Xennet6.lockedAct] at hact
    split at hact
    · next call hi =>
      split at hact
      · exact h.sendDone hi (Option.some.inj hact)
      · cases hact
    · cases hact
  | run answers => exact h.keeps (Keeps.run hk (Option.some.inj hact))
  | notifyBegin =>
    cases hact
    exact h.congr rfl rfl rfl
  | sendFakeArp gref => exact h.sendFakeArp (Option.some.inj hact)
  | resumeEarly =>
    cases hact
    exact h.resumeEarly
  | resumeLate =>
    have hnd := (List.nodup_append.mp h.nodup).2.1
    exact h.resumeLists hnd (fun k hk => hk) (Option.some.inj hact)
  | _ => cases hact

theorem Conserved.notifyAct (h : Conserved lists s) {phase : Phase} {a : Act}
    (hact : notifyAct lists s phase a = some (.ok t)) : Conserved lists t := by
  unfold Xennet6.notifyAct at hact
  split at hact
  · split at hact
    · split at hact
      · exact h.handleResponse (Option.some.inj hact)
      · cases hact
    · cases hact
  · split at hact
    · cases hact
      exact h.congr rfl rfl rfl
    · cases hact
  · obtain ⟨u, hu, hok⟩ := bind_ok (Option.some.inj hact)
    cases hok
    obtain ⟨free, chain, hk⟩ := h.shadows
    exact (h.keeps (Keeps.run hk hu)).congr rfl rfl rfl
  · cases hact
    exact h.congr rfl rfl rfl
  · cases hact
    exact h.congr rfl rfl rfl
  · cases hact

theorem Conserved.act (h : Conserved lists s) {a : Act} (hact : act lists s a = some (.ok t)) :
    Conserved lists t := by
  unfold Xennet6.act at hact
  split at hact
  · cases hact
    exact (h.sendBegin _ _).congr rfl rfl rfl
  · cases hact
    exact h.congr rfl rfl rfl
  · obtain ⟨ring, -, he⟩ := Option.map_eq_some_iff.mp hact
    cases he
    exact h.congr rfl rfl rfl
  · split at hact
    · cases hact
      exact h.congr rfl rfl rfl
    · cases hact
  · cases hact
    exact h.congr rfl rfl rfl
  · split at hact
    · exact h.lockedAct hact
    · exact h.notifyAct hact

theorem Conserved.step (h : Conserved lists s) {a : Act} (hst : step lists s a = some t) :
    Conserved lists t := by
  unfold Xennet6.step at hst
  split at hst
  · cases hst
  obtain ⟨r, hr, rfl⟩ := Option.map_eq_some_iff.mp hst
  cases r with
  | ok u => exact h.act hr
  | error c => exact h.congr rfl rfl rfl

/-- Whatever NDIS sends, the grant tables give and the back end answers, and whenever the machine is
suspended, no TX shadow is lost or has two owners, and no net buffer list is lost or completed twice. -/
theorem tx_shadows_conserved {adapter : Adapter} (h : (machine lists adapter).Reach Machine.Any s) :
    Conserved lists s := by
  refine h.inv ?_ fun _ _ _ hi _ hst => hi.step hst
  obtain ⟨free, hp⟩ := pool_fresh
  exact ⟨⟨free, fun _ => [], hp, fun _ => rfl, fun _ => List.nodup_nil, fun _ _ _ hx => (by cases hx),
    fun x => .inl ((hp.mem_iff x).mpr rfl), fun _ hb => absurd rfl hb⟩, .refl _, rfl⟩

theorem short_offset : 0 < pageSize := by decide

theorem short_mss : 0 ≤ bounceBufferSize := Nat.zero_le _

/-- Net buffer lists of one net buffer of 60 bytes. -/
def shortLists : Nat → NetBufferList := fun _ =>
  { count := 1
    pos := Nat.one_pos
    buffer := fun _ =>
      { mdls := [⟨0, 60, short_offset⟩]
        currentMdlOffset := 0
        dataLength := 60
        physicalCount := 0
        length_le := by decide
        covers := by decide
        breaks := fun frags h => by
          obtain rfl : [⟨0, 0, 60⟩] = frags := Except.ok.inj h
          decide }
    mss := 0
    mss_le := short_mss
    userPriority := 0 }

def connected : Adapter := ⟨false, false, true, true, false, true⟩

/-- A net buffer and a fake ARP are on the ring. -/
theorem tx_shadows_conserved_sent : ∃ s, ((machine shortLists connected).Reach Machine.Any s ∧
    (s.info.availableShadows == 254 && s.queuedList == [0]) = true) ∧ Conserved shortLists s := by
  obtain ⟨s, hs, hp⟩ := Machine.exists_reach (machine shortLists connected) Machine.Any
    (fun s => s.info.availableShadows == 254 && s.queuedList == [0])
    [.sendBegin 1, .sendNext 0, .sendDone 0 ⟨some, fun _ _ _ => true⟩, .sendFakeArp none] (by decide)
  exact ⟨s, ⟨hs, hp⟩, tx_shadows_conserved hs⟩

end Kept

end XcWindows.Xennet6
