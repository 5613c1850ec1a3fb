import Mathlib.Algebra.Group.Nat.Defs
import XcWindows.Lib.Machine

/-!
# The multi-reader single-writer lock

`acquire_mrsw_read`, `try_acquire_mrsw_read`, `release_mrsw_read`, `acquire_mrsw_write` and
`release_mrsw_write` of `inc/scsiboot.h`, run by any number of parties. Each step of a party is one
access to the lock word: a load, a compare and exchange, a decrement. The saved `KIRQL` is a
processor's own and no test reads it.

The release of a writer compares a `LONG` with an `unsigned` in `ULONG_PTR`: where that has 64 bits
the flag in the sign bit is widened to another value (`xmAssert3uEq_held`). `StepFits` leaves out that
release and the `2^31`st reader, whose count is the flag; `Inv` is the invariant of the runs without
them.
-/

namespace XcWindows.Suspend.Mrsw

open XcWindows.Lib

abbrev xmMrswWriterHeld : BitVec 32 := 0x80000000#32

/-- The test `lock & XM_MRSW_WRITER_HELD`. -/
def writerFlag (lock : BitVec 32) : Bool := lock &&& xmMrswWriterHeld != 0#32

/-- `XM_ASSERT3U(x, ==, y)` of a `LONG` and an `unsigned`, in a `ULONG_PTR` of `w` bits. -/
def xmAssert3uEq (w : Nat) (x y : BitVec 32) : Bool := x.signExtend w == y.setWidth w

/-- Where a party is in the lock's code. -/
inductive Pc where
  | idle
  | readLoad (once : Bool)
  | readExchange (once : Bool) (lock : BitVec 32)
  | reading
  | readAssert
  | readDecrement
  /-- In `acquire_mrsw_write`, at the IRQL of the caller. -/
  | writeWait
  | writeLoad
  | writeExchange
  | writing
  /-- An assertion has fired. -/
  | bugcheck
  deriving DecidableEq

inductive Act where
  | acquireMrswRead
  | tryAcquireMrswRead
  | acquireMrswWrite
  | release
  /-- The next step of the call the party is in. -/
  | run

/-- One step of a party: the lock word and where the party is behind it. -/
def partyStep (w : Nat) (lock : BitVec 32) : Pc → Act → Option (BitVec 32 × Pc)
  | .idle, .acquireMrswRead => some (lock, .readLoad false)
  | .idle, .tryAcquireMrswRead => some (lock, .readLoad true)
  | .idle, .acquireMrswWrite => some (lock, .writeWait)
  | .readLoad once, .run =>
    if writerFlag lock then some (lock, if once then .idle else .readLoad once)
    else some (lock, .readExchange once lock)
  | .readExchange once seen, .run =>
    if lock = seen then some (seen + 1#32, .reading) else some (lock, .readLoad once)
  | .reading, .release => some (lock, if lock ≠ 0#32 then .readAssert else .bugcheck)
  | .readAssert, .run => some (lock, if writerFlag lock then .bugcheck else .readDecrement)
  | .readDecrement, .run => some (lock - 1#32, .idle)
  | .writeWait, .run => some (lock, if lock ≠ 0#32 then .writeWait else .writeLoad)
  | .writeLoad, .run => some (lock, if lock ≠ 0#32 then .writeLoad else .writeExchange)
  | .writeExchange, .run =>
    if lock = 0#32 then some (xmMrswWriterHeld, .writing) else some (lock, .writeLoad)
  | .writing, .release =>
    some (if lock = xmMrswWriterHeld then 0#32 else lock,
      if xmAssert3uEq w lock xmMrswWriterHeld then .idle else .bugcheck)
  | _, _ => none

/-- The party holds the lock for reading. -/
def Pc.reads : Pc → Bool
  | .reading | .readAssert | .readDecrement => true
  | _ => false

/-- The party holds the lock for writing. -/
def Pc.writes : Pc → Bool
  | .writing => true
  | _ => false

/-- `struct xm_mrsw_irqsafe_lock` and the parties that use it. -/
structure State where
  lock : BitVec 32
  parties : List Pc

def State.readers (s : State) : Nat := s.parties.countP Pc.reads

def State.writers (s : State) : Nat := s.parties.countP Pc.writes

/-- The step of party `a.1`. -/
def step (w : Nat) (s : State) (a : Nat × Act) : Option State :=
  s.parties[a.1]?.bind fun pc =>
    (partyStep w s.lock pc a.2).map fun r => ⟨r.1, s.parties.set a.1 r.2⟩

/-- `n` parties and a `ULONG_PTR` of `w` bits. -/
def machine (w n : Nat) : Machine State (Nat × Act) where
  init := ⟨0#32, .replicate n .idle⟩
  step := step w

/-- The lock excludes, its word says who holds it, and no assertion has fired. -/
structure Disciplined (s : State) : Prop where
  exclusive : s.writers = 0 ∨ s.writers = 1 ∧ s.readers = 0
  word : s.writers = 0 ∧ s.lock.toInt = s.readers ∨ s.writers = 1 ∧ s.lock = xmMrswWriterHeld
  quiet : ∀ pc ∈ s.parties, pc ≠ .bugcheck

/-- A reader does not count up to the flag, and a writer releases where the assertion compares in 32
bits. -/
def Pc.Fits (w : Nat) (lock : BitVec 32) : Pc → Prop
  | .readExchange _ seen => lock = seen → seen ≠ 0x7fffffff#32
  | .writing => w = 32
  | _ => True

instance (w : Nat) (lock : BitVec 32) : (pc : Pc) → Decidable (pc.Fits w lock)
  | .readExchange _ seen => inferInstanceAs (Decidable (lock = seen → seen ≠ 0x7fffffff#32))
  | .writing => inferInstanceAs (Decidable (w = 32))
  | .idle | .readLoad _ | .reading | .readAssert | .readDecrement | .writeWait | .writeLoad
  | .writeExchange | .bugcheck => .isTrue trivial

def StepFits (w : Nat) (s : State) (a : Nat × Act) : Prop :=
  ∀ pc ∈ s.parties[a.1]?, pc.Fits w s.lock

instance (w : Nat) (s : State) (a : Nat × Act) : Decidable (StepFits w s a) :=
  inferInstanceAs (Decidable (∀ pc ∈ s.parties[a.1]?, pc.Fits w s.lock))

/-! ## What a step does -/

theorem writerFlag_eq_false {lock : BitVec 32} : writerFlag lock = false ↔ lock.toNat < 2 ^ 31 := by
  unfold writerFlag
  rw [bne_eq_false_iff_eq, show xmMrswWriterHeld = BitVec.twoPow 32 31 from rfl, BitVec.and_twoPow,
    ← BitVec.msb_eq_getLsbD_last (x := lock), BitVec.msb_eq_decide]
  simp

/-- What a step can do to the lock word, from a party at `p` to the same party at `q`. -/
inductive Effect (w : Nat) (lock : BitVec 32) : Pc → BitVec 32 → Pc → Prop
  | stay {p q : Pc} (hr : q.reads = p.reads) (hw : q.writes = p.writes) (hb : q ≠ .bugcheck)
      (hs : ∀ once seen, q = .readExchange once seen → seen.toNat < 2 ^ 31) : Effect w lock p lock q
  | takeRead (once : Bool) : Effect w lock (.readExchange once lock) (lock + 1#32) .reading
  | dropRead : Effect w lock .readDecrement (lock - 1#32) .idle
  | takeWrite (h : lock = 0#32) : Effect w lock .writeExchange xmMrswWriterHeld .writing
  | dropWrite : Effect w lock .writing (if lock = xmMrswWriterHeld then 0#32 else lock)
      (if xmAssert3uEq w lock xmMrswWriterHeld then .idle else .bugcheck)
  | fire {p : Pc} (hp : p.reads = true) (h : lock = 0#32 ∨ 2 ^ 31 ≤ lock.toNat) :
      Effect w lock p lock .bugcheck

theorem partyStep_effect {w : Nat} {lock lock' : BitVec 32} {p q : Pc} {a : Act}
    (h : partyStep w lock p a = some (lock', q)) : Effect w lock p lock' q := by
  have hflag : ¬ writerFlag lock = true ↔ lock.toNat < 2 ^ 31 := by
    rw [Bool.not_eq_true, writerFlag_eq_false]
  unfold partyStep at h
  split at h
  case h_4 once =>
    split at h <;> cases h
    · cases once <;> exact .stay rfl rfl nofun nofun
    · next hf =>
      refine .stay rfl rfl nofun fun _ seen he => ?_
      cases he
      exact hflag.mp hf
  case h_5 once seen =>
    split at h <;> cases h
    · next he =>
      subst he
      exact .takeRead once
    · exact .stay rfl rfl nofun nofun
  case h_6 =>
    cases h
    by_cases h0 : lock = 0#32
    · rw [if_neg (not_not.mpr h0)]
      exact .fire rfl (.inl h0)
    · rw [if_pos h0]
      exact .stay rfl rfl nofun nofun
  case h_7 =>
    cases h
    split
    · next hf => exact .fire rfl (.inr (Nat.le_of_not_lt fun hlt => hflag.mpr hlt hf))
    · exact .stay rfl rfl nofun nofun
  case h_8 => cases h; exact .dropRead
  case h_11 =>
    split at h <;> cases h
    · next h0 => exact .takeWrite h0
    · exact .stay rfl rfl nofun nofun
  case h_12 => cases h; exact .dropWrite
  all_goals cases h
  all_goals first | exact .stay rfl rfl nofun nofun | (split <;> exact .stay rfl rfl nofun nofun)

/-! ## The invariant -/

/-- The word is the number of readers, fewer than `2^31`, or the flag of the one writer. -/
structure Inv (s : State) : Prop where
  word : s.writers = 0 ∧ s.lock.toNat = s.readers ∧ s.readers < 2 ^ 31 ∨
    s.writers = 1 ∧ s.readers = 0 ∧ s.lock = xmMrswWriterHeld
  seen : ∀ once seen, Pc.readExchange once seen ∈ s.parties → seen.toNat < 2 ^ 31
  quiet : .bugcheck ∉ s.parties

section Step
variable {w : Nat} {s t : State} {a : Nat × Act} {p q : Pc}

theorem Inv.disciplined (h : Inv s) : Disciplined s where
  exclusive := h.word.imp And.left fun hw => ⟨hw.1, hw.2.1⟩
  word := by
    rcases h.word with ⟨hw, hl, hr⟩ | ⟨hw, -, hl⟩
    · refine .inl ⟨hw, ?_⟩
      rw [BitVec.toInt_eq_toNat_of_lt (by omega), hl]
    · exact .inr ⟨hw, hl⟩
  quiet pc hm he := h.quiet (he ▸ hm)

theorem inv_init (w n : Nat) : Inv (machine w n).init where
  word := by
    simp [machine, State.readers, State.writers, List.countP_replicate, Pc.reads, Pc.writes]
  seen once seen hm := by cases List.eq_of_mem_replicate hm
  quiet hm := by cases List.eq_of_mem_replicate hm

theorem countP_set_add (f : Pc → Bool) {l : List Pc} {i : Nat} (hp : l[i]? = some p) (q : Pc) :
    (l.set i q).countP f + (f p).toNat = l.countP f + (f q).toNat := by
  obtain ⟨hi, hp⟩ := List.getElem?_eq_some_iff.mp hp
  have hpos : (f p).toNat ≤ l.countP f := by
    cases hf : f p with
    | false => exact Nat.zero_le _
    | true => exact List.countP_pos_iff.mpr ⟨p, hp ▸ List.getElem_mem hi, hf⟩
  rw [List.countP_set hi, hp]
  revert hpos
  cases f p <;> cases f q <;> simp only [Bool.toNat_true, Bool.toNat_false, if_true, if_false,
    Bool.false_eq_true] <;> omega

theorem xmAssert3uEq_held : xmAssert3uEq 32 xmMrswWriterHeld xmMrswWriterHeld = true ∧
    xmAssert3uEq 64 xmMrswWriterHeld xmMrswWriterHeld = false := by decide

theorem Inv.step (h : Inv s) (ok : StepFits w s a) (hst : step w s a = some t) : Inv t := by
  obtain ⟨p, hp, hst⟩ := Option.bind_eq_some_iff.mp hst
  obtain ⟨⟨lock', q⟩, hq, ht⟩ := Option.map_eq_some_iff.mp hst
  obtain rfl : t = ⟨lock', s.parties.set a.1 q⟩ := ht.symm
  have hmem : p ∈ s.parties := List.mem_of_getElem? hp
  have hfit : p.Fits w s.lock := ok p hp
  have hreads : State.readers ⟨lock', s.parties.set a.1 q⟩ + p.reads.toNat =
    s.readers + q.reads.toNat := countP_set_add Pc.reads hp q
  have hwrites : State.writers ⟨lock', s.parties.set a.1 q⟩ + p.writes.toNat =
    s.writers + q.writes.toNat := countP_set_add Pc.writes hp q
  -- the party that moves is at neither of the two places unless it is put there
  have hseen (hq : ∀ once seen, q = .readExchange once seen → seen.toNat < 2 ^ 31) (once : Bool)
      (seen : BitVec 32) (hm : .readExchange once seen ∈ s.parties.set a.1 q) :
      seen.toNat < 2 ^ 31 :=
    (List.mem_or_eq_of_mem_set hm).elim (h.seen once seen) fun he => hq once seen he.symm
  have hquiet (hq : q ≠ .bugcheck) : Pc.bugcheck ∉ s.parties.set a.1 q := fun hm =>
    (List.mem_or_eq_of_mem_set hm).elim h.quiet fun he => hq he.symm
  have hone : p.reads.toNat ≤ s.readers := by
    cases hr : p.reads with
    | false => exact Nat.zero_le _
    | true => exact List.countP_pos_iff.mpr ⟨p, hmem, hr⟩
  have hword := h.word
  cases partyStep_effect hq with
  | stay hr hw hb hs =>
    rw [hr] at hreads
    rw [hw] at hwrites
    exact ⟨by simpa only [Nat.add_right_cancel hreads, Nat.add_right_cancel hwrites] using hword,
      hseen hs, hquiet hb⟩
  | takeRead once =>
    refine ⟨.inl ?_, hseen nofun, hquiet nofun⟩
    have hlt := h.seen once s.lock hmem
    have hne : s.lock.toNat ≠ 0x7fffffff := fun hc => hfit rfl (BitVec.eq_of_toNat_eq hc)
    rcases hword with ⟨hw, hl, hr⟩ | ⟨-, -, hl⟩
    · simp only [Pc.reads, Pc.writes, Bool.toNat_true, Bool.toNat_false] at hreads hwrites
      rw [BitVec.toNat_add, BitVec.toNat_ofNat, Nat.mod_eq_of_lt (by omega)]
      omega
    · rw [hl] at hlt
      exact absurd hlt (by decide)
  | dropRead =>
    refine ⟨?_, hseen nofun, hquiet nofun⟩
    simp only [Pc.reads, Pc.writes, Bool.toNat_true, Bool.toNat_false] at hreads hwrites hone
    rcases hword with ⟨hw, hl, hr⟩ | ⟨-, hr, -⟩
    · left
      rw [BitVec.toNat_sub_of_le (BitVec.le_def.mpr (by rw [BitVec.toNat_ofNat]; omega)),
        BitVec.toNat_ofNat]
      omega
    · omega
  | takeWrite h0 =>
    refine ⟨.inr ?_, hseen nofun, hquiet nofun⟩
    simp only [Pc.reads, Pc.writes, Bool.toNat_true, Bool.toNat_false] at hreads hwrites
    rcases hword with ⟨hw, hl, hr⟩ | ⟨-, -, hl⟩
    · rw [h0] at hl
      exact ⟨by omega, by simp only [BitVec.toNat_ofNat] at hl; omega, rfl⟩
    · rw [hl] at h0
      exact absurd h0 (by decide)
  | dropWrite =>
    have hw32 : w = 32 := hfit
    subst hw32
    have hwone : 0 < s.writers := List.countP_pos_iff.mpr ⟨.writing, hmem, rfl⟩
    rcases hword with ⟨hw, -, -⟩ | ⟨hw, hr, hl⟩
    · omega
    · simp only [hl, xmAssert3uEq_held.1, if_true] at hreads hwrites hseen hquiet ⊢
      simp only [Pc.reads, Pc.writes, Bool.toNat_true, Bool.toNat_false] at hreads hwrites
      exact ⟨.inl ⟨by omega, by rw [BitVec.toNat_ofNat]; omega, by omega⟩, hseen nofun,
        hquiet nofun⟩
  | fire hr h0 =>
    rw [hr] at hone
    simp only [Bool.toNat_true] at hone
    rcases hword with ⟨-, hl, hlt⟩ | ⟨-, hr', -⟩
    · rcases h0 with h0 | h0
      · rw [h0, BitVec.toNat_ofNat] at hl
        omega
      · omega
    · omega

theorem Inv.not_disciplined (h : Inv s) (hw : w = 32 ∨ w = 64) (ok : ¬ StepFits w s a)
    (hst : Mrsw.step w s a = some t) : ¬ Disciplined t := by
  obtain ⟨p, hp, hst⟩ := Option.bind_eq_some_iff.mp hst
  obtain ⟨⟨lock', q⟩, hq, ht⟩ := Option.map_eq_some_iff.mp hst
  obtain rfl : t = ⟨lock', s.parties.set a.1 q⟩ := ht.symm
  have hfit : ¬ p.Fits w s.lock := fun hf => ok fun p' hp' => by
    rw [hp] at hp'
    exact Option.some.inj hp' ▸ hf
  have hmem : p ∈ s.parties := List.mem_of_getElem? hp
  obtain ⟨hi, -⟩ := List.getElem?_eq_some_iff.mp hp
  intro hd
  cases p with
  | readExchange once seen =>
    obtain ⟨he, hs⟩ : s.lock = seen ∧ ¬ seen ≠ 0x7fffffff#32 := Classical.not_imp.mp hfit
    have hs := not_not.mp hs
    have hwrites := countP_set_add Pc.writes hp q
    have hlt := h.seen once seen hmem
    obtain ⟨ha, hq⟩ : a.2 = .run ∧ (seen + 1#32, Pc.reading) = (lock', q) := by
      cases hact : a.2 <;> simp [partyStep, hact, he] at hq
      exact ⟨rfl, Prod.ext hq.1 hq.2⟩
    cases hq
    rcases h.word with ⟨hw0, -, -⟩ | ⟨-, -, hl⟩
    · rcases hd.word with ⟨-, hint⟩ | ⟨hw1, -⟩
      · have hneg : (seen + 1#32).toInt = -2147483648 := by rw [hs]; rfl
        have hint : (seen + 1#32).toInt = _ := hint
        omega
      · have : State.writers ⟨seen + 1#32, s.parties.set a.1 .reading⟩ + 0 = s.writers + 0 := hwrites
        omega
    · rw [he] at hl
      rw [hl] at hlt
      exact absurd hlt (by decide)
  | writing =>
    have hw64 : w = 64 := hw.resolve_left hfit
    subst hw64
    have hwone : 0 < s.writers := List.countP_pos_iff.mpr ⟨.writing, hmem, rfl⟩
    rcases h.word with ⟨hw0, -, -⟩ | ⟨-, -, hl⟩
    · omega
    · obtain rfl : q = .bugcheck := by
        cases hact : a.2 <;> simp [partyStep, hact, hl, xmAssert3uEq_held.2] at hq
        exact hq.2.symm
      exact hd.quiet _ (List.mem_set hi _) rfl
  | _ => exact hfit trivial

end Step

/-- For any number of parties and any order of their steps, the lock excludes, its word is the number
of readers or the flag and no assertion fires, as long as the steps fit. -/
theorem mrsw_lock {w n : Nat} {s : State} (h : (machine w n).Reach (StepFits w) s) :
    Disciplined s :=
  (h.inv (inv_init w n) fun _ _ _ hi ok hst => hi.step ok hst).disciplined

/-- Two readers and a writer take turns. -/
theorem mrsw_lock_turns : ∃ s, ((machine 32 3).Reach (StepFits 32) s ∧
    (s.writers == 1 && s.parties.length == 3) = true) ∧ Disciplined s := by
  obtain ⟨s, hs, hp⟩ := Machine.exists_reach (machine 32 3) (StepFits 32)
    (fun s => s.writers == 1 && s.parties.length == 3)
    [(0, .acquireMrswRead), (1, .tryAcquireMrswRead), (0, .run), (1, .run), (0, .run), (2, .acquireMrswWrite),
      (1, .run), (1, .run), (1, .run), (0, .release), (1, .release), (0, .run), (1, .run), (0, .run),
      (2, .run), (1, .run), (2, .run), (2, .run), (2, .run)] (by decide)
  exact ⟨s, ⟨hs, hp⟩, mrsw_lock hs⟩

/-- Where a `ULONG_PTR` has 64 bits, the release of a writer fires its assertion. -/
theorem mrsw_write_release_fires : ∃ s, (machine 64 1).Reach Machine.Any s ∧ ¬ Disciplined s := by
  obtain ⟨s, hs, hp⟩ := Machine.exists_reach (machine 64 1) Machine.Any
    (fun s => s.parties.contains .bugcheck)
    [(0, .acquireMrswWrite), (0, .run), (0, .run), (0, .run), (0, .release)] (by decide)
  refine ⟨s, hs, fun hd => ?_⟩
  exact hd.quiet _ (List.contains_iff_mem.mp hp) rfl

end XcWindows.Suspend.Mrsw
