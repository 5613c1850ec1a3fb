import Mathlib.Data.List.Induction
import Mathlib.Data.Nat.Digits.Defs
import XcWindows.Lib.Word
import XcWindows.Xenbus.Transaction

/-!
# XenStore integers

`xenbus_read_int`, `xenbus_read_state` and `xenbus_read_domain_id` of `xenutil/xenbus.c` and
`xenbus_read_evtchn_port` of `xenutil/evtchn.c`, over `xm_strtoll`. The parser goes on behind a
character that is no digit, with the value of a digit that large, so that its result is the
positional value modulo `2^64` of whatever is stored (`xmStrtoll_spec`) and only `err` tells a
numeral from the rest. It has no error for a value without digits, and `xenbus_read_domain_id` does
not look at `err` at all.
-/

namespace XcWindows.Xenbus

open XcWindows.Lib

/-- The digit a character stands for; `base` for any character that is none. -/
def digitOf (base : Nat) (b : UInt8) : Nat :=
  if 48 ≤ b.toNat ∧ b.toNat ≤ 57 then b.toNat - 48
  else if 97 ≤ b.toNat ∧ b.toNat ≤ 102 then b.toNat - 97 + 10
  else if 65 ≤ b.toNat ∧ b.toNat ≤ 70 then b.toNat - 65 + 10
  else base

/-- One pass of the loop of `xm_strtoll`, over `acc` and `err`. -/
def strtollStep (base : Nat) (s : Nat × Bool) (b : UInt8) : Nat × Bool :=
  let digit := digitOf base b
  let err := s.2 || decide (base ≤ digit) || decide ((2 ^ 64 - 1) / base < s.1)
  let acc := u64 (s.1 * base)
  (u64 (acc + digit), err || decide (u64 (acc + digit) < acc))

/-- The loop of `xm_strtoll`, over the characters that are left. -/
def strtollLoop (base : Nat) : List UInt8 → Nat × Bool → Nat × Bool
  | [], s => s
  | b :: rest, s =>
    if b = 0 ∧ rest = [] then s else strtollLoop base rest (strtollStep base s b)

/-- `xm_strtoll`: the value and `*err`; `none` is a failed assertion. -/
def xmStrtoll (buf : List UInt8) (base : Nat) : Option (Nat × Bool) :=
  if base = 10 ∨ base = 16 then some (strtollLoop base buf (0, false)) else none

/-- The status a reader returns, what it leaves in `*res`, and the transaction. -/
structure ReadResult (α : Type) where
  status : NtStatus
  res : α
  xbt : Xbt
deriving DecidableEq

def xenbusReadInt (xbt : Xbt) (reply : Reply) : Option (ReadResult Nat) :=
  match xenbusReadBin xbt reply with
  | (xbt, .error e) => some ⟨.error e, 0, xbt⟩
  | (xbt, .ok buf) =>
    (xmStrtoll buf 10).map fun (r, err) =>
      if err then ⟨.error .dataError, 0, xbt.fail .dataError⟩ else ⟨.success, r, xbt⟩

structure XenbusState where
  wrapped : UInt32
deriving DecidableEq

def nullXenbusState : XenbusState := ⟨0⟩

def wrapXenbusState (x : Nat) : XenbusState := ⟨UInt32.ofNat x⟩

def unwrapXenbusState (x : XenbusState) : Nat := x.wrapped.toNat

abbrev xenbusStateClosed : Nat := 6

def xenbusReadState (xbt : Xbt) (reply : Reply) : Option (ReadResult XenbusState) :=
  (xenbusReadInt xbt reply).map fun r =>
    match r.status with
    | .error e => ⟨.error e, nullXenbusState, r.xbt⟩
    | .success =>
      if r.res > xenbusStateClosed ∨ r.res = 0 then
        ⟨.error .dataError, nullXenbusState, r.xbt.fail .dataError⟩
      else ⟨.success, wrapXenbusState r.res, r.xbt⟩

structure DomainId where
  wrapped : UInt32
deriving DecidableEq

def nullDomainId : DomainId := ⟨0⟩

def wrapDomainId (x : Nat) : DomainId := ⟨UInt32.ofNat x ^^^ 0xf001⟩

def unwrapDomainId (x : DomainId) : Nat := (x.wrapped ^^^ 0xf001).toNat

abbrev domidFirstReserved : Nat := 0x7ff0

/-- `xenbus_read_domain_id`; `err` is set and not read. -/
def xenbusReadDomainId (xbt : Xbt) (reply : Reply) : Option (ReadResult DomainId) :=
  match xenbusReadBin xbt reply with
  | (xbt, .error e) => some ⟨.error e, nullDomainId, xbt⟩
  | (xbt, .ok buf) =>
    (xmStrtoll buf 10).map fun (number, _) =>
      if domidFirstReserved ≤ number then
        ⟨.error .invalidParameter, nullDomainId, xbt.fail .invalidParameter⟩
      else ⟨.success, wrapDomainId number, xbt⟩

structure AlienEvtchnPort where
  wrapped : UInt32
deriving DecidableEq

def nullAlienEvtchnPort : AlienEvtchnPort := ⟨0⟩

def wrapAlienEvtchnPort (x : Nat) : AlienEvtchnPort := ⟨UInt32.ofNat x ^^^ 0xf001dead⟩

def unwrapAlienEvtchnPort (x : AlienEvtchnPort) : Nat := (x.wrapped ^^^ 0xf001dead).toNat

def xenbusReadEvtchnPort (xbt : Xbt) (reply : Reply) : Option (ReadResult AlienEvtchnPort) :=
  (xenbusReadInt xbt reply).map fun r =>
    match r.status with
    | .error e => ⟨.error e, nullAlienEvtchnPort, r.xbt⟩
    | .success =>
      if r.res ≠ u32 r.res then
        ⟨.error .dataError, nullAlienEvtchnPort, r.xbt.fail .dataError⟩
      else ⟨.success, wrapAlienEvtchnPort (u32 r.res), r.xbt⟩

/-! ## Numerals -/

/-- `'0'` to `'9'` -/
def IsDigit (b : UInt8) : Prop := 48 ≤ b.toNat ∧ b.toNat ≤ 57

instance (b : UInt8) : Decidable (IsDigit b) := inferInstanceAs (Decidable (_ ∧ _))

/-- The value is the decimal numeral of `n`, with or without a NUL behind it. -/
def Numeral (value : List UInt8) (n : Nat) : Prop :=
  ∃ ds, ds ≠ [] ∧ (∀ b ∈ ds, IsDigit b) ∧ (value = ds ∨ value = ds ++ [0]) ∧
    Nat.ofDigits 10 (ds.reverse.map fun b => b.toNat - 48) = n

/-- The value without a NUL at its end. -/
def text : List UInt8 → List UInt8
  | [] => []
  | b :: rest => if b = 0 ∧ rest = [] then [] else b :: text rest

/-- The positional value of any text: `a` to `f` count for ten to fifteen and every other character
that is no digit for `base`. -/
def positional (base : Nat) (value : List UInt8) : Nat :=
  Nat.ofDigits base ((text value).reverse.map (digitOf base))

theorem digitOf_digit {base : Nat} {b : UInt8} (h : IsDigit b) : digitOf base b = b.toNat - 48 :=
  if_pos h

theorem digitOf_lt_ten {b : UInt8} : digitOf 10 b < 10 ↔ IsDigit b := by
  unfold digitOf IsDigit
  split
  · next h => exact ⟨fun _ => h, fun _ => by omega⟩
  · next h =>
    refine ⟨fun hlt => ?_, fun hd => absurd hd h⟩
    split at hlt <;> [skip; split at hlt] <;> omega

theorem digitOf_le {base : Nat} {b : UInt8} (hb : base ≤ 16) : digitOf base b ≤ 16 := by
  unfold digitOf
  split <;> [skip; split <;> [skip; split]] <;> omega

theorem text_or (value : List UInt8) : value = text value ∨ value = text value ++ [0] := by
  induction value with
  | nil => exact .inl rfl
  | cons b rest ih =>
    unfold text
    split
    · next h => exact .inr (by rw [h.1, h.2]; rfl)
    · rcases ih with ih | ih
      · exact .inl (congrArg (b :: ·) ih)
      · exact .inr (congrArg (b :: ·) ih)

theorem text_digits {ds : List UInt8} (h : ∀ b ∈ ds, IsDigit b) :
    text ds = ds ∧ text (ds ++ [0]) = ds := by
  induction ds with
  | nil => exact ⟨rfl, rfl⟩
  | cons b rest ih =>
    have hb : b ≠ 0 := by
      rintro rfl
      exact absurd (h 0 List.mem_cons_self) (by decide)
    obtain ⟨h1, h2⟩ := ih fun c hc => h c (List.mem_cons_of_mem _ hc)
    simp [text, hb, h1, h2]

theorem numeral_iff {value : List UInt8} {n : Nat} :
    Numeral value n ↔
      text value ≠ [] ∧ (∀ b ∈ text value, IsDigit b) ∧ positional 10 value = n := by
  have hval : ∀ ds : List UInt8, (∀ b ∈ ds, IsDigit b) →
      ds.reverse.map (digitOf 10) = ds.reverse.map fun b => b.toNat - 48 := by
    intro ds hds
    exact List.map_congr_left fun b hb => digitOf_digit (hds b (List.mem_reverse.mp hb))
  constructor
  · rintro ⟨ds, hne, hds, hv, rfl⟩
    have ht : text value = ds := by
      rcases hv with rfl | rfl
      · exact (text_digits hds).1
      · exact (text_digits hds).2
    unfold positional
    rw [ht, hval ds hds]
    exact ⟨hne, hds, rfl⟩
  · rintro ⟨hne, hds, rfl⟩
    exact ⟨text value, hne, hds, text_or value, by rw [positional, hval _ hds]⟩

/-! ## The parser -/

section Parser

variable {base : Nat} {value : List UInt8}

theorem strtollLoop_eq (s : Nat × Bool) :
    strtollLoop base value s = (text value).foldl (strtollStep base) s := by
  induction value generalizing s with
  | nil => rfl
  | cons b rest ih =>
    unfold strtollLoop text
    split
    · rfl
    · exact ih _

theorem strtollStep_spec {v : Nat} {err : Bool} {b : UInt8} (h2 : 2 ≤ base) (h16 : base ≤ 16) :
    (strtollStep base (u64 v, err) b).1 = u64 (v * base + digitOf base b) ∧
      ((v < 2 ^ 64 ∧ err = false) → ((strtollStep base (u64 v, err) b).2 = false ↔
        digitOf base b < base ∧ v * base + digitOf base b < 2 ^ 64)) ∧
      (err = true → (strtollStep base (u64 v, err) b).2 = true) := by
  have hd := digitOf_le (b := b) h16
  refine ⟨?_, ?_, ?_⟩
  · simp only [strtollStep, u64]
    rw [Nat.mod_mul_mod, Nat.mod_add_mod]
  · rintro ⟨hv, rfl⟩
    have hv64 : u64 v = v := Nat.mod_eq_of_lt hv
    simp only [strtollStep, hv64, Bool.false_or, Bool.or_eq_false_iff, decide_eq_false_iff_not,
      Nat.not_le, Nat.not_lt]
    constructor
    · rintro ⟨⟨h1, h3⟩, h4⟩
      have hle : v * base ≤ 2 ^ 64 - 1 := (Nat.le_div_iff_mul_le (by omega)).mp h3
      have hu : u64 (v * base) = v * base := Nat.mod_eq_of_lt (by omega)
      rw [hu] at h4
      refine ⟨h1, ?_⟩
      by_contra hc
      -- the sum wraps, and is then less than the product
      have : u64 (v * base + digitOf base b) = v * base + digitOf base b - 2 ^ 64 := by
        simp only [u64]; omega
      omega
    · rintro ⟨h1, h3⟩
      have hle : v ≤ (2 ^ 64 - 1) / base := (Nat.le_div_iff_mul_le (by omega)).mpr (by omega)
      have hu : u64 (v * base) = v * base := Nat.mod_eq_of_lt (by omega)
      rw [hu, show u64 (v * base + digitOf base b) = v * base + digitOf base b from
        Nat.mod_eq_of_lt h3]
      exact ⟨⟨h1, hle⟩, by omega⟩
  · rintro rfl
    simp [strtollStep]

theorem foldl_strtollStep (h2 : 2 ≤ base) (h16 : base ≤ 16) (ds : List UInt8) :
    (ds.foldl (strtollStep base) (0, false)).1 =
        u64 (Nat.ofDigits base (ds.reverse.map (digitOf base))) ∧
      ((ds.foldl (strtollStep base) (0, false)).2 = false ↔
        (∀ b ∈ ds, digitOf base b < base) ∧
          Nat.ofDigits base (ds.reverse.map (digitOf base)) < 2 ^ 64) := by
  induction ds using List.reverseRecOn with
  | nil => simp
  | append_singleton ds b ih =>
    obtain ⟨ih1, ih2⟩ := ih
    have hval : Nat.ofDigits base ((ds ++ [b]).reverse.map (digitOf base)) =
        Nat.ofDigits base (ds.reverse.map (digitOf base)) * base + digitOf base b := by
      rw [List.reverse_append, List.reverse_singleton, List.singleton_append, List.map_cons,
        Nat.ofDigits_cons, Nat.mul_comm, Nat.add_comm]
    rw [List.foldl_append, List.foldl_cons, List.foldl_nil, hval]
    generalize Nat.ofDigits base (ds.reverse.map (digitOf base)) = v at *
    generalize ds.foldl (strtollStep base) (0, false) = s at *
    obtain ⟨acc, err⟩ := s
    simp only at ih1 ih2
    subst ih1
    obtain ⟨h1, h3, h4⟩ := @strtollStep_spec base v err b h2 h16
    refine ⟨h1, ?_⟩
    have hmono : v ≤ v * base := Nat.le_mul_of_pos_right v (by omega)
    simp only [List.mem_append, List.mem_singleton, or_imp, forall_and, forall_eq]
    by_cases hs : err = false
    · obtain ⟨h5, h6⟩ := ih2.mp hs
      rw [h3 ⟨h6, hs⟩]
      exact ⟨fun h => ⟨⟨h5, h.1⟩, h.2⟩, fun h => ⟨h.1.2, h.2⟩⟩
    · rw [h4 (by simpa using hs)]
      exact iff_of_false (by decide) fun h => hs (ih2.mpr ⟨h.1.1, by omega⟩)

theorem xmStrtoll_spec (value : List UInt8) :
    ∃ err, xmStrtoll value 10 = some (u64 (positional 10 value), err) ∧
      (err = false ↔ (∀ b ∈ text value, IsDigit b) ∧ positional 10 value < 2 ^ 64) := by
  obtain ⟨h1, h2⟩ := @foldl_strtollStep 10 (by decide) (by decide) (text value)
  simp only [digitOf_lt_ten] at h2
  refine ⟨_, ?_, h2⟩
  rw [xmStrtoll, if_pos (.inl rfl), strtollLoop_eq, positional, ← h1]

end Parser

/-! ## The readers -/

/-- The value is stored and readable in the transaction: a numeral in the range. -/
def Stored (inRange : Nat → Prop) (xbt : Xbt) (reply : Reply) (n : Nat) : Prop :=
  xbt.transactionStatus = .success ∧ ∃ value, reply = .ok value ∧ Numeral value n ∧ inRange n

/-- A reader returns the number that is stored, and when none is it fails, fails the transaction and
returns the null value. -/
def Reads {α : Type} (inRange : Nat → Prop) (unwrap : α → Nat) (null : α) (xbt : Xbt)
    (reply : Reply) (out : Option (ReadResult α)) : Prop :=
  ∃ r, out = some r ∧
    ((∃ n, Stored inRange xbt reply n ∧ r.status = .success ∧ unwrap r.res = n ∧ r.xbt = xbt) ∨
      (¬ ∃ n, Stored inRange xbt reply n) ∧ r.status ≠ .success ∧ r.res = null ∧ r.xbt.Failed)

section Readers

variable {α : Type} {inRange : Nat → Prop} {unwrap : α → Nat} {null : α} {xbt : Xbt} {reply : Reply}
  {value : List UInt8} {n : Nat}

theorem Reads.fail {e e' : NtError} (hno : ∀ n, ¬ Stored inRange xbt reply n) :
    Reads inRange unwrap null xbt reply (some ⟨.error e, null, xbt.fail e'⟩) :=
  ⟨_, rfl, .inr ⟨fun ⟨n, h⟩ => hno n h, nofun, rfl, xbt.failed_fail e'⟩⟩

theorem reads_success {res : α} :
    Reads inRange unwrap null xbt reply (some ⟨.success, res, xbt⟩) ↔
      Stored inRange xbt reply (unwrap res) := by
  constructor
  · rintro ⟨r, hr, ⟨n, hn, -, rfl, -⟩ | ⟨-, hne, -⟩⟩
    · obtain rfl := Option.some.inj hr
      exact hn
    · obtain rfl := Option.some.inj hr
      exact absurd rfl hne
  · exact fun h => ⟨_, rfl, .inl ⟨_, h, rfl, rfl, rfl⟩⟩

/-- The transaction reads a value that the parser takes. -/
def Parses (xbt : Xbt) (reply : Reply) (value : List UInt8) : Prop :=
  xbt.transactionStatus = .success ∧ reply = .ok value ∧ (∀ b ∈ text value, IsDigit b) ∧
    positional 10 value < 2 ^ 64

theorem Parses.stored_iff (h : Parses xbt reply value) :
    Stored inRange xbt reply n ↔ text value ≠ [] ∧ positional 10 value = n ∧ inRange n := by
  obtain ⟨hl, rfl, hd, -⟩ := h
  constructor
  · rintro ⟨-, value', hr, hn, hin⟩
    cases hr
    obtain ⟨h1, -, h2⟩ := numeral_iff.mp hn
    exact ⟨h1, h2, hin⟩
  · rintro ⟨h1, h2, hin⟩
    exact ⟨hl, value, rfl, numeral_iff.mpr ⟨h1, hd, h2⟩, hin⟩

theorem not_stored (hin : ∀ n, inRange n → n < 2 ^ 64) (hno : ∀ value, ¬ Parses xbt reply value)
    (n : Nat) : ¬ Stored inRange xbt reply n := by
  rintro ⟨hl, value, hr, hn, hi⟩
  obtain ⟨-, hd, rfl⟩ := numeral_iff.mp hn
  exact hno value ⟨hl, hr, hd, hin _ hi⟩

theorem xenbusReadInt_cases (xbt : Xbt) (reply : Reply) :
    (∃ e e', xenbusReadInt xbt reply = some ⟨.error e, 0, xbt.fail e'⟩ ∧
      ∀ value, ¬ Parses xbt reply value) ∨
    ∃ value, Parses xbt reply value ∧
      xenbusReadInt xbt reply = some ⟨.success, positional 10 value, xbt⟩ := by
  unfold xenbusReadInt
  rcases xenbusReadBin_cases xbt reply with ⟨value, hl, rfl, hread⟩ | ⟨e, hread, hno⟩
  · obtain ⟨err, hparse, herr⟩ := xmStrtoll_spec value
    simp only [hread, hparse, Option.map_some]
    cases err with
    | true =>
      refine .inl ⟨.dataError, .dataError, rfl, ?_⟩
      rintro value' ⟨-, hr, h1, h2⟩
      cases hr
      exact absurd (herr.mpr ⟨h1, h2⟩) (by decide)
    | false =>
      obtain ⟨h1, h2⟩ := herr.mp rfl
      have hv : u64 (positional 10 value) = positional 10 value := Nat.mod_eq_of_lt h2
      exact .inr ⟨value, ⟨hl, rfl, h1, h2⟩, by rw [hv]; rfl⟩
  · simp only [hread]
    exact .inl ⟨e, e, rfl, fun value h => hno value ⟨h.1, h.2.1⟩⟩

/-- The transaction does not read a value without a character. -/
def HasText (xbt : Xbt) (reply : Reply) : Prop :=
  xbt.transactionStatus = .success → reply ≠ .ok [] ∧ reply ≠ .ok [0]

theorem text_eq_nil : text value = [] ↔ value = [] ∨ value = [0] := by
  refine ⟨fun h => ?_, ?_⟩
  · have := text_or value
    rwa [h] at this
  · rintro (rfl | rfl) <;> rfl

theorem Parses.hasText_iff (h : Parses xbt reply value) : HasText xbt reply ↔ text value ≠ [] := by
  obtain ⟨hl, rfl, -⟩ := h
  rw [Ne, text_eq_nil]
  simp [HasText, hl]

theorem hasText_of_not_parses (hno : ∀ value, ¬ Parses xbt reply value) : HasText xbt reply := by
  intro hl
  refine ⟨?_, ?_⟩ <;> rintro rfl <;>
    exact hno _ ⟨hl, rfl, by simp [text], by simp [positional, text]⟩

theorem xenbusReadInt_reads (xbt : Xbt) (reply : Reply) :
    Reads (· < 2 ^ 64) id 0 xbt reply (xenbusReadInt xbt reply) ↔ HasText xbt reply := by
  rcases xenbusReadInt_cases xbt reply with ⟨e, e', hr, hno⟩ | ⟨value, hp, hr⟩
  · rw [hr]
    exact iff_of_true (.fail (not_stored (fun _ h => h) hno)) (hasText_of_not_parses hno)
  · rw [hr, reads_success, hp.stored_iff, hp.hasText_iff]
    exact ⟨fun h => h.1, fun h => ⟨h, rfl, hp.2.2.2⟩⟩

theorem positional_nil (h : text value = []) : positional 10 value = 0 := by
  rw [positional, h]
  rfl

theorem xenbusReadState_reads (xbt : Xbt) (reply : Reply) :
    Reads (fun n => 1 ≤ n ∧ n ≤ xenbusStateClosed) unwrapXenbusState nullXenbusState xbt reply
      (xenbusReadState xbt reply) := by
  unfold xenbusReadState
  rcases xenbusReadInt_cases xbt reply with ⟨e, e', hr, hno⟩ | ⟨value, hp, hr⟩
  · rw [hr]
    exact .fail (not_stored (fun _ h => Nat.lt_of_le_of_lt h.2 (by decide)) hno)
  · rw [hr, Option.map_some]
    simp only
    split
    · next hout =>
      refine .fail fun n hn => ?_
      obtain ⟨-, rfl, hin⟩ := hp.stored_iff.mp hn
      omega
    · next hin =>
      have hlt : positional 10 value < 2 ^ 32 := by simp only [xenbusStateClosed] at hin; omega
      have hval : unwrapXenbusState (wrapXenbusState (positional 10 value)) = positional 10 value :=
        UInt32.toNat_ofNat_of_lt' hlt
      rw [reads_success, hp.stored_iff, hval]
      exact ⟨fun h => hin (.inr (positional_nil h)), rfl, by omega⟩

theorem unwrap_wrapDomainId (h : n < 2 ^ 32) : unwrapDomainId (wrapDomainId n) = n := by
  unfold unwrapDomainId wrapDomainId
  rw [UInt32.xor_assoc, UInt32.xor_self, UInt32.xor_zero]
  exact UInt32.toNat_ofNat_of_lt' h

theorem unwrap_wrapAlienEvtchnPort (h : n < 2 ^ 32) :
    unwrapAlienEvtchnPort (wrapAlienEvtchnPort n) = n := by
  unfold unwrapAlienEvtchnPort wrapAlienEvtchnPort
  rw [UInt32.xor_assoc, UInt32.xor_self, UInt32.xor_zero]
  exact UInt32.toNat_ofNat_of_lt' h

theorem xenbusReadEvtchnPort_reads (xbt : Xbt) (reply : Reply) :
    Reads (· < 2 ^ 32) unwrapAlienEvtchnPort nullAlienEvtchnPort xbt reply
      (xenbusReadEvtchnPort xbt reply) ↔ HasText xbt reply := by
  unfold xenbusReadEvtchnPort
  rcases xenbusReadInt_cases xbt reply with ⟨e, e', hr, hno⟩ | ⟨value, hp, hr⟩
  · rw [hr]
    exact iff_of_true (.fail (not_stored (fun _ h => Nat.lt_trans h (by decide)) hno))
      (hasText_of_not_parses hno)
  · rw [hr, Option.map_some, hp.hasText_iff]
    simp only
    split
    · next hout =>
      refine iff_of_true (.fail fun n hn => ?_) fun h => ?_
      · obtain ⟨-, rfl, hin⟩ := hp.stored_iff.mp hn
        exact hout (Nat.mod_eq_of_lt hin).symm
      · rw [positional_nil h] at hout
        exact hout rfl
    · next hin =>
      have hu : u32 (positional 10 value) = positional 10 value := by omega
      have hlt : positional 10 value < 2 ^ 32 := by rw [← hu]; exact Nat.mod_lt _ (by decide)
      rw [reads_success, hp.stored_iff, hu, unwrap_wrapAlienEvtchnPort hlt]
      exact ⟨fun h => h.1, fun h => ⟨h, rfl, hlt⟩⟩

/-- What the transaction reads is the numeral of a domain id, or a text of another positional
value. -/
def NoFalseDomainId (xbt : Xbt) (reply : Reply) : Prop :=
  ∀ value, xbt.transactionStatus = .success → reply = .ok value →
    u64 (positional 10 value) < domidFirstReserved → ∃ n < domidFirstReserved, Numeral value n

theorem xenbusReadDomainId_reads (xbt : Xbt) (reply : Reply) :
    Reads (· < domidFirstReserved) unwrapDomainId nullDomainId xbt reply
      (xenbusReadDomainId xbt reply) ↔ NoFalseDomainId xbt reply := by
  unfold xenbusReadDomainId
  rcases xenbusReadBin_cases xbt reply with ⟨value, hl, rfl, hread⟩ | ⟨e, hread, hno⟩
  · obtain ⟨err, hparse, -⟩ := xmStrtoll_spec value
    have hcond : NoFalseDomainId xbt (.ok value) ↔ (u64 (positional 10 value) < domidFirstReserved →
        ∃ n < domidFirstReserved, Numeral value n) := by
      simp [NoFalseDomainId, hl]
    have hstored : ∀ n, Stored (· < domidFirstReserved) xbt (.ok value) n ↔
        Numeral value n ∧ n < domidFirstReserved := fun n => by simp [Stored, hl]
    simp only [hread, hparse, Option.map_some, hcond]
    split
    · next hge =>
      refine iff_of_true (.fail fun n hn => ?_) fun hlt => absurd hlt (by omega)
      obtain ⟨hnum, hlt⟩ := (hstored n).mp hn
      obtain ⟨-, -, rfl⟩ := numeral_iff.mp hnum
      exact absurd hlt (Nat.not_lt.mpr (Nat.le_trans hge (Nat.mod_le _ _)))
    · next hlt =>
      have hlt' := Nat.not_le.mp hlt
      rw [reads_success, hstored, unwrap_wrapDomainId (Nat.lt_trans hlt' (by decide))]
      constructor
      · exact fun h _ => ⟨_, h.2, h.1⟩
      · intro h
        obtain ⟨n, hn, hnum⟩ := h hlt'
        obtain ⟨-, -, rfl⟩ := numeral_iff.mp hnum
        rw [u64, Nat.mod_eq_of_lt (Nat.lt_trans hn (by decide))]
        exact ⟨hnum, hn⟩
  · simp only [hread]
    exact iff_of_true (.fail fun n ⟨hl, value, hr, _⟩ => hno value ⟨hl, hr⟩)
      fun value hl hr => absurd ⟨hl, hr⟩ (hno value)

/-- `xenbus_read_state` always reads what is stored; `xenbus_read_int` and `xenbus_read_evtchn_port`
do unless the value has no character, and `xenbus_read_domain_id` does unless the positional value
of a text that is not the numeral of a domain id comes to one modulo `2^64`. -/
theorem integer_readers (xbt : Xbt) (reply : Reply) :
    (Reads (· < 2 ^ 64) id 0 xbt reply (xenbusReadInt xbt reply) ↔ HasText xbt reply) ∧
      Reads (fun n => 1 ≤ n ∧ n ≤ xenbusStateClosed) unwrapXenbusState nullXenbusState xbt reply
        (xenbusReadState xbt reply) ∧
      (Reads (· < domidFirstReserved) unwrapDomainId nullDomainId xbt reply
        (xenbusReadDomainId xbt reply) ↔ NoFalseDomainId xbt reply) ∧
      (Reads (· < 2 ^ 32) unwrapAlienEvtchnPort nullAlienEvtchnPort xbt reply
        (xenbusReadEvtchnPort xbt reply) ↔ HasText xbt reply) :=
  ⟨xenbusReadInt_reads xbt reply, xenbusReadState_reads xbt reply,
    xenbusReadDomainId_reads xbt reply, xenbusReadEvtchnPort_reads xbt reply⟩

/-- The text `abc` is read as the domain id 1122, and an empty value as the number zero. -/
theorem integer_readers_false :
    xenbusReadDomainId .nil (.ok [97, 98, 99]) = some ⟨.success, wrapDomainId 1122, .nil⟩ ∧
      ¬ Reads (· < domidFirstReserved) unwrapDomainId nullDomainId .nil (.ok [97, 98, 99])
        (xenbusReadDomainId .nil (.ok [97, 98, 99])) ∧
      xenbusReadInt .nil (.ok []) = some ⟨.success, 0, .nil⟩ ∧
      ¬ Reads (· < 2 ^ 64) id 0 .nil (.ok []) (xenbusReadInt .nil (.ok [])) := by
  refine ⟨by decide, ?_, by decide, ?_⟩
  · rw [xenbusReadDomainId_reads]
    intro h
    obtain ⟨n, -, hn⟩ := h [97, 98, 99] rfl rfl (by decide)
    exact absurd (numeral_iff.mp hn).2.1 (by decide)
  · rw [xenbusReadInt_reads]
    exact fun h => (h rfl).1 rfl

end Readers

end XcWindows.Xenbus
