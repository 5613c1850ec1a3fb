import Mathlib.Tactic.IntervalCases
import Mathlib.Order.Interval.Finset.Nat
import XcWindows.Lib.Machine

/-!
# The VPD pages of a target

`ReadScsiInquiryData` of `xenvbd/inquiry.c`, the default page apart: the directory of inquiry data in
the store, whose keys name the pages (`entryId`), the two pages that must be there, and page 0, which
lists the others. A key is taken for a page if it has the first character of `0x` or the second, and two
spellings of one id are two pages; `InsertVpdp` asserts that there are no such.
-/

namespace XcWindows.Xenvbd.VpdPages

open Lib

/-- A name in the store, without its NUL. -/
abbrev Key := List Char

inductive Fault where
  /-- a read behind the NUL of a key -/
  | beyond
  | duplicate
  /-- `ComputePage0`: `nr_pages < 256` -/
  | tooMany
  /-- an assertion about a page that is traced -/
  | dump
deriving DecidableEq

/-- `struct scsi_vpd_page`; `key` says where its data were read. -/
structure VpdPage where
  id : Nat
  data : List UInt8
  key : Option Key
deriving DecidableEq

def insertVpdp (page : VpdPage) : List VpdPage → Except Fault (List VpdPage)
  | [] => .ok [page]
  | p :: rest =>
    if p.id < page.id then (insertVpdp page rest).map (p :: ·)
    else if p.id = page.id then .error .duplicate
    else .ok (page :: p :: rest)

def findVpdp (d : List VpdPage) (id : Nat) : Option VpdPage := d.find? fun p => p.id == id

/-! ## The keys -/

/-- `entries[x][i]` -/
def charAt (k : Key) (i : Nat) : Except Fault Char :=
  if i ≤ k.length then .ok (k.getD i (Char.ofNat 0)) else .error .beyond

/-- `entries[x][0] == '0' || entries[x][1] == 'x'` -/
def looksLikeVpd (k : Key) : Except Fault Bool :=
  match charAt k 0 with
  | .error f => .error f
  | .ok c => if c = '0' then .ok true else (charAt k 1).map fun c => c == 'x'

def hexDigit (c : Char) : Option Nat :=
  if '0' ≤ c ∧ c ≤ '9' then some (c.toNat - 48)
  else if 'a' ≤ c ∧ c ≤ 'f' then some (c.toNat - 97 + 10)
  else if 'A' ≤ c ∧ c ≤ 'F' then some (c.toNat - 65 + 10)
  else none

/-- The loop over the digits; `none` is `bad_format`. -/
def parseId : UInt32 → Key → Option UInt32
  | id, [] => some id
  | id, c :: e =>
    if id &&& 0xF0000000 ≠ 0 then none
    else
      match hexDigit c with
      | some d => parseId (id * 16 + UInt32.ofNat d) e
      | none => none

/-- The page that a key is taken for. -/
def entryId (k : Key) : Except Fault (Option Nat) :=
  match looksLikeVpd k with
  | .error f => .error f
  | .ok false => .ok none
  | .ok true =>
    if k.length < 2 then .error .beyond
    else
      match parseId 0 (k.drop 2) with
      | none => .ok none
      | some id => if id = 0 ∨ 256 ≤ id then .ok none else .ok (some id.toNat)

/-! ## `ReadScsiInquiryData` -/

/-- What the calls return. -/
structure Inputs where
  workAlloc : Bool
  bpathAlloc : Bool
  /-- `xenbus_ls` -/
  entries : Option (List Key)
  distinct : (entries.getD []).Nodup
  pageAlloc : Key → Bool
  read : Key → Option (List UInt8)
  /-- `UnitSerialNumberVpdpPage`, `EmptyVpdpPage` and `ComputePage0` have their memory -/
  serialAlloc : Bool
  emptyAlloc : Bool
  page0Alloc : Bool
  serialDumpAlloc : Bool
  descriptorDumpAlloc : Nat → Bool

namespace Inputs

def keys (i : Inputs) : List Key := i.entries.getD []

/-- The page that is made of a key. -/
def loads (i : Inputs) (k : Key) : Option VpdPage :=
  if k = "default".toList then none
  else
    match entryId k with
    | .ok (some id) => if i.pageAlloc k then (i.read k).map fun data => ⟨id, data, some k⟩ else none
    | _ => none

/-- The body of the loop over the directory. -/
def readEntry (i : Inputs) (d : List VpdPage) (k : Key) : Except Fault (List VpdPage) :=
  if k = "default".toList then .ok d
  else
    match entryId k with
    | .error f => .error f
    | .ok none => .ok d
    | .ok (some id) =>
      if !i.pageAlloc k then .ok d
      else
        match i.read k with
        | none => .ok d
        | some data => insertVpdp ⟨id, data, some k⟩ d

def readEntries (i : Inputs) : Except Fault (List VpdPage) := i.keys.foldlM i.readEntry []

end Inputs

def unitSerialNumberVpdpPage : VpdPage := ⟨0x80, [0, 0x80, 0, 1, 32], none⟩

def emptyVpdpPage (id : Nat) : VpdPage := ⟨id, [0, UInt8.ofNat id, 0, 0], none⟩

/-- `DumpSerialNumberVpdpPage`; data shorter than the header fail it whatever is behind them. -/
def dumpSerialNumberVpdpPage (i : Inputs) (page : VpdPage) : Except Fault Unit :=
  match page.data with
  | _ :: pageCode :: _ :: pageLength :: serial =>
    if pageCode = 0x80 ∧ pageLength.toNat = serial.length ∧ i.serialDumpAlloc then .ok ()
    else .error .dump
  | _ => .error .dump

/-- The descriptors from the `index`th on, which have to end where the data do. -/
def dumpDescriptors (alloc : Nat → Bool) : Nat → Nat → List UInt8 → Except Fault Unit
  | _, _, [] => .ok ()
  | fuel + 1, index, codeSet :: _ :: _ :: identifierLength :: rest =>
    if (codeSet &&& 0xf = 1 ∨ codeSet &&& 0xf = 2) ∧ alloc index = false then .error .dump
    else if rest.length < identifierLength.toNat then .error .dump
    else dumpDescriptors alloc fuel (index + 1) (rest.drop identifierLength.toNat)
  | _, _, _ => .error .dump

def dumpDeviceIdentificationVpdpPage (i : Inputs) (page : VpdPage) : Except Fault Unit :=
  match page.data with
  | _ :: pageCode :: _ :: pageLength :: descriptors =>
    if pageCode = 0x83 ∧ pageLength.toNat = descriptors.length then
      dumpDescriptors i.descriptorDumpAlloc descriptors.length 0 descriptors
    else .error .dump
  | _ => .error .dump

/-- A page that must be there: it is traced, or made up if there is memory. -/
def compulsory (d : List VpdPage) (dump : VpdPage → Except Fault Unit) (page : VpdPage) (alloc : Bool) :
    Except Fault (List VpdPage) :=
  match findVpdp d page.id with
  | some found => (dump found).map fun _ => d
  | none => if alloc then insertVpdp page d else .ok d

def computePage0 (d : List VpdPage) (alloc : Bool) : Except Fault (Option VpdPage) :=
  if d.length + 1 < 256 then
    .ok <|
      if alloc then
        some ⟨0, [0, 0, 0, UInt8.ofNat (d.length + 1), 0] ++ d.map fun p => UInt8.ofNat p.id, none⟩
      else none
  else .error .tooMany

/-- `ReadScsiInquiryData` from `out` on -/
def complete (i : Inputs) (d : List VpdPage) : Except Fault (List VpdPage) :=
  compulsory d (dumpSerialNumberVpdpPage i) unitSerialNumberVpdpPage i.serialAlloc >>= fun d =>
  compulsory d (dumpDeviceIdentificationVpdpPage i) (emptyVpdpPage 0x83) i.emptyAlloc >>= fun d =>
  computePage0 d i.page0Alloc >>= fun page0 =>
  match page0 with
  | some page => insertVpdp page d
  | none => .ok d

/-- `ReadScsiInquiryData`: the pages, or no memory for `work` or `bpath`. The entry `default`, the data of
an inquiry for no page, is left out. -/
def readScsiInquiryData (i : Inputs) : Except Fault (Option (List VpdPage)) :=
  if !i.workAlloc || !i.bpathAlloc then .ok none
  else (i.readEntries >>= complete i).map some

/-! ## What it should be -/

def hexValue (s : List Char) : Nat := s.foldl (fun v c => 16 * v + (hexDigit c).getD 0) 0

/-- The id of a key that is a hexadecimal name of a page. -/
def hexName : Key → Option Nat
  | '0' :: 'x' :: s =>
    if (s.all fun c => (hexDigit c).isSome) ∧ 1 ≤ hexValue s ∧ hexValue s ≤ 0xff then some (hexValue s)
    else none
  | _ => none

/-- A page whose key is a hexadecimal name and could be read. -/
def Inputs.Named (i : Inputs) (p : VpdPage) : Prop :=
  ∃ k ∈ i.keys, hexName k = some p.id ∧ i.pageAlloc k = true ∧ i.read k = some p.data ∧ p.key = some k

/-- The page 0 of a list that it is on. -/
def page0 (pages : List VpdPage) : VpdPage :=
  ⟨0, [0, 0, 0, UInt8.ofNat pages.length] ++ pages.map fun p => UInt8.ofNat p.id, none⟩

structure Table (i : Inputs) (pages : List VpdPage) : Prop where
  ascending : pages.Pairwise fun p q => p.id < q.id
  contents : ∀ p, p ∈ pages ↔ i.Named p ∨
    (p = unitSerialNumberVpdpPage ∧ i.serialAlloc = true ∧ ∀ q, i.Named q → q.id ≠ 0x80) ∨
    (p = emptyVpdpPage 0x83 ∧ i.emptyAlloc = true ∧ ∀ q, i.Named q → q.id ≠ 0x83) ∨
    (p = page0 pages ∧ i.page0Alloc = true)
  /-- the count and the ids in page 0 are bytes -/
  length_lt : pages.length < 256
  id_lt : ∀ p ∈ pages, p.id < 256

/-- It returns, and with the table unless there is no memory for one. -/
def Builds (i : Inputs) : Prop :=
  match readScsiInquiryData i with
  | .error _ => False
  | .ok none => i.workAlloc = false ∨ i.bpathAlloc = false
  | .ok (some pages) => Table i pages

/-! ## The number in a key -/

/-- The value of digits after those of value `v`. -/
def hexFrom (v : Nat) (s : List Char) : Nat := s.foldl (fun v c => 16 * v + (hexDigit c).getD 0) v

theorem le_hexFrom (v : Nat) (s : List Char) : v ≤ hexFrom v s := by
  induction s generalizing v with
  | nil => exact Nat.le_refl v
  | cons c s ih =>
    have hstep : v ≤ 16 * v + (hexDigit c).getD 0 := by omega
    exact Nat.le_trans hstep (ih _)

theorem hexDigit_lt {c : Char} {d : Nat} (h : hexDigit c = some d) : d < 16 := by
  unfold hexDigit at h
  split at h
  case isTrue hc =>
    obtain rfl := Option.some.inj h
    have : c.toNat ≤ 57 := hc.2
    omega
  split at h
  case isTrue hc =>
    obtain rfl := Option.some.inj h
    have : c.toNat ≤ 102 := hc.2
    omega
  split at h
  case isTrue hc =>
    obtain rfl := Option.some.inj h
    have : c.toNat ≤ 70 := hc.2
    omega
  cases h

theorem guard_iff (id : UInt32) : id &&& 0xF0000000 = 0 ↔ id.toNat < 2 ^ 28 := by
  rw [← UInt32.toBitVec_inj, ← UInt32.toNat_toBitVec, UInt32.toBitVec_and]
  generalize id.toBitVec = x
  constructor
  · intro h
    have hhigh : x >>> 28 = 0#32 := by
      ext i hi
      have := congrArg (fun v => v.getLsbD (28 + i)) h
      simp at this ⊢
      interval_cases i <;> simp_all
    have := congrArg BitVec.toNat hhigh
    simp [Nat.shiftRight_eq_div_pow] at this
    omega
  · intro h
    ext i hi
    by_cases hi' : i < 28
    · interval_cases i <;> simp
    · have hx : x.toNat.testBit i = false :=
        Nat.testBit_lt_two_pow (Nat.lt_of_lt_of_le h (Nat.pow_le_pow_right (by decide) (by omega)))
      simp [← BitVec.testBit_toNat, hx, ← BitVec.getLsbD_eq_getElem]

theorem toNat_step {id : UInt32} (h : id.toNat < 2 ^ 28) {d : Nat} (hd : d < 16) :
    (id * 16 + UInt32.ofNat d).toNat = 16 * id.toNat + d := by
  rw [UInt32.toNat_add, UInt32.toNat_mul, UInt32.toNat_ofNat_of_lt' (by simp only [UInt32.size]; omega)]
  have h16 : (16 : UInt32).toNat = 16 := rfl
  rw [h16]
  omega

theorem parseId_iff (id : UInt32) (s : List Char) (r : UInt32) :
    parseId id s = some r ↔ (∀ c ∈ s, (hexDigit c).isSome = true) ∧ r.toNat = hexFrom id.toNat s := by
  induction s generalizing id with
  | nil =>
    simp only [parseId, hexFrom, List.foldl_nil, Option.some.injEq]
    rw [UInt32.toNat_inj]
    exact ⟨fun h => ⟨nofun, h.symm⟩, fun h => h.2.symm⟩
  | cons c s ih =>
    unfold parseId
    by_cases hguard : id.toNat < 2 ^ 28
    · rw [if_neg (not_not.2 ((guard_iff id).2 hguard))]
      cases hc : hexDigit c with
      | none => exact iff_of_false nofun fun h => by simpa [hc] using h.1 c (by simp)
      | some d =>
        simp only
        rw [ih, toNat_step hguard (hexDigit_lt hc)]
        simp [hexFrom, hc]
    · rw [if_pos fun h => hguard ((guard_iff id).1 h)]
      refine iff_of_false nofun fun ⟨_, hr⟩ => ?_
      -- the number has more than eight digits
      have hle : 16 * id.toNat + (hexDigit c).getD 0 ≤ hexFrom id.toNat (c :: s) := le_hexFrom _ s
      have := r.toNat_lt
      omega

theorem entryId_nil : entryId [] = .error .beyond := rfl

theorem entryId_singleton (c : Char) :
    entryId [c] = if c = '0' then .error .beyond else .ok none := by
  unfold entryId looksLikeVpd
  by_cases hc : c = '0'
  · simp [charAt, hc]
  · have hx : (Char.ofNat 0 == 'x') = false := by decide
    simp [charAt, hc, Except.map, hx]

theorem entryId_cons_cons (a b : Char) (s : List Char) :
    entryId (a :: b :: s) =
      if a = '0' ∨ b = 'x' then
        match parseId 0 s with
        | none => .ok none
        | some id => if id = 0 ∨ 256 ≤ id then .ok none else .ok (some id.toNat)
      else .ok none := by
  unfold entryId looksLikeVpd
  by_cases ha : a = '0'
  · simp [charAt, ha]
  · by_cases hb : b = 'x'
    · simp [charAt, ha, hb, Except.map]
    · have hb' : (b == 'x') = false := by simpa using hb
      simp [charAt, ha, hb, hb', Except.map]

theorem entryId_error_iff (k : Key) : (∃ f, entryId k = .error f) ↔ k = [] ∨ k = ['0'] := by
  match k with
  | [] => simp [entryId_nil]
  | [c] =>
    rw [entryId_singleton]
    by_cases hc : c = '0' <;> simp [hc]
  | a :: b :: s =>
    rw [entryId_cons_cons]
    refine iff_of_false (fun ⟨f, h⟩ => ?_) (by simp)
    split at h
    · split at h
      · cases h
      · split at h <;> cases h
    · cases h

theorem entryId_some_iff (k : Key) (v : Nat) :
    entryId k = .ok (some v) ↔ ∃ a b s, k = a :: b :: s ∧ (a = '0' ∨ b = 'x') ∧
      (∀ c ∈ s, (hexDigit c).isSome = true) ∧ hexValue s = v ∧ 1 ≤ v ∧ v ≤ 0xff := by
  match k with
  | [] => simp [entryId_nil]
  | [c] =>
    rw [entryId_singleton]
    by_cases hc : c = '0' <;> simp [hc]
  | a :: b :: s =>
    rw [entryId_cons_cons]
    constructor
    · intro h
      split at h
      case isFalse => cases h
      case isTrue hab =>
        split at h
        · cases h
        · next id hid =>
          split at h
          · cases h
          · next hrange =>
            obtain ⟨hall, hval⟩ := (parseId_iff 0 s id).1 hid
            obtain rfl : id.toNat = v := by simpa using h
            have hpos : id.toNat ≠ 0 := fun h0 => hrange (.inl (UInt32.toNat_inj.1 h0))
            have hlt : id.toNat < 256 := by
              refine Nat.lt_of_not_le fun hle => hrange (.inr ?_)
              exact UInt32.le_iff_toNat_le.2 hle
            exact ⟨a, b, s, rfl, hab, hall, hval.symm, by omega, by omega⟩
    · rintro ⟨a', b', s', hk, hab, hall, hval, hpos, hlt⟩
      cases hk
      have hv : (UInt32.ofNat v).toNat = v := UInt32.toNat_ofNat_of_lt' (by simp [UInt32.size]; omega)
      have hid : parseId 0 s = some (UInt32.ofNat v) := (parseId_iff 0 s _).2 ⟨hall, by rw [hv, ← hval]; rfl⟩
      have hrange : ¬(UInt32.ofNat v = 0 ∨ 256 ≤ UInt32.ofNat v) := by
        rintro (h | h)
        · have := congrArg UInt32.toNat h
          rw [hv] at this
          simp at this
          omega
        · have := UInt32.le_iff_toNat_le.1 h
          rw [hv] at this
          simp at this
          omega
      rw [if_pos hab, hid]
      simp only
      rw [if_neg hrange, hv]

theorem hexName_iff (k : Key) (v : Nat) :
    hexName k = some v ↔ ∃ s, k = '0' :: 'x' :: s ∧ (∀ c ∈ s, (hexDigit c).isSome = true) ∧
      hexValue s = v ∧ 1 ≤ v ∧ v ≤ 0xff := by
  unfold hexName
  split
  case h_1 s =>
    constructor
    · intro h
      split at h
      case isTrue hs =>
        obtain rfl := Option.some.inj h
        exact ⟨s, rfl, List.all_eq_true.mp hs.1, rfl, hs.2⟩
      case isFalse => cases h
    · rintro ⟨s', hk, hall, rfl, hrange⟩
      cases hk
      rw [if_pos ⟨List.all_eq_true.mpr hall, hrange⟩]
  case h_2 hne =>
    refine iff_of_false nofun ?_
    rintro ⟨s, rfl, -⟩
    exact hne s rfl

theorem entryId_of_hexName {k : Key} {v : Nat} (h : hexName k = some v) : entryId k = .ok (some v) := by
  obtain ⟨s, rfl, hrest⟩ := (hexName_iff k v).1 h
  exact (entryId_some_iff _ v).2 ⟨'0', 'x', s, rfl, .inl rfl, hrest⟩

theorem entryId_range {k : Key} {v : Nat} (h : entryId k = .ok (some v)) : 1 ≤ v ∧ v ≤ 0xff := by
  obtain ⟨_, _, _, -, -, -, -, hrange⟩ := (entryId_some_iff k v).1 h
  exact hrange

/-! ## The loop over the directory -/

variable {i : Inputs} {d : List VpdPage}

theorem loads_iff {k : Key} {p : VpdPage} :
    i.loads k = some p ↔ k ≠ "default".toList ∧ entryId k = .ok (some p.id) ∧ i.pageAlloc k = true ∧
      i.read k = some p.data ∧ p.key = some k := by
  obtain ⟨id, data, key⟩ := p
  unfold Inputs.loads
  by_cases hk : k = "default".toList
  · simp [hk]
  rw [if_neg hk, and_iff_right hk]
  split
  case h_1 v hv =>
    by_cases halloc : i.pageAlloc k = true
    · cases hread : i.read k with
      | none => simp [halloc]
      | some data' => simp [hv, halloc, eq_comm]
    · simp [halloc]
  case h_2 hne =>
    exact iff_of_false nofun fun h => hne _ h.1

theorem named_iff {p : VpdPage} :
    i.Named p ↔ ∃ k ∈ i.keys, i.loads k = some p ∧ hexName k = some p.id := by
  unfold Inputs.Named
  refine exists_congr fun k => and_congr_right fun _ => ?_
  rw [loads_iff]
  constructor
  · rintro ⟨hname, halloc, hread, hkey⟩
    refine ⟨⟨?_, entryId_of_hexName hname, halloc, hread, hkey⟩, hname⟩
    rintro rfl
    cases hname
  · rintro ⟨⟨-, -, halloc, hread, hkey⟩, hname⟩
    exact ⟨hname, halloc, hread, hkey⟩

/-- In strictly ascending order of their ids. -/
def Ascending (d : List VpdPage) : Prop := d.Pairwise fun p q => p.id < q.id

theorem Ascending.nodup (h : Ascending d) : (d.map VpdPage.id).Nodup :=
  List.pairwise_map.2 (h.imp Nat.ne_of_lt)

theorem insertVpdp_spec (page : VpdPage) (h : Ascending d) :
    (page.id ∈ d.map VpdPage.id ∧ insertVpdp page d = .error .duplicate) ∨
    (page.id ∉ d.map VpdPage.id ∧ ∃ d', insertVpdp page d = .ok d' ∧ Ascending d' ∧
      d'.Perm (page :: d)) := by
  induction d with
  | nil => exact .inr ⟨by simp, [page], rfl, List.pairwise_singleton _ _, .refl _⟩
  | cons p rest ih =>
    obtain ⟨hp, hrest⟩ := List.pairwise_cons.1 h
    unfold insertVpdp
    split
    case isTrue hlt =>
      obtain ⟨hmem, hins⟩ | ⟨hnot, d', hins, hasc, hperm⟩ := ih hrest
      · exact .inl ⟨by simp [hmem], by rw [hins]; rfl⟩
      · refine .inr ⟨by simpa using ⟨Nat.ne_of_gt hlt, by simpa using hnot⟩, p :: d', by rw [hins]; rfl, ?_,
          (hperm.cons p).trans (.swap page p rest)⟩
        refine List.pairwise_cons.2 ⟨fun q hq => ?_, hasc⟩
        obtain rfl | hq := List.mem_cons.1 (hperm.mem_iff.1 hq)
        · exact hlt
        · exact hp q hq
    case isFalse hge =>
      split
      case isTrue heq => exact .inl ⟨by simp [heq], rfl⟩
      case isFalse hne =>
        have hlt : page.id < p.id := by omega
        have hall : ∀ q ∈ p :: rest, page.id < q.id := by
          intro q hq
          obtain rfl | hq := List.mem_cons.1 hq
          · exact hlt
          · exact Nat.lt_trans hlt (hp q hq)
        refine .inr ⟨fun hmem => ?_, page :: p :: rest, rfl, List.pairwise_cons.2 ⟨hall, h⟩, .refl _⟩
        obtain ⟨q, hq, hid⟩ := List.mem_map.1 hmem
        exact absurd (hall q hq) (by omega)

theorem readEntry_eq (i : Inputs) (d : List VpdPage) (k : Key) :
    ((k = [] ∨ k = ['0']) ∧ ∃ f, i.readEntry d k = .error f) ∨
    (¬(k = [] ∨ k = ['0']) ∧ i.readEntry d k =
      match i.loads k with
      | some p => insertVpdp p d
      | none => .ok d) := by
  unfold Inputs.readEntry Inputs.loads
  by_cases hk : k = "default".toList
  · refine .inr ⟨?_, by rw [if_pos hk, if_pos hk]⟩
    rintro (rfl | rfl) <;> cases hk
  rw [if_neg hk, if_neg hk, ← entryId_error_iff]
  cases hid : entryId k with
  | error f => exact .inl ⟨⟨f, rfl⟩, f, rfl⟩
  | ok id =>
    refine .inr ⟨by simp, ?_⟩
    cases id with
    | none => rfl
    | some id =>
      by_cases halloc : i.pageAlloc k = true
      · cases hread : i.read k <;> simp [halloc]
      · simp [halloc]

/-- No key is too short, and no two keys load pages of one id. -/
def Inputs.Clean (i : Inputs) (d : List VpdPage) (ks : List Key) : Prop :=
  (∀ k ∈ ks, k ≠ [] ∧ k ≠ ['0']) ∧ ((d ++ ks.filterMap i.loads).map VpdPage.id).Nodup

theorem foldlM_readEntry (i : Inputs) (ks : List Key) (hasc : Ascending d) :
    (i.Clean d ks ∧ ∃ d', ks.foldlM i.readEntry d = .ok d' ∧ Ascending d' ∧
      d'.Perm (d ++ ks.filterMap i.loads)) ∨
    (¬i.Clean d ks ∧ ∃ f, ks.foldlM i.readEntry d = .error f) := by
  induction ks generalizing d with
  | nil => exact .inl ⟨⟨by simp, by simpa using hasc.nodup⟩, d, rfl, hasc, by simp⟩
  | cons k ks ih =>
    rw [List.foldlM_cons]
    obtain ⟨hshort, f, hf⟩ | ⟨hlong, heq⟩ := readEntry_eq i d k
    · refine .inr ⟨fun h => ?_, f, by rw [hf]; rfl⟩
      obtain ⟨h₁, h₂⟩ := h.1 k (by simp)
      exact hshort.elim h₁ h₂
    rw [heq]
    have hlong' : k ≠ [] ∧ k ≠ ['0'] := not_or.1 hlong
    cases hload : i.loads k with
    | none =>
      have hclean : i.Clean d (k :: ks) ↔ i.Clean d ks := by
        simp [Inputs.Clean, hload, hlong'.1, hlong'.2]
      rw [hclean, List.filterMap_cons_none hload]
      exact ih hasc
    | some p =>
      have hperm : (d ++ p :: ks.filterMap i.loads).Perm (p :: d ++ ks.filterMap i.loads) :=
        List.perm_middle
      obtain ⟨hmem, hins⟩ | ⟨hnot, d', hins, hasc', hperm'⟩ := insertVpdp_spec p hasc
      · refine .inr ⟨fun h => ?_, .duplicate, by simp only [hins]; rfl⟩
        have hnodup := h.2
        rw [List.filterMap_cons_some hload, (hperm.map _).nodup_iff] at hnodup
        simp only [List.cons_append, List.map_cons, List.nodup_cons, List.map_append,
          List.mem_append] at hnodup
        exact hnodup.1 (.inl hmem)
      · have hclean : i.Clean d (k :: ks) ↔ i.Clean d' ks := by
          simp only [Inputs.Clean, List.mem_cons, forall_eq_or_imp, List.filterMap_cons_some hload]
          rw [(hperm.map VpdPage.id).nodup_iff, ((hperm'.append_right _).map VpdPage.id).nodup_iff]
          simp [hlong'.1, hlong'.2]
        rw [hclean, List.filterMap_cons_some hload]
        simp only [hins]
        obtain ⟨hc, d'', hrun, hasc'', hperm''⟩ | ⟨hc, f, hf⟩ := ih hasc'
        · exact .inl ⟨hc, d'', hrun, hasc'',
            hperm''.trans ((hperm'.append_right _).trans hperm.symm)⟩
        · exact .inr ⟨hc, f, hf⟩

/-! ## The pages that must be there -/

theorem findVpdp_some {id : Nat} {p : VpdPage} (h : findVpdp d id = some p) : p ∈ d ∧ p.id = id :=
  ⟨List.mem_of_find?_eq_some h, by simpa using List.find?_some h⟩

theorem findVpdp_none {id : Nat} (h : findVpdp d id = none) : ∀ p ∈ d, p.id ≠ id := by
  simpa [findVpdp] using h

theorem Ascending.eq_of_id (h : Ascending d) {p q : VpdPage} (hp : p ∈ d) (hq : q ∈ d)
    (hid : p.id = q.id) : p = q :=
  List.inj_on_of_nodup_map h.nodup hp hq hid

theorem compulsory_spec (hasc : Ascending d) (dump : VpdPage → Except Fault Unit) (page : VpdPage)
    (alloc : Bool) :
    ((∃ p ∈ d, p.id = page.id ∧ dump p ≠ .ok ()) ∧ ∃ f, compulsory d dump page alloc = .error f) ∨
    (∀ p ∈ d, p.id = page.id → dump p = .ok ()) ∧
      ∃ d', compulsory d dump page alloc = .ok d' ∧ Ascending d' ∧
        ∀ q, q ∈ d' ↔ q ∈ d ∨ q = page ∧ alloc = true ∧ ∀ p ∈ d, p.id ≠ page.id := by
  unfold compulsory
  cases hfind : findVpdp d page.id with
  | some p =>
    obtain ⟨hp, hid⟩ := findVpdp_some hfind
    cases hdump : dump p with
    | error f => exact .inl ⟨⟨p, hp, hid, by rw [hdump]; nofun⟩, f, by simp only [hdump]; rfl⟩
    | ok u =>
      refine .inr ⟨fun q hq hqid => ?_, d, by simp only [hdump]; rfl, hasc, fun q => ?_⟩
      · rw [hasc.eq_of_id hq hp (hqid.trans hid.symm), hdump]
      · exact ⟨.inl, fun h => h.resolve_right fun h => h.2.2 p hp hid⟩
  | none =>
    have hnone := findVpdp_none hfind
    refine .inr ⟨fun p hp hid => absurd hid (hnone p hp), ?_⟩
    cases alloc with
    | false => exact ⟨d, rfl, hasc, fun q => by simp⟩
    | true =>
      obtain ⟨hmem, -⟩ | ⟨-, d', hins, hasc', hperm⟩ := insertVpdp_spec page hasc
      · obtain ⟨p, hp, hid⟩ := List.mem_map.1 hmem
        exact absurd hid (hnone p hp)
      · refine ⟨d', hins, hasc', fun q => ?_⟩
        rw [hperm.mem_iff, List.mem_cons, or_comm]
        exact or_congr_right ⟨fun h => ⟨h, rfl, hnone⟩, And.left⟩

theorem room_iff (hasc : Ascending d) (hrange : ∀ p ∈ d, 1 ≤ p.id ∧ p.id ≤ 0xff) :
    d.length < 255 ↔ ∃ id, 1 ≤ id ∧ id ≤ 0xff ∧ ∀ p ∈ d, p.id ≠ id := by
  have hcard : (d.map VpdPage.id).toFinset.card = d.length := by
    rw [List.toFinset_card_of_nodup hasc.nodup, List.length_map]
  have hsub : (d.map VpdPage.id).toFinset ⊆ Finset.Icc 1 255 := by
    intro id hid
    obtain ⟨p, hp, rfl⟩ := List.mem_map.1 (List.mem_toFinset.1 hid)
    exact Finset.mem_Icc.2 (hrange p hp)
  rw [← hcard]
  constructor
  · intro hlt
    by_contra hall
    push Not at hall
    have hsup : Finset.Icc 1 255 ⊆ (d.map VpdPage.id).toFinset := by
      intro id hid
      obtain ⟨p, hp, rfl⟩ := hall id (Finset.mem_Icc.1 hid).1 (Finset.mem_Icc.1 hid).2
      exact List.mem_toFinset.2 (List.mem_map_of_mem hp)
    have := Finset.card_le_card hsup
    simp at this
    omega
  · rintro ⟨id, hid, hid', hnot⟩
    have hne : id ∉ (d.map VpdPage.id).toFinset := by
      intro h
      obtain ⟨p, hp, rfl⟩ := List.mem_map.1 (List.mem_toFinset.1 h)
      exact hnot p hp rfl
    have hlt := Finset.card_lt_card
      (Finset.ssubset_iff_subset_ne.2 ⟨hsub, fun h => hne (h ▸ Finset.mem_Icc.2 ⟨hid, hid'⟩)⟩)
    simpa using hlt

theorem insertVpdp_page0 {page : VpdPage} (hpage : page.id = 0) (hpos : ∀ p ∈ d, 1 ≤ p.id) :
    insertVpdp page d = .ok (page :: d) := by
  cases d with
  | nil => rfl
  | cons p rest =>
    have := hpos p (by simp)
    unfold insertVpdp
    rw [if_neg (by omega), if_neg (by omega)]

/-! ## When the table is built -/

/-- The page of a key is allocated and read. -/
def Inputs.Loaded (i : Inputs) (k : Key) : Prop := i.pageAlloc k = true ∧ (i.read k).isSome = true

/-- The directory and the inquiry data are such as the code can deal with. -/
structure Fits (i : Inputs) : Prop where
  long_enough : ∀ k ∈ i.keys, k ≠ [] ∧ k ≠ ['0']
  no_stray : ∀ k ∈ i.keys, hexName k = none → ∀ id, entryId k = .ok (some id) → ¬i.Loaded k
  one_spelling : ∀ k ∈ i.keys, ∀ k' ∈ i.keys, ∀ id, hexName k = some id → hexName k' = some id →
    i.Loaded k → i.Loaded k' → k = k'
  serial : ∀ p, i.Named p → p.id = 0x80 → dumpSerialNumberVpdpPage i p = .ok ()
  identification : ∀ p, i.Named p → p.id = 0x83 → dumpDeviceIdentificationVpdpPage i p = .ok ()
  room : ∃ id, 1 ≤ id ∧ id ≤ 0xff ∧ (∀ p, i.Named p → p.id ≠ id) ∧
    (id = 0x80 → i.serialAlloc = false) ∧ (id = 0x83 → i.emptyAlloc = false)

theorem loads_range {k : Key} {p : VpdPage} (h : i.loads k = some p) : 1 ≤ p.id ∧ p.id ≤ 0xff :=
  entryId_range (loads_iff.1 h).2.1

theorem exists_loads {k : Key} {id : Nat} (hid : entryId k = .ok (some id)) (h : i.Loaded k)
    (hne : k ≠ "default".toList) : ∃ p, i.loads k = some p ∧ p.id = id := by
  obtain ⟨data, hdata⟩ := Option.isSome_iff_exists.1 h.2
  exact ⟨⟨id, data, some k⟩, loads_iff.2 ⟨hne, hid, h.1, hdata, rfl⟩, rfl⟩

theorem loads_loaded {k : Key} {p : VpdPage} (h : i.loads k = some p) : i.Loaded k := by
  obtain ⟨-, -, halloc, hread, -⟩ := loads_iff.1 h
  exact ⟨halloc, by rw [hread]; rfl⟩

theorem entryId_default : entryId "default".toList = .ok none := by decide

theorem ne_default {k : Key} {id : Nat} (h : entryId k = .ok (some id)) : k ≠ "default".toList := by
  rintro rfl
  rw [entryId_default] at h
  cases h

theorem Fits.mem_loads (h : Fits i) (p : VpdPage) : p ∈ i.keys.filterMap i.loads ↔ i.Named p := by
  rw [List.mem_filterMap, named_iff]
  refine exists_congr fun k => and_congr_right fun hk => ⟨fun hload => ⟨hload, ?_⟩, And.left⟩
  have hid := (loads_iff.1 hload).2.1
  cases hname : hexName k with
  | none => exact absurd (loads_loaded hload) (h.no_stray k hk hname p.id hid)
  | some id =>
    rw [entryId_of_hexName hname] at hid
    cases hid
    rfl

theorem Fits.clean (h : Fits i) : i.Clean [] i.keys := by
  refine ⟨h.long_enough, ?_⟩
  rw [List.nil_append, List.Nodup, List.pairwise_map, List.pairwise_filterMap]
  refine i.distinct.imp_of_mem fun {k k'} hk hk' hne p hp p' hp' hid => hne ?_
  have hname : ∀ {k p}, k ∈ i.keys → i.loads k = some p → hexName k = some p.id := by
    intro k p hk hp
    obtain ⟨k₀, -, hload, hname⟩ := named_iff.1 ((h.mem_loads p).1 (List.mem_filterMap.2 ⟨k, hk, hp⟩))
    have := (loads_iff.1 hload).2.2.2.2.symm.trans (loads_iff.1 hp).2.2.2.2
    obtain rfl := Option.some.inj this
    exact hname
  exact h.one_spelling k hk k' hk' p.id (hname hk hp) (hid ▸ hname hk' hp') (loads_loaded hp)
    (loads_loaded hp')

/-- The pages that were read stand the traces and leave room for page 0. -/
def Inputs.Completes (i : Inputs) (d : List VpdPage) : Prop :=
  (∀ p ∈ d, p.id = 0x80 → dumpSerialNumberVpdpPage i p = .ok ()) ∧
  (∀ p ∈ d, p.id = 0x83 → dumpDeviceIdentificationVpdpPage i p = .ok ()) ∧
  ∃ id, 1 ≤ id ∧ id ≤ 0xff ∧ (∀ p ∈ d, p.id ≠ id) ∧ (id = 0x80 → i.serialAlloc = false) ∧
    (id = 0x83 → i.emptyAlloc = false)

/-- What is in the list once the compulsory pages were looked for. -/
def Inputs.Compulsory (i : Inputs) (d : List VpdPage) (p : VpdPage) : Prop :=
  p ∈ d ∨ (p = unitSerialNumberVpdpPage ∧ i.serialAlloc = true ∧ ∀ q ∈ d, q.id ≠ 0x80) ∨
    (p = emptyVpdpPage 0x83 ∧ i.emptyAlloc = true ∧ ∀ q ∈ d, q.id ≠ 0x83)

theorem compulsory_both (i : Inputs) (hasc : Ascending d) :
    (¬i.Completes d ∧ ∃ f, complete i d = .error f) ∨
    ((∀ p ∈ d, p.id = 0x80 → dumpSerialNumberVpdpPage i p = .ok ()) ∧
      (∀ p ∈ d, p.id = 0x83 → dumpDeviceIdentificationVpdpPage i p = .ok ()) ∧
      ∃ d₂, Ascending d₂ ∧ (∀ p, p ∈ d₂ ↔ i.Compulsory d p) ∧
        complete i d = computePage0 d₂ i.page0Alloc >>= fun page0 =>
          match page0 with
          | some page => insertVpdp page d₂
          | none => .ok d₂) := by
  unfold complete
  obtain ⟨⟨p, hp, hid, hbad⟩, f, hf⟩ | ⟨hserial, d₁, hrun₁, hasc₁, hmem₁⟩ :=
    compulsory_spec hasc (dumpSerialNumberVpdpPage i) unitSerialNumberVpdpPage i.serialAlloc
  · exact .inl ⟨fun h => hbad (h.1 p hp hid), f, by rw [hf]; rfl⟩
  -- the page made up for the serial number is not the one looked for next
  have hmem_id : ∀ q ∈ d₁, q.id = 0x83 → q ∈ d := by
    intro q hq hid
    obtain hq | ⟨rfl, -⟩ := (hmem₁ q).1 hq
    · exact hq
    · cases hid
  have habsent : (∀ q ∈ d₁, q.id ≠ 0x83) ↔ ∀ q ∈ d, q.id ≠ 0x83 :=
    ⟨fun h q hq => h q ((hmem₁ q).2 (.inl hq)), fun h q hq hid => h q (hmem_id q hq hid) hid⟩
  rw [hrun₁]
  obtain ⟨⟨p, hp, hid, hbad⟩, f, hf⟩ | ⟨hident, d₂, hrun₂, hasc₂, hmem₂⟩ :=
    compulsory_spec hasc₁ (dumpDeviceIdentificationVpdpPage i) (emptyVpdpPage 0x83) i.emptyAlloc
  · refine .inl ⟨fun h => hbad (h.2.1 p (hmem_id p hp hid) hid), f, ?_⟩
    change (compulsory d₁ _ _ _ >>= _) = _
    rw [hf]
    rfl
  refine .inr ⟨hserial, fun p hp hid => hident p ((hmem₁ p).2 (.inl hp)) hid, d₂, hasc₂, fun p => ?_, ?_⟩
  · rw [hmem₂, hmem₁, Inputs.Compulsory, or_assoc]
    exact or_congr_right (or_congr_right (and_congr_right fun _ => and_congr_right fun _ => habsent))
  · change (compulsory d₁ _ _ _ >>= _) = _
    rw [hrun₂]
    rfl

theorem Inputs.Compulsory.range (hrange : ∀ p ∈ d, 1 ≤ p.id ∧ p.id ≤ 0xff) {p : VpdPage}
    (h : i.Compulsory d p) : 1 ≤ p.id ∧ p.id ≤ 0xff := by
  obtain hp | ⟨rfl, -⟩ | ⟨rfl, -⟩ := h
  · exact hrange p hp
  · exact ⟨by decide, by decide⟩
  · exact ⟨by decide, by decide⟩

theorem missing_iff (i : Inputs) (d : List VpdPage) (id : Nat) :
    (∀ p, i.Compulsory d p → p.id ≠ id) ↔
      (∀ p ∈ d, p.id ≠ id) ∧ (id = 0x80 → i.serialAlloc = false) ∧ (id = 0x83 → i.emptyAlloc = false) := by
  constructor
  · intro h
    have hd : ∀ p ∈ d, p.id ≠ id := fun p hp => h p (.inl hp)
    refine ⟨hd, fun hid => ?_, fun hid => ?_⟩
    · subst hid
      exact Bool.eq_false_iff.2 fun halloc =>
        h unitSerialNumberVpdpPage (.inr (.inl ⟨rfl, halloc, hd⟩)) rfl
    · subst hid
      exact Bool.eq_false_iff.2 fun halloc =>
        h (emptyVpdpPage 0x83) (.inr (.inr ⟨rfl, halloc, hd⟩)) rfl
  · rintro ⟨hd, hserial, hempty⟩ p hp hid
    obtain hp | ⟨rfl, halloc, -⟩ | ⟨rfl, halloc, -⟩ := hp
    · exact hd p hp hid
    · exact absurd (hserial hid.symm) (by simp [halloc])
    · exact absurd (hempty hid.symm) (by simp [halloc])

theorem complete_spec (i : Inputs) (hasc : Ascending d) (hrange : ∀ p ∈ d, 1 ≤ p.id ∧ p.id ≤ 0xff) :
    (¬i.Completes d ∧ ∃ f, complete i d = .error f) ∨
    (i.Completes d ∧ ∃ pages, complete i d = .ok pages ∧ Ascending pages ∧ pages.length < 256 ∧
      (∀ p ∈ pages, p.id < 256) ∧
      ∀ p, p ∈ pages ↔ i.Compulsory d p ∨ (p = page0 pages ∧ i.page0Alloc = true)) := by
  obtain hbad | ⟨hserial, hident, d₂, hasc₂, hmem₂, hrun⟩ := compulsory_both i hasc
  · exact .inl hbad
  have hrange₂ : ∀ p ∈ d₂, 1 ≤ p.id ∧ p.id ≤ 0xff := fun p hp => ((hmem₂ p).1 hp).range hrange
  have hroom : i.Completes d ↔ d₂.length < 255 := by
    rw [room_iff hasc₂ hrange₂]
    simp only [hmem₂, missing_iff]
    exact ⟨fun h => h.2.2, fun h => ⟨hserial, hident, h⟩⟩
  rw [hroom, hrun]
  unfold computePage0
  by_cases hlt : d₂.length + 1 < 256
  · rw [if_pos hlt]
    refine .inr ⟨by omega, ?_⟩
    cases halloc : i.page0Alloc with
    | false =>
      exact ⟨d₂, rfl, hasc₂, by omega, fun p hp => Nat.lt_succ_of_le (hrange₂ p hp).2, by simp [hmem₂]⟩
    | true =>
      have hpos : ∀ p ∈ d₂, 1 ≤ p.id := fun p hp => (hrange₂ p hp).1
      refine ⟨page0 (⟨0, [], none⟩ :: d₂) :: d₂, insertVpdp_page0 rfl hpos,
        List.pairwise_cons.2 ⟨fun p hp => hpos p hp, hasc₂⟩, by simp; omega, ?_, fun p => ?_⟩
      · intro p hp
        obtain rfl | hp := List.mem_cons.1 hp
        · exact Nat.zero_lt_succ _
        · exact Nat.lt_succ_of_le (hrange₂ p hp).2
      · rw [List.mem_cons, hmem₂, or_comm]
        exact or_congr_right ⟨fun h => ⟨h, rfl⟩, And.left⟩
  · rw [if_neg hlt]
    exact .inl ⟨by omega, .tooMany, rfl⟩

theorem hexName_of_loads {k : Key} {p : VpdPage} (h : i.Named p) (hload : i.loads k = some p) :
    hexName k = some p.id := by
  obtain ⟨k', -, hname, -, -, hkey⟩ := h
  have := hkey.symm.trans (loads_iff.1 hload).2.2.2.2
  obtain rfl := Option.some.inj this
  exact hname

theorem fits_of (hclean : i.Clean [] i.keys) (hasc : Ascending d)
    (hload : ∀ p, p ∈ d ↔ ∃ k ∈ i.keys, i.loads k = some p) (hnamed : ∀ p ∈ d, i.Named p)
    (h : i.Completes d) : Fits i := by
  have hmem : ∀ p, i.Named p → p ∈ d := by
    intro p hp
    obtain ⟨k, hk, hloads, -⟩ := named_iff.1 hp
    exact (hload p).2 ⟨k, hk, hloads⟩
  obtain ⟨hserial, hident, id, hid, hid', habsent, hmade⟩ := h
  refine ⟨hclean.1, fun k hk hnone id hid hloaded => ?_, fun k hk k' hk' id hname hname' hl hl' => ?_,
    fun p hp => hserial p (hmem p hp), fun p hp => hident p (hmem p hp),
    id, hid, hid', fun p hp => habsent p (hmem p hp), hmade⟩
  · obtain ⟨p, hp, -⟩ := exists_loads hid hloaded (ne_default hid)
    have := hexName_of_loads (hnamed p ((hload p).2 ⟨k, hk, hp⟩)) hp
    rw [hnone] at this
    cases this
  · have hid := entryId_of_hexName hname
    have hid' := entryId_of_hexName hname'
    obtain ⟨p, hp, hpid⟩ := exists_loads hid hl (ne_default hid)
    obtain ⟨p', hp', hpid'⟩ := exists_loads hid' hl' (ne_default hid')
    have heq := hasc.eq_of_id ((hload p).2 ⟨k, hk, hp⟩) ((hload p').2 ⟨k', hk', hp'⟩)
      (hpid.trans hpid'.symm)
    have hkey := (loads_iff.1 hp).2.2.2.2
    rw [heq, (loads_iff.1 hp').2.2.2.2] at hkey
    exact (Option.some.inj hkey).symm

/-- The table of VPD pages is built just if the directory is one that the code can deal with. -/
theorem vpd_pages_iff (i : Inputs) :
    Builds i ↔ (i.workAlloc = true → i.bpathAlloc = true → Fits i) := by
  unfold Builds readScsiInquiryData
  by_cases hwork : i.workAlloc = true
  case neg =>
    rw [if_pos (by simp [hwork])]
    exact iff_of_true (.inl (Bool.eq_false_iff.2 hwork)) fun h => absurd h hwork
  by_cases hbpath : i.bpathAlloc = true
  case neg =>
    rw [if_pos (by simp [hbpath])]
    exact iff_of_true (.inr (Bool.eq_false_iff.2 hbpath)) fun _ h => absurd h hbpath
  rw [if_neg (by simp [hwork, hbpath])]
  simp only [hwork, hbpath, forall_const]
  obtain ⟨hclean, d, hrun, hasc, hperm⟩ | ⟨hclean, f, hf⟩ :=
    foldlM_readEntry i i.keys (List.Pairwise.nil (R := fun p q : VpdPage => p.id < q.id))
  case inr =>
    rw [show i.readEntries = .error f from hf]
    exact iff_of_false id fun h => hclean h.clean
  rw [show i.readEntries = .ok d from hrun]
  change (match (complete i d).map some with
    | .error _ => False
    | .ok none => _
    | .ok (some pages) => Table i pages) ↔ _
  have hload : ∀ p, p ∈ d ↔ ∃ k ∈ i.keys, i.loads k = some p := by
    intro p
    rw [hperm.mem_iff, List.nil_append, List.mem_filterMap]
  have hrange : ∀ p ∈ d, 1 ≤ p.id ∧ p.id ≤ 0xff := by
    intro p hp
    obtain ⟨k, -, hk⟩ := (hload p).1 hp
    exact loads_range hk
  have hmem : Fits i → ∀ p, p ∈ d ↔ i.Named p := by
    intro h p
    rw [← h.mem_loads, hperm.mem_iff, List.nil_append]
  obtain ⟨hbad, f, hf⟩ | ⟨hgood, pages, hpages, hasc', hlt, hid, hall⟩ := complete_spec i hasc hrange
  · rw [hf]
    refine iff_of_false id fun h => hbad ?_
    simp only [Inputs.Completes, hmem h]
    exact ⟨h.serial, h.identification, h.room⟩
  · rw [hpages]
    constructor
    · intro htable
      refine fits_of hclean hasc hload (fun p hp => ?_) hgood
      obtain ⟨k, -, hk⟩ := (hload p).1 hp
      have hkey := (loads_iff.1 hk).2.2.2.2
      -- what is made up has no key
      obtain h | ⟨rfl, -⟩ | ⟨rfl, -⟩ | ⟨rfl, -⟩ := (htable.contents p).1 ((hall p).2 (.inl (.inl hp)))
      · exact h
      · cases hkey
      · cases hkey
      · cases hkey
    · intro h
      refine ⟨hasc', fun p => ?_, hlt, hid⟩
      rw [hall]
      simp only [Inputs.Compulsory, hmem h, or_assoc]

/-- Two spellings of page 0xab. -/
def twice : Inputs where
  workAlloc := true
  bpathAlloc := true
  entries := some ["0xab".toList, "0xAB".toList]
  distinct := by decide
  pageAlloc _ := true
  read _ := some [0, 0xab, 0, 0]
  serialAlloc := true
  emptyAlloc := true
  page0Alloc := true
  serialDumpAlloc := true
  descriptorDumpAlloc _ := true

/-- The second of two spellings of an id meets the assertion that there are no duplicates. -/
theorem two_spellings : readScsiInquiryData twice = .error .duplicate ∧ ¬Builds twice := by
  have h : readScsiInquiryData twice = .error .duplicate := by decide
  refine ⟨h, ?_⟩
  unfold Builds
  rw [h]
  exact id

end XcWindows.Xenvbd.VpdPages
