import Mathlib.Data.Nat.Find
import XcWindows.Lib.Word
import XcWindows.Xenbus.Transaction

/-!
# XenStore directories

`xenbus_ls` of `xenutil/xenbus.c`: the payload of an `XS_DIRECTORY` reply is split at its NULs into
an array of strings. A first pass counts the NULs, a second one takes `strlen` of what is left,
allocates and copies. A string that can not be allocated is answered with an unwind that counts the
index down from the one before it and stops in front of `res[0]`.
-/

namespace XcWindows.Xenbus.Directory

open XcWindows.Lib

/-- A block handed to `XmFreeMemory`. -/
inductive Freed where
  | reply | array
  | string (k : Nat)
deriving DecidableEq

/-- `strlen` of the rest of the payload; `none` when it would read behind it. -/
def strlen : List UInt8 → Option Nat
  | [] => none
  | b :: s => if b = 0 then some 0 else (strlen s).map (· + 1)

/-- `while (y)` in the unwind, with an array of `slots` pointers; `none` reads behind it. -/
def unwindLoop (slots : Nat) : Nat → Option (List Freed)
  | 0 => some []
  | y + 1 => if y + 1 < slots then (unwindLoop slots y).map (.string (y + 1) :: ·) else none

/-- The second pass, over the rest of the payload, the bytes still skipped by `x += z` and the
index `y`: the strings copied, or what was freed when `alloc` failed. `none` is an access outside
the payload or the array. -/
def copyLoop (alloc : Nat → Bool) (slots : Nat) :
    List UInt8 → Nat → Nat → Option (Except (List Freed) (List (List UInt8)))
  -- `res[y] = NULL`
  | [], _, y => if y < slots then some (.ok []) else none
  | _ :: s, skip + 1, y => copyLoop alloc slots s skip y
  | b :: s, 0, y =>
    match strlen (b :: s) with
    | none => none
    | some z =>
      if y < slots then
        if alloc y then
          (copyLoop alloc slots s z (y + 1)).map fun r => r.map ((b :: s).take z :: ·)
        else (unwindLoop slots (sub32 y 1)).map fun freed => .error (freed ++ [.array])
      else none

/-- What `xenbus_ls` returns, leaves in `*Res` and in the transaction, and what it frees. -/
structure LsResult where
  status : NtStatus
  res : Option (List (List UInt8))
  xbt : Xbt
  freed : List Freed
deriving DecidableEq

/-- `xenbus_ls`; `arrayAlloc` and `alloc k` tell whether the array and the string `k` can be
allocated. -/
def xenbusLs (xbt : Xbt) (reply : Reply) (arrayAlloc : Bool) (alloc : Nat → Bool) :
    Option LsResult :=
  match xbt.transactionStatus with
  | .error e => some ⟨.error e, none, xbt, []⟩
  | .success =>
    match reply with
    | .error e => some ⟨.error e, none, xbt.fail e, [.reply]⟩
    | .ok payload =>
      let nrEntries := u32 (payload.count 0)
      if arrayAlloc then
        match copyLoop alloc (u32 (nrEntries + 1)) payload 0 0 with
        | none => none
        | some (.error freed) =>
          some ⟨.error .insufficientResources, none, xbt.fail .insufficientResources,
            freed ++ [.reply]⟩
        | some (.ok strings) => some ⟨.success, some strings, xbt, [.reply]⟩
      else
        some ⟨.error .insufficientResources, none, xbt.fail .insufficientResources, [.reply]⟩

/-! ## Components -/

/-- The strings between the NULs of a payload; behind its last NUL there is one more only if there
are bytes. -/
def components (payload : List UInt8) : List (List UInt8) :=
  if (payload.splitOn 0).getLast? = some [] then (payload.splitOn 0).dropLast
  else payload.splitOn 0

/-- Each component has its NUL. -/
def Terminated (payload : List UInt8) : Prop := payload = [] ∨ payload.getLast? = some 0

section Components

variable {z s : List UInt8}

@[simp] theorem components_nil : components [] = [] := rfl

theorem components_cons (hz : 0 ∉ z) : components (z ++ 0 :: s) = z :: components s := by
  have hsplit : (z ++ 0 :: s).splitOn 0 = z :: s.splitOn 0 :=
    List.splitOn_append_cons_self_of_not_mem hz s
  have hne : s.splitOn 0 ≠ [] := List.splitOn_ne_nil 0 s
  unfold components
  rw [hsplit, List.getLast?_cons_of_ne_nil hne, List.dropLast_cons_of_ne_nil hne]
  split <;> rfl

theorem terminated_cons : Terminated (z ++ 0 :: s) ↔ Terminated s := by
  cases s with
  | nil => simp [Terminated]
  | cons b s => simp [Terminated]

theorem not_terminated (hz : 0 ∉ z) (hne : z ≠ []) : ¬ Terminated z := by
  rintro (h | h)
  · exact hne h
  · exact hz (List.mem_of_getLast? h)

theorem payload_cases {P : List UInt8 → Prop} (nil : P [])
    (last : ∀ z, 0 ∉ z → z ≠ [] → P z) (cons : ∀ z s, 0 ∉ z → P s → P (z ++ 0 :: s))
    (payload : List UInt8) : P payload := by
  induction h : payload.length using Nat.strongRecOn generalizing payload with
  | ind n ih =>
    by_cases h0 : 0 ∈ payload
    · obtain ⟨z, s, rfl, hz⟩ := List.eq_append_cons_of_mem h0
      simp only [List.length_append, List.length_cons] at h
      exact cons z s hz (ih s.length (by omega) s rfl)
    · rcases eq_or_ne payload [] with rfl | hne
      · exact nil
      · exact last payload h0 hne

theorem length_components (h : Terminated s) : (components s).length = s.count 0 := by
  induction s using payload_cases with
  | nil => rfl
  | last z hz hne => exact absurd h (not_terminated hz hne)
  | cons z s hz ih =>
    rw [components_cons hz, List.length_cons, ih (terminated_cons.mp h), List.count_append,
      List.count_cons_self, List.count_eq_zero.mpr hz]
    omega

theorem strlen_cons (hz : 0 ∉ z) : strlen (z ++ 0 :: s) = some z.length := by
  induction z with
  | nil => rfl
  | cons b z ih =>
    simp only [List.mem_cons, not_or] at hz
    rw [List.cons_append, strlen, if_neg (Ne.symm hz.1), ih hz.2]
    rfl

theorem strlen_last (hz : 0 ∉ z) : strlen z = none := by
  induction z with
  | nil => rfl
  | cons b z ih =>
    simp only [List.mem_cons, not_or] at hz
    rw [strlen, if_neg (Ne.symm hz.1), ih hz.2]
    rfl

end Components

/-! ## The second pass -/

section Loop

variable {alloc : Nat → Bool} {slots y : Nat} {z s : List UInt8}

theorem copyLoop_skip (s : List UInt8) (skip : Nat) :
    copyLoop alloc slots s skip y = copyLoop alloc slots (s.drop skip) 0 y := by
  induction s generalizing skip with
  | nil => simp [copyLoop]
  | cons b s ih =>
    cases skip with
    | zero => rfl
    | succ skip => exact ih skip

theorem copyLoop_cons (hz : 0 ∉ z) :
    copyLoop alloc slots (z ++ 0 :: s) 0 y =
      if y < slots then
        if alloc y then (copyLoop alloc slots s 0 (y + 1)).map fun r => r.map (z :: ·)
        else (unwindLoop slots (sub32 y 1)).map fun freed => .error (freed ++ [.array])
      else none := by
  obtain ⟨b, t, hb⟩ : ∃ b t, z ++ 0 :: s = b :: t := by cases z <;> exact ⟨_, _, rfl⟩
  have hdrop : t.drop z.length = s := by
    have : (b :: t).drop (z.length + 1) = s := by simp [← hb]
    exact this
  have htake : (b :: t).take z.length = z := by simp [← hb]
  have hlen : strlen (b :: t) = some z.length := hb ▸ strlen_cons hz
  rw [hb, copyLoop]
  simp only [hlen, copyLoop_skip t, hdrop, htake]

theorem copyLoop_last (hz : 0 ∉ z) (hne : z ≠ []) : copyLoop alloc slots z 0 y = none := by
  cases z with
  | nil => exact absurd rfl hne
  | cons b z => rw [copyLoop, strlen_last hz]

theorem copyLoop_ok (rest : List UInt8) {strings : List (List UInt8)} :
    copyLoop alloc slots rest 0 y = some (.ok strings) ↔
      Terminated rest ∧ (∀ i < (components rest).length, alloc (y + i) = true) ∧
        y + (components rest).length < slots ∧ strings = components rest := by
  induction rest using payload_cases generalizing y strings with
  | nil =>
    rw [copyLoop]
    split
    · next hy =>
      refine ⟨fun h => ?_, fun h => by rw [h.2.2.2]; rfl⟩
      cases h
      exact ⟨.inl rfl, fun i hi => absurd hi (Nat.not_lt_zero i), hy, rfl⟩
    · next hy => exact iff_of_false nofun fun h => hy h.2.2.1
  | last z hz hne =>
    rw [copyLoop_last hz hne]
    exact iff_of_false nofun fun h => not_terminated hz hne h.1
  | cons z s hz ih =>
    rw [copyLoop_cons hz, terminated_cons, components_cons hz, List.length_cons]
    by_cases hy : y < slots
    · by_cases ha : alloc y = true
      · rw [if_pos hy, if_pos ha]
        constructor
        · intro h
          obtain ⟨r, hr, hm⟩ := Option.map_eq_some_iff.mp h
          cases r with
          | error freed => cases hm
          | ok rest =>
            obtain rfl := Except.ok.inj hm
            obtain ⟨h1, h2, h3, rfl⟩ := ih.mp hr
            refine ⟨h1, fun i hi => ?_, by omega, rfl⟩
            cases i with
            | zero => exact ha
            | succ i =>
              rw [show y + (i + 1) = y + 1 + i by omega]
              exact h2 i (by omega)
        · rintro ⟨h1, h2, h3, rfl⟩
          rw [ih.mpr ⟨h1, fun i hi => ?_, by omega, rfl⟩]
          · rfl
          · rw [show y + 1 + i = y + (i + 1) by omega]
            exact h2 (i + 1) (by omega)
      · rw [if_pos hy, if_neg ha]
        refine iff_of_false (fun h => ?_) fun h => ha (h.2.1 0 (by omega))
        obtain ⟨freed, -, hm⟩ := Option.map_eq_some_iff.mp h
        cases hm
    · rw [if_neg hy]
      exact iff_of_false nofun fun h => hy (by omega)

theorem string_zero_unwindLoop (n : Nat) {freed : List Freed}
    (h : unwindLoop slots n = some freed) : .string 0 ∉ freed := by
  induction n generalizing freed with
  | zero => cases h; simp
  | succ n ih =>
    unfold unwindLoop at h
    split at h
    · obtain ⟨freed', h1, rfl⟩ := Option.map_eq_some_iff.mp h
      simpa using ih h1
    · cases h

/-- The unwind never frees `res[0]`. -/
theorem copyLoop_error (rest : List UInt8) {freed : List Freed}
    (h : copyLoop alloc slots rest 0 y = some (.error freed)) : .string 0 ∉ freed := by
  induction rest using payload_cases generalizing y with
  | nil => rw [copyLoop] at h; split at h <;> cases h
  | last z hz hne => rw [copyLoop_last hz hne] at h; cases h
  | cons z s hz ih =>
    rw [copyLoop_cons hz] at h
    split at h
    · split at h
      · obtain ⟨r, hr, hm⟩ := Option.map_eq_some_iff.mp h
        cases r with
        | error freed' =>
          obtain rfl := Except.error.inj hm
          exact ih hr
        | ok strings => cases hm
      · obtain ⟨freed', h1, hm⟩ := Option.map_eq_some_iff.mp h
        obtain rfl := Except.error.inj hm
        simpa using string_zero_unwindLoop _ h1
    · cases h

theorem copyLoop_first {rest : List UInt8} (hne : rest ≠ []) (hs : slots < 4294967296)
    (ha : alloc 0 = false) : copyLoop alloc slots rest 0 0 = none := by
  by_cases h0 : 0 ∈ rest
  · obtain ⟨z, s, rfl, hz⟩ := List.eq_append_cons_of_mem h0
    rw [copyLoop_cons hz]
    split
    · rw [ha, if_neg (by decide), show sub32 0 1 = 4294967294 + 1 from rfl, unwindLoop,
        if_neg (by omega)]
      rfl
    · rfl
  · exact copyLoop_last h0 hne

end Loop

/-! ## The listing -/

def LsResult.Fails (r : LsResult) : Prop :=
  r.status ≠ .success ∧ r.res = none ∧ r.xbt.Failed

/-- `xenbus_ls` stays inside the payload and the array and returns the components; without memory
for the string `k` it frees the ones before it and the array, and fails. -/
def Lists (xbt : Xbt) (reply : Reply) (arrayAlloc : Bool) (alloc : Nat → Bool)
    (out : Option LsResult) : Prop :=
  ∃ r, out = some r ∧
    match reply.under xbt with
    | .error _ => r.Fails
    | .ok payload =>
      if arrayAlloc then
        ((∀ k < (components payload).length, alloc k) →
          r.status = .success ∧ r.res = some (components payload) ∧ r.freed = [.reply]) ∧
        ∀ k < (components payload).length, alloc k = false → (∀ j < k, alloc j) →
          r.Fails ∧ r.freed.Perm ((List.range k).map .string ++ [.array, .reply])
      else r.Fails ∧ r.freed = [.reply]

/-- What is read is terminated and not as long as to wrap the number of entries, and there is memory
for all of it. -/
def Listable (xbt : Xbt) (reply : Reply) (arrayAlloc : Bool) (alloc : Nat → Bool) : Prop :=
  ∀ payload, reply.under xbt = .ok payload → arrayAlloc = true →
    Terminated payload ∧ payload.count 0 + 1 < 4294967296 ∧
      ∀ k < (components payload).length, alloc k

/-- `xenbus_ls` lists a reply iff the array has no memory, or the payload is empty or ends with a
NUL, its NULs and one fit in 32 bits, and every string has its memory. -/
theorem xenbus_ls_iff (xbt : Xbt) (reply : Reply) (arrayAlloc : Bool) (alloc : Nat → Bool) :
    Lists xbt reply arrayAlloc alloc (xenbusLs xbt reply arrayAlloc alloc) ↔
      Listable xbt reply arrayAlloc alloc := by
  unfold Lists Listable Reply.under xenbusLs
  cases hx : xbt.transactionStatus with
  | error e =>
    refine iff_of_true ⟨_, rfl, nofun, rfl, ?_⟩ nofun
    rintro rfl
    cases hx
  | success =>
    cases reply with
    | error e => exact iff_of_true ⟨_, rfl, nofun, rfl, xbt.failed_fail e⟩ nofun
    | ok payload =>
      cases arrayAlloc with
      | false =>
        exact iff_of_true ⟨_, rfl, ⟨nofun, rfl, xbt.failed_fail _⟩, rfl⟩ fun _ _ => nofun
      | true =>
        simp only [if_true, Except.ok.injEq, forall_eq', true_implies]
        have hslots : u32 (u32 (payload.count 0) + 1) < 4294967296 := Nat.mod_lt _ (by decide)
        have hwrap : payload.count 0 < u32 (u32 (payload.count 0) + 1) ↔
            payload.count 0 + 1 < 4294967296 := by simp only [u32]; omega
        generalize u32 (u32 (payload.count 0) + 1) = slots at *
        have hok := @copyLoop_ok alloc slots 0 payload
        simp only [Nat.zero_add] at hok
        constructor
        · rintro ⟨r, hr, hall, hfail⟩
          by_cases ha : ∀ k < (components payload).length, alloc k = true
          · -- with all the memory, a success is the end of the second pass
            obtain ⟨hst, -, -⟩ := hall ha
            split at hr
            · cases hr
            · obtain rfl := Option.some.inj hr
              cases hst
            · next strings heq =>
              obtain ⟨h1, -, h2, -⟩ := hok.mp heq
              rw [length_components h1] at h2
              exact ⟨h1, hwrap.mp h2, ha⟩
          · -- the first string without memory is freed only by an unwind that has no first string
            exfalso
            have hex : ∃ k, k < (components payload).length ∧ alloc k = false := by simpa using ha
            obtain ⟨hk, hka⟩ := Nat.find_spec hex
            obtain ⟨⟨hst, -⟩, hperm⟩ := hfail _ hk hka fun j hj => by
              simpa using fun hj' => Nat.find_min hex hj ⟨Nat.lt_trans hj hk, hj'⟩
            split at hr
            · cases hr
            · next freed heq =>
              obtain rfl := Option.some.inj hr
              have h0 : .string 0 ∉ freed ++ [.reply] := by
                simpa using copyLoop_error payload heq
              rw [hperm.mem_iff] at h0
              cases hfind : Nat.find hex with
              | zero =>
                rw [hfind] at hka
                have hne : payload ≠ [] := by
                  rintro rfl
                  exact absurd hk (Nat.not_lt_zero _)
                rw [copyLoop_first hne hslots hka] at heq
                cases heq
              | succ k => simp [hfind] at h0
            · obtain rfl := Option.some.inj hr
              exact hst rfl
        · rintro ⟨h1, h2, h3⟩
          have heq := hok.mpr ⟨h1, h3, by rw [length_components h1]; exact hwrap.mpr h2, rfl⟩
          rw [heq]
          exact ⟨_, rfl, fun _ => ⟨rfl, rfl, rfl⟩, fun k hk hf => absurd (h3 k hk) (by simp [hf])⟩

/-- A payload without a NUL at its end, and two strings of which the second gets no memory: the
first one is not freed. -/
theorem xenbus_ls_false :
    xenbusLs .nil (.ok [97]) true (fun _ => true) = none ∧
      ¬ Lists .nil (.ok [97]) true (fun _ => true) (xenbusLs .nil (.ok [97]) true fun _ => true) ∧
      xenbusLs .nil (.ok [97, 0, 98, 0]) true (· == 0) =
        some ⟨.error .insufficientResources, none, .nil, [.array, .reply]⟩ ∧
      ¬ Lists .nil (.ok [97, 0, 98, 0]) true (· == 0)
        (xenbusLs .nil (.ok [97, 0, 98, 0]) true (· == 0)) := by
  refine ⟨by decide, ?_, by decide, ?_⟩
  · rintro ⟨r, hr, -⟩
    rw [show xenbusLs .nil (.ok [97]) true (fun _ => true) = none by decide] at hr
    cases hr
  · rintro ⟨r, hr, -, hfail⟩
    obtain ⟨-, hperm⟩ := hfail 1 (by decide) rfl (by decide)
    obtain rfl := Option.some.inj hr
    exact absurd hperm.length_eq (by decide)

end XcWindows.Xenbus.Directory
