import Mathlib.Data.List.DropRight
import XcWindows.Lib.Circ

/-!
# The driver's arguments

`ParseArgumentString` of `xenvbd/xenvbd.c` up to `done`, in the buffer it is given: the string and its
NUL. A read beyond the NUL has no result (`scan`). What it should find are the words of the string that
are `key=value` (`args`). It finds them as long as no word without `=` comes before one, and unless the
last of them is the end of the string: there the parser steps over the NUL, or loses an empty value.
-/

namespace XcWindows.Xenvbd.Arguments

open Lib
open Function (update update_of_ne update_self)

abbrev space : UInt8 := 32
abbrev equals : UInt8 := 61

abbrev maxArg : Nat := 16

/-- A string as it is passed, without its NUL. -/
structure ArgString where
  chars : List UInt8
  no_nul : 0 ∉ chars

/-- The first of the `n` characters from `offset` on at which `stop` holds. -/
def scan (stop : UInt8 → Bool) (buf : Nat → UInt8) : Nat → Nat → Option Nat
  | 0, _ => none
  | n + 1, offset => if stop (buf offset) then some offset else scan stop buf n (offset + 1)

/-- The loop over `key` and `value`, with room for `left` of them, in a buffer of `size` characters;
`none` is a read beyond it. -/
def parseLoop (size : Nat) : Nat → (Nat → UInt8) → Nat → List (Nat × Nat) →
    Option ((Nat → UInt8) × List (Nat × Nat))
  | 0, buf, _, args => some (buf, args)
  | left + 1, buf, offset, args =>
    match scan (fun c => c != space) buf (size - offset) offset with
    | none => none
    | some key =>
      match scan (fun c => c == equals || c == 0) buf (size - key) key with
      | none => none
      | some sep =>
        if buf sep = 0 then some (buf, args)
        else
          let buf := update buf sep 0
          let value := sep + 1
          if size ≤ value then none
          else if buf value = 0 then some (buf, args)
          else
            match scan (fun c => c == space || c == 0) buf (size - value) value with
            | none => none
            | some last =>
              parseLoop size left (update buf last 0) (last + 1) (args ++ [(key, value)])

/-- The string at `offset`. -/
def cString (buf : Nat → UInt8) (size offset : Nat) : List UInt8 :=
  (bytes buf offset (size - offset)).takeWhile fun c => c != 0

def strings (buf : Nat → UInt8) (size : Nat) (arg : Nat × Nat) : List UInt8 × List UInt8 :=
  (cString buf size arg.1, cString buf size arg.2)

/-- `ParseArgumentString`: the keys and values at `done`. -/
def parseArgumentString (s : ArgString) : Option (List (List UInt8 × List UInt8)) :=
  let size := s.chars.length + 1
  (parseLoop size maxArg (fun i => s.chars.getD i 0) 0 []).map fun r => r.2.map (strings r.1 size)

/-! ## Words -/

/-- The words of a string. -/
def words (r : List UInt8) : List (List UInt8) := (r.splitOn space).filter fun w => !w.isEmpty

/-- What stands before and after the first `=` of a word. -/
def argOf (w : List UInt8) : Option (List UInt8 × List UInt8) :=
  match w.dropWhile (fun c => c != equals) with
  | [] => none
  | _ :: value => some (w.takeWhile fun c => c != equals, value)

/-- The `key=value` words of a string. -/
def args (r : List UInt8) : List (List UInt8 × List UInt8) := (words r).filterMap argOf

@[simp] theorem words_nil : words [] = [] := rfl

@[simp] theorem words_space (r : List UInt8) : words (space :: r) = words r := by
  simp [words, List.splitOn_cons_eq_if_modifyHead]

theorem words_word {w : List UInt8} (hne : w ≠ []) (hw : space ∉ w) : words w = [w] := by
  simp [words, List.splitOn_eq_singleton hw, hne]

theorem words_append {w : List UInt8} (hne : w ≠ []) (hw : space ∉ w) (r : List UInt8) :
    words (w ++ space :: r) = w :: words r := by
  simp [words, List.splitOn_append_cons_of_beq, List.splitOn_eq_singleton hw, hne]

theorem words_induction {p : List UInt8 → Prop} (nil : p []) (skip : ∀ r, p r → p (space :: r))
    (word : ∀ w, w ≠ [] → space ∉ w → p w)
    (append : ∀ w r, w ≠ [] → space ∉ w → p r → p (w ++ space :: r)) (r : List UInt8) : p r := by
  induction hn : r.length using Nat.strongRecOn generalizing r with
  | ind n ih =>
    by_cases hmem : space ∈ r
    · obtain ⟨w, rest, rfl, hw⟩ := List.eq_append_cons_of_mem hmem
      have hrest : p rest := ih rest.length (by simp at hn; omega) rest rfl
      by_cases hne : w = []
      · subst hne
        exact skip rest hrest
      · exact append w rest hne hw hrest
    · by_cases hne : r = []
      · subst hne
        exact nil
      · exact word r hne hmem

theorem space_notMem_words (r : List UInt8) : ∀ w ∈ words r, space ∉ w := by
  induction r using words_induction with
  | nil => simp
  | skip r ih => simpa using ih
  | word w hne hw => simpa [words_word hne hw] using hw
  | append w r hne hw ih => simpa [words_append hne hw] using ⟨hw, ih⟩

theorem mem_words {r : List UInt8} {c : UInt8} (hc : c ≠ space) : (∃ w ∈ words r, c ∈ w) ↔ c ∈ r := by
  induction r using words_induction with
  | nil => simp
  | skip r ih => simp [ih, hc]
  | word w hne hw => simp [words_word hne hw]
  | append w r hne hw ih => simp [words_append hne hw, ih, hc]

theorem argOf_none {w : List UInt8} (h : equals ∉ w) : argOf w = none := by
  have hdrop : w.dropWhile (fun c => c != equals) = [] := by
    rw [List.dropWhile_eq_nil_iff]
    exact fun c hc => by simpa using fun h' : c = equals => h (h' ▸ hc)
  simp [argOf, hdrop]

theorem argOf_append {key : List UInt8} (h : equals ∉ key) (value : List UInt8) :
    argOf (key ++ equals :: value) = some (key, value) := by
  have hkey : ∀ c ∈ key, (c != equals) = true := fun c hc => by
    simpa using fun h' : c = equals => h (h' ▸ hc)
  simp [argOf, List.dropWhile_append_of_pos hkey, List.takeWhile_append_of_pos hkey]

theorem args_eq_nil_iff {r : List UInt8} : args r = [] ↔ equals ∉ r := by
  rw [← mem_words (by decide : equals ≠ space), args, List.filterMap_eq_nil_iff]
  constructor
  · rintro h ⟨w, hw, hmem⟩
    obtain ⟨key, value, rfl, hkey⟩ := List.eq_append_cons_of_mem hmem
    have := h _ hw
    rw [argOf_append hkey] at this
    cases this
  · exact fun h w hw => argOf_none fun hmem => h ⟨w, hw, hmem⟩

theorem space_notMem_key {r : List UInt8} : ∀ kv ∈ args r, space ∉ kv.1 := by
  intro kv hkv hmem
  obtain ⟨w, hw, harg⟩ := List.mem_filterMap.1 hkv
  unfold argOf at harg
  split at harg
  · cases harg
  · obtain rfl := Option.some.inj harg
    exact space_notMem_words r w hw ((List.takeWhile_prefix _).subset hmem)

/-! ## The parser on the characters that are left -/

/-- What the loop finds in the string `r`, with room for `left` arguments. -/
def scanArgs : Nat → List UInt8 → Option (List (List UInt8 × List UInt8))
  | 0, _ => some []
  | left + 1, r =>
    let r := r.dropWhile fun c => c == space
    match r.dropWhile (fun c => c != equals) with
    | [] => some []
    | _ :: [] => some []
    | _ :: v =>
      let arg := (r.takeWhile fun c => c != equals, v.takeWhile fun c => c != space)
      match v.dropWhile (fun c => c != space) with
      | [] => if left = 0 then some [arg] else none
      | _ :: rest => (scanArgs left rest).map (arg :: ·)

theorem scanArgs_space (left : Nat) (r : List UInt8) : scanArgs left (space :: r) = scanArgs left r := by
  cases left with
  | zero => rfl
  | succ left => simp [scanArgs]

theorem scanArgs_dropWhile (left : Nat) (r : List UInt8) :
    scanArgs left (r.dropWhile fun c => c == space) = scanArgs left r := by
  induction r with
  | nil => rfl
  | cons c r ih =>
    by_cases hc : c = space
    · subst hc
      rw [scanArgs_space, List.dropWhile_cons_of_pos (by simp), ih]
    · rw [List.dropWhile_cons_of_neg (by simpa using hc)]

theorem dropWhile_space {w : List UInt8} (hne : w ≠ []) (hw : space ∉ w) (r : List UInt8) :
    (w ++ r).dropWhile (fun c => c == space) = w ++ r := by
  cases w with
  | nil => exact absurd rfl hne
  | cons c w =>
    have hc : c ≠ space := fun h => hw (by simp [h])
    simp [hc]

theorem scanArgs_none {r : List UInt8} (h : equals ∉ r) (left : Nat) : scanArgs left r = some [] := by
  cases left with
  | zero => rfl
  | succ left =>
    have hdrop : (r.dropWhile fun c => c == space).dropWhile (fun c => c != equals) = [] := by
      rw [List.dropWhile_eq_nil_iff]
      intro c hc
      have hmem : c ∈ r := (List.dropWhile_suffix _).subset hc
      simpa using fun h' : c = equals => h (h' ▸ hmem)
    simp [scanArgs, hdrop]

/-- The next word, or what there is up to the next `=`, is a key. -/
theorem scanArgs_key {key rest : List UInt8} (hkey : equals ∉ key)
    (hfirst : (key ++ equals :: rest).dropWhile (fun c => c == space) = key ++ equals :: rest)
    (left : Nat) : scanArgs (left + 1) (key ++ equals :: rest) =
      if rest = [] then some []
      else
        match rest.dropWhile (fun c => c != space) with
        | [] => if left = 0 then some [(key, rest.takeWhile fun c => c != space)] else none
        | _ :: r => (scanArgs left r).map ((key, rest.takeWhile fun c => c != space) :: ·) := by
  have hne : ∀ c ∈ key, (c != equals) = true := fun c hc => by
    simpa using fun h' : c = equals => hkey (h' ▸ hc)
  rw [scanArgs]
  simp only [hfirst, List.dropWhile_append_of_pos hne, List.takeWhile_append_of_pos hne]
  cases rest <;> simp

/-! ## When it finds the arguments -/

/-- With room for `left` arguments: no word without `=` stands before one with `=`, and the string does
not end with an argument, unless the room is used up before; where it is with the last argument, that
one has a value. -/
def Fits (left : Nat) (r : List UInt8) : Prop :=
  (∀ ws w ws', words r = ws ++ w :: ws' → equals ∉ w → left ≤ ws.length ∨ ∀ u ∈ ws', equals ∉ u) ∧
  ∀ ws w, words r = ws ++ [w] → r.getLast? ≠ some space → ∀ arg, argOf w = some arg →
    left ≤ ws.length ∨ left = ws.length + 1 ∧ arg.2 ≠ []

theorem fits_zero (r : List UInt8) : Fits 0 r :=
  ⟨fun _ _ _ _ _ => .inl (Nat.zero_le _), fun _ _ _ _ _ _ => .inl (Nat.zero_le _)⟩

theorem fits_none {r : List UInt8} (h : equals ∉ r) (left : Nat) : Fits left r := by
  have hall : ∀ w ∈ words r, equals ∉ w :=
    fun w hw hmem => h ((mem_words (by decide)).1 ⟨w, hw, hmem⟩)
  constructor
  · exact fun ws w ws' heq _ => .inr fun u hu => hall u (by simp [heq, hu])
  · intro ws w heq _ arg harg
    rw [argOf_none (hall w (by simp [heq]))] at harg
    cases harg

theorem fits_space (left : Nat) (r : List UInt8) : Fits left (space :: r) ↔ Fits left r := by
  unfold Fits
  rw [words_space]
  by_cases hne : r = []
  · subst hne
    simp
  · have hlast : (space :: r).getLast? = r.getLast? := by
      rw [← List.singleton_append, List.getLast?_append_of_ne_nil _ hne]
    rw [hlast]

/-- The last argument of a string that it ends. -/
theorem fits_word {key value : List UInt8} (hkey : equals ∉ key) (hw : space ∉ key ++ equals :: value)
    (left : Nat) : Fits (left + 1) (key ++ equals :: value) ↔ left = 0 ∧ value ≠ [] := by
  have hwords : words (key ++ equals :: value) = [key ++ equals :: value] := words_word (by simp) hw
  have hlast : (key ++ equals :: value).getLast? ≠ some space :=
    fun h => hw (List.mem_of_getLast? h)
  constructor
  · intro h
    obtain h | ⟨h, hne⟩ := h.2 [] _ hwords hlast _ (argOf_append hkey value)
    · exact absurd h (by simp)
    · exact ⟨by simpa using h, hne⟩
  · rintro ⟨rfl, hne⟩
    constructor
    · intro ws w ws' heq hno
      rw [hwords] at heq
      obtain ⟨rfl, h⟩ | ⟨ws, rfl, h⟩ := List.cons_eq_append_iff.1 heq
      · cases h
        simp at hno
      · simp at h
    · intro ws w heq _ arg harg
      rw [hwords] at heq
      obtain ⟨rfl, h⟩ | ⟨ws, rfl, h⟩ := List.cons_eq_append_iff.1 heq
      · cases h
        rw [argOf_append hkey] at harg
        obtain rfl := Option.some.inj harg
        exact .inr ⟨rfl, hne⟩
      · simp at h

theorem getLast?_spaces {r : List UInt8} (h : words r = []) (w : List UInt8) :
    (w ++ space :: r).getLast? = some space := by
  have hall : ∀ c ∈ space :: r, c = space := by
    intro c hc
    obtain rfl | hc := List.mem_cons.1 hc
    · rfl
    by_contra hne
    obtain ⟨u, hu, -⟩ := (mem_words hne).2 hc
    simp [h] at hu
  rw [List.getLast?_append_of_ne_nil _ (by simp), List.getLast?_eq_some_getLast (by simp)]
  exact congrArg some (hall _ (List.getLast_mem _))

theorem fits_append {w : List UInt8} (heq : equals ∈ w) (hw : space ∉ w) (left : Nat) (r : List UInt8) :
    Fits (left + 1) (w ++ space :: r) ↔ Fits left r := by
  have hne : w ≠ [] := List.ne_nil_of_mem heq
  unfold Fits
  rw [words_append hne hw]
  refine and_congr ?_ ?_
  · constructor
    · intro h ws u ws' hu hno
      obtain h | h := h (w :: ws) u ws' (by simp [hu]) hno
      · exact .inl (by simpa using h)
      · exact .inr h
    · intro h ws u ws' hu hno
      obtain ⟨rfl, hcons⟩ | ⟨ws, rfl, htail⟩ := List.cons_eq_append_iff.1 hu
      · cases hcons
        exact absurd heq hno
      · obtain h | h := h ws u ws' htail hno
        · exact .inl (by simpa using h)
        · exact .inr h
  · by_cases hr : words r = []
    · -- only spaces follow
      have hlast : (w ++ space :: r).getLast? = some space := getLast?_spaces hr w
      simp [hlast, hr]
    · have hlast : (w ++ space :: r).getLast? = r.getLast? := by
        have hr' : r ≠ [] := fun h => hr (by simp [h])
        rw [List.append_cons, List.getLast?_append_of_ne_nil _ hr']
      rw [hlast]
      constructor
      · intro h ws u hu hsp arg harg
        simpa using h (w :: ws) u (by simp [hu]) hsp arg harg
      · intro h ws u hu hsp arg harg
        obtain ⟨rfl, hcons⟩ | ⟨ws, rfl, htail⟩ := List.cons_eq_append_iff.1 hu
        · exact absurd (List.cons.inj hcons).2.symm hr
        · simpa using h ws u htail hsp arg harg

theorem scanArgs_key_space {key rest : List UInt8} (hkey : equals ∉ key) (hsp : space ∈ key)
    (hfirst : (key ++ equals :: rest).dropWhile (fun c => c == space) = key ++ equals :: rest)
    (left : Nat) :
    scanArgs (left + 1) (key ++ equals :: rest) ≠
      some ((args (key ++ equals :: rest)).take (left + 1)) := by
  have hne : args (key ++ equals :: rest) ≠ [] := fun h => args_eq_nil_iff.1 h (by simp)
  obtain ⟨kv, more, hargs⟩ := List.exists_cons_of_ne_nil hne
  have hkv : key ≠ kv.1 := fun h => space_notMem_key kv (by rw [hargs]; simp) (h ▸ hsp)
  rw [scanArgs_key hkey hfirst, hargs, List.take_succ_cons]
  split
  · simp
  split
  · split
    · intro h
      have := (List.cons.inj (Option.some.inj h)).1
      exact hkv (congrArg Prod.fst this)
    · simp
  · intro h
    obtain ⟨_, -, h⟩ := Option.map_eq_some_iff.1 h
    exact hkv (congrArg Prod.fst (List.cons.inj h).1)

theorem forall_ne_space {value : List UInt8} (h : space ∉ value) : ∀ c ∈ value, (c != space) = true := by
  intro c hc
  simpa using fun hsp : c = space => h (hsp ▸ hc)

theorem dropWhile_value {value : List UInt8} (h : space ∉ value) (r : List UInt8) :
    (value ++ space :: r).dropWhile (fun c => c != space) = space :: r := by
  rw [List.dropWhile_append_of_pos (forall_ne_space h)]
  simp

theorem takeWhile_value {value : List UInt8} (h : space ∉ value) (r : List UInt8) :
    (value ++ space :: r).takeWhile (fun c => c != space) = value := by
  rw [List.takeWhile_append_of_pos (forall_ne_space h)]
  simp

theorem scanArgs_word {key value : List UInt8} (hkey : equals ∉ key)
    (hw : space ∉ key ++ equals :: value) (left : Nat) :
    scanArgs (left + 1) (key ++ equals :: value) =
        some ((args (key ++ equals :: value)).take (left + 1)) ↔ left = 0 ∧ value ≠ [] := by
  have hargs : args (key ++ equals :: value) = [(key, value)] := by
    rw [args, words_word (by simp) hw]
    simp [argOf_append hkey]
  have hvalue : ∀ c ∈ value, (c != space) = true := forall_ne_space fun h => hw (by simp [h])
  have hdrop : value.dropWhile (fun c => c != space) = [] := List.dropWhile_eq_nil_iff.2 hvalue
  have htake : value.takeWhile (fun c => c != space) = value := List.takeWhile_eq_self_iff.2 hvalue
  have hfirst : (key ++ equals :: value).dropWhile (fun c => c == space) = key ++ equals :: value := by
    simpa using dropWhile_space (by simp) hw []
  rw [scanArgs_key hkey hfirst, hargs, hdrop, htake]
  by_cases hv : value = []
  · simp [hv]
  · by_cases hl : left = 0 <;> simp [hv, hl]

theorem scanArgs_append {w : List UInt8} (heq : equals ∈ w) (hw : space ∉ w) (left : Nat)
    (r : List UInt8) :
    scanArgs (left + 1) (w ++ space :: r) = some ((args (w ++ space :: r)).take (left + 1)) ↔
      scanArgs left r = some ((args r).take left) := by
  obtain ⟨key, value, rfl, hkey⟩ := List.eq_append_cons_of_mem heq
  have hargs : args ((key ++ equals :: value) ++ space :: r) = (key, value) :: args r := by
    rw [args, words_append (by simp) hw]
    simp [argOf_append hkey, args]
  have hvalue : space ∉ value := fun h => hw (by simp [h])
  have hfirst := dropWhile_space (w := key ++ equals :: value) (by simp) hw (space :: r)
  rw [hargs]
  rw [List.append_assoc, List.cons_append] at hfirst ⊢
  rw [scanArgs_key hkey hfirst, dropWhile_value hvalue, takeWhile_value hvalue, if_neg (by simp)]
  simp only [List.take_succ_cons]
  cases scanArgs left r <;> simp

/-- A word without `=` in front of an argument. -/
theorem not_fits_of_bare {w : List UInt8} (hne : w ≠ []) (hw : space ∉ w) (hno : equals ∉ w)
    {r : List UInt8} (heq : equals ∈ r) (left : Nat) : ¬Fits (left + 1) (w ++ space :: r) := by
  intro h
  obtain h | h := h.1 [] w (words r) (words_append hne hw r) hno
  · simp at h
  · obtain ⟨u, hu, hmem⟩ := (mem_words (by decide)).2 heq
    exact h u hu hmem

theorem scanArgs_iff (left : Nat) (r : List UInt8) :
    scanArgs left r = some ((args r).take left) ↔ Fits left r := by
  induction r using words_induction generalizing left with
  | nil =>
    refine iff_of_true ?_ (fits_none List.not_mem_nil left)
    rw [scanArgs_none List.not_mem_nil, args_eq_nil_iff.2 List.not_mem_nil, List.take_nil]
  | skip r ih =>
    rw [scanArgs_space, fits_space, ← ih left, args, words_space, args]
  | word w hne hw =>
    by_cases heq : equals ∈ w
    · obtain ⟨key, value, rfl, hkey⟩ := List.eq_append_cons_of_mem heq
      cases left with
      | zero => exact iff_of_true (by simp [scanArgs]) (fits_zero _)
      | succ left => rw [scanArgs_word hkey hw, fits_word hkey hw]
    · refine iff_of_true ?_ (fits_none heq left)
      rw [scanArgs_none heq, args_eq_nil_iff.2 heq, List.take_nil]
  | append w r hne hw ih =>
    cases left with
    | zero => exact iff_of_true (by simp [scanArgs]) (fits_zero _)
    | succ left =>
      have hne' : equals ≠ space := by decide
      by_cases heq : equals ∈ w
      · rw [scanArgs_append heq hw, fits_append heq hw, ih]
      by_cases heqr : equals ∈ r
      · obtain ⟨pre, rest, rfl, hpre⟩ := List.eq_append_cons_of_mem heqr
        refine iff_of_false ?_ (not_fits_of_bare hne hw heq heqr left)
        have hfirst := dropWhile_space hne hw (space :: (pre ++ equals :: rest))
        have hassoc : w ++ space :: (pre ++ equals :: rest) = (w ++ space :: pre) ++ equals :: rest := by
          simp
        rw [hassoc] at hfirst ⊢
        exact scanArgs_key_space (by simp [heq, hpre, hne']) (by simp) hfirst left
      · have hno : equals ∉ w ++ space :: r := by simp [heq, heqr, hne']
        refine iff_of_true ?_ (fits_none hno _)
        rw [scanArgs_none hno, args_eq_nil_iff.2 hno, List.take_nil]

/-! ## The parser in its buffer -/

variable {buf : Nat → UInt8} {size offset : Nat} {r : List UInt8}

/-- From `offset` on the buffer holds `r` and the NUL. -/
def Rest (buf : Nat → UInt8) (size offset : Nat) (r : List UInt8) : Prop :=
  size = offset + r.length + 1 ∧ bytes buf offset (r.length + 1) = r ++ [0]

theorem scan_found {stop : UInt8 → Bool} {pre : List UInt8} (post : List UInt8) {c : UInt8}
    (hpre : ∀ x ∈ pre, stop x = false) (hc : stop c = true) {n : Nat}
    (h : bytes buf offset n = pre ++ c :: post) : scan stop buf n offset = some (offset + pre.length) := by
  induction pre generalizing offset n with
  | nil =>
    cases n with
    | zero => simp at h
    | succ n =>
      have hbuf : buf offset = c := (List.cons.inj ((bytes_cons buf offset n).symm.trans h)).1
      simp [scan, hbuf, hc]
  | cons x pre ih =>
    cases n with
    | zero => simp at h
    | succ n =>
      obtain ⟨hbuf, hrest⟩ := List.cons.inj ((bytes_cons buf offset n).symm.trans h)
      rw [scan, hbuf, hpre x (by simp), if_neg (by simp),
        ih (fun y hy => hpre y (by simp [hy])) hrest, List.length_cons]
      exact congrArg some (by omega)

theorem Rest.drop {p r : List UInt8} (h : Rest buf size offset (p ++ r)) :
    Rest buf size (offset + p.length) r := by
  obtain ⟨hsize, hbytes⟩ := h
  rw [List.length_append, Nat.add_assoc, bytes_add, List.append_assoc] at hbytes
  exact ⟨by rw [hsize, List.length_append]; omega,
    (List.append_inj hbytes (length_bytes _ _ _)).2⟩

theorem Rest.front {p r : List UInt8} (h : Rest buf size offset (p ++ r)) :
    bytes buf offset p.length = p := by
  have hbytes := h.2
  rw [List.length_append, Nat.add_assoc, bytes_add, List.append_assoc] at hbytes
  exact (List.append_inj hbytes (length_bytes _ _ _)).1

theorem Rest.congr {buf' : Nat → UInt8} (h : Rest buf size offset r)
    (heq : ∀ i, offset ≤ i → buf' i = buf i) : Rest buf' size offset r :=
  ⟨h.1, (bytes_congr fun i hi _ => heq i hi).trans h.2⟩

theorem Rest.head {c : UInt8} (h : Rest buf size offset (c :: r)) : buf offset = c := by
  have hb := h.2
  rw [List.length_cons, bytes_cons] at hb
  exact (List.cons.inj hb).1

theorem Rest.nul (h : Rest buf size offset []) : buf offset = 0 := by
  simpa [bytes] using h.2

theorem Rest.scan {stop : UInt8 → Bool} {pre : List UInt8} {c : UInt8} (h : Rest buf size offset r)
    (post : List UInt8) (hr : r ++ [0] = pre ++ c :: post) (hpre : ∀ x ∈ pre, stop x = false) (hc : stop c = true) :
    scan stop buf (size - offset) offset = some (offset + pre.length) := by
  refine scan_found post hpre hc ?_
  rw [show size - offset = r.length + 1 by have := h.1; omega, h.2, hr]

/-- What is up to a character, which follows or else the NUL. -/
theorem Rest.scan_until {d : UInt8} {pre tail : List UInt8} (h : Rest buf size offset (pre ++ tail))
    (hd : d ∉ pre) (h0 : 0 ∉ pre) (htail : tail = [] ∨ ∃ post, tail = d :: post) :
    Arguments.scan (fun c => c == d || c == 0) buf (size - offset) offset = some (offset + pre.length) := by
  have hpre : ∀ x ∈ pre, (x == d || x == 0) = false := by
    intro x hx
    simpa using ⟨fun h' : x = d => hd (h' ▸ hx), fun h' : x = 0 => h0 (h' ▸ hx)⟩
  obtain rfl | ⟨post, rfl⟩ := htail
  · apply h.scan [] (c := 0) _ hpre
    · simp
    · simp
  · apply h.scan (post ++ [0]) (c := d) _ hpre
    · simp
    · simp

theorem Rest.skip (h : Rest buf size offset r) :
    ∃ key, Arguments.scan (fun c => c != space) buf (size - offset) offset = some key ∧ offset ≤ key ∧
      Rest buf size key (r.dropWhile fun c => c == space) := by
  have hsplit := List.takeWhile_append_dropWhile (p := fun c => c == space) (l := r)
  have hsp : ∀ x ∈ r.takeWhile (fun c => c == space), (x != space) = false := by
    intro x hx
    have := List.mem_takeWhile_imp hx
    simpa using this
  refine ⟨offset + (r.takeWhile fun c => c == space).length, ?_, by omega, Rest.drop (by rwa [hsplit])⟩
  cases hdrop : r.dropWhile (fun c => c == space) with
  | nil =>
    rw [hdrop, List.append_nil] at hsplit
    exact h.scan [] (c := 0) (by rw [hsplit]) hsp (by decide)
  | cons c r' =>
    have hc : (c == space) = false := by
      have := List.head_dropWhile_not (fun c => c == space) (l := r) (by simp [hdrop])
      simpa [hdrop] using this
    rw [hdrop] at hsplit
    refine h.scan (r' ++ [0]) (c := c) ?_ hsp (by simpa using hc)
    rw [← List.cons_append, ← List.append_assoc, hsplit]

/-- The string at an offset, once the NUL that ends it is written. -/
theorem cString_eq {k : List UInt8} (hk : 0 ∉ k) (hbytes : bytes buf offset k.length = k)
    (hnul : buf (offset + k.length) = 0) (hsize : offset + k.length < size) :
    cString buf size offset = k := by
  have hlen : size - offset = k.length + ((size - offset - k.length - 1) + 1) := by omega
  unfold cString
  rw [hlen, bytes_add, hbytes, bytes_cons, hnul, List.takeWhile_append_of_pos]
  · simp
  · exact fun c hc => by simpa using fun h : c = 0 => hk (h ▸ hc)

/-- No `=` is left: the key runs to the NUL. -/
theorem parseLoop_bare (h : Rest buf size offset r) (hr : 0 ∉ r) (heq : equals ∉ r) (left : Nat)
    (as : List (Nat × Nat)) : parseLoop size (left + 1) buf offset as = some (buf, as) := by
  obtain ⟨key, hscan, -, hrest⟩ := h.skip
  have hsub := (List.dropWhile_suffix (l := r) fun c => c == space).subset
  generalize r.dropWhile (fun c => c == space) = r₁ at *
  have hrest' : Rest buf size key (r₁ ++ []) := by rwa [List.append_nil]
  have hstop := hrest'.scan_until (fun h => heq (hsub h)) (fun h => hr (hsub h)) (.inl rfl)
  have hnul : buf (key + r₁.length) = 0 := hrest'.drop.nul
  simp [parseLoop, hscan, hstop, hnul]

/-- A key and a value, which `=` separates. -/
theorem parseLoop_key {key : Nat} {kw rest : List UInt8}
    (hscan : Arguments.scan (fun c => c != space) buf (size - offset) offset = some key)
    (hrest : Rest buf size key (kw ++ equals :: rest)) (hkw : equals ∉ kw)
    (hnul : 0 ∉ kw ++ equals :: rest) (left : Nat) (as : List (Nat × Nat)) :
    Rest (update buf (key + kw.length) 0) size (key + kw.length + 1) rest ∧
    parseLoop size (left + 1) buf offset as =
      if rest = [] then some (update buf (key + kw.length) 0, as)
      else
        match Arguments.scan (fun c => c == space || c == 0) (update buf (key + kw.length) 0)
            (size - (key + kw.length + 1)) (key + kw.length + 1) with
        | none => none
        | some last =>
          parseLoop size left (update (update buf (key + kw.length) 0) last 0)
            (last + 1) (as ++ [(key, key + kw.length + 1)]) := by
  have hkw₀ : 0 ∉ kw := fun hc => hnul (by simp [hc])
  have hrest₀ : 0 ∉ rest := fun hc => hnul (by simp [hc])
  have hstop := hrest.scan_until hkw hkw₀ (.inr ⟨rest, rfl⟩)
  have hsep := hrest.drop
  have hne : buf (key + kw.length) ≠ 0 := by
    rw [hsep.head]
    decide
  have hvalue : Rest (update buf (key + kw.length) 0) size (key + kw.length + 1) rest :=
    (Rest.drop (p := [equals]) hsep).congr fun i hi => update_of_ne (by simp at hi; omega) _ _
  refine ⟨hvalue, ?_⟩
  have hlt : ¬size ≤ key + kw.length + 1 := by
    have := hvalue.1
    omega
  have hempty : update buf (key + kw.length) 0 (key + kw.length + 1) = 0 ↔ rest = [] := by
    constructor
    · intro h
      cases rest with
      | nil => rfl
      | cons c rest =>
        rw [hvalue.head] at h
        exact absurd (by simp [h]) hrest₀
    · rintro rfl
      exact hvalue.nul
  rw [parseLoop]
  simp only [hscan, hstop, if_neg hne, if_neg hlt, hempty]

/-- The key and the value are still there when the NULs behind them are written. -/
theorem strings_eq {buf' : Nat → UInt8} {key : Nat} {kw value tail : List UInt8}
    (hkw : bytes buf key kw.length = kw) (hkw₀ : 0 ∉ kw) (hsep : buf (key + kw.length) = 0)
    (hvalue : Rest buf size (key + kw.length + 1) (value ++ tail)) (hvalue₀ : 0 ∉ value)
    (hsame : ∀ i < key + kw.length + 1 + value.length, buf' i = buf i)
    (hlast : buf' (key + kw.length + 1 + value.length) = 0) :
    strings buf' size (key, key + kw.length + 1) = (kw, value) := by
  have hsize := hvalue.1
  rw [List.length_append] at hsize
  unfold strings
  rw [cString_eq hkw₀ ((bytes_congr fun i _ hi => hsame i (by omega)).trans hkw)
      ((hsame _ (by omega)).trans hsep) (by omega),
    cString_eq hvalue₀ ((bytes_congr fun i _ hi => hsame i (by omega)).trans hvalue.front) hlast
      (by omega)]

/-- The loop finds what it should on the characters that are left, and writes to none before them. -/
theorem parseLoop_spec (left : Nat) (h : Rest buf size offset r) (hr : 0 ∉ r) (as : List (Nat × Nat)) :
    match scanArgs left r with
    | none => parseLoop size left buf offset as = none
    | some found =>
      ∃ buf' new, parseLoop size left buf offset as = some (buf', as ++ new) ∧
        (∀ i < offset, buf' i = buf i) ∧ new.map (strings buf' size) = found := by
  induction left generalizing buf offset r as with
  | zero => exact ⟨buf, [], by simp [parseLoop], fun _ _ => rfl, rfl⟩
  | succ left ih =>
    by_cases heq : equals ∈ r
    swap
    · rw [scanArgs_none heq]
      exact ⟨buf, [], by rw [parseLoop_bare h hr heq, List.append_nil], fun _ _ => rfl, rfl⟩
    obtain ⟨key, hscan, hkey, hrest⟩ := h.skip
    have hr₁ : 0 ∉ r.dropWhile fun c => c == space := fun hc => hr ((List.dropWhile_suffix _).subset hc)
    have hidem := List.dropWhile_idempotent (p := fun c : UInt8 => c == space) (l := r)
    have heq₁ : equals ∈ r.dropWhile fun c => c == space := by
      rw [← List.takeWhile_append_dropWhile (p := fun c => c == space) (l := r)] at heq
      refine (List.mem_append.1 heq).resolve_left fun h => ?_
      exact absurd (List.mem_takeWhile_imp h) (by decide)
    rw [← scanArgs_dropWhile]
    generalize r.dropWhile (fun c => c == space) = r₁ at *
    obtain ⟨kw, rest, rfl, hkw⟩ := List.eq_append_cons_of_mem heq₁
    obtain ⟨hvalue, hloop⟩ := parseLoop_key hscan hrest hkw hr₁ left as
    rw [scanArgs_key hkw hidem, hloop]
    have hbelow : ∀ i < key + kw.length, update buf (key + kw.length) 0 i = buf i :=
      fun i hi => update_of_ne (by omega) _ _
    have hsep : update buf (key + kw.length) 0 (key + kw.length) = 0 := update_self ..
    have hkw₁ : bytes (update buf (key + kw.length) 0) key kw.length = kw :=
      (bytes_congr fun i _ hi => hbelow i hi).trans hrest.front
    have hkw₀ : 0 ∉ kw := fun hc => hr₁ (by simp [hc])
    have hrest₀ : 0 ∉ rest := fun hc => hr₁ (by simp [hc])
    generalize update buf (key + kw.length) 0 = buf₁ at *
    by_cases hempty : rest = []
    · rw [if_pos hempty, if_pos hempty]
      exact ⟨buf₁, [], by simp, fun i hi => hbelow i (by omega), rfl⟩
    rw [if_neg hempty, if_neg hempty]
    by_cases hsp : space ∈ rest
    · obtain ⟨value, r', rfl, hnosp⟩ := List.eq_append_cons_of_mem hsp
      have hvalue₀ : 0 ∉ value := fun hc => hrest₀ (by simp [hc])
      have hstop := hvalue.scan_until hnosp hvalue₀ (.inr ⟨r', rfl⟩)
      have hnext : Rest (update buf₁ (key + kw.length + 1 + value.length) 0) size
          (key + kw.length + 1 + value.length + 1) r' :=
        (Rest.drop (p := [space]) hvalue.drop).congr fun i hi =>
          update_of_ne (by simp at hi; omega) _ _
      have hr' := ih hnext (fun hc => hrest₀ (by simp [hc])) (as ++ [(key, key + kw.length + 1)])
      rw [dropWhile_value hnosp, takeWhile_value hnosp, hstop]
      cases hfound : scanArgs left r' with
      | none =>
        rw [hfound] at hr'
        simpa only [hfound, Option.map_none] using hr'
      | some found =>
        rw [hfound] at hr'
        obtain ⟨buf', new, hrun, hsame, hnew⟩ := hr'
        have hsame₁ : ∀ i < key + kw.length + 1 + value.length, buf' i = buf₁ i := fun i hi => by
          rw [hsame i (by omega), update_of_ne (by omega)]
        have hlast : buf' (key + kw.length + 1 + value.length) = 0 := by
          rw [hsame _ (by omega), update_self]
        simp only [hfound, Option.map_some]
        refine ⟨buf', (key, key + kw.length + 1) :: new, by rw [hrun]; simp, fun i hi => ?_, ?_⟩
        · rw [hsame₁ i (by omega), hbelow i (by omega)]
        · rw [List.map_cons, hnew, strings_eq hkw₁ hkw₀ hsep hvalue hvalue₀ hsame₁ hlast]
    · have hvalue' : Rest buf₁ size (key + kw.length + 1) (rest ++ []) := by
        rwa [List.append_nil]
      have hstop := hvalue'.scan_until hsp hrest₀ (.inl rfl)
      rw [List.dropWhile_eq_nil_iff.2 (forall_ne_space hsp), List.takeWhile_eq_self_iff.2 (forall_ne_space hsp),
        hstop]
      cases left with
      | zero =>
        refine ⟨update buf₁ (key + kw.length + 1 + rest.length) 0, [(key, key + kw.length + 1)],
          rfl, fun i hi => ?_, ?_⟩
        · rw [update_of_ne (by omega), hbelow i (by omega)]
        · rw [List.map_singleton, strings_eq hkw₁ hkw₀ hsep hvalue' hrest₀
            (fun i hi => update_of_ne (Nat.ne_of_lt hi) _ _) (update_self ..)]
      | succ left =>
        -- the parser is behind the NUL
        have hbeyond : size - (key + kw.length + 1 + rest.length + 1) = 0 := by
          have := hvalue.1
          omega
        simp [parseLoop, hbeyond, Arguments.scan]

/-- `ParseArgumentString` stays inside the string and finds its `key=value` words, up to `MAXARG`. -/
def Parses (s : ArgString) : Prop := parseArgumentString s = some ((args s.chars).take maxArg)

theorem parseArgumentString_eq (s : ArgString) : parseArgumentString s = scanArgs maxArg s.chars := by
  have hrest : Rest (fun i => s.chars.getD i 0) (s.chars.length + 1) 0 s.chars := by
    refine ⟨by omega, List.ext_getElem (by simp) fun i _ hi => ?_⟩
    by_cases h : i < s.chars.length <;> simp [bytes, h, List.getElem_append]
  have h := parseLoop_spec maxArg hrest s.no_nul []
  simp only [parseArgumentString]
  cases hfound : scanArgs maxArg s.chars with
  | none =>
    rw [hfound] at h
    rw [h]
    rfl
  | some found =>
    rw [hfound] at h
    obtain ⟨buf', new, hrun, -, hnew⟩ := h
    rw [hrun, List.nil_append, Option.map_some, hnew]

/-- The parser does what it should exactly on the strings that fit it. -/
theorem parse_argument_string_iff (s : ArgString) : Parses s ↔ Fits maxArg s.chars := by
  unfold Parses
  rw [parseArgumentString_eq, scanArgs_iff]

/-- `a=tom` -/
def aTom : ArgString := ⟨[97, 61, 116, 111, 109], by decide⟩

/-- The only argument ends the string: the NUL is stepped over. -/
theorem parse_beyond_nul : parseArgumentString aTom = none ∧ ¬Parses aTom := by
  have h : parseArgumentString aTom = none := by
    rw [parseArgumentString_eq]
    decide
  exact ⟨h, fun hp => by cases h.symm.trans hp⟩

end XcWindows.Xenvbd.Arguments
