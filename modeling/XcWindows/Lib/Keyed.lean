import Mathlib.Data.List.Basic
import Mathlib.Data.List.Nodup

/-!
# Lists of records with distinct keys

The live objects of a system are a list of records, each found by its address (its key). `putKey`
stores a record back at its key. When keys are distinct, a list split at a record is looked up,
stored to and filtered at exactly that record.
-/

namespace XcWindows.Lib

variable {α κ : Type} [DecidableEq κ]

/-- Store `r` back at its key. -/
def putKey (key : α → κ) (r : α) (l : List α) : List α :=
  l.map fun q => if key q = key r then r else q

section Split
variable {key : α → κ} {r : α} {l as bs : List α}

theorem find?_key (h : ((as ++ r :: bs).map key).Nodup) :
    (as ++ r :: bs).find? (key · = key r) = some r := by
  rw [List.find?_eq_some_iff_append]
  refine ⟨by simp, as, bs, rfl, fun q hq => ?_⟩
  simp only [List.map_append, List.map_cons, List.nodup_append] at h
  simpa using h.2.2 _ (List.mem_map_of_mem hq) _ List.mem_cons_self

theorem putKey_split {r' : α} (h : ((as ++ r :: bs).map key).Nodup) (ha : key r' = key r) :
    putKey key r' (as ++ r :: bs) = as ++ r' :: bs := by
  simp only [List.map_append, List.map_cons, List.nodup_append, List.nodup_cons] at h
  have keep : ∀ l : List α, key r ∉ l.map key →
      l.map (fun q => if key q = key r then r' else q) = l := by
    intro l hl
    refine (List.map_congr_left fun q hq => if_neg fun e => hl ?_).trans (List.map_id l)
    exact e ▸ List.mem_map_of_mem hq
  have hb := keep bs h.2.1.1
  have has := keep as fun hm => h.2.2 _ hm _ List.mem_cons_self rfl
  simp only [putKey, ha, List.map_append, List.map_cons, hb, has, if_pos]

theorem filter_key_keep (h : key r ∉ l.map key) : l.filter (key · ≠ key r) = l := by
  rw [List.filter_eq_self]
  intro q hq
  simpa using fun e : key q = key r => h (e ▸ List.mem_map_of_mem hq)

theorem filter_key_split (h : ((as ++ r :: bs).map key).Nodup) :
    (as ++ r :: bs).filter (key · ≠ key r) = as ++ bs := by
  simp only [List.map_append, List.map_cons, List.nodup_append, List.nodup_cons] at h
  rw [List.filter_append, List.filter_cons_of_neg (by simp), filter_key_keep h.2.1.1,
    filter_key_keep fun hm => h.2.2 _ hm _ List.mem_cons_self rfl]

theorem split_of_find? (key : α → κ) {a : κ} (h : l.find? (key · = a) = some r) :
    key r = a ∧ ∃ as bs, l = as ++ r :: bs := by
  refine ⟨by simpa using List.find?_some h, List.append_of_mem (List.mem_of_find?_eq_some h)⟩

end Split

end XcWindows.Lib
