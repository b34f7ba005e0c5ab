import Mathlib

/-!
# Maps that are filled by a loop or on a look-up

What a look-up that inserts a default leaves of a map, and which keys and values
a loop of insertions puts into it.
-/

namespace Maps

open Std (ExtTreeMap TransCmp LawfulEqCmp)

variable {α β ι : Type} {cmp : α → α → Ordering} [TransCmp cmp]

theorem mem_of_getElem? {m : ExtTreeMap α β cmp} {k : α} {v : β} (h : m[k]? = some v) : k ∈ m := by
  rw [ExtTreeMap.mem_iff_isSome_getElem?, h]
  rfl

variable [LawfulEqCmp cmp]

section
variable {m : ExtTreeMap α β cmp} {k k' : α} {v d : β}

theorem insert_eq_self_iff : m.insert k v = m ↔ m[k]? = some v := by
  constructor
  · intro h
    rw [← h]
    exact ExtTreeMap.getElem?_insert_self
  · intro h
    refine ExtTreeMap.ext_getElem? fun a => ?_
    rw [ExtTreeMap.getElem?_insert]
    split
    · rename_i ha
      rw [← LawfulEqCmp.compare_eq_iff_eq.mp ha, h]
    · rfl

/-! ## A look-up that inserts a default -/

theorem insertIfNew_of_mem (h : k ∈ m) : m.insertIfNew k d = m := by
  refine ExtTreeMap.ext_getElem? fun a => ?_
  rw [ExtTreeMap.getElem?_insertIfNew, if_neg fun hc => hc.2 h]

theorem getElem?_insertIfNew_of_ne (h : d ≠ v) : (m.insertIfNew k d)[k']? = some v ↔ m[k']? = some v := by
  rw [ExtTreeMap.getElem?_insertIfNew]
  split
  · rename_i hk
    rw [ExtTreeMap.getElem?_eq_none (LawfulEqCmp.compare_eq_iff_eq.mp hk.1 ▸ hk.2)]
    simp [h]
  · rfl

theorem getD_insertIfNew_default : (m.insertIfNew k d).getD k' d = m.getD k' d := by
  rw [ExtTreeMap.getD_insertIfNew]
  split
  · rename_i hk
    rw [ExtTreeMap.getD_eq_fallback (LawfulEqCmp.compare_eq_iff_eq.mp hk.1 ▸ hk.2)]
  · rfl

/-! ## A loop of insertions -/

theorem mem_foldl_insert {key : ι → α} {value : ι → β} {xs : List ι} :
    k ∈ xs.foldl (fun m x => m.insert (key x) (value x)) m ↔ k ∈ m ∨ ∃ x ∈ xs, key x = k := by
  induction xs generalizing m with
  | nil => simp
  | cons x xs ih =>
    rw [List.foldl_cons, ih, ExtTreeMap.mem_insert, LawfulEqCmp.compare_eq_iff_eq, List.exists_mem_cons_iff]
    tauto

end

theorem getElem?_foldl_insert {k : α} {v : β} {xs : List (α × β)} {m : ExtTreeMap α β cmp}
    (h : (xs.map Prod.fst).Nodup) :
    (xs.foldl (fun m x => m.insert x.1 x.2) m)[k]? = some v ↔ (k, v) ∈ xs ∨ k ∉ xs.map Prod.fst ∧
    m[k]? = some v := by
  induction xs generalizing m with
  | nil => simp
  | cons x xs ih =>
    rw [List.map_cons, List.nodup_cons] at h
    have hnot : ∀ w, (x.1, w) ∉ xs := fun w hw => h.1 (List.mem_map.mpr ⟨(x.1, w), hw, rfl⟩)
    rw [List.foldl_cons, ih h.2, ExtTreeMap.getElem?_insert, List.map_cons, List.mem_cons, List.mem_cons]
    by_cases hx : x.1 = k
    · subst hx
      simp [hnot, h.1, Prod.ext_iff, eq_comm (a := v)]
    · have hne : ¬ (k, v) = x := fun he => hx (by rw [← he])
      simp [hx, Ne.symm hx, hne]

end Maps
