import Mathlib

/-!
# Majorities and term logs

Facts that replicated logs rest on: two majorities meet, and logs whose
entries each continue the one log of their term agree below any entry that
carries the same term in both. What a log and a source have in common is a
prefix, and writing entries of the source into the log only makes it longer.
-/

namespace TermLog

section Majority
variable {α : Type} [Fintype α]

def IsMajority (Q : Finset α) : Prop := Fintype.card α < 2 * Q.card

theorem IsMajority.meet {Q R : Finset α} (hQ : IsMajority Q) (hR : IsMajority R) : ∃ a, a ∈ Q ∧ a ∈ R := by
  classical
  have hcard : (Finset.univ : Finset α).card < Q.card + R.card := by
    unfold IsMajority at hQ hR
    rw [Finset.card_univ]
    omega
  obtain ⟨a, ha⟩ := Finset.inter_nonempty_of_card_lt_card_add_card (Finset.subset_univ Q)
    (Finset.subset_univ R) hcard
  exact ⟨a, Finset.mem_inter.mp ha⟩

theorem isMajority_of_half_lt {Q : Finset α} {v : Int} (hv : v ≤ Q.card)
    (h : (Fintype.card α : Int) / 2 < v) :
    IsMajority Q := by
  unfold IsMajority
  omega

end Majority

section Logs
variable {α τ : Type} (tm : α → τ)

/-- Entries of one term at one place have the same past. -/
def Matching (F G : List α) : Prop :=
  ∀ (i : Nat) (a b : α), F[i]? = some a → G[i]? = some b → tm a = tm b → F.take (i + 1) = G.take (i + 1)

/-- Every entry of `F`, with all before it, is a prefix of the log of its term. -/
def Consistent (L : τ → List α) (F : List α) : Prop := ∀ F' e, F' ++ [e] <+: F → F' ++ [e] <+: L (tm e)

variable {tm} {L L' : τ → List α} {F G : List α}

theorem Consistent.of_prefix (h : Consistent tm L F) (hG : G <+: F) : Consistent tm L G :=
  fun F' e he => h F' e (he.trans hG)

theorem Consistent.mono (h : Consistent tm L F) (hL : ∀ t, L t <+: L' t) : Consistent tm L' F :=
  fun F' e he => (h F' e he).trans (hL _)

theorem Consistent.snoc (h : Consistent tm L F) {e : α} (he : F ++ [e] <+: L (tm e)) :
    Consistent tm L (F ++ [e]) := by
  intro F' e' hp
  rcases List.prefix_concat_iff.mp hp with heq | hp
  · obtain ⟨rfl, he'⟩ := List.append_inj' heq rfl
    cases he'
    exact he
  · exact h F' e' hp

theorem Consistent.matching (hF : Consistent tm L F) (hG : Consistent tm L G) : Matching tm F G := by
  intro i a b ha hb ht
  have hp : ∀ {H : List α} {c : α}, Consistent tm L H → H[i]? = some c →
      H.take (i + 1) <+: L (tm c) ∧ (H.take (i + 1)).length = i + 1 := by
    intro H c hH hc
    obtain ⟨hi, rfl⟩ := List.getElem?_eq_some_iff.mp hc
    have htake := List.take_succ_eq_append_getElem hi
    refine ⟨?_, by rw [List.length_take]; omega⟩
    rw [htake]
    exact hH _ _ (htake ▸ List.take_prefix _ _)
  obtain ⟨h₁, l₁⟩ := hp hF ha
  obtain ⟨h₂, l₂⟩ := hp hG hb
  rw [← ht] at h₂
  exact (List.prefix_of_prefix_length_le h₁ h₂ (by omega)).eq_of_length (by omega)

end Logs

section Common
variable {α τ : Type} {tm : α → τ} {F L : List α} {n m : Nat}

theorem Matching.take (h : Matching tm F L) (n : Nat) : Matching tm (F.take n) L := by
  intro i a b ha hb ht
  rw [List.getElem?_take] at ha
  split at ha
  · rw [List.take_take, min_eq_left (by omega)]
    exact h i a b ha hb ht
  · cases ha

theorem Matching.refl (F : List α) : Matching tm F F := fun _ _ _ _ _ _ => rfl

theorem Matching.of_prefix {L' : List α} (h : Matching tm F L') (hL : L <+: L') : Matching tm F L := by
  intro i a b ha hb ht
  obtain ⟨rest, rfl⟩ := hL
  have hi : i < L.length := (List.getElem?_eq_some_iff.mp hb).1
  rw [h i a b ha (by rw [List.getElem?_append_left hi, hb]) ht, List.take_append_of_le_length (by omega)]

theorem length_of_take_eq (hn : n ≤ L.length) (h : F.take n = L.take n) : n ≤ F.length := by
  have hlen := congrArg List.length h
  rw [List.length_take, List.length_take] at hlen
  omega

variable [DecidableEq α]

def common : List α → List α → Nat
  | a :: F, b :: L => if a = b then common F L + 1 else 0
  | _, _ => 0

theorem le_common_iff : n ≤ common F L ↔ n ≤ L.length ∧ F.take n = L.take n := by
  induction n generalizing F L with
  | zero => simp
  | succ n ih =>
    cases L with
    | nil => cases F <;> simp [common]
    | cons b L =>
      cases F with
      | nil => simp [common]
      | cons a F =>
        simp only [common, List.take_succ_cons, List.length_cons, List.cons.injEq]
        split
        · rename_i hab
          rw [Nat.add_le_add_iff_right, ih, Nat.add_le_add_iff_right]
          simp [hab]
        · rename_i hab
          simp [hab]

theorem common_le_right : common F L ≤ L.length := (le_common_iff.mp (le_refl _)).1

theorem take_common : F.take (common F L) = L.take (common F L) := (le_common_iff.mp (le_refl _)).2

theorem get_of_lt_common {i : Nat} (h : i < common F L) : F[i]? = L[i]? := by
  have hget := congrArg (fun l => l[i]?) (take_common (F := F) (L := L))
  rwa [List.getElem?_take_of_lt h, List.getElem?_take_of_lt h] at hget

theorem common_le_left : common F L ≤ F.length := length_of_take_eq common_le_right take_common

theorem common_mono {L' : List α} (h : L <+: L') : common F L ≤ common F L' := by
  obtain ⟨rest, rfl⟩ := h
  apply le_common_iff.mpr
  rw [List.length_append, List.take_append_of_le_length common_le_right]
  exact ⟨by have := common_le_right (F := F) (L := L); omega, take_common⟩

theorem common_take (hn : n ≤ L.length) : common (L.take n) L = n := by
  apply le_antisymm
  · have := common_le_left (F := L.take n) (L := L)
    rw [List.length_take] at this
    omega
  · exact le_common_iff.mpr ⟨hn, by rw [List.take_take, min_self]⟩

instance [DecidableEq τ] : Decidable (Matching tm F L) :=
  decidable_of_iff (∀ i < F.length, ∀ a ∈ F[i]?, ∀ b ∈ L[i]?, tm a = tm b → F.take (i + 1) = L.take (i + 1))
    ⟨fun h i a b ha hb => h i (List.getElem?_eq_some_iff.mp ha).1 a ha b hb,
      fun h i _ a ha b hb => h i a b ha hb⟩

theorem Matching.lt_common (h : Matching tm F L) {i : Nat} {a b : α} (ha : F[i]? = some a) (hb : L[i]? = some b)
    (ht : tm a = tm b) : i < common F L :=
  le_common_iff.mpr ⟨(List.getElem?_eq_some_iff.mp hb).1, h i a b ha hb ht⟩

/-- `F` with the first `n` entries of `L` written into it: it stays if they are there, and ends with them
if not. -/
def overwrite (L F : List α) (n : Nat) : List α := if n ≤ common F L then F else L.take n

theorem common_overwrite (hn : n ≤ L.length) : common (overwrite L F n) L = max (common F L) n := by
  unfold overwrite
  split
  · rename_i h
    rw [max_eq_left h]
  · rename_i h
    rw [common_take hn, max_eq_right (by omega)]

theorem overwrite_overwrite (hnm : n ≤ m) (hm : m ≤ L.length) :
    overwrite L (overwrite L F n) m = overwrite L F m := by
  have hcommon := common_overwrite (F := F) (hnm.trans hm)
  unfold overwrite at hcommon ⊢
  by_cases h : n ≤ common F L
  · rw [if_pos h]
  · rw [if_neg h] at hcommon ⊢
    rw [hcommon, if_neg (by omega : ¬ m ≤ common F L), max_eq_right (by omega)]
    split
    · rw [Nat.le_antisymm hnm (by assumption)]
    · rfl

theorem Matching.overwrite (h : Matching tm F L) (n : Nat) : Matching tm (overwrite L F n) L := by
  unfold TermLog.overwrite
  split
  · exact h
  · exact (Matching.refl L).take n

theorem take_common_isPrefix_overwrite : F.take (common F L) <+: overwrite L F n := by
  unfold overwrite
  split
  · exact List.take_prefix _ _
  · rw [take_common]
    exact List.take_prefix_take_left (by omega)

theorem take_overwrite (hn : n ≤ L.length) : (overwrite L F n).take n = L.take n := by
  refine (le_common_iff.mp ?_).2
  rw [common_overwrite hn]
  exact le_max_right _ _

theorem take_overwrite_of_take (hn : n ≤ L.length) (h : F.take m = L.take m) :
    (overwrite L F n).take m = L.take m := by
  unfold overwrite
  split
  · exact h
  · rename_i hlt
    rw [List.take_take]
    congr 1
    rw [le_common_iff] at hlt
    by_contra hne
    have hnm : n ≤ m := by omega
    refine hlt ⟨hn, ?_⟩
    rw [← min_eq_left hnm, ← List.take_take, ← List.take_take, h]

/-! ## Repair

A log is brought to a source by offering it the entry at one position at a time.
It takes the entry if it has all entries before it, and then the next position
is its end; otherwise the position goes back by one. Behind the source only the
end of the source is compared. -/

def repair (L : List α) (s : List α × Nat) : List α × Nat :=
  if s.2 < L.length then
    if s.2 ≤ common s.1 L then (overwrite L s.1 (s.2 + 1), (overwrite L s.1 (s.2 + 1)).length)
    else (s.1, s.2 - 1)
  else if L.length ≤ common s.1 L then (s.1, s.1.length)
  else (s.1, s.2 - 1)

def Repaired (L : List α) (s : List α × Nat) : Prop := L.length ≤ common s.1 L ∧ L.length ≤ s.2

/-- What is missing, and how far the position is from the first missing entry. A position before it is set to
the end of the log by the next step. -/
def distance (L : List α) (s : List α × Nat) : Nat :=
  L.length - common s.1 L +
    if s.2 < common s.1 L then s.1.length - common s.1 L + 1 else s.2 - common s.1 L

theorem Repaired.repair {s : List α × Nat} (h : Repaired L s) : Repaired L (repair L s) := by
  have hlen := common_le_left (F := s.1) (L := L)
  unfold TermLog.repair
  rw [if_neg (not_lt.mpr h.2), if_pos h.1]
  exact ⟨h.1, h.1.trans hlen⟩

theorem distance_repair_lt {s : List α × Nat} (h : ¬ Repaired L s) :
    distance L (repair L s) < distance L s := by
  obtain ⟨F, n⟩ := s
  have hlen := common_le_left (F := F) (L := L)
  have hsource := common_le_right (F := F) (L := L)
  unfold repair
  by_cases hn : n < L.length
  · rw [if_pos hn]
    rcases lt_trichotomy n (common F L) with hlt | heq | hgt
    · -- the entry is there, and the position jumps to the end of the log
      have hsame : overwrite L F (n + 1) = F := if_pos hlt
      rw [if_pos hlt.le, hsame]
      simp only [distance]
      rw [if_neg (by omega), if_pos hlt]
      omega
    · -- the first missing entry is taken
      have hnew : overwrite L F (n + 1) = L.take (n + 1) := if_neg (by omega)
      rw [if_pos heq.le, hnew]
      simp only [distance]
      rw [common_take hn, List.length_take, if_neg (by omega), if_neg (by omega)]
      omega
    · rw [if_neg (not_le.mpr hgt)]
      simp only [distance]
      rw [if_neg (by omega), if_neg (by omega)]
      omega
  · have hmissing : ¬ L.length ≤ common F L := fun hc => h ⟨hc, by omega⟩
    rw [if_neg hn, if_neg hmissing]
    simp only [distance]
    rw [if_neg (by omega), if_neg (by omega)]
    omega

theorem repaired_iterate (s : List α × Nat) (k : Nat) (hk : distance L s ≤ k) :
    Repaired L ((repair L)^[k] s) := by
  induction k generalizing s with
  | zero =>
    rw [Function.iterate_zero_apply]
    by_contra h
    have := distance_repair_lt h
    omega
  | succ k ih =>
    rw [Function.iterate_succ_apply]
    by_cases h : Repaired L s
    · have hstay : ∀ j, Repaired L ((repair L)^[j] (repair L s)) := by
        intro j
        induction j with
        | zero => exact h.repair
        | succ j ihj =>
          rw [Function.iterate_succ_apply']
          exact ihj.repair
      exact hstay k
    · apply ih
      have := distance_repair_lt h
      omega

end Common

end TermLog
