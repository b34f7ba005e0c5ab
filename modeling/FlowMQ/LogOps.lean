import FlowMQ.NodeTrans

/-!
# Logs and the operations on them

A log is `Shaped` up to a term when it starts with the dummy entry, every entry
carries its own position, and terms do not decrease and stay within the bound.
Requests that carry at most one entry either leave a log as it is or cut it
after the verified entry and push the new one.
-/

namespace FlowMQ

theorem take_eq_of_isPrefix {α : Type} {F G : List α} (h : F <+: G) {k : Nat} (hk : k ≤ F.length) :
    G.take k = F.take k := by
  rw [List.prefix_iff_eq_take.mp h, List.take_take, min_eq_left hk]

theorem get_of_isPrefix {α : Type} {F G : List α} (h : F <+: G) {k : Nat} {x : α} (hx : F[k]? = some x) :
    G[k]? = some x := by
  obtain ⟨rest, rfl⟩ := h
  rw [List.getElem?_append_left (List.getElem?_eq_some_iff.mp hx).1, hx]

theorem get_of_take_isPrefix {α : Type} {F G : List α} {m k : Nat} (h : F.take m <+: G) (hm : m ≤ F.length)
    (hk : k < m) : G[k]? = F[k]? := by
  obtain ⟨rest, rfl⟩ := h
  rw [List.getElem?_append_left (by rw [List.length_take]; omega), List.getElem?_take_of_lt hk]

theorem entryAt_of_get {log : List LogEntry} {k : Nat} {e : LogEntry} (h : log[k]? = some e) :
    entryAt log k = e := by
  unfold entryAt
  rw [if_neg (by omega), Int.toNat_natCast, List.getD_eq_getElem?_getD, h]
  rfl

theorem get_of_lt {log : List LogEntry} {k : Nat} (h : k < log.length) : log[k]? = some (entryAt log k) := by
  have hk := List.getElem?_eq_getElem h
  rw [entryAt_of_get hk]
  exact hk

theorem backEntry_of_ne_nil {log : List LogEntry} (h : log ≠ []) :
    log[log.length - 1]? = some (backEntry log) := by
  unfold backEntry
  rw [List.getLastD_eq_getLast?, List.getLast?_eq_getElem?]
  have : log.length - 1 < log.length := by
    have := List.length_pos_iff.mpr h
    omega
  rw [List.getElem?_eq_getElem this]
  rfl

@[simp] theorem backEntry_concat (log : List LogEntry) (e : LogEntry) : backEntry (log ++ [e]) = e := by
  simp [backEntry]

theorem inSync_iff {t : Int} {p : Nat} {log : List LogEntry} :
    checkIfPreviousLogInSync t p log = true ↔ ∃ e, log[p]? = some e ∧ e.term = t := by
  unfold checkIfPreviousLogInSync
  constructor
  · intro h
    split at h
    · cases h
    · rename_i hlt
      split at h
      · cases h
      · rename_i ht
        exact ⟨_, get_of_lt (by omega), by simpa using ht⟩
  · rintro ⟨e, he, rfl⟩
    have hlt : p < log.length := (List.getElem?_eq_some_iff.mp he).1
    rw [if_neg (by omega), entryAt_of_get he]
    simp

theorem appendLog_single {p : Nat} {e : LogEntry} {log : List LogEntry} (hp : p < log.length) :
    (∃ e', log[p + 1]? = some e' ∧ e'.term = e.term ∧ appendLog p [e] log = log) ∨
    ((log.length = p + 1 ∨ ∃ e', log[p + 1]? = some e' ∧ e'.term ≠ e.term) ∧
      appendLog p [e] log = log.take (p + 1) ++ [e]) := by
  simp only [appendLog, appendLogAt]
  have hcast : ((p : Int) + 1) = ((p + 1 : Nat) : Int) := by push_cast; rfl
  rw [hcast]
  by_cases hend : log.length = p + 1
  · right
    refine ⟨Or.inl hend, ?_⟩
    rw [if_pos (by omega), List.take_of_length_le (by omega)]
  · have hlt : p + 1 < log.length := by omega
    have he := get_of_lt hlt
    rw [if_neg (by omega)]
    by_cases ht : (entryAt log ((p + 1 : Nat) : Int)).term = e.term
    · left
      exact ⟨_, he, ht, by rw [if_pos ht]⟩
    · right
      refine ⟨Or.inr ⟨_, he, ht⟩, ?_⟩
      rw [if_neg ht, cleanLogEntriesOutOfSync, Int.toNat_natCast]

structure Indexed (log : List LogEntry) : Prop where
  head : log[0]? = some LogEntry.dummy
  index : ∀ (k : Nat) (e : LogEntry), log[k]? = some e → e.index = k

instance (log : List LogEntry) : Decidable (Indexed log) :=
  decidable_of_iff (log[0]? = some LogEntry.dummy ∧ ∀ k < log.length, ∀ e ∈ log[k]?, e.index = k)
    ⟨fun h => ⟨h.1, fun k e he => h.2 k (List.getElem?_eq_some_iff.mp he).1 e he⟩,
      fun h => ⟨h.head, fun k _ e he => h.index k e he⟩⟩

namespace Indexed

variable {log : List LogEntry}

theorem pos (h : Indexed log) : 0 < log.length := (List.getElem?_eq_some_iff.mp h.head).1

theorem back (h : Indexed log) : log[log.length - 1]? = some (backEntry log) :=
  backEntry_of_ne_nil (List.length_pos_iff.mp h.pos)

theorem back_index (h : Indexed log) : (backEntry log).index = (log.length : Int) - 1 := by
  have := h.index _ _ h.back
  have := h.pos
  omega

theorem take (h : Indexed log) {n : Nat} (hn : 0 < n) : Indexed (log.take n) where
  head := by rw [List.getElem?_take_of_lt hn]; exact h.head
  index := fun k e he => by
    rw [List.getElem?_take] at he
    split at he
    · exact h.index k e he
    · cases he

end Indexed

structure Shaped (T : Int) (log : List LogEntry) : Prop where
  head : log[0]? = some LogEntry.dummy
  index : ∀ (k : Nat) (e : LogEntry), log[k]? = some e → e.index = k
  sorted : ∀ (j k : Nat) (e e' : LogEntry), j ≤ k → log[j]? = some e → log[k]? = some e' → e.term ≤ e'.term
  bound : ∀ e ∈ log, e.term ≤ T

namespace Shaped

variable {T : Int} {log : List LogEntry}

theorem indexed (h : Shaped T log) : Indexed log := ⟨h.head, h.index⟩

theorem pos (h : Shaped T log) : 0 < log.length := h.indexed.pos

theorem ne_nil (h : Shaped T log) : log ≠ [] := List.length_pos_iff.mp h.pos

theorem eq_cons (h : Shaped T log) : log = LogEntry.dummy :: log.drop 1 := by
  have hhead := h.head
  cases log with
  | nil => cases hhead
  | cons e es => cases hhead; rfl

theorem mono {T' : Int} (h : Shaped T log) (hT : T ≤ T') : Shaped T' log :=
  { h with bound := fun e he => (h.bound e he).trans hT }

theorem back (h : Shaped T log) : log[log.length - 1]? = some (backEntry log) := h.indexed.back

theorem back_index (h : Shaped T log) : (backEntry log).index = (log.length : Int) - 1 := h.indexed.back_index

theorem back_term (h : Shaped T log) : (backEntry log).term ≤ T := h.bound _ (List.mem_of_getElem? h.back)

theorem le_back (h : Shaped T log) {k : Nat} {e : LogEntry} (he : log[k]? = some e) :
    e.term ≤ (backEntry log).term := by
  have hk : k < log.length := (List.getElem?_eq_some_iff.mp he).1
  exact h.sorted k _ e _ (by omega) he h.back

theorem take (h : Shaped T log) {k : Nat} (hk : 0 < k) : Shaped T (log.take k) where
  head := (h.indexed.take hk).head
  index := (h.indexed.take hk).index
  sorted := fun i j e e' hij he he' => by
    rw [List.getElem?_take] at he he'
    split at he
    · split at he'
      · exact h.sorted i j e e' hij he he'
      · cases he'
    · cases he
  bound := fun e he => h.bound e (List.mem_of_mem_take he)

theorem snoc (h : Shaped T log) {e : LogEntry} (hi : e.index = log.length)
    (ht : (backEntry log).term ≤ e.term) (hT : e.term ≤ T) : Shaped T (log ++ [e]) where
  head := by rw [List.getElem?_append_left h.pos]; exact h.head
  index := fun k e' he' => by
    rcases Nat.lt_trichotomy k log.length with hk | hk | hk
    · rw [List.getElem?_append_left hk] at he'
      exact h.index k e' he'
    · subst hk
      rw [List.getElem?_concat_length] at he'
      cases he'
      exact hi
    · rw [List.getElem?_eq_none (by simp; omega)] at he'
      cases he'
  sorted := fun i j e₁ e₂ hij h₁ h₂ => by
    have hlast : ∀ {k : Nat} {x : LogEntry}, (log ++ [e])[k]? = some x → ¬ k < log.length → x = e := by
      intro k x hx hk
      have hk' : k < (log ++ [e]).length := (List.getElem?_eq_some_iff.mp hx).1
      have : k = log.length := by simp at hk'; omega
      subst this
      rw [List.getElem?_concat_length] at hx
      exact (Option.some.inj hx).symm
    by_cases hj : j < log.length
    · rw [List.getElem?_append_left (by omega)] at h₁
      rw [List.getElem?_append_left hj] at h₂
      exact h.sorted i j e₁ e₂ hij h₁ h₂
    · rw [hlast h₂ hj]
      by_cases hi' : i < log.length
      · rw [List.getElem?_append_left hi'] at h₁
        exact (h.le_back h₁).trans ht
      · rw [hlast h₁ hi']
  bound := fun e' he' => by
    rcases List.mem_append.mp he' with he' | he'
    · exact h.bound e' he'
    · rw [List.mem_singleton.mp he']; exact hT

end Shaped

theorem backEntry_take {log : List LogEntry} {p : Nat} {e : LogEntry} (h : log[p]? = some e) :
    backEntry (log.take (p + 1)) = e := by
  have hp : p < log.length := (List.getElem?_eq_some_iff.mp h).1
  rw [List.take_succ_eq_append_getElem hp, backEntry_concat]
  exact (List.getElem?_eq_some_iff.mp h).2

end FlowMQ
