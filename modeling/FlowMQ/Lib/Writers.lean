import Mathlib

/-!
# Several writes on one stream

Writes are numbered in the order in which they start. Each transfers its data in
pieces, and the pieces of different writes may follow one another in any order.
The stream is whole when it is a sequence of complete writes, with at most the
beginning of one more at its end. A transfer keeps a stream whole exactly when
no other write is in progress.
-/

namespace Writers

variable {α : Type}

structure Write (α : Type) where
  done : List α
  rest : List α

def Write.data (w : Write α) : List α := w.done ++ w.rest

/-- `out` is what was transferred, each element with the number of its write. -/
structure Stream (α : Type) where
  writes : List (Write α)
  out : List (Nat × α)

namespace Stream

def empty : Stream α := ⟨[], []⟩

def start (data : List α) (s : Stream α) : Stream α := { s with writes := s.writes ++ [⟨[], data⟩] }

def transfer (k m : Nat) (s : Stream α) : Option (Stream α) :=
  match s.writes[k]? with
  | none => none
  | some w =>
    if 1 ≤ m ∧ m ≤ w.rest.length then
      some { writes := s.writes.set k ⟨w.done ++ w.rest.take m, w.rest.drop m⟩
             out := s.out ++ (w.rest.take m).map (Prod.mk k) }
    else none

def Finished (s : Stream α) (j : Nat) : Prop := ∃ w ∈ s.writes[j]?, w.rest = []

def InProgress (s : Stream α) (j : Nat) : Prop := ∃ w ∈ s.writes[j]?, w.done ≠ [] ∧ w.rest ≠ []

instance (s : Stream α) (j : Nat) : Decidable (s.Finished j) :=
  inferInstanceAs (Decidable (∃ w ∈ s.writes[j]?, w.rest = []))

instance (s : Stream α) (j : Nat) : Decidable (s.InProgress j) :=
  inferInstanceAs (Decidable (∃ w ∈ s.writes[j]?, w.done ≠ [] ∧ w.rest ≠ []))

def sent (s : Stream α) (j : Nat) : List (Nat × α) := ((s.writes[j]?.map Write.done).getD []).map (Prod.mk j)

structure Layout (s : Stream α) (order : List Nat) (current : Option Nat) : Prop where
  nodup : order.Nodup
  finished : ∀ j, j ∈ order ↔ s.Finished j
  inProgress : ∀ j, current = some j ↔ s.InProgress j
  out : s.out = order.flatMap s.sent ++ current.toList.flatMap s.sent

def Whole (s : Stream α) : Prop := ∃ order current, Layout s order current

theorem InProgress.lt {s : Stream α} {j : Nat} (h : s.InProgress j) : j < s.writes.length := by
  obtain ⟨w, hw, -⟩ := h
  exact (List.getElem?_eq_some_iff.mp hw).1

theorem InProgress.not_finished {s : Stream α} {j : Nat} (h : s.InProgress j) : ¬ s.Finished j := by
  rintro ⟨w', hw', hnil⟩
  obtain ⟨w, hw, -, hrest⟩ := h
  rw [Option.mem_unique hw hw'] at hrest
  exact hrest hnil

theorem whole_empty : Whole (empty : Stream α) := by
  refine ⟨[], none, List.nodup_nil, fun j => ?_, fun j => ?_, rfl⟩
  · simp [Finished, empty]
  · simp [InProgress, empty]

/-! ## Starting a write -/

section
variable {s : Stream α} {data : List α}

theorem writes_start (j : Nat) : (s.start data).writes[j]? =
    if j = s.writes.length then some ⟨[], data⟩ else s.writes[j]? := by
  unfold start
  by_cases hj : j = s.writes.length
  · subst hj
    simp
  · rw [if_neg hj]
    by_cases hlt : j < s.writes.length
    · exact List.getElem?_append_left hlt
    · rw [List.getElem?_eq_none (by simp; omega), List.getElem?_eq_none (by omega)]

theorem finished_start (hd : data ≠ []) (j : Nat) : (s.start data).Finished j ↔ s.Finished j := by
  unfold Finished
  rw [writes_start]
  split
  · rename_i hj
    subst hj
    simp [hd]
  · rfl

theorem inProgress_start (j : Nat) : (s.start data).InProgress j ↔ s.InProgress j := by
  unfold InProgress
  rw [writes_start]
  split
  · rename_i hj
    subst hj
    simp
  · rfl

theorem sent_start (j : Nat) : (s.start data).sent j = s.sent j := by
  unfold sent
  rw [writes_start]
  split
  · rename_i hj
    subst hj
    simp
  · rfl

theorem data_start : (s.start data).writes.map Write.data = s.writes.map Write.data ++ [data] := by
  simp [start, Write.data]

theorem Whole.start (h : Whole s) (hd : data ≠ []) : Whole (s.start data) := by
  obtain ⟨order, current, h⟩ := h
  refine ⟨order, current, h.nodup, fun j => ?_, fun j => ?_, ?_⟩
  · rw [finished_start hd, h.finished]
  · rw [inProgress_start, h.inProgress]
  · have hsent : (s.start data).sent = s.sent := funext sent_start
    rw [hsent]
    exact h.out

end

/-! ## Transfers -/

structure Transfers (s : Stream α) (k m : Nat) (w : Write α) (s' : Stream α) : Prop where
  get : s.writes[k]? = some w
  pos : 1 ≤ m
  le : m ≤ w.rest.length
  self : s'.writes[k]? = some ⟨w.done ++ w.rest.take m, w.rest.drop m⟩
  others : ∀ j, j ≠ k → s'.writes[j]? = s.writes[j]?
  length : s'.writes.length = s.writes.length
  out : s'.out = s.out ++ (w.rest.take m).map (Prod.mk k)

theorem transfers_of_transfer {s s' : Stream α} {k m : Nat} (h : s.transfer k m = some s') :
    ∃ w, Transfers s k m w s' := by
  unfold transfer at h
  split at h
  · cases h
  · rename_i w hw
    split at h
    · rename_i hm
      cases h
      have hk : k < s.writes.length := (List.getElem?_eq_some_iff.mp hw).1
      refine ⟨w, hw, hm.1, hm.2, ?_, fun j hj => ?_, List.length_set, rfl⟩
      · simp [hk]
      · exact List.getElem?_set_ne (Ne.symm hj)
    · cases h

theorem fst_getLast? {out : List (Nat × α)} {l : List α} (k : Nat) (hl : l ≠ []) :
    (out ++ l.map (Prod.mk k)).getLast?.map Prod.fst = some k := by
  obtain ⟨l', x, rfl⟩ := List.eq_nil_or_concat l |>.resolve_left hl
  simp

section
variable {s s' : Stream α} {k m : Nat} {w : Write α} (ht : Transfers s k m w s')
include ht

theorem Transfers.rest_ne_nil : w.rest ≠ [] := by
  intro h
  have hpos := ht.pos
  have hle := ht.le
  rw [h] at hle
  exact absurd (hpos.trans hle) (by simp)

theorem Transfers.piece_ne_nil : w.rest.take m ≠ [] := by
  have hpos := ht.pos
  have hne := ht.rest_ne_nil
  simp [List.take_eq_nil_iff, hne]
  omega

theorem Transfers.data : s'.writes.map Write.data = s.writes.map Write.data := by
  apply List.ext_getElem?
  intro j
  rw [List.getElem?_map, List.getElem?_map]
  by_cases hj : j = k
  · subst hj
    simp [ht.self, ht.get, Write.data]
  · rw [ht.others j hj]

theorem Transfers.sent_self : s'.sent k = s.sent k ++ (w.rest.take m).map (Prod.mk k) := by
  simp [sent, ht.self, ht.get]

theorem Transfers.sent_of_ne {j : Nat} (hj : j ≠ k) : s'.sent j = s.sent j := by
  unfold sent
  rw [ht.others j hj]

theorem Transfers.finished_of_ne {j : Nat} (hj : j ≠ k) : s'.Finished j ↔ s.Finished j := by
  unfold Finished
  rw [ht.others j hj]

theorem Transfers.finished_self : s'.Finished k ↔ w.rest.drop m = [] := by
  simp [Finished, ht.self]

theorem Transfers.not_finished : ¬ s.Finished k := by
  rintro ⟨w', hw', hrest⟩
  rw [ht.get] at hw'
  cases hw'
  exact ht.rest_ne_nil hrest

theorem Transfers.inProgress_of_ne {j : Nat} (hj : j ≠ k) : s'.InProgress j ↔ s.InProgress j := by
  unfold InProgress
  rw [ht.others j hj]

theorem Transfers.inProgress_self : s'.InProgress k ↔ w.rest.drop m ≠ [] := by
  have hne := ht.piece_ne_nil
  unfold InProgress
  rw [ht.self]
  constructor
  · rintro ⟨w', hw', -, hrest⟩
    cases hw'
    exact hrest
  · intro hrest
    refine ⟨_, rfl, ?_, hrest⟩
    exact List.append_ne_nil_of_right_ne_nil _ hne

theorem Transfers.out_before {order : List Nat} {current : Option Nat} (h : Layout s order current)
    (hno : ∀ j, j ≠ k → ¬ s.InProgress j) : s.out = order.flatMap s.sent ++ s.sent k := by
  rw [h.out]
  congr 1
  cases hc : current with
  | some j =>
    have hj : j = k := by
      by_contra hne
      exact hno j hne ((h.inProgress j).mp hc)
    subst hj
    simp
  | none =>
    have hnot : ¬ s.InProgress k := by
      intro hp
      have hk := (h.inProgress k).mpr hp
      rw [hc] at hk
      cases hk
    have hdone : w.done = [] := by
      by_contra hne
      exact hnot ⟨w, ht.get, hne, ht.rest_ne_nil⟩
    simp [sent, ht.get, hdone]

theorem Transfers.whole {order : List Nat} {current : Option Nat} (h : Layout s order current)
    (hno : ∀ j, j ≠ k → ¬ s.InProgress j) : Whole s' := by
  have hk : k ∉ order := fun hk => ht.not_finished ((h.finished k).mp hk)
  have hblocks : order.flatMap s'.sent = order.flatMap s.sent := by
    refine List.flatMap_congr fun j hj => ht.sent_of_ne ?_
    rintro rfl
    exact hk hj
  have hout : s'.out = order.flatMap s'.sent ++ s'.sent k := by
    rw [ht.out, ht.out_before h hno, hblocks, ht.sent_self, List.append_assoc]
  have hothers : ∀ j, j ≠ k → ¬ s'.InProgress j := by
    intro j hj
    rw [ht.inProgress_of_ne hj]
    exact hno j hj
  by_cases hrest : w.rest.drop m = []
  · refine ⟨order ++ [k], none, ?_, fun j => ?_, fun j => ?_, ?_⟩
    · refine List.nodup_append.mpr ⟨h.nodup, List.nodup_singleton k, fun a ha b hb => ?_⟩
      rintro rfl
      cases List.mem_singleton.mp hb
      exact hk ha
    · rw [List.mem_append, List.mem_singleton]
      by_cases hj : j = k
      · subst hj
        simp [ht.finished_self, hrest]
      · simp [hj, ht.finished_of_ne hj, h.finished]
    · refine iff_of_false (by simp) ?_
      by_cases hj : j = k
      · subst hj
        rw [ht.inProgress_self]
        simpa using hrest
      · exact hothers j hj
    · simp [hout]
  · refine ⟨order, some k, h.nodup, fun j => ?_, fun j => ?_, ?_⟩
    · by_cases hj : j = k
      · subst hj
        simp [ht.finished_self, hrest, hk]
      · rw [ht.finished_of_ne hj, h.finished]
    · by_cases hj : j = k
      · subst hj
        simp [ht.inProgress_self, hrest]
      · exact iff_of_false (by simpa using Ne.symm hj) (hothers j hj)
    · simp [hout]

theorem Transfers.writes_last (hk : k + 1 = s.writes.length) :
    s.writes = s.writes.take k ++ [w] ∧
    s'.writes = s.writes.take k ++ [⟨w.done ++ w.rest.take m, w.rest.drop m⟩] := by
  obtain ⟨hlt, hget⟩ := List.getElem?_eq_some_iff.mp ht.get
  constructor
  · rw [← hget, ← List.take_succ_eq_append_getElem hlt, hk, List.take_length]
  · apply List.ext_getElem?
    intro j
    rcases Nat.lt_trichotomy j k with hj | rfl | hj
    · rw [ht.others j hj.ne, List.getElem?_append_left (by rw [List.length_take]; omega),
        List.getElem?_take_of_lt hj]
    · rw [ht.self, List.getElem?_append_right (by rw [List.length_take]; omega),
        List.length_take_of_le hlt.le, Nat.sub_self]
      rfl
    · rw [List.getElem?_eq_none (by rw [ht.length]; omega),
        List.getElem?_eq_none (by rw [List.length_append, List.length_take, List.length_singleton]; omega)]

theorem Transfers.inOrder (hk : k + 1 = s.writes.length)
    (h : s.out.map Prod.snd = (s.writes.map Write.done).flatten) :
    s'.out.map Prod.snd = (s'.writes.map Write.done).flatten := by
  obtain ⟨hw, hw'⟩ := ht.writes_last hk
  rw [hw] at h
  rw [ht.out, hw', List.map_append, h]
  simp

theorem Transfers.not_whole {j : Nat} (hj : j ≠ k) (hp : s.InProgress j) : ¬ Whole s' := by
  rintro ⟨order, current, h⟩
  have hp' := (ht.inProgress_of_ne hj).mpr hp
  have hc := (h.inProgress j).mpr hp'
  obtain ⟨w', hw', hdone, -⟩ := hp'
  have hlast : s'.out.getLast?.map Prod.fst = some j := by
    have hsent : s'.sent j = w'.done.map (Prod.mk j) := by simp [sent, Option.mem_def.mp hw']
    rw [h.out, hc, Option.toList_some, List.flatMap_singleton, hsent]
    exact fst_getLast? j hdone
  rw [ht.out, fst_getLast? k ht.piece_ne_nil] at hlast
  exact hj (Option.some.inj hlast).symm

end

theorem flatten_done_prefix {s : Stream α} (h : ∀ j, j + 1 < s.writes.length → s.Finished j) :
    (s.writes.map Write.done).flatten <+: (s.writes.map Write.data).flatten := by
  rcases List.eq_nil_or_concat s.writes with hnil | ⟨init, w, hw⟩
  · rw [hnil]
    exact List.prefix_rfl
  · rw [List.concat_eq_append] at hw
    have hinit : init.map Write.done = init.map Write.data := by
      refine List.map_congr_left fun v hv => ?_
      obtain ⟨j, hj, rfl⟩ := List.getElem_of_mem hv
      obtain ⟨v', hv', hrest⟩ := h j (by rw [hw, List.length_append, List.length_singleton]; omega)
      rw [hw, List.getElem?_append_left hj, List.getElem?_eq_getElem hj] at hv'
      cases hv'
      rw [Write.data, hrest, List.append_nil]
    rw [hw, List.map_append, List.map_append, List.flatten_append, List.flatten_append, hinit]
    refine (List.prefix_append_right_inj _).mpr ?_
    simp [Write.data]

theorem whole_transfer_iff {s s' : Stream α} (h : Whole s) {k m : Nat} (hs : s.transfer k m = some s') :
    Whole s' ↔ ∀ j, j ≠ k → ¬ s.InProgress j := by
  obtain ⟨w, ht⟩ := transfers_of_transfer hs
  obtain ⟨order, current, hlay⟩ := h
  constructor
  · intro hw j hj hp
    exact ht.not_whole hj hp hw
  · exact ht.whole hlay

theorem map_snd_flatMap_sent (s : Stream α) (order : List Nat) :
    (order.flatMap s.sent).map Prod.snd =
      (order.map fun j => (s.writes[j]?.map Write.done).getD []).flatten := by
  induction order with
  | nil => rfl
  | cons j order ih =>
    have hj : (s.sent j).map Prod.snd = (s.writes[j]?.map Write.done).getD [] := by simp [sent]
    rw [List.flatMap_cons, List.map_append, ih, hj, List.map_cons, List.flatten_cons]

theorem Whole.perm {s : Stream α} (h : Whole s) (hf : ∀ w ∈ s.writes, w.rest = []) :
    ∃ l : List (List α), l.Perm (s.writes.map Write.done) ∧ s.out.map Prod.snd = l.flatten := by
  obtain ⟨order, current, h⟩ := h
  have hnone : current = none := by
    by_contra hc
    obtain ⟨j, hj⟩ := Option.ne_none_iff_exists'.mp hc
    obtain ⟨w, hw, -, hrest⟩ := (h.inProgress j).mp hj
    exact hrest (hf w (List.mem_of_getElem? hw))
  have hfin : ∀ j, s.Finished j ↔ j < s.writes.length := by
    intro j
    constructor
    · rintro ⟨w, hw, -⟩
      exact (List.getElem?_eq_some_iff.mp hw).1
    · intro hj
      exact ⟨s.writes[j], List.getElem?_eq_getElem hj, hf _ (List.getElem_mem hj)⟩
  have horder : order.Perm (List.range s.writes.length) := by
    apply (List.perm_ext_iff_of_nodup h.nodup List.nodup_range).mpr
    intro j
    rw [h.finished, hfin, List.mem_range]
  have hall : (List.range s.writes.length).map (fun j => (s.writes[j]?.map Write.done).getD []) =
      s.writes.map Write.done := by
    apply List.ext_getElem
    · simp
    · intro j h₁ h₂
      simp at h₁
      simp [h₁]
  refine ⟨order.map fun j => (s.writes[j]?.map Write.done).getD [], hall ▸ horder.map _, ?_⟩
  rw [h.out, hnone, Option.toList_none, List.flatMap_nil, List.append_nil, map_snd_flatMap_sent]

end Stream

end Writers
