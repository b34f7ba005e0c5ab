import FlowMQ.LogShape

/-!
# The committed prefix

What a node has applied is compared with its log: the calls of
`commit_log_entry` should be the entries `1..commit_index_`, once each, in
order, and still in place. Two steps break this, and no others: a commit beyond
the end of the log, and a request that replaces a committed entry.
-/

namespace FlowMQ

structure Applied (log : List LogEntry) (c : Int) (a : List (Int × Option LogEntry)) : Prop where
  nonneg : 0 ≤ c
  inside : c < log.length
  calls : a = (List.range c.toNat).map fun k : Nat => ((k : Int) + 1, log[k + 1]?)

def Effect.asApply : Effect → Option (Int × Option LogEntry)
  | .commitLogEntry i e => some (i, e)
  | _ => none

theorem asApply_of_not_record (e : Effect) (h : e.isRecord = false) : e.asApply = none := by
  cases e <;> first | rfl | cases h

theorem mem_commitRecord_apply {r : RaftState} {t i : Int} {e : LogEntry} :
    Effect.commitLogEntry i (some e) ∈ r.commitRecord t ↔
      r.commitIndex < i ∧ i ≤ t ∧ 0 < i ∧ r.logEntries[i.toNat]? = some e := by
  have hcall : applyCall r.logEntries i = .commitLogEntry i (some e) ↔ 0 < i ∧ r.logEntries[i.toNat]? = some e := by
    unfold applyCall
    by_cases hin : i ≤ 0 ∨ (r.logEntries.length : Int) ≤ i
    · rw [if_pos hin]
      refine iff_of_false (by simp) fun h => ?_
      have := (List.getElem?_eq_some_iff.mp h.2).1
      omega
    · have hget := get_of_lt (show i.toNat < r.logEntries.length by omega)
      rw [Int.toNat_of_nonneg (by omega)] at hget
      rw [if_neg hin, hget]
      simp only [Effect.commitLogEntry.injEq, Option.some.injEq, true_and]
      exact (and_iff_right (by omega)).symm
  rw [← hcall, ← and_assoc]
  simp only [RaftState.commitRecord, applyCalls, List.mem_append, List.mem_map, List.mem_range, List.mem_singleton]
  constructor
  · rintro (⟨j, hj, h⟩ | h)
    · have hi : r.commitIndex + 1 + (j : Int) = i := (Effect.commitLogEntry.inj h).1
      subst hi
      exact ⟨by omega, h⟩
    · cases h
  · rintro ⟨hi, h⟩
    refine Or.inl ⟨(i - (r.commitIndex + 1)).toNat, by omega, ?_⟩
    rw [← h]
    congr 1
    omega

namespace Applied

variable {log log' : List LogEntry} {c : Int} {a : List (Int × Option LogEntry)}

theorem get (h : Applied log c a) {k : Nat} (hk : 0 < k) (hc : k ≤ c.toNat) :
    a[k - 1]? = some ((k : Int), log[k]?) := by
  obtain ⟨j, rfl⟩ : ∃ j, k = j + 1 := ⟨k - 1, by omega⟩
  rw [h.calls, Nat.add_sub_cancel, List.getElem?_map, List.getElem?_range (by omega)]
  simp

theorem congr (h : Applied log c a) (hl : log.take (c.toNat + 1) <+: log') : Applied log' c a := by
  have hlen := hl.length_le
  rw [List.length_take] at hlen
  have hc := h.nonneg
  have hin := h.inside
  refine ⟨h.nonneg, by omega, ?_⟩
  rw [h.calls]
  refine List.map_congr_left fun k hk => ?_
  have hk' : k + 1 < c.toNat + 1 := by simpa using hk
  obtain ⟨rest, rfl⟩ := hl
  rw [List.getElem?_append_left (by rw [List.length_take]; omega), List.getElem?_take_of_lt hk']

theorem agree (h : Applied log c a) (h' : Applied log' c a) {k : Nat} (hk : 0 < k) (hc : k ≤ c.toNat) :
    log[k]? = log'[k]? := by
  have := (h.get hk hc).symm.trans (h'.get hk hc)
  simpa using this

theorem advance {r : RaftState} (h : Applied r.logEntries r.commitIndex a) {t : Int} (hlt : r.commitIndex < t)
    (ht : t < r.logEntries.length) :
    Applied r.logEntries t (a ++ (r.commitRecord t).filterMap Effect.asApply) := by
  have hc := h.nonneg
  refine ⟨by omega, ht, ?_⟩
  have hsum : t.toNat = r.commitIndex.toNat + (t - r.commitIndex).toNat := by omega
  rw [h.calls, hsum, List.range_add, List.map_append]
  congr 1
  simp only [RaftState.commitRecord, applyCalls, List.filterMap_append, List.filterMap_map, List.map_map]
  rw [show List.filterMap Effect.asApply [.storeLogEntriesAndMetadata r.logEntries t (t + 1) t] = [] from rfl,
    List.append_nil, ← List.filterMap_eq_map]
  refine List.filterMap_congr fun j hj => ?_
  have hj' : j < (t - r.commitIndex).toNat := by simpa using hj
  have hidx : r.commitIndex + 1 + (j : Int) = ((r.commitIndex.toNat + j + 1 : Nat) : Int) := by omega
  have hget : r.logEntries[r.commitIndex.toNat + j + 1]? =
      some (entryAt r.logEntries (r.commitIndex.toNat + j + 1 : Nat)) :=
    get_of_lt (by omega)
  have hin : ¬ (((r.commitIndex.toNat + j + 1 : Nat) : Int) ≤ 0 ∨
      (r.logEntries.length : Int) ≤ ((r.commitIndex.toNat + j + 1 : Nat) : Int)) := by omega
  simp only [Function.comp_apply, applyCall, Effect.asApply, hidx, if_neg hin, hget]
  push_cast
  rfl

theorem appendLog_iff (h : Applied log c a) {q : AppendEntriesRequest} (hq : ShapedRequest q)
    (hs : checkIfPreviousLogInSync q.prevLogTerm q.prevLogIndex log = true) :
    Applied (appendLog q.prevLogIndex q.entries log) c a ↔
      (q.prevLogIndex < c → ∀ e ∈ q.entries, (entryAt log (q.prevLogIndex + 1)).term = e.term) := by
  have hc := h.nonneg
  obtain ⟨p, hp, hes | ⟨e, hes, -⟩⟩ := hq.cases
  · rw [hes]
    simpa [appendLog] using h
  rw [hp] at hs ⊢
  obtain ⟨e₀, he₀, -⟩ := inSync_iff.mp hs
  have hlt : p < log.length := (List.getElem?_eq_some_iff.mp he₀).1
  have hidx : (p : Int) + 1 = ((p + 1 : Nat) : Int) := by push_cast; rfl
  rw [hes, hidx]
  simp only [List.mem_singleton, forall_eq]
  -- the request's entry is there already, or the log is cut after the verified entry
  rcases appendLog_single (e := e) hlt with ⟨e', he', ht, happ⟩ | ⟨hend, happ⟩
  · rw [happ, entryAt_of_get he']
    exact iff_of_true h fun _ => ht
  · rw [happ]
    by_cases hpc : (p : Int) < c
    · obtain ⟨e', he', hne⟩ : ∃ e', log[p + 1]? = some e' ∧ e'.term ≠ e.term := by
        rcases hend with hend | hend
        · have := h.inside
          omega
        · exact hend
      refine iff_of_false (fun h' => ?_) fun hkeep => hne ?_
      · have hagree := h.agree h' (k := p + 1) (by omega) (by omega)
        rw [he', List.getElem?_append_right (by simp), List.length_take, min_eq_left (by omega)] at hagree
        simp only [Nat.sub_self, List.getElem?_cons_zero, Option.some.injEq] at hagree
        exact hne (by rw [hagree])
      · rw [← entryAt_of_get he']
        exact hkeep hpc
    · refine iff_of_true (h.congr ?_) fun hlt' => absurd hlt' hpc
      exact (List.take_prefix_take_left (by omega)).trans (List.prefix_append _ _)

end Applied

/-! ## The two conditions -/

def CommitsInside (r : RaftState) (q : AppendEntriesResponse) : Prop :=
  r.commits q → q.lastIndexSynced < r.logEntries.length

def KeepsCommitted (r : RaftState) (q : AppendEntriesRequest) : Prop :=
  r.curTerm ≤ q.term → checkIfPreviousLogInSync q.prevLogTerm q.prevLogIndex r.logEntries = true →
    (q.prevLogIndex < r.commitIndex ∨
    (q.prevLogIndex < q.leaderCommit ∧ q.leaderCommit < r.logEntries.length)) →
    ∀ e ∈ q.entries, (entryAt r.logEntries (q.prevLogIndex + 1)).term = e.term

def SafeCommit (r : RaftState) (m : RaftMessage) : Prop :=
  onAppendRequest KeepsCommitted r m ∧ onAppendResponse CommitsInside r m

instance (r : RaftState) (q : AppendEntriesResponse) : Decidable (CommitsInside r q) :=
  inferInstanceAs (Decidable (_ → _))

instance (r : RaftState) (q : AppendEntriesRequest) : Decidable (KeepsCommitted r q) :=
  inferInstanceAs (Decidable (_ → _ → _ → _))

instance (r : RaftState) (m : RaftMessage) : Decidable (SafeCommit r m) := inferInstanceAs (Decidable (_ ∧ _))

@[simp] theorem safeCommit_request {r : RaftState} {q : AppendEntriesRequest} :
    SafeCommit r (.appendEntriesRequest q) ↔ KeepsCommitted r q := and_iff_left trivial

@[simp] theorem safeCommit_response {r : RaftState} {q : AppendEntriesResponse} :
    SafeCommit r (.appendEntriesResponse q) ↔ CommitsInside r q := and_iff_right trivial

/-! ## One handler -/

theorem commitTarget_of_isAppend {r : RaftState} {msg : Option RaftMessage} (h : isAppend msg = false) :
    r.commitTarget msg = none := by
  unfold RaftState.commitTarget
  split <;> first | rfl | cases h

theorem commitTarget_stale {r : RaftState} {q : AppendEntriesRequest} (h : q.term < r.curTerm) :
    r.commitTarget (some (.appendEntriesRequest q)) = none :=
  if_neg fun hc => absurd hc.1.1 (not_le.mpr h)

theorem commitTarget_refuse {r : RaftState} {q : AppendEntriesRequest}
    (h : checkIfPreviousLogInSync q.prevLogTerm q.prevLogIndex r.logEntries = false) :
    r.commitTarget (some (.appendEntriesRequest q)) = none :=
  if_neg fun hc => by rw [h] at hc; cases hc.1.2

theorem commitTarget_fail {r : RaftState} {q : AppendEntriesResponse} (h : q.appendResultSuccess = 0) :
    r.commitTarget (some (.appendEntriesResponse q)) = none :=
  if_neg fun hc : r.commits q => hc.1 h

theorem Trans.commitIndex {r r' : RaftState} {msg : Option RaftMessage} {l : List Effect}
    (ht : Trans r msg r' l) :
    r'.commitIndex = (r.commitTarget msg).getD r.commitIndex := by
  cases ht with
  | idle hm => rw [commitTarget_of_isAppend hm]; rfl
  | clientAppend hl e hi ht next pending l hr hm => rw [commitTarget_of_isAppend hm]; rfl
  | staleAppend q h => rw [commitTarget_stale h]; rfl
  | refuseAppend q now h hs => rw [commitTarget_refuse hs]; rfl
  | acceptAppend q now h hs =>
    simp only [RaftState.commitTarget, RaftState.commitAfter, h, hs, true_and]
    split <;> rfl
  | replySuccess q h c hc =>
    rcases hc with ⟨rfl, hc⟩ | ⟨hc, rfl⟩
    · rw [RaftState.commitTarget, if_neg hc]; rfl
    · rw [RaftState.commitTarget, if_pos hc]; rfl
  | replyTerm q h => rw [commitTarget_fail h]; rfl
  | replyRetry q h => rw [commitTarget_fail h]; rfl
  | _ => rfl

theorem safeCommit_of_isAppend {r : RaftState} {m : RaftMessage} (h : isAppend (some m) = false) :
    SafeCommit r m := by
  cases m with
  | appendEntriesRequest q => cases h
  | appendEntriesResponse q => cases h
  | _ => exact ⟨trivial, trivial⟩

theorem lt_commitAfter {r : RaftState} {q : AppendEntriesRequest} {p : Int} : p < r.commitAfter q ↔
    (p < r.commitIndex ∨ (p < q.leaderCommit ∧ q.leaderCommit < r.logEntries.length)) := by
  unfold RaftState.commitAfter
  split <;> omega

theorem lt_of_commitTarget {r : RaftState} {msg : Option RaftMessage} {t : Int}
    (h : r.commitTarget msg = some t) :
    r.commitIndex < t := by
  unfold RaftState.commitTarget at h
  split at h
  · split at h
    · rename_i hc
      cases h
      exact hc.2.1
    · cases h
  · split at h
    · rename_i hc
      cases h
      exact hc.2.1
    · cases h
  · cases h

theorem applied_records {r : RaftState} {a : List (Int × Option LogEntry)}
    (h : Applied r.logEntries r.commitIndex a) (msg : Option RaftMessage) :
    Applied r.logEntries ((r.commitTarget msg).getD r.commitIndex)
        (a ++ (r.records msg).filterMap Effect.asApply) ↔
      ∀ t ∈ r.commitTarget msg, t < r.logEntries.length := by
  cases hc : r.commitTarget msg with
  | none => simpa [RaftState.records, hc] using h
  | some t =>
    simp only [RaftState.records, hc, Option.map_some, Option.getD_some, Option.mem_def, Option.some.injEq,
      forall_eq']
    exact ⟨Applied.inside, h.advance (lt_of_commitTarget hc)⟩

theorem commitTarget_request_inside {r : RaftState} {q : AppendEntriesRequest} :
    ∀ t ∈ r.commitTarget (some (.appendEntriesRequest q)), t < r.logEntries.length := by
  intro t ht
  simp only [RaftState.commitTarget, Option.mem_def] at ht
  split at ht
  · rename_i hc
    cases ht
    exact hc.2.2
  · cases ht

theorem commitTarget_inside {r : RaftState} {msg : Option RaftMessage} (h : ∀ m ∈ msg, SafeCommit r m) :
    ∀ t ∈ r.commitTarget msg, t < r.logEntries.length := by
  cases msg with
  | none => exact fun t ht => by cases ht
  | some m =>
    cases m with
    | appendEntriesRequest q => exact commitTarget_request_inside
    | appendEntriesResponse q =>
      have hq : CommitsInside r q := safeCommit_response.mp (h _ rfl)
      simpa [RaftState.commitTarget, CommitsInside] using hq
    | _ => exact fun t ht => by cases ht

theorem Trans.applied_iff {r r' : RaftState} {msg : Option RaftMessage} {l : List Effect}
    {a : List (Int × Option LogEntry)} (ht : Trans r msg r' l)
    (hq : ∀ q, msg = some (.appendEntriesRequest q) → ShapedRequest q)
    (h : Applied r.logEntries r.commitIndex a) :
    Applied r'.logEntries r'.commitIndex (a ++ (r.records msg).filterMap Effect.asApply) ↔
      ∀ m ∈ msg, SafeCommit r m := by
  have hrec := applied_records h msg
  rw [ht.commitIndex]
  by_cases happ : isAppend msg = false
  · -- no append message: nothing is committed, and the log is at most extended
    rw [commitTarget_of_isAppend happ] at hrec ⊢
    refine iff_of_true ((hrec.mpr (by simp)).congr ?_) fun m hm =>
      safeCommit_of_isAppend (by rw [hm] at happ; exact happ)
    cases ht with
    | clientAppend => exact (List.take_prefix _ _).trans (List.prefix_append _ _)
    | _ => first | exact List.take_prefix _ _ | cases happ
  cases ht with
  | idle hm => exact absurd hm happ
  | clientAppend hl e hi ht next pending l hr hm => exact absurd hm happ
  | staleAppend q hlt =>
    refine iff_of_true (hrec.mpr commitTarget_request_inside) ?_
    simp only [Option.mem_def, Option.some.injEq, forall_eq', safeCommit_request]
    exact fun hle => absurd hle (not_le.mpr hlt)
  | refuseAppend q now hle hs =>
    refine iff_of_true (hrec.mpr commitTarget_request_inside) ?_
    simp only [Option.mem_def, Option.some.injEq, forall_eq', safeCommit_request]
    intro _ hsync
    rw [hs] at hsync
    cases hsync
  | acceptAppend q now hle hs =>
    have hci := (Trans.acceptAppend q now hle hs).commitIndex
    have hold := hrec.mpr commitTarget_request_inside
    rw [← hci] at hold ⊢
    rw [hold.appendLog_iff (hq q rfl) hs]
    simp only [Option.mem_def, Option.some.injEq, forall_eq', safeCommit_request, lt_commitAfter,
      KeepsCommitted, hle, hs, true_implies]
  | replySuccess q hs c hc =>
    refine hrec.trans ?_
    simp [CommitsInside, RaftState.commitTarget]
  | replyTerm q hs =>
    refine hrec.trans ?_
    simp [CommitsInside, RaftState.commitTarget]
  | replyRetry q hs =>
    refine hrec.trans ?_
    simp [CommitsInside, RaftState.commitTarget]
  | _ => exact absurd rfl happ

/-! ## Runs -/

namespace Cluster

variable {n : Nat}

def applied (s : Cluster n) (i : Fin n) : List (Int × Option LogEntry) :=
  s.history.filterMap fun x => if x.1 = i then x.2.asApply else none

structure Permanent (s : Cluster n) : Prop where
  applied : ∀ i, Applied (s.raft i).logEntries (s.raft i).commitIndex (s.applied i)
  stored : ∀ i l start stop m, (i, Effect.storeLogEntriesAndMetadata l start stop m) ∈ s.history →
    0 ≤ start ∧ start < stop ∧ stop ≤ l.length

theorem filterMap_history {β : Type} (g : Effect → Option β) {s s' : Cluster n} {i : Fin n} {out : List Effect}
    (h : s'.history = s.history ++ out.map fun e => (i, e)) (j : Fin n) :
    (s'.history.filterMap fun x => if x.1 = j then g x.2 else none) =
      (s.history.filterMap fun x => if x.1 = j then g x.2 else none) ++ if i = j then out.filterMap g else [] := by
  rw [h, List.filterMap_append, List.filterMap_map]
  congr 1
  split
  · rename_i hij
    simp only [hij, Function.comp_def, if_true]
  · rename_i hij
    simp [hij]

theorem Acts.applied_self {s s' : Cluster n} {i : Fin n} {msg : Option RaftMessage} {net : List (Packet n)}
    (ha : Acts s i msg net s') :
    s'.applied i = s.applied i ++ ((s.raft i).records msg).filterMap Effect.asApply := by
  rw [← filterMap_records asApply_of_not_record ha.records]
  exact (filterMap_history _ ha.history i).trans (by rw [if_pos rfl]; rfl)

theorem Acts.applied_other {s s' : Cluster n} {i j : Fin n} {msg : Option RaftMessage} {net : List (Packet n)}
    (ha : Acts s i msg net s') (hj : j ≠ i) : s'.applied j = s.applied j :=
  (filterMap_history _ ha.history j).trans (by rw [if_neg hj.symm, List.append_nil]; rfl)

theorem permanent_acts {s s' : Cluster n} {i : Fin n} {msg : Option RaftMessage} {net : List (Packet n)}
    (hq : ∀ q, msg = some (.appendEntriesRequest q) → ShapedRequest q) (h : Permanent s)
    (ha : Acts s i msg net s') : Permanent s' ↔ ∀ m ∈ msg, SafeCommit (s.raft i) m := by
  have hiff := ha.trans.applied_iff hq (h.applied i)
  rw [← ha.applied_self] at hiff
  refine ⟨fun h' => hiff.mp (h'.applied i), fun hsafe => ⟨fun j => ?_, ?_⟩⟩
  · by_cases hj : j = i
    · subst hj
      exact hiff.mpr hsafe
    · rw [ha.applied_other hj, ha.others j hj]
      exact h.applied j
  · intro j l start stop m hm
    rw [ha.history] at hm
    rcases List.mem_append.mp hm with hm | hm
    · exact h.stored j l start stop m hm
    · obtain ⟨e, he, heq⟩ := List.mem_map.mp hm
      obtain ⟨rfl, rfl⟩ := Prod.mk.inj heq
      obtain ⟨t, htar, hmem⟩ := mem_records ha.records he rfl
      obtain ⟨rfl, rfl, rfl, rfl⟩ := mem_commitRecord_store hmem
      have hin := commitTarget_inside hsafe _ htar
      have hlt := lt_of_commitTarget htar
      have hpos := (h.applied i).nonneg
      omega

theorem permanent_step {c : Channel} {s s' : Cluster n} {e : Event n} (hw : WellFormed s) (h : Permanent s)
    (hs : s.step c e = some s') : Permanent s' ↔ onMessage SafeCommit s e := by
  cases step_spec hs with
  | lose hl => exact iff_of_true ⟨h.applied, h.stored⟩ trivial
  | input ha => simpa [onMessage] using permanent_acts (fun q hq => by cases hq) h ha
  | @message _ k now pk net he hk hl ha =>
    have hiff := permanent_acts (fun q hq => hw.requests pk hl.subset.1 q (Option.some.inj hq)) h ha
    rw [hiff]
    rcases he with rfl | rfl <;> simp [onMessage, hk, raft]

theorem permanent_starts {s : Cluster n} (h : Starts s) : Permanent s := by
  obtain ⟨partitionId, serverNodes, garbage, rfl⟩ := h
  refine ⟨fun i => ?_, fun i l start stop m hm => by cases hm⟩
  rw [raft_init]
  exact ⟨le_refl 0, by simp, rfl⟩

/-- The committed prefix is permanent along every run whose messages are safe, and the first other step
breaks it. -/
theorem permanent_of_safeCommit {c : Channel} {s : Cluster n} (h : Reachable c (onMessage SafeCommit) s) :
    Permanent s ∧ ∀ e s', s.step c e = some s' → (Permanent s' ↔ onMessage SafeCommit s e) := by
  have hp : Permanent s := reachable_induct (P := Permanent) (fun _ => permanent_starts)
    (fun _ _ _ hr ih hG hs => (permanent_step (wellFormed_reachable hr) ih hs).mpr hG) h
  exact ⟨hp, fun e s' hs => permanent_step (wellFormed_reachable h) hp hs⟩

theorem permanent_committedPut : ∃ s : Cluster 3,
    (Reachable .fifo (onMessage SafeCommit) s ∧ (s.raft 0).commitIndex = 1) ∧
      (Permanent s ∧ ∀ e s', s.step .fifo e = some s' → (Permanent s' ↔ onMessage SafeCommit s e)) := by
  obtain ⟨s, hr, hs⟩ := exists_reachable (c := .fifo) (G := onMessage SafeCommit) committedPut
    (fun s => (s.raft 0).commitIndex = 1) (by decide +kernel)
  exact ⟨s, ⟨hr, hs⟩, permanent_of_safeCommit hr⟩

theorem not_permanent_tailReply : ∃ s : Cluster 3, Reachable .fifo Free s ∧ ¬ Permanent s := by
  obtain ⟨s, hr, hs⟩ := exists_reachable (c := .fifo) (G := Free) tailReply
    (fun s => ((s.raft 2).logEntries.length : Int) ≤ (s.raft 2).commitIndex) (by decide +kernel)
  exact ⟨s, hr, fun h => absurd (h.applied 2).inside (not_lt.mpr hs)⟩

end Cluster

end FlowMQ
