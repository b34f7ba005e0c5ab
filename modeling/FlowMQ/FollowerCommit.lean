import FlowMQ.AppendOrder
import FlowMQ.Commit

/-!
# What a follower commits

The request handler moves the commit index before it appends, and bounds it by
the end of the follower's own log. What it applies is the leader's exactly when
the entry at `leader_commit` has the leader's term: the request verifies the log
only up to `prev_log_index`.
-/

namespace FlowMQ

open TermLog (common overwrite)

def AgreeUpTo (i : Int) (F L : List LogEntry) : Prop := ∀ j : Nat, (j : Int) ≤ i → F[j]? = L[j]?

theorem agreeUpTo_iff_take {i : Int} {F L : List LogEntry} :
    AgreeUpTo i F L ↔ F.take (i + 1).toNat = L.take (i + 1).toNat := by
  constructor
  · intro h
    apply List.ext_getElem?
    intro j
    rw [List.getElem?_take, List.getElem?_take]
    split
    · exact h j (by omega)
    · rfl
  · intro h j hj
    have hget := congrArg (fun l => l[j]?) h
    rwa [List.getElem?_take_of_lt (by omega), List.getElem?_take_of_lt (by omega)] at hget

theorem AgreeUpTo.overwrite {i : Int} {F L : List LogEntry} (h : AgreeUpTo i F L) {n : Nat} (hn : n ≤ L.length) :
    AgreeUpTo i (overwrite L F n) L :=
  agreeUpTo_iff_take.mpr (TermLog.take_overwrite_of_take hn (agreeUpTo_iff_take.mp h))

theorem agreeUpTo_of_lt_common {i : Int} {F L : List LogEntry} (h : i < common F L) : AgreeUpTo i F L := by
  intro j hj
  exact TermLog.get_of_lt_common (by omega)

theorem AgreeUpTo.entryAt_eq {i : Int} {F L : List LogEntry} (h : AgreeUpTo i F L) :
    entryAt F i = entryAt L i := by
  unfold entryAt
  split
  · rfl
  · rw [List.getD_eq_getElem?_getD, List.getD_eq_getElem?_getD, h i.toNat (by omega)]

theorem agreeUpTo_of_term {i : Int} {F L : List LogEntry} (hm : Matching F L) (hF : i < F.length)
    (hL : i < L.length) (ht : (entryAt F i).term = (entryAt L i).term) : AgreeUpTo i F L := by
  by_cases hneg : i < 0
  · exact fun j hj => absurd hj (by omega)
  · have hi : (i.toNat : Int) = i := Int.toNat_of_nonneg (by omega)
    rw [← hi] at ht
    have hcommon := hm.lt_common (get_of_lt (by omega)) (get_of_lt (by omega)) ht
    exact agreeUpTo_of_lt_common (by omega)

section
variable {L : List LogEntry} {f : Process} {p k : Nat} {q : AppendEntriesRequest}

def MovesCommit (f : Process) (q : AppendEntriesRequest) : Prop :=
  checkIfPreviousLogInSync q.prevLogTerm q.prevLogIndex f.logEntries = true ∧
    f.commitIndex < q.leaderCommit ∧ q.leaderCommit < f.logEntries.length

theorem handled_commitIndex (ht : f.curTerm ≤ q.term) (now : Int) :
    (¬ MovesCommit f q → (f.appendEntriesRequest now q).commitIndex = f.commitIndex) ∧
    (MovesCommit f q → (f.appendEntriesRequest now q).commitIndex = q.leaderCommit) := by
  rw [Process.appendEntriesRequest_raft, if_neg (by omega)]
  by_cases hs : checkIfPreviousLogInSync q.prevLogTerm q.prevLogIndex f.logEntries = true
  · rw [if_pos hs]
    constructor
    · intro hc
      exact if_neg fun h => hc ⟨hs, h⟩
    · intro hc
      exact if_pos hc.2
  · rw [if_neg hs]
    exact ⟨fun _ => rfl, fun hc => absurd hc.1 hs⟩

theorem handled_applied (ht : f.curTerm ≤ q.term) (hout : f.out = []) (now : Int) {i : Int} {e : LogEntry} :
    Effect.commitLogEntry i (some e) ∈ (f.appendEntriesRequest now q).out ↔
      MovesCommit f q ∧ f.commitIndex < i ∧ i ≤ q.leaderCommit ∧ 0 < i ∧ f.logEntries[i.toNat]? = some e := by
  have hrec := Process.records_appendEntriesRequest f hout now q
  have hmem : Effect.commitLogEntry i (some e) ∈ (f.appendEntriesRequest now q).out ↔
      Effect.commitLogEntry i (some e) ∈ f.toRaftState.records (some (.appendEntriesRequest q)) := by
    rw [← hrec, List.mem_filter]
    exact (and_iff_left rfl).symm
  rw [hmem]
  simp only [RaftState.records, RaftState.commitTarget]
  by_cases hc : MovesCommit f q
  · rw [if_pos ⟨⟨ht, hc.1⟩, hc.2⟩, and_iff_right hc]
    exact mem_commitRecord_apply
  · rw [if_neg fun h => hc ⟨h.1.2, h.2⟩]
    exact iff_of_false (fun h => by cases h) fun h => hc h.1

def CommitsFrom (L : List LogEntry) (f' : Process) : Prop :=
  (∀ (i : Int) (e : LogEntry), .commitLogEntry i (some e) ∈ f'.out → L[i.toNat]? = some e) ∧
    AgreeUpTo f'.commitIndex f'.logEntries L

/-- A follower that agrees with the leader up to its commit index commits only what the leader has exactly
when its own entry at `leader_commit` has the term of the leader's. -/
theorem commitsFrom_iff (hm : Matching f.logEntries L) (ha : AgreeUpTo f.commitIndex f.logEntries L)
    (hq : RequestFrom L p k q) (hl : q.leaderCommit < L.length) (ht : f.curTerm ≤ q.term) (hout : f.out = [])
    (now : Int) :
    CommitsFrom L (f.appendEntriesRequest now q) ↔
      (MovesCommit f q → (entryAt f.logEntries q.leaderCommit).term = (entryAt L q.leaderCommit).term) := by
  have hlog : ∀ i, AgreeUpTo i f.logEntries L → AgreeUpTo i (f.appendEntriesRequest now q).logEntries L := by
    intro i hi
    rw [handled_log hm hq]
    split
    · exact hi.overwrite hq.inside
    · exact hi
  obtain ⟨hstay, hmove⟩ := handled_commitIndex (q := q) ht now
  unfold CommitsFrom
  simp only [handled_applied ht hout]
  by_cases hc : MovesCommit f q
  · rw [hmove hc]
    simp only [hc, true_and, true_imp_iff]
    obtain ⟨hs, hlt, hlen⟩ := hc
    constructor
    · rintro ⟨happ, -⟩
      by_cases hpos : 0 < q.leaderCommit
      · have hget := get_of_lt (show q.leaderCommit.toNat < f.logEntries.length by omega)
        have hsame := entryAt_of_get (happ q.leaderCommit _ ⟨hlt, le_refl _, hpos, hget⟩)
        rw [Int.toNat_of_nonneg hpos.le] at hsame
        rw [hsame]
      · -- the entry at `0` is never applied, but the request has verified it
        have hp := (hq.inSync hm).mp hs
        have hagree : AgreeUpTo q.leaderCommit f.logEntries L := agreeUpTo_of_lt_common (by omega)
        rw [hagree.entryAt_eq]
    · intro hterm
      have hagree := agreeUpTo_of_term hm hlen hl hterm
      refine ⟨?_, hlog _ hagree⟩
      rintro i e ⟨-, hle, hpos, hget⟩
      rw [← hagree i.toNat (by omega)]
      exact hget
  · rw [hstay hc]
    exact iff_of_true ⟨fun i e h => absurd h.1 hc, hlog _ ha⟩ fun h => absurd h hc

end

instance (f : Process) (q : AppendEntriesRequest) : Decidable (MovesCommit f q) :=
  inferInstanceAs (Decidable (_ ∧ _))

def committedEntry : LogEntry := ⟨1, 1, 7, LogEntry.ADD, toBytes "a"⟩

def longerFollower (e : LogEntry) : Process :=
  { Process.construct 0 1 3 [] ⟨0, 0⟩ [] 0 with logEntries := [LogEntry.dummy, committedEntry, e] }

def replacingLeader : List LogEntry := [LogEntry.dummy, committedEntry, ⟨2, 2, 9, LogEntry.ADD, toBytes "c"⟩]

def committingRequest : AppendEntriesRequest := ⟨2, 0, 1, 1, [⟨2, 2, 9, LogEntry.ADD, toBytes "c"⟩], 2⟩

theorem commitsFrom_iff_same : CommitsFrom replacingLeader
    ((longerFollower ⟨2, 2, 9, LogEntry.ADD, toBytes "c"⟩).appendEntriesRequest 5 committingRequest) := by
  refine (commitsFrom_iff (p := 1) (k := 1) (by decide +kernel) ?_ (by decide +kernel) (by decide)
    (by decide +kernel)
    (by decide +kernel) 5).mpr (by decide +kernel)
  exact agreeUpTo_iff_take.mpr (by decide +kernel)

/-- The follower applies the entry of term 1 at index 2, which the same request then removes from its log. -/
theorem not_commitsFrom_diverging : ∃ f : Process, Matching f.logEntries replacingLeader ∧
    AgreeUpTo f.commitIndex f.logEntries replacingLeader ∧ RequestFrom replacingLeader 1 1 committingRequest ∧
    f.curTerm ≤ committingRequest.term ∧ f.out = [] ∧
    ¬ CommitsFrom replacingLeader (f.appendEntriesRequest 5 committingRequest) := by
  refine ⟨longerFollower ⟨2, 1, 8, LogEntry.ADD, toBytes "b"⟩, by decide +kernel,
    agreeUpTo_iff_take.mpr (by decide +kernel), by decide +kernel, by decide +kernel, rfl, fun h => ?_⟩
  have happ := h.1 2 ⟨2, 1, 8, LogEntry.ADD, toBytes "b"⟩ (by decide +kernel)
  exact absurd happ (by decide)

end FlowMQ
