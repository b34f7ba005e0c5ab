import FlowMQ.LogOps
import FlowMQ.Lib.Runs
import FlowMQ.Lib.TermLog

/-!
# Appending in any order

A follower compares entries by term only, one by one, and cuts its log at the
first difference. Between logs that match this amounts to writing a prefix of
the leader's log: what the follower has of it stays, whatever the order in which
requests come, and however often.
-/

namespace FlowMQ

open TermLog (common overwrite)

abbrev Matching (F L : List LogEntry) : Prop := TermLog.Matching LogEntry.term F L

structure RequestFrom (L : List LogEntry) (p k : Nat) (q : AppendEntriesRequest) : Prop where
  inside : p + k < L.length
  prevIndex : q.prevLogIndex = p
  prevTerm : q.prevLogTerm = (entryAt L p).term
  entries : q.entries = (L.drop (p + 1)).take k

theorem RequestFrom.mono {L : List LogEntry} {p k : Nat} {q : AppendEntriesRequest} (h : RequestFrom L p k q)
    (entries : List LogEntry) : RequestFrom (L ++ entries) p k q := by
  have hin := h.inside
  refine ⟨by rw [List.length_append]; omega, h.prevIndex, ?_, ?_⟩
  · rw [h.prevTerm, entryAt_of_get (get_of_isPrefix (List.prefix_append L entries) (get_of_lt (by omega)))]
  · rw [h.entries, List.drop_append_of_le_length (by omega),
      List.take_append_of_le_length (by rw [List.length_drop]; omega)]

section
variable {F L : List LogEntry} {p k : Nat}

theorem appendLogAt_source (hm : Matching F L) (hp : p ≤ common F L) {e : LogEntry} (he : L[p]? = some e) :
    appendLogAt p e F = overwrite L F (p + 1) := by
  obtain ⟨hlt, rfl⟩ := List.getElem?_eq_some_iff.mp he
  have htake : F.take p ++ [L[p]] = L.take (p + 1) := by
    rw [(TermLog.le_common_iff.mp hp).2, ← List.take_succ_eq_append_getElem hlt]
  have hlen := TermLog.common_le_left (F := F) (L := L)
  unfold appendLogAt overwrite
  by_cases hend : F.length = p
  · rw [if_pos (by omega), if_neg (by omega), ← htake, List.take_of_length_le (by omega)]
  · rw [if_neg (by omega)]
    have hget := get_of_lt (show p < F.length by omega)
    by_cases ht : (entryAt F p).term = L[p].term
    · have hcommon : p < common F L := hm.lt_common hget he ht
      rw [if_pos ht, if_pos (by omega)]
    · have hcommon : ¬ p + 1 ≤ common F L := by
        intro h
        have hsame := TermLog.get_of_lt_common h
        rw [hget, he] at hsame
        exact ht (congrArg LogEntry.term (Option.some.inj hsame))
      rw [if_neg ht, if_neg hcommon, cleanLogEntriesOutOfSync, Int.toNat_natCast, htake]

theorem appendLog_source (hm : Matching F L) (hp : p < common F L) (hk : p + k < L.length) :
    appendLog p ((L.drop (p + 1)).take k) F = overwrite L F (p + k + 1) := by
  induction k generalizing p F with
  | zero =>
    rw [List.take_zero, appendLog, overwrite, if_pos (by omega)]
  | succ k ih =>
    have hlt : p + 1 < L.length := by omega
    have hstep := appendLogAt_source (p := p + 1) hm (by omega) (List.getElem?_eq_getElem hlt)
    have hcommon : p + 1 < common (overwrite L F (p + 1 + 1)) L := by
      rw [TermLog.common_overwrite (by omega)]
      omega
    rw [List.drop_eq_getElem_cons hlt, List.take_succ_cons, appendLog]
    push_cast at hstep
    rw [hstep]
    have hrest := ih (hm.overwrite (p + 1 + 1)) hcommon (by omega)
    push_cast at hrest
    rw [hrest, TermLog.overwrite_overwrite (by omega) (by omega)]
    congr 1
    omega

theorem inSync_source (hm : Matching F L) (hp : p < L.length) :
    checkIfPreviousLogInSync (entryAt L p).term p F = true ↔ p < common F L := by
  rw [inSync_iff]
  constructor
  · rintro ⟨e, he, ht⟩
    exact hm.lt_common he (get_of_lt hp) ht
  · intro h
    exact ⟨_, (TermLog.get_of_lt_common h).trans (get_of_lt hp), rfl⟩

end

theorem RequestFrom.inSync {F L : List LogEntry} {p k : Nat} {q : AppendEntriesRequest}
    (hq : RequestFrom L p k q) (hm : Matching F L) :
    checkIfPreviousLogInSync q.prevLogTerm q.prevLogIndex F = true ↔ p < common F L := by
  have hin := hq.inside
  rw [hq.prevIndex, hq.prevTerm]
  exact inSync_source hm (by omega)

theorem accepted_log {F L : List LogEntry} (hm : Matching F L) {p k : Nat} {q : AppendEntriesRequest}
    (hq : RequestFrom L p k q) (hs : checkIfPreviousLogInSync q.prevLogTerm q.prevLogIndex F = true) :
    appendLog q.prevLogIndex q.entries F = overwrite L F (p + k + 1) := by
  rw [hq.prevIndex, hq.entries]
  exact appendLog_source hm ((hq.inSync hm).mp hs) hq.inside

/-! ## The request handler -/

namespace Process

theorem appendEntriesRequest_raft (now : Int) (q : AppendEntriesRequest) (p : Process) :
    (p.appendEntriesRequest now q).toRaftState =
      if q.term < p.curTerm then { p.toRaftState with curLeader := -1 }
      else if checkIfPreviousLogInSync q.prevLogTerm q.prevLogIndex p.logEntries = true then
        { p.toRaftState.acceptLeader now q with
          commitIndex := p.toRaftState.commitAfter q
          logEntries := appendLog q.prevLogIndex q.entries p.logEntries }
      else p.toRaftState.acceptLeader now q := by
  unfold appendEntriesRequest
  split
  · rfl
  · have hlog : (p.acceptLeader now q).logEntries = p.logEntries := rfl
    simp only [hlog]
    cases hs : checkIfPreviousLogInSync q.prevLogTerm q.prevLogIndex p.logEntries with
    | false => rfl
    | true =>
      have hcommit := updateLeaderCommit_raft (p.acceptLeader now q) q
      have happend := appendLogEntries_raft q.entries q.prevLogIndex
        ((p.acceptLeader now q).updateLeaderCommit q.leaderCommit)
      rw [hcommit] at happend
      exact happend

theorem appendEntriesRequest_curTerm (now : Int) (q : AppendEntriesRequest) (p : Process) :
    (p.appendEntriesRequest now q).curTerm = max p.curTerm q.term := by
  rw [appendEntriesRequest_raft]
  split
  · rename_i h
    exact (max_eq_left h.le).symm
  · rename_i h
    split <;> exact (max_eq_right (not_lt.mp h)).symm

end Process

section
variable {L : List LogEntry} {f : Process} {p k : Nat} {q : AppendEntriesRequest}

theorem handled_log (hm : Matching f.logEntries L) (hq : RequestFrom L p k q) (now : Int) :
    (f.appendEntriesRequest now q).logEntries =
      if f.curTerm ≤ q.term ∧ p < common f.logEntries L then overwrite L f.logEntries (p + k + 1)
      else f.logEntries := by
  rw [Process.appendEntriesRequest_raft]
  by_cases ht : q.term < f.curTerm
  · rw [if_pos ht, if_neg (by omega)]
  · rw [if_neg ht]
    by_cases hs : checkIfPreviousLogInSync q.prevLogTerm q.prevLogIndex f.logEntries = true
    · rw [if_pos hs, if_pos ⟨by omega, (hq.inSync hm).mp hs⟩]
      exact accepted_log hm hq hs
    · rw [if_neg hs, if_neg fun h => hs ((hq.inSync hm).mpr h.2)]
      rfl

variable (hm : Matching f.logEntries L) (hq : RequestFrom L p k q)
include hm hq

theorem handled_matching (now : Int) : Matching (f.appendEntriesRequest now q).logEntries L := by
  rw [handled_log hm hq]
  split
  · exact hm.overwrite _
  · exact hm

theorem handled_common (now : Int) :
    common f.logEntries L ≤ common (f.appendEntriesRequest now q).logEntries L := by
  have hin := hq.inside
  rw [handled_log hm hq]
  split
  · rw [TermLog.common_overwrite hin]
    exact le_max_left _ _
  · exact le_refl _

theorem handled_twice (now now' : Int) :
    ((f.appendEntriesRequest now q).appendEntriesRequest now' q).logEntries =
      (f.appendEntriesRequest now q).logEntries := by
  have hin := hq.inside
  rw [handled_log (handled_matching hm hq now) hq, Process.appendEntriesRequest_curTerm, handled_log hm hq]
  by_cases h : f.curTerm ≤ q.term ∧ p < common f.logEntries L
  · simp only [if_pos h]
    rw [TermLog.overwrite_overwrite (le_refl _) hin]
    split <;> rfl
  · simp only [if_neg h]
    rw [if_neg]
    rintro ⟨ht, hp⟩
    exact h ⟨(le_max_left _ _).trans ht, hp⟩

end

/-! ## Requests that come in any order -/

structure Appending where
  leaderLog : List LogEntry
  follower : Process
  sent : List AppendEntriesRequest

inductive AppendEvent where
  | grow (entries : List LogEntry)
  | send (p k : Nat) (q : AppendEntriesRequest)
  | handle (now : Int) (q : AppendEntriesRequest)
  deriving Inhabited

instance (L : List LogEntry) (p k : Nat) (q : AppendEntriesRequest) : Decidable (RequestFrom L p k q) :=
  decidable_of_iff (p + k < L.length ∧ q.prevLogIndex = p ∧ q.prevLogTerm = (entryAt L p).term ∧
    q.entries = (L.drop (p + 1)).take k)
    ⟨fun ⟨h₁, h₂, h₃, h₄⟩ => ⟨h₁, h₂, h₃, h₄⟩, fun ⟨h₁, h₂, h₃, h₄⟩ => ⟨h₁, h₂, h₃, h₄⟩⟩

namespace Appending

/-- A request that was sent may come at any later time, and again. -/
def next (s : Appending) : AppendEvent → Option Appending
  | .grow entries => some { s with leaderLog := s.leaderLog ++ entries }
  | .send p k q => if RequestFrom s.leaderLog p k q then some { s with sent := q :: s.sent } else none
  | .handle now q =>
    if q ∈ s.sent then some { s with follower := s.follower.appendEntriesRequest now q } else none

def KeepsMatching (s : Appending) : AppendEvent → Prop
  | .grow entries => Matching s.follower.logEntries (s.leaderLog ++ entries)
  | _ => True

structure Inv (s : Appending) : Prop where
  matching : Matching s.follower.logEntries s.leaderLog
  sent : ∀ q ∈ s.sent, ∃ p k, RequestFrom s.leaderLog p k q

theorem Inv.next {s s' : Appending} {e : AppendEvent} (h : Inv s) (hn : s.next e = some s')
    (hk : s.KeepsMatching e) :
    Inv s' ∧ common s.follower.logEntries s.leaderLog ≤ common s'.follower.logEntries s'.leaderLog := by
  cases e with
  | grow entries =>
    cases hn
    refine ⟨⟨hk, fun q hq => ?_⟩, TermLog.common_mono (List.prefix_append _ _)⟩
    obtain ⟨p, k, hfrom⟩ := h.sent q hq
    exact ⟨p, k, hfrom.mono entries⟩
  | send p k q =>
    simp only [Appending.next] at hn
    split at hn
    · rename_i hfrom
      cases hn
      refine ⟨⟨h.matching, fun q' hq' => ?_⟩, le_refl _⟩
      rcases List.mem_cons.mp hq' with rfl | hq'
      · exact ⟨p, k, hfrom⟩
      · exact h.sent q' hq'
    · cases hn
  | handle now q =>
    simp only [Appending.next] at hn
    split at hn
    · rename_i hq
      cases hn
      obtain ⟨p, k, hfrom⟩ := h.sent q hq
      exact ⟨⟨handled_matching h.matching hfrom now, h.sent⟩, handled_common h.matching hfrom now⟩
    · cases hn

theorem inv_run {s₀ : Appending} (h₀ : Inv s₀) (r : Runs.Run (· = s₀) next) (hr : r.Always KeepsMatching) :
    ∀ k ≤ r.length, Inv (r.states k) := by
  have hfirst : Inv (r.states 0) := by
    rw [r.starts]
    exact h₀
  exact r.induct hfirst fun k hk ih => (ih.next (r.steps k hk) (hr k hk)).1

end Appending

/-- An accepted request brings the follower's log to the leader's up to the last entry it carries and cuts
it only behind what both have. So no order of requests loses common entries, and a repeated request
changes nothing. -/
theorem appending_any_order (L : List LogEntry) (f : Process) (hm : Matching f.logEntries L) :
    (∀ p k : Nat, p + k < L.length → checkIfPreviousLogInSync (entryAt L p).term p f.logEntries = true →
      ((f.appendLogEntries p ((L.drop (p + 1)).take k)).logEntries.take (p + k + 1) = L.take (p + k + 1) ∧
        Matching (f.appendLogEntries p ((L.drop (p + 1)).take k)).logEntries L ∧
        f.logEntries.take (common f.logEntries L) <+:
          (f.appendLogEntries p ((L.drop (p + 1)).take k)).logEntries)) ∧
    (∀ r : Runs.Run (· = (⟨L, f, []⟩ : Appending)) Appending.next, r.Always Appending.KeepsMatching →
      (∀ i j : Nat, i ≤ j → j ≤ r.length →
        common (r.states i).follower.logEntries (r.states i).leaderLog ≤
          common (r.states j).follower.logEntries (r.states j).leaderLog) ∧
      (∀ i ≤ r.length, ∀ q ∈ (r.states i).sent, ∀ now now' : Int,
        (((r.states i).follower.appendEntriesRequest now q).appendEntriesRequest now' q).logEntries =
          ((r.states i).follower.appendEntriesRequest now q).logEntries)) := by
  constructor
  · intro p k hk hs
    have hp : p < common f.logEntries L := (inSync_source hm (by omega)).mp hs
    have hlog : (f.appendLogEntries p ((L.drop (p + 1)).take k)).logEntries =
        overwrite L f.logEntries (p + k + 1) := by
      rw [Process.appendLogEntries_raft]
      exact appendLog_source hm hp hk
    rw [hlog]
    exact ⟨TermLog.take_overwrite hk, hm.overwrite _, TermLog.take_common_isPrefix_overwrite⟩
  · intro r hr
    have hinv := Appending.inv_run ⟨hm, fun q hq => by cases hq⟩ r hr
    constructor
    · intro i j hij hj
      refine r.stable (P := fun j => common (r.states i).follower.logEntries (r.states i).leaderLog ≤
        common (r.states j).follower.logEntries (r.states j).leaderLog) ?_ hij hj (le_refl _)
      intro k hk hle
      exact hle.trans ((hinv k hk.le).next (r.steps k hk) (hr k hk)).2
    · intro i hi q hq now now'
      obtain ⟨p, k, hfrom⟩ := (hinv i hi).sent q hq
      exact handled_twice (hinv i hi).matching hfrom now now'

instance (s : Appending) : (e : AppendEvent) → Decidable (s.KeepsMatching e)
  | .grow _ => inferInstanceAs (Decidable (Matching _ _))
  | .send .. => inferInstanceAs (Decidable True)
  | .handle .. => inferInstanceAs (Decidable True)

namespace Appending

def leaderEntry (i : Int) : LogEntry := ⟨i, 2, i, LogEntry.ADD, toBytes "b"⟩

def divergedStart : Appending :=
  { leaderLog := [LogEntry.dummy, leaderEntry 1, leaderEntry 2]
    follower := Process.construct 0 1 3 [] ⟨0, 0⟩ [⟨1, 1, 7, LogEntry.ADD, toBytes "a"⟩] 0
    sent := [] }

def requestOf (p : Int) (t : Int) (e : LogEntry) : AppendEntriesRequest := ⟨2, 0, p, t, [e], 0⟩

def overtaking : List AppendEvent :=
  [.send 0 1 (requestOf 0 0 (leaderEntry 1)), .send 1 1 (requestOf 1 2 (leaderEntry 2)),
    .handle 0 (requestOf 1 2 (leaderEntry 2)), .handle 1 (requestOf 0 0 (leaderEntry 1)), .grow [leaderEntry 3],
    .handle 2 (requestOf 1 2 (leaderEntry 2)), .handle 3 (requestOf 0 0 (leaderEntry 1))]

theorem overtaking_happens :
    (Runs.exec (Runs.guarded KeepsMatching next) divergedStart overtaking).isSome := by
  decide +kernel

end Appending

theorem appending_any_order_overtaking :
    ∃ r : Runs.Run (· = Appending.divergedStart) Appending.next, r.length = 7 ∧
      common (r.states 4).follower.logEntries (r.states 4).leaderLog ≤
        common (r.states 7).follower.logEntries (r.states 7).leaderLog := by
  refine ⟨.ofEvents Appending.divergedStart rfl Appending.overtaking
    (Runs.isSome_of_guarded Appending.overtaking_happens), rfl, ?_⟩
  exact ((appending_any_order _ _ (by decide +kernel)).2 _
    (Runs.Run.ofEvents_always Appending.overtaking_happens)).1
    4 7 (by decide) (by decide)

end FlowMQ
