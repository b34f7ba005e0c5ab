import FlowMQ.AppendOrder
import FlowMQ.Window

/-!
# Log repair

A leader and a follower alone, with one request and its reply at a time. Seen
from the follower's log and `next_index_`, a round is a step of `TermLog.repair`:
a success puts `next_index_` behind the follower's whole log, a failure takes it
back by one, and the first entry that is missing is appended when it is reached.
-/

namespace FlowMQ

open Std (ExtTreeMap)
open TermLog (common overwrite repair)

theorem Indexed.overwrite {log L : List LogEntry} (h : Indexed log) (hL : Indexed L) (n : Nat) :
    Indexed (overwrite L log (n + 1)) := by
  unfold TermLog.overwrite
  split
  · exact h
  · exact hL.take (Nat.succ_pos n)

theorem Indexed.common_pos {log L : List LogEntry} (h : Indexed log) (hL : Indexed L) (hm : Matching log L) :
    0 < common log L :=
  hm.lt_common h.head hL.head rfl

/-! ## The exchange -/

def appendReply (out : List Effect) : Option AppendEntriesResponse :=
  (sends out).findSome? fun
    | .writeMessage _ (.appendEntriesResponse resp) => some resp
    | _ => none

def appendRequestTo (followerId : Int) (out : List Effect) : Option AppendEntriesRequest :=
  (sends out).findSome? fun
    | .writeMessage dst (.appendEntriesRequest req) => if dst = followerId then some req else none
    | .broadCast (.appendEntriesRequest req) => some req
    | _ => none

def Process.sendsNext (followerId : Int) (p : Process) : Option (Process × AppendEntriesRequest) :=
  match appendRequestTo followerId p.out with
  | some req => some (p, req)
  | none => (appendRequestTo followerId p.heartbeatTimer.out).map fun req => (p.heartbeatTimer, req)

structure Exchange where
  leader : Process
  follower : Process
  request : AppendEntriesRequest

namespace Exchange

def start (leader follower : Process) : Option Exchange := do
  let (leader, request) ← ({ leader with out := [] }.triggerEntryUpdate follower.nodeId).sendsNext follower.nodeId
  some ⟨leader, follower, request⟩

def round (now : Int) (s : Exchange) : Option Exchange := do
  let follower := { s.follower with out := [] }.appendEntriesRequest now s.request
  let resp ← appendReply follower.out
  let (leader, request) ← ({ s.leader with out := [] }.appendEntriesResponse resp).sendsNext follower.nodeId
  some ⟨leader, follower, request⟩

def rounds (now : Nat → Int) : Nat → Exchange → Option Exchange
  | 0, s => some s
  | n + 1, s => (rounds now n s).bind (round (now n))

end Exchange

/-! ## What the leader sends -/

structure Ready (L : List LogEntry) (f t : Int) (n : Nat) (p : Process) : Prop where
  log : p.logEntries = L
  state : p.state = .leader
  term : p.curTerm = t
  next : p.nextIndex.getD f 0 = n
  window : p.pendingAppendReqs.getD f 0 < MAX_PENDING_APPEND
  quiet : sends p.out = []

structure Waits (L : List LogEntry) (f t : Int) (n : Nat) (p : Process) (q : AppendEntriesRequest) :
    Prop where
  log : p.logEntries = L
  state : p.state = .leader
  term : p.curTerm = t
  next : p.nextIndex.getD f 0 = n
  window : p.pendingAppendReqs.getD f 0 ≤ MAX_PENDING_APPEND
  sameTerm : q.term = t
  entry : n < L.length → RequestFrom L (n - 1) 1 q
  heartbeat : L.length ≤ n → RequestFrom L (L.length - 1) 0 q

theorem requestFrom_entryRequest {r : RaftState} {n : Nat} (h₁ : 1 ≤ n) (h₂ : n < r.logEntries.length) :
    RequestFrom r.logEntries (n - 1) 1 (r.entryRequest n) := by
  have hprev : (n : Int) - 1 = ((n - 1 : Nat) : Int) := by omega
  refine ⟨by omega, hprev, ?_, ?_⟩
  · rw [RaftState.entryRequest, hprev]
  · have hdrop : r.logEntries.drop n = entryAt r.logEntries n :: r.logEntries.drop (n + 1) := by
      rw [List.drop_eq_getElem_cons h₂, entryAt_of_get (List.getElem?_eq_getElem h₂)]
    rw [show n - 1 + 1 = n by omega, hdrop]
    rfl

theorem requestFrom_heartbeat {r : RaftState} (h : Indexed r.logEntries) :
    RequestFrom r.logEntries (r.logEntries.length - 1) 0 r.heartbeat := by
  have hpos := h.pos
  have hprev : (backEntry r.logEntries).index = ((r.logEntries.length - 1 : Nat) : Int) := by
    rw [h.back_index]
    omega
  refine ⟨by omega, hprev, ?_, by rw [List.take_zero]; rfl⟩
  rw [entryAt_of_get h.back]
  rfl

namespace Process

theorem heartbeatTimer_leader {p : Process} (h : p.state = .leader) :
    ∃ pending : IndexMap, p.heartbeatTimer =
        { p.emit (.broadCast (.appendEntriesRequest p.toRaftState.heartbeat)) with
          pendingAppendReqs := pending } ∧
      ∀ f, pending.getD f 0 ≤ p.pendingAppendReqs.getD f 0 + 1 := by
  refine ⟨_, if_pos h, fun f => ?_⟩
  rw [getD_foldl_insert f _ _ (List.nodup_range.filter _)]
  split <;> omega

theorem sendsNext_ready {L : List LogEntry} {f t : Int} {n : Nat} {p : Process} (hp : Ready L f t n p)
    (hL : Indexed L) (hn : 1 ≤ n) :
    ∃ p' q, (p.triggerEntryUpdate f).sendsNext f = some (p', q) ∧ Waits L f t n p' q := by
  obtain ⟨hlog, hstate, hterm, hnext, hwindow, hquiet⟩ := hp
  have hcarry : (p.nextIndex.insertIfNew f 0).getD f 0 = n := by rw [Maps.getD_insertIfNew_default, hnext]
  subst hlog
  by_cases hlt : n < p.logEntries.length
  · have htrigger : p.triggerEntryUpdate f =
        { p with
          nextIndex := p.nextIndex.insertIfNew f 0
          pendingAppendReqs :=
            p.pendingAppendReqs.insert f (p.pendingAppendReqs.getD f 0 + 1) : Process }.emit
          (.writeMessage f (.appendEntriesRequest (p.toRaftState.entryRequest n))) := by
      simp only [triggerEntryUpdate, hcarry]
      rw [if_pos ⟨by omega, by omega⟩, if_pos hwindow]
      rfl
    refine ⟨p.triggerEntryUpdate f, p.toRaftState.entryRequest n, ?_, ?_⟩
    · have hsent : appendRequestTo f (p.triggerEntryUpdate f).out = some (p.toRaftState.entryRequest n) := by
        rw [htrigger]
        simp [appendRequestTo, hquiet]
      rw [sendsNext, hsent]
    · rw [htrigger]
      refine ⟨rfl, hstate, hterm, hcarry, ?_, hterm, fun _ => requestFrom_entryRequest hn hlt, fun h => ?_⟩
      · simp only [emit_raft, ExtTreeMap.getD_insert_self]
        omega
      · omega
  · have htrigger : p.triggerEntryUpdate f = { p with nextIndex := p.nextIndex.insertIfNew f 0 } := by
      simp only [triggerEntryUpdate, hcarry]
      rw [if_neg (by omega)]
    have hnone : appendRequestTo f (p.triggerEntryUpdate f).out = none := by
      rw [htrigger]
      simp [appendRequestTo, hquiet]
    obtain ⟨pending, hbeat, hpending⟩ :=
      heartbeatTimer_leader (p := p.triggerEntryUpdate f) (by rw [htrigger]; exact hstate)
    refine ⟨(p.triggerEntryUpdate f).heartbeatTimer, p.toRaftState.heartbeat, ?_, ?_⟩
    · have hsent : appendRequestTo f (p.triggerEntryUpdate f).heartbeatTimer.out =
          some p.toRaftState.heartbeat := by
        rw [hbeat, htrigger]
        simp [appendRequestTo, hquiet]
        rfl
      rw [sendsNext, hnone, hsent]
      rfl
    · have hle : pending.getD f 0 ≤ p.pendingAppendReqs.getD f 0 + 1 := by
        have hle := hpending f
        rwa [htrigger] at hle
      rw [hbeat, htrigger]
      refine ⟨rfl, hstate, hterm, hcarry, ?_, hterm, fun h => absurd h hlt, fun _ => requestFrom_heartbeat hL⟩
      exact hle.trans hwindow

theorem appendEntriesResponse_ready {L : List LogEntry} {f t : Int} {n : Nat} {p : Process}
    {q : AppendEntriesRequest} (hp : Waits L f t n p q) (hout : p.out = []) {resp : AppendEntriesResponse}
    (hf : resp.followerId = f) (ht : resp.term = t) {n' : Nat}
    (hn : (n' : Int) = if resp.appendResultSuccess ≠ 0 then resp.lastIndexSynced + 1 else max 1 ((n : Int) - 1)) :
    ∃ p', p.appendEntriesResponse resp = p'.triggerEntryUpdate f ∧ Ready L f t n' p' := by
  obtain ⟨hlog, hstate, hterm, hnext, hwindow, -, -, -⟩ := hp
  subst hf
  have hlower : max 0 (p.pendingAppendReqs.getD resp.followerId 0 - 1) < MAX_PENDING_APPEND := by
    unfold MAX_PENDING_APPEND at hwindow ⊢
    omega
  unfold appendEntriesResponse
  by_cases hs : resp.appendResultSuccess ≠ 0
  · rw [if_pos hs] at hn
    let p₁ : Process := { p with
      pendingAppendReqs := p.pendingAppendReqs.insert resp.followerId
        (max 0 (p.pendingAppendReqs.getD resp.followerId 0 - 1))
      matchedIndex := p.matchedIndex.insert resp.followerId resp.lastIndexSynced }
    obtain ⟨c, -, hraft, hsends⟩ := commitOnMajority_spec p₁ hout resp hs p.toRaftState rfl
    simp only [if_pos hs]
    refine ⟨_, rfl, ?_⟩
    constructor
    · exact (congrArg RaftState.logEntries hraft).trans hlog
    · exact (congrArg RaftState.state hraft).trans hstate
    · exact (congrArg RaftState.curTerm hraft).trans hterm
    · have hmatched := congrArg RaftState.matchedIndex hraft
      simp only [ExtTreeMap.getD_insert_self]
      rw [hn, hmatched]
      simp [p₁]
    · have hpending := congrArg RaftState.pendingAppendReqs hraft
      simp only
      rw [hpending]
      simpa [p₁] using hlower
    · exact hsends
  · rw [if_neg hs] at hn
    simp only [if_neg hs]
    rw [if_neg (by omega)]
    refine ⟨_, rfl, hlog, hstate, hterm, ?_, ?_, ?_⟩
    · simp only [ExtTreeMap.getD_insert_self]
      rw [hn, hnext]
    · simpa using hlower
    · simp [hout]

end Process

/-! ## What the follower answers -/

theorem appendReply_handled {L : List LogEntry} {f : Process} (hm : Matching f.logEntries L) {p k : Nat}
    {q : AppendEntriesRequest} (hq : RequestFrom L p k q) (ht : q.term = f.curTerm) (hout : f.out = [])
    (now : Int) :
    appendReply (f.appendEntriesRequest now q).out = some
      (if p < common f.logEntries L then
        ⟨q.term, f.nodeId, 1, (backEntry (f.appendEntriesRequest now q).logEntries).index⟩
      else ⟨q.term, f.nodeId, 0, -1⟩) := by
  have hsync := hq.inSync hm
  have hdoes := Process.does_appendEntriesRequest f hout now q
  unfold Process.Does at hdoes
  unfold appendReply
  generalize (f.appendEntriesRequest now q).toRaftState = r' at hdoes ⊢
  generalize sends (f.appendEntriesRequest now q).out = l at hdoes ⊢
  cases hdoes with
  | idle h => cases h
  | staleAppend _ h => omega
  | refuseAppend _ _ h hs =>
    rw [if_neg (by rw [← hsync, hs]; decide)]
    rfl
  | acceptAppend _ _ h hs =>
    rw [if_pos (hsync.mp hs)]
    rfl
  | clientAppend _ _ _ _ _ _ _ _ h => cases h

structure Follows (L : List LogEntry) (f t : Int) (F : List LogEntry) (p : Process) : Prop where
  id : p.nodeId = f
  term : p.curTerm = t
  log : p.logEntries = F
  indexed : Indexed F
  matching : Matching F L

theorem Follows.handle {L F : List LogEntry} (hL : Indexed L) {f t : Int} {p : Process} (h : Follows L f t F p)
    {i k : Nat} {q : AppendEntriesRequest} (hq : RequestFrom L i k q) (ht : q.term = t) (hout : p.out = [])
    (now : Int) :
    Follows L f t (if i < common F L then overwrite L F (i + k + 1) else F)
    (p.appendEntriesRequest now q) := by
  obtain ⟨hid, hterm, rfl, hindexed, hmatching⟩ := h
  refine ⟨?_, ?_, ?_, ?_, ?_⟩
  · exact (Process.does_appendEntriesRequest p hout now q).ids.1.trans hid
  · rw [Process.appendEntriesRequest_curTerm, hterm, ht, max_self]
  · rw [handled_log hmatching hq]
    exact if_congr (and_iff_right (by omega)) rfl rfl
  · split
    · exact hindexed.overwrite hL _
    · exact hindexed
  · split
    · exact hmatching.overwrite _
    · exact hmatching

/-! ## A round is a step of the repair -/

structure Simulates (L : List LogEntry) (f t : Int) (a : List LogEntry × Nat) (s : Exchange) : Prop where
  leader : Waits L f t a.2 s.leader s.request
  follower : Follows L f t a.1 s.follower
  next : 1 ≤ a.2

theorem Waits.repair {L F : List LogEntry} {f t : Int} {n : Nat} {p : Process} {q : AppendEntriesRequest}
    (h : Waits L f t n p q) (hc : 0 < common F L) (hn : 1 ≤ n) :
    ∃ i k, i < n ∧ RequestFrom L i k q ∧ repair L (F, n) =
      if i < common F L then (overwrite L F (i + k + 1), (overwrite L F (i + k + 1)).length) else (F, n - 1) := by
  have hle := TermLog.common_le_right (F := F) (L := L)
  unfold TermLog.repair
  by_cases hlt : n < L.length
  · refine ⟨n - 1, 1, by omega, h.entry hlt, ?_⟩
    have hi : n - 1 < common F L ↔ n ≤ common F L := by omega
    rw [if_pos hlt, show n - 1 + 1 + 1 = n + 1 by omega]
    simp only [hi]
  · refine ⟨L.length - 1, 0, by omega, h.heartbeat (by omega), ?_⟩
    have hi : L.length - 1 < common F L ↔ L.length ≤ common F L := by omega
    rw [if_neg hlt, show L.length - 1 + 0 + 1 = L.length by omega]
    simp only [hi]
    split
    · rename_i hall
      have hsame : overwrite L F L.length = F := if_pos hall
      rw [hsame]
    · rfl

theorem round_of_reply {L F' : List LogEntry} (hL : Indexed L) {f t : Int} {n n' : Nat}
    {s : Exchange} {now : Int} (hw : Waits L f t n s.leader s.request)
    (hf : Follows L f t F' ({ s.follower with out := [] }.appendEntriesRequest now s.request))
    {resp : AppendEntriesResponse}
    (hr : appendReply ({ s.follower with out := [] }.appendEntriesRequest now s.request).out = some resp)
    (hid : resp.followerId = f) (ht : resp.term = t) (hn' : 1 ≤ n')
    (hn : (n' : Int) = if resp.appendResultSuccess ≠ 0 then resp.lastIndexSynced + 1 else max 1 ((n : Int) - 1)) :
    ∃ s', s.round now = some s' ∧ Simulates L f t (F', n') s' := by
  have hw' : Waits L f t n { s.leader with out := [] } s.request :=
    ⟨hw.log, hw.state, hw.term, hw.next, hw.window, hw.sameTerm, hw.entry, hw.heartbeat⟩
  obtain ⟨p, hp, hready⟩ := Process.appendEntriesResponse_ready hw' rfl hid ht hn
  obtain ⟨p', q', hsends, hwaits⟩ := Process.sendsNext_ready hready hL hn'
  refine ⟨⟨p', { s.follower with out := [] }.appendEntriesRequest now s.request, q'⟩, ?_, hwaits, hf, hn'⟩
  simp only [Exchange.round, hr, Option.bind_eq_bind, Option.bind_some, hp, hf.id, hsends]

theorem round_simulates {L : List LogEntry} (hL : Indexed L) {f t : Int} {a : List LogEntry × Nat} {s : Exchange}
    (h : Simulates L f t a s) (now : Int) :
    ∃ s', s.round now = some s' ∧ Simulates L f t (repair L a) s' := by
  obtain ⟨F, n⟩ := a
  obtain ⟨hwaits, hfollows, hn⟩ := h
  dsimp only at hwaits hfollows hn
  have hc := hfollows.indexed.common_pos hL hfollows.matching
  obtain ⟨i, k, hi, hq, hrepair⟩ := hwaits.repair hc hn
  have hfollows' : Follows L f t F { s.follower with out := [] } := ⟨hfollows.id, hfollows.term, hfollows.log,
    hfollows.indexed, hfollows.matching⟩
  have hhandled := hfollows'.handle hL hq hwaits.sameTerm rfl now
  have hm : Matching { s.follower with out := [] : Process }.logEntries L := by
    rw [hfollows'.log]
    exact hfollows.matching
  have hreply := appendReply_handled hm hq (hwaits.sameTerm.trans hfollows'.term.symm) rfl now
  rw [hfollows'.log, hhandled.log, hwaits.sameTerm, hfollows'.id] at hreply
  rw [hrepair]
  by_cases hlt : i < common F L
  · rw [if_pos hlt] at hhandled ⊢
    rw [if_pos hlt, if_pos hlt] at hreply
    have hlen := hhandled.indexed.pos
    refine round_of_reply hL hwaits hhandled hreply rfl rfl hlen ?_
    simp only [ne_eq, one_ne_zero, not_false_eq_true, if_true, hhandled.indexed.back_index]
    omega
  · rw [if_neg hlt] at hhandled ⊢
    rw [if_neg hlt] at hreply
    refine round_of_reply hL hwaits hhandled hreply rfl rfl (by omega) ?_
    simp only [ne_eq, not_true_eq_false, if_false]
    omega

theorem start_simulates {leader follower : Process} (hl : leader.state = .leader)
    (ht : leader.curTerm = follower.curTerm) (hL : Indexed leader.logEntries)
    (hF : Indexed follower.logEntries) (hm : Matching follower.logEntries leader.logEntries) {n : Nat}
    (hn : leader.nextIndex.getD follower.nodeId 0 = n) (hpos : 1 ≤ n)
    (hw : leader.pendingAppendReqs.getD follower.nodeId 0 < MAX_PENDING_APPEND) :
    ∃ s, Exchange.start leader follower = some s ∧
      Simulates leader.logEntries follower.nodeId follower.curTerm (follower.logEntries, n) s := by
  have hready : Ready leader.logEntries follower.nodeId follower.curTerm n { leader with out := [] } :=
    ⟨rfl, hl, ht, hn, hw, rfl⟩
  obtain ⟨p, q, hsends, hwaits⟩ := Process.sendsNext_ready hready hL hpos
  refine ⟨⟨p, follower, q⟩, ?_, hwaits, ⟨rfl, rfl, rfl, hF, hm⟩, hpos⟩
  simp only [Exchange.start, hsends, Option.bind_eq_bind, Option.bind_some]

theorem rounds_simulate {L : List LogEntry} (hL : Indexed L) {f t : Int} {a : List LogEntry × Nat} {s : Exchange}
    (h : Simulates L f t a s) (now : Nat → Int) (k : Nat) :
    ∃ s', s.rounds now k = some s' ∧ Simulates L f t ((repair L)^[k] a) s' := by
  induction k with
  | zero => exact ⟨s, rfl, h⟩
  | succ k ih =>
    obtain ⟨s₁, hs₁, h₁⟩ := ih
    obtain ⟨s₂, hs₂, h₂⟩ := round_simulates hL h₁ (now k)
    refine ⟨s₂, ?_, ?_⟩
    · rw [Exchange.rounds, hs₁]
      exact hs₂
    · rw [Function.iterate_succ_apply']
      exact h₂

/-- After finitely many rounds the follower has the leader's log, and `next_index_` stays behind its end. -/
theorem repair_terminates (leader follower : Process) (now : Nat → Int) (hl : leader.state = .leader)
    (ht : leader.curTerm = follower.curTerm) (hL : Indexed leader.logEntries)
    (hF : Indexed follower.logEntries) (hm : Matching follower.logEntries leader.logEntries)
    (hn : 1 ≤ leader.nextIndex.getD follower.nodeId 0)
    (hw : leader.pendingAppendReqs.getD follower.nodeId 0 < MAX_PENDING_APPEND) :
    ∃ N, ∀ k ≥ N, ∃ s, (Exchange.start leader follower).bind (Exchange.rounds now k) = some s ∧
      s.leader.logEntries = leader.logEntries ∧
      (∀ i < leader.logEntries.length, s.follower.logEntries[i]? = leader.logEntries[i]?) ∧
      (leader.logEntries.length : Int) ≤ s.leader.nextIndex.getD follower.nodeId 0 := by
  obtain ⟨n, hn'⟩ := Int.eq_ofNat_of_zero_le (show 0 ≤ leader.nextIndex.getD follower.nodeId 0 by omega)
  obtain ⟨s, hs, hsim⟩ := start_simulates hl ht hL hF hm hn' (by omega) hw
  refine ⟨TermLog.distance leader.logEntries (follower.logEntries, n), fun k hk => ?_⟩
  obtain ⟨s', hs', hsim'⟩ := rounds_simulate hL hsim now k
  obtain ⟨hcommon, hnext⟩ := TermLog.repaired_iterate _ k hk
  refine ⟨s', by rw [hs]; exact hs', hsim'.leader.log, fun i hi => ?_, ?_⟩
  · rw [hsim'.follower.log]
    exact TermLog.get_of_lt_common (hi.trans_le hcommon)
  · rw [hsim'.leader.next]
    exact_mod_cast hnext

def sharedEntry : LogEntry := ⟨1, 1, 7, LogEntry.ADD, toBytes "a"⟩

def newEntry : LogEntry := ⟨2, 2, 8, LogEntry.ADD, toBytes "b"⟩

def electedLeader : Process :=
  let p := Process.construct 0 0 3 [] ⟨0, 0⟩ [] 0
  { p with
    state := .leader, curTerm := 3, logEntries := [LogEntry.dummy, sharedEntry, newEntry]
    nextIndex := p.nextIndex.insert 1 1 }

def longerLog : Process :=
  { Process.construct 0 1 3 [] ⟨0, 0⟩ [] 0 with
    state := .follower, curTerm := 3
    logEntries := [LogEntry.dummy, sharedEntry, ⟨2, 1, 9, LogEntry.ADD, []⟩, ⟨3, 1, 10, LogEntry.ADD, []⟩] }

theorem repair_terminates_longerLog : ∃ N, ∀ k ≥ N, ∃ s,
    (Exchange.start electedLeader longerLog).bind (Exchange.rounds (fun k => k) k) = some s ∧
      s.follower.logEntries[2]? = some newEntry := by
  obtain ⟨N, hN⟩ :=
    repair_terminates electedLeader longerLog (fun k => k) rfl rfl (by decide +kernel) (by decide +kernel)
    (by decide +kernel) (by decide +kernel) (by decide +kernel)
  refine ⟨N, fun k hk => ?_⟩
  obtain ⟨s, hs, -, hlog, -⟩ := hN k hk
  exact ⟨s, hs, hlog 2 (by decide)⟩

end FlowMQ
