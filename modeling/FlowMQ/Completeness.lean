import FlowMQ.MatchSound

/-!
# Leader completeness

Votes are granted without comparing logs. In runs where a voter only votes for
candidates whose log is at least as up to date as its own, an entry that a
majority may still come to hold in its term is in the log of every later winner.
-/

namespace FlowMQ

open TermLog (IsMajority)

/-- A vote is granted only to a candidate whose last entry is at least as recent as the voter's. -/
def UpToDate (r : RaftState) (q : RequestVoteRequest) : Prop :=
  r.votable q → r.state ≠ .leader → (backEntry r.logEntries).term < q.lastLogTerm ∨
    ((backEntry r.logEntries).term = q.lastLogTerm ∧ (backEntry r.logEntries).index ≤ q.lastLogIndex)

def CommitsOwnTerm (r : RaftState) (q : AppendEntriesResponse) : Prop :=
  r.state = .leader → r.commits q → (entryAt r.logEntries q.lastIndexSynced).term = r.curTerm

instance (r : RaftState) (q : RequestVoteRequest) : Decidable (UpToDate r q) :=
  inferInstanceAs (Decidable (_ → _))

instance (r : RaftState) (q : AppendEntriesResponse) : Decidable (CommitsOwnTerm r q) :=
  inferInstanceAs (Decidable (_ → _))

def SafeElections (r : RaftState) (m : RaftMessage) : Prop :=
  SoundReplies r m ∧ onVoteRequest UpToDate r m ∧ onAppendResponse CommitsOwnTerm r m

instance (r : RaftState) (m : RaftMessage) : Decidable (SafeElections r m) :=
  inferInstanceAs (Decidable (_ ∧ _))

theorem Trans.candidate {r r' : RaftState} {msg : Option RaftMessage} {l : List Effect} (h : Trans r msg r' l)
    (hs : r'.state = .candidate) (ht : r'.curTerm = r.curTerm) :
    r.state = .candidate ∧ r'.logEntries = r.logEntries := by
  have haccept : ∀ (q : AppendEntriesRequest) (now : Int), (r.acceptLeader now q).state ≠ .candidate := by
    intro q now hs
    simp only [RaftState.acceptLeader] at hs
    split at hs
    · cases hs
    · rename_i hn
      exact hn (Or.inl hs)
  cases h with
  | startElection => simp at ht
  | refuseAppend q now => exact absurd hs (haccept q now)
  | acceptAppend q now => exact absurd hs (haccept q now)
  | win => cases hs
  | clientAppend h => rw [show r.state = .candidate from hs] at h; cases h
  | _ => exact ⟨hs, rfl⟩

def Ghost.Own {n : Nat} (g : Ghost n) (t : Int) (m : Nat) : Prop := ∃ e, (g.log t)[m]? = some e ∧ e.term = t

theorem Ghost.Own.lt {n : Nat} {g : Ghost n} {t : Int} {m : Nat} (h : g.Own t m) : m < (g.log t).length := by
  obtain ⟨e, he, -⟩ := h
  exact (List.getElem?_eq_some_iff.mp he).1

theorem Ghost.Own.lt_of_prefix {n : Nat} {g g' : Ghost n} {t : Int} {m : Nat} (h : g'.Own t m) {F : List LogEntry}
    (hp : (g'.log t).take (m + 1) <+: F) (hF : TermLog.Consistent LogEntry.term g.log F) :
    m < (g.log t).length := by
  obtain ⟨e, he, ht⟩ := h
  obtain ⟨hm, hget⟩ := List.getElem?_eq_some_iff.mp he
  rw [List.take_succ_eq_append_getElem hm, hget] at hp
  have hlen := (hF _ _ hp).length_le
  rw [ht] at hlen
  simp only [List.length_append, List.length_take, List.length_singleton] at hlen
  omega

namespace Cluster

variable {n : Nat}

/-- A majority has left term `t` without the entries up to `m` of its log. -/
def NotChoosable (s : Cluster n) (g : Ghost n) (t : Int) (m : Nat) : Prop :=
  ∃ Q, IsMajority Q ∧ ∀ v ∈ Q, t < (s.raft v).curTerm ∧ ¬ g.Holds v t m

/-- The entries up to `m` of the log of term `t` are in `F`, unless they can no longer be chosen. -/
def Kept (s : Cluster n) (g : Ghost n) (t : Int) (m : Nat) (F : List LogEntry) : Prop :=
  (g.log t).take (m + 1) <+: F ∨ NotChoosable s g t m

theorem Kept.trans {s : Cluster n} {g : Ghost n} {t : Int} {m : Nat} {F F' : List LogEntry} (h : Kept s g t m F)
    (hF : F <+: F') : Kept s g t m F' :=
  h.imp (fun h => h.trans hF) id

def Evidence (s : Cluster n) (g : Ghost n) (v c : Fin n) : Prop :=
  ∀ t m, t < (s.raft c).curTerm → g.Own t m → g.Holds v t m → Kept s g t m (s.raft c).logEntries

structure CompleteInv (s : Cluster n) (g : Ghost n) : Prop where
  elect : ∀ u w, g.won u = some w → g.electLog u <+: g.log u ∧ (0 < u → ∀ e ∈ g.electLog u, e.term < u)
  held : ∀ v t m, t < (s.raft v).curTerm → g.Own t m → g.Holds v t m → Kept s g t m (s.raft v).logEntries
  complete : ∀ t u w m, g.won u = some w → t < u → g.Own t m → Kept s g t m (g.electLog u)
  request : ∀ pk ∈ s.net, ∀ q, pk.msg = .requestVoteRequest q → (s.raft pk.src).state = .candidate →
    q.term = (s.raft pk.src).curTerm → q.lastLogTerm = (backEntry (s.raft pk.src).logEntries).term ∧
      q.lastLogIndex = (backEntry (s.raft pk.src).logEntries).index
  grant : ∀ pk ∈ s.net, ∀ q, pk.msg = .requestVoteResponse q → q.voteResultTermGranted ≠ 0 →
    (s.raft pk.dst).state = .candidate → q.term = (s.raft pk.dst).curTerm → Evidence s g pk.src pk.dst
  counted : ∀ c v, v ∈ g.counted c → (s.raft c).state = .candidate → Evidence s g v c

theorem completeInv_starts {s : Cluster n} (h : Starts s) : CompleteInv s (Ghost.start n) := by
  obtain ⟨partitionId, serverNodes, garbage, rfl⟩ := h
  constructor
  · intro u w hw; cases hw
  · intro v t m ht _ hh
    rw [raft_init] at ht
    have hnil : (Ghost.start n).lastLog v t = [] := if_neg (ne_of_lt ht)
    have hp := hh.2
    rw [hnil, List.prefix_nil, List.take_eq_nil_iff] at hp
    rcases hp with hp | hp
    · cases hp
    · have := hh.1
      rw [hp] at this
      cases this
  · intro t u w m hw; cases hw
  · intro pk hpk; cases hpk
  · intro pk hpk; cases hpk
  · intro c v hv; cases hv

theorem ElectionInv.le_of_voted {s : Cluster n} {g : Ghost n} (h : ElectionInv s g) {v w : Fin n} {u : Int}
    (hv : g.voted v u = w.val) : u ≤ (s.raft v).curTerm := by
  by_contra hlt
  have := h.future v u (not_le.mp hlt)
  omega

theorem kept_of_upToDate {s : Cluster n} {g : Ghost n} (hb : BaseInv s g) (h : CompleteInv s g)
    {v c : Fin n} {t : Int} {m : Nat} (hown : g.Own t m)
    (hv : (g.log t).take (m + 1) <+: (s.raft v).logEntries)
    (hup : (backEntry (s.raft v).logEntries).term < (backEntry (s.raft c).logEntries).term ∨
      ((backEntry (s.raft v).logEntries).term = (backEntry (s.raft c).logEntries).term ∧
        (backEntry (s.raft v).logEntries).index ≤ (backEntry (s.raft c).logEntries).index)) :
    Kept s g t m (s.raft c).logEntries := by
  have hm := hown.lt
  have hshv := hb.shape.logs v
  have hshc := hb.shape.logs c
  have hlenv : m + 1 ≤ (s.raft v).logEntries.length := by
    have := hv.length_le
    rw [List.length_take] at this
    omega
  obtain ⟨e, he, het⟩ := hown
  have hev : (s.raft v).logEntries[m]? = some e := by
    rw [get_of_take_isPrefix hv hm (Nat.lt_succ_self m), he]
  have hle : t ≤ (backEntry (s.raft v).logEntries).term := het ▸ hshv.le_back hev
  have hpos : 0 ≤ t := by
    have := hshv.sorted 0 m _ _ (Nat.zero_le m) hshv.head hev
    rw [het] at this
    exact this
  have hpc := hb.prefix_of_back (i := c) rfl
  rcases lt_or_eq_of_le (show t ≤ (backEntry (s.raft c).logEntries).term by omega) with hlt | heq
  · -- The candidate's last entry comes from a later winner, which had them when it won.
    cases hwon : g.won (backEntry (s.raft c).logEntries).term with
    | none =>
      have hL : g.log (backEntry (s.raft c).logEntries).term = [LogEntry.dummy] := by
        unfold Ghost.log
        rw [hwon]
      rw [hL] at hpc
      have hmem := hpc.subset (List.mem_of_getElem? hshc.back)
      rw [List.mem_singleton.mp hmem] at hlt
      exact absurd hpos (not_le.mpr hlt)
    | some w =>
      obtain ⟨hpre, hlow⟩ := h.elect _ w hwon
      refine (h.complete t _ w m hwon hlt ⟨e, he, het⟩).trans ?_
      rcases List.prefix_or_prefix_of_prefix hpre hpc with hp | hp
      · exact hp
      · have hmem := hp.subset (List.mem_of_getElem? hshc.back)
        exact absurd (hlow (lt_of_le_of_lt hpos hlt) _ hmem) (lt_irrefl _)
  · left
    rw [← heq] at hpc
    refine List.prefix_of_prefix_length_le (List.take_prefix _ _) hpc ?_
    have h₁ := hshv.back_index
    have h₂ := hshc.back_index
    rw [List.length_take]
    omega

section
variable {ch : Channel} {s s' : Cluster n} {g g' : Ghost n} {e : Event n}

theorem lastLog_frozen (hm : Moves ch s g e s' g') {v : Fin n} {t : Int} (ht : t < (s.raft v).curTerm) :
    g'.lastLog v t = g.lastLog v t := by
  have hle := curTerm_moves hm v
  cases hm with
  | lose => rfl
  | act hh ht' ho hn =>
    refine Ghost.record_lastLog_of_ne fun hv => ?_
    obtain ⟨rfl, rfl⟩ := hv
    omega

variable (hc : ch ≠ .duplicating) (hb : BaseInv s g) (hb' : BaseInv s' g') (hm : Moves ch s g e s' g')
include hc hb hb' hm

theorem own_old {t : Int} {m : Nat} (h : g'.Own t m) (hlt : m < (g.log t).length) : g.Own t m := by
  obtain ⟨x, hx, hxt⟩ := h
  refine ⟨x, ?_, hxt⟩
  rw [← hx, List.prefix_iff_getElem?.mp (grow_moves hc hb hb' hm t) m hlt, List.getElem?_eq_getElem]

theorem holds_old {v : Fin n} {t : Int} {m : Nat} (ht : t < (s.raft v).curTerm) (hlt : m < (g.log t).length)
    (h : g'.Holds v t m) : g.Holds v t m := by
  have hp := h.2
  rw [take_eq_of_isPrefix (grow_moves hc hb hb' hm t) hlt, lastLog_frozen hm ht] at hp
  exact ⟨hlt, hp⟩

omit hc hb' in
theorem lt_of_holds {v : Fin n} {t : Int} {m : Nat} (ht : t < (s.raft v).curTerm) (hown : g'.Own t m)
    (h : g'.Holds v t m) : m < (g.log t).length := by
  have hp := h.2
  rw [lastLog_frozen hm ht] at hp
  exact hown.lt_of_prefix hp (hb.logs.consistent v t)

theorem notChoosable_moves {t : Int} {m : Nat} (hlt : m < (g.log t).length) (h : NotChoosable s g t m) :
    NotChoosable s' g' t m := by
  obtain ⟨Q, hQ, hall⟩ := h
  refine ⟨Q, hQ, fun v hv => ?_⟩
  obtain ⟨ht, hnot⟩ := hall v hv
  exact ⟨ht.trans_le (curTerm_moves hm v), fun hh => hnot (holds_old hc hb hb' hm ht hlt hh)⟩

theorem kept_moves {t : Int} {m : Nat} {F : List LogEntry} (hlt : m < (g.log t).length) (h : Kept s g t m F) :
    Kept s' g' t m F := by
  rcases h with h | h
  · left
    rw [take_eq_of_isPrefix (grow_moves hc hb hb' hm t) hlt]
    exact h
  · exact Or.inr (notChoosable_moves hc hb hb' hm hlt h)

theorem evidence_moves {v c : Fin n} (hv : (s.raft c).curTerm ≤ (s.raft v).curTerm)
    (ht : (s'.raft c).curTerm = (s.raft c).curTerm) (hlog : (s'.raft c).logEntries = (s.raft c).logEntries)
    (h : Evidence s g v c) : Evidence s' g' v c := by
  intro t m htc hown hh
  rw [ht] at htc
  have hlt := lt_of_holds hb hm (htc.trans_le hv) hown hh
  rw [hlog]
  exact kept_moves hc hb hb' hm hlt (h t m htc (own_old hc hb hb' hm hown hlt)
    (holds_old hc hb hb' hm (htc.trans_le hv) hlt hh))

variable (hM : MatchInv s g) (h : CompleteInv s g)
include hM h

theorem held_before {v : Fin n} {t : Int} {m : Nat} (ht : t < (s'.raft v).curTerm) (hown : g'.Own t m)
    (hh : g'.Holds v t m) : m < (g.log t).length ∧ Kept s g t m (s.raft v).logEntries := by
  rcases lt_or_ge t (s.raft v).curTerm with hlt | hge
  · have hm' := lt_of_holds hb hm hlt hown hh
    exact ⟨hm', h.held v t m hlt (own_old hc hb hb' hm hown hm') (holds_old hc hb hb' hm hlt hm' hh)⟩
  · have hsame : g'.lastLog v t = g.lastLog v t := by
      cases hm with
      | lose => rfl
      | act hh ht' ho hn =>
        refine Ghost.record_lastLog_of_ne fun hv => ?_
        obtain ⟨rfl, rfl⟩ := hv
        exact lt_irrefl _ ht
    have hp := hh.2
    rw [hsame] at hp
    rcases lt_or_eq_of_le hge with hgt | heq
    · rw [hM.future v t hgt, List.prefix_nil, List.take_eq_nil_iff] at hp
      have hlen := hh.1
      rcases hp with hp | hp
      · cases hp
      · rw [hp] at hlen; cases hlen
    · have hm' := hown.lt_of_prefix hp (hb.logs.consistent v t)
      rw [take_eq_of_isPrefix (grow_moves hc hb hb' hm t) hm', ← heq, hb.logs.current] at hp
      exact ⟨hm', Or.inl (heq ▸ hp)⟩

omit hc hb' hm in
theorem kept_acts {i who : Fin n} {msg : Option RaftMessage} {net : List (Packet n)} {l : List Effect}
    (hh : Handles ch s e i who msg net) (ht : Trans (s.raft i) msg (s'.raft i) l) {t : Int} {m : Nat}
    (hct : t < (s'.raft i).curTerm) (hown : g.Own t m) (hk : Kept s g t m (s.raft i).logEntries) :
    Kept s g t m (s'.raft i).logEntries := by
  revert hct
  generalize s'.raft i = r' at ht
  intro hct
  cases ht with
  | clientAppend => exact hk.trans (List.prefix_append _ _)
  | acceptAppend q now hle hs =>
    obtain ⟨pk, -, -, hmsg, hl, -⟩ := hh.message_inv
    have hwon := hb.requests pk hl.subset.1 q hmsg
    obtain ⟨-, p, hpq, -, hes | ⟨e', hes, he'⟩⟩ := hM.request pk hl.subset.1 q hmsg
    · simpa [hes, appendLog] using hk
    · rcases hk with hk | hk
      · rcases h.complete t q.term _ m hwon hct hown with hL | hL
        · left
          simp only [hpq, hes] at hs ⊢
          obtain ⟨e₀, he₀, -⟩ := inSync_iff.mp hs
          exact appendLog_keeps hk (hL.trans (h.elect _ _ hwon).1) he' (List.getElem?_eq_some_iff.mp he₀).1
        · exact Or.inr hL
      · exact Or.inr hk
  | _ => exact hk

theorem held_moves (v : Fin n) (t : Int) (m : Nat) (ht : t < (s'.raft v).curTerm) (hown : g'.Own t m)
    (hh : g'.Holds v t m) : Kept s' g' t m (s'.raft v).logEntries := by
  obtain ⟨hlt, hk⟩ := held_before hc hb hb' hm hM h ht hown hh
  refine kept_moves hc hb hb' hm hlt ?_
  have hown' := own_old hc hb hb' hm hown hlt
  cases hm with
  | lose hn hn' hr => rw [hr]; exact hk
  | @act i who msg net l hh' ht' ho hn =>
    by_cases hv : v = i
    · subst hv
      exact kept_acts hb hM h hh' ht' ht hown' hk
    · rw [ho v hv]
      exact hk

omit hc hb hb' hM h in
theorem candidate_moves {c : Fin n} (hs : (s'.raft c).state = .candidate)
    (ht : (s'.raft c).curTerm ≤ (s.raft c).curTerm) : (s.raft c).state = .candidate ∧
      (s'.raft c).curTerm = (s.raft c).curTerm ∧ (s'.raft c).logEntries = (s.raft c).logEntries := by
  have heq := le_antisymm ht (curTerm_moves hm c)
  cases hm with
  | lose hn hn' hr => rw [hr] at hs ⊢; exact ⟨hs, rfl, rfl⟩
  | @act i who msg net l hh ht' ho hn =>
    by_cases hi : c = i
    · subst hi
      obtain ⟨h₁, h₂⟩ := ht'.candidate hs heq
      exact ⟨h₁, heq, h₂⟩
    · rw [ho c hi] at hs ⊢
      exact ⟨hs, rfl, rfl⟩

omit hc hb' hM in
theorem voteRequest_moves (pk : Packet n) (hpk : pk ∈ s'.net) (q : RequestVoteRequest)
    (hq : pk.msg = .requestVoteRequest q) (hs : (s'.raft pk.src).state = .candidate)
    (ht : q.term = (s'.raft pk.src).curTerm) : q.lastLogTerm = (backEntry (s'.raft pk.src).logEntries).term ∧
      q.lastLogIndex = (backEntry (s'.raft pk.src).logEntries).index := by
  cases hm.inFlight hpk with
  | old hpk =>
    have hle := hb.election.asked _ _ (hb.election.request pk hpk q hq).2
    obtain ⟨h₁, h₂, h₃⟩ := candidate_moves hm hs (ht ▸ hle)
    rw [h₃]
    exact h.request pk hpk q hq h₁ (ht.trans h₂)
  | @sent i who msg net l hh ht' ho hpk =>
    have hcar := hq ▸ carries_of_mem hpk
    rw [(mem_sent hpk).1]
    generalize s'.raft i = r' at ht'
    cases ht'.votes with
    | quiet hqt => exact absurd trivial (hqt.casts _ hcar)
    | start => simp at hcar
    | ask =>
      cases carries_broadCast.mp hcar
      exact ⟨rfl, rfl⟩
    | grant => simp at hcar
    | count => simp at hcar

theorem evidence_grant (hu : onMessage (onVoteRequest UpToDate) s e) (pk : Packet n) (hpk : pk ∈ s'.net)
    (q : RequestVoteResponse) (hq : pk.msg = .requestVoteResponse q) (hg : q.voteResultTermGranted ≠ 0)
    (hs : (s'.raft pk.dst).state = .candidate) (ht : q.term = (s'.raft pk.dst).curTerm) :
    Evidence s' g' pk.src pk.dst := by
  have hbefore := @held_before n ch s s' g g' e hc hb hb' hm hM h
  have hkept := @kept_moves n ch s s' g g' e hc hb hb' hm
  have hown := @own_old n ch s s' g g' e hc hb hb' hm
  cases hm.inFlight hpk with
  | old hpk =>
    obtain ⟨-, hv, ha⟩ := hb.election.grant pk hpk q hq hg
    obtain ⟨h₁, h₂, h₃⟩ := candidate_moves hm hs (ht ▸ hb.election.asked _ _ ha)
    have hterm := ht.trans h₂
    exact evidence_moves hc hb hb' hm (hterm ▸ hb.election.le_of_voted hv) h₂ h₃
      (h.grant pk hpk q hq hg h₁ hterm)
  | @sent i who msg net l hh ht' ho hpk =>
    obtain ⟨hsrc, hdst, hsent⟩ := mem_sent hpk
    have hcar := hq ▸ carries_of_mem hpk
    rw [ho pk.dst hdst] at hs ht
    rw [hsrc]
    intro t m htc hown' hholds
    rw [ho pk.dst hdst] at htc ⊢
    -- The new vote is `i`'s answer to a request that is still true of the candidate.
    have hmain : (s'.raft i).curTerm = q.term ∧ ∀ F, (g.log t).take (m + 1) <+: F →
        F = (s.raft i).logEntries →
        g.Own t m → Kept s g t m (s.raft pk.dst).logEntries := by
      clear hbefore hkept hown hholds hown'
      generalize s'.raft i = r' at ht'
      cases ht'.votes with
      | quiet hqt => exact absurd hg (hqt.casts _ hcar)
      | start => simp at hcar
      | ask => simp at hcar
      | count => simp at hcar
      | grant q₀ hvot hst =>
        simp only [hq, List.mem_singleton, Effect.writeMessage.injEq, RaftMessage.requestVoteResponse.injEq,
          reduceCtorEq, or_false] at hsent
        obtain ⟨hd, rfl⟩ := hsent
        have hup := hh.condition hu _ rfl hvot hst
        obtain ⟨pk₀, rfl, rfl, hmsg, hl, -⟩ := hh.message_inv
        have hcand := (hb.election.request pk₀ hl.subset.1 q₀ hmsg).1
        have heq : pk.dst = pk₀.src := Fin.ext (by omega)
        rw [heq] at hs ht ⊢
        obtain ⟨hlt, hli⟩ := h.request pk₀ hl.subset.1 q₀ hmsg hs ht
        rw [hlt, hli] at hup
        refine ⟨rfl, fun F hF hFe hown => ?_⟩
        exact kept_of_upToDate hb h hown (hFe ▸ hF) hup
    obtain ⟨hct, hkeep⟩ := hmain
    have htlt : t < (s'.raft i).curTerm := by rw [hct, ht]; exact htc
    obtain ⟨hlt, hk⟩ := hbefore htlt hown' hholds
    refine hkept hlt ?_
    rcases hk with hk | hk
    · exact hkeep _ hk rfl (hown hown' hlt)
    · exact Or.inr hk

theorem evidence_counted (c v : Fin n) (hv : v ∈ g'.counted c) (hs : (s'.raft c).state = .candidate) :
    Evidence s' g' v c := by
  have hheld := @held_moves n ch s s' g g' e hc hb hb' hm hM h
  have hcand := @candidate_moves n ch s s' g g' e hm c hs
  have hev := @evidence_moves n ch s s' g g' e hc hb hb' hm
  have hold : v ∈ g.counted c → (s'.raft c).curTerm = (s.raft c).curTerm → Evidence s' g' v c := by
    intro hv ht
    obtain ⟨h₁, h₂, h₃⟩ := hcand ht.le
    exact hev (hb.election.le_of_voted (hb.election.counted c v hv).2) h₂ h₃ (h.counted c v hv h₁)
  cases hm with
  | lose hn hn' hr => exact hold hv (by rw [hr])
  | @act i who msg net l hh ht ho hn =>
    by_cases hi : c = i
    · subst hi
      by_cases hcnt : Counts (s.raft c) (s'.raft c)
      · rw [Ghost.record_counted_counts hcnt, Finset.mem_insert] at hv
        rcases hv with rfl | hv
        · rcases ht.votes.counts hcnt with ⟨rfl, -⟩ | ⟨-, q, rfl, hg, hle⟩
          · obtain ⟨rfl, -⟩ := hh.who_of_none
            exact hheld v
          · obtain ⟨-, -, hqt, -, hvo, -, l₁, l₂, pk, rfl, rfl, hmsg, hs₁, -⟩ :=
              grant_handled hb.election hc hh hg hle
            obtain ⟨h₁, h₂, h₃⟩ := hcand hcnt.1.le
            have hpk : pk ∈ s.net := by rw [hs₁]; simp
            exact hev (hb.election.le_of_voted hvo) h₂ h₃ (h.grant pk hpk q hmsg hg h₁ hqt)
        · exact hold hv hcnt.1
      · by_cases hct : (s'.raft c).curTerm = (s.raft c).curTerm
        · rw [Ghost.record_counted_keeps hcnt hct] at hv
          exact hold hv hct
        · rw [Ghost.record_counted_leaves hct] at hv
          cases hv
    · rw [Ghost.record_counted_of_ne hi] at hv
      exact hold hv (by rw [ho c hi])

omit hM in
theorem elect_moves (u : Int) (w : Fin n) (hw : g'.won u = some w) :
    g'.electLog u <+: g'.log u ∧ (0 < u → ∀ e ∈ g'.electLog u, e.term < u) := by
  have hgrow := grow_moves hc hb hb' hm u
  have hnone := @won_none_of_wins n ch s s' g g' e hb.election hm hc
  have hshape := hb'.shape.logs
  have hcon := hb.consistent
  cases hm with
  | lose => exact h.elect u w hw
  | @act i who msg net l hh ht ho hn =>
    by_cases hnew : Wins (s.raft i) (s'.raft i) ∧ u = (s'.raft i).curTerm
    · obtain ⟨hwin, rfl⟩ := hnew
      have hlog : (g.record i who (s.raft i) (s'.raft i)).log (s'.raft i).curTerm =
          (s'.raft i).logEntries := by
        unfold Ghost.log
        rw [Ghost.record_won_wins hwin]
        exact Ghost.record_lastLog_self ..
      rw [Ghost.record_electLog_wins hwin, hlog]
      refine ⟨List.prefix_refl _, fun hpos x hx => lt_of_le_of_ne ((hshape i).bound x hx) fun hxt => ?_⟩
      -- No entry of a term exists before the term is won.
      obtain ⟨-, -, -, -, -, hkeep⟩ := ht.winsOn hwin
      rw [hkeep] at hx
      obtain ⟨k, hk, rfl⟩ := List.getElem_of_mem hx
      have hp := hcon i _ _ (List.take_succ_eq_append_getElem hk ▸ List.take_prefix (k + 1) _)
      have hdummy : g.log (s.raft i).logEntries[k].term = [LogEntry.dummy] := by
        unfold Ghost.log
        rw [hxt, hnone hwin]
      rw [hdummy] at hp
      have hmem := hp.subset (List.mem_append_right _ (List.mem_singleton_self _))
      rw [List.mem_singleton] at hmem
      rw [hmem] at hxt
      exact absurd hpos (hxt ▸ lt_irrefl _)
    · rw [Ghost.record_won_of_not hnew] at hw
      rw [Ghost.record_electLog_of_not hnew]
      exact ⟨(h.elect u w hw).1.trans hgrow, (h.elect u w hw).2⟩

omit hM in
theorem complete_moves (t u : Int) (w : Fin n) (m : Nat) (hw : g'.won u = some w) (htu : t < u)
    (hown : g'.Own t m) :
    Kept s' g' t m (g'.electLog u) := by
  have hold : g.won u = some w → Kept s' g' t m (g.electLog u) := by
    intro hw
    rcases lt_or_ge m (g.log t).length with hlt | hge
    · exact kept_moves hc hb hb' hm hlt (h.complete t u w m hw htu (own_old hc hb hb' hm hown hlt))
    · -- An entry that is new in the log of `t` comes too late for the voters of `u`.
      obtain ⟨⟨Q, hQ, hv⟩, -⟩ := hb.election.won u w hw
      refine Or.inr ⟨Q, hQ, fun v hvQ => ?_⟩
      have hle := htu.trans_le (hb.election.le_of_voted (hv v hvQ))
      exact ⟨hle.trans_le (curTerm_moves hm v),
        fun hh => absurd (lt_of_holds hb hm hle hown hh) (not_lt.mpr hge)⟩
  have hmaj := @majority_of_wins n ch s s' g g' e hb.election hm hc
  have hev := @evidence_moves n ch s s' g g' e hc hb hb' hm
  cases hm with
  | lose => exact hold hw
  | @act i who msg net l hh ht ho hn =>
    by_cases hnew : Wins (s.raft i) (s'.raft i) ∧ u = (s'.raft i).curTerm
    · obtain ⟨hwin, rfl⟩ := hnew
      rw [Ghost.record_electLog_wins hwin]
      obtain ⟨hct, hQ, hvoted⟩ := hmaj hwin
      by_cases hsome : ∃ v ∈ (g.record i who (s.raft i) (s'.raft i)).counted i,
          (g.record i who (s.raft i) (s'.raft i)).Holds v t m
      · obtain ⟨v, hv, hholds⟩ := hsome
        obtain ⟨q, rfl, hg, hle, -, -, hcount⟩ := ht.votes.wins hwin
        obtain ⟨-, h1, hqt, -, hvo, -, l₁, l₂, pk, hd, hsrc, hmsg, hs₁, -⟩ :=
          grant_handled hb.election hc hh hg hle
        obtain ⟨-, -, -, -, -, hlog⟩ := ht.winsOn hwin
        rw [Ghost.record_counted_counts ⟨hct, hcount h1⟩, Finset.mem_insert] at hv
        have hpk : pk ∈ s.net := by rw [hs₁]; simp
        have hevid : Evidence s g v i ∧ (s.raft i).curTerm ≤ (s.raft v).curTerm := by
          rcases hv with rfl | hv
          · subst hd hsrc
            exact ⟨h.grant pk hpk q hmsg hg hwin.1 hqt, hb.election.le_of_voted hvo⟩
          · exact ⟨h.counted i v hv hwin.1, hb.election.le_of_voted (hb.election.counted i v hv).2⟩
        exact hev hevid.2 hct hlog hevid.1 t m htu hown hholds
      · refine Or.inr ⟨_, hQ, fun v hv => ⟨?_, fun hholds => hsome ⟨v, hv, hholds⟩⟩⟩
        exact htu.trans_le (hb'.election.le_of_voted (hvoted v hv))
    · rw [Ghost.record_won_of_not hnew] at hw
      rw [Ghost.record_electLog_of_not hnew]
      exact hold hw

theorem CompleteInv.moves (hu : onMessage (onVoteRequest UpToDate) s e) : CompleteInv s' g' where
  elect := elect_moves hc hb hb' hm h
  held := held_moves hc hb hb' hm hM h
  complete := complete_moves hc hb hb' hm h
  request := voteRequest_moves hb hm h
  grant := evidence_grant hc hb hb' hm hM h hu
  counted := evidence_counted hc hb hb' hm hM h

end

/-! ## Chosen entries -/

/-- A majority holds, in term `t`, the entries of its log up to `m`, the last of which was created in
the term. -/
def Chosen (g : Ghost n) (t : Int) (m : Nat) : Prop := g.Own t m ∧ ∃ Q, IsMajority Q ∧ ∀ v ∈ Q, g.Holds v t m

theorem Chosen.prefix_of_kept {s : Cluster n} {g : Ghost n} {t : Int} {m : Nat} {F : List LogEntry}
    (h : Chosen g t m) (hk : Kept s g t m F) : (g.log t).take (m + 1) <+: F := by
  rcases hk with hk | ⟨R, hR, hnot⟩
  · exact hk
  · obtain ⟨-, Q, hQ, hall⟩ := h
    obtain ⟨v, hv, hv'⟩ := hQ.meet hR
    exact absurd (hall v hv) (hnot v hv').2

theorem Chosen.moves {ch : Channel} {s s' : Cluster n} {g g' : Ghost n} {e : Event n} (hc : ch ≠ .duplicating)
    (hb : BaseInv s g) (hb' : BaseInv s' g') (hm : Moves ch s g e s' g') (hM : MatchInv s g) {t : Int} {m : Nat}
    (h : Chosen g t m) : Chosen g' t m := by
  obtain ⟨⟨e, he, het⟩, Q, hQ, hall⟩ := h
  exact ⟨⟨e, get_of_isPrefix (grow_moves hc hb hb' hm t) he, het⟩, Q, hQ,
    fun v hv => holds_moves hc hb hb' hm hM (hall v hv)⟩

theorem chosen_of_commits {s : Cluster n} {g : Ghost n} (hb : BaseInv s g) (h : MatchInv s g) {pk : Packet n}
    {q : AppendEntriesResponse} (hpk : pk ∈ s.net) (hmsg : pk.msg = .appendEntriesResponse q)
    (hl : (s.raft pk.dst).state = .leader) (hterm : q.term = (s.raft pk.dst).curTerm)
    (hown : CommitsOwnTerm (s.raft pk.dst) q) (hcom : (s.raft pk.dst).commits q) :
    ∃ m : Nat, q.lastIndexSynced = m ∧ Chosen g q.term m := by
  obtain ⟨m, hm, Q, hQ, hall⟩ := majority_of_commits hb h hpk hmsg hl hterm hcom
  have hL : g.log q.term = (s.raft pk.dst).logEntries := hterm ▸ hb.log_leader hl
  obtain ⟨v, hv, -⟩ := hQ.meet hQ
  have hlt := (hall v hv).1
  refine ⟨m, hm, ⟨entryAt (s.raft pk.dst).logEntries m, ?_, ?_⟩, Q, hQ, hall⟩
  · rw [hL] at hlt ⊢
    exact get_of_lt hlt
  · rw [← hm, hown hl hcom, hterm]

/-! ## Runs -/

section
variable {ch : Channel} (hc : ch ≠ .duplicating) (r : Execution n ch)
  (hg : r.Always (onMessage SafeElections))
include hc hg

omit hc in
theorem soundReplies_of_safe : r.Always (onMessage SoundReplies) := hg.mono (onMessage_mono fun _ _ h => h.1)

theorem completeInv {k : Nat} (hk : k ≤ r.length) : CompleteInv (r.states k) (past r k) := by
  have hs := soundReplies_of_safe r hg
  refine r.induct (P := fun k => CompleteInv (r.states k) (past r k)) (completeInv_starts r.starts) ?_ k hk
  intro k hk ih
  exact CompleteInv.moves hc (baseInv_sound hc r hs hk.le) (baseInv_sound hc r hs hk) (moves r hk)
    (matchInv hc r hs hk.le) ih (onMessage_mono (fun _ _ h => h.2.1) _ _ (hg k hk))

theorem log_run (t : Int) {j k : Nat} (hjk : j ≤ k) (hk : k ≤ r.length) :
    (past r j).log t <+: (past r k).log t := by
  have hs := soundReplies_of_safe r hg
  refine r.stable (P := fun k => (past r j).log t <+: (past r k).log t) ?_ hjk hk (List.prefix_refl _)
  intro m hm h
  exact h.trans (grow_moves hc (baseInv_sound hc r hs hm.le) (baseInv_sound hc r hs hm) (moves r hm) t)

theorem chosen_run {t : Int} {m j k : Nat} (h : Chosen (past r j) t m) (hjk : j ≤ k) (hk : k ≤ r.length) :
    Chosen (past r k) t m :=
  have hs := soundReplies_of_safe r hg
  r.stable (P := fun k => Chosen (past r k) t m) (fun _ hm h => h.moves hc (baseInv_sound hc r hs hm.le)
    (baseInv_sound hc r hs hm) (moves r hm) (matchInv hc r hs hm.le)) hjk hk h

theorem chosen_of_commit {k : Nat} {pk : Packet n} {q : AppendEntriesResponse} (h : HandlesReply r k pk q)
    (hne : ((r.states (k + 1)).procs pk.dst).commitIndex ≠ ((r.states k).procs pk.dst).commitIndex) :
    ∃ m : Nat, ((r.states (k + 1)).procs pk.dst).commitIndex = m ∧ Chosen (past r k) q.term m ∧
      (past r k).log q.term = ((r.states (k + 1)).procs pk.dst).logEntries ∧
      q.term = ((r.states k).procs pk.dst).curTerm := by
  have hs := soundReplies_of_safe r hg
  obtain ⟨hterm, hpk, -, -, -, -, hL⟩ := h.facts hc r hs
  obtain ⟨hcom, hidx, hlog, -⟩ := commit_majority hc r hs h hne
  obtain ⟨hk, ⟨i, now, he, hi⟩, hmsg, -, hl⟩ := h
  have hgk := hg k hk
  rw [he] at hgk
  have hown := (hgk pk hi).2.2
  rw [hmsg] at hown
  obtain ⟨m, hm, hch⟩ :=
    chosen_of_commits (baseInv_sound hc r hs hk.le) (matchInv hc r hs hk.le) hpk hmsg hl hterm
    hown hcom
  exact ⟨m, hidx.trans hm, hch, hL.trans hlog.symm, hterm⟩

end

/-- What a leader has committed by a majority is in the log of every node that wins a later term. -/
def LeaderComplete {ch : Channel} (r : Execution n ch) : Prop :=
  ∀ (j k : Nat) (pk : Packet n) (q : AppendEntriesResponse) (b : Fin n) (u : Int), HandlesReply r j pk q →
    ((r.states (j + 1)).procs pk.dst).commitIndex ≠ ((r.states j).procs pk.dst).commitIndex →
    j < k → WinsAt r k b u → ((r.states j).procs pk.dst).curTerm < u →
    ∀ i : Nat, i ≤ ((r.states (j + 1)).procs pk.dst).commitIndex →
      ((r.states (k + 1)).procs b).logEntries[i]? = ((r.states (j + 1)).procs pk.dst).logEntries[i]?

/-- Leader completeness, for runs in which replication is sound, voters compare
logs and leaders commit on entries of their own term. -/
theorem leaderComplete_of_safeElections (r : Execution n .fifo) (hg : r.Always (onMessage SafeElections)) :
    LeaderComplete r := by
  have hc : Channel.fifo ≠ .duplicating := by decide
  intro j k pk q b u h hne hjk hw htu i hi
  obtain ⟨m, hm, hch, hL, hterm⟩ := chosen_of_commit hc r hg h hne
  have hk := hw.1
  have hwon := won_after hc r hw (Nat.lt_succ_self k) hk
  have hch' := chosen_run hc r hg hch (k := k + 1) (by omega) hk
  have hkept := (completeInv hc r hg (k := k + 1) hk).complete q.term u b m hwon (hterm ▸ htu) hch'.1
  have hpre := hch'.prefix_of_kept hkept
  rw [take_eq_of_isPrefix (log_run hc r hg q.term (k := k + 1) (by omega) hk) hch.1.lt, hL] at hpre
  have hel : (past r (k + 1)).electLog u = ((r.states (k + 1)).procs b).logEntries := electLog_of_wins r hw
  rw [hel] at hpre
  have hlt := hch.1.lt
  rw [hL] at hlt
  exact get_of_take_isPrefix hpre hlt (by omega)

/-- After node 0 has committed a message with node 1, node 1 is elected for term 2 by node 2. -/
def inheritedCommit : List (Event 3) :=
  committedPut ++ [.input 1 (.voteTimer 10), .input 1 .voteRequestTimer, .deliver 3 11, .deliver 3 12]

theorem leaderComplete_inheritedCommit : ∃ r : Execution 3 .fifo, WinsAt r 10 1 2 ∧ LeaderComplete r :=
  ⟨Runs.Run.ofEvents (fresh 3) starts_fresh inheritedCommit (by decide +kernel), by decide +kernel,
    leaderComplete_of_safeElections _ (Runs.Run.ofEvents_always (by decide +kernel))⟩

/-- After the same commit node 2, which never saw the message, is elected for term 2 by node 1. -/
def lostCommit : List (Event 3) :=
  committedPut ++ [.input 2 (.voteTimer 2), .input 2 (.voteTimer 3), .input 2 .voteRequestTimer, .deliver 3 4,
    .deliver 3 5]

theorem not_leaderComplete_lostCommit : ∃ r : Execution 3 .fifo, ¬ LeaderComplete r := by
  refine ⟨Runs.Run.ofEvents (fresh 3) starts_fresh lostCommit (by decide +kernel), fun h => ?_⟩
  have hlog := h 6 11 ⟨1, 0, .appendEntriesResponse ⟨1, 1, 1, 1⟩⟩ ⟨1, 1, 1, 1⟩ 2 2
    ⟨by decide, ⟨2, 3, rfl, by decide +kernel⟩, rfl, by decide, by decide +kernel⟩
      (by decide +kernel) (by decide)
    (by decide +kernel) (by decide +kernel) 1 (by decide +kernel)
  revert hlog
  decide +kernel

end Cluster

end FlowMQ
