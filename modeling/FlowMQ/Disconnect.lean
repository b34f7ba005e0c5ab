import FlowMQ.ReadLoop

/-!
# The end of a session

A session has one read going on and any number of writes. Each of them that
fails calls `disconneted`, which asks only whether the status is `DISCONNECTED`;
`close` overwrites the status. So the handler runs again for a failure behind a
`close` that came after another failure, and for no other one.
-/

namespace FlowMQ

inductive SessionStatus where
  | connected
  | disconnected
  | closed
  deriving DecidableEq, Repr

/-- `reading` is the read that is going on, `writing` the number of writes that are, and `disconnects` how
often `disconnected_handler_` was called. -/
structure SessionState where
  status : SessionStatus
  reading : Option ReadStage
  writing : Nat
  disconnects : Nat
  deriving DecidableEq, Repr

inductive SessionChange where
  | startRead
  | writeMessage
  | close
  | readCompletes
  | readFails
  | writeCompletes
  | writeFails
  deriving DecidableEq, Repr, Inhabited

namespace SessionState

def opened : SessionState := { status := .connected, reading := none, writing := 0, disconnects := 0 }

/-- The function's name is the source's. -/
def disconneted (s : SessionState) : SessionState :=
  if s.status = .disconnected then s else { s with status := .disconnected, disconnects := s.disconnects + 1 }

/-- The socket that `close` posts to close makes the reads and writes that are going on fail; they may also
fail at any other time, and may complete after it. -/
def step (s : SessionState) : SessionChange → Option SessionState
  | .startRead => if s.reading = none then some { s with reading := some .header } else none
  | .writeMessage => some { s with writing := s.writing + 1 }
  | .close => some { s with status := .closed }
  | .readCompletes =>
    match s.reading with
    | none => none
    | some .header => some { s with reading := some .body }
    | some .body => some { s with reading := some .header }
  | .readFails => if s.reading = none then none else some (disconneted { s with reading := none })
  | .writeCompletes => if s.writing = 0 then none else some { s with writing := s.writing - 1 }
  | .writeFails => if s.writing = 0 then none else some (disconneted { s with writing := s.writing - 1 })

abbrev Execution : Type := Runs.Run (· = opened) step

def Fails (e : SessionChange) : Prop := e = .readFails ∨ e = .writeFails

instance (e : SessionChange) : Decidable (Fails e) := inferInstanceAs (Decidable (_ ∨ _))

/-! ## What a step does to the status -/

inductive Moves (s s' : SessionState) (e : SessionChange) : Prop
  | quiet (he : ¬ Fails e) (hc : e ≠ .close) (hs : s'.status = s.status) (hd : s'.disconnects = s.disconnects)
  | close (he : e = .close) (hs : s'.status = .closed) (hd : s'.disconnects = s.disconnects)
  | again (he : Fails e) (hs : s.status = .disconnected) (hs' : s'.status = .disconnected)
    (hd : s'.disconnects = s.disconnects)
  | handler (he : Fails e) (hs : s.status ≠ .disconnected) (hs' : s'.status = .disconnected)
    (hd : s'.disconnects = s.disconnects + 1)

theorem moves_disconneted {s t : SessionState} {e : SessionChange} (he : Fails e) (hs : t.status = s.status)
    (hd : t.disconnects = s.disconnects) : Moves s t.disconneted e := by
  unfold disconneted
  split
  · rename_i h
    exact .again he (hs ▸ h) h hd
  · rename_i h
    exact .handler he (hs ▸ h) rfl (congrArg (· + 1) hd)

theorem moves_step {s s' : SessionState} {e : SessionChange} (h : s.step e = some s') : Moves s s' e := by
  cases e with
  | startRead =>
    simp only [step] at h
    split at h
    · cases h
      exact .quiet (by decide) (by decide) rfl rfl
    · cases h
  | writeMessage =>
    cases h
    exact .quiet (by decide) (by decide) rfl rfl
  | close =>
    cases h
    exact .close rfl rfl rfl
  | readCompletes =>
    simp only [step] at h
    split at h
    · cases h
    · cases h
      exact .quiet (by decide) (by decide) rfl rfl
    · cases h
      exact .quiet (by decide) (by decide) rfl rfl
  | readFails =>
    simp only [step] at h
    split at h
    · cases h
    · cases h
      exact moves_disconneted (by decide) rfl rfl
  | writeCompletes =>
    simp only [step] at h
    split at h
    · cases h
    · cases h
      exact .quiet (by decide) (by decide) rfl rfl
  | writeFails =>
    simp only [step] at h
    split at h
    · cases h
    · cases h
      exact moves_disconneted (by decide) rfl rfl

/-! ## What has happened before -/

section
variable (r : Execution)

def Failed (k : Nat) : Prop := ∃ i < k, Fails (r.events i)

def FailedClosed (k : Nat) : Prop := ∃ j < k, r.events j = .close ∧ Failed r j

def FailedAgain (k : Nat) : Prop := ∃ i < k, Fails (r.events i) ∧ FailedClosed r i

theorem failed_succ (k : Nat) : Failed r (k + 1) ↔ Failed r k ∨ Fails (r.events k) := Nat.exists_lt_succ_right

theorem failedClosed_succ (k : Nat) :
    FailedClosed r (k + 1) ↔ FailedClosed r k ∨ r.events k = .close ∧ Failed r k :=
  Nat.exists_lt_succ_right

theorem failedAgain_succ (k : Nat) :
    FailedAgain r (k + 1) ↔ FailedAgain r k ∨ Fails (r.events k) ∧ FailedClosed r k :=
  Nat.exists_lt_succ_right

structure Phase (k : Nat) (s : SessionState) : Prop where
  before : ¬ Failed r k → s.disconnects = 0 ∧ s.status ≠ .disconnected
  failed : Failed r k → ¬ FailedClosed r k → s.disconnects = 1 ∧ s.status = .disconnected
  closed : FailedClosed r k → ¬ FailedAgain r k → s.disconnects = 1 ∧ s.status = .closed
  again : FailedAgain r k → 2 ≤ s.disconnects

variable {r}

theorem FailedClosed.failed {k : Nat} (h : FailedClosed r k) : Failed r k := by
  obtain ⟨j, hj, -, i, hi, hf⟩ := h
  exact ⟨i, hi.trans hj, hf⟩

theorem FailedAgain.closed {k : Nat} (h : FailedAgain r k) : FailedClosed r k := by
  obtain ⟨i, hi, -, j, hj, hf⟩ := h
  exact ⟨j, hj.trans hi, hf⟩

theorem phase_zero : Phase r 0 opened where
  before := fun _ => by decide
  failed := fun ⟨_, hi, _⟩ => absurd hi (Nat.not_lt_zero _)
  closed := fun ⟨_, hi, _⟩ => absurd hi (Nat.not_lt_zero _)
  again := fun ⟨_, hi, _⟩ => absurd hi (Nat.not_lt_zero _)

section
variable {k : Nat} {s s' : SessionState} (h : Phase r k s)
include h

theorem Phase.quiet (he : ¬ Fails (r.events k)) (hc : r.events k ≠ .close) (hs : s'.status = s.status)
    (hd : s'.disconnects = s.disconnects) : Phase r (k + 1) s' := by
  constructor <;> simp only [failed_succ, failedClosed_succ, failedAgain_succ, he, hc, hs, hd, false_and, or_false]
  · exact h.before
  · exact h.failed
  · exact h.closed
  · exact h.again

theorem Phase.close (he : r.events k = .close) (hs : s'.status = .closed)
    (hd : s'.disconnects = s.disconnects) :
    Phase r (k + 1) s' := by
  have hf : ¬ Fails (r.events k) := by rw [he]; decide
  have hclosed : FailedClosed r (k + 1) ↔ Failed r k := by
    rw [failedClosed_succ]
    exact ⟨fun h => h.elim FailedClosed.failed And.right, fun h => Or.inr ⟨he, h⟩⟩
  constructor <;> simp only [failed_succ, hclosed, failedAgain_succ, hf, hs, hd, false_and, or_false]
  · exact fun hn => ⟨(h.before hn).1, by decide⟩
  · exact fun hn hnot => absurd hn hnot
  · intro hn hnot
    by_cases hk : FailedClosed r k
    · exact ⟨(h.closed hk hnot).1, trivial⟩
    · exact ⟨(h.failed hn hk).1, trivial⟩
  · exact h.again

theorem Phase.fails (he : Fails (r.events k)) (hs' : s'.status = .disconnected)
    (hd : s'.disconnects = if s.status = .disconnected then s.disconnects else s.disconnects + 1) :
    Phase r (k + 1) s' := by
  have hc : r.events k ≠ .close := by rcases he with he | he <;> rw [he] <;> decide
  have hagain : FailedAgain r (k + 1) ↔ FailedClosed r k := by
    rw [failedAgain_succ]
    exact ⟨fun h => h.elim FailedAgain.closed And.right, fun h => Or.inr ⟨he, h⟩⟩
  constructor <;> simp only [failed_succ, failedClosed_succ, hagain, he, hc, hs', false_and, or_false, or_true]
  · exact fun hn => absurd trivial hn
  · intro _ hnot
    by_cases hk : Failed r k
    · obtain ⟨hone, hstatus⟩ := h.failed hk hnot
      exact ⟨by rw [hd, if_pos hstatus, hone], trivial⟩
    · obtain ⟨hzero, hstatus⟩ := h.before hk
      exact ⟨by rw [hd, if_neg hstatus, hzero], trivial⟩
  · exact fun hn hnot => absurd hn hnot
  · intro hk
    by_cases ha : FailedAgain r k
    · have := h.again ha
      rw [hd]
      split <;> omega
    · obtain ⟨hone, hstatus⟩ := h.closed hk ha
      rw [hd, if_neg (by rw [hstatus]; decide), hone]

theorem Phase.step (hm : Moves s s' (r.events k)) : Phase r (k + 1) s' := by
  cases hm with
  | quiet he hc hs hd => exact h.quiet he hc hs hd
  | close he hs hd => exact h.close he hs hd
  | again he hs hs' hd => exact h.fails he hs' (by rw [if_pos hs, hd])
  | handler he hs hs' hd => exact h.fails he hs' (by rw [if_neg hs, hd])

end

theorem phase_run (r : Execution) : ∀ k ≤ r.length, Phase r k (r.states k) := by
  apply r.induct (P := fun k => Phase r k (r.states k))
  · rw [r.starts]
    exact phase_zero
  · exact fun k hk ih => ih.step (moves_step (r.steps k hk))

theorem Phase.le_one_iff {k : Nat} {s : SessionState} (h : Phase r k s) :
    s.disconnects ≤ 1 ↔ ¬ FailedAgain r k := by
  constructor
  · intro hle ha
    have := h.again ha
    omega
  · intro hnot
    by_cases hc : FailedClosed r k
    · exact (h.closed hc hnot).1.le
    · by_cases hf : Failed r k
      · exact (h.failed hf hc).1.le
      · exact (h.before hf).1.le.trans (Nat.zero_le 1)

end

/-- The handler is called at most once in exactly the runs without a failure, a `close` after it and
another failure. -/
theorem disconnects_le_one_iff (r : Execution) : (∀ k ≤ r.length, (r.states k).disconnects ≤ 1) ↔
    ¬ ∃ i j k, i < j ∧ j < k ∧ k < r.length ∧ Fails (r.events i) ∧ r.events j = .close ∧
    Fails (r.events k) := by
  constructor
  · rintro h ⟨i, j, k, hij, hjk, hk, hi, hj, hfails⟩
    exact ((phase_run r r.length le_rfl).le_one_iff.mp (h r.length le_rfl))
      ⟨k, hk, hfails, j, hjk, hj, i, hij, hi⟩
  · intro h k hk
    refine (phase_run r k hk).le_one_iff.mpr ?_
    rintro ⟨l, hl, hfails, j, hjl, hj, i, hij, hi⟩
    exact h ⟨i, j, l, hij, hjl, by omega, hi, hj, hfails⟩

/-- The sessions of a server are never closed by it. -/
theorem disconnects_le_one_of_open (r : Execution) (h : ∀ j < r.length, r.events j ≠ .close) :
    ∀ k ≤ r.length, (r.states k).disconnects ≤ 1 := by
  intro k hk
  refine (phase_run r k hk).le_one_iff.mpr ?_
  rintro ⟨l, hl, -, j, hjl, hj, -⟩
  exact h j (by omega) hj

def closedAfterFailure : List SessionChange := [.startRead, .writeMessage, .writeFails, .close, .readFails]

theorem not_disconnects_le_one_closedAfterFailure : ∃ r : Execution, (r.states r.length).disconnects = 2 := by
  let r : Execution := .ofEvents opened rfl closedAfterFailure rfl
  exact ⟨r, by decide⟩

end SessionState

end FlowMQ
