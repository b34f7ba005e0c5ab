import FlowMQ.Lib.TextStream

/-!
# Strings of the C++ library

A string is shorter than `npos`, the position that a search without a result
returns. `substr` throws where it is to start behind the end, so it throws for
`npos`.
-/

/-- What the library throws; the texts of its own exceptions are left open. -/
inductive StdException where
  | outOfRange
  | invalidArgument
  | logicError (what : List UInt8)
  deriving DecidableEq, Repr

namespace StdString

def npos : Nat := 2 ^ 64 - 1

end StdString

@[ext] structure StdString where
  bytes : List UInt8
  bounded : bytes.length < StdString.npos
  deriving DecidableEq, Repr

namespace StdString

open TextStream

def empty : StdString := ⟨[], by decide⟩

def isEmpty (s : StdString) : Bool := s.bytes.isEmpty

def findFirst (p : UInt8 → Bool) (s : StdString) : Nat := (s.bytes.findIdx? p).getD npos

def findLast (p : UInt8 → Bool) (s : StdString) : Nat :=
  match s.bytes.reverse.findIdx? p with
  | some i => s.bytes.length - 1 - i
  | none => npos

def findFirstOf (c : UInt8) (s : StdString) : Nat := s.findFirst fun b => b = c

def findFirstNotOf (c : UInt8) (s : StdString) : Nat := s.findFirst fun b => b ≠ c

def findLastNotOf (c : UInt8) (s : StdString) : Nat := s.findLast fun b => b ≠ c

def substr (pos n : Nat) (s : StdString) : Except StdException StdString :=
  if pos ≤ s.bytes.length then
    .ok ⟨(s.bytes.drop pos).take n, by
      have := s.bounded
      rw [List.length_take, List.length_drop]
      omega⟩
  else .error .outOfRange

/-- `std::stoi` and `std::stoll`, for numbers of `bits` bits: the text behind the number does not matter. -/
def toNumber (bits : Nat) (text : List UInt8) : Except StdException Int :=
  let (negative, rest) := takeStart text
  let digits := rest.takeWhile isDigit
  let value : Int := if negative then -(digitsValue digits : Int) else digitsValue digits
  if digits.isEmpty then .error .invalidArgument
  else if -2 ^ (bits - 1) ≤ value ∧ value < 2 ^ (bits - 1) then .ok value
  else .error .outOfRange

def stoi (text : List UInt8) : Except StdException Int := toNumber 32 text

def stoll (text : List UInt8) : Except StdException Int := toNumber 64 text

/-- `std::getline`, or `none` where the stream is in a failed state after it. -/
def getline (f : IStream) : Option (StdString × IStream) :=
  if !f.good || f.data.isEmpty then none
  else if h : (f.data.takeWhile (· ≠ 10)).length < npos then
    some (⟨f.data.takeWhile (· ≠ 10), h⟩,
      match f.data.dropWhile (· ≠ 10) with
      | [] => ⟨[], true, false⟩
      | _ :: rest => ⟨rest, false, false⟩)
  else none

/-! ## Numbers -/

theorem toNumber_decimalInt {bits : Nat} {z : Int} (hz : -2 ^ (bits - 1) ≤ z ∧ z < 2 ^ (bits - 1)) :
    toNumber bits (decimalInt z) = .ok z := by
  have hstart := takeStart_decimalInt z []
  have hdigits : (decimal z.natAbs).takeWhile isDigit = decimal z.natAbs :=
    List.takeWhile_eq_self_iff.mpr (isDigit_decimal z.natAbs)
  have hne : (decimal z.natAbs).isEmpty = false := by simpa using decimal_ne_nil z.natAbs
  rw [List.append_nil, List.append_nil] at hstart
  simp only [toNumber, hstart, hdigits, hne, digitsValue_decimal, IStream.signed_natAbs]
  rw [if_neg (by decide), if_pos hz]

/-! ## Lines -/

theorem span_line {line : List UInt8} (h : 10 ∉ line) (rest : List UInt8) :
    (line ++ 10 :: rest).takeWhile (· ≠ 10) = line ∧ (line ++ 10 :: rest).dropWhile (· ≠ 10) = 10 :: rest := by
  have hp : ∀ b ∈ line, decide (b ≠ 10) = true := fun b hb => decide_eq_true fun he => h (he ▸ hb)
  rw [List.takeWhile_append_of_pos hp, List.dropWhile_append_of_pos hp]
  simp

theorem getline_append {line : StdString} (h : 10 ∉ line.bytes) (rest : List UInt8) :
    getline ⟨line.bytes ++ 10 :: rest, false, false⟩ = some (line, ⟨rest, false, false⟩) := by
  obtain ⟨htake, hdrop⟩ := span_line h rest
  simp only [getline, htake, hdrop]
  rw [if_neg (by simp [IStream.good]), dif_pos line.bounded]

theorem getline_last {line : StdString} (h : 10 ∉ line.bytes) (hne : line.bytes ≠ []) :
    getline ⟨line.bytes, false, false⟩ = some (line, ⟨[], true, false⟩) := by
  have hp : ∀ b ∈ line.bytes, decide (b ≠ 10) = true := fun b hb => decide_eq_true fun he => h (he ▸ hb)
  have htake := List.takeWhile_eq_self_iff.mpr hp
  have hdrop := List.dropWhile_eq_nil_iff.mpr hp
  simp only [getline, htake, hdrop]
  rw [if_neg (by simp [IStream.good, hne]), dif_pos line.bounded]

/-- A text whose lines are the given ones; the last of them may be without a newline. -/
inductive LinesOf : List StdString → List UInt8 → Prop
  | nil : LinesOf [] []
  | last {line : StdString} (h : 10 ∉ line.bytes) : LinesOf [line] line.bytes
  | cons {line : StdString} {lines : List StdString} {text : List UInt8} (h : 10 ∉ line.bytes)
      (ht : LinesOf lines text) :
    LinesOf (line :: lines) (line.bytes ++ 10 :: text)

theorem linesOf_flatMap {lines : List StdString} (h : ∀ line ∈ lines, 10 ∉ line.bytes) :
    LinesOf lines (lines.flatMap fun line => line.bytes ++ [10]) := by
  induction lines with
  | nil => exact .nil
  | cons line lines ih =>
    rw [List.forall_mem_cons] at h
    simpa using LinesOf.cons h.1 (ih h.2)

/-! ## Positions -/

section
variable {s : StdString} {p : UInt8 → Bool} {front back : List UInt8} {c : UInt8}

theorem findIdx?_append_cons (hfront : ∀ b ∈ front, p b = false) (hc : p c = true) :
    (front ++ c :: back).findIdx? p = some front.length := by
  rw [List.findIdx?_append, List.findIdx?_eq_none_iff.mpr hfront, List.findIdx?_cons, if_pos hc]
  simp

theorem findFirst_append (hs : s.bytes = front ++ c :: back) (hfront : ∀ b ∈ front, p b = false) (hc : p c = true) :
    s.findFirst p = front.length := by
  rw [findFirst, hs, findIdx?_append_cons hfront hc, Option.getD_some]

theorem findLast_append (hs : s.bytes = front ++ c :: back) (hback : ∀ b ∈ back, p b = false) (hc : p c = true) :
    s.findLast p = front.length := by
  have hrev : s.bytes.reverse = back.reverse ++ c :: front.reverse := by simp [hs]
  rw [findLast, hrev, findIdx?_append_cons (fun b hb => hback b (List.mem_reverse.mp hb)) hc, hs]
  simp only [List.length_append, List.length_cons, List.length_reverse]
  omega

theorem findFirst_eq_npos (h : ∀ b ∈ s.bytes, p b = false) : s.findFirst p = npos := by
  rw [findFirst, List.findIdx?_eq_none_iff.mpr h, Option.getD_none]

end

theorem substr_ok {s : StdString} {pos : Nat} (h : pos ≤ s.bytes.length) (n : Nat) :
    ∃ t, s.substr pos n = .ok t ∧ t.bytes = (s.bytes.drop pos).take n := by
  simp [substr, h]

theorem substr_npos (n : Nat) (s : StdString) : s.substr npos n = .error .outOfRange := by
  rw [substr, if_neg (Nat.not_le_of_lt s.bounded)]

/-! ## Text between spaces -/

structure Trimmed (c : UInt8) (text core : List UInt8) : Prop where
  padded : ∃ a b, text = List.replicate a c ++ core ++ List.replicate b c
  front : core.head? ≠ some c
  back : core.getLast? ≠ some c

section
variable {c : UInt8} {text core : List UInt8}

theorem exists_trimmed (c : UInt8) (text : List UInt8) : ∃ core, Trimmed c text core := by
  let p : UInt8 → Bool := fun b => b = c
  have hpad : ∀ l : List UInt8, (∀ b ∈ l, p b = true) → l = List.replicate l.length c := fun l hl =>
    List.eq_replicate_iff.mpr ⟨rfl, fun b hb => of_decide_eq_true (hl b hb)⟩
  refine ⟨(text.dropWhile p).rdropWhile p,
    ⟨(text.takeWhile p).length, ((text.dropWhile p).rtakeWhile p).length, ?_⟩, ?_, ?_⟩
  · rw [← hpad _ fun b hb => List.mem_takeWhile_imp hb, ← hpad _ fun b hb => List.mem_rtakeWhile_imp hb,
      List.append_assoc, List.rdropWhile_append_rtakeWhile, List.takeWhile_append_dropWhile]
  · intro h
    obtain ⟨rest, hcore⟩ := List.head?_eq_some_iff.mp h
    obtain ⟨tail, htail⟩ := List.rdropWhile_prefix p (text.dropWhile p)
    have hhead := List.head?_dropWhile_not p text
    rw [← htail, hcore, List.cons_append, List.head?_cons] at hhead
    exact absurd hhead (by simp [p])
  · intro h
    have hne : (text.dropWhile p).rdropWhile p ≠ [] := fun hnil => by rw [hnil] at h; cases h
    rw [List.getLast?_eq_some_getLast hne] at h
    exact List.rdropWhile_last_not p _ hne (decide_eq_true (Option.some.inj h))

theorem Trimmed.eq_nil_iff (h : Trimmed c text core) : core = [] ↔ ∀ b ∈ text, b = c := by
  obtain ⟨a, b, rfl⟩ := h.padded
  constructor
  · rintro rfl x hx
    rw [List.append_nil, List.mem_append] at hx
    exact hx.elim List.eq_of_mem_replicate List.eq_of_mem_replicate
  · intro hall
    cases hcore : core with
    | nil => rfl
    | cons x rest =>
      have hx := hall x (by simp [hcore])
      exact absurd (by rw [hcore, hx]; rfl) h.front

end

end StdString
