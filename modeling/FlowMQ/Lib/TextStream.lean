import Mathlib

/-!
# Text input streams

A file as an input stream of the C++ library reads it: formatted extraction of
an `int` and unformatted reading of some bytes, with the end-of-file and failure
flags. A number written in decimal and followed by something that is no digit is
read back as it was.
-/

namespace TextStream

def isSpace (b : UInt8) : Bool := b = 32 || (9 ≤ b && b ≤ 13)

def isDigit (b : UInt8) : Bool := 48 ≤ b && b ≤ 57

def decimal (n : Nat) : List UInt8 := (Nat.toDigits 10 n).map fun c => UInt8.ofNat c.toNat

def decimalInt (z : Int) : List UInt8 := if z < 0 then 45 :: decimal z.natAbs else decimal z.natAbs

def digitsValue (digits : List UInt8) : Nat := digits.foldl (fun v d => 10 * v + (d.toNat - 48)) 0

structure IStream where
  data : List UInt8
  eof : Bool
  fail : Bool
  deriving DecidableEq, Repr

namespace IStream

def good (f : IStream) : Bool := !f.eof && !f.fail

def ofFile : Option (List UInt8) → IStream
  | some data => ⟨data, false, false⟩
  | none => ⟨[], false, true⟩

def takeSign : List UInt8 → Bool × List UInt8
  | [] => (false, [])
  | b :: text => if b = 45 then (true, text) else if b = 43 then (false, text) else (false, b :: text)

/-- `f >> v` for an `int` whose value was `old`. -/
def readInt (old : Int) (f : IStream) : Int × IStream :=
  if !f.good then (old, { f with fail := true })
  else if (f.data.dropWhile isSpace).isEmpty then (old, ⟨[], true, true⟩)
  else
    let (negative, text) := takeSign (f.data.dropWhile isSpace)
    let digits := text.takeWhile isDigit
    let rest := text.dropWhile isDigit
    let value : Int := if negative then -(digitsValue digits : Int) else digitsValue digits
    if digits.isEmpty then (0, ⟨rest, rest.isEmpty, true⟩)
    else if value < -2 ^ 31 then (-2 ^ 31, ⟨rest, rest.isEmpty, true⟩)
    else if 2 ^ 31 ≤ value then (2 ^ 31 - 1, ⟨rest, rest.isEmpty, true⟩)
    else (value, ⟨rest, rest.isEmpty, false⟩)

def read (n : Nat) (f : IStream) : List UInt8 × IStream :=
  if !f.good then ([], { f with fail := true })
  else if n ≤ f.data.length then (f.data.take n, { f with data := f.data.drop n })
  else (f.data, ⟨[], true, true⟩)

end IStream

/-! ## Decimal numbers -/

def digit (d : Nat) : UInt8 := UInt8.ofNat (Nat.digitChar d).toNat

theorem digit_spec {d : Nat} (h : d < 10) : (digit d).toNat = 48 + d ∧ isDigit (digit d) = true := by
  interval_cases d <;> decide

theorem decimal_induct {P : Nat → List UInt8 → Prop} (hd : ∀ d < 10, P d [digit d])
    (hs : ∀ m d, d < 10 → P m (decimal m) → P (10 * m + d) (decimal m ++ [digit d])) (n : Nat) :
    P n (decimal n) := by
  induction n using Nat.strong_induction_on with
  | _ n ih =>
    by_cases h : n < 10
    · rw [decimal, Nat.toDigits_of_lt_base h]
      exact hd n h
    · have hn :=
        Nat.toDigits_append_toDigits (b := 10) (n := n / 10) (d := n % 10) (by omega) (by omega) (by omega)
      rw [Nat.div_add_mod, Nat.toDigits_of_lt_base (Nat.mod_lt n (by omega))] at hn
      have hdec : decimal n = decimal (n / 10) ++ [digit (n % 10)] := by
        rw [decimal, ← hn, List.map_append]
        rfl
      have hlast := hs (n / 10) (n % 10) (Nat.mod_lt n (by omega)) (ih (n / 10) (by omega))
      rwa [Nat.div_add_mod, ← hdec] at hlast

theorem digitsValue_decimal (n : Nat) : digitsValue (decimal n) = n := by
  refine decimal_induct (P := fun n text => digitsValue text = n) ?_ ?_ n
  · intro d h
    simp [digitsValue, (digit_spec h).1]
  · intro m d h ih
    unfold digitsValue at ih ⊢
    rw [List.foldl_append, ih, List.foldl_cons, List.foldl_nil, (digit_spec h).1, Nat.add_sub_cancel_left]

theorem isDigit_decimal (n : Nat) : ∀ b ∈ decimal n, isDigit b = true := by
  refine decimal_induct (P := fun _ text => ∀ b ∈ text, isDigit b = true) ?_ ?_ n
  · intro d h b hb
    rw [List.mem_singleton.mp hb]
    exact (digit_spec h).2
  · intro m d h ih b hb
    rcases List.mem_append.mp hb with hb | hb
    · exact ih b hb
    · rw [List.mem_singleton.mp hb]
      exact (digit_spec h).2

theorem decimal_ne_nil (n : Nat) : decimal n ≠ [] :=
  decimal_induct (P := fun _ text => text ≠ []) (fun _ _ => List.cons_ne_nil _ _) (fun _ _ _ _ => by simp) n

theorem isDigit_cases {b : UInt8} (h : isDigit b = true) : isSpace b = false ∧ b ≠ 45 ∧ b ≠ 43 := by
  simp only [isDigit, Bool.and_eq_true, decide_eq_true_eq, UInt8.le_iff_toNat_le, UInt8.reduceToNat] at h
  have hne : ∀ c : UInt8, c.toNat < 48 → b ≠ c := by
    rintro c hc rfl
    omega
  refine ⟨?_, hne 45 (by decide), hne 43 (by decide)⟩
  simp only [isSpace, hne 32 (by decide), decide_false, Bool.false_or, Bool.and_eq_false_iff,
    decide_eq_false_iff_not, UInt8.le_iff_toNat_le, UInt8.reduceToNat]
  omega

/-! ## Reading back -/

namespace IStream

theorem span_digits {digits : List UInt8} {b : UInt8} (hd : ∀ x ∈ digits, isDigit x = true)
    (hb : isDigit b = false) (rest : List UInt8) : (digits ++ b :: rest).takeWhile isDigit = digits ∧
      (digits ++ b :: rest).dropWhile isDigit = b :: rest := by
  rw [List.takeWhile_append_of_pos hd, List.dropWhile_append_of_pos hd]
  simp [hb]

theorem takeSign_decimalInt (z : Int) (rest : List UInt8) :
    takeSign (decimalInt z ++ rest) = (decide (z < 0), decimal z.natAbs ++ rest) := by
  unfold decimalInt
  split
  · rename_i hneg
    simp [takeSign, hneg]
  · rename_i hneg
    obtain ⟨d, ds, hds⟩ := List.exists_cons_of_ne_nil (decimal_ne_nil z.natAbs)
    obtain ⟨-, hminus, hplus⟩ := isDigit_cases (isDigit_decimal z.natAbs d (by rw [hds]; simp))
    rw [hds]
    simp [takeSign, hneg, hminus, hplus]

theorem dropSpace_decimalInt (z : Int) (rest : List UInt8) :
    (decimalInt z ++ rest).dropWhile isSpace = decimalInt z ++ rest := by
  unfold decimalInt
  split
  · simp [show isSpace 45 = false from rfl]
  · obtain ⟨d, ds, hds⟩ := List.exists_cons_of_ne_nil (decimal_ne_nil z.natAbs)
    have hsp := (isDigit_cases (isDigit_decimal z.natAbs d (by rw [hds]; simp))).1
    rw [hds]
    simp [hsp]

theorem decimalInt_append_inj {z z' : Int} {b : UInt8} (hb : isDigit b = false) {rest rest' : List UInt8}
    (h : decimalInt z ++ b :: rest = decimalInt z' ++ b :: rest') : z = z' ∧ rest = rest' := by
  have hsign := congrArg takeSign h
  rw [takeSign_decimalInt, takeSign_decimalInt, Prod.mk.injEq] at hsign
  obtain ⟨hneg, hdigits⟩ := hsign
  have hspan := span_digits (isDigit_decimal z.natAbs) hb rest
  have hspan' := span_digits (isDigit_decimal z'.natAbs) hb rest'
  rw [hdigits] at hspan
  have habs : z.natAbs = z'.natAbs := by
    have hsame := congrArg digitsValue (hspan.1.symm.trans hspan'.1)
    rwa [digitsValue_decimal, digitsValue_decimal] at hsame
  refine ⟨?_, List.tail_eq_of_cons_eq (hspan.2.symm.trans hspan'.2)⟩
  have hiff : z < 0 ↔ z' < 0 := decide_eq_decide.mp hneg
  omega

theorem signed_natAbs (z : Int) :
    (if decide (z < 0) = true then -((z.natAbs : Nat) : Int) else (z.natAbs : Int)) = z := by
  by_cases hz : z < 0
  · rw [if_pos (decide_eq_true hz)]
    omega
  · rw [if_neg (by simpa using hz)]
    omega

theorem readInt_decimalInt (old z : Int) (hz : -2 ^ 31 ≤ z ∧ z < 2 ^ 31) {b : UInt8} (hb : isDigit b = false)
    (rest : List UInt8) :
    readInt old ⟨decimalInt z ++ b :: rest, false, false⟩ = (z, ⟨b :: rest, false, false⟩) := by
  have hspan := span_digits (isDigit_decimal z.natAbs) hb rest
  have hne : (decimalInt z ++ b :: rest).isEmpty = false := by simp
  have hne' : (decimal z.natAbs).isEmpty = false := by simpa using decimal_ne_nil z.natAbs
  simp only [readInt, good, dropSpace_decimalInt, takeSign_decimalInt, hspan.1, hspan.2,
    digitsValue_decimal, hne, hne', signed_natAbs]
  rw [if_neg (by decide), if_neg (by decide), if_neg (by decide), if_neg (not_lt.mpr hz.1),
    if_neg (not_le.mpr hz.2)]
  rfl

theorem readInt_decimal (old : Int) {n : Nat} (hn : (n : Int) < 2 ^ 31) {b : UInt8} (hb : isDigit b = false)
    (rest : List UInt8) :
    readInt old ⟨decimal n ++ b :: rest, false, false⟩ = ((n : Int), ⟨b :: rest, false, false⟩) := by
  have h := readInt_decimalInt old n ⟨by omega, hn⟩ hb rest
  rwa [decimalInt, if_neg (by omega), Int.natAbs_natCast] at h

theorem readInt_eof (old : Int) {digits : List UInt8} (hd : ∀ b ∈ digits, isDigit b = true) :
    (readInt old ⟨digits, false, false⟩).2.eof = true := by
  cases digits with
  | nil => simp [readInt, good]
  | cons d ds =>
    obtain ⟨hspace, hminus, hplus⟩ := isDigit_cases (hd d List.mem_cons_self)
    have hspaces : (d :: ds).dropWhile isSpace = d :: ds := by
      rw [List.dropWhile_cons_of_neg (by simp [hspace])]
    have hsign : takeSign (d :: ds) = (false, d :: ds) := by simp [takeSign, hminus, hplus]
    have hrest : (d :: ds).dropWhile isDigit = [] := List.dropWhile_eq_nil_iff.mpr hd
    simp only [readInt, good, hspaces, hsign, hrest]
    rw [if_neg (by decide), if_neg (by simp)]
    split_ifs <;> rfl

theorem read_append (bs rest : List UInt8) :
    read bs.length ⟨bs ++ rest, false, false⟩ = (bs, ⟨rest, false, false⟩) := by
  simp [read, good]

theorem read_short {n : Nat} {bs : List UInt8} (h : bs.length < n) :
    read n ⟨bs, false, false⟩ = (bs, ⟨[], true, true⟩) := by
  simp [read, good, h]

end IStream

/-! ## Numbers in an array -/

def takeStart (text : List UInt8) : Bool × List UInt8 := IStream.takeSign (text.dropWhile isSpace)

def NumberEnds (text : List UInt8) : Prop := (takeStart text).2.dropWhile isDigit ≠ []

instance (text : List UInt8) : Decidable (NumberEnds text) := inferInstanceAs (Decidable (_ ≠ _))

/-- `std::atoi` on an array that need not end with a zero: undefined where the number runs to the end of the
array, and where it is not an `int`. -/
def atoi (text : List UInt8) : Option Int :=
  let (negative, rest) := takeStart text
  let value : Int :=
    if negative then -(digitsValue (rest.takeWhile isDigit) : Int) else digitsValue (rest.takeWhile isDigit)
  if NumberEnds text ∧ -2 ^ 31 ≤ value ∧ value < 2 ^ 31 then some value else none

theorem takeStart_decimalInt (z : Int) (rest : List UInt8) :
    takeStart (decimalInt z ++ rest) = (decide (z < 0), decimal z.natAbs ++ rest) := by
  rw [takeStart, IStream.dropSpace_decimalInt, IStream.takeSign_decimalInt]

theorem atoi_decimalInt {z : Int} (hz : -2 ^ 31 ≤ z ∧ z < 2 ^ 31) {b : UInt8} (hb : isDigit b = false)
    (rest : List UInt8) :
    atoi (decimalInt z ++ b :: rest) = some z := by
  have hspan := IStream.span_digits (isDigit_decimal z.natAbs) hb rest
  have hends : NumberEnds (decimalInt z ++ b :: rest) := by
    rw [NumberEnds, takeStart_decimalInt, hspan.2]
    exact List.cons_ne_nil _ _
  simp only [atoi, takeStart_decimalInt, hspan.1, digitsValue_decimal, IStream.signed_natAbs]
  rw [if_pos ⟨hends, hz⟩]

theorem takeSign_append {text : List UInt8} (h : text ≠ []) (rest : List UInt8) :
    IStream.takeSign (text ++ rest) = ((IStream.takeSign text).1, (IStream.takeSign text).2 ++ rest) := by
  cases text with
  | nil => exact absurd rfl h
  | cons b text =>
    simp only [List.cons_append, IStream.takeSign]
    split
    · rfl
    · split <;> rfl

theorem dropWhile_ne_nil {text : List UInt8} (h : NumberEnds text) : text.dropWhile isSpace ≠ [] := by
  intro hnil
  unfold NumberEnds takeStart at h
  rw [hnil] at h
  exact h rfl

theorem takeStart_append {text : List UInt8} (h : text.dropWhile isSpace ≠ []) (rest : List UInt8) :
    takeStart (text ++ rest) = ((takeStart text).1, (takeStart text).2 ++ rest) := by
  unfold takeStart
  rw [List.dropWhile_append, if_neg (by simpa using h), takeSign_append h]

theorem atoi_append {text : List UInt8} (h : NumberEnds text) (rest : List UInt8) :
    atoi (text ++ rest) = atoi text := by
  have hstart := takeStart_append (dropWhile_ne_nil h) rest
  have hdrop : ((takeStart text).2 ++ rest).dropWhile isDigit =
      (takeStart text).2.dropWhile isDigit ++ rest := by
    rw [List.dropWhile_append, if_neg (by simpa [NumberEnds] using h)]
  have htake : ((takeStart text).2 ++ rest).takeWhile isDigit = (takeStart text).2.takeWhile isDigit := by
    rw [List.takeWhile_append, if_neg]
    intro hlen
    have hsum :=
      congrArg List.length (List.takeWhile_append_dropWhile (p := isDigit) (l := (takeStart text).2))
    rw [List.length_append] at hsum
    exact h (List.length_eq_zero_iff.mp (by omega))
  have hends : NumberEnds (text ++ rest) := by
    unfold NumberEnds
    rw [hstart, hdrop]
    exact fun hnil => h (List.append_eq_nil_iff.mp hnil).1
  unfold atoi
  simp only [hstart, htake, h, hends, true_and]

theorem atoi_append_digits {text digits : List UInt8} (h : ¬ NumberEnds text)
    (hd : ∀ b ∈ digits, isDigit b = true) :
    atoi (text ++ digits) = none := by
  have hends : ¬ NumberEnds (text ++ digits) := by
    unfold NumberEnds at h ⊢
    rw [not_not] at h ⊢
    by_cases hspace : text.dropWhile isSpace = []
    · unfold takeStart
      rw [List.dropWhile_append, hspace, if_pos List.isEmpty_nil]
      cases digits with
      | nil => rfl
      | cons d digits =>
        obtain ⟨hs, hminus, hplus⟩ := isDigit_cases (hd d List.mem_cons_self)
        rw [List.dropWhile_cons_of_neg (by simp [hs])]
        simp only [IStream.takeSign, hminus, hplus, if_false]
        exact List.dropWhile_eq_nil_iff.mpr hd
    · rw [takeStart_append hspace, List.dropWhile_append, h, if_pos List.isEmpty_nil]
      exact List.dropWhile_eq_nil_iff.mpr hd
  unfold atoi
  simp only [hends, false_and, if_false]

theorem numberEnds_of_atoi {text : List UInt8} {n : Int} (h : atoi text = some n) : NumberEnds text := by
  by_contra hends
  have hnone := @atoi_append_digits text [] hends fun b hb => by cases hb
  rw [List.append_nil, h] at hnone
  cases hnone

end TextStream
