import Mathlib

/-!
# The protocol buffer wire format

Varints, signed numbers as varints, and the fields of a message. Fields that
were written one after another are read back in that order. Reading is that of
`MergePartialFromCodedStream`, which takes numbers and texts, skips fields of a
fixed width and groups, and stops at a tag that it cannot read or that is 0.
-/

namespace Wire

/-- The varint of `n` in at most `groups` bytes of seven bits, the lowest first. -/
def varintIn : Nat → Nat → List UInt8
  | 0, _ => []
  | groups + 1, n =>
    if n < 128 then [UInt8.ofNat n] else UInt8.ofNat (n % 128 + 128) :: varintIn groups (n / 128)

def readVarintIn : Nat → List UInt8 → Option (Nat × List UInt8)
  | 0, _ => none
  | _ + 1, [] => none
  | groups + 1, b :: text =>
    if b.toNat < 128 then some (b.toNat, text)
    else (readVarintIn groups text).map fun r => (b.toNat - 128 + 128 * r.1, r.2)

def varint (n : Nat) : List UInt8 := varintIn 10 n

def readVarint (text : List UInt8) : Option (Nat × List UInt8) := readVarintIn 10 text

/-- A signed number goes into a varint as its two's complement of 64 bits. -/
def ofInt (z : Int) : Nat := (z % 2 ^ 64).toNat

def toInt (bits n : Nat) : Int :=
  if n % 2 ^ bits < 2 ^ (bits - 1) then (n % 2 ^ bits : Nat) else ((n % 2 ^ bits : Nat) : Int) - 2 ^ bits

inductive Value where
  | varint (n : Nat)
  | bytes (b : List UInt8)
  deriving DecidableEq, Repr

def Value.Fits : Value → Prop
  | .varint n => n < 2 ^ 64
  | .bytes b => b.length < 2 ^ 64

def field (f : Nat × Value) : List UInt8 :=
  match f.2 with
  | .varint n => varint (8 * f.1) ++ varint n
  | .bytes b => varint (8 * f.1 + 2) ++ (varint b.length ++ b)

/-- What is read for a field: a value, or a text that ends before its length. -/
inductive Item where
  | value (v : Value)
  | cut (b : List UInt8)
  deriving DecidableEq, Repr

def Item.size : Item → Nat
  | .value (.varint _) => 0
  | .value (.bytes b) => b.length
  | .cut b => b.length

def readTag (text : List UInt8) : Option (Nat × List UInt8) :=
  (readVarint text).map fun r => (r.1 % 2 ^ 32, r.2)

def skipBytes (n : Nat) (text : List UInt8) : Option (List UInt8) :=
  if n ≤ text.length then some (text.drop n) else none

def skipField (group : Nat → List UInt8 → Option (List UInt8)) (tag : Nat) (text : List UInt8) :
    Option (List UInt8) :=
  if tag / 8 = 0 then none
  else
    match tag % 8 with
    | 0 => (readVarint text).map Prod.snd
    | 1 => skipBytes 8 text
    | 2 => (readVarint text).bind fun r => skipBytes r.1 r.2
    | 3 => group (tag / 8) text
    | 5 => skipBytes 4 text
    | _ => none

/-- The fields of a group up to the tag that ends it. A field takes at least one byte. -/
def skipGroup : Nat → Nat → List UInt8 → Option (List UInt8)
  | 0, _, _ => none
  | fuel + 1, number, text =>
    (readTag text).bind fun r =>
      if r.1 = 8 * number + 4 then some r.2 else (skipField (skipGroup fuel) r.1 r.2).bind (skipGroup fuel number)

def readItem (tag : Nat) (text : List UInt8) : Option (Option Item × List UInt8) :=
  match tag % 8 with
  | 0 => (readVarint text).map fun r => (some (.value (.varint r.1)), r.2)
  | 2 =>
    (readVarint text).bind fun r =>
      if r.1 ≤ r.2.length then some (some (.value (.bytes (r.2.take r.1))), r.2.drop r.1)
      else if r.1 < 2 ^ 31 then some (some (.cut r.2), [])
      else none
  | _ => (skipField (skipGroup text.length) tag text).map fun rest => (none, rest)

/-- The fields of a text up to the first that cannot be read, and whether this is its end. A tag of number 0
is no tag. -/
def readFields (text : List UInt8) : List (Nat × Item) × Bool := go text.length text
where
  go : Nat → List UInt8 → List (Nat × Item) × Bool
    | _, [] => ([], true)
    | 0, _ :: _ => ([], false)
    | k + 1, byte :: text =>
      match readTag (byte :: text) with
      | none => ([], false)
      | some (tag, text) =>
        if tag / 8 = 0 then ([], false)
        else
          match readItem tag text with
          | none => ([], false)
          | some (item, text) => ((item.toList.map fun i => (tag / 8, i)) ++ (go k text).1, (go k text).2)

/-! ## Sizes -/

theorem length_varintIn (groups n : Nat) :
    1 ≤ (varintIn (groups + 1) n).length ∧ (varintIn (groups + 1) n).length ≤ groups + 1 := by
  induction groups generalizing n with
  | zero =>
    rw [varintIn]
    split <;> simp [varintIn]
  | succ groups ih =>
    rw [varintIn]
    split
    · simp
    · have := ih (n / 128)
      rw [List.length_cons]
      omega

theorem length_varint (n : Nat) : 1 ≤ (varint n).length ∧ (varint n).length ≤ 10 := length_varintIn 9 n

theorem length_varint_of_lt {n : Nat} (h : n < 128) : (varint n).length = 1 := by
  rw [varint, varintIn, if_pos h]
  rfl

theorem length_varint_of_le {n : Nat} (h₁ : 128 ≤ n) (h₂ : n < 16384) : (varint n).length = 2 := by
  rw [varint, varintIn, if_neg (by omega), varintIn, if_pos (by omega)]
  rfl

@[simp] theorem length_field_varint {number : Nat} (h : number < 16) (n : Nat) :
    (field (number, .varint n)).length = 1 + (varint n).length := by
  rw [field, List.length_append, length_varint_of_lt (by omega)]

@[simp] theorem length_field_bytes {number : Nat} (h : number < 16) (b : List UInt8) :
    (field (number, .bytes b)).length = 1 + (varint b.length).length + b.length := by
  rw [field, List.length_append, List.length_append, length_varint_of_lt (by omega)]
  omega

/-! ## Reading back -/

theorem toNat_byte {n : Nat} (h : n < 256) : (UInt8.ofNat n).toNat = n := UInt8.toNat_ofNat_of_lt' h

theorem readVarintIn_varintIn (groups n : Nat) (hn : n < 128 ^ (groups + 1)) (rest : List UInt8) :
    readVarintIn (groups + 1) (varintIn (groups + 1) n ++ rest) = some (n, rest) := by
  induction groups generalizing n with
  | zero =>
    have hbyte : (UInt8.ofNat n).toNat = n := toNat_byte (by omega)
    rw [varintIn, if_pos (by omega)]
    simp [readVarintIn, hbyte, show n < 128 by omega]
  | succ groups ih =>
    rw [varintIn]
    split
    · rename_i hlt
      have hbyte : (UInt8.ofNat n).toNat = n := toNat_byte (by omega)
      simp [readVarintIn, hbyte, hlt]
    · have hbyte : (UInt8.ofNat (n % 128 + 128)).toNat = n % 128 + 128 := toNat_byte (by omega)
      have hrest := ih (n / 128) (by rw [Nat.div_lt_iff_lt_mul (by omega), ← pow_succ]; exact hn)
      rw [List.cons_append, readVarintIn, hbyte, if_neg (by omega), hrest]
      simp only [Option.map_some, Option.some.injEq, Prod.mk.injEq, and_true]
      omega

theorem readVarint_varint {n : Nat} (hn : n < 2 ^ 64) (rest : List UInt8) :
    readVarint (varint n ++ rest) = some (n, rest) :=
  readVarintIn_varintIn 9 n (by omega) rest

theorem ofInt_lt (z : Int) : ofInt z < 2 ^ 64 := by
  unfold ofInt
  omega

theorem toInt_ofInt_32 {z : Int} (hz : -2 ^ 31 ≤ z ∧ z < 2 ^ 31) : toInt 32 (ofInt z) = z := by
  unfold toInt ofInt
  split <;> omega

theorem toInt_ofInt_64 {z : Int} (hz : -2 ^ 63 ≤ z ∧ z < 2 ^ 63) : toInt 64 (ofInt z) = z := by
  unfold toInt ofInt
  split <;> omega

theorem readTag_varint {tag : Nat} (h : tag < 2 ^ 32) (rest : List UInt8) :
    readTag (varint tag ++ rest) = some (tag, rest) := by
  rw [readTag, readVarint_varint (by omega), Option.map_some, Nat.mod_eq_of_lt h]

theorem readFields_go_cons {f : Nat × Value} (hf : 0 < f.1 ∧ f.1 < 2 ^ 29) (hv : f.2.Fits) (k : Nat)
    (rest : List UInt8) :
    readFields.go (k + 1) (field f ++ rest) =
      ((f.1, .value f.2) :: (readFields.go k rest).1, (readFields.go k rest).2) := by
  obtain ⟨number, v⟩ := f
  -- the text is not empty, so that the loop goes on
  have hgo : ∀ {tag : Nat} {text : List UInt8}, tag < 2 ^ 32 → tag / 8 ≠ 0 →
      readFields.go (k + 1) (varint tag ++ text) = match readItem tag text with
        | none => ([], false)
        | some (item, text) =>
          ((item.toList.map fun i => (tag / 8, i)) ++ (readFields.go k text).1,
            (readFields.go k text).2) := by
    intro tag text htag hnumber
    have hread := readTag_varint htag text
    cases hcons : varint tag ++ text with
    | nil =>
      have := (length_varint tag).1
      simp only [List.append_eq_nil_iff] at hcons
      rw [hcons.1] at this
      exact absurd this (by decide)
    | cons byte text' =>
      rw [hcons] at hread
      simp only [readFields.go, hread, if_neg hnumber]
  cases v with
  | varint n =>
    have htag : (8 * number) % 8 = 0 := by omega
    have hnumber : 8 * number / 8 = number := by omega
    rw [field, List.append_assoc, hgo (by simp only at hf; omega) (by simp only at hf; omega), hnumber]
    simp only [readItem, htag, readVarint_varint hv, Option.map_some, Option.toList_some, List.map_cons,
      List.map_nil, List.singleton_append]
  | bytes b =>
    have htag : (8 * number + 2) % 8 = 2 := by omega
    have hnumber : (8 * number + 2) / 8 = number := by omega
    rw [field, List.append_assoc, hgo (by simp only at hf; omega) (by simp only at hf; omega), hnumber]
    simp only [readItem, htag, List.append_assoc, readVarint_varint hv, Option.bind_some, List.length_append,
      Nat.le_add_right, if_true, List.take_left, List.drop_left, Option.toList_some, List.map_cons, List.map_nil,
      List.singleton_append]

theorem length_readVarintIn : ∀ {groups : Nat} {text rest : List UInt8} {n : Nat},
    readVarintIn groups text = some (n, rest) → rest.length ≤ text.length
  | groups + 1, b :: text, rest, n, h => by
    rw [readVarintIn] at h
    split at h
    · cases h
      exact Nat.le_succ _
    · obtain ⟨r, hr, hrest⟩ := Option.map_eq_some_iff.mp h
      cases hrest
      exact (length_readVarintIn hr).trans (Nat.le_succ _)

theorem length_readTag {text : List UInt8} {r : Nat × List UInt8} (h : readTag text = some r) :
    r.2.length ≤ text.length := by
  obtain ⟨r', hr', rfl⟩ := Option.map_eq_some_iff.mp h
  exact length_readVarintIn hr'

theorem length_skipBytes {n : Nat} {text rest : List UInt8} (h : skipBytes n text = some rest) :
    rest.length ≤ text.length := by
  unfold skipBytes at h
  split at h
  · cases h
    rw [List.length_drop]
    omega
  · cases h

theorem length_skipField {group : Nat → List UInt8 → Option (List UInt8)} {tag : Nat} {text rest : List UInt8}
    (hgroup : ∀ number text rest, group number text = some rest → rest.length ≤ text.length)
    (h : skipField group tag text = some rest) : rest.length ≤ text.length := by
  unfold skipField at h
  split at h
  · cases h
  · split at h
    · obtain ⟨r, hr, rfl⟩ := Option.map_eq_some_iff.mp h
      exact length_readVarintIn hr
    · exact length_skipBytes h
    · obtain ⟨r, hr, h⟩ := Option.bind_eq_some_iff.mp h
      exact (length_skipBytes h).trans (length_readVarintIn hr)
    · exact hgroup _ _ _ h
    · exact length_skipBytes h
    · cases h

theorem length_skipGroup (fuel : Nat) : ∀ number text rest, skipGroup fuel number text = some rest →
    rest.length ≤ text.length := by
  induction fuel with
  | zero => exact fun _ _ _ h => nomatch h
  | succ fuel ih =>
    intro number text rest h
    obtain ⟨r, hr, h⟩ := Option.bind_eq_some_iff.mp h
    refine le_trans ?_ (length_readTag hr)
    split at h
    · cases h
      exact le_rfl
    · obtain ⟨rest', hrest', h⟩ := Option.bind_eq_some_iff.mp h
      exact (ih _ _ _ h).trans (length_skipField ih hrest')

theorem length_readItem {tag : Nat} {text rest : List UInt8} {item : Option Item}
    (h : readItem tag text = some (item, rest)) :
    (∀ i ∈ item, i.size ≤ text.length) ∧ rest.length ≤ text.length := by
  unfold readItem at h
  split at h
  · obtain ⟨r, hr, h⟩ := Option.map_eq_some_iff.mp h
    cases h
    refine ⟨fun i hi => ?_, length_readVarintIn hr⟩
    cases hi
    exact Nat.zero_le _
  · obtain ⟨r, hr, h⟩ := Option.bind_eq_some_iff.mp h
    have hrest := length_readVarintIn hr
    split at h
    · cases h
      refine ⟨fun i hi => ?_, ?_⟩
      · cases hi
        simp only [Item.size, List.length_take]
        omega
      · rw [List.length_drop]
        omega
    · split at h
      · cases h
        refine ⟨fun i hi => ?_, Nat.zero_le _⟩
        cases hi
        exact hrest
      · cases h
  · obtain ⟨rest', hrest', h⟩ := Option.map_eq_some_iff.mp h
    cases h
    refine ⟨fun i hi => ?_, length_skipField (length_skipGroup _) hrest'⟩
    cases hi

theorem size_of_mem_readFields {text : List UInt8} {f : Nat × Item} (h : f ∈ (readFields text).1) :
    f.2.size ≤ text.length := by
  have hgo : ∀ k text, f ∈ (readFields.go k text).1 → f.2.size ≤ text.length := by
    intro k
    induction k with
    | zero =>
      intro text hf
      cases text with
      | nil => exact absurd hf List.not_mem_nil
      | cons byte text => exact absurd hf List.not_mem_nil
    | succ k ih =>
      intro text hf
      cases text with
      | nil => exact absurd hf List.not_mem_nil
      | cons byte text =>
        rw [readFields.go] at hf
        split at hf
        · exact absurd hf List.not_mem_nil
        · rename_i tag text₁ htag
          have h₁ := length_readTag htag
          split at hf
          · exact absurd hf List.not_mem_nil
          · split at hf
            · exact absurd hf List.not_mem_nil
            · rename_i item text₂ hitem
              obtain ⟨hsize, h₂⟩ := length_readItem hitem
              rcases List.mem_append.mp hf with hf | hf
              · obtain ⟨i, hi, rfl⟩ := List.mem_map.mp hf
                exact (hsize i (Option.mem_toList.mp hi)).trans h₁
              · exact (ih text₂ hf).trans (h₂.trans h₁)
  exact hgo _ _ h

def Value.room : Value → Nat
  | .varint _ => 11
  | .bytes b => 11 + b.length

theorem length_fields_le {l : List (Nat × Value)} (h : ∀ f ∈ l, f.1 < 16) :
    (l.flatMap field).length ≤ (l.map fun f => f.2.room).sum := by
  rw [List.length_flatMap]
  refine List.sum_le_sum fun f hf => ?_
  obtain ⟨number, v⟩ := f
  cases v with
  | varint n =>
    rw [length_field_varint (h _ hf), Value.room]
    have := (length_varint n).2
    omega
  | bytes b =>
    rw [length_field_bytes (h _ hf), Value.room]
    have := (length_varint b.length).2
    omega

theorem field_ne_nil (f : Nat × Value) : 0 < (field f).length := by
  have hpos : ∀ n, 0 < (varint n).length := fun n => (length_varint n).1
  unfold field
  split <;> simp [hpos]

theorem readFields_fields (fs : List (Nat × Value)) (h : ∀ f ∈ fs, (0 < f.1 ∧ f.1 < 2 ^ 29) ∧ f.2.Fits) :
    readFields (fs.flatMap field) = (fs.map fun f => (f.1, .value f.2), true) := by
  have hgo : ∀ k, (fs.flatMap field).length ≤ k →
      readFields.go k (fs.flatMap field) = (fs.map fun f => (f.1, .value f.2), true) := by
    induction fs with
    | nil =>
      intro k _
      cases k <;> rfl
    | cons f fs ih =>
      intro k hk
      have hf := h f List.mem_cons_self
      rw [List.flatMap_cons] at hk ⊢
      have hpos := field_ne_nil f
      rw [List.length_append] at hk
      obtain ⟨k, rfl⟩ : ∃ j, k = j + 1 := ⟨k - 1, by omega⟩
      rw [readFields_go_cons hf.1 hf.2, ih (fun g hg => h g (List.mem_cons_of_mem f hg)) k (by omega)]
      rfl
  exact hgo _ (le_refl _)

end Wire
