/-!
Byte strings: what the ledger's tree holds as keys and values. A text has its
UTF-8 bytes, and bytes spell at most one text; a number has its big-endian bytes
at a fixed width.
-/

namespace PatchLedger

abbrev Bytes := List UInt8

namespace Bytes

def ofText (s : String) : Bytes := s.toByteArray.data.toList

def text? (b : Bytes) : Option String := String.fromUTF8? ⟨b.toArray⟩

theorem text?_eq_some_iff {b : Bytes} {s : String} : b.text? = some s ↔ b = ofText s := by
  unfold text? ofText String.fromUTF8?
  constructor
  · intro h
    split at h
    · cases h
      simp [String.fromUTF8]
    · cases h
  · rintro rfl
    have same : (⟨s.toByteArray.data.toList.toArray⟩ : ByteArray) = s.toByteArray := by simp
    rw [same, dif_pos s.isValidUTF8]
    rfl

@[simp] theorem text?_ofText (s : String) : (ofText s).text? = some s :=
  text?_eq_some_iff.2 rfl

theorem ofText_injective {s t : String} (h : ofText s = ofText t) : s = t := by
  simpa [h] using (text?_ofText s).symm

/-- The last `width` base-256 digits of a number, the highest first. -/
def bigEndian : (width : Nat) → Nat → Bytes
  | 0, _ => []
  | width + 1, n => bigEndian width (n / 256) ++ [UInt8.ofNat n]

/-- The number whose base-256 digits are given, the highest first. -/
def number (b : Bytes) : Nat := b.foldl (fun n digit => 256 * n + digit.toNat) 0

@[simp] theorem length_bigEndian (width n : Nat) : (bigEndian width n).length = width := by
  induction width generalizing n with
  | zero => rfl
  | succ width ih => simp [bigEndian, ih]

@[simp] theorem number_append (b : Bytes) (digit : UInt8) :
    number (b ++ [digit]) = 256 * number b + digit.toNat := by
  simp [number]

theorem number_bigEndian {width n : Nat} (h : n < Nat.pow 256 width) :
    (bigEndian width n).number = n := by
  induction width generalizing n with
  | zero =>
    have zero : n = 0 := Nat.lt_one_iff.1 h
    simp [bigEndian, number, zero]
  | succ width ih =>
    have high : (bigEndian width (n / 256)).number = n / 256 :=
      ih (Nat.div_lt_of_lt_mul (by rw [Nat.mul_comm]; exact h))
    have low : (UInt8.ofNat n).toNat = n % 256 := UInt8.toNat_ofNat'
    rw [bigEndian, number_append, high, low]
    omega

def ofWord (w : UInt64) : Bytes := bigEndian 8 w.toNat

/-- The word that eight bytes spell; another number of bytes spells none. -/
def word? (b : Bytes) : Option UInt64 :=
  if b.length = 8 then some (UInt64.ofNat b.number) else none

@[simp] theorem word?_ofWord (w : UInt64) : (ofWord w).word? = some w := by
  have same : (bigEndian 8 w.toNat).number = w.toNat := number_bigEndian w.toNat_lt
  simp [word?, ofWord, same]

end Bytes

end PatchLedger
