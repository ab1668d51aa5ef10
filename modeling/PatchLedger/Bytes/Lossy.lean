import PatchLedger.Bytes

/-!
A readable text for any bytes. Valid UTF-8 is its own text. Elsewhere U+FFFD
stands for each byte that begins no character and for each longest beginning of
a character that is not finished.
-/

namespace PatchLedger.Bytes

/-- What follows a lead byte: how many bytes, and the range of the first of them. -/
structure Tail where
  count : Nat
  low : UInt8
  high : UInt8

def tail? (lead : UInt8) : Option (Tail × Nat) :=
  if lead < 0xC2 then none
  else if lead < 0xE0 then some (⟨1, 0x80, 0xBF⟩, lead.toNat % 32)
  else if lead = 0xE0 then some (⟨2, 0xA0, 0xBF⟩, lead.toNat % 16)
  else if lead = 0xED then some (⟨2, 0x80, 0x9F⟩, lead.toNat % 16)
  else if lead < 0xF0 then some (⟨2, 0x80, 0xBF⟩, lead.toNat % 16)
  else if lead = 0xF0 then some (⟨3, 0x90, 0xBF⟩, lead.toNat % 8)
  else if lead < 0xF4 then some (⟨3, 0x80, 0xBF⟩, lead.toNat % 8)
  else if lead = 0xF4 then some (⟨3, 0x80, 0x8F⟩, lead.toNat % 8)
  else none

/-- Follows a character as far as its bytes go; the rest starts at the first byte that does not
belong to it. -/
def follow : (count : Nat) → (low high : UInt8) → (code : Nat) → Bytes → Option Nat × Bytes
  | 0, _, _, code, rest => (some code, rest)
  | _ + 1, _, _, _, [] => (none, [])
  | count + 1, low, high, code, b :: rest =>
      if low ≤ b ∧ b ≤ high then follow count 0x80 0xBF (code * 64 + b.toNat % 64) rest
      else (none, b :: rest)

theorem follow_length (count : Nat) (low high : UInt8) (code : Nat) (b : Bytes) :
    (follow count low high code b).2.length ≤ b.length := by
  induction b generalizing count low high code with
  | nil => cases count <;> simp [follow]
  | cons head rest ih =>
    cases count with
    | zero => simp [follow]
    | succ count =>
      simp only [follow]
      split
      · exact Nat.le_trans (ih ..) (Nat.le_succ _)
      · exact Nat.le_refl _

def lossyChars : Bytes → List Char
  | [] => []
  | lead :: rest =>
      if lead < 0x80 then Char.ofNat lead.toNat :: lossyChars rest
      else match tail? lead with
        | none => '\uFFFD' :: lossyChars rest
        | some (tail, code) =>
            let followed := follow tail.count tail.low tail.high code rest
            have := follow_length tail.count tail.low tail.high code rest
            (match followed.1 with
              | some code => Char.ofNat code
              | none => '\uFFFD') :: lossyChars followed.2
  termination_by b => b.length

def lossyText (b : Bytes) : String := b.text?.getD (String.ofList b.lossyChars)

@[simp] theorem lossyText_ofText (s : String) : (ofText s).lossyText = s := by
  simp [lossyText]

end PatchLedger.Bytes
