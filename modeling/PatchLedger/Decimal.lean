/-!
Decimal digits of natural numbers, the highest first: the fewest that write a
number, and a fixed count of the last ones.
-/

namespace PatchLedger.Decimal

/-- The digits of a number without leading zeros; zero has one digit. -/
def digits (n : Nat) : List Nat :=
  if n < 10 then [n] else digits (n / 10) ++ [n % 10]

/-- The last `width` digits of a number, with leading zeros. -/
def lastDigits : (width : Nat) → Nat → List Nat
  | 0, _ => []
  | width + 1, n => lastDigits width (n / 10) ++ [n % 10]

def padded (width n : Nat) : List Nat :=
  if (digits n).length < width then lastDigits width n else digits n

def value (ds : List Nat) : Nat := ds.foldl (fun n d => 10 * n + d) 0

@[simp] theorem value_append (ds : List Nat) (d : Nat) : value (ds ++ [d]) = 10 * value ds + d := by
  simp [value]

@[simp] theorem value_digits (n : Nat) : value (digits n) = n := by
  induction n using Nat.strongRecOn with
  | _ n ih =>
    unfold digits
    split
    · simp [value]
    · rw [value_append, ih (n / 10) (by omega)]
      omega

@[simp] theorem length_lastDigits (width n : Nat) : (lastDigits width n).length = width := by
  induction width generalizing n with
  | zero => rfl
  | succ width ih => simp [lastDigits, ih]

theorem value_lastDigits {width n : Nat} (h : n < Nat.pow 10 width) :
    value (lastDigits width n) = n := by
  induction width generalizing n with
  | zero =>
    have zero : n = 0 := Nat.lt_one_iff.1 h
    simp [lastDigits, value, zero]
  | succ width ih =>
    have high : value (lastDigits width (n / 10)) = n / 10 :=
      ih (Nat.div_lt_of_lt_mul (by rw [Nat.mul_comm]; exact h))
    rw [lastDigits, value_append, high]
    omega

theorem lt_pow_length_digits (n : Nat) : n < Nat.pow 10 (digits n).length := by
  induction n using Nat.strongRecOn with
  | _ n ih =>
    unfold digits
    split
    · next small => exact small
    · have high : n / 10 < Nat.pow 10 (digits (n / 10)).length := ih (n / 10) (by omega)
      have grown : Nat.pow 10 (digits (n / 10) ++ [n % 10]).length =
          Nat.pow 10 (digits (n / 10)).length * 10 := by
        rw [List.length_append]
        rfl
      omega

@[simp] theorem value_padded (width n : Nat) : value (padded width n) = n := by
  unfold padded
  split
  · next short =>
    exact value_lastDigits
      (Nat.lt_of_lt_of_le (lt_pow_length_digits n) (Nat.pow_le_pow_right (by decide) (by omega)))
  · exact value_digits n

theorem lt_ten_of_mem_digits {n d : Nat} (h : d ∈ digits n) : d < 10 := by
  induction n using Nat.strongRecOn with
  | _ n ih =>
    unfold digits at h
    split at h
    · next small => rw [List.mem_singleton.1 h]; exact small
    · rcases List.mem_append.1 h with h | h
      · exact ih (n / 10) (by omega) h
      · rw [List.mem_singleton.1 h]; omega

theorem lt_ten_of_mem_lastDigits {width n d : Nat} (h : d ∈ lastDigits width n) : d < 10 := by
  induction width generalizing n with
  | zero => simp [lastDigits] at h
  | succ width ih =>
    rcases List.mem_append.1 h with h | h
    · exact ih h
    · rw [List.mem_singleton.1 h]
      exact Nat.mod_lt _ (by decide)

def digitChar (d : Nat) : Char := Char.ofNat (48 + d)

def digit? (c : Char) : Option Nat :=
  if 48 ≤ c.toNat ∧ c.toNat ≤ 57 then some (c.toNat - 48) else none

def chars (ds : List Nat) : List Char := ds.map digitChar

def intChars (n : Int) : List Char :=
  if n < 0 then '-' :: chars (digits n.natAbs) else chars (digits n.natAbs)

theorem digit?_digitChar {d : Nat} (h : d < 10) : digit? (digitChar d) = some d := by
  match d with
  | 0 | 1 | 2 | 3 | 4 | 5 | 6 | 7 | 8 | 9 => decide
  | d + 10 => omega

end PatchLedger.Decimal
