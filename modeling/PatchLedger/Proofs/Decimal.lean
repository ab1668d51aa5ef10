import PatchLedger.Decimal

/-!
How long the digits of a number are, and what stands at their beginning.
-/

namespace PatchLedger.Decimal

theorem digits_ne_nil (n : Nat) : digits n ≠ [] := by
  unfold digits
  split <;> simp

theorem digits_eq_zero_cons {n : Nat} {ds : List Nat} (h : digits n = 0 :: ds) : n = 0 ∧ ds = [] := by
  induction n using Nat.strongRecOn generalizing ds with
  | _ n ih =>
    unfold digits at h
    split at h
    · simpa using h
    · next large =>
      cases high : digits (n / 10) with
      | nil => exact absurd high (digits_ne_nil _)
      | cons d others =>
        rw [high, List.cons_append] at h
        obtain ⟨rfl, -⟩ := List.cons.inj h
        have := (ih (n / 10) (by omega) high).1
        omega

theorem le_foldl_value (ds : List Nat) (n : Nat) : n ≤ ds.foldl (fun n d => 10 * n + d) n := by
  induction ds generalizing n with
  | nil => exact Nat.le_refl n
  | cons d ds ih =>
    have first : 10 * n + d ≤ _ := ih (10 * n + d)
    rw [List.foldl_cons]
    omega

theorem lastDigits_ne_nil (width n : Nat) : lastDigits (width + 1) n ≠ [] := by
  simp [lastDigits]

theorem value_append_zeros (ds : List Nat) (k : Nat) :
    value (ds ++ List.replicate k 0) = value ds * Nat.pow 10 k := by
  induction k with
  | zero =>
    rw [List.replicate_zero, List.append_nil]
    exact (Nat.mul_one _).symm
  | succ k ih =>
    have power : Nat.pow 10 (k + 1) = Nat.pow 10 k * 10 := rfl
    rw [List.replicate_succ', ← List.append_assoc, value_append, ih, Nat.add_zero, power,
      Nat.mul_left_comm, Nat.mul_comm 10]

theorem length_digits_le {n width : Nat} (h : n < Nat.pow 10 (width + 1)) :
    (digits n).length ≤ width + 1 := by
  induction width generalizing n with
  | zero =>
    have small : n < 10 := h
    unfold digits
    simp [small]
  | succ width ih =>
    unfold digits
    split
    · simp
    · have high : n / 10 < Nat.pow 10 (width + 1) :=
        Nat.div_lt_of_lt_mul (by rw [Nat.mul_comm]; exact h)
      have length := ih high
      simpa using length

theorem padded_ne_nil (n : Nat) : padded 4 n ≠ [] := by
  unfold padded
  split
  · exact lastDigits_ne_nil 3 n
  · exact digits_ne_nil n

theorem lt_ten_of_mem_padded {width n d : Nat} (h : d ∈ padded width n) : d < 10 := by
  unfold padded at h
  split at h
  · exact lt_ten_of_mem_lastDigits h
  · exact lt_ten_of_mem_digits h

theorem length_padded {n : Nat} (h : n < 10000) : (padded 4 n).length = 4 := by
  unfold padded
  split
  · exact length_lastDigits 4 n
  · next long =>
    have short : (digits n).length ≤ 3 + 1 := length_digits_le h
    omega

theorem digitChar_ne_sign {d : Nat} (h : d < 10) : digitChar d ≠ '-' ∧ digitChar d ≠ '+' := by
  match d with
  | 0 | 1 | 2 | 3 | 4 | 5 | 6 | 7 | 8 | 9 => decide
  | d + 10 => omega

end PatchLedger.Decimal
