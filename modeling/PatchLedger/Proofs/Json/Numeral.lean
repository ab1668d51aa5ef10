import PatchLedger.Json.Numeral
import PatchLedger.Json.Writer
import PatchLedger.Proofs.Decimal

/-!
How a numeral may be spelled, told without the reader (`Numeral.Spelling`). The
reader takes these spellings and no others, in front of any rest that cannot
belong to the numeral (`Ends`). A written integer is such a spelling, and is read
as that integer.
-/

namespace PatchLedger.Json.Numeral

open Decimal

/-- Nothing at the beginning can belong to a numeral in front of it. -/
def Ends (rest : Bytes) : Prop :=
  ∀ b ∈ rest.head?, digit? b = none ∧ b ≠ 0x2E ∧ b ≠ 0x65 ∧ b ≠ 0x45

theorem ends_nil : Ends [] := by simp [Ends]

theorem ends_cons {b : UInt8} (h : digit? b = none ∧ b ≠ 0x2E ∧ b ≠ 0x65 ∧ b ≠ 0x45)
    (rest : Bytes) : Ends (b :: rest) := by
  intro c member
  cases member
  exact h

theorem digit?_digit {d : Nat} (h : d < 10) : digit? (0x30 + UInt8.ofNat d) = some d := by
  have all : ∀ n : Fin 10, digit? (0x30 + UInt8.ofNat n) = some n.val := by decide
  exact all ⟨d, h⟩

theorem digits_map {ds : List Nat} (small : ∀ d ∈ ds, d < 10) {rest : Bytes}
    (stops : ∀ b ∈ rest.head?, digit? b = none) :
    digits (ds.map (fun d => 0x30 + UInt8.ofNat d) ++ rest) = (ds, rest) := by
  induction ds with
  | nil =>
    cases rest with
    | nil => rfl
    | cons b rest => simp [digits, stops b rfl]
  | cons d ds ih =>
    have first := digit?_digit (small d List.mem_cons_self)
    have others := ih fun d member => small d (List.mem_cons_of_mem _ member)
    simp only [List.map_cons, List.cons_append, digits, first, others]

def digitBytes (ds : List Nat) : Bytes := ds.map fun d => 0x30 + UInt8.ofNat d

def AreDigits (ds : List Nat) : Prop := ds ≠ [] ∧ ∀ d ∈ ds, d < 10

def FractionSpelling : Option (List Nat) → Bytes → Prop
  | none, s => s = []
  | some ds, s => AreDigits ds ∧ s = 0x2E :: digitBytes ds

def signs (negative : Bool) : List Bytes := if negative then [[0x2D]] else [[], [0x2B]]

def ExponentSpelling : Option (Bool × List Nat) → Bytes → Prop
  | none, s => s = []
  | some (negative, ds), s => AreDigits ds ∧ ∃ mark ∈ [0x65, 0x45], ∃ sign ∈ signs negative,
      s = mark :: (sign ++ digitBytes ds)

/-- A sign for minus, whole digits that begin with zero only if they are zero, a fraction and an
exponent. -/
def Spelling (n : Numeral) (s : Bytes) : Prop :=
  AreDigits n.whole ∧ (n.whole.head? = some 0 → n.whole = [0]) ∧
    ∃ fraction exponent, FractionSpelling n.fraction fraction ∧ ExponentSpelling n.exponent exponent ∧
      s = (if n.negative then [0x2D] else []) ++ (digitBytes n.whole ++ (fraction ++ exponent))

def Stops (s : Bytes) : Prop := ∀ b ∈ s.head?, digit? b = none

theorem digit?_eq_some {b : UInt8} {d : Nat} (h : digit? b = some d) :
    d < 10 ∧ b = 0x30 + UInt8.ofNat d := by
  unfold digit? at h
  split at h
  · next range =>
    cases h
    have low : 48 ≤ b.toNat := range.1
    have high : b.toNat ≤ 57 := range.2
    refine ⟨by omega, UInt8.toNat_inj.1 ?_⟩
    rw [UInt8.toNat_add, UInt8.toNat_ofNat']
    change b.toNat = (48 + (b.toNat - 48) % 256) % 256
    omega
  · cases h

theorem digits_eq_iff {s rest : Bytes} {ds : List Nat} : digits s = (ds, rest) ↔
    s = digitBytes ds ++ rest ∧ (∀ d ∈ ds, d < 10) ∧ Stops rest := by
  constructor
  · intro h
    induction s generalizing ds with
    | nil =>
      cases h
      simp [digitBytes, Stops]
    | cons b s ih =>
      rw [digits] at h
      cases digit : digit? b with
      | none =>
        rw [digit] at h
        cases h
        simp [digitBytes, Stops, digit]
      | some d =>
        rw [digit] at h
        obtain ⟨small, rfl⟩ := digit?_eq_some digit
        cases read : digits s with
        | mk others rest' =>
          rw [read] at h
          cases h
          obtain ⟨rfl, smalls, stops⟩ := ih read
          simp [digitBytes, small, stops]
          exact smalls
  · rintro ⟨rfl, small, stops⟩
    exact digits_map small stops

theorem someDigits?_eq_some_iff {s rest : Bytes} {ds : List Nat} :
    someDigits? s = some (ds, rest) ↔ AreDigits ds ∧ s = digitBytes ds ++ rest ∧ Stops rest := by
  have read : someDigits? s = some (ds, rest) ↔ digits s = (ds, rest) ∧ ds ≠ [] := by
    unfold someDigits?
    obtain ⟨found, tail⟩ := digits s
    cases found <;> grind
  rw [read, digits_eq_iff, AreDigits]
  grind

theorem whole?_eq_some_iff {s rest : Bytes} {ds : List Nat} : whole? s = some (ds, rest) ↔
    AreDigits ds ∧ (ds.head? = some 0 → ds = [0]) ∧ s = digitBytes ds ++ rest ∧ Stops rest := by
  have read : whole? s = some (ds, rest) ↔
      digits s = (ds, rest) ∧ ds ≠ [] ∧ (ds.head? = some 0 → ds = [0]) := by
    unfold whole?
    obtain ⟨found, tail⟩ := digits s
    match found with
    | [] => grind
    | [d] => grind
    | 0 :: _ :: _ => grind
    | (d + 1) :: _ :: _ => grind
  rw [read, digits_eq_iff, AreDigits]
  grind

theorem fraction?_eq_some_iff {s rest : Bytes} {fraction : Option (List Nat)} :
    fraction? s = some (fraction, rest) ↔ ∃ t, FractionSpelling fraction t ∧ s = t ++ rest ∧
      (if fraction = none then rest.head? ≠ some 0x2E else Stops rest) := by
  unfold fraction?
  split
  · next tail =>
    cases fraction with
    | none =>
      constructor
      · intro h
        obtain ⟨found, -, same⟩ := Option.map_eq_some_iff.1 h
        cases same
      · rintro ⟨t, rfl, rfl, noPoint⟩
        exact absurd rfl noPoint
    | some ds =>
      simp only [Option.map_eq_some_iff, Prod.exists, someDigits?_eq_some_iff, FractionSpelling]
      grind
  · next noPoint =>
    cases fraction with
    | none =>
      have first : s.head? ≠ some 0x2E := fun h => by
        obtain ⟨tail, rfl⟩ := List.head?_eq_some_iff.1 h
        exact noPoint tail rfl
      constructor
      · intro h
        cases h
        exact ⟨[], rfl, rfl, first⟩
      · rintro ⟨t, rfl, rfl, -⟩
        rfl
    | some ds =>
      simp only [FractionSpelling]
      grind

theorem digitByte_ne {ds : List Nat} (h : AreDigits ds) : ∃ b tail, digitBytes ds = b :: tail ∧
    b ≠ 0x2B ∧ b ≠ 0x2D ∧ b ≠ 0x2E ∧ b ≠ 0x65 ∧ b ≠ 0x45 := by
  obtain ⟨d, others, rfl⟩ := List.exists_cons_of_ne_nil h.1
  have all : ∀ d : Fin 10, 0x30 + UInt8.ofNat d ≠ 0x2B ∧ 0x30 + UInt8.ofNat d ≠ 0x2D ∧
      0x30 + UInt8.ofNat d ≠ 0x2E ∧ 0x30 + UInt8.ofNat d ≠ 0x65 ∧
      0x30 + UInt8.ofNat d ≠ 0x45 := by decide
  exact ⟨_, _, rfl, all ⟨d, h.2 d List.mem_cons_self⟩⟩

theorem exists_signed (s : Bytes) : ∃ sign ∈ signs (signed s).1, s = sign ++ (signed s).2 := by
  unfold signed
  split
  · exact ⟨[0x2D], by simp [signs], rfl⟩
  · exact ⟨[0x2B], by simp [signs], rfl⟩
  · exact ⟨[], by simp [signs], rfl⟩

theorem signed_append {negative : Bool} {sign : Bytes} (h : sign ∈ signs negative) {ds : List Nat}
    (digits : AreDigits ds) (rest : Bytes) :
    signed (sign ++ (digitBytes ds ++ rest)) = (negative, digitBytes ds ++ rest) := by
  obtain ⟨b, tail, first, plus, minus, -⟩ := digitByte_ne digits
  rw [first]
  cases negative with
  | true => cases List.mem_singleton.1 h; rfl
  | false =>
    rcases List.mem_cons.1 h with rfl | h
    · unfold signed
      simp [plus, minus]
    · cases List.mem_singleton.1 h
      rfl

theorem exponent?_eq_some_iff {s rest : Bytes} {exponent : Option (Bool × List Nat)} :
    exponent? s = some (exponent, rest) ↔ ∃ t, ExponentSpelling exponent t ∧ s = t ++ rest ∧
      (if exponent = none then rest.head? ≠ some 0x65 ∧ rest.head? ≠ some 0x45 else Stops rest) := by
  constructor
  · intro h
    cases s with
    | nil => cases h; exact ⟨[], rfl, rfl, by simp⟩
    | cons b tail =>
      rw [exponent?] at h
      split at h
      · next mark =>
        obtain ⟨sign, isSign, form⟩ := exists_signed tail
        generalize signed tail = found at h isSign form
        obtain ⟨⟨ds, rest'⟩, read, h⟩ := Option.map_eq_some_iff.1 h
        cases h
        obtain ⟨digits, same, stops⟩ := someDigits?_eq_some_iff.1 read
        refine ⟨_, ⟨digits, b, by simpa using mark, sign, isSign, rfl⟩, ?_, stops⟩
        rw [form, same]
        simp
      · next noMark =>
        cases h
        exact ⟨[], rfl, rfl, by simpa using noMark⟩
  · rintro ⟨t, spelling, rfl, after⟩
    cases exponent with
    | none =>
      cases spelling
      cases rest with
      | nil => rfl
      | cons b tail => rw [List.nil_append, exponent?, if_neg (by simpa using after)]
    | some found =>
      obtain ⟨negative, ds⟩ := found
      obtain ⟨digits, mark, isMark, sign, isSign, rfl⟩ := spelling
      rw [List.cons_append, List.append_assoc, exponent?, if_pos (by simpa using isMark),
        signed_append isSign digits]
      dsimp only
      rw [someDigits?_eq_some_iff.2 ⟨digits, rfl, after⟩]
      rfl

theorem read?_eq_some_iff {s rest : Bytes} {n : Numeral} : read? s = some (n, rest) ↔
    ∃ unsigned, s = (if n.negative then [0x2D] else []) ++ unsigned ∧
      (n.negative = false → unsigned.head? ≠ some 0x2D) ∧
      ∃ t, whole? unsigned = some (n.whole, t) ∧
        ∃ u, fraction? t = some (n.fraction, u) ∧ exponent? u = some (n.exponent, rest) := by
  obtain ⟨negative, whole, fraction, exponent⟩ := n
  constructor
  · intro h
    unfold read? at h
    split at h
    next negative' unsigned found =>
    obtain ⟨⟨ds, t⟩, readWhole, h⟩ := Option.bind_eq_some_iff.1 h
    obtain ⟨⟨f, u⟩, readFraction, h⟩ := Option.bind_eq_some_iff.1 h
    obtain ⟨⟨e, rest'⟩, readExponent, h⟩ := Option.bind_eq_some_iff.1 h
    cases h
    split at found
    · cases found
      exact ⟨unsigned, rfl, Bool.noConfusion, t, readWhole, u, readFraction, readExponent⟩
    · next noMinus =>
      cases found
      refine ⟨s, rfl, fun _ h => ?_, t, readWhole, u, readFraction, readExponent⟩
      obtain ⟨tail, rfl⟩ := List.head?_eq_some_iff.1 h
      exact noMinus tail rfl
  · rintro ⟨unsigned, rfl, noMinus, t, readWhole, u, readFraction, readExponent⟩
    unfold read?
    split
    next negative' unsigned' found =>
    obtain ⟨rfl, rfl⟩ : negative' = negative ∧ unsigned' = unsigned := by
      cases negative with
      | true =>
        cases found
        exact ⟨rfl, rfl⟩
      | false =>
        split at found
        · next form => exact absurd (congrArg List.head? form) (noMinus rfl)
        · cases found
          exact ⟨rfl, rfl⟩
    simp only [readWhole, readFraction, readExponent, Option.bind_eq_bind, Option.bind_some]

theorem read?_of_spelling {n : Numeral} {s rest : Bytes} (h : n.Spelling s) (ends : Ends rest) :
    read? (s ++ rest) = some (n, rest) := by
  obtain ⟨digits, zero, f, e, fraction, exponent, rfl⟩ := h
  have after : if n.exponent = none then rest.head? ≠ some 0x65 ∧ rest.head? ≠ some 0x45
      else Stops rest := by
    split
    · exact ⟨fun h => (ends _ h).2.2.1 rfl, fun h => (ends _ h).2.2.2 rfl⟩
    · exact fun b h => (ends b h).1
  -- Neither an exponent nor what follows can belong to the digits before it.
  have outside : ∀ b ∈ (e ++ rest).head?, digit? b = none ∧ b ≠ 0x2E := by
    cases some : n.exponent with
    | none =>
      rw [some] at exponent
      cases exponent
      exact fun b h => ⟨(ends b h).1, (ends b h).2.1⟩
    | some found =>
      rw [some] at exponent
      obtain ⟨-, mark, isMark, sign, -, rfl⟩ := exponent
      simp only [List.mem_cons, List.not_mem_nil, or_false] at isMark
      rcases isMark with rfl | rfl
      · exact fun b h => Option.some.inj h ▸ by decide
      · exact fun b h => Option.some.inj h ▸ by decide
  have stopsFraction : Stops (f ++ (e ++ rest)) := by
    cases some : n.fraction with
    | none =>
      rw [some] at fraction
      cases fraction
      exact fun b h => (outside b h).1
    | some ds =>
      rw [some] at fraction
      obtain ⟨-, rfl⟩ := fraction
      exact fun b h => Option.some.inj h ▸ rfl
  refine read?_eq_some_iff.2 ⟨digitBytes n.whole ++ (f ++ (e ++ rest)), by simp, fun _ => ?_, _,
    whole?_eq_some_iff.2 ⟨digits, zero, rfl, stopsFraction⟩, _,
    fraction?_eq_some_iff.2 ⟨f, fraction, rfl, ?_⟩,
    exponent?_eq_some_iff.2 ⟨e, exponent, rfl, after⟩⟩
  · obtain ⟨b, tail, first, -, minus, -⟩ := digitByte_ne digits
    simp [first, minus]
  · split
    · exact fun h => (outside _ h).2 rfl
    · exact fun b h => (outside b h).1

theorem exists_spelling {n : Numeral} {s rest : Bytes} (h : read? s = some (n, rest)) :
    ∃ t, n.Spelling t ∧ s = t ++ rest := by
  obtain ⟨unsigned, rfl, -, t, readWhole, u, readFraction, readExponent⟩ := read?_eq_some_iff.1 h
  obtain ⟨digits, zero, rfl, -⟩ := whole?_eq_some_iff.1 readWhole
  obtain ⟨f, fraction, rfl, -⟩ := fraction?_eq_some_iff.1 readFraction
  obtain ⟨e, exponent, rfl, -⟩ := exponent?_eq_some_iff.1 readExponent
  exact ⟨_, ⟨digits, zero, f, e, fraction, exponent, rfl⟩, by simp⟩

def ofInt (n : Int) : Numeral := ⟨decide (n < 0), Decimal.digits n.natAbs, none, none⟩

theorem spelling_ofInt (n : Int) : (ofInt n).Spelling (Writer.int n) := by
  have digits : AreDigits (Decimal.digits n.natAbs) :=
    ⟨digits_ne_nil _, fun _ => lt_ten_of_mem_digits⟩
  refine ⟨digits, fun first => ?_, [], [], rfl, rfl, ?_⟩
  · obtain ⟨others, found⟩ := List.head?_eq_some_iff.1 first
    exact found.trans (congrArg _ (digits_eq_zero_cons found).2)
  · by_cases negative : n < 0 <;> simp [Writer.int, ofInt, Writer.digits, digitBytes, negative]

theorem accumulate_of_lt {n : Nat} {ds : List Nat}
    (h : ds.foldl (fun n d => 10 * n + d) n < UInt64.size) :
    accumulate n ds = (ds.foldl (fun n d => 10 * n + d) n, []) := by
  induction ds generalizing n with
  | nil => rfl
  | cons d ds ih =>
    rw [List.foldl_cons] at h ⊢
    have here : 10 * n + d < UInt64.size := Nat.lt_of_le_of_lt (le_foldl_value ds _) h
    rw [accumulate, if_pos here, ih h]

theorem number?_ofInt {n : Int} (low : -0x8000000000000000 ≤ n) (high : n < UInt64.size) :
    (ofInt n).number? = some (.int n) := by
  have size : UInt64.size = 18446744073709551616 := rfl
  have written : value (Decimal.digits n.natAbs) = n.natAbs := value_digits _
  have bound : n.natAbs < UInt64.size := by omega
  have fits : (Decimal.digits n.natAbs).foldl (fun n d => 10 * n + d) 0 < UInt64.size := by
    change value _ < _
    omega
  have read : accumulate 0 (Decimal.digits n.natAbs) = (n.natAbs, []) := by
    rw [accumulate_of_lt fits]
    exact congrArg (·, []) written
  unfold number? ofInt
  simp only [read]
  by_cases negative : n < 0
  · have value : -(n.natAbs : Int) = n := by omega
    have small : 0 < n.natAbs ∧ n.natAbs ≤ 0x8000000000000000 := by omega
    rw [if_neg (by simp [negative]), if_pos ⟨by simp, small⟩, value]
  · have value : (n.natAbs : Int) = n := by omega
    rw [if_pos (by simp [negative]), value]

end PatchLedger.Json.Numeral
