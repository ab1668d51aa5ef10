import PatchLedger.Json.StringBody
import PatchLedger.Json.Writer

/-!
How the inside of a string may be spelled, told without the reader
(`StringBody.Spelling`): the reader takes these spellings and no others. A
written string is read as the text it was written for: each byte gives one piece,
and the pieces spell the bytes.
-/

namespace PatchLedger.Json.StringBody

def pieceOf (b : UInt8) : Piece :=
  if 0x20 ≤ b ∨ b = 0x08 ∨ b = 0x09 ∨ b = 0x0A ∨ b = 0x0C ∨ b = 0x0D then .byte b
  else .unit b.toNat

theorem hexDigit?_hexByte {d : UInt8} (h : d < 16) : hexDigit? (Writer.hexByte d) = some d.toNat := by
  have all : ∀ n : Fin 16, hexDigit? (Writer.hexByte (UInt8.ofNat n)) = some n.val := by decide
  have small : d.toNat < 16 := h
  have same : UInt8.ofNat d.toNat = d := UInt8.ofNat_toNat
  simpa [same] using all ⟨d.toNat, small⟩

theorem read?_raw {b : UInt8} (quote : b ≠ 0x22) (backslash : b ≠ 0x5C) (shown : 0x20 ≤ b)
    (rest : Bytes) : read? (b :: rest) = (read? rest).map fun (pieces, rest) =>
      (.byte b :: pieces, rest) := by
  have notLess : ¬ b < 0x20 := UInt8.not_lt.2 shown
  rw [read?]
  · cases read? rest <;> simp [notLess, backslash]
  all_goals simp_all

theorem read?_letter {letter b : UInt8} (other : letter ≠ 0x75) (h : escape? letter = some b)
    (rest : Bytes) : read? (0x5C :: letter :: rest) = (read? rest).map fun (pieces, rest) =>
      (.byte b :: pieces, rest) := by
  rw [read?]
  · cases read? rest <;> simp [h]
  all_goals simp_all

def unit? (a b c d : UInt8) : Option Nat := do
  let high := 16 * (← hexDigit? a) + (← hexDigit? b)
  let low := 16 * (← hexDigit? c) + (← hexDigit? d)
  some (256 * high + low)

theorem read?_hex {a b c d : UInt8} {u : Nat} (h : unit? a b c d = some u) (rest : Bytes) :
    read? (0x5C :: 0x75 :: a :: b :: c :: d :: rest) = (read? rest).map fun (pieces, rest) =>
      (.unit u :: pieces, rest) := by
  simp only [unit?, Option.bind_eq_bind, Option.bind_eq_some_iff, Option.some.injEq] at h
  obtain ⟨_, a, _, b, _, c, _, d, rfl⟩ := h
  simp only [read?, a, b, c, d, Option.bind_eq_bind, Option.bind_some]
  cases read? rest <;> rfl

theorem unit?_hexByte {b : UInt8} (h : b < 0x20) :
    unit? 0x30 0x30 (Writer.hexByte (b / 16)) (Writer.hexByte (b % 16)) = some b.toNat := by
  have small : b.toNat < 32 := h
  have high : b / 16 < 16 := by
    rw [UInt8.lt_iff_toNat_lt, UInt8.toNat_div]
    change b.toNat / 16 < 16
    omega
  have low : b % 16 < 16 := by
    rw [UInt8.lt_iff_toNat_lt, UInt8.toNat_mod]
    exact Nat.mod_lt _ (by decide)
  have zero : hexDigit? 0x30 = some 0 := rfl
  have whole : 256 * (16 * 0 + 0) + (16 * (b / 16).toNat + (b % 16).toNat) = b.toNat := by
    rw [UInt8.toNat_div, UInt8.toNat_mod]
    change 256 * (16 * 0 + 0) + (16 * (b.toNat / 16) + b.toNat % 16) = b.toNat
    omega
  rw [unit?, hexDigit?_hexByte high, hexDigit?_hexByte low, zero]
  simp only [Option.bind_eq_bind, Option.bind_some, whole]

theorem read?_escaped (b : UInt8) (rest : Bytes) :
    read? (Writer.escaped b ++ rest) = (read? rest).map fun (pieces, rest) =>
      (pieceOf b :: pieces, rest) := by
  unfold Writer.escaped pieceOf
  split
  · next mark =>
    rcases mark with rfl | rfl
    · exact read?_letter (by decide) rfl rest
    · exact read?_letter (by decide) rfl rest
  · next plain =>
    obtain ⟨quote, backslash⟩ := not_or.1 plain
    split
    · next shown =>
      rw [if_pos (Or.inl shown)]
      exact read?_raw quote backslash shown rest
    · next hidden =>
      split
      · next same => subst same; exact read?_letter (by decide) rfl rest
      · split
        · next same => subst same; exact read?_letter (by decide) rfl rest
        · split
          · next same => subst same; exact read?_letter (by decide) rfl rest
          · split
            · next same => subst same; exact read?_letter (by decide) rfl rest
            · split
              · next same => subst same; exact read?_letter (by decide) rfl rest
              · rw [if_neg (by simp_all)]
                exact read?_hex (unit?_hexByte (UInt8.not_le.1 hidden)) rest

theorem read?_flatMap_escaped (bytes rest : Bytes) :
    read? (bytes.flatMap Writer.escaped ++ 0x22 :: rest) = some (bytes.map pieceOf, rest) := by
  induction bytes with
  | nil => rfl
  | cons b bytes ih =>
    rw [List.flatMap_cons, List.append_assoc, read?_escaped, ih]
    rfl

theorem bytes?_plain {u : Nat} (notHigh : isHighSurrogate u = false) (notLow : isLowSurrogate u = false)
    (rest : List Piece) : bytes? (.unit u :: rest) = (bytes? rest).map (charBytes u ++ ·) := by
  cases rest with
  | nil => simp [bytes?, notHigh, notLow]
  | cons piece rest => cases piece <;> simp [bytes?, notHigh, notLow]

theorem bytes?_unit {u : Nat} (h : u < 0x20) (rest : List Piece) :
    bytes? (.unit u :: rest) = (bytes? rest).map (UInt8.ofNat u :: ·) := by
  have low : isLowSurrogate u = false := by
    simp only [isLowSurrogate, Bool.and_eq_false_imp, decide_eq_true_eq]
    omega
  have high : isHighSurrogate u = false := by
    simp only [isHighSurrogate, Bool.and_eq_false_imp, decide_eq_true_eq]
    omega
  have all : ∀ n : Fin 0x20, charBytes n = [UInt8.ofNat n] := by decide
  have char : charBytes u = [UInt8.ofNat u] := all ⟨u, h⟩
  rw [bytes?_plain high low, char]
  rfl

theorem bytes?_map_pieceOf (bytes : Bytes) : bytes? (bytes.map pieceOf) = some bytes := by
  induction bytes with
  | nil => rfl
  | cons b bytes ih =>
    rw [List.map_cons, pieceOf]
    split
    · simp [bytes?, ih]
    · next hidden =>
      have small : b.toNat < 0x20 := UInt8.not_le.1 (not_or.1 hidden).1
      rw [bytes?_unit small, ih]
      simp

def pieces (s : String) : List Piece := (Bytes.ofText s).map pieceOf

@[simp] theorem text?_pieces (s : String) : text? (pieces s) = some s := by
  rw [text?, pieces, bytes?_map_pieceOf, Option.bind_some, Bytes.text?_ofText]

theorem read?_ofText (s : String) (rest : Bytes) :
    read? ((Bytes.ofText s).flatMap Writer.escaped ++ 0x22 :: rest) = some (pieces s, rest) :=
  read?_flatMap_escaped _ rest

/-- What stands between the quotation marks, for the bytes that it spells: a byte as it is or by the
letter of its escape, a character by the number of its unit, or of its two surrogates. -/
inductive Spelling : (content s : Bytes) → Prop where
  | nil : Spelling [] []
  | raw {b : UInt8} {content s : Bytes} (shown : 0x20 ≤ b) (quote : b ≠ 0x22) (backslash : b ≠ 0x5C) :
      Spelling content s → Spelling (b :: content) (b :: s)
  | letter {letter b : UInt8} {content s : Bytes} (escape : escape? letter = some b) :
      Spelling content s → Spelling (b :: content) (0x5C :: letter :: s)
  | unit {a b c d : UInt8} {u : Nat} {content s : Bytes} (unit : unit? a b c d = some u)
      (notHigh : isHighSurrogate u = false) (notLow : isLowSurrogate u = false) :
      Spelling content s → Spelling (charBytes u ++ content) (0x5C :: 0x75 :: a :: b :: c :: d :: s)
  | pair {a b c d a' b' c' d' : UInt8} {high low : Nat} {content s : Bytes}
      (first : unit? a b c d = some high) (second : unit? a' b' c' d' = some low)
      (isHigh : isHighSurrogate high = true) (isLow : isLowSurrogate low = true) :
      Spelling content s →
        Spelling (charBytes (0x10000 + 1024 * (high - 0xD800) + (low - 0xDC00)) ++ content)
          (0x5C :: 0x75 :: a :: b :: c :: d :: 0x5C :: 0x75 :: a' :: b' :: c' :: d' :: s)

theorem read?_eq_some {s rest : Bytes} {pieces : List Piece} (h : read? s = some (pieces, rest)) :
    (pieces = [] ∧ s = 0x22 :: rest) ∨
      (∃ b others tail, pieces = .byte b :: others ∧ read? tail = some (others, rest) ∧
        ((0x20 ≤ b ∧ b ≠ 0x22 ∧ b ≠ 0x5C ∧ s = b :: tail) ∨
          ∃ letter, escape? letter = some b ∧ s = 0x5C :: letter :: tail)) ∨
      ∃ a b c d u others tail, pieces = .unit u :: others ∧ unit? a b c d = some u ∧
        read? tail = some (others, rest) ∧ s = 0x5C :: 0x75 :: a :: b :: c :: d :: tail := by
  unfold read? at h
  split at h
  · cases h
  · cases h
    exact Or.inl ⟨rfl, rfl⟩
  · next a b c d tail =>
    obtain ⟨_, readA, h⟩ := Option.bind_eq_some_iff.1 h
    obtain ⟨_, readB, h⟩ := Option.bind_eq_some_iff.1 h
    obtain ⟨_, readC, h⟩ := Option.bind_eq_some_iff.1 h
    obtain ⟨_, readD, h⟩ := Option.bind_eq_some_iff.1 h
    obtain ⟨⟨others, rest'⟩, read, h⟩ := Option.bind_eq_some_iff.1 h
    cases h
    exact Or.inr (Or.inr ⟨a, b, c, d, _, others, tail, rfl,
      by simp [unit?, readA, readB, readC, readD], read, rfl⟩)
  · next letter tail _ =>
    obtain ⟨b, escape, h⟩ := Option.bind_eq_some_iff.1 h
    obtain ⟨⟨others, rest'⟩, read, h⟩ := Option.bind_eq_some_iff.1 h
    cases h
    exact Or.inr (Or.inl ⟨b, others, tail, rfl, read, Or.inr ⟨letter, escape, rfl⟩⟩)
  · next b tail quote _ _ =>
    split at h
    · cases h
    · next plain =>
      obtain ⟨⟨others, rest'⟩, read, h⟩ := Option.bind_eq_some_iff.1 h
      cases h
      obtain ⟨shown, backslash⟩ := not_or.1 plain
      exact Or.inr (Or.inl ⟨b, others, tail, rfl, read,
        Or.inl ⟨UInt8.not_lt.1 shown, quote, backslash, rfl⟩⟩)

theorem isLowSurrogate_of_isHighSurrogate {u : Nat} (h : isHighSurrogate u = true) :
    isLowSurrogate u = false := by
  simp only [isHighSurrogate, Bool.and_eq_true, decide_eq_true_eq] at h
  simp only [isLowSurrogate, Bool.and_eq_false_imp, decide_eq_true_eq]
  omega

theorem bytes?_pair {high low : Nat} (isHigh : isHighSurrogate high = true)
    (isLow : isLowSurrogate low = true) (rest : List Piece) :
    bytes? (.unit high :: .unit low :: rest) = (bytes? rest).map
      (charBytes (0x10000 + 1024 * (high - 0xD800) + (low - 0xDC00)) ++ ·) := by
  simp [bytes?, isHigh, isLow, isLowSurrogate_of_isHighSurrogate isHigh]

theorem surrogates_of_bytes? {u : Nat} {rest : List Piece} (h : (bytes? (.unit u :: rest)).isSome) :
    (isHighSurrogate u = false ∧ isLowSurrogate u = false) ∨
      isHighSurrogate u = true ∧ ∃ low others, rest = .unit low :: others ∧
        isLowSurrogate low = true := by
  cases rest with
  | nil => cases low : isLowSurrogate u <;> cases high : isHighSurrogate u <;> simp_all [bytes?]
  | cons piece others =>
    cases piece with
    | byte b => cases low : isLowSurrogate u <;> cases high : isHighSurrogate u <;> simp_all [bytes?]
    | unit next =>
      cases low : isLowSurrogate u <;> cases high : isHighSurrogate u <;>
        cases follows : isLowSurrogate next <;> simp_all [bytes?]

theorem exists_spelling (pieces : List Piece) {content : Bytes} (h : bytes? pieces = some content)
    {s rest : Bytes} (read : read? s = some (pieces, rest)) :
    ∃ t, Spelling content t ∧ s = t ++ 0x22 :: rest := by
  rcases read?_eq_some read with ⟨rfl, rfl⟩ | ⟨b, others, tail, rfl, readTail, form⟩ |
    ⟨a, b, c, d, u, others, tail, rfl, unit, readTail, rfl⟩
  · cases h
    exact ⟨[], .nil, rfl⟩
  · obtain ⟨content, inner, rfl⟩ := Option.map_eq_some_iff.1 h
    obtain ⟨t, spelling, rfl⟩ := exists_spelling others inner readTail
    rcases form with ⟨shown, quote, backslash, rfl⟩ | ⟨letter, escape, rfl⟩
    · exact ⟨b :: t, .raw shown quote backslash spelling, rfl⟩
    · exact ⟨0x5C :: letter :: t, .letter escape spelling, rfl⟩
  · rcases surrogates_of_bytes? (Option.isSome_of_eq_some h) with
      ⟨notHigh, notLow⟩ | ⟨isHigh, low, others, rfl, isLow⟩
    · rw [bytes?_plain notHigh notLow] at h
      obtain ⟨content, inner, rfl⟩ := Option.map_eq_some_iff.1 h
      obtain ⟨t, spelling, rfl⟩ := exists_spelling others inner readTail
      exact ⟨_, .unit unit notHigh notLow spelling, rfl⟩
    · rw [bytes?_pair isHigh isLow] at h
      obtain ⟨content, inner, rfl⟩ := Option.map_eq_some_iff.1 h
      rcases read?_eq_some readTail with ⟨same, -⟩ | ⟨_, _, _, same, -⟩ |
        ⟨a', b', c', d', low, others, tail, same, second, readTail, rfl⟩
      · cases same
      · cases same
      · cases same
        obtain ⟨t, spelling, rfl⟩ := exists_spelling others inner readTail
        exact ⟨_, .pair unit second isHigh isLow spelling, rfl⟩
termination_by pieces.length

theorem exists_read?_of_spelling {content s : Bytes} (h : Spelling content s) (rest : Bytes) :
    ∃ pieces, read? (s ++ 0x22 :: rest) = some (pieces, rest) ∧ bytes? pieces = some content := by
  induction h with
  | nil => exact ⟨[], rfl, rfl⟩
  | @raw b content s shown quote backslash _ ih =>
    obtain ⟨pieces, read, inner⟩ := ih
    exact ⟨.byte b :: pieces, by rw [List.cons_append, read?_raw quote backslash shown, read]; rfl,
      by rw [bytes?, inner]; rfl⟩
  | @letter letter b content s escape _ ih =>
    obtain ⟨pieces, read, inner⟩ := ih
    have other : letter ≠ 0x75 := fun same => by subst same; cases escape
    exact ⟨.byte b :: pieces, by
      rw [List.cons_append, List.cons_append, read?_letter other escape, read]; rfl,
      by rw [bytes?, inner]; rfl⟩
  | @unit a b c d u content s unit notHigh notLow _ ih =>
    obtain ⟨pieces, read, inner⟩ := ih
    refine ⟨.unit u :: pieces, ?_, by rw [bytes?_plain notHigh notLow, inner]; rfl⟩
    simp only [List.cons_append, read?_hex unit, read, Option.map_some]
  | @pair a b c d a' b' c' d' high low content s first second isHigh isLow _ ih =>
    obtain ⟨pieces, read, inner⟩ := ih
    refine ⟨.unit high :: .unit low :: pieces, ?_, by rw [bytes?_pair isHigh isLow, inner]; rfl⟩
    simp only [List.cons_append, read?_hex first, read?_hex second, read, Option.map_some]

end PatchLedger.Json.StringBody
