import PatchLedger.Instant.Reader
import PatchLedger.Instant.Text
import PatchLedger.Proofs.Decimal
import PatchLedger.Proofs.Instant.Calendar

/-!
Reading a written instant gives the instant back (`ofText?_toText`). The reader
is followed over the text part by part; what it needs of a part is that its
digits end where the next mark stands. No moment of the years is left out
(`exists_of_date`).
-/

namespace PatchLedger.Instant.Reader

open Decimal

def EndsDigits (cs : List Char) : Prop := ∀ c ∈ cs.head?, digit? c = none

theorem digits_of_endsDigits (most : Nat) {cs : List Char} (h : EndsDigits cs) :
    digits most cs = ([], cs) := by
  cases most with
  | zero => rfl
  | succ most =>
    cases cs with
    | nil => rfl
    | cons c rest => simp [digits, h c rfl]

theorem digits_chars {most : Nat} {ds : List Nat} {rest : List Char} (small : ∀ d ∈ ds, d < 10)
    (fits : ds.length ≤ most) (ends : ds.length = most ∨ EndsDigits rest) :
    digits most (chars ds ++ rest) = (ds, rest) := by
  induction ds generalizing most with
  | nil =>
    rcases ends with rfl | ends
    · rfl
    · exact digits_of_endsDigits most ends
  | cons d ds ih =>
    obtain ⟨most, rfl⟩ : ∃ n, most = n + 1 := ⟨most - 1, by simp at fits; omega⟩
    have first : digit? (digitChar d) = some d := digit?_digitChar (small d List.mem_cons_self)
    have others : digits most (chars ds ++ rest) = (ds, rest) :=
      ih (fun d h => small d (List.mem_cons_of_mem _ h)) (by simpa using fits) (ends.imp (by simp) id)
    simp only [chars, List.map_cons, List.cons_append, digits, first] at others ⊢
    rw [others]

theorem number?_chars {most : Nat} {ds : List Nat} {rest : List Char} (small : ∀ d ∈ ds, d < 10)
    (some_digit : ds ≠ []) (fits : ds.length ≤ most)
    (ends : ds.length = most ∨ EndsDigits rest) :
    number? most (chars ds ++ rest) = some (value ds, rest) := by
  unfold number?
  rw [digits_chars small fits ends]
  cases ds with
  | nil => exact absurd rfl some_digit
  | cons d ds => rfl

theorem number?_two {n : Nat} (h : n < 100) (rest : List Char) :
    number? 2 (chars (lastDigits 2 n) ++ rest) = some (n, rest) := by
  have written : value (lastDigits 2 n) = n := value_lastDigits h
  have length : (lastDigits 2 n).length = 2 := length_lastDigits 2 n
  rw [number?_chars (fun d => lt_ten_of_mem_lastDigits) (List.ne_nil_of_length_eq_add_one length)
    (by omega) (Or.inl length), written]

theorem isBlank_digitChar {d : Nat} (h : d < 10) : Text.isBlank (digitChar d) = false := by
  match d with
  | 0 | 1 | 2 | 3 | 4 | 5 | 6 | 7 | 8 | 9 => decide
  | d + 10 => omega

theorem skipBlank_cons {c : Char} (h : Text.isBlank c = false) (rest : List Char) :
    skipBlank (c :: rest) = c :: rest := by
  simp [skipBlank, h]

theorem skipBlank_chars {ds : List Nat} (small : ∀ d ∈ ds, d < 10) (some_digit : ds ≠ [])
    (rest : List Char) : skipBlank (chars ds ++ rest) = chars ds ++ rest := by
  cases ds with
  | nil => exact absurd rfl some_digit
  | cons d ds => exact skipBlank_cons (isBlank_digitChar (small d List.mem_cons_self)) _

theorem skipBlank_two (n : Nat) (rest : List Char) :
    skipBlank (chars (lastDigits 2 n) ++ rest) = chars (lastDigits 2 n) ++ rest :=
  skipBlank_chars (fun _ => lt_ten_of_mem_lastDigits) (lastDigits_ne_nil 1 n) rest

theorem fraction?_chars {k n : Nat} (places : k < 9) (h : n < Nat.pow 10 (k + 1))
    {rest : List Char} (ends : EndsDigits rest) :
    fraction? ('.' :: (chars (lastDigits (k + 1) n) ++ rest)) = some (n * Nat.pow 10 (8 - k), rest) := by
  have length : (lastDigits (k + 1) n).length = k + 1 := length_lastDigits (k + 1) n
  have written : value (lastDigits (k + 1) n) = n := value_lastDigits h
  have read : digits (chars (lastDigits (k + 1) n) ++ rest).length
      (chars (lastDigits (k + 1) n) ++ rest) = (lastDigits (k + 1) n, rest) :=
    digits_chars (fun _ => lt_ten_of_mem_lastDigits) (by simp [chars]) (Or.inr ends)
  have whole : (lastDigits (k + 1) n).take 9 = lastDigits (k + 1) n :=
    List.take_of_length_le (by omega)
  have zeros : 9 - (k + 1) = 8 - k := by omega
  unfold fraction?
  simp only [read]
  split
  · next none => exact absurd (Prod.mk.inj none).1 (lastDigits_ne_nil k n)
  · next found =>
    obtain ⟨rfl, rfl⟩ := Prod.mk.inj found
    simp only [whole, length, zeros, value_append_zeros, written]

theorem fraction?_fractionChars {nanos : Nat} (h : nanos < 1000000000) {rest : List Char}
    (ends : EndsDigits rest) (noPoint : rest.head? ≠ some '.') :
    fraction? (fractionChars nanos ++ rest) = some (nanos, rest) := by
  unfold fractionChars
  split
  · next zero =>
    subst zero
    cases rest with
    | nil => rfl
    | cons c rest =>
      have other : c ≠ '.' := by simpa using noPoint
      unfold fraction?
      split
      · next same => simp at same; exact absurd same.1 other
      · rfl
  · split
    · have read := fraction?_chars (k := 2) (n := nanos / 1000000) (by decide)
        (by change _ < 1000; omega) ends
      rw [List.cons_append, read]
      congr 2
      change nanos / 1000000 * 1000000 = nanos
      omega
    · split
      · have read := fraction?_chars (k := 5) (n := nanos / 1000) (by decide)
          (by change _ < 1000000; omega) ends
        rw [List.cons_append, read]
        congr 2
        change nanos / 1000 * 1000 = nanos
        omega
      · have read := fraction?_chars (k := 8) (n := nanos) (by decide)
          (by change _ < 1000000000; omega) ends
        rw [List.cons_append, read]
        simp

theorem year?_chars {ds : List Nat} (small : ∀ d ∈ ds, d < 10) (length : ds.length = 4)
    (rest : List Char) : year? (chars ds ++ rest) = some ((value ds : Int), rest) := by
  have read : number? 4 (chars ds ++ rest) = some (value ds, rest) :=
    number?_chars small (List.ne_nil_of_length_eq_add_one length) (by omega) (Or.inl length)
  cases ds with
  | nil => simp at length
  | cons d ds =>
    obtain ⟨minus, plus⟩ := digitChar_ne_sign (small d List.mem_cons_self)
    unfold year?
    split
    · next same => exact absurd (List.cons.inj same).1 minus
    · next same => exact absurd (List.cons.inj same).1 plus
    · rw [read]
      rfl

theorem year?_yearChars (year : Int) {rest : List Char} (ends : EndsDigits rest) :
    year? (yearChars year ++ rest) = some (year, rest) := by
  have signed : number? (chars (padded 4 year.natAbs) ++ rest).length
      (chars (padded 4 year.natAbs) ++ rest) = some (year.natAbs, rest) := by
    rw [number?_chars (fun _ => lt_ten_of_mem_padded) (padded_ne_nil _) (by simp [chars])
      (Or.inr ends), value_padded]
  unfold yearChars
  split
  · have same : -(year.natAbs : Int) = year := by omega
    rw [List.cons_append, year?, signed]
    exact congrArg (fun y => some (y, rest)) same
  · split
    · have same : (year.natAbs : Int) = year := by omega
      rw [List.cons_append, year?, signed]
      exact congrArg (fun y => some (y, rest)) same
    · have same : (year.natAbs : Int) = year := by omega
      rw [year?_chars (fun _ => lt_ten_of_mem_padded) (length_padded (by omega)), value_padded, same]

theorem oneOf?_cons {c : Char} {kind : Char → Bool} (h : kind c) (rest : List Char) :
    oneOf? (c :: rest) kind = some rest := by
  simp [oneOf?, h]

theorem offset?_universal : offset? ['Z'] = some (0, []) := rfl

theorem yearChars_cons (year : Int) :
    ∃ c cs, yearChars year = c :: cs ∧ Text.isBlank c = false := by
  obtain ⟨d, ds, found⟩ := List.exists_cons_of_ne_nil (padded_ne_nil year.natAbs)
  have small : d < 10 := lt_ten_of_mem_padded (found ▸ List.mem_cons_self)
  unfold yearChars
  rw [found]
  split
  · exact ⟨_, _, rfl, by decide⟩
  · split
    · exact ⟨_, _, rfl, by decide⟩
    · exact ⟨_, _, rfl, isBlank_digitChar small⟩

theorem skipBlank_yearChars (year : Int) (rest : List Char) :
    skipBlank (yearChars year ++ rest) = yearChars year ++ rest := by
  obtain ⟨c, cs, found, shown⟩ := yearChars_cons year
  rw [found]
  exact skipBlank_cons shown _

def Parts.ofInstant (t : Instant) : Parts where
  date := t.date
  hour := t.secondOfDay / 3600
  minute := t.secondOfDay / 60 % 60
  second := t.secondOfDay % 60 + t.nanos / 1000000000
  nanos := t.nanos % 1000000000
  offset := 0

theorem parts?_toChars (t : Instant) (month : t.date.month < 100) (day : t.date.day < 100) :
    parts? t.toChars = some (Parts.ofInstant t) := by
  have inDay : t.secondOfDay < 86400 := by
    unfold secondOfDay
    omega
  have second : t.secondOfDay % 60 + t.nanos / 1000000000 < 100 := by
    have := t.nanos_lt
    omega
  have dash : ∀ rest, EndsDigits ('-' :: rest) := fun rest c h => by cases h; rfl
  have last : EndsDigits ['Z'] := fun c h => by cases h; rfl
  have noPoint : ['Z'].head? ≠ some '.' := by decide
  have below : t.nanos % 1000000000 < 1000000000 := Nat.mod_lt _ (by decide)
  have fraction := fraction?_fractionChars below last noPoint
  have year := year?_yearChars t.date.year (dash (chars (lastDigits 2 t.date.month) ++
    '-' :: (chars (lastDigits 2 t.date.day) ++ 'T' :: (chars (lastDigits 2 (t.secondOfDay / 3600)) ++
    ':' :: (chars (lastDigits 2 (t.secondOfDay / 60 % 60)) ++
    ':' :: (chars (lastDigits 2 (t.secondOfDay % 60 + t.nanos / 1000000000)) ++
    (fractionChars (t.nanos % 1000000000) ++ ['Z'])))))))
  unfold toChars parts?
  simp only [List.append_assoc, List.cons_append]
  rw [skipBlank_yearChars, year]
  simp only [Option.bind_eq_bind, Option.bind_some,
    skipBlank_cons (show Text.isBlank '-' = false by decide),
    skipBlank_cons (show Text.isBlank ':' = false by decide),
    skipBlank_cons (show Text.isBlank 'Z' = false by decide), oneOf?_cons, decide_true, skipBlank_two,
    number?_two month, number?_two day,
    number?_two (show t.secondOfDay / 3600 < 100 by omega), Bool.true_or,
    number?_two (show t.secondOfDay / 60 % 60 < 100 by omega), number?_two second, fraction,
    offset?_universal]
  rfl

end PatchLedger.Instant.Reader

namespace PatchLedger.Instant

theorem ofParts_instant (t : Instant) : (Reader.Parts.ofInstant t).instant? = some t := by
  have first := t.first_le
  have last := t.le_last
  have small := t.nanos_lt
  have leap := t.leap
  have inDay : (t.secondOfDay : Int) = t.seconds % 86400 := by
    unfold secondOfDay
    omega
  have found : t.date.Exists := Date.exists_ofDays _
  have count : t.date.toDays = t.seconds / 86400 := Date.toDays_ofDays _
  have years : -262143 ≤ t.date.year ∧ t.date.year ≤ 262142 :=
    Date.year_ofDays_bounds (by omega) (by omega)
  have second : t.secondOfDay % 60 + t.nanos / 1000000000 ≤ 60 := by omega
  have seconds : t.date.toDays * 86400 + ((3600 * (t.secondOfDay / 3600) +
      60 * (t.secondOfDay / 60 % 60) + (t.secondOfDay % 60 + t.nanos / 1000000000 -
      (t.secondOfDay % 60 + t.nanos / 1000000000) / 60) : Nat) : Int) - 0 = t.seconds := by
    omega
  have nanos : t.nanos % 1000000000 +
      1000000000 * ((t.secondOfDay % 60 + t.nanos / 1000000000) / 60) = t.nanos := by
    omega
  unfold Reader.Parts.instant? Reader.Parts.ofInstant
  dsimp only
  rw [if_pos ⟨found, years.1, years.2, by omega, by omega, second⟩, seconds, nanos, ofParts?_parts]

theorem ofChars?_toChars (t : Instant) : ofChars? t.toChars = some t := by
  obtain ⟨-, month, -, day⟩ : t.date.Exists := Date.exists_ofDays _
  have days := Date.daysInMonth_le t.date.year t.date.month
  rw [ofChars?, Reader.parts?_toChars t (by omega) (by omega), Option.bind_some, ofParts_instant]

theorem ofText?_toText (t : Instant) : ofText? t.toText = some t := by
  rw [ofText?, toText, String.toList_ofList, ofChars?_toChars]

theorem exists_of_date {date : Date} (h : date.Exists) (first : -262143 ≤ date.year)
    (last : date.year ≤ 262142) {second nanos : Nat} (inDay : second < 86400)
    (small : nanos < 1000000000 ∨ second % 60 = 59 ∧ nanos < 2000000000) :
    ∃ t : Instant, t.date = date ∧ t.secondOfDay = second ∧ t.nanos = nanos := by
  obtain ⟨low, high⟩ := Date.toDays_bounds h first last
  have day : (date.toDays * 86400 + second) / 86400 = date.toDays := by omega
  refine ⟨⟨date.toDays * 86400 + second, nanos, by omega, by omega, by omega, by omega⟩, ?_, ?_, rfl⟩
  · rw [Instant.date, day, Date.ofDays_toDays h]
  · have within : (date.toDays * 86400 + second) % 86400 = (second : Int) := by omega
    rw [secondOfDay, within, Int.toNat_natCast]

end PatchLedger.Instant
