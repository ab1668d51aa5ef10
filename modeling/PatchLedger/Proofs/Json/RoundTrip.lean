import Mathlib.Data.List.DropRight
import PatchLedger.Json.Reader
import PatchLedger.Json.Writer
import PatchLedger.Proofs.Ascending
import PatchLedger.Proofs.Json.Numeral
import PatchLedger.Proofs.Json.StringBody

/-!
A written value is read back exactly when no more brackets are open at once than
the reader allows (`parse?_write`). One lemma for each kind of value says what the
reader makes of its text (`value_null` to `value_numeral`). From them the text of a
value is read as one syntax tree, `document`, whatever follows it; the fuel that
reading takes is bounded by twice the length of the text. Doubles are left out.
-/

namespace PatchLedger.Json

mutual

def document : Json → Document
  | .null => .null
  | .bool b => .bool b
  | .int n => .number (Numeral.ofInt n)
  | .double _ => .broken
  | .text s => .string (StringBody.pieces s)
  | .array items => .array (documents items) true
  | .object members => .object (memberDocuments members) true

def documents : List Json → List Document
  | [] => []
  | item :: others => document item :: documents others

def memberDocuments : List (String × Json) → List (Document × Document)
  | [] => []
  | (name, value) :: others =>
      (.string (StringBody.pieces name), document value) :: memberDocuments others

end

mutual

/-- No doubles, and integers that are read as integers. -/
def Plain : Json → Prop
  | .int n => -0x8000000000000000 ≤ n ∧ n < UInt64.size
  | .double _ => False
  | .array items => AllPlain items
  | .object members => AllMembersPlain members
  | _ => True

def AllPlain : List Json → Prop
  | [] => True
  | item :: others => Plain item ∧ AllPlain others

def AllMembersPlain : List (String × Json) → Prop
  | [] => True
  | (_, value) :: others => Plain value ∧ AllMembersPlain others

end

mutual

def brackets : Json → Nat
  | .array items => itemBrackets items + 1
  | .object members => memberBrackets members + 1
  | _ => 0

def itemBrackets : List Json → Nat
  | [] => 0
  | item :: others => max item.brackets (itemBrackets others)

def memberBrackets : List (String × Json) → Nat
  | [] => 0
  | (_, value) :: others => max value.brackets (memberBrackets others)

end

theorem skipBlank_cons {b : UInt8} (h : Document.isBlank b = false) (rest : Bytes) :
    Document.skipBlank (b :: rest) = b :: rest := by
  simp [Document.skipBlank, h]

theorem numeral_cons {n : Numeral} {s : Bytes} (h : n.Spelling s) : ∃ b text, s = b :: text ∧
    Document.isBlank b = false ∧ b ≠ 0x22 ∧ b ≠ 0x5B ∧ b ≠ 0x7B ∧ b ≠ 0x6E ∧ b ≠ 0x74 ∧ b ≠ 0x66 ∧
    b ≠ 0x5D ∧ b ≠ 0x7D := by
  obtain ⟨digits, -, f, e, -, -, rfl⟩ := h
  cases n.negative with
  | true => exact ⟨0x2D, _, rfl, by decide⟩
  | false =>
    obtain ⟨d, others, found⟩ := List.exists_cons_of_ne_nil digits.1
    have small : d < 10 := digits.2 d (found ▸ List.mem_cons_self)
    have all : ∀ d : Fin 10, Document.isBlank (0x30 + UInt8.ofNat d) = false ∧
        0x30 + UInt8.ofNat d ≠ 0x22 ∧ 0x30 + UInt8.ofNat d ≠ 0x5B ∧ 0x30 + UInt8.ofNat d ≠ 0x7B ∧
        0x30 + UInt8.ofNat d ≠ 0x6E ∧ 0x30 + UInt8.ofNat d ≠ 0x74 ∧ 0x30 + UInt8.ofNat d ≠ 0x66 ∧
        0x30 + UInt8.ofNat d ≠ 0x5D ∧ 0x30 + UInt8.ofNat d ≠ 0x7D := by decide
    exact ⟨_, _, by rw [found]; rfl, all ⟨d, small⟩⟩

theorem write_cons (json : Json) (plain : json.Plain) : ∃ b text, json.write = b :: text ∧
    Document.isBlank b = false ∧ b ≠ 0x5D ∧ b ≠ 0x7D := by
  cases json with
  | null => exact ⟨_, _, rfl, by decide⟩
  | bool b => cases b <;> exact ⟨_, _, rfl, by decide⟩
  | int n =>
    obtain ⟨b, text, found, shown, -, -, -, -, -, -, close⟩ := numeral_cons (Numeral.spelling_ofInt n)
    exact ⟨b, text, by rw [write, writeOnto, List.append_nil, found], shown, close⟩
  | double f => exact absurd plain (by simp [Plain])
  | text s => exact ⟨_, _, rfl, by decide⟩
  | array items => exact ⟨_, _, rfl, by decide⟩
  | object members => exact ⟨_, _, rfl, by decide⟩

theorem length_write_pos (json : Json) (plain : json.Plain) : 0 < json.write.length := by
  obtain ⟨b, text, found, -⟩ := write_cons json plain
  simp [found]

theorem length_writeItemsOnto_cons (item other : Json) (others : List Json) (rest : Bytes) :
    (writeItemsOnto (item :: other :: others) rest).length =
      item.write.length + 1 + (writeItemsOnto (other :: others) rest).length := by
  rw [writeItemsOnto, writeOnto_eq, List.length_append, List.length_cons]
  · omega
  · simp

theorem length_writeMembersOnto_cons (name : String) (value : Json) (other : String × Json)
    (others : List (String × Json)) (rest : Bytes) :
    (writeMembersOnto ((name, value) :: other :: others) rest).length =
      (Writer.string name).length + 1 + value.write.length + 1 +
        (writeMembersOnto (other :: others) rest).length := by
  rw [writeMembersOnto, writeOnto_eq]
  · simp only [List.length_append, List.length_cons]
    omega
  · simp

theorem skipBlank_skipBlank (s : Bytes) :
    Document.skipBlank (Document.skipBlank s) = Document.skipBlank s :=
  List.dropWhile_idempotent _ s

theorem value_skipBlank (fuel : Nat) (s : Bytes) :
    Document.value fuel (Document.skipBlank s) = Document.value fuel s := by
  cases fuel with
  | zero => rfl
  | succ fuel => rw [Document.value, Document.value, skipBlank_skipBlank]

theorem items_skipBlank (fuel : Nat) (s : Bytes) :
    Document.items fuel (Document.skipBlank s) = Document.items fuel s := by
  cases fuel with
  | zero => rfl
  | succ fuel => rw [Document.items, Document.items, value_skipBlank]

theorem members_skipBlank (fuel : Nat) (s : Bytes) :
    Document.members fuel (Document.skipBlank s) = Document.members fuel s := by
  cases fuel with
  | zero => rfl
  | succ fuel => rw [Document.members, Document.members, value_skipBlank]

theorem value_null (rest : Bytes) (fuel : Nat) :
    Document.value (fuel + 1) (0x6E :: 0x75 :: 0x6C :: 0x6C :: rest) = (.null, rest) := by
  simp [Document.value, skipBlank_cons, Document.isBlank, Document.literal]

theorem value_true (rest : Bytes) (fuel : Nat) :
    Document.value (fuel + 1) (0x74 :: 0x72 :: 0x75 :: 0x65 :: rest) = (.bool true, rest) := by
  simp [Document.value, skipBlank_cons, Document.isBlank, Document.literal]

theorem value_false (rest : Bytes) (fuel : Nat) :
    Document.value (fuel + 1) (0x66 :: 0x61 :: 0x6C :: 0x73 :: 0x65 :: rest) = (.bool false, rest) := by
  simp [Document.value, skipBlank_cons, Document.isBlank, Document.literal]

theorem value_quoted {s rest : Bytes} {pieces : List Piece} (h : StringBody.read? s = some (pieces, rest))
    (fuel : Nat) : Document.value (fuel + 1) (0x22 :: s) = (.string pieces, rest) := by
  rw [Document.value, skipBlank_cons (by decide)]
  simp only [if_true, h]

theorem value_emptyArray {s rest : Bytes} (h : Document.skipBlank s = 0x5D :: rest) (fuel : Nat) :
    Document.value (fuel + 1) (0x5B :: s) = (.array [] true, rest) := by
  simp [Document.value, skipBlank_cons, Document.isBlank, h]

theorem value_array {s rest text : Bytes} {b : UInt8} {trees : List Document} {fuel : Nat}
    (first : Document.skipBlank s = b :: text) (close : b ≠ 0x5D)
    (h : Document.items fuel s = (trees, true, rest)) :
    Document.value (fuel + 1) (0x5B :: s) = (.array trees true, rest) := by
  rw [← items_skipBlank, first] at h
  simp [Document.value, skipBlank_cons, Document.isBlank, first, close, h]

theorem value_emptyObject {s rest : Bytes} (h : Document.skipBlank s = 0x7D :: rest) (fuel : Nat) :
    Document.value (fuel + 1) (0x7B :: s) = (.object [] true, rest) := by
  simp [Document.value, skipBlank_cons, Document.isBlank, h]

theorem value_object {s rest text : Bytes} {b : UInt8} {trees : List (Document × Document)} {fuel : Nat}
    (first : Document.skipBlank s = b :: text) (close : b ≠ 0x7D)
    (h : Document.members fuel s = (trees, true, rest)) :
    Document.value (fuel + 1) (0x7B :: s) = (.object trees true, rest) := by
  rw [← members_skipBlank, first] at h
  simp [Document.value, skipBlank_cons, Document.isBlank, first, close, h]

theorem value_string (s : String) (rest : Bytes) (fuel : Nat) :
    Document.value (fuel + 1) (Writer.string s ++ rest) =
      (.string (StringBody.pieces s), rest) := by
  have form : Writer.string s ++ rest =
      0x22 :: ((Bytes.ofText s).flatMap Writer.escaped ++ 0x22 :: rest) := by
    simp [Writer.string]
  rw [form, value_quoted (StringBody.read?_ofText s rest)]

theorem value_numeral {n : Numeral} {s : Bytes} (h : n.Spelling s) {rest : Bytes}
    (ends : Numeral.Ends rest) (fuel : Nat) :
    Document.value (fuel + 1) (s ++ rest) = (.number n, rest) := by
  have read := Numeral.read?_of_spelling h ends
  obtain ⟨b, text, rfl, shown, quote, bracket, brace, null, yes, no, -⟩ := numeral_cons h
  rw [List.cons_append] at read ⊢
  rw [Document.value, skipBlank_cons shown]
  simp only [if_neg quote, if_neg bracket, if_neg brace, if_neg null, if_neg yes, if_neg no, read]

mutual

theorem value_writeOnto : (json : Json) → json.Plain → {rest : Bytes} → Numeral.Ends rest →
    (fuel : Nat) → 2 * json.write.length ≤ fuel →
    Document.value fuel (json.writeOnto rest) = (json.document, rest)
  | .null, _, rest, _, fuel, enough => by
      obtain ⟨fuel, rfl⟩ : ∃ n, fuel = n + 1 := ⟨fuel - 1, by simp [write, writeOnto] at enough; omega⟩
      exact value_null rest fuel
  | .bool b, _, rest, _, fuel, enough => by
      obtain ⟨fuel, rfl⟩ : ∃ n, fuel = n + 1 :=
        ⟨fuel - 1, by cases b <;> simp [write, writeOnto] at enough <;> omega⟩
      cases b with
      | false => exact value_false rest fuel
      | true => exact value_true rest fuel
  | .int n, plain, rest, ends, fuel, enough => by
      have some := length_write_pos (.int n) plain
      obtain ⟨fuel, rfl⟩ : ∃ n, fuel = n + 1 := ⟨fuel - 1, by omega⟩
      rw [writeOnto, document, value_numeral (Numeral.spelling_ofInt n) ends]
  | .double f, plain, _, _, _, _ => absurd plain (by simp [Plain])
  | .text s, plain, rest, _, fuel, enough => by
      have some := length_write_pos (.text s) plain
      obtain ⟨fuel, rfl⟩ : ∃ n, fuel = n + 1 := ⟨fuel - 1, by omega⟩
      rw [writeOnto, document, value_string]
  | .array [], _, rest, _, fuel, enough => by
      obtain ⟨fuel, rfl⟩ : ∃ n, fuel = n + 1 :=
        ⟨fuel - 1, by simp [write, writeOnto, writeItemsOnto] at enough; omega⟩
      exact value_emptyArray (skipBlank_cons (by decide) rest) fuel
  | .array (item :: others), plain, rest, _, fuel, enough => by
      have length : (write (.array (item :: others))).length =
          (writeItemsOnto (item :: others) []).length + 2 := by
        rw [write, writeOnto, ← List.nil_append [0x5D], ← writeItemsOnto_append]
        simp
      obtain ⟨fuel, rfl⟩ : ∃ n, fuel = n + 1 := ⟨fuel - 1, by omega⟩
      have read := items_writeItemsOnto (item :: others) (by simp) plain rest fuel (by omega)
      obtain ⟨b, text, found, shown, close, -⟩ := write_cons item plain.1
      obtain ⟨tail, written⟩ : ∃ tail,
          writeItemsOnto (item :: others) (0x5D :: rest) = b :: tail := by
        cases others with
        | nil => exact ⟨_, by rw [writeItemsOnto, writeOnto_eq, found]; rfl⟩
        | cons other others => exact ⟨_, by rw [writeItemsOnto, writeOnto_eq, found]; rfl; simp⟩
      have first : Document.skipBlank (writeItemsOnto (item :: others) (0x5D :: rest)) = b :: tail := by
        rw [written, skipBlank_cons shown]
      exact value_array first close read
  | .object [], _, rest, _, fuel, enough => by
      obtain ⟨fuel, rfl⟩ : ∃ n, fuel = n + 1 :=
        ⟨fuel - 1, by simp [write, writeOnto, writeMembersOnto] at enough; omega⟩
      exact value_emptyObject (skipBlank_cons (by decide) rest) fuel
  | .object ((name, value) :: others), plain, rest, _, fuel, enough => by
      have length : (write (.object ((name, value) :: others))).length =
          (writeMembersOnto ((name, value) :: others) []).length + 2 := by
        rw [write, writeOnto, ← List.nil_append [0x7D], ← writeMembersOnto_append]
        simp
      obtain ⟨fuel, rfl⟩ : ∃ n, fuel = n + 1 := ⟨fuel - 1, by omega⟩
      have read := members_writeMembersOnto ((name, value) :: others) (by simp) plain rest fuel
        (by omega)
      obtain ⟨tail, written⟩ : ∃ tail,
          writeMembersOnto ((name, value) :: others) (0x7D :: rest) = 0x22 :: tail := by
        cases others with
        | nil => exact ⟨_, by rw [writeMembersOnto]; rfl⟩
        | cons other others => exact ⟨_, by rw [writeMembersOnto]; rfl; simp⟩
      have first : Document.skipBlank (writeMembersOnto ((name, value) :: others) (0x7D :: rest)) =
          0x22 :: tail := by
        rw [written, skipBlank_cons (by decide)]
      exact value_object first (by decide) read

theorem items_writeItemsOnto : (items : List Json) → items ≠ [] → AllPlain items →
    (rest : Bytes) → (fuel : Nat) → 2 * (writeItemsOnto items []).length + 1 ≤ fuel →
    Document.items fuel (writeItemsOnto items (0x5D :: rest)) = (documents items, true, rest)
  | [], nonempty, _, _, _, _ => absurd rfl nonempty
  | [item], _, plain, rest, fuel, enough => by
      change 2 * item.write.length + 1 ≤ fuel at enough
      obtain ⟨fuel, rfl⟩ : ∃ n, fuel = n + 1 := ⟨fuel - 1, by omega⟩
      have read := value_writeOnto item plain.1
        (Numeral.ends_cons (b := 0x5D) (by decide) rest) fuel (by omega)
      rw [writeItemsOnto, Document.items, read]
      simp [skipBlank_cons, Document.isBlank, documents]
  | item :: other :: others, _, plain, rest, fuel, enough => by
      obtain ⟨fuel, rfl⟩ : ∃ n, fuel = n + 1 := ⟨fuel - 1, by omega⟩
      rw [length_writeItemsOnto_cons] at enough
      have read := value_writeOnto item plain.1
        (Numeral.ends_cons (b := 0x2C) (by decide) (writeItemsOnto (other :: others) (0x5D :: rest)))
        fuel (by omega)
      have readOthers := items_writeItemsOnto (other :: others) (by simp) plain.2 rest fuel
        (by omega)
      rw [writeItemsOnto, Document.items, read]
      · simp [skipBlank_cons, Document.isBlank, documents, readOthers]
      · simp

theorem members_writeMembersOnto : (members : List (String × Json)) → members ≠ [] →
    AllMembersPlain members → (rest : Bytes) → (fuel : Nat) →
    2 * (writeMembersOnto members []).length + 1 ≤ fuel →
    Document.members fuel (writeMembersOnto members (0x7D :: rest)) =
      (memberDocuments members, true, rest)
  | [], nonempty, _, _, _, _ => absurd rfl nonempty
  | [(name, value)], _, plain, rest, fuel, enough => by
      have length : (writeMembersOnto [(name, value)] []).length =
          (Writer.string name).length + 1 + value.write.length := by
        rw [writeMembersOnto, writeOnto_eq]
        simp
        omega
      have some : 0 < (Writer.string name).length := by simp [Writer.string]
      obtain ⟨fuel, rfl⟩ : ∃ n, fuel = n + 2 := ⟨fuel - 2, by omega⟩
      have read := value_writeOnto value plain.1
        (Numeral.ends_cons (b := 0x7D) (by decide) rest) (fuel + 1) (by omega)
      rw [writeMembersOnto, Document.members, value_string]
      simp [skipBlank_cons, Document.isBlank, Document.isString, memberDocuments, read]
  | (name, value) :: other :: others, _, plain, rest, fuel, enough => by
      rw [length_writeMembersOnto_cons] at enough
      have some : 0 < (Writer.string name).length := by simp [Writer.string]
      obtain ⟨fuel, rfl⟩ : ∃ n, fuel = n + 2 := ⟨fuel - 2, by omega⟩
      have read := value_writeOnto value plain.1 (Numeral.ends_cons (b := 0x2C) (by decide)
        (writeMembersOnto (other :: others) (0x7D :: rest))) (fuel + 1) (by omega)
      have readOthers := members_writeMembersOnto (other :: others) (by simp) plain.2 rest
        (fuel + 1) (by omega)
      rw [writeMembersOnto, Document.members, value_string]
      · simp [skipBlank_cons, Document.isBlank, Document.isString, memberDocuments, read, readOthers]
      · simp

end

mutual

theorem ofDocument?_document : (json : Json) → json.Plain → (room : Nat) →
    ofDocument? room json.document = if json.brackets ≤ room then some json else none
  | .null, _, _ => rfl
  | .bool _, _, _ => rfl
  | .int n, plain, room => by
      simp [document, ofDocument?, brackets, Numeral.number?_ofInt plain.1 plain.2, Number.toJson]
  | .double f, plain, _ => absurd plain (by simp [Plain])
  | .text s, _, room => by simp [document, ofDocument?, brackets]
  | .array items, plain, room => by
      cases room with
      | zero => simp [document, ofDocument?, brackets]
      | succ room =>
        have read := itemsOf?_documents items plain room
        by_cases fits : itemBrackets items ≤ room <;> simp [document, ofDocument?, brackets, read, fits]
  | .object members, plain, room => by
      cases room with
      | zero => simp [document, ofDocument?, brackets]
      | succ room =>
        have read := membersOf?_memberDocuments members plain room
        by_cases fits : memberBrackets members ≤ room <;>
          simp [document, ofDocument?, brackets, read, fits]

theorem itemsOf?_documents : (items : List Json) → AllPlain items → (room : Nat) →
    itemsOf? room (documents items) = if itemBrackets items ≤ room then some items else none
  | [], _, _ => rfl
  | item :: others, plain, room => by
      have first := ofDocument?_document item plain.1 room
      have rest := itemsOf?_documents others plain.2 room
      have whole : itemBrackets (item :: others) ≤ room ↔
          item.brackets ≤ room ∧ itemBrackets others ≤ room := by rw [itemBrackets, Nat.max_le]
      by_cases fits : item.brackets ≤ room <;> by_cases fitOthers : itemBrackets others ≤ room <;>
        simp [documents, itemsOf?, whole, first, rest, fits, fitOthers]

theorem membersOf?_memberDocuments : (members : List (String × Json)) → AllMembersPlain members →
    (room : Nat) → membersOf? room (memberDocuments members) =
      if memberBrackets members ≤ room then some members else none
  | [], _, _ => rfl
  | (name, value) :: others, plain, room => by
      have first := ofDocument?_document value plain.1 room
      have rest := membersOf?_memberDocuments others plain.2 room
      have whole : memberBrackets ((name, value) :: others) ≤ room ↔
          value.brackets ≤ room ∧ memberBrackets others ≤ room := by rw [memberBrackets, Nat.max_le]
      by_cases fits : value.brackets ≤ room <;> by_cases fitOthers : memberBrackets others ≤ room <;>
        simp [memberDocuments, membersOf?, whole, first, rest, fits, fitOthers]

end

theorem read_write (json : Json) (plain : json.Plain) : Document.read json.write = (json.document, []) :=
  value_writeOnto json plain Numeral.ends_nil _ (by omega)

theorem parse?_write (json : Json) (plain : json.Plain) :
    parse? json.write = if json.brackets ≤ nestLimit then some json else none := by
  rw [parse?, read_write json plain]
  simp [ofDocument?_document json plain]

theorem allMembersPlain_iff {members : List (String × Json)} :
    AllMembersPlain members ↔ ∀ member ∈ members, member.2.Plain := by
  induction members with
  | nil => simp [AllMembersPlain]
  | cons member others ih => simp [AllMembersPlain, ih]

theorem memberBrackets_le_iff {members : List (String × Json)} {n : Nat} :
    memberBrackets members ≤ n ↔ ∀ member ∈ members, member.2.brackets ≤ n := by
  induction members with
  | nil => simp [memberBrackets]
  | cons member others ih => rw [memberBrackets, Nat.max_le, ih, List.forall_mem_cons]

theorem plain_ordered {written : List (String × Json)}
    (distinct : (written.map Prod.fst).Nodup) (plain : ∀ member ∈ written, member.2.Plain) :
    (Json.ordered written).Plain := by
  rw [ordered, Plain, allMembersPlain_iff]
  exact fun member h => plain member ((Ascending.mem_ofList distinct).1 h)

theorem brackets_ordered_le_iff {written : List (String × Json)}
    (distinct : (written.map Prod.fst).Nodup) {n : Nat} :
    (Json.ordered written).brackets ≤ n + 1 ↔ ∀ member ∈ written, member.2.brackets ≤ n := by
  rw [ordered, brackets, Nat.add_le_add_iff_right, memberBrackets_le_iff]
  exact forall_congr' fun member => by rw [members, Ascending.mem_ofList distinct]

end PatchLedger.Json
