import PatchLedger.Proofs.Json.Brackets
import PatchLedger.Proofs.Json.Reading

/-!
The texts of a value, told by a grammar and without the reader (`Json.Spelling`).
The reader takes exactly these texts, as far as the brackets are not too many
(`parse?_eq_some_iff`): where white space stands and how a string is spelled is
all that a text has beyond its value.
-/

namespace PatchLedger.Json

mutual

/-- The texts of a value. White space may stand around it, and so around each value inside it. -/
inductive Spelling : Json → Bytes → Prop where
  | null : Spelling .null [0x6E, 0x75, 0x6C, 0x6C]
  | yes : Spelling (.bool true) [0x74, 0x72, 0x75, 0x65]
  | no : Spelling (.bool false) [0x66, 0x61, 0x6C, 0x73, 0x65]
  | number {n : Numeral} {json : Json} {s : Bytes} (value : n.number?.map Number.toJson = some json) :
      n.Spelling s → Spelling json s
  | text {t : String} {s : Bytes} :
      StringBody.Spelling (Bytes.ofText t) s → Spelling (.text t) (0x22 :: (s ++ [0x22]))
  | noItems {s : Bytes} (blank : s.all Document.isBlank = true) :
      Spelling (.array []) (0x5B :: (s ++ [0x5D]))
  | items {items : List Json} {s : Bytes} :
      ItemsSpelling items s → Spelling (.array items) (0x5B :: (s ++ [0x5D]))
  | noMembers {s : Bytes} (blank : s.all Document.isBlank = true) :
      Spelling (.object []) (0x7B :: (s ++ [0x7D]))
  | members {members : List (String × Json)} {s : Bytes} :
      MembersSpelling members s → Spelling (.object members) (0x7B :: (s ++ [0x7D]))
  | before {b : UInt8} {json : Json} {s : Bytes} (blank : Document.isBlank b = true) :
      Spelling json s → Spelling json (b :: s)
  | after {b : UInt8} {json : Json} {s : Bytes} (blank : Document.isBlank b = true) :
      Spelling json s → Spelling json (s ++ [b])

inductive ItemsSpelling : List Json → Bytes → Prop where
  | one {item : Json} {s : Bytes} : Spelling item s → ItemsSpelling [item] s
  | cons {item : Json} {others : List Json} {s t : Bytes} :
      Spelling item s → ItemsSpelling others t → ItemsSpelling (item :: others) (s ++ 0x2C :: t)

inductive MembersSpelling : List (String × Json) → Bytes → Prop where
  | one {name : String} {value : Json} {s t : Bytes} :
      Spelling (.text name) s → Spelling value t → MembersSpelling [(name, value)] (s ++ 0x3A :: t)
  | cons {name : String} {value : Json} {others : List (String × Json)} {s t u : Bytes} :
      Spelling (.text name) s → Spelling value t → MembersSpelling others u →
        MembersSpelling ((name, value) :: others) (s ++ 0x3A :: (t ++ 0x2C :: u))

end

theorem skipBlank_append {s : Bytes} (blank : s.all Document.isBlank = true) (rest : Bytes) :
    Document.skipBlank (s ++ rest) = Document.skipBlank rest :=
  List.dropWhile_append_of_pos (List.all_eq_true.1 blank)

theorem exists_blank (s : Bytes) : ∃ w, w.all Document.isBlank = true ∧ s = w ++ Document.skipBlank s :=
  ⟨_, List.all_takeWhile, (List.takeWhile_append_dropWhile).symm⟩

theorem ends_of_isBlank {b : UInt8} (h : Document.isBlank b = true) (rest : Bytes) :
    Numeral.Ends (b :: rest) := by
  refine Numeral.ends_cons ?_ rest
  simp only [Document.isBlank, Bool.or_eq_true, decide_eq_true_eq] at h
  rcases h with ((rfl | rfl) | rfl) | rfl <;> decide

theorem Spelling.after_blank {json : Json} {s w : Bytes} (h : Spelling json s)
    (blank : w.all Document.isBlank = true) : Spelling json (s ++ w) := by
  induction w generalizing s with
  | nil => rwa [List.append_nil]
  | cons b w ih =>
    rw [List.all_cons, Bool.and_eq_true] at blank
    rw [List.append_cons]
    exact ih (.after blank.1 h) blank.2

theorem Spelling.before_blank {json : Json} {s w : Bytes} (h : Spelling json s)
    (blank : w.all Document.isBlank = true) : Spelling json (w ++ s) := by
  induction w with
  | nil => exact h
  | cons b w ih =>
    rw [List.all_cons, Bool.and_eq_true] at blank
    exact .before blank.1 (ih blank.2)

theorem skipBlank_blank {b : UInt8} (h : Document.isBlank b = true) (s : Bytes) :
    Document.skipBlank (b :: s) = Document.skipBlank s :=
  List.dropWhile_cons_of_pos h

theorem Spelling.skipBlank_eq : {json : Json} → {s : Bytes} → Spelling json s → (rest : Bytes) →
    ∃ b text, Document.skipBlank (s ++ rest) = b :: text ∧ b ≠ 0x5D ∧ b ≠ 0x7D
  | _, _, .null, _ => ⟨_, _, skipBlank_cons (by decide) _, by decide⟩
  | _, _, .yes, _ => ⟨_, _, skipBlank_cons (by decide) _, by decide⟩
  | _, _, .no, _ => ⟨_, _, skipBlank_cons (by decide) _, by decide⟩
  | _, _, .number _ h, _ => by
      obtain ⟨b, text, rfl, shown, -, -, -, -, -, -, close⟩ := numeral_cons h
      exact ⟨b, _, skipBlank_cons shown _, close⟩
  | _, _, .text _, _ => ⟨_, _, skipBlank_cons (by decide) _, by decide⟩
  | _, _, .noItems _, _ => ⟨_, _, skipBlank_cons (by decide) _, by decide⟩
  | _, _, .items _, _ => ⟨_, _, skipBlank_cons (by decide) _, by decide⟩
  | _, _, .noMembers _, _ => ⟨_, _, skipBlank_cons (by decide) _, by decide⟩
  | _, _, .members _, _ => ⟨_, _, skipBlank_cons (by decide) _, by decide⟩
  | _, _, .before blank h, rest => by
      rw [List.cons_append, skipBlank_blank blank]
      exact h.skipBlank_eq rest
  | _, _, .after _ h, rest => by
      rw [List.append_assoc]
      exact h.skipBlank_eq _

theorem Spelling.length_pos {json : Json} {s : Bytes} (h : Spelling json s) : 0 < s.length := by
  obtain ⟨b, text, found, -⟩ := h.skipBlank_eq []
  cases s with
  | nil => cases found
  | cons b s => exact Nat.succ_pos _

theorem Spelling.exists_fuel {json : Json} {s : Bytes} (h : Spelling json s) {fuel : Nat}
    (enough : 2 * s.length ≤ fuel) : ∃ n, fuel = n + 1 := by
  have some := h.length_pos
  exact ⟨fuel - 1, by omega⟩

theorem ItemsSpelling.skipBlank_eq {items : List Json} {s : Bytes} (h : ItemsSpelling items s)
    (rest : Bytes) : ∃ b text, Document.skipBlank (s ++ rest) = b :: text ∧ b ≠ 0x5D := by
  cases h with
  | one first =>
    obtain ⟨b, text, found, close, -⟩ := first.skipBlank_eq rest
    exact ⟨b, text, found, close⟩
  | cons first others =>
    rw [List.append_assoc]
    obtain ⟨b, text, found, close, -⟩ := first.skipBlank_eq _
    exact ⟨b, text, found, close⟩

theorem MembersSpelling.skipBlank_eq {members : List (String × Json)} {s : Bytes}
    (h : MembersSpelling members s) (rest : Bytes) :
    ∃ b text, Document.skipBlank (s ++ rest) = b :: text ∧ b ≠ 0x7D := by
  cases h with
  | one name value =>
    rw [List.append_assoc]
    obtain ⟨b, text, found, -, close⟩ := name.skipBlank_eq _
    exact ⟨b, text, found, close⟩
  | cons name value others =>
    rw [List.append_assoc]
    obtain ⟨b, text, found, -, close⟩ := name.skipBlank_eq _
    exact ⟨b, text, found, close⟩

/-- The tree is read as the value, wherever there is room for its brackets. -/
def Holds (document : Document) (json : Json) : Prop :=
  ∀ room, json.brackets ≤ room → ofDocument? room document = some json

theorem Holds.exists_string {document : Document} {t : String} (h : Holds document (.text t)) :
    ∃ pieces, document = .string pieces ∧ StringBody.text? pieces = some t := by
  have found := found_of_ofDocument? (h 0 (Nat.zero_le _))
  cases document with
  | string pieces =>
    obtain ⟨_, text, same⟩ := Option.map_eq_some_iff.1 (h 0 (Nat.zero_le _))
    cases same
    exact ⟨pieces, rfl, text⟩
  | number n =>
    obtain ⟨number, -, same⟩ := Option.map_eq_some_iff.1 (h 0 (Nat.zero_le _))
    cases number <;> cases same
  | _ => cases found

mutual

theorem Spelling.value_eq : {json : Json} → {s : Bytes} → Spelling json s → {rest : Bytes} →
    Numeral.Ends rest → (fuel : Nat) → 2 * s.length ≤ fuel → ∃ document w,
      Document.value fuel (s ++ rest) = (document, w ++ rest) ∧ w.all Document.isBlank = true ∧
        Holds document json
  | _, _, .null, rest, _, fuel, enough => by
      obtain ⟨fuel, rfl⟩ := Spelling.null.exists_fuel enough
      exact ⟨.null, [], value_null rest fuel, rfl, fun _ _ => rfl⟩
  | _, _, .yes, rest, _, fuel, enough => by
      obtain ⟨fuel, rfl⟩ := Spelling.yes.exists_fuel enough
      exact ⟨.bool true, [], value_true rest fuel, rfl, fun _ _ => rfl⟩
  | _, _, .no, rest, _, fuel, enough => by
      obtain ⟨fuel, rfl⟩ := Spelling.no.exists_fuel enough
      exact ⟨.bool false, [], value_false rest fuel, rfl, fun _ _ => rfl⟩
  | _, _, .number value h, rest, ends, fuel, enough => by
      obtain ⟨fuel, rfl⟩ := (Spelling.number value h).exists_fuel enough
      exact ⟨_, [], value_numeral h ends fuel, rfl, fun _ _ => value⟩
  | _, _, .text h, rest, _, fuel, enough => by
      obtain ⟨fuel, rfl⟩ := (Spelling.text h).exists_fuel enough
      obtain ⟨pieces, read, content⟩ := StringBody.exists_read?_of_spelling h rest
      refine ⟨.string pieces, [], ?_, rfl, fun _ _ => ?_⟩
      · simpa using value_quoted read fuel
      · simp [ofDocument?, StringBody.text?, content]
  | _, _, .noItems (s := s) blank, rest, _, fuel, enough => by
      obtain ⟨fuel, rfl⟩ := (Spelling.noItems blank).exists_fuel enough
      have closed : Document.skipBlank (s ++ 0x5D :: rest) = 0x5D :: rest := by
        rw [skipBlank_append blank, skipBlank_cons (by decide)]
      refine ⟨.array [] true, [], ?_, rfl, fun room fits => ?_⟩
      · simpa using value_emptyArray closed fuel
      · cases room with
        | zero => cases fits
        | succ room => rfl
  | _, _, .items h, rest, _, fuel, enough => by
      obtain ⟨fuel, rfl⟩ := (Spelling.items h).exists_fuel enough
      obtain ⟨trees, read, holds⟩ := h.items_eq rest fuel (by simp at enough; omega)
      obtain ⟨b, text, found, close⟩ := h.skipBlank_eq (0x5D :: rest)
      refine ⟨.array trees true, [], ?_, rfl, fun room fits => ?_⟩
      · simpa using value_array found close read
      · cases room with
        | zero => cases fits
        | succ room => simp [ofDocument?, holds room (Nat.le_of_succ_le_succ fits)]
  | _, _, .noMembers (s := s) blank, rest, _, fuel, enough => by
      obtain ⟨fuel, rfl⟩ := (Spelling.noMembers blank).exists_fuel enough
      have closed : Document.skipBlank (s ++ 0x7D :: rest) = 0x7D :: rest := by
        rw [skipBlank_append blank, skipBlank_cons (by decide)]
      refine ⟨.object [] true, [], ?_, rfl, fun room fits => ?_⟩
      · simpa using value_emptyObject closed fuel
      · cases room with
        | zero => cases fits
        | succ room => rfl
  | _, _, .members h, rest, _, fuel, enough => by
      obtain ⟨fuel, rfl⟩ := (Spelling.members h).exists_fuel enough
      obtain ⟨trees, read, holds⟩ := h.members_eq rest fuel (by simp at enough; omega)
      obtain ⟨b, text, found, close⟩ := h.skipBlank_eq (0x7D :: rest)
      refine ⟨.object trees true, [], ?_, rfl, fun room fits => ?_⟩
      · simpa using value_object found close read
      · cases room with
        | zero => cases fits
        | succ room => simp [ofDocument?, holds room (Nat.le_of_succ_le_succ fits)]
  | _, _, .before blank h, rest, ends, fuel, enough => by
      obtain ⟨document, w, read, isBlank, holds⟩ := h.value_eq ends fuel (by simp at enough; omega)
      refine ⟨document, w, ?_, isBlank, holds⟩
      rw [← read, List.cons_append, ← value_skipBlank, skipBlank_blank blank, value_skipBlank]
  | _, _, .after (b := b) blank h, rest, _, fuel, enough => by
      obtain ⟨document, w, read, isBlank, holds⟩ :=
        h.value_eq (ends_of_isBlank blank rest) fuel (by simp at enough; omega)
      refine ⟨document, w ++ [b], ?_, by simp [isBlank, blank], holds⟩
      rw [List.append_assoc, List.append_assoc]
      exact read

theorem ItemsSpelling.items_eq : {items : List Json} → {s : Bytes} → ItemsSpelling items s →
    (rest : Bytes) → (fuel : Nat) → 2 * s.length + 1 ≤ fuel → ∃ trees,
      Document.items fuel (s ++ 0x5D :: rest) = (trees, true, rest) ∧
        ∀ room, itemBrackets items ≤ room → itemsOf? room trees = some items
  | _, _, .one h, rest, fuel, enough => by
      obtain ⟨fuel, rfl⟩ : ∃ n, fuel = n + 1 := ⟨fuel - 1, by omega⟩
      obtain ⟨tree, w, read, blank, holds⟩ := h.value_eq
        (Numeral.ends_cons (b := 0x5D) (by decide) rest) fuel (by omega)
      refine ⟨[tree], ?_, fun room fits => ?_⟩
      · simp [Document.items, read, skipBlank_append blank, skipBlank_cons, Document.isBlank]
      · simp [itemsOf?, holds room (Nat.max_le.1 fits).1]
  | _, _, .cons (t := t) h others, rest, fuel, enough => by
      obtain ⟨fuel, rfl⟩ : ∃ n, fuel = n + 1 := ⟨fuel - 1, by omega⟩
      rw [List.length_append, List.length_cons] at enough
      obtain ⟨tree, w, read, blank, holds⟩ := h.value_eq
        (Numeral.ends_cons (b := 0x2C) (by decide) (t ++ 0x5D :: rest)) fuel (by omega)
      obtain ⟨trees, readOthers, holdsOthers⟩ := others.items_eq rest fuel (by omega)
      refine ⟨tree :: trees, ?_, fun room fits => ?_⟩
      · simp [Document.items, read, skipBlank_append blank, skipBlank_cons, Document.isBlank,
          readOthers]
      · have fits := Nat.max_le.1 fits
        simp [itemsOf?, holds room fits.1, holdsOthers room fits.2]

theorem MembersSpelling.members_eq : {members : List (String × Json)} → {s : Bytes} →
    MembersSpelling members s → (rest : Bytes) → (fuel : Nat) → 2 * s.length + 1 ≤ fuel → ∃ trees,
      Document.members fuel (s ++ 0x7D :: rest) = (trees, true, rest) ∧
        ∀ room, memberBrackets members ≤ room → membersOf? room trees = some members
  | _, _, .one (t := t) name h, rest, fuel, enough => by
      obtain ⟨fuel, rfl⟩ : ∃ n, fuel = n + 1 := ⟨fuel - 1, by omega⟩
      rw [List.length_append, List.length_cons] at enough
      obtain ⟨nameTree, w, readName, blankName, holdsName⟩ := name.value_eq
        (Numeral.ends_cons (b := 0x3A) (by decide) (t ++ 0x7D :: rest)) fuel (by omega)
      obtain ⟨tree, w', read, blank, holds⟩ := h.value_eq
        (Numeral.ends_cons (b := 0x7D) (by decide) rest) fuel (by omega)
      obtain ⟨pieces, rfl, text⟩ := holdsName.exists_string
      refine ⟨[(.string pieces, tree)], ?_, fun room fits => ?_⟩
      · simp [Document.members, readName, skipBlank_append blankName, skipBlank_cons, Document.isBlank,
          Document.isString, read, skipBlank_append blank]
      · simp [membersOf?, text, holds room (Nat.max_le.1 fits).1]
  | _, _, .cons (t := t) (u := u) name h others, rest, fuel, enough => by
      obtain ⟨fuel, rfl⟩ : ∃ n, fuel = n + 1 := ⟨fuel - 1, by omega⟩
      simp only [List.length_append, List.length_cons] at enough
      obtain ⟨nameTree, w, readName, blankName, holdsName⟩ := name.value_eq
        (Numeral.ends_cons (b := 0x3A) (by decide) (t ++ 0x2C :: (u ++ 0x7D :: rest))) fuel
        (by omega)
      obtain ⟨tree, w', read, blank, holds⟩ := h.value_eq
        (Numeral.ends_cons (b := 0x2C) (by decide) (u ++ 0x7D :: rest)) fuel (by omega)
      obtain ⟨trees, readOthers, holdsOthers⟩ := others.members_eq rest fuel (by omega)
      obtain ⟨pieces, rfl, text⟩ := holdsName.exists_string
      refine ⟨(.string pieces, tree) :: trees, ?_, fun room fits => ?_⟩
      · simp [Document.members, readName, skipBlank_append blankName, skipBlank_cons, Document.isBlank,
          Document.isString, read, skipBlank_append blank, readOthers]
      · have fits := Nat.max_le.1 fits
        simp [membersOf?, text, holds room fits.1, holdsOthers room fits.2]

end

/-- What is read as a value, and is one, is a text of it. -/
def ValueSound (fuel : Nat) : Prop :=
  ∀ {s rest : Bytes} {document : Document}, Document.value fuel s = (document, rest) →
    ∀ {room : Nat} {json : Json}, ofDocument? room document = some json →
      ∃ t, Spelling json t ∧ s = t ++ rest

def ItemsSound (fuel : Nat) : Prop :=
  ∀ {s rest : Bytes} {trees : List Document}, Document.items fuel s = (trees, true, rest) →
    ∀ {room : Nat} {items : List Json}, itemsOf? room trees = some items →
      ∃ t, ItemsSpelling items t ∧ s = t ++ 0x5D :: rest

def MembersSound (fuel : Nat) : Prop :=
  ∀ {s rest : Bytes} {trees : List (Document × Document)},
    Document.members fuel s = (trees, true, rest) →
    ∀ {room : Nat} {members : List (String × Json)}, membersOf? room trees = some members →
      ∃ t, MembersSpelling members t ∧ s = t ++ 0x7D :: rest

theorem literal_eq {tail expected rest : Bytes} {found document : Document}
    (h : Document.literal tail expected found = (document, rest)) {room : Nat} {json : Json}
    (read : ofDocument? room document = some json) : document = found ∧ tail = expected ++ rest := by
  unfold Document.literal at h
  split at h
  · next isPrefix =>
    cases h
    obtain ⟨rest, rfl⟩ := List.isPrefixOf_iff_prefix.1 isPrefix
    exact ⟨rfl, by simp⟩
  · cases h
    cases read

theorem itemsSound_succ {fuel : Nat} (value : ValueSound fuel) (items : ItemsSound fuel) :
    ItemsSound (fuel + 1) := by
  intro s rest trees h room found read
  rw [Document.items] at h
  generalize first : Document.value fuel s = result at h
  obtain ⟨tree, s'⟩ := result
  obtain ⟨w, blank, form⟩ := exists_blank s'
  dsimp only at h
  split at h
  · next tail close =>
    cases h
    obtain ⟨item, readItem, read⟩ := Option.bind_eq_some_iff.1 read
    cases read
    obtain ⟨t, spelling, rfl⟩ := value first readItem
    exact ⟨_, .one (spelling.after_blank blank), by rw [form, close]; simp⟩
  · next tail comma =>
    generalize others : Document.items fuel tail = result at h
    obtain ⟨trees, closed, rest⟩ := result
    cases h
    obtain ⟨item, readItem, read⟩ := Option.bind_eq_some_iff.1 read
    obtain ⟨found, readOthers, read⟩ := Option.bind_eq_some_iff.1 read
    cases read
    obtain ⟨t, spelling, rfl⟩ := value first readItem
    obtain ⟨u, spellings, rfl⟩ := items others readOthers
    exact ⟨_, .cons (spelling.after_blank blank) spellings, by rw [form, comma]; simp⟩
  · cases h

theorem ofDocument?_of_text {document : Document} {s : String} (h : document.text = .ok s) :
    ofDocument? 0 document = some (.text s) := by
  obtain ⟨pieces, rfl, text⟩ := Document.text_eq_ok_iff.1 h
  simp [ofDocument?, text]

theorem membersSound_succ {fuel : Nat} (value : ValueSound fuel) (members : MembersSound fuel) :
    MembersSound (fuel + 1) := by
  intro s rest trees h room found read
  rw [Document.members] at h
  generalize first : Document.value fuel s = result at h
  obtain ⟨nameTree, s'⟩ := result
  obtain ⟨w, blankName, formName⟩ := exists_blank s'
  dsimp only at h
  split at h
  · next tail isName colon =>
    generalize second : Document.value fuel tail = result at h
    obtain ⟨tree, s''⟩ := result
    obtain ⟨w', blank, form⟩ := exists_blank s''
    dsimp only at h
    split at h
    · next rest' close =>
      cases h
      obtain ⟨member, _, readMember, none, rfl⟩ :=
        List.forall₂_cons_left_iff.1 (membersOf?_eq_some_iff.1 read)
      cases none
      obtain ⟨t, name, rfl⟩ := value first (ofDocument?_of_text readMember.1)
      obtain ⟨u, spelling, rfl⟩ := value second readMember.2
      exact ⟨_, .one (name.after_blank blankName) (spelling.after_blank blank), by
        rw [formName, colon, form, close]; simp⟩
    · next tail' comma =>
      generalize third : Document.members fuel tail' = result at h
      obtain ⟨trees, closed, rest⟩ := result
      cases h
      obtain ⟨member, found, readMember, others, rfl⟩ :=
        List.forall₂_cons_left_iff.1 (membersOf?_eq_some_iff.1 read)
      obtain ⟨t, name, rfl⟩ := value first (ofDocument?_of_text readMember.1)
      obtain ⟨u, spelling, rfl⟩ := value second readMember.2
      obtain ⟨v, spellings, rfl⟩ := members third (membersOf?_eq_some_iff.2 others)
      exact ⟨_, .cons (name.after_blank blankName) (spelling.after_blank blank)
        spellings, by rw [formName, colon, form, comma]; simp⟩
    · cases h
  · cases h

theorem exists_text {tail rest : Bytes} {pieces : List Piece}
    (h : StringBody.read? tail = some (pieces, rest)) {room : Nat} {json : Json}
    (read : ofDocument? room (.string pieces) = some json) :
    ∃ t, Spelling json t ∧ 0x22 :: tail = t ++ rest := by
  obtain ⟨text, spelled, rfl⟩ := Option.map_eq_some_iff.1 read
  obtain ⟨content, bytes, spelled⟩ := Option.bind_eq_some_iff.1 spelled
  obtain ⟨t, spelling, rfl⟩ := StringBody.exists_spelling pieces bytes h
  rw [Bytes.text?_eq_some_iff] at spelled
  subst spelled
  exact ⟨_, .text spelling, by simp⟩

theorem exists_array {fuel : Nat} (sound : ItemsSound fuel) {tail rest : Bytes} {trees : List Document}
    {closed : Bool} (h : Document.items fuel (Document.skipBlank tail) = (trees, closed, rest))
    {room : Nat} {json : Json} (read : ofDocument? room (.array trees closed) = some json) :
    ∃ t, Spelling json t ∧ 0x5B :: tail = t ++ rest := by
  obtain ⟨inner, items, rfl, rfl, inside, rfl⟩ := ofDocument?_array_iff.1 read
  rw [items_skipBlank] at h
  obtain ⟨t, spelling, rfl⟩ := sound h inside
  exact ⟨_, .items spelling, by simp⟩

theorem exists_object {fuel : Nat} (sound : MembersSound fuel) {tail rest : Bytes}
    {trees : List (Document × Document)} {closed : Bool}
    (h : Document.members fuel (Document.skipBlank tail) = (trees, closed, rest)) {room : Nat}
    {json : Json} (read : ofDocument? room (.object trees closed) = some json) :
    ∃ t, Spelling json t ∧ 0x7B :: tail = t ++ rest := by
  obtain ⟨inner, members, rfl, rfl, inside, rfl⟩ := ofDocument?_object_iff.1 read
  rw [members_skipBlank] at h
  obtain ⟨t, spelling, rfl⟩ := sound h inside
  exact ⟨_, .members spelling, by simp⟩

theorem exists_emptyArray {tail rest : Bytes} (h : Document.skipBlank tail = 0x5D :: rest) {room : Nat}
    {json : Json} (read : ofDocument? room (.array [] true) = some json) :
    ∃ t, Spelling json t ∧ 0x5B :: tail = t ++ rest := by
  obtain ⟨inner, items, rfl, -, read, rfl⟩ := ofDocument?_array_iff.1 read
  cases read
  obtain ⟨w, blank, form⟩ := exists_blank tail
  exact ⟨_, .noItems blank, by rw [form, h]; simp⟩

theorem exists_emptyObject {tail rest : Bytes} (h : Document.skipBlank tail = 0x7D :: rest) {room : Nat}
    {json : Json} (read : ofDocument? room (.object [] true) = some json) :
    ∃ t, Spelling json t ∧ 0x7B :: tail = t ++ rest := by
  obtain ⟨inner, members, rfl, -, read, rfl⟩ := ofDocument?_object_iff.1 read
  cases read
  obtain ⟨w, blank, form⟩ := exists_blank tail
  exact ⟨_, .noMembers blank, by rw [form, h]; simp⟩

theorem valueSound_succ {fuel : Nat} (items : ItemsSound fuel) (members : MembersSound fuel) :
    ValueSound (fuel + 1) := by
  intro s rest document h room json read
  obtain ⟨w, blank, form⟩ := exists_blank s
  suffices ∃ t, Spelling json t ∧ Document.skipBlank s = t ++ rest by
    obtain ⟨t, spelling, same⟩ := this
    exact ⟨_, spelling.before_blank blank, by rw [form, same, List.append_assoc]⟩
  rw [Document.value] at h
  split at h
  · cases h
    cases read
  · next b tail found =>
    rw [found]
    clear form found
    split at h
    · next quote =>
      subst quote
      split at h
      · next string => cases h; exact exists_text string read
      · cases h; cases read
    split at h
    · next bracket =>
      subst bracket
      split at h
      · next close => cases h; exact exists_emptyArray close read
      · next open_ => cases h; exact exists_array items rfl read
    split at h
    · next brace =>
      subst brace
      split at h
      · next close => cases h; exact exists_emptyObject close read
      · next open_ => cases h; exact exists_object members rfl read
    split at h
    · next null =>
      obtain ⟨rfl, rfl⟩ := literal_eq h read
      cases read
      exact ⟨_, .null, by rw [null]; rfl⟩
    split at h
    · next yes =>
      obtain ⟨rfl, rfl⟩ := literal_eq h read
      cases read
      exact ⟨_, .yes, by rw [yes]; rfl⟩
    split at h
    · next no =>
      obtain ⟨rfl, rfl⟩ := literal_eq h read
      cases read
      exact ⟨_, .no, by rw [no]; rfl⟩
    split at h
    · next n rest' numeral =>
      cases h
      obtain ⟨t, spelling, same⟩ := Numeral.exists_spelling numeral
      exact ⟨t, .number read spelling, same⟩
    · cases h
      cases read

theorem sound (fuel : Nat) : ValueSound fuel ∧ ItemsSound fuel ∧ MembersSound fuel := by
  induction fuel with
  | zero =>
    refine ⟨fun h _ _ read => ?_, fun h => ?_, fun h => ?_⟩
    · cases h
      cases read
    · cases h
    · cases h
  | succ fuel ih =>
    obtain ⟨value, items, members⟩ := ih
    exact ⟨valueSound_succ items members, itemsSound_succ value items,
      membersSound_succ value members⟩

/-- A text is read as a value exactly if it is one of its texts and the brackets are not too many. -/
theorem parse?_eq_some_iff {s : Bytes} {json : Json} :
    parse? s = some json ↔ json.brackets ≤ nestLimit ∧ json.Spelling s := by
  constructor
  · intro h
    refine ⟨brackets_le_of_parse? h, ?_⟩
    obtain ⟨blank, read⟩ := Option.ite_none_right_eq_some.1 h
    obtain ⟨t, spelling, form⟩ := (sound _).1 (rfl : _ = ((Document.read s).1, (Document.read s).2)) read
    rw [form]
    exact spelling.after_blank blank
  · rintro ⟨fits, spelling⟩
    obtain ⟨document, w, read, blank, holds⟩ :=
      spelling.value_eq Numeral.ends_nil (2 * s.length + 1) (by omega)
    rw [List.append_nil, List.append_nil] at read
    have whole : Document.read s = (document, w) := read
    rw [parse?, whole]
    dsimp only
    rw [if_pos blank]
    exact holds nestLimit fits

end PatchLedger.Json
