import PatchLedger.Proofs.Json.RoundTrip

/-!
The brackets of what is read. A value that was read from a text has no more of
them open at once than the reader allows (`brackets_le_of_parse?`), however the
text was written, and whatever stands in an array or an object has fewer than it.
-/

namespace PatchLedger.Json

mutual

theorem brackets_le_of_ofDocument? : (document : Document) → {room : Nat} → {json : Json} →
    ofDocument? room document = some json → json.brackets ≤ room
  | .null, _, _, h => by cases h; exact Nat.zero_le _
  | .bool _, _, _, h => by cases h; exact Nat.zero_le _
  | .number n, _, _, h => by
      obtain ⟨found, -, rfl⟩ := Option.map_eq_some_iff.1 h
      cases found <;> exact Nat.zero_le _
  | .string pieces, _, _, h => by
      obtain ⟨s, -, rfl⟩ := Option.map_eq_some_iff.1 h
      exact Nat.zero_le _
  | .array items closed, room, _, h => by
      cases room with
      | zero => cases h
      | succ room =>
        cases closed with
        | false => cases h
        | true =>
          obtain ⟨found, read, rfl⟩ := Option.map_eq_some_iff.1 h
          exact Nat.succ_le_succ (itemBrackets_le_of_itemsOf? items read)
  | .object members closed, room, _, h => by
      cases room with
      | zero => cases h
      | succ room =>
        cases closed with
        | false => cases h
        | true =>
          obtain ⟨found, read, rfl⟩ := Option.map_eq_some_iff.1 h
          exact Nat.succ_le_succ (memberBrackets_le_of_membersOf? members read)
  | .broken, _, _, h => by cases h

theorem itemBrackets_le_of_itemsOf? : (items : List Document) → {room : Nat} → {found : List Json} →
    itemsOf? room items = some found → itemBrackets found ≤ room
  | [], _, _, h => by cases h; exact Nat.zero_le _
  | item :: others, _, _, h => by
      obtain ⟨first, read, h⟩ := Option.bind_eq_some_iff.1 h
      obtain ⟨rest, readOthers, h⟩ := Option.bind_eq_some_iff.1 h
      cases h
      exact Nat.max_le.2
        ⟨brackets_le_of_ofDocument? item read, itemBrackets_le_of_itemsOf? others readOthers⟩

theorem memberBrackets_le_of_membersOf? : (members : List (Document × Document)) → {room : Nat} →
    {found : List (String × Json)} → membersOf? room members = some found → memberBrackets found ≤ room
  | [], _, _, h => by cases h; exact Nat.zero_le _
  | (name, value) :: others, _, _, h => by
      cases name with
      | string pieces =>
        obtain ⟨text, -, h⟩ := Option.bind_eq_some_iff.1 h
        obtain ⟨first, read, h⟩ := Option.bind_eq_some_iff.1 h
        obtain ⟨rest, readOthers, h⟩ := Option.bind_eq_some_iff.1 h
        cases h
        exact Nat.max_le.2 ⟨brackets_le_of_ofDocument? value read,
          memberBrackets_le_of_membersOf? others readOthers⟩
      | _ => cases h

end

theorem itemBrackets_le_iff {items : List Json} {n : Nat} :
    itemBrackets items ≤ n ↔ ∀ item ∈ items, item.brackets ≤ n := by
  induction items with
  | nil => simp [itemBrackets]
  | cons item others ih => rw [itemBrackets, Nat.max_le, ih, List.forall_mem_cons]

theorem brackets_le_of_parse? {s : Bytes} {json : Json} (h : parse? s = some json) :
    json.brackets ≤ nestLimit := by
  obtain ⟨-, read⟩ := Option.ite_none_right_eq_some.1 h
  exact brackets_le_of_ofDocument? _ read

def parts : Json → List Json
  | .array items => items
  | .object members => members.map Prod.snd
  | _ => []

theorem brackets_lt_of_mem_parts {part json : Json} (h : part ∈ json.parts) :
    part.brackets < json.brackets := by
  cases json with
  | array items => exact Nat.lt_succ_of_le (itemBrackets_le_iff.1 (Nat.le_refl _) part h)
  | object members =>
    obtain ⟨member, found, rfl⟩ := List.mem_map.1 h
    exact Nat.lt_succ_of_le (memberBrackets_le_iff.1 (Nat.le_refl _) member found)
  | _ => cases h

end PatchLedger.Json
