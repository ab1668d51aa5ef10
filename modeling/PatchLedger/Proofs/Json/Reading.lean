import Mathlib.Data.List.Forall2
import PatchLedger.Proofs.Json.RoundTrip
import PatchLedger.Schema.Shape

/-!
What a tree says of the value that is read from it: items and members are read
one by one, and the tree shows what kind of value it begins with. `Distinct`
holds of values in which no object repeats a name.
-/

namespace PatchLedger.Json

mutual

def Distinct : Json → Prop
  | .array items => AllDistinct items
  | .object members => (members.map Prod.fst).Nodup ∧ AllMembersDistinct members
  | _ => True

def AllDistinct : List Json → Prop
  | [] => True
  | item :: others => Distinct item ∧ AllDistinct others

def AllMembersDistinct : List (String × Json) → Prop
  | [] => True
  | (_, value) :: others => Distinct value ∧ AllMembersDistinct others

end

theorem allDistinct_iff {items : List Json} : AllDistinct items ↔ ∀ item ∈ items, item.Distinct := by
  induction items with
  | nil => simp [AllDistinct]
  | cons item others ih => simp [AllDistinct, ih]

theorem allMembersDistinct_iff {members : List (String × Json)} :
    AllMembersDistinct members ↔ ∀ member ∈ members, member.2.Distinct := by
  induction members with
  | nil => simp [AllMembersDistinct]
  | cons member others ih => simp [AllMembersDistinct, ih]

theorem distinct_of_brackets_eq_zero {json : Json} (h : json.brackets = 0) : json.Distinct := by
  cases json with
  | array items | object members => cases h
  | _ => trivial

theorem itemsOf?_eq_some_iff {room : Nat} {trees : List Document} {items : List Json} :
    itemsOf? room trees = some items ↔
      List.Forall₂ (fun tree item => ofDocument? room tree = some item) trees items := by
  induction trees generalizing items with
  | nil => simp [itemsOf?, eq_comm]
  | cons tree others ih =>
    simp only [itemsOf?, Option.bind_eq_bind, Option.bind_eq_some_iff, Option.some.injEq,
      List.forall₂_cons_left_iff, ← ih]
    grind

def ReadsMember (room : Nat) (tree : Document × Document) (member : String × Json) : Prop :=
  tree.1.text = .ok member.1 ∧ ofDocument? room tree.2 = some member.2

theorem Document.text_eq_ok_iff {document : Document} {s : String} :
    document.text = .ok s ↔ ∃ pieces, document = .string pieces ∧ StringBody.text? pieces = some s := by
  cases document with
  | string pieces => cases found : StringBody.text? pieces <;> simp [text, found]
  | _ => simp [text]

theorem membersOf?_eq_some_iff {room : Nat} {trees : List (Document × Document)}
    {members : List (String × Json)} :
    membersOf? room trees = some members ↔ List.Forall₂ (ReadsMember room) trees members := by
  induction trees generalizing members with
  | nil => simp [membersOf?, eq_comm]
  | cons tree others ih =>
    obtain ⟨name, value⟩ := tree
    rw [List.forall₂_cons_left_iff]
    simp only [ReadsMember, Document.text_eq_ok_iff, ← ih]
    cases name with
    | string pieces =>
      simp only [membersOf?, Option.bind_eq_bind, Option.bind_eq_some_iff, Option.some.injEq]
      grind
    | _ => simp [membersOf?]

theorem ofDocument?_array_iff {room : Nat} {trees : List Document} {closed : Bool} {json : Json} :
    ofDocument? room (.array trees closed) = some json ↔ ∃ inner items, room = inner + 1 ∧
      closed = true ∧ itemsOf? inner trees = some items ∧ json = .array items := by
  cases room <;> cases closed <;> simp [ofDocument?, @eq_comm _ json]

theorem ofDocument?_object_iff {room : Nat} {trees : List (Document × Document)} {closed : Bool}
    {json : Json} : ofDocument? room (.object trees closed) = some json ↔ ∃ inner members,
      room = inner + 1 ∧ closed = true ∧ membersOf? inner trees = some members ∧
        json = .object members := by
  cases room <;> cases closed <;> simp [ofDocument?, @eq_comm _ json]

theorem found_of_ofDocument? {room : Nat} {document : Document} {json : Json}
    (h : ofDocument? room document = some json) : document.found = .ok json.found := by
  cases document with
  | number n =>
    obtain ⟨number, found, rfl⟩ := Option.map_eq_some_iff.1 h
    cases number <;> simp [Document.found, found, Number.found, Number.toJson, Json.found]
  | string pieces =>
    obtain ⟨s, found, rfl⟩ := Option.map_eq_some_iff.1 h
    simp [Document.found, Document.text, found, Json.found, Except.map]
  | array trees closed =>
    obtain ⟨_, _, -, -, -, rfl⟩ := ofDocument?_array_iff.1 h
    rfl
  | object trees closed =>
    obtain ⟨_, _, -, -, -, rfl⟩ := ofDocument?_object_iff.1 h
    rfl
  | null | bool b => cases h; rfl
  | broken => cases h

mutual

theorem isWhole_of_ofDocument? : (document : Document) → {room : Nat} → {json : Json} →
    ofDocument? room document = some json → document.isWhole = true
  | .null, _, _, _ => rfl
  | .bool _, _, _, _ => rfl
  | .number _, _, _, _ => rfl
  | .string _, _, _, _ => rfl
  | .array trees closed, _, _, h => by
      obtain ⟨_, _, -, rfl, read, -⟩ := ofDocument?_array_iff.1 h
      exact allWhole_of_itemsOf? trees read
  | .object trees closed, _, _, h => by
      obtain ⟨_, _, -, rfl, read, -⟩ := ofDocument?_object_iff.1 h
      exact allMembersWhole_of_membersOf? trees read
  | .broken, _, _, h => by cases h

theorem allWhole_of_itemsOf? : (trees : List Document) → {room : Nat} → {items : List Json} →
    itemsOf? room trees = some items → Document.allWhole trees = true
  | [], _, _, _ => rfl
  | tree :: others, _, _, h => by
      obtain ⟨first, read, h⟩ := Option.bind_eq_some_iff.1 h
      obtain ⟨rest, readOthers, -⟩ := Option.bind_eq_some_iff.1 h
      simp [Document.allWhole, isWhole_of_ofDocument? tree read,
        allWhole_of_itemsOf? others readOthers]

theorem allMembersWhole_of_membersOf? : (trees : List (Document × Document)) → {room : Nat} →
    {members : List (String × Json)} → membersOf? room trees = some members →
    Document.allMembersWhole trees = true
  | [], _, _, _ => rfl
  | (.string pieces, tree) :: others, _, _, h => by
      obtain ⟨name, -, h⟩ := Option.bind_eq_some_iff.1 h
      obtain ⟨first, read, h⟩ := Option.bind_eq_some_iff.1 h
      obtain ⟨rest, readOthers, -⟩ := Option.bind_eq_some_iff.1 h
      simp [Document.allMembersWhole, Document.isString, isWhole_of_ofDocument? tree read,
        allMembersWhole_of_membersOf? others readOthers]
  | (.null, _) :: _, _, _, h | (.bool _, _) :: _, _, _, h | (.number _, _) :: _, _, _, h
  | (.array _ _, _) :: _, _, _, h | (.object _ _, _) :: _, _, _, h | (.broken, _) :: _, _, _, h => by
      cases h

end

end PatchLedger.Json
