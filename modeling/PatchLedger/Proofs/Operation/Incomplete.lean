import PatchLedger.Proofs.Operation.Nesting

/-!
Stored conflicts that have lost members. Wherever in a record conflicts lack their
type or a side, or have null there, the record is refused, by the first member
that is missing where the conflicts are looked at from the outermost inwards and
from the left to the right (`Operation.decode_strike`).
-/

namespace PatchLedger

namespace Operation

open Schema

inductive Fate where
  | kept
  | dropped
  | nulled

namespace Fate

def apply (name : String) (value : Json) : Fate → List (String × Json)
  | kept => [(name, value)]
  | dropped => []
  | nulled => [(name, .null)]

def loses (name : String) : Fate → List String
  | kept => []
  | dropped | nulled => [name]

def keeps {α : Type} (a : α) : Fate → Option α
  | kept => some a
  | dropped | nulled => none

end Fate

structure Fates where
  type : Fate
  left : Fate
  right : Fate

/-- The members that are missing then, in the order in which a reader asks for them. -/
def Fates.missing (fates : Fates) : List String :=
  fates.type.loses "conflict_type" ++ fates.left.loses "left_op" ++ fates.right.loses "right_op"

inductive Side where
  | left
  | right
deriving DecidableEq

/-- The sides on the way from an operation to one that is nested in it. -/
abbrev Place := List Side

/-- The places of the conflicts in an operation, an outer one before those inside it and the left
side before the right. -/
def conflicts : Operation → List Place
  | change .. => []
  | conflict _ _ left right _ =>
      [] :: (left.conflicts.map (.left :: ·) ++ right.conflicts.map (.right :: ·))

mutual

/-- The record after the members of each conflict in it have met their fates. -/
def strike (fates : Place → Fates) : Json → Json
  | .object members => .object (strikeMembers fates members)
  | json => json

def strikeMembers (fates : Place → Fates) : List (String × Json) → List (String × Json)
  | [] => []
  | (name, value) :: others =>
      (if name = "conflict_type" then (fates []).type.apply name value
      else if name = "left_op" then
        (fates []).left.apply name (strike (fun place => fates (.left :: place)) value)
      else if name = "right_op" then
        (fates []).right.apply name (strike (fun place => fates (.right :: place)) value)
      else [(name, value)]) ++ strikeMembers fates others

end

def missing (fates : Place → Fates) (op : Operation) : List String :=
  op.conflicts.flatMap fun place => (fates place).missing

theorem missing_conflict (fates : Place → Fates) (type : ConflictType) (node : Node)
    (left right : Operation) (stamp : Instant) :
    missing fates (conflict type node left right stamp) = (fates []).missing ++
      (missing (fun place => fates (.left :: place)) left ++
        missing (fun place => fates (.right :: place)) right) := by
  simp [missing, conflicts, List.flatMap_map]

theorem toJson_conflict (type : ConflictType) (node : Node) (left right : Operation)
    (stamp : Instant) : (conflict type node left right stamp).toJson = .object
      [("conflict_type", type.toJson), ("left_op", left.toJson), ("node", Json.ordered node.members),
        ("right_op", right.toJson), ("stamp", .text stamp.toText),
        ("type", OperationType.conflict.toJson)] := by
  have names : ["conflict_type", "left_op", "node", "right_op", "stamp", "type"].Pairwise (· < ·) := by
    decide
  refine congrArg Json.object (Ascending.ofList_eq (nodup_written (conflict type node left right stamp))
    (List.pairwise_map.1 names) fun member => ?_)
  simp only [List.mem_cons]
  grind

theorem toJson_change (kind : ChangeKind) (node : Node) (moveTo : Option String) (stamp : Instant) :
    (change kind node moveTo stamp).toJson = .object (Json.optionalMember "move_to" (moveTo.map .text) ++
      [("node", Json.ordered node.members), ("stamp", .text stamp.toText), ("type", kind.type.toJson)]) := by
  have names : ["move_to", "node", "stamp", "type"].Pairwise (· < ·) := by decide
  refine congrArg Json.object (Ascending.ofList_eq (nodup_written (change kind node moveTo stamp))
    (List.pairwise_map.1 ?_) fun member => ?_)
  · cases moveTo with
    | none => exact names.of_cons
    | some path => exact names
  · simp only [List.mem_append, List.mem_cons]
    grind

theorem strike_change (fates : Place → Fates) (kind : ChangeKind) (node : Node)
    (moveTo : Option String) (stamp : Instant) :
    strike fates (change kind node moveTo stamp).toJson = (change kind node moveTo stamp).toJson := by
  rw [toJson_change]
  cases moveTo <;> simp [Json.optionalMember, strike, strikeMembers]

def struck (fates : Fates) (type : ConflictType) (node : Node) (left right : Json) (stamp : Instant) :
    List (String × Json) :=
  fates.type.apply "conflict_type" type.toJson ++ (fates.left.apply "left_op" left ++
    ([("node", Json.ordered node.members)] ++ (fates.right.apply "right_op" right ++
      [("stamp", .text stamp.toText), ("type", OperationType.conflict.toJson)])))

theorem strike_conflict (fates : Place → Fates) (type : ConflictType) (node : Node)
    (left right : Operation) (stamp : Instant) :
    strike fates (conflict type node left right stamp).toJson = .object
      (struck (fates []) type node (strike (fun place => fates (.left :: place)) left.toJson)
        (strike (fun place => fates (.right :: place)) right.toJson) stamp) := by
  rw [toJson_conflict]
  simp [strike, strikeMembers, struck]

theorem Fate.forall_mem_apply {p : String × Json → Prop} {name : String} {value : Json}
    (here : p (name, value)) (null : p (name, .null)) (fate : Fate) :
    ∀ member ∈ fate.apply name value, p member := by
  cases fate <;> simp [Fate.apply, here, null]

theorem plain_strike (fates : Place → Fates) (op : Operation) : (strike fates op.toJson).Plain := by
  induction op generalizing fates with
  | change kind node moveTo stamp =>
    rw [strike_change]
    exact plain_toJson _
  | conflict type node left right stamp ihLeft ihRight =>
    have plainNode := Json.plain_ordered node.nodup_members node.plain_members
    rw [strike_conflict, Json.Plain, Json.allMembersPlain_iff]
    simp only [struck, List.forall_mem_append]
    have plain {name : String} {value : Json} (here : value.Plain) (fate : Fate) :
        ∀ member ∈ fate.apply name value, member.2.Plain :=
      fate.forall_mem_apply (p := fun member => member.2.Plain) here trivial
    have plainType : type.toJson.Plain := trivial
    refine ⟨plain plainType _, plain (ihLeft _) _, ?_, plain (ihRight _) _, ?_⟩
    · simp [plainNode]
    · simp [OperationType.toJson, Json.Plain]

theorem brackets_strike_le (fates : Place → Fates) (op : Operation) :
    (strike fates op.toJson).brackets ≤ op.depth + 2 := by
  induction op generalizing fates with
  | change kind node moveTo stamp =>
    rw [strike_change]
    exact (brackets_toJson_le_iff _ _).2 (Nat.le_refl _)
  | conflict type node left right stamp ihLeft ihRight =>
    have inLeft := Nat.le_trans (ihLeft fun place => fates (.left :: place))
      (Nat.add_le_add_right (Nat.le_max_left left.depth right.depth) 2)
    have inRight := Nat.le_trans (ihRight fun place => fates (.right :: place))
      (Nat.add_le_add_right (Nat.le_max_right left.depth right.depth) 2)
    have fits {name : String} {value : Json} (small : value.brackets ≤ max left.depth right.depth + 2)
        (fate : Fate) :
        ∀ member ∈ fate.apply name value, member.2.brackets ≤ max left.depth right.depth + 2 :=
      fate.forall_mem_apply (p := fun member => member.2.brackets ≤ _) small (Nat.zero_le _)
    rw [strike_conflict, Json.brackets, depth, Nat.add_right_comm, Nat.add_le_add_iff_right,
      Json.memberBrackets_le_iff]
    simp only [struck, List.forall_mem_append]
    refine ⟨fits (Nat.zero_le _) _, fits inLeft _, ?_, fits inRight _, ?_⟩
    · simp [Node.brackets_ordered_le_iff]
    · simp [OperationType.toJson, Json.brackets]

theorem ofJson_struck_side (fates : Place → Fates) (op : Operation) :
    Shape.any.optional.ofJson (strike fates op.toJson) = .ok (some (strike fates op.toJson)) := by
  rw [toJson_eq]
  rfl

namespace Fate

def found (value : Json) : Fate → Option Json
  | kept => some value
  | dropped => none
  | nulled => some .null

theorem value?_apply (key name : String) (value : Json) (fate : Fate) :
    Ascending.value? key (fate.apply name value) = if key = name then fate.found value else none := by
  cases fate <;> by_cases same : key = name <;> simp [apply, found, Ascending.value?, same]

theorem map_fst_apply (name : String) (value : Json) (fate : Fate) :
    ((fate.apply name value).map Prod.fst).Sublist [name] := by
  cases fate <;> simp [apply]

theorem read {α : Type} {shape : Shape α} {value : Json} {a : α}
    (whole : shape.optional.ofJson value = .ok (some a)) (fate : Fate) {here : Option Json}
    (at? : here = fate.found value) :
    (∃ json, here = some json ∧ shape.optional.ofJson json = .ok (fate.keeps a)) ∨
      here = none ∧ some none = some (fate.keeps a) := by
  subst at?
  cases fate with
  | kept => exact Or.inl ⟨value, rfl, whole⟩
  | dropped => exact Or.inr ⟨rfl, rfl⟩
  | nulled => exact Or.inl ⟨.null, rfl, rfl⟩

end Fate

section Struck

variable (fates : Fates) (type : ConflictType) (node : Node) {left right : Json} (stamp : Instant)

theorem names_struck : ((struck fates type node left right stamp).map Prod.fst).Sublist
    ["conflict_type", "left_op", "node", "right_op", "stamp", "type"] := by
  simp only [struck, List.map_append]
  exact (Fate.map_fst_apply _ _ _).append ((Fate.map_fst_apply _ _ _).append
    ((List.Sublist.refl ["node"]).append ((Fate.map_fst_apply _ _ _).append (List.Sublist.refl _))))

theorem nodup_struck : ((struck fates type node left right stamp).map Prod.fst).Nodup :=
  (names_struck fates type node stamp).nodup (by decide)

theorem columns_struck : ∀ member ∈ struck fates type node left right stamp,
    member.1 ∈ Fields.record.columns.names := by
  have all : ["conflict_type", "left_op", "node", "right_op", "stamp", "type"] ⊆
      Fields.record.columns.names := by
    simp [Fields.record, Columns.names]
  exact fun member inside =>
    all ((names_struck fates type node stamp).subset (List.mem_map_of_mem inside))

theorem value?_struck (name : String) :
    Ascending.value? name (struck fates type node left right stamp) =
      (if name = "conflict_type" then fates.type.found type.toJson else none).or
        ((if name = "left_op" then fates.left.found left else none).or
          ((if name = "node" then some (Json.ordered node.members) else none).or
            ((if name = "right_op" then fates.right.found right else none).or
              (if name = "stamp" then some (.text stamp.toText)
              else if name = "type" then some OperationType.conflict.toJson else none)))) := by
  simp only [struck, Ascending.value?_append, Fate.value?_apply, Ascending.value?]

variable (leftRead : Shape.any.optional.ofJson left = .ok (some left))
  (rightRead : Shape.any.optional.ofJson right = .ok (some right))

include leftRead rightRead

theorem readNamed_struck :
    Fields.record.readNamed Record.fromJson (struck fates type node left right stamp) =
      .ok (.conflict, node, stamp, none, fates.type.keeps type, fates.left.keeps left,
        fates.right.keeps right, ()) := by
  let members := struck fates type node left right stamp
  have found (name : String) : Ascending.value? name members = _ :=
    value?_struck fates type node stamp name
  have typeAt : Ascending.value? "conflict_type" members = fates.type.found type.toJson := by
    simp [found]
  have leftAt : Ascending.value? "left_op" members = fates.left.found left := by simp [found]
  have rightAt : Ascending.value? "right_op" members = fates.right.found right := by simp [found]
  have stampRead : Record.fromJson Shape.instant (.text stamp.toText) = .ok stamp :=
    Shape.ofJson_instant stamp
  refine Columns.read_cons_eq_ok_iff.2
    ⟨Or.inl ⟨_, found "type", OperationType.ofJson_toJson .conflict⟩, ?_⟩
  refine Columns.read_cons_eq_ok_iff.2 ⟨Or.inl ⟨_, found "node", node.ofJson_members⟩, ?_⟩
  refine Columns.read_cons_eq_ok_iff.2 ⟨Or.inl ⟨_, found "stamp", stampRead⟩, ?_⟩
  refine Columns.read_cons_eq_ok_iff.2 ⟨Or.inr ⟨found "move_to", rfl⟩, ?_⟩
  refine Columns.read_cons_eq_ok_iff.2 ⟨fates.type.read (ofJson_someConflict type) typeAt, ?_⟩
  refine Columns.read_cons_eq_ok_iff.2 ⟨fates.left.read leftRead leftAt, ?_⟩
  exact Columns.read_cons_eq_ok_iff.2 ⟨fates.right.read rightRead rightAt, rfl⟩

end Struck

theorem ofJson_strike_conflict (fates : Place → Fates) (type : ConflictType) (node : Node)
    (left right : Operation) (stamp : Instant) :
    Fields.record.shape.ofJson (strike fates (conflict type node left right stamp).toJson) =
      .ok ⟨.conflict, node, stamp, none, (fates []).type.keeps type,
        (fates []).left.keeps (strike (fun place => fates (.left :: place)) left.toJson),
        (fates []).right.keeps (strike (fun place => fates (.right :: place)) right.toJson)⟩ := by
  have leftRead := ofJson_struck_side (fun place => fates (.left :: place)) left
  have rightRead := ofJson_struck_side (fun place => fates (.right :: place)) right
  rw [strike_conflict]
  exact Fields.record.ofJson_object (nodup_struck _ _ _ _) (columns_struck _ _ _ _)
    (readNamed_struck _ _ _ _ leftRead rightRead)

/-- What is read where members are missing: the first of them is the error. -/
def lacking {α : Type} (missing : List String) (a : α) : Except DecodeError α :=
  missing.head?.elim (.ok a) fun member => .error (.incompleteConflict member)

theorem bind_lacking {α β : Type} {first second : List String} {a : α} {b : β}
    {x : Except DecodeError α} {f : α → Except DecodeError β} (here : x = lacking first a)
    (after : f a = lacking second b) : x >>= f = lacking (first ++ second) b := by
  subst here
  cases first with
  | nil => exact after
  | cons member others => rfl

theorem required_keeps {α : Type} (name : String) (a : α) (fate : Fate) :
    required name (fate.keeps a) = lacking (fate.loses name) a := by
  cases fate <;> rfl

theorem ofJson_strike (op : Operation) (fates : Place → Fates) {room : Nat} (h : op.depth < room) :
    ofJson room (strike fates op.toJson) = lacking (op.missing fates) op := by
  induction op generalizing fates room with
  | change kind node moveTo stamp =>
    rw [strike_change]
    exact ofJson_toJson _ h
  | conflict type node left right stamp ihLeft ihRight =>
    obtain ⟨room, rfl⟩ : ∃ n, room = n + 1 := ⟨room - 1, by omega⟩
    rw [depth] at h
    rw [ofJson, ofJson_strike_conflict, missing_conflict, Fates.missing]
    simp only [List.append_assoc, Except.mapError]
    change required "conflict_type" _ >>= _ = _
    refine bind_lacking (required_keeps "conflict_type" type (fates []).type) ?_
    refine bind_lacking (required_keeps "left_op" _ (fates []).left) ?_
    refine bind_lacking (required_keeps "right_op" _ (fates []).right) ?_
    refine bind_lacking (ihLeft (fun place => fates (.left :: place)) (by omega)) ?_
    rw [← List.append_nil (missing _ right)]
    exact bind_lacking (ihRight (fun place => fates (.right :: place)) (by omega)) rfl

/-- A record in which conflicts have lost members, or have null there, is refused by the first of
them: of the first such conflict, an outer one before those inside it and the left side before the
right, the first of its type, its left and its right side. -/
theorem decode_strike {op : Operation} (shallow : op.depth ≤ 125) {fates : Place → Fates}
    {place : Place} (inside : place ∈ op.conflicts) (hurt : (fates place).missing ≠ []) :
    ∃ member e, (op.conflicts.flatMap fun place => (fates place).missing).head? = some member ∧
      decode (strike fates op.toJson).write = .error e ∧
      e.error = ⟨.invalidData, "conflict record is missing `" ++ member ++ "`"⟩ := by
  have brackets : (strike fates op.toJson).brackets ≤ Json.nestLimit := by
    have deep := op.brackets_strike_le fates
    rw [Json.nestLimit]
    omega
  have parsed := Json.parse?_write _ (op.plain_strike fates)
  rw [if_pos brackets] at parsed
  have read : ofJson Json.nestLimit (strike fates op.toJson) = lacking (op.missing fates) op :=
    op.ofJson_strike fates (by rw [Json.nestLimit]; omega)
  cases found : op.missing fates with
  | nil => exact absurd (List.flatMap_eq_nil_iff.1 found place inside) hurt
  | cons member others =>
    refine ⟨member, .incompleteConflict member, congrArg List.head? found, ?_, rfl⟩
    rw [decode, parsed]
    exact read.trans (congrArg (lacking · op) found)

theorem decode_strike_inner :
    let node : Node := { path := "f" }
    let leaf : Operation := .change .delete node none .epoch
    let inner : Operation := .conflict .nodeType node leaf leaf .epoch
    let op : Operation := .conflict .fileContent node inner inner .epoch
    let fates : Place → Fates
      | [.left] => ⟨.kept, .kept, .dropped⟩
      | [.right] => ⟨.nulled, .dropped, .kept⟩
      | _ => ⟨.kept, .kept, .kept⟩
    ∃ e, decode (strike fates op.toJson).write = .error e ∧
      e.error = ⟨.invalidData, "conflict record is missing `right_op`"⟩ := by
  intro node leaf inner op fates
  have shallow : op.depth ≤ 125 := by decide
  have inside : [.right] ∈ op.conflicts := by decide
  have hurt : (fates [.right]).missing ≠ [] := by decide
  obtain ⟨member, e, first, refused, text⟩ := decode_strike shallow inside hurt
  cases Option.some.inj (first.symm.trans (rfl : _ = some "right_op"))
  exact ⟨e, refused, text⟩

end Operation

end PatchLedger
