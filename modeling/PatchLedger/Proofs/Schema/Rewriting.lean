import PatchLedger.Proofs.Schema.Agreement

/-!
Shapes under a rewriting of the values that they are read from. A shape follows
a rewriting where it reads the rewritten value as it reads the value, with the
result rewritten too (`Shape.Follows`). A record follows one that rewrites its
members by name and leaves out members that are no columns.
-/

namespace PatchLedger.Schema

variable {α : Type} {c : Json → Json}

/-- The shape reads the rewritten value as the value, errors included. -/
def Shape.Follows (shape : Shape α) (c : Json → Json) (g : α → α) : Prop :=
  ∀ json, shape.ofJson (c json) = (shape.ofJson json).map g

namespace Shape

theorem follows_id {shape : Shape α} (h : ∀ json, shape.ofJson (c json) = shape.ofJson json) :
    shape.Follows c id := fun json => by
  rw [h]
  cases shape.ofJson json <;> rfl

theorem ofJson_scalar_congr (read : Found → Except Misfit α) {x y : Json} (same : x.found = y.found) :
    (scalar read).ofJson x = (scalar read).ofJson y :=
  congrArg read same

theorem follows_scalar (found : ∀ json, (c json).found = json.found) (read : Found → Except Misfit α) :
    (scalar read).Follows c id :=
  follows_id fun json => ofJson_scalar_congr read (found json)

theorem follows_any : any.Follows c c := fun _ => rfl

theorem follows_optional {shape : Shape α} {g : α → α} (null : ∀ json, c json = .null ↔ json = .null)
    (h : shape.Follows c g) : shape.optional.Follows c (Option.map g) := by
  intro json
  by_cases absent : json = .null
  · rw [(null json).2 absent, absent]
    rfl
  · rw [ofJson_optional shape absent, ofJson_optional shape (fun same => absent ((null json).1 same)), h]
    cases shape.ofJson json <;> rfl

end Shape

namespace Columns

variable {ρ : Type}

inductive Follows (c : String → Json → Json) : {ρ : Type} → Columns ρ → (ρ → ρ) → Prop where
  | nil : Follows c nil id
  | cons {α ρ : Type} {first : Column α} {rest : Columns ρ} {g : α → α} {h : ρ → ρ}
      (shape : first.shape.Follows (c first.name) g) (default : first.default.map g = first.default) :
      Follows c rest h → Follows c (cons first rest) (Prod.map g h)

theorem follows_of_all {c : Json → Json} {columns : Columns ρ}
    (all : columns.All fun shape => shape.Follows c id) : columns.Follows (fun _ => c) id := by
  induction columns with
  | nil => exact .nil
  | cons first rest ih =>
    have row := Follows.cons (c := fun _ => c) all.1 (Option.map_id_apply) (ih all.2)
    rwa [Prod.map_id] at row

variable {c : String → Json → Json} {columns : Columns ρ} {g : ρ → ρ}

theorem check?_follows (h : columns.Follows c g) (name : String) (value : Json) :
    columns.check? Record.fromJson name (c name value) =
      columns.check? Record.fromJson name value := by
  induction h with
  | nil => rfl
  | @cons α ρ first rest g h shape default _ ih =>
    rw [check?, check?]
    split
    · next same =>
      subst same
      have read : Record.fromJson first.shape (c first.name value) =
          (Record.fromJson first.shape value).map g := shape value
      rw [read]
      cases Record.fromJson first.shape value <;> rfl
    · exact ih

theorem read_follows (h : columns.Follows c g) {at? at?' : Nat → String → Option Json}
    {absent : Nat → String → Misfit} {position : Nat}
    (found : ∀ i name, columns.names[i]? = some name →
      at?' (position + i) name = (at? (position + i) name).map (c name)) :
    columns.read Record.fromJson at?' absent position =
      (columns.read Record.fromJson at? absent position).map g := by
  induction h generalizing position with
  | nil => rfl
  | @cons α ρ first rest g h shape default _ ih =>
    have here : at?' position first.name = (at? position first.name).map (c first.name) :=
      found 0 first.name rfl
    have others : rest.read Record.fromJson at?' absent (position + 1) =
        (rest.read Record.fromJson at? absent (position + 1)).map h := ih fun i name inside => by
      rw [Nat.add_assoc, Nat.add_comm 1 i]
      exact found (i + 1) name inside
    rw [read, read, here, others]
    cases at? position first.name with
    | some value =>
      have first' : Record.fromJson first.shape (c first.name value) =
          (Record.fromJson first.shape value).map g := shape value
      dsimp only [Option.map_some]
      rw [first']
      cases Record.fromJson first.shape value with
      | error misfit => rfl
      | ok a => cases rest.read Record.fromJson at? absent (position + 1) <;> rfl
    | none =>
      cases given : first.default with
      | none => rfl
      | some a =>
        rw [given] at default
        cases rest.read Record.fromJson at? absent (position + 1) with
        | error misfit => rfl
        | ok row =>
          change Except.ok (a, h row) = Except.ok (g a, h row)
          rw [Option.some.inj default]

end Columns

namespace Record

variable (r : Record α) {c : String → Json → Json} {g : r.Row → r.Row} {h : α → α}
  (follows : r.columns.Follows c g) (build : ∀ row, r.build (g row) = (r.build row).map h)

include follows in
theorem checkMembers_follows (tolerant : r.tolerant = true) {keeps : String → Bool}
    (keepsColumns : ∀ name ∈ r.columns.names, keeps name = true) (members : List (String × Json)) :
    r.checkMembers ((members.filter fun member => keeps member.1).map
      fun member => (member.1, c member.1 member.2)) = r.checkMembers members := by
  induction members with
  | nil => rfl
  | cons member others ih =>
    obtain ⟨name, value⟩ := member
    rw [List.filter_cons]
    split
    · rw [List.map_cons, checkMembers, checkMembers, Columns.check?_follows follows, ih]
    · next left =>
      have unknown : r.columns.check? fromJson name value = none :=
        Columns.check?_eq_none_iff.2 fun column => left (keepsColumns name column)
      rw [ih, checkMembers, unknown]
      simp [tolerant]

include follows build

theorem ofJson_object_follows (tolerant : r.tolerant = true) {keeps : String → Bool}
    (keepsColumns : ∀ name ∈ r.columns.names, keeps name = true) {written written' : List (String × Json)}
    (members : Json.members written' = ((Json.members written).filter fun member => keeps member.1).map
      fun member => (member.1, c member.1 member.2)) :
    r.shape.ofJson (.object written') = (r.shape.ofJson (.object written)).map h := by
  have read : r.readNamed fromJson (Json.members written') =
      (r.readNamed fromJson (Json.members written)).map g := by
    refine Columns.read_follows follows fun i name column => ?_
    have kept (value : Json) : keeps name = true := keepsColumns name (List.mem_of_getElem? column)
    rw [members, Ascending.value?_map, Ascending.value?_filter kept]
  have checked := r.checkMembers_follows follows tolerant keepsColumns (Json.members written)
  rw [← members] at checked
  change (r.checkMembers _ >>= fun _ => r.readNamed fromJson _ >>= r.build) =
    (r.checkMembers _ >>= fun _ => r.readNamed fromJson _ >>= r.build).map h
  rw [checked, read]
  cases r.checkMembers (Json.members written) with
  | error misfit => rfl
  | ok _ =>
    cases r.readNamed fromJson (Json.members written) with
    | error misfit => rfl
    | ok row => exact build row

theorem ofJson_array_follows {items items' : List Json} (length : items'.length = items.length)
    (rewritten : ∀ (i : Nat) (name : String), r.columns.names[i]? = some name → items'[i]? = (items[i]?).map (c name)) :
    r.shape.ofJson (.array items') = (r.shape.ofJson (.array items)).map h := by
  have read : r.readListed fromJson items' = (r.readListed fromJson items).map g := by
    refine Columns.read_follows follows fun i name column => ?_
    rw [Nat.zero_add]
    exact rewritten i name column
  simp only [shape, read, length]
  cases r.readListed fromJson items with
  | error misfit => rfl
  | ok row =>
    change (r.build (g row) >>= fun a => _) = (r.build row >>= fun a => _).map h
    rw [build]
    cases r.build row with
    | error misfit => rfl
    | ok a =>
      by_cases short : items.length ≤ r.columns.names.length <;>
        simp [bind, Except.bind, Except.map, short]

end Record

end PatchLedger.Schema
