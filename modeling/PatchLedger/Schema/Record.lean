import PatchLedger.Schema.Shape

/-!
Records: named columns in the order of their declaration. A record is an object,
or an array of its columns in that order. From a value the members are looked at
in ascending order of their names and the last of a repeated name counts; from a
text in the order of the text, and a repeated column is a fault. Columns that
are not there are looked for after that.
-/

namespace PatchLedger.Schema

structure Column (α : Type) where
  name : String
  shape : Shape α
  default : Option α := none

/-- Columns, and the type of their values side by side. -/
inductive Columns : Type → Type 1 where
  | nil : Columns Unit
  | cons {α ρ : Type} (first : Column α) (rest : Columns ρ) : Columns (α × ρ)

/-- How the values of a source are read at a shape. -/
abbrev Taking (σ : Type) := ∀ {α : Type}, Shape α → σ → Except Misfit α

namespace Columns

def names {ρ : Type} : Columns ρ → List String
  | nil => []
  | cons first rest => first.name :: rest.names

def check? {σ ρ : Type} (taking : Taking σ) (name : String) (value : σ) :
    Columns ρ → Option (Except Misfit Unit)
  | nil => none
  | cons first rest =>
      if first.name = name then some ((taking first.shape value).map fun _ => ())
      else rest.check? taking name value

def read {σ ρ : Type} (taking : Taking σ) (at? : Nat → String → Option σ)
    (absent : Nat → String → Misfit) : (position : Nat) → Columns ρ → Except Misfit ρ
  | _, nil => .ok ()
  | position, cons first rest => do
      let value ← match at? position first.name with
        | some value => taking first.shape value
        | none =>
            match first.default with
            | some value => .ok value
            | none => .error (absent position first.name)
      let others ← rest.read taking at? absent (position + 1)
      .ok (value, others)

end Columns

/-- A record type: its title, its columns, whether other members may stand among them, and what
its values make. -/
structure Record (α : Type) where
  title : String
  lengthText : String
  tolerant : Bool
  {Row : Type}
  columns : Columns Row
  build : Row → Except Misfit α

namespace Record

variable {α : Type}

def fromJson : Taking Json := fun shape json => shape.ofJson json

def fromDocument : Taking Json.Document := fun shape document => shape.ofDocument document

def checkMembers (r : Record α) : List (String × Json) → Except Misfit Unit
  | [] => .ok ()
  | (name, value) :: rest =>
      match r.columns.check? fromJson name value with
      | some (.error misfit) => .error misfit
      | some (.ok ()) => r.checkMembers rest
      | none => if r.tolerant then r.checkMembers rest else .error .unknownField

/-- The members that are columns, if the text has no fault up to the closing brace. -/
def scanMembers (r : Record α) (closed : Bool) :
    (seen : List String) → List (Json.Document × Json.Document) →
      Except Misfit (List (String × Json.Document))
  | _, [] => if closed then .ok [] else .error .malformed
  | seen, (name, value) :: rest => do
      let name ← name.text
      match r.columns.check? fromDocument name value with
      | some checked =>
          if seen.contains name then .error (.duplicateField name)
          else do
            checked
            let others ← r.scanMembers closed (name :: seen) rest
            .ok ((name, value) :: others)
      | none =>
          if ¬ r.tolerant then .error .unknownField
          else if value.isWhole then r.scanMembers closed seen rest
          else .error .malformed

def readNamed {σ : Type} (r : Record α) (taking : Taking σ) (members : List (String × σ)) :
    Except Misfit r.Row :=
  r.columns.read taking (fun _ name => Ascending.value? name members)
    (fun _ name => .missingField name) 0

def readListed {σ : Type} (r : Record α) (taking : Taking σ) (items : List σ) :
    Except Misfit r.Row :=
  r.columns.read taking (fun position _ => items[position]?)
    (fun position _ => .wrongLength position r.lengthText) 0

def shape (r : Record α) : Shape α where
  ofJson
    | .object written => do
        let members := Json.members written
        r.checkMembers members
        r.build (← r.readNamed fromJson members)
    | .array items => do
        let a ← r.build (← r.readListed fromJson items)
        if items.length ≤ r.columns.names.length then .ok a
        else .error (.wrongLength items.length "fewer elements in array")
    | json => .error (.wrongType json.found ("struct " ++ r.title))
  ofDocument
    | .object written closed => do
        let members ← r.scanMembers closed [] written
        r.build (← r.readNamed fromDocument members)
    | .array items closed => do
        let row ← r.readListed fromDocument (if closed then items else items ++ [.broken])
        let a ← r.build row
        if closed ∧ items.length ≤ r.columns.names.length then .ok a else .error .malformed
    | document => do .error (.wrongType (← document.found) ("struct " ++ r.title))

end Record

end PatchLedger.Schema
