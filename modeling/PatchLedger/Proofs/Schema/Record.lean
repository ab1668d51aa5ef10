import PatchLedger.Proofs.Ascending
import PatchLedger.Proofs.Instant.RoundTrip
import PatchLedger.Schema.Record

/-!
Reading a record from an object whose members are all columns, in whatever order
they stand (`Record.ofJson_object`), and reading written scalars; and, the
other way, how a reading that succeeded is taken apart (`bind_eq_ok`): each member
is one that the record admits (`Record.checkMembers_eq_ok_iff`).
-/

namespace PatchLedger

theorem bind_eq_ok {ε α β : Type} {x : Except ε α} {f : α → Except ε β} {b : β} :
    x >>= f = .ok b ↔ ∃ a, x = .ok a ∧ f a = .ok b := by
  cases x with
  | error e => simp [bind, Except.bind]
  | ok a => simp [bind, Except.bind]

theorem ok_bind {ε α β : Type} (a : α) (f : α → Except ε β) : (.ok a : Except ε α) >>= f = f a := rfl

theorem map_eq_ok {ε α β : Type} {x : Except ε α} {f : α → β} {b : β} :
    x.map f = .ok b ↔ ∃ a, x = .ok a ∧ f a = b := by
  cases x <;> simp [Except.map]

theorem mapError_eq_ok {ε ε' α : Type} {x : Except ε α} {f : ε → ε'} {a : α} :
    x.mapError f = .ok a ↔ x = .ok a := by
  cases x <;> simp [Except.mapError]

theorem toOption_eq_some {ε α : Type} {x : Except ε α} {a : α} : x.toOption = some a ↔ x = .ok a := by
  cases x <;> simp [Except.toOption]

namespace Schema

theorem Columns.read_cons_eq_ok_iff {σ α ρ : Type} {taking : Taking σ}
    {at? : Nat → String → Option σ} {absent : Nat → String → Misfit} {position : Nat}
    {first : Column α} {rest : Columns ρ} {row : α × ρ} :
    (cons first rest).read taking at? absent position = .ok row ↔
      ((∃ value, at? position first.name = some value ∧ taking first.shape value = .ok row.1) ∨
          at? position first.name = none ∧ first.default = some row.1) ∧
        rest.read taking at? absent (position + 1) = .ok row.2 := by
  obtain ⟨a, others⟩ := row
  rw [read]
  cases at? position first.name with
  | some value => simp [bind_eq_ok, and_comm, and_left_comm]
  | none =>
    cases first.default with
    | some value =>
      rw [bind_eq_ok]
      simp [bind_eq_ok, and_comm]
    | none => simp [bind, Except.bind]

theorem Columns.check?_of_read {σ ρ : Type} {columns : Columns ρ} {taking : Taking σ}
    {at? : Nat → String → Option σ} {absent : Nat → String → Misfit} {position : Nat} {row : ρ}
    (h : columns.read taking at? absent position = .ok row) {name : String} {value : σ}
    (column : name ∈ columns.names) (found : ∀ position, at? position name = some value) :
    columns.check? taking name value = some (.ok ()) := by
  induction columns generalizing position with
  | nil => cases column
  | cons first rest ih =>
    obtain ⟨here, others⟩ := read_cons_eq_ok_iff.1 h
    rw [check?]
    split
    · next same =>
      subst same
      rw [found] at here
      rcases here with ⟨_, place, read⟩ | ⟨absent, -⟩
      · cases place
        exact congrArg (fun x => some (x.map fun _ => ())) read
      · cases absent
    · next differ => exact ih others ((List.mem_cons.1 column).resolve_left (Ne.symm differ))

namespace Record

variable {α : Type} (r : Record α)

/-- A member may stand in the record: its column reads it, or there is none for it and the record
tolerates others. -/
def Admits {σ : Type} (taking : Taking σ) (member : String × σ) : Prop :=
  match r.columns.check? taking member.1 member.2 with
  | some checked => checked = .ok ()
  | none => r.tolerant = true

theorem checkMembers_eq_ok_iff {members : List (String × Json)} :
    r.checkMembers members = .ok () ↔ ∀ member ∈ members, r.Admits fromJson member := by
  induction members with
  | nil => simp [checkMembers]
  | cons member others ih =>
    obtain ⟨name, value⟩ := member
    rw [checkMembers, List.forall_mem_cons, Admits, ← ih]
    cases r.columns.check? fromJson name value with
    | none => cases r.tolerant <;> simp
    | some checked => cases checked <;> simp

theorem ofJson_object_eq_ok_iff {written : List (String × Json)} {a : α} :
    r.shape.ofJson (.object written) = .ok a ↔
      r.checkMembers (Json.members written) = .ok () ∧
        ∃ row, r.readNamed fromJson (Json.members written) = .ok row ∧ r.build row = .ok a := by
  simp only [shape, bind_eq_ok]
  constructor
  · rintro ⟨_, checked, rest⟩
    exact ⟨checked, rest⟩
  · rintro ⟨checked, rest⟩
    exact ⟨(), checked, rest⟩

theorem value?_members {written : List (String × Json)} (distinct : (written.map Prod.fst).Nodup)
    (name : String) : Ascending.value? name (Json.members written) = Ascending.value? name written := by
  refine Option.ext fun value => ?_
  rw [Json.members, Ascending.value?_eq_some_iff (Ascending.ascends_ofList written).nodup,
    Ascending.value?_eq_some_iff distinct, Ascending.mem_ofList distinct]

theorem readNamed_sorted {written : List (String × Json)} (distinct : (written.map Prod.fst).Nodup) :
    r.readNamed fromJson (Json.members written) = r.readNamed fromJson written := by
  simp only [readNamed, value?_members distinct]

theorem ofJson_object {written : List (String × Json)} {row : r.Row}
    (distinct : (written.map Prod.fst).Nodup)
    (columns : ∀ member ∈ written, member.1 ∈ r.columns.names)
    (read : r.readNamed fromJson written = .ok row) :
    r.shape.ofJson (.object written) = r.build row := by
  have checked : r.checkMembers (Json.members written) = .ok () := by
    refine r.checkMembers_eq_ok_iff.2 fun member inside => ?_
    have inside := (Ascending.mem_ofList distinct).1 inside
    have fits := Columns.check?_of_read read (columns member inside) fun _ =>
      (Ascending.value?_eq_some_iff distinct).2 inside
    rw [Admits, fits]
  rw [shape]
  dsimp only
  rw [checked, r.readNamed_sorted distinct, read]
  rfl

theorem ofJson_ordered {written : List (String × Json)} {row : r.Row}
    (distinct : (written.map Prod.fst).Nodup)
    (columns : ∀ member ∈ written, member.1 ∈ r.columns.names)
    (read : r.readNamed fromJson written = .ok row) :
    r.shape.ofJson (Json.ordered written) = r.build row :=
  r.ofJson_object (Ascending.ascends_ofList written).nodup
    (fun member inside => columns member ((Ascending.mem_ofList distinct).1 inside))
    ((r.readNamed_sorted distinct).trans read)

end Record

namespace Shape

theorem ofJson_instant (t : Instant) : Shape.instant.ofJson (.text t.toText) = .ok t := by
  simp [Shape.instant, Shape.scalar, Json.found, Instant.ofText?_toText]

theorem ofJson_int64 (n : Int64) : Shape.int64.ofJson (.int n.toInt) = .ok n := by
  have low : Int64.minValue.toInt ≤ n.toInt := n.minValue_le_toInt
  have high : n.toInt ≤ Int64.maxValue.toInt := n.toInt_le
  simp only [Shape.int64, Shape.integer, Shape.scalar, Json.found]
  rw [if_pos ⟨low, high⟩, Int64.ofInt_toInt]

theorem ofJson_text (s : String) : Shape.text.ofJson (.text s) = .ok s := rfl

end Shape

end Schema

end PatchLedger
