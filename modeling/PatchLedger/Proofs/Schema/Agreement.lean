import PatchLedger.Proofs.Json.Reading
import PatchLedger.Proofs.Schema.Record

/-!
The two readers of a shape agree. What is read from the tree of a text is read
from its value too, and the other way where no name is repeated
(`Shape.Agrees`). A record agrees where the shapes of its columns do
(`Record.agrees`): the text meets its members one by one, the value has them
sorted, but both ask of each member whether it is admitted, and of each column
what stands under its name.
-/

namespace PatchLedger

namespace Ascending

variable {κ σ τ : Type} [DecidableEq κ]

theorem value?_rel {R : σ → τ → Prop} {xs : List (κ × σ)} {ys : List (κ × τ)}
    (h : List.Forall₂ (fun x y => x.1 = y.1 ∧ R x.2 y.2) xs ys) (key : κ) :
    Option.Rel R (value? key xs) (value? key ys) := by
  induction h with
  | nil => exact .none
  | cons first others ih =>
    rw [value?, value?, first.1]
    split
    · exact .some first.2
    · exact ih

theorem mem_of_mem_ofList [LT κ] [DecidableLT κ] {entries : List (κ × σ)} {entry : κ × σ}
    (h : entry ∈ ofList entries) : entry ∈ entries := by
  suffices ∀ start : List (κ × σ),
      entry ∈ entries.foldl (fun sorted entry => put entry.1 entry.2 sorted) start →
        entry ∈ entries ∨ entry ∈ start from (this [] h).resolve_right List.not_mem_nil
  clear h
  induction entries with
  | nil => exact fun _ => Or.inr
  | cons head rest ih =>
    intro start h
    rcases ih _ h with h | h
    · exact Or.inl (List.mem_cons_of_mem _ h)
    · rcases mem_put h with rfl | h
      · exact Or.inl List.mem_cons_self
      · exact Or.inr h

end Ascending

theorem getElem?_rel {σ τ : Type} {R : σ → τ → Prop} {xs : List σ} {ys : List τ}
    (h : List.Forall₂ R xs ys) (i : Nat) : Option.Rel R xs[i]? ys[i]? := by
  induction h generalizing i with
  | nil => exact .none
  | cons first others ih =>
    cases i with
    | zero => exact .some first
    | succ i => simpa using ih i

theorem exists_of_mem_right {σ τ : Type} {R : σ → τ → Prop} {xs : List σ} {ys : List τ}
    (h : List.Forall₂ R xs ys) {y : τ} (inside : y ∈ ys) : ∃ x ∈ xs, R x y := by
  induction h with
  | nil => cases inside
  | cons first others ih =>
    rcases List.mem_cons.1 inside with rfl | inside
    · exact ⟨_, List.mem_cons_self, first⟩
    · obtain ⟨x, hx, related⟩ := ih inside
      exact ⟨x, List.mem_cons_of_mem _ hx, related⟩

namespace Schema

/-- What is read from the tree of a text is read from its value, and the other way where no name is
repeated. -/
structure Shape.Agrees {α : Type} (shape : Shape α) : Prop where
  ofJson {room : Nat} {document : Json.Document} {json : Json} {a : α} :
    Json.ofDocument? room document = some json → shape.ofDocument document = .ok a →
      shape.ofJson json = .ok a
  ofDocument {room : Nat} {document : Json.Document} {json : Json} {a : α} :
    Json.ofDocument? room document = some json → json.Distinct → shape.ofJson json = .ok a →
      shape.ofDocument document = .ok a

namespace Columns

variable {ρ σ τ : Type}

def All (p : ∀ {α : Type}, Shape α → Prop) : {ρ : Type} → Columns ρ → Prop
  | _, nil => True
  | _, cons first rest => p first.shape ∧ rest.All p

/-- Whatever one source gives at a shape, the other gives for what is related to it. -/
def Carries (taking : Taking σ) (taking' : Taking τ) (R : σ → τ → Prop) {α : Type} (shape : Shape α) :
    Prop :=
  ∀ ⦃s t a⦄, R s t → taking shape s = .ok a → taking' shape t = .ok a

theorem All.imp {p q : ∀ {α : Type}, Shape α → Prop} (h : ∀ {α : Type} {shape : Shape α}, p shape → q shape)
    {columns : Columns ρ} (all : columns.All p) : columns.All q := by
  induction columns with
  | nil => trivial
  | cons first rest ih => exact ⟨h all.1, ih all.2⟩

variable {taking : Taking σ} {taking' : Taking τ} {R : σ → τ → Prop}

theorem read_of_carries {columns : Columns ρ} (carries : columns.All (Carries taking taking' R))
    {at? : Nat → String → Option σ} {at?' : Nat → String → Option τ}
    {absent absent' : Nat → String → Misfit} {position : Nat} {row : ρ}
    (found : ∀ position, ∀ name ∈ columns.names,
      Option.Rel R (at? position name) (at?' position name))
    (h : columns.read taking at? absent position = .ok row) :
    columns.read taking' at?' absent' position = .ok row := by
  induction columns generalizing position with
  | nil => exact h
  | cons first rest ih =>
    obtain ⟨here, others⟩ := read_cons_eq_ok_iff.1 h
    have readOthers := ih carries.2 (fun i name inside => found i name (List.mem_cons_of_mem _ inside))
      others
    refine read_cons_eq_ok_iff.2 ⟨?_, readOthers⟩
    have related := found position first.name List.mem_cons_self
    rcases here with ⟨value, place, read⟩ | ⟨place, default⟩
    · rw [place] at related
      cases place' : at?' position first.name with
      | none => rw [place'] at related; cases related
      | some value' =>
        rw [place'] at related
        cases related with
        | some related => exact Or.inl ⟨value', rfl, carries.1 related read⟩
    · rw [place] at related
      cases place' : at?' position first.name with
      | none => exact Or.inr ⟨rfl, default⟩
      | some value' => rw [place'] at related; cases related

theorem check?_eq_none_iff {columns : Columns ρ} {name : String} {value : σ} :
    columns.check? taking name value = none ↔ name ∉ columns.names := by
  induction columns with
  | nil => simp [check?, names]
  | cons first rest ih =>
    rw [check?, names, List.mem_cons]
    split
    · next same => simp [same]
    · next differ => simp [ih, Ne.symm differ]

theorem check?_of_carries {columns : Columns ρ} (carries : columns.All (Carries taking taking' R))
    {name : String} {s : σ} {t : τ} (related : R s t)
    (h : columns.check? taking name s = some (.ok ())) :
    columns.check? taking' name t = some (.ok ()) := by
  induction columns with
  | nil => cases h
  | cons first rest ih =>
    rw [check?] at h ⊢
    split at h
    · next same =>
      cases read : taking first.shape s with
      | error misfit => rw [read] at h; cases h
      | ok a =>
        have carried : taking' first.shape t = .ok a := carries.1 related read
        rw [if_pos same]
        exact congrArg (fun x => some (x.map fun _ => ())) carried
    · next differ => rw [if_neg differ]; exact ih carries.2 h

end Columns

namespace Record

variable {α : Type} (r : Record α) {σ τ : Type}

theorem Admits.carried {taking : Taking σ} {taking' : Taking τ} {R : σ → τ → Prop}
    (carries : r.columns.All (Columns.Carries taking taking' R)) {x : String × σ} {y : String × τ}
    (same : x.1 = y.1) (related : R x.2 y.2) (h : r.Admits taking x) : r.Admits taking' y := by
  unfold Admits at h ⊢
  cases known : r.columns.check? taking x.1 x.2 with
  | none =>
    have unknown : y.1 ∉ r.columns.names := same ▸ Columns.check?_eq_none_iff.1 known
    rw [known] at h
    rw [Columns.check?_eq_none_iff.2 unknown]
    exact h
  | some checked =>
    rw [known] at h
    rw [← same, Columns.check?_of_carries carries related (known.trans (congrArg some h))]

def isColumn (member : String × σ) : Bool := r.columns.names.contains member.1

section Scan

variable {key tree : Json.Document} {name : String} (text : key.text = .ok name)
  {trees : List (Json.Document × Json.Document)} {seen : List String}
  {found : List (String × Json.Document)}

include text

theorem scanMembers_column (column : name ∈ r.columns.names) :
    r.scanMembers true seen ((key, tree) :: trees) = .ok found ↔
      name ∉ seen ∧ r.Admits fromDocument (name, tree) ∧
        ∃ others, r.scanMembers true (name :: seen) trees = .ok others ∧ (name, tree) :: others = found := by
  rw [scanMembers, text, ok_bind, Admits]
  cases known : r.columns.check? fromDocument name tree with
  | none => exact absurd column (Columns.check?_eq_none_iff.1 known)
  | some checked =>
    dsimp only
    by_cases repeated : name ∈ seen
    · simp [repeated]
    · rw [if_neg (by simpa using repeated), bind_eq_ok]
      simp [repeated, bind_eq_ok, Unique.exists_iff]

theorem scanMembers_other (unknown : name ∉ r.columns.names) :
    r.scanMembers true seen ((key, tree) :: trees) = .ok found ↔
      (r.Admits fromDocument (name, tree) ∧ tree.isWhole = true) ∧
        r.scanMembers true seen trees = .ok found := by
  have known : r.columns.check? fromDocument name tree = none := Columns.check?_eq_none_iff.2 unknown
  rw [scanMembers, text, ok_bind, Admits, known]
  cases r.tolerant <;> cases tree.isWhole <;> simp

end Scan

theorem scanMembers_eq_ok_iff {trees : List (Json.Document × Json.Document)}
    {members : List (String × Json.Document)}
    (named : List.Forall₂ (fun tree member => tree.1.text = .ok member.1 ∧ tree.2 = member.2)
      trees members) {seen : List String} {found : List (String × Json.Document)} :
    r.scanMembers true seen trees = .ok found ↔ found = members.filter r.isColumn ∧
      (∀ member ∈ members, r.Admits fromDocument member ∧
        (r.isColumn member = false → member.2.isWhole = true)) ∧
      (found.map Prod.fst).Nodup ∧ ∀ name ∈ found.map Prod.fst, name ∉ seen := by
  induction named generalizing seen found with
  | nil =>
    refine ⟨fun h => ?_, fun h => h.1 ▸ rfl⟩
    cases h
    simp
  | @cons tree member trees members first others ih =>
    obtain ⟨name, value⟩ := member
    obtain ⟨key, tree⟩ := tree
    obtain ⟨text, same⟩ := first
    cases same
    rw [List.forall_mem_cons]
    by_cases column : name ∈ r.columns.names
    · have known : r.isColumn (name, value) = true := by simpa [isColumn] using column
      rw [r.scanMembers_column text column, List.filter_cons_of_pos known]
      constructor
      · rintro ⟨fresh, admitted, others, scanned, rfl⟩
        obtain ⟨rfl, rest, distinct, new⟩ := ih.1 scanned
        simp only [List.mem_cons, not_or] at new
        simp only [List.map_cons, List.nodup_cons, List.forall_mem_cons]
        exact ⟨trivial, ⟨⟨admitted, by simp [known]⟩, rest⟩,
          ⟨fun inside => (new name inside).1 rfl, distinct⟩, fresh,
          fun other inside => (new other inside).2⟩
      · rintro ⟨rfl, ⟨⟨admitted, -⟩, rest⟩, distinct, new⟩
        simp only [List.map_cons, List.nodup_cons, List.forall_mem_cons] at distinct new
        refine ⟨new.1, admitted, _, ih.2 ⟨rfl, rest, distinct.2, fun other inside => ?_⟩, rfl⟩
        rw [List.mem_cons, not_or]
        refine ⟨?_, new.2 other inside⟩
        rintro rfl
        exact distinct.1 inside
    · have unknown : r.isColumn (name, value) = false := by simpa [isColumn] using column
      rw [r.scanMembers_other text column, List.filter_cons_of_neg (by simp [unknown]), ih]
      simp only [unknown, true_imp_iff]
      tauto

theorem ofDocument_object_eq_ok_iff {trees : List (Json.Document × Json.Document)} {a : α} :
    r.shape.ofDocument (.object trees true) = .ok a ↔
      ∃ found, r.scanMembers true [] trees = .ok found ∧
        ∃ row, r.readNamed fromDocument found = .ok row ∧ r.build row = .ok a := by
  simp [shape, bind_eq_ok]

theorem ofJson_array_eq_ok_iff {items : List Json} {a : α} :
    r.shape.ofJson (.array items) = .ok a ↔ (∃ row, r.readListed fromJson items = .ok row ∧
      r.build row = .ok a) ∧ items.length ≤ r.columns.names.length := by
  simp only [shape, bind_eq_ok]
  grind

theorem ofDocument_array_eq_ok_iff {items : List Json.Document} {a : α} :
    r.shape.ofDocument (.array items true) = .ok a ↔ (∃ row, r.readListed fromDocument items = .ok row ∧
      r.build row = .ok a) ∧ items.length ≤ r.columns.names.length := by
  simp only [shape, bind_eq_ok]
  grind

theorem exists_named {room : Nat} {trees : List (Json.Document × Json.Document)}
    {written : List (String × Json)} (h : List.Forall₂ (Json.ReadsMember room) trees written) :
    ∃ named : List (String × Json.Document),
      List.Forall₂ (fun tree member => tree.1.text = .ok member.1 ∧ tree.2 = member.2) trees named ∧
        List.Forall₂ (fun x y => x.1 = y.1 ∧ Json.ofDocument? room x.2 = some y.2) named written := by
  induction h with
  | nil => exact ⟨[], .nil, .nil⟩
  | @cons tree member trees written first others ih =>
    obtain ⟨named, texts, values⟩ := ih
    exact ⟨(member.1, tree.2) :: named, .cons ⟨first.1, rfl⟩ texts, .cons ⟨rfl, first.2⟩ values⟩

/-- Every column whose tree is read as a value gives what it gives for that value. -/
def Through (room : Nat) : Prop :=
  r.columns.All (Columns.Carries fromDocument fromJson fun document json =>
    Json.ofDocument? room document = some json)

/-- And the other way, for values in which no name is repeated. -/
def Back (room : Nat) : Prop :=
  r.columns.All (Columns.Carries fromJson fromDocument fun json document =>
    json.Distinct ∧ Json.ofDocument? room document = some json)

section Members

variable {room : Nat} {trees : List (Json.Document × Json.Document)}
  {named : List (String × Json.Document)} {written : List (String × Json)} {a : α}

theorem map_fst_eq
    (values : List.Forall₂ (fun x y => x.1 = y.1 ∧ Json.ofDocument? room x.2 = some y.2) named written) :
    named.map Prod.fst = written.map Prod.fst := by
  rw [← List.forall₂_eq_eq_eq, List.forall₂_map_left_iff, List.forall₂_map_right_iff]
  exact values.imp fun _ _ => And.left

theorem isColumn_filter
    (values : List.Forall₂ (fun x y => x.1 = y.1 ∧ Json.ofDocument? room x.2 = some y.2) named written) :
    List.Forall₂ (fun x y => x.1 = y.1 ∧ Json.ofDocument? room x.2 = some y.2)
      (named.filter r.isColumn) (written.filter r.isColumn) :=
  List.rel_filter (fun x y related => by simp [isColumn, related.1]) values

variable
  (texts : List.Forall₂ (fun tree member => tree.1.text = .ok member.1 ∧ tree.2 = member.2) trees named)
  (values : List.Forall₂ (fun x y => x.1 = y.1 ∧ Json.ofDocument? room x.2 = some y.2) named written)

include texts values

theorem ofJson_object_of_trees (through : r.Through room)
    (h : r.shape.ofDocument (.object trees true) = .ok a) : r.shape.ofJson (.object written) = .ok a := by
  obtain ⟨found, scanned, row, readRow, built⟩ := r.ofDocument_object_eq_ok_iff.1 h
  obtain ⟨rfl, admitted, distinct, -⟩ := (r.scanMembers_eq_ok_iff texts).1 scanned
  have known := r.isColumn_filter values
  have checked : r.checkMembers (Json.members written) = .ok () := by
    refine r.checkMembers_eq_ok_iff.2 fun member inside => ?_
    obtain ⟨x, hx, same, related⟩ := exists_of_mem_right values (Ascending.mem_of_mem_ofList inside)
    exact (admitted x hx).1.carried r through same related
  refine r.ofJson_object_eq_ok_iff.2 ⟨checked, row, ?_, built⟩
  refine Columns.read_of_carries through (fun _ name column => ?_) readRow
  -- of a repeated name the value keeps the last member; a column's name is not repeated
  have kept (value : Json) : r.isColumn (name, value) = true := by simpa [isColumn] using column
  rw [map_fst_eq known] at distinct
  rw [Json.members, Ascending.value?_ofList, ← Ascending.value?_filter kept, List.filter_reverse,
    Ascending.value?_reverse distinct]
  exact Ascending.value?_rel known name

theorem ofDocument_object_of_members (back : r.Back room) (distinct : (Json.object written).Distinct)
    (h : r.shape.ofJson (.object written) = .ok a) : r.shape.ofDocument (.object trees true) = .ok a := by
  obtain ⟨checked, row, readRow, built⟩ := r.ofJson_object_eq_ok_iff.1 h
  have admitted := r.checkMembers_eq_ok_iff.1 checked
  have related : List.Forall₂ (fun y x => y.1 = x.1 ∧ y.2.Distinct ∧
      Json.ofDocument? room x.2 = some y.2) written named :=
    ((List.forall₂_and_left _ _).2 ⟨Json.allMembersDistinct_iff.1 distinct.2, values.flip⟩).imp
      fun _ _ related => ⟨related.2.1.symm, related.1, related.2.2⟩
  have scanned : r.scanMembers true [] trees = .ok (named.filter r.isColumn) := by
    refine (r.scanMembers_eq_ok_iff texts).2 ⟨rfl, fun x hx => ?_, ?_, by simp⟩
    · obtain ⟨y, hy, same, read⟩ := exists_of_mem_right related hx
      refine ⟨?_, fun _ => Json.isWhole_of_ofDocument? _ read.2⟩
      exact (admitted y ((Ascending.mem_ofList distinct.1).2 hy)).carried r back same read
    · exact (List.filter_sublist.map Prod.fst).nodup (map_fst_eq values ▸ distinct.1)
  refine r.ofDocument_object_eq_ok_iff.2 ⟨_, scanned, row, ?_, built⟩
  refine Columns.read_of_carries back (fun _ name column => ?_) readRow
  have kept (value : Json.Document) : r.isColumn (name, value) = true := by
    simpa [isColumn] using column
  rw [value?_members distinct.1, Ascending.value?_filter kept]
  exact Ascending.value?_rel related name

end Members

/-- A record agrees where the shapes of its columns do. -/
theorem agrees (columns : r.columns.All Shape.Agrees) : r.shape.Agrees where
  ofJson {room document json a} read h := by
    have through (room : Nat) : r.Through room := columns.imp fun agrees _ _ _ => agrees.ofJson
    cases document with
    | object trees closed =>
      obtain ⟨inner, written, rfl, rfl, inside, rfl⟩ := Json.ofDocument?_object_iff.1 read
      obtain ⟨named, texts, values⟩ := exists_named (Json.membersOf?_eq_some_iff.1 inside)
      exact r.ofJson_object_of_trees texts values (through inner) h
    | array trees closed =>
      obtain ⟨inner, items, rfl, rfl, inside, rfl⟩ := Json.ofDocument?_array_iff.1 read
      obtain ⟨⟨row, readRow, built⟩, short⟩ := r.ofDocument_array_eq_ok_iff.1 h
      have values := Json.itemsOf?_eq_some_iff.1 inside
      refine r.ofJson_array_eq_ok_iff.2 ⟨⟨row, ?_, built⟩, values.length_eq ▸ short⟩
      exact Columns.read_of_carries (through inner) (fun i _ _ => getElem?_rel values i) readRow
    | null | bool b | number n | string pieces | broken =>
      obtain ⟨found, -, h⟩ := bind_eq_ok.1 h
      cases h
  ofDocument {room document json a} read distinct h := by
    have back (room : Nat) : r.Back room :=
      columns.imp fun agrees _ _ _ related => agrees.ofDocument related.2 related.1
    cases document with
    | object trees closed =>
      obtain ⟨inner, written, rfl, rfl, inside, rfl⟩ := Json.ofDocument?_object_iff.1 read
      obtain ⟨named, texts, values⟩ := exists_named (Json.membersOf?_eq_some_iff.1 inside)
      exact r.ofDocument_object_of_members texts values (back inner) distinct h
    | array trees closed =>
      obtain ⟨inner, items, rfl, rfl, inside, rfl⟩ := Json.ofDocument?_array_iff.1 read
      obtain ⟨⟨row, readRow, built⟩, short⟩ := r.ofJson_array_eq_ok_iff.1 h
      have values := Json.itemsOf?_eq_some_iff.1 inside
      refine r.ofDocument_array_eq_ok_iff.2 ⟨⟨row, ?_, built⟩, values.length_eq ▸ short⟩
      have related := (List.forall₂_and_left _ _).2 ⟨Json.allDistinct_iff.1 distinct, values.flip⟩
      exact Columns.read_of_carries (back inner) (fun i _ _ => getElem?_rel related i) readRow
    | number n =>
      obtain ⟨number, -, rfl⟩ := Option.map_eq_some_iff.1 read
      cases number <;> cases h
    | string pieces =>
      obtain ⟨s, -, rfl⟩ := Option.map_eq_some_iff.1 read
      cases h
    | null | bool b => cases read; cases h
    | broken => cases read

end Record

namespace Shape

variable {α : Type}

theorem ofDocument_scalar (read : Found → Except Misfit α) {room : Nat} {document : Json.Document}
    {json : Json} (h : Json.ofDocument? room document = some json) :
    (scalar read).ofDocument document = (scalar read).ofJson json := by
  change document.found >>= read = read json.found
  rw [Json.found_of_ofDocument? h]
  rfl

theorem agrees_scalar (read : Found → Except Misfit α) : (scalar read).Agrees where
  ofJson found h := ofDocument_scalar read found ▸ h
  ofDocument found _ h := (ofDocument_scalar read found).trans h

theorem agrees_text : text.Agrees := agrees_scalar _

theorem agrees_boolean : boolean.Agrees := agrees_scalar _

theorem agrees_integer (title : String) (low high : Int) (ofInt : Int → α) :
    (integer title low high ofInt).Agrees := agrees_scalar _

theorem ofJson_optional {json : Json} (shape : Shape α) (h : json ≠ .null) :
    shape.optional.ofJson json = (shape.ofJson json).map some := by
  cases json with
  | null => exact absurd rfl h
  | _ => rfl

theorem ofDocument_optional {document : Json.Document} (shape : Shape α) (h : document ≠ .null) :
    shape.optional.ofDocument document = (shape.ofDocument document).map some := by
  cases document with
  | null => exact absurd rfl h
  | _ => rfl

theorem eq_null_of_ofDocument? {room : Nat} {document : Json.Document}
    (h : Json.ofDocument? room document = some .null) : document = .null := by
  cases document with
  | null => rfl
  | number n =>
    obtain ⟨number, -, h⟩ := Option.map_eq_some_iff.1 h
    cases number <;> cases h
  | string pieces =>
    obtain ⟨s, -, h⟩ := Option.map_eq_some_iff.1 h
    cases h
  | array trees closed =>
    obtain ⟨_, _, -, -, -, h⟩ := Json.ofDocument?_array_iff.1 h
    cases h
  | object trees closed =>
    obtain ⟨_, _, -, -, -, h⟩ := Json.ofDocument?_object_iff.1 h
    cases h
  | bool b | broken => cases h

theorem agrees_optional {shape : Shape α} (agrees : shape.Agrees) : shape.optional.Agrees where
  ofJson {room document json a} read h := by
    by_cases null : document = .null
    · subst null
      cases read
      exact h
    · have present : json ≠ .null := fun same => null (eq_null_of_ofDocument? (same ▸ read))
      rw [ofDocument_optional shape null] at h
      obtain ⟨b, direct, rfl⟩ := map_eq_ok.1 h
      rw [ofJson_optional shape present, agrees.ofJson read direct]
      rfl
  ofDocument {room document json a} read distinct h := by
    by_cases null : document = .null
    · subst null
      cases read
      exact h
    · have present : json ≠ .null := fun same => null (eq_null_of_ofDocument? (same ▸ read))
      rw [ofJson_optional shape present] at h
      obtain ⟨b, through, rfl⟩ := map_eq_ok.1 h
      rw [ofDocument_optional shape null, agrees.ofDocument read distinct through]
      rfl

theorem ofDocument_choice_object {variants : List (String × α)} {room : Nat}
    {tree : Json.Document × Json.Document} {member : String × Json}
    (read : Json.ReadsMember room tree member) :
    (choice variants).ofDocument (.object [tree] true) = (choice variants).ofJson (.object [member]) := by
  have content : unit.ofDocument tree.2 = unit.ofJson member.2 := ofDocument_scalar _ read.2
  change (tree.1.text >>= fun name => variant variants name >>= fun a =>
      unit.ofDocument tree.2 >>= fun _ => if true = true ∧ [].isEmpty = true then .ok a else .error .malformed) =
    (variant variants member.1 >>= fun a => unit.ofJson member.2 >>= fun _ => .ok a)
  rw [read.1, content]
  rfl

theorem ofDocument_choice_object_eq_ok {variants : List (String × α)}
    {trees : List (Json.Document × Json.Document)} {closed : Bool} {a : α}
    (h : (choice variants).ofDocument (.object trees closed) = .ok a) : ∃ tree, trees = [tree] := by
  cases trees with
  | nil => cases h
  | cons tree others =>
    obtain ⟨_, -, h⟩ := bind_eq_ok.1 h
    obtain ⟨_, -, h⟩ := bind_eq_ok.1 h
    obtain ⟨_, -, h⟩ := bind_eq_ok.1 h
    split at h
    · next alone => exact ⟨tree, by rw [List.isEmpty_iff.1 alone.2]⟩
    · cases h

theorem ofJson_choice_object_eq_ok {variants : List (String × α)} {written : List (String × Json)}
    (distinct : (written.map Prod.fst).Nodup) {a : α}
    (h : (choice variants).ofJson (.object written) = .ok a) : ∃ member, written = [member] := by
  simp only [choice] at h
  split at h
  · next name content alone =>
    have same : written.Perm [(name, content)] := by
      refine (List.perm_ext_iff_of_nodup (distinct.of_map _) (List.nodup_singleton _)).2 fun member => ?_
      rw [← alone, Json.members, Ascending.mem_ofList distinct]
    exact ⟨_, List.perm_singleton.1 same⟩
  · cases h

theorem ofDocument_choice_eq_ok_iff {variants : List (String × α)} {room : Nat}
    {document : Json.Document} {json : Json} {a : α} (read : Json.ofDocument? room document = some json)
    (single : ∀ trees closed written, document = .object trees closed → json = .object written →
      (∃ tree, trees = [tree]) ∨ ∃ member, written = [member]) :
    (choice variants).ofDocument document = .ok a ↔ (choice variants).ofJson json = .ok a := by
  cases document with
  | object trees closed =>
    obtain ⟨inner, written, rfl, rfl, inside, rfl⟩ := Json.ofDocument?_object_iff.1 read
    have values := Json.membersOf?_eq_some_iff.1 inside
    rcases single _ _ _ rfl rfl with ⟨tree, rfl⟩ | ⟨member, rfl⟩
    · obtain ⟨member, rest, here, others, rfl⟩ := List.forall₂_cons_left_iff.1 values
      cases others
      rw [ofDocument_choice_object here]
    · obtain ⟨tree, rest, here, others, rfl⟩ := List.forall₂_cons_right_iff.1 values
      cases others
      rw [ofDocument_choice_object here]
  | string pieces =>
    obtain ⟨s, found, rfl⟩ := Option.map_eq_some_iff.1 read
    have text : Json.Document.text (.string pieces) = .ok s :=
      Json.Document.text_eq_ok_iff.2 ⟨pieces, rfl, found⟩
    change (Json.Document.text (.string pieces) >>= fun name => variant variants name) = _ ↔ _
    rw [text]
    rfl
  | number n =>
    obtain ⟨number, -, rfl⟩ := Option.map_eq_some_iff.1 read
    cases number <;> exact ⟨nofun, nofun⟩
  | array trees closed =>
    obtain ⟨_, items, -, -, -, rfl⟩ := Json.ofDocument?_array_iff.1 read
    exact ⟨nofun, nofun⟩
  | null | bool b => cases read; exact ⟨nofun, nofun⟩
  | broken => cases read

theorem agrees_choice (variants : List (String × α)) : (choice variants).Agrees where
  ofJson read h := (ofDocument_choice_eq_ok_iff read fun trees closed written isTrees _ =>
    Or.inl (ofDocument_choice_object_eq_ok (isTrees ▸ h))).1 h
  ofDocument read distinct h := (ofDocument_choice_eq_ok_iff read
    fun trees closed written _ isWritten => by
      subst isWritten
      exact Or.inr (ofJson_choice_object_eq_ok distinct.1 h)).2 h

end Shape

end Schema

end PatchLedger
