import PatchLedger.Folder.Layout
import PatchLedger.Folder.Place
import PatchLedger.Ledger

/-!
A directory in which ledgers are kept, one tree for each place, with at most one
ledger in use. Opening checks the roles of the endpoints, then makes what is
missing on the way to the ledger, then the ledger's own directory with what it
holds, then takes the lock, then takes up what is kept there: it is refused at
the first of these that fails, and what was made before that stays. A ledger
that is closed, or replaced by another, finishes its pruning first.
-/

namespace PatchLedger

inductive Kind where
  | directory
  | file
deriving DecidableEq, Repr

structure Item where
  directory : String
  name : String
  kind : Kind
deriving DecidableEq, Repr

structure Kept where
  tree : Tree
  hasSnapshot : Bool

structure InUse where
  place : Place
  fileName : String
  ledger : Ledger

/-- What was made in a directory, and the ledgers kept there; the directory's own path has `base`
bytes. -/
structure Folder where
  base : Nat
  made : List Item
  kept : List (Place × Kept)
  inUse : Option InUse

inductive OpenError where
  | role (e : Ledger.RoleError)
  | blocked
  | notALedger
  | held

def OpenError.error : OpenError → LedgerError
  | role e => e.error
  | blocked => ⟨.io, "创建存储目录失败"⟩
  | notALedger => ⟨.store, "打开存储失败"⟩
  | held => ⟨.timeout, "等待存储锁超时"⟩

/-- A step of opening. What it has made stays when it fails. -/
abbrev Opening (α : Type) := ExceptT OpenError (StateM Folder) α

namespace Folder

def nameLimit : Nat := 255

def pathLimit : Nat := 4095

def empty (base : Nat) : Folder := ⟨base, [], [], none⟩

def items (f : Folder) (place : Place) : List Item :=
  let directory := place.text
  f.made.filter (·.directory = directory)

def kind? (f : Folder) (place : Place) (name : String) : Option Kind :=
  ((f.items place).find? (·.name = name)).map (·.kind)

def make (f : Folder) (place : Place) (name : String) (kind : Kind) : Folder :=
  { f with made := ⟨place.text, name, kind⟩ :: f.made }

def remove (f : Folder) (items : List Item) : Folder :=
  { f with made := f.made.filter (· ∉ items) }

def kept? (f : Folder) (place : Place) : Option Kept := f.kept.lookup place

def forget (f : Folder) (place : Place) : Folder :=
  { f with kept := f.kept.filter (·.1 ≠ place) }

def keep (f : Folder) (place : Place) (kept : Kept) : Folder :=
  { f with kept := (place, kept) :: (f.forget place).kept }

def tree (f : Folder) (place : Place) : Tree :=
  match f.kept? place with
  | none => .empty
  | some kept => kept.tree

def setTree (f : Folder) (place : Place) (tree : Tree) : Folder :=
  f.keep place ⟨tree, (f.kept? place).any (·.hasSnapshot)⟩

def close (f : Folder) : Folder :=
  match f.inUse with
  | none => f
  | some used => { f.setTree used.place used.ledger.settle.tree with inUse := none }

def update (f : Folder) (change : Ledger → Ledger) : Folder :=
  { f with inUse := f.inUse.map fun used => { used with ledger := change used.ledger } }

/-- No system takes a path that holds a NUL or is too long. -/
def checkPath (refusal : OpenError) (path : Path) (more : Nat) : Opening Unit := do
  if path.hasNul || pathLimit < path.size (← get).base + more then throw refusal

def enter (refusal : OpenError) (place : Place) (part : String) : Opening Place := do
  if part = ".." then return place.parent
  if nameLimit < part.utf8ByteSize then throw refusal
  match (← get).kind? place part with
  | some .directory => return place ++ [part]
  | some .file => throw refusal
  | none =>
      modify fun f => f.make place part .directory
      return place ++ [part]

def provide (place : Place) (name : String) : Opening Unit := do
  match (← get).kind? place name with
  | some .directory => throw .notALedger
  | some .file => pure ()
  | none => modify fun f => f.make place name .file

/-- What a ledger keeps in its directory. Whatever has the name of its inner directory is taken for
it; its files must not be directories. -/
def furnish (place : Place) : Opening Unit := do
  if ((← get).kind? place Layout.inner).isNone then
    modify fun f => f.make place Layout.inner .directory
  for name in Layout.files do provide place name

def approach (path : Path) : Opening Place := do
  checkPath .blocked path.parent 0
  path.parent.parts.foldlM (enter .blocked) path.start

def reach (path : Path) : Opening Place := do
  let parent ← approach path
  checkPath .notALedger path (Layout.inner.utf8ByteSize + 1)
  let place ← path.lastParts.foldlM (enter .notALedger) parent
  furnish place
  return place

/-- The latest snapshot in a ledger's directory must be its own. Snapshots are looked up by the
path as it is written, so none is found behind an end that leads nowhere. -/
def checkSnapshots (path : Path) (place : Place) : Opening Unit := do
  let f ← get
  let isLater (name : String) : Bool := match f.kept? place with
    | some ⟨tree, true⟩ => Layout.snapshotName (Layout.logEnd tree) < name
    | _ => true
  if path.endsPlainly && (f.items place).any fun item =>
      Layout.isSnapshot item.name && isLater item.name then
    throw .notALedger

/-- Clears a ledger's inner directory of what stands for positions past the end of its log. Only
files can be cleared away. -/
def clear (place : Place) (tree : Tree) : Opening Unit := do
  let f ← get
  if f.kind? place Layout.inner = some .file then throw .notALedger
  let past := (f.items (place ++ [Layout.inner])).filter fun item =>
    (Layout.position? item.name).any (Layout.logEnd tree < ·)
  if past.any (·.kind = .directory) then throw .notALedger
  set (f.remove past)

/-- Takes up what is kept at a place. A log that has begun is cleared up behind its end, and has a
snapshot from then on; one that has not begins. -/
def recover (path : Path) (place : Place) : Opening Tree := do
  checkSnapshots path place
  match (← get).kept? place with
  | none =>
      modify fun f => f.keep place ⟨.empty, false⟩
      return .empty
  | some kept =>
      clear place kept.tree
      modify fun f => f.keep place ⟨kept.tree, true⟩
      return kept.tree

def opening (setup : Setup) (clock : Nat → Instant) : Opening Unit := do
  match Ledger.checkRoles setup with
  | .error e => throw (.role e)
  | .ok () =>
      let path := Path.ofName setup.config.fileName
      let place ← reach path
      if (← get).inUse.any (·.place = place) then throw .held
      let ledger := Ledger.start setup clock (← recover path place)
      modify fun f => { f.close with inUse := some ⟨place, setup.config.fileName, ledger⟩ }

def openLedger (f : Folder) (setup : Setup) (clock : Nat → Instant) :
    Except OpenError Unit × Folder :=
  (opening setup clock).run.run f

def finding (fileName : String) : Opening Place := do
  let path := Path.ofName fileName
  let place ← reach path
  let _ ← recover path place
  return place

def find (f : Folder) (fileName : String) : Except OpenError Place × Folder :=
  (finding fileName).run.run f

/-- Makes a regular file, with what is missing on the way. What was logged in a file that it
replaces is gone. -/
def placing (fileName : String) : Opening Unit := do
  let path := Path.ofName fileName
  let parent ← approach path
  for name in path.lastParts do
    provide parent name
    if name = Layout.log then modify fun f => f.forget parent

def addFile (f : Folder) (fileName : String) : Folder := ((placing fileName).run.run f).2

end Folder

def Path.inDirectory (directory fileName : String) : String :=
  if (Path.ofName fileName).isAbsolute then fileName else directory ++ "/" ++ fileName

end PatchLedger
