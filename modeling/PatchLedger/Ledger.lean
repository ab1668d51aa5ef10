import PatchLedger.Error
import PatchLedger.Ledger.History
import PatchLedger.Tree.Record

/-!
The ledger: its tree, whether the last written patch had an error, the pruners
that have not finished, and the failures that nobody has taken yet. Submitting a
patch, loading a page and a pruner's step are its moves; they may follow one
another in any order.
-/

namespace PatchLedger

/-- The patches that a load found beyond the retention, with the stamps it saw. -/
abbrev Pruner := List (String × Option Bytes)

structure Failure where
  uuid : String
  error : LedgerError
deriving DecidableEq

structure Ledger where
  setup : Setup
  tree : Tree
  lastHasErrors : Bool
  pruners : List Pruner
  failures : List Failure

inductive Outcome where
  | suppressed
  | written
  | rejected (e : LedgerError)
deriving DecidableEq

def Patch.toRecord (p : Patch) : Record where
  uuid := p.uuid
  stamp := p.stamp.stored
  error := p.error
  source := p.source.uri
  operations := p.operations.map Operation.encode

namespace Ledger

/-- How many failures are kept; later ones are lost. -/
def failureCapacity : Nat := 64

/-- A patch with operations or an error, or the first one after an error. -/
def isRelevant (l : Ledger) (p : Patch) : Bool := !p.isEmpty || p.hasErrors || l.lastHasErrors

def report (l : Ledger) (failure : Failure) : Ledger :=
  if l.failures.length < failureCapacity then { l with failures := l.failures ++ [failure] } else l

def submit (l : Ledger) (p : Patch) : Outcome × Ledger :=
  if l.isRelevant p then
    match l.tree.replace p.toRecord with
    | .ok tree => (.written, { l with tree, lastHasErrors := p.hasErrors })
    | .error e => (.rejected e.error, l.report ⟨p.uuid, e.error⟩)
  else (.suppressed, l)

def submitAll (l : Ledger) (patches : List Patch) : Ledger :=
  patches.foldl (fun l p => (l.submit p).2) l

def drain (l : Ledger) : List Failure × Ledger := (l.failures, { l with failures := [] })

def history (l : Ledger) (clock : Nat → Instant) : List Loaded := l.tree.history l.setup clock

def stale (setup : Setup) (history : List Loaded) : Pruner :=
  (history.drop setup.config.retention.toNat).map fun loaded => (loaded.patch.uuid, loaded.seen)

/-- A page of the history; what lies beyond the retention is left to a new pruner. -/
def load (l : Ledger) (clock : Nat → Instant) (offset limit : Nat) : List Loaded × Ledger :=
  let history := l.history clock
  let stale := stale l.setup history
  ((history.drop offset).take limit,
    if stale.isEmpty then l else { l with pruners := l.pruners ++ [stale] })

/-- Removes one patch that a pruner names, unless it has been written again. -/
def pruneOne (t : Tree) (entry : String × Option Bytes) : Tree :=
  (t.prune? entry.1 entry.2).getD t

def pruneStep (l : Ledger) (i : Nat) : Ledger :=
  match l.pruners[i]? with
  | some (entry :: rest) =>
      { l with tree := pruneOne l.tree entry, pruners := l.pruners.set i rest }
  | _ => l

def settle (l : Ledger) : Ledger :=
  { l with tree := l.pruners.flatten.foldl pruneOne l.tree, pruners := [] }

def count (l : Ledger) : Nat := l.tree.patchCount

inductive RoleError where
  | notSource (uri : String)
  | notTarget (uri : String)
deriving DecidableEq

def RoleError.error : RoleError → LedgerError
  | notSource uri => ⟨.invalidArgument, "端点不能作为同步源: " ++ uri⟩
  | notTarget uri => ⟨.invalidArgument, "端点不能作为同步目标: " ++ uri⟩

def checkRoles (setup : Setup) : Except RoleError Unit :=
  if setup.source.asSource?.isNone then .error (.notSource setup.source.uri)
  else if setup.target.asTarget?.isNone then .error (.notTarget setup.target.uri)
  else .ok ()

/-- A ledger on a tree. Whether the last patch had an error is taken from the latest one, by a load
like any other. -/
def start (setup : Setup) (clock : Nat → Instant) (tree : Tree) : Ledger :=
  let (latest, l) := load ⟨setup, tree, false, [], []⟩ clock 0 1
  { l with lastHasErrors := latest.any fun loaded => loaded.patch.hasErrors }

def summary (setup : Setup) (path : String) : String :=
  "PatchStore \x7b path: " ++ Text.quoted path ++ ", source: " ++
    Text.quoted setup.source.uri ++ ", running: true \x7d"

end Ledger

end PatchLedger
