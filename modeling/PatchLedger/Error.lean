import PatchLedger.Operation.Record
import PatchLedger.Text.Located
import PatchLedger.Tree.Record

/-!
The errors of a ledger: a kind and a text. The causes that arise in the ledger
have their kind and wording here.
-/

namespace PatchLedger

inductive ErrorKind where
  | store
  | serialization
  | io
  | timeout
  | shuttingDown
  | invalidArgument
  | invalidData
  | runtime
deriving DecidableEq, Repr

structure LedgerError where
  kind : ErrorKind
  text : String
deriving DecidableEq, Repr

namespace ErrorKind

def label : ErrorKind → String
  | store => "KV store error"
  | serialization => "Serialization error"
  | io => "IO error"
  | timeout => "Timeout"
  | shuttingDown => "Shutting down"
  | invalidArgument => "Invalid argument"
  | invalidData => "Invalid data"
  | runtime => "Runtime error"

def isStoreLevel : ErrorKind → Bool
  | store | io | timeout => true
  | _ => false

end ErrorKind

namespace LedgerError

def message (e : LedgerError) : String := e.kind.label ++ ": " ++ e.text

def ofSystem (text : String) : LedgerError := ⟨.io, text⟩

/-- A fault in reading or writing JSON. A location at the end of its text is written anew. -/
def ofJson (text : String) : LedgerError := ⟨.serialization, (Text.Located.ofText text).toText⟩

def ofStore (text : String) : LedgerError := ⟨.store, (LedgerError.ofSystem text).message⟩

end LedgerError

def BadUuid.error (e : BadUuid) : LedgerError :=
  ⟨.invalidArgument, "patch uuid 不能为空或包含 NUL: " ++ Text.quoted e.uuid⟩

def DecodeError.error : DecodeError → LedgerError
  | misfit cause => .ofJson (cause.message?.getD "malformed text")
  | incompleteConflict member => ⟨.invalidData, "conflict record is missing `" ++ member ++ "`"⟩

end PatchLedger
