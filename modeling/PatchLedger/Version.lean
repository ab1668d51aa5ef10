/-!
The version of the ledger, and its text with the revision it was built from.
-/

namespace PatchLedger.Version

def number : String := "0.1.0"

def withRevision (revision : String) : String := number ++ " (" ++ revision ++ ")"

end PatchLedger.Version
