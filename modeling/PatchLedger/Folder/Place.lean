/-!
Places below a directory, and the file names that lead to them. A file name is a
path: its parts stand between separators, and a part that is empty or `.` leads
nowhere. Which place a path leads to depends on what stands on the way.
-/

namespace PatchLedger

/-- The names on the way from the directory down to a place. Outside of the directory they begin
with a `..` for each step up, or with `/` for the root. -/
abbrev Place := List String

namespace Place

def parent : Place → Place
  | [] => [".."]
  | ["/"] => ["/"]
  | place => if place.getLast? = some ".." then place ++ [".."] else place.dropLast

def text (place : Place) : String := "/".intercalate place

end Place

structure Path where
  isAbsolute : Bool
  written : List String

namespace Path

def ofName (fileName : String) : Path := ⟨fileName.startsWith "/", fileName.splitOn "/"⟩

def isVoid (part : String) : Bool := part = "" || part = "."

def parts (p : Path) : List String := p.written.filter fun part => !isVoid part

def start (p : Path) : Place := if p.isAbsolute then ["/"] else []

def trimmed (p : Path) : Path :=
  { p with written := (p.written.reverse.dropWhile isVoid).reverse }

def parent (p : Path) : Path := { p with written := p.trimmed.written.dropLast }.trimmed

def lastParts (p : Path) : List String := p.parts.drop p.parent.parts.length

/-- The path ends in a part that leads somewhere, or in the one separator after it. -/
def endsPlainly (p : Path) : Bool :=
  p.trimmed.written = p.written || p.trimmed.written ++ [""] = p.written

def hasNul (p : Path) : Bool := p.written.any fun part => part.contains '\x00'

/-- The bytes of the path, below a directory whose own path has `base` bytes. -/
def size (p : Path) (base : Nat) : Nat :=
  let written := p.written.foldl (fun bytes part => bytes + part.utf8ByteSize + 1) 0
  if p.isAbsolute then written - 1 else base + written

end Path

end PatchLedger
