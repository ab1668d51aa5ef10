import PatchLedger.Text.Printable

/-!
Texts in quotation marks, as they stand in messages: quotation marks and
backslashes after a backslash, NUL, tab, line feed and carriage return by their
letters, other characters that are not shown by their code point in
hexadecimal.
-/

namespace PatchLedger.Text

def hexDigit (d : Nat) : Char := if d < 10 then Char.ofNat (48 + d) else Char.ofNat (87 + d)

def hexChars (n : Nat) : List Char :=
  if n < 16 then [hexDigit n] else hexChars (n / 16) ++ [hexDigit (n % 16)]

def quoteChar (c : Char) : List Char :=
  if c = '\x00' then ['\\', '0']
  else if c = '\t' then ['\\', 't']
  else if c = '\n' then ['\\', 'n']
  else if c = '\r' then ['\\', 'r']
  else if c = '\x22' ∨ c = '\\' then ['\\', c]
  else if isPrintable c then [c]
  else '\\' :: 'u' :: '\x7b' :: hexChars c.toNat ++ ['\x7d']

def quoted (s : String) : String :=
  String.ofList ('\x22' :: s.toList.flatMap quoteChar ++ ['\x22'])

end PatchLedger.Text
