/-
Synod.Document.Printer -- documents as indented JSON

Every entry and item stands on a line of its own, two spaces deeper than the bracket
that opens its table or list; an empty one is a pair of brackets.  In texts, quotes,
backslashes and control characters are escaped and all else stands as it is.
-/
import Synod.Document.Basic

namespace Synod.Document

set_option autoImplicit false

/-! ## Texts -/

def hexDigit (n : Nat) : Char := if n < 10 then Char.ofNat (48 + n) else Char.ofNat (87 + n)

def escape (c : Char) : List Char :=
  if c = '"' then ['\\', '"']
  else if c = '\\' then ['\\', '\\']
  else if c = '\n' then ['\\', 'n']
  else if c = '\r' then ['\\', 'r']
  else if c = '\t' then ['\\', 't']
  else if c = '\x08' then ['\\', 'b']
  else if c = '\x0c' then ['\\', 'f']
  else if c.toNat < 32 then
    ['\\', 'u', '0', '0', hexDigit (c.toNat / 16), hexDigit (c.toNat % 16)]
  else [c]

def quote (s : String) : String :=
  "\"" ++ String.ofList (s.toList.flatMap escape) ++ "\""

/-! ## Trees -/

def indent (depth : Nat) : String := String.ofList (List.replicate (2 * depth) ' ')

/-- Lines between brackets; none of them is empty. -/
def enclose (depth : Nat) (left right : String) (lines : List String) : String :=
  if lines = [] then left ++ right
  else left ++ "\n" ++ ",\n".intercalate (lines.map (indent (depth + 1) ++ ·)) ++ "\n" ++
    indent depth ++ right

mutual

/-- A document whose first line stands `depth` levels deep. -/
def pretty (depth : Nat) : Document → String
  | .null => "null"
  | .bool b => if b then "true" else "false"
  | .integer n => if n < 0 then "-" ++ Nat.repr n.natAbs else Nat.repr n.natAbs
  | .real written | .moment written => written
  | .text s => quote s
  | .list items => enclose depth "[" "]" (prettyItems (depth + 1) items)
  | .table entries => enclose depth "\x7b" "\x7d" (prettyEntries (depth + 1) entries)

def prettyItems (depth : Nat) : List Document → List String
  | [] => []
  | d :: rest => pretty depth d :: prettyItems depth rest

def prettyEntries (depth : Nat) : List (String × Document) → List String
  | [] => []
  | (key, d) :: rest => (quote key ++ ": " ++ pretty depth d) :: prettyEntries depth rest

end

end Synod.Document
