/-
Synod.Toml.Value -- values and key-value pairs

A value is a text, a word, a list or an inline table.  Lists run over lines and may
end with a comma; inline tables do neither.  `value n` takes values in which lists
and inline tables are nested at most `n` deep.
-/
import Synod.Toml.Number
import Synod.Toml.Text
import Synod.Toml.Tree

namespace Synod.Toml

set_option autoImplicit false

structure Pair where
  path : List String
  key : String
  value : Document

/-- A key, perhaps dotted, and its value. -/
def pair (value : Scan Document) : Scan Pair := do
  let keys ← path
  expect '='
  blanks
  let v ← value
  blanks
  match keys.getLast? with
  | some key => return { path := keys.dropLast, key, value := v }
  | none => failure

/-- One item of a list, or its end. -/
def listItem (value : Scan Document) : Scan (List Document × Bool) := do
  gap
  if ← accept ']' then return ([], false)
  let v ← value
  gap
  if ← accept ',' then return ([v], true)
  expect ']'
  return ([v], false)

/-- One pair of an inline table; the first may be missing. -/
def tableItem (value : Scan Document) : Scan (List Pair × Bool) := do
  let p ← pair value
  if ← accept ',' then return ([p], true)
  expect '\x7d'
  return ([p], false)

def inlineTable (value : Scan Document) : Scan Document := do
  blanks
  if ← accept '\x7d' then return .table []
  let pairs ← loop (tableItem value)
  match pairs.foldlM (fun entries p => addValue p.value p.key p.path true entries) [] with
  | some entries => return .table (documents entries)
  | none => failure

/-- A value; its first character tells its kind. -/
def value (depth : Nat) : Scan Document := fun cs =>
  match cs, depth with
  | '[' :: rest, inner + 1 => (loop (listItem (value inner)) rest).map fun (items, rest) =>
    (.list items, rest)
  | '[' :: _, 0 => none
  | '\x7b' :: rest, inner + 1 => inlineTable (value inner) rest
  | '\x7b' :: _, 0 => none
  | '"' :: _, _ | '\'' :: _, _ => (text cs).map fun (s, rest) => (.text s, rest)
  | _, _ => word cs
termination_by structural depth

end Synod.Toml
