/-
Synod.Toml.Reader -- TOML 1.0 texts as documents

A text is a sequence of statements, each on a line of its own: a header for a table,
a header for one more element of a list of tables, or a key-value pair for the table
that the last header opened.  A byte order mark in front is skipped.

`parse` answers with the tree a text stands for, and with nothing where the text is
no TOML.
-/
import Synod.Toml.Value

namespace Synod.Toml

set_option autoImplicit false

inductive Statement
  /-- A header for one table, by the path to it and its key. -/
  | table (path : List String) (key : String)
  /-- A header for one more element of a list of tables. -/
  | element (path : List String) (key : String)
  | pair (pair : Pair)

/-- The path and the key of a header, between its brackets. -/
def headerPath : Scan (List String × String) := do
  let keys ← path
  match keys.getLast? with
  | some key => return (keys.dropLast, key)
  | none => failure

/-- One line: a statement, or none, and whether more lines may follow. -/
def line : Scan (List Statement × Bool) := do
  blanks
  match ← get with
  | [] => return ([], false)
  | '\n' :: _ | '\r' :: _ | '#' :: _ =>
    lineEnd
    return ([], true)
  | '[' :: '[' :: rest =>
    set rest
    let (path, key) ← headerPath
    expect ']'
    expect ']'
    lineEnd
    return ([.element path key], true)
  | '[' :: rest =>
    set rest
    let (path, key) ← headerPath
    expect ']'
    lineEnd
    return ([.table path key], true)
  | _ =>
    let p ← pair (value depthLimit)
    lineEnd
    return ([.pair p], true)

/-- A tree that is being read, and the path to the table that pairs go into. -/
structure Growth where
  entries : Entries := []
  current : List String := []

def Growth.add (g : Growth) : Statement → Option Growth
  | .table path key => do
    let entries ← below (openTable key) path g.entries
    return { entries, current := path ++ [key] }
  | .element path key => do
    let entries ← below (openElement key) path g.entries
    return { entries, current := path ++ [key] }
  | .pair p => do
    let entries ← below (addValue p.value p.key p.path true) g.current g.entries
    return { g with entries }

def statements (cs : List Char) : Option (List Statement) :=
  let cs := match cs with
    | '\ufeff' :: rest => rest
    | _ => cs
  (loop line cs).map Prod.fst

def parse (text : String) : Option Document := do
  let g ← (← statements text.toList).foldlM Growth.add {}
  return .table (documents g.entries)

end Synod.Toml
