/-
Synod.Toml.Tree -- tables that grow line by line

A table keeps how it came about, because that decides what may be added to it:

* a table that a header names takes keys only below that header;
* a table that a header only passes through may still get a header of its own;
* a table that dotted keys made takes further dotted keys, and never a header.

Keys and headers never define the same thing twice.  A path that meets a list of
tables goes on in the last of them.
-/
import Synod.Document.Basic

namespace Synod.Toml

set_option autoImplicit false

/-- How a table came about. -/
inductive Origin
  | header
  | passed
  | dotted
deriving DecidableEq

inductive Entry
  | value (document : Document)
  | table (origin : Origin) (entries : List (String × Entry))
  /-- A list of tables, the last one first. -/
  | tables (elements : List (List (String × Entry)))

abbrev Entries := List (String × Entry)

/-- Puts an entry in the place of the one with this key. -/
def replace (entries : Entries) (key : String) (entry : Entry) : Entries :=
  entries.map fun e => if e.1 = key then (key, entry) else e

/-- Adds a value below dotted keys.  The table it lands in has to be open to it. -/
def addValue (d : Document) (key : String) : List String → Bool → Entries → Option Entries
  | [], isOpen, entries =>
    if isOpen = true ∧ entries.lookup key = none then some (entries ++ [(key, .value d)]) else none
  | k :: path, _, entries =>
    match entries.lookup k with
    | none => do
      let inner ← addValue d key path true []
      return entries ++ [(k, .table .dotted inner)]
    | some (.table .header _) => none
    | some (.table origin inner) => do
      let inner ← addValue d key path (origin = .dotted) inner
      return replace entries k (.table origin inner)
    | some (.tables (last :: before)) => do
      let last ← addValue d key path false last
      return replace entries k (.tables (last :: before))
    | some _ => none

/-- Changes the table that a header's path leads to; missing ones are passed through. -/
def below (change : Entries → Option Entries) : List String → Entries → Option Entries
  | [], entries => change entries
  | k :: path, entries =>
    match entries.lookup k with
    | none => do
      let inner ← below change path []
      return entries ++ [(k, .table .passed inner)]
    | some (.table origin inner) => do
      let inner ← below change path inner
      return replace entries k (.table origin inner)
    | some (.tables (last :: before)) => do
      let last ← below change path last
      return replace entries k (.tables (last :: before))
    | some _ => none

/-- A header for one table. -/
def openTable (key : String) (entries : Entries) : Option Entries :=
  match entries.lookup key with
  | none => some (entries ++ [(key, .table .header [])])
  | some (.table .passed inner) => some (replace entries key (.table .header inner))
  | some _ => none

/-- A header for one more element of a list of tables. -/
def openElement (key : String) (entries : Entries) : Option Entries :=
  match entries.lookup key with
  | none => some (entries ++ [(key, .tables [[]])])
  | some (.tables elements) => some (replace entries key (.tables ([] :: elements)))
  | some _ => none

/-! ## The finished tree -/

mutual

def Entry.document : Entry → Document
  | .value d => d
  | .table _ entries => .table (documents entries)
  | .tables elements => .list (elementDocuments elements).reverse

def documents : List (String × Entry) → List (String × Document)
  | [] => []
  | (key, e) :: rest => (key, e.document) :: documents rest

def elementDocuments : List (List (String × Entry)) → List Document
  | [] => []
  | entries :: rest => .table (documents entries) :: elementDocuments rest

end

end Synod.Toml
