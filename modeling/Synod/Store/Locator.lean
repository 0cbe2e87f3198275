/-
Synod.Store.Locator -- what the name of a store's file stands for

A name is a path, unless it starts with `file:`.  Then it is a locator:

    file:[//authority]path[?option=value&...][#fragment]

The authority is this machine, and the fragment is ignored.  Path, options and values
may hold any byte as `%` and two hexadecimal digits; a zero byte cuts off the rest of
the part that it stands in.  A separator counts only where it is written as itself.

Options say how the file is used:

* `mode` and `cache` are taken from the left; a mode may not grant more than the one
  before it;
* of several `vfs` the last one counts, and of all others the first one;
* an option without a name, and any option not mentioned here, is ignored.

A store that has no path, or the path `:memory:`, is kept in memory.
-/
import Synod.Store.Image

namespace Synod.Store

set_option autoImplicit false

/-- What may be done to the file of a store. -/
inductive Access
  /-- The file is there, and stays as it is. -/
  | reading
  /-- The file is there. -/
  | writing
  /-- The file is made if it is missing. -/
  | creating
deriving DecidableEq, Repr

/-- Where the file of a store is locked while it is used. -/
inductive Locking
  /-- In the file itself. -/
  | itself
  /-- By a directory beside it. -/
  | beside
  /-- Nowhere, but others lock it by a directory beside it. -/
  | besideOthers
  | nowhere
deriving DecidableEq, Repr

/-- Where the index of a log of changes is kept while the log is used. -/
inductive LogIndex
  /-- There can be none, so a log is of no use. -/
  | missing
  | inMemory
  /-- In a file beside the log, which may have to stay as it is. -/
  | beside (fixed : Bool)
deriving DecidableEq, Repr

/-- How the file of a store is used. -/
structure Usage where
  access : Access := .creating
  /-- Whether nobody changes the file, so that nothing beside it matters. -/
  frozen : Bool := false
  /-- A path that has to lead to something, whose permissions a new file gets. -/
  model : Option (List UInt8) := none
  locking : Locking := .itself
  index : LogIndex := .beside false
deriving DecidableEq, Repr

/-- Where a store is kept. -/
inductive Locator
  | memory
  | file (path : List UInt8) (usage : Usage)
deriving DecidableEq, Repr

def cannotOpen : Error := .storage "unable to open store"

/-- The bytes of a store in those of its file.  A file of a single byte is as good as an
empty one: the byte only holds the place. -/
def held : List UInt8 → List UInt8
  | [_] => []
  | bytes => bytes

/-- The store in the bytes held by a file.  An empty file becomes a store when it is opened,
unless nothing may be written. -/
def Usage.store (u : Usage) : List UInt8 → Except Error Store
  | [] =>
    if u.access = .reading ∨ u.frozen = true then .error (.storage "store is read-only")
    else .ok {}
  | bytes => ofImage bytes

namespace Locator

/-! ## Parts -/

/-- Bytes as they are written in text; all that is looked for in a locator is ASCII. -/
def ascii (text : String) : List UInt8 := text.toUTF8.toList

def ofChar (c : Char) : UInt8 := UInt8.ofNat c.toNat

/-- The value of a hexadecimal digit. -/
def hexDigit? (b : UInt8) : Option UInt8 :=
  if ofChar '0' ≤ b ∧ b ≤ ofChar '9' then some (b - ofChar '0')
  else if ofChar 'a' ≤ b ∧ b ≤ ofChar 'f' then some (b - ofChar 'a' + 10)
  else if ofChar 'A' ≤ b ∧ b ≤ ofChar 'F' then some (b - ofChar 'A' + 10)
  else none

/-- Reads bytes that are written as digits; a zero among them ends the part. -/
def unescape : List UInt8 → List UInt8
  | [] => []
  | b :: high :: low :: rest =>
    if b = ofChar '%' then
      match hexDigit? high, hexDigit? low with
      | some h, some l => if h * 16 + l = 0 then [] else (h * 16 + l) :: unescape rest
      | _, _ => b :: unescape (high :: low :: rest)
    else b :: unescape (high :: low :: rest)
  | b :: rest => b :: unescape rest

/-- What stands before the first such byte. -/
def upTo (b : UInt8) (bytes : List UInt8) : List UInt8 := bytes.takeWhile (· ≠ b)

/-- What stands after the first such byte. -/
def after (b : UInt8) (bytes : List UInt8) : List UInt8 := (bytes.dropWhile (· ≠ b)).tail

/-- Options with their values, in order; an option that has none has the empty value. -/
def options (query : List UInt8) : List (List UInt8 × List UInt8) :=
  ((query.splitOn (ofChar '&')).map fun option =>
    (unescape (upTo (ofChar '=') option), unescape (after (ofChar '=') option))).filter
      fun option => option.1 ≠ []

/-- The path of a locator after its authority. -/
def local? (body : List UInt8) : Option (List UInt8) :=
  match body with
  | 0x2F :: 0x2F :: rest =>
    let authority := upTo (ofChar '/') rest
    if authority = [] ∨ authority = ascii "localhost" then some (rest.drop authority.length)
    else none
  | _ => some body

/-! ## Values of options -/

abbrev Options := List (List UInt8 × List UInt8)

/-- The value of the first option of a name. -/
def first? (options : Options) (name : String) : Option (List UInt8) :=
  options.lookup (ascii name)

/-- The digits that bytes start with. -/
def leading (base : UInt8) (bytes : List UInt8) : List UInt8 :=
  (bytes.map hexDigit?).takeWhile (fun digit => digit.any (· < base)) |>.filterMap id

def valueOf (base : Nat) (digits : List UInt8) : Nat :=
  digits.foldl (fun n digit => base * n + digit.toNat) 0

/-- The number that bytes start with, hexadecimal after `0x`; one of more than 31 bits is
taken for zero. -/
def numberOf (bytes : List UInt8) : Nat :=
  let value := match bytes with
    | 0x30 :: x :: rest =>
      if (x = ofChar 'x' ∨ x = ofChar 'X') ∧ leading 16 rest ≠ [] then valueOf 16 (leading 16 rest)
      else valueOf 10 (leading 10 bytes)
    | _ => valueOf 10 (leading 10 bytes)
  if value < Nat.pow 2 31 then value else 0

def lower (b : UInt8) : UInt8 := if ofChar 'A' ≤ b ∧ b ≤ ofChar 'Z' then b + 32 else b

/-- Whether a value means yes: a number whose lowest byte is not zero, or a word. -/
def affirms (value : List UInt8) : Bool :=
  if leading 10 (value.take 1) ≠ [] then numberOf value % 256 ≠ 0
  else (["on", "yes", "true"].map ascii).contains (value.map lower)

/-- Whether the first option of a name means yes. -/
def flag (options : Options) (name : String) : Bool := (first? options name).any affirms

/-! ## Use -/

/-- What a mode grants after another; none is a store in memory. -/
def mode? (granted : Option Access) (value : List UInt8) : Option (Option Access) :=
  if value = ascii "memory" then some none
  else if value = ascii "ro" then some (some .reading)
  else if value = ascii "rw" then
    if granted = some .reading then none else some (some .writing)
  else if value = ascii "rwc" then
    if granted = some .reading ∨ granted = some .writing then none else some (some .creating)
  else none

/-- What options grant. -/
def granted? (options : Options) : Option (Option Access) :=
  options.foldlM (fun granted (name, value) =>
    if name = ascii "mode" then mode? granted value
    else if name = ascii "cache" ∧ value ≠ ascii "shared" ∧ value ≠ ascii "private" then none
    else some granted) (some .creating)

/-- A way to reach files. -/
inductive FileSystem
  /-- The usual one. -/
  | shared
  /-- Lets nobody else change a file while it is written. -/
  | exclusive
  | lockingBeside
  | unlocked
  /-- Keeps its files in memory. -/
  | volatile
deriving DecidableEq, Repr

/-- Where files are locked, if they are to be. -/
def FileSystem.locking (locks : Bool) : FileSystem → Locking
  | .lockingBeside => if locks then .beside else .besideOthers
  | .shared | .exclusive => if locks then .itself else .nowhere
  | .unlocked | .volatile => .nowhere

/-- Where the index of a log is.  A file has to be locked in itself for a log, and one that
nobody else changes needs no index that others could see. -/
def FileSystem.index (locks fixed : Bool) (access : Access) : FileSystem → LogIndex
  | .shared => if locks then .beside fixed else .missing
  | .exclusive =>
    if locks then (if access = .reading then .beside fixed else .inMemory) else .missing
  | .lockingBeside | .unlocked | .volatile => .missing

/-- How long a path in memory may be. -/
def volatileLimit : Nat := 1016

def fileSystem? (options : Options) : Option FileSystem :=
  match (options.filter fun option => option.1 = ascii "vfs").getLast? with
  | none => some .shared
  | some (_, value) =>
    if value = ascii "unix" then some .shared
    else if value = ascii "unix-excl" then some .exclusive
    else if value = ascii "unix-none" then some .unlocked
    else if value = ascii "unix-dotfile" then some .lockingBeside
    else if value = ascii "memdb" then some .volatile
    else none

/-- A store in memory is new, so it cannot be one that stays as it is. -/
def volatile? (access : Access) (frozen : Bool) : Option Locator :=
  if access = .reading ∨ frozen = true then none else some .memory

/-- The locator of a path with options. -/
def ofParts? (path : List UInt8) (options : Options) : Option Locator := do
  let system ← fileSystem? options
  match ← granted? options with
  | none => some .memory
  | some access =>
    let frozen := flag options "immutable"
    let locks := !flag options "nolock"
    if path = [] ∨ path = ascii ":memory:" then volatile? access false
    else if system = .volatile then
      if path.length ≤ volatileLimit then volatile? access frozen else none
    else
      some (.file path {
        access, frozen
        model := first? options "modeof"
        locking := system.locking locks
        index := system.index locks (flag options "readonly_shm") access })

/-- The locator that follows `file:`. -/
def ofBody? (body : List UInt8) : Option Locator := do
  let here := upTo (ofChar '#') (← local? body)
  ofParts? (unescape (upTo (ofChar '?') here)) (options (after (ofChar '?') here))

/-- What a name stands for. -/
def ofName (name : List UInt8) : Except Error Locator :=
  if (ascii "file:").isPrefixOf name then
    match ofBody? (name.drop 5) with
    | some l => .ok l
    | none => .error (.storage "store locator is malformed")
  else .ok (.file name {})

end Locator

/-- The name of a store's file in its data directory. -/
def fileName (directory : String) : List UInt8 :=
  (if directory = "" ∨ directory.endsWith "/" then directory ++ "acceptor.db"
    else directory ++ "/acceptor.db").toUTF8.toList

end Synod.Store
