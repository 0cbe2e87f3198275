/-
Synod.Toml.Text -- quoted texts and keys

A text is basic, in double quotes and with escapes, or literal, in single quotes.
Tripled quotes let a text run over lines: a line break right after the opening
quotes is dropped, every other one is read as a line feed, and up to two quotes may
stand at the end of the text.  In a basic text of this kind, a backslash at the end
of a line drops the line break and all blanks and line breaks after it.
-/
import Synod.Toml.Scan

namespace Synod.Toml

set_option autoImplicit false

/-! ## Escapes -/

/-- The character with this code, if the digits are hexadecimal and name one. -/
def charOfHex (digits : List Char) : Option Char := do
  let values ← digits.mapM hexDigit?
  let code := values.foldl (fun n d => 16 * n + d) 0
  if code < 0xD800 ∨ (0xDFFF < code ∧ code < 0x110000) then some (Char.ofNat code) else none

/-- What a backslash and one letter stand for. -/
def escapeLetter? : Char → Option Char
  | 'b' => some '\x08'
  | 't' => some '\t'
  | 'n' => some '\n'
  | 'f' => some '\x0c'
  | 'r' => some '\r'
  | '"' => some '"'
  | '\\' => some '\\'
  | _ => none

/-- What a text may hold as it is, beside its own quotes. -/
def basicChar (c : Char) : Bool := printable c && c != '"' && c != '\\'

def literalChar (c : Char) : Bool := printable c && c != '\''

/-! ## Texts on one line

Each reads the rest of a text, after its opening quotes. -/

def basicRest : List Char → Option (List Char × List Char)
  | '"' :: rest => some ([], rest)
  | '\\' :: 'u' :: a :: b :: c :: d :: rest => do
    let x ← charOfHex [a, b, c, d]
    let (xs, rest) ← basicRest rest
    return (x :: xs, rest)
  | '\\' :: 'U' :: a :: b :: c :: d :: e :: f :: g :: h :: rest => do
    let x ← charOfHex [a, b, c, d, e, f, g, h]
    let (xs, rest) ← basicRest rest
    return (x :: xs, rest)
  | '\\' :: c :: rest => do
    let x ← escapeLetter? c
    let (xs, rest) ← basicRest rest
    return (x :: xs, rest)
  | c :: rest =>
    if basicChar c then do
      let (xs, rest) ← basicRest rest
      return (c :: xs, rest)
    else none
  | [] => none

def literalRest : Scan (List Char) := do
  let xs ← span literalChar
  expect '\''
  return xs

/-! ## Texts over several lines -/

/-- Where a text stands after a backslash that ends its line. -/
inductive Break
  | no
  /-- The backslash was read, the line break was not. -/
  | pending
  /-- The line break was read; blanks and further breaks are dropped. -/
  | done
deriving DecidableEq

def multiBasicRest (b : Break) : List Char → Option (List Char × List Char)
  | '\n' :: rest =>
    if b = .no then do
      let (xs, rest) ← multiBasicRest .no rest
      return ('\n' :: xs, rest)
    else multiBasicRest .done rest
  | '\r' :: '\n' :: rest =>
    if b = .no then do
      let (xs, rest) ← multiBasicRest .no rest
      return ('\n' :: xs, rest)
    else multiBasicRest .done rest
  | '"' :: '"' :: '"' :: '"' :: '"' :: rest =>
    if b = .pending then none else some (['"', '"'], rest)
  | '"' :: '"' :: '"' :: '"' :: rest => if b = .pending then none else some (['"'], rest)
  | '"' :: '"' :: '"' :: rest => if b = .pending then none else some ([], rest)
  | '"' :: rest =>
    if b = .pending then none
    else do
      let (xs, rest) ← multiBasicRest .no rest
      return ('"' :: xs, rest)
  | '\\' :: 'u' :: a₀ :: a₁ :: a₂ :: a₃ :: rest =>
    if b = .pending then none
    else do
      let x ← charOfHex [a₀, a₁, a₂, a₃]
      let (xs, rest) ← multiBasicRest .no rest
      return (x :: xs, rest)
  | '\\' :: 'U' :: a₀ :: a₁ :: a₂ :: a₃ :: a₄ :: a₅ :: a₆ :: a₇ :: rest =>
    if b = .pending then none
    else do
      let x ← charOfHex [a₀, a₁, a₂, a₃, a₄, a₅, a₆, a₇]
      let (xs, rest) ← multiBasicRest .no rest
      return (x :: xs, rest)
  | '\\' :: '\n' :: rest => if b = .pending then none else multiBasicRest .done rest
  | '\\' :: '\r' :: '\n' :: rest => if b = .pending then none else multiBasicRest .done rest
  | '\\' :: c :: rest =>
    if b = .pending then none
    else if blank c then multiBasicRest .pending rest
    else do
      let x ← escapeLetter? c
      let (xs, rest) ← multiBasicRest .no rest
      return (x :: xs, rest)
  | c :: rest =>
    if b ≠ .no ∧ blank c = true then multiBasicRest b rest
    else if b = .pending then none
    else if basicChar c then do
      let (xs, rest) ← multiBasicRest .no rest
      return (c :: xs, rest)
    else none
  | [] => none

def multiLiteralRest : List Char → Option (List Char × List Char)
  | '\n' :: rest => do
    let (xs, rest) ← multiLiteralRest rest
    return ('\n' :: xs, rest)
  | '\r' :: '\n' :: rest => do
    let (xs, rest) ← multiLiteralRest rest
    return ('\n' :: xs, rest)
  | '\'' :: '\'' :: '\'' :: '\'' :: '\'' :: rest => some (['\'', '\''], rest)
  | '\'' :: '\'' :: '\'' :: '\'' :: rest => some (['\''], rest)
  | '\'' :: '\'' :: '\'' :: rest => some ([], rest)
  | '\'' :: rest => do
    let (xs, rest) ← multiLiteralRest rest
    return ('\'' :: xs, rest)
  | c :: rest =>
    if literalChar c then do
      let (xs, rest) ← multiLiteralRest rest
      return (c :: xs, rest)
    else none
  | [] => none

/-- Drops the line break right after tripled quotes. -/
def dropBreak : List Char → List Char
  | '\n' :: rest => rest
  | '\r' :: '\n' :: rest => rest
  | cs => cs

/-! ## Quoted values and keys -/

/-- A text on one line, its quotes included. -/
def lineText : Scan String
  | '"' :: rest => (basicRest rest).map fun (xs, rest) => (String.ofList xs, rest)
  | '\'' :: rest => (literalRest rest).map fun (xs, rest) => (String.ofList xs, rest)
  | _ => none

def text : Scan String
  | '"' :: '"' :: '"' :: rest =>
    (multiBasicRest .no (dropBreak rest)).map fun (xs, rest) => (String.ofList xs, rest)
  | '\'' :: '\'' :: '\'' :: rest =>
    (multiLiteralRest (dropBreak rest)).map fun (xs, rest) => (String.ofList xs, rest)
  | cs => lineText cs

def bareChar (c : Char) : Bool := letter c || digit c || c == '-' || c == '_'

/-- One key: bare, or a text on one line. -/
def key : Scan String := fun cs =>
  match cs with
  | '"' :: _ | '\'' :: _ => lineText cs
  | _ =>
    match span bareChar cs with
    | some ([], _) | none => none
    | some (xs, rest) => some (String.ofList xs, rest)

/-- How many keys a path may have, and how deeply values may be nested. -/
def depthLimit : Nat := 79

/-- Keys with dots between them. -/
def path : Scan (List String) := fun cs => do
  let (keys, rest) ← loop (do
    blanks
    let k ← key
    blanks
    return ([k], ← accept '.')) cs
  if keys.length ≤ depthLimit then some (keys, rest) else none

end Synod.Toml
