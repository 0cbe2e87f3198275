/-
Synod.Toml.Scan -- reading characters from the front

A scanner takes characters from the front of its input, or refuses it.  `loop`
repeats a scanner that says whether there is more to come; it goes on only while
the input gets shorter, so it ends on every input.

A line ends with a line feed, alone or after a carriage return, and a comment
runs to the end of its line.  Control characters other than the tab stand nowhere.
-/

namespace Synod.Toml

set_option autoImplicit false

abbrev Scan (α : Type) := StateT (List Char) Option α

/-! ## Characters -/

def blank (c : Char) : Bool := c == ' ' || c == '\t'

/-- What a comment may hold: anything but control characters. -/
def printable (c : Char) : Bool := c == '\t' || (' ' ≤ c && c != '\x7f')

def digit (c : Char) : Bool := '0' ≤ c && c ≤ '9'

def letter (c : Char) : Bool := ('a' ≤ c && c ≤ 'z') || ('A' ≤ c && c ≤ 'Z')

/-- The value of a hexadecimal digit. -/
def hexDigit? (c : Char) : Option Nat :=
  if digit c then some (c.toNat - 48)
  else if 'a' ≤ c ∧ c ≤ 'f' then some (c.toNat - 87)
  else if 'A' ≤ c ∧ c ≤ 'F' then some (c.toNat - 55)
  else none

/-! ## Scanners -/

/-- Takes this character. -/
def expect (c : Char) : Scan Unit
  | d :: rest => if d = c then some ((), rest) else none
  | [] => none

/-- Takes this character if it comes next, and tells whether it did. -/
def accept (c : Char) : Scan Bool
  | d :: rest => if d = c then some (true, rest) else some (false, d :: rest)
  | [] => some (false, [])

/-- Takes the longest run of characters of a class. -/
def span (p : Char → Bool) : Scan (List Char) := fun cs =>
  some (cs.takeWhile p, cs.dropWhile p)

def blanks : Scan Unit := fun cs => some ((), cs.dropWhile blank)

/-- Takes the end of a line: blanks, perhaps a comment, and a line break or the end
of the input. -/
def lineEnd : Scan Unit := fun cs =>
  let cs := cs.dropWhile blank
  let cs := match cs with
    | '#' :: rest => rest.dropWhile printable
    | _ => cs
  match cs with
  | [] => some ((), [])
  | '\n' :: rest => some ((), rest)
  | '\r' :: '\n' :: rest => some ((), rest)
  | _ => none

/-- Skips blanks, line breaks and comments. -/
def skipGap (inComment : Bool) : List Char → List Char
  | '\n' :: rest => skipGap false rest
  | '\r' :: '\n' :: rest => skipGap false rest
  | c :: rest =>
    if inComment then if printable c then skipGap true rest else c :: rest
    else if blank c then skipGap false rest
    else if c = '#' then skipGap true rest
    else c :: rest
  | [] => []

def gap : Scan Unit := fun cs => some ((), skipGap false cs)

/-- Repeats a scanner that yields items, and whether more of them follow. -/
def loop {α : Type} (step : Scan (List α × Bool)) (cs : List Char) :
    Option (List α × List Char) :=
  match step cs with
  | none => none
  | some ((items, false), rest) => some (items, rest)
  | some ((items, true), rest) =>
    if rest.length < cs.length then
      match loop step rest with
      | some (more, rest) => some (items ++ more, rest)
      | none => none
    else none
termination_by cs.length

end Synod.Toml
