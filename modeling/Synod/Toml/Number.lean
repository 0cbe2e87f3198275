/-
Synod.Toml.Number -- values of one word

A word is a run of letters, digits, signs, dots, colons and underscores.  It is a
truth value, an integer of at most 64 bits with its sign, a number that is no
integer, or a point in time.  Underscores stand between digits only, and a decimal
does not start with a needless zero.  A number beyond the largest finite one of 64
bits is refused.
-/
import Synod.Document.Basic
import Synod.Toml.Scan

namespace Synod.Toml

set_option autoImplicit false

/-! ## Digits -/

/-- The value of digits in a base; an underscore may stand between two of them. -/
def digitsValue? (base : Nat) : List Char → Option Nat
  | [] => none
  | c :: rest => (hexDigit? c).bind fun d => if d < base then more d rest else none
where
  more (n : Nat) : List Char → Option Nat
    | [] => some n
    | '_' :: c :: rest =>
      (hexDigit? c).bind fun d => if d < base then more (base * n + d) rest else none
    | c :: rest =>
      (hexDigit? c).bind fun d => if d < base then more (base * n + d) rest else none

def digitCount (cs : List Char) : Nat := (cs.filter digit).length

/-- A decimal without a needless leading zero. -/
def decimal? (cs : List Char) : Option Nat :=
  match cs with
  | '0' :: _ :: _ => none
  | _ => digitsValue? 10 cs

def unsign : List Char → Bool × List Char
  | '-' :: rest => (true, rest)
  | '+' :: rest => (false, rest)
  | cs => (false, cs)

/-! ## Integers -/

def integerLimit : Nat := 9223372036854775808

def integer? (word : List Char) : Option Int :=
  let within (negative : Bool) (n : Nat) : Option Int :=
    if negative then if n ≤ integerLimit then some (-(n : Int)) else none
    else if n < integerLimit then some (n : Int) else none
  match word with
  | '0' :: 'x' :: rest => (digitsValue? 16 rest).bind (within false)
  | '0' :: 'o' :: rest => (digitsValue? 8 rest).bind (within false)
  | '0' :: 'b' :: rest => (digitsValue? 2 rest).bind (within false)
  | _ =>
    let (negative, rest) := unsign word
    (decimal? rest).bind (within negative)

/-! ## Other numbers -/

/-- Half a unit in the last place above the largest finite number. -/
def overflowBound : Nat := Nat.pow 2 1024 - Nat.pow 2 970

/-- Whether `mantissa` · 10^(`up` - `down`) rounds to no finite number. -/
def overflows (mantissa up down : Nat) : Bool :=
  let size := (Nat.toDigits 10 mantissa).length + up
  if mantissa = 0 ∨ size < down + 300 then false
  else if down + 320 < size then true
  else decide (overflowBound * Nat.pow 10 (down - up) ≤ mantissa * Nat.pow 10 (up - down))

/-- The exponent, by sign; digits may start with zeros. -/
def exponent? : List Char → Option (Bool × Nat)
  | [] => none
  | cs =>
    let (negative, rest) := unsign cs
    (digitsValue? 10 rest).map fun n => (negative, n)

/-- A number with a fraction or an exponent, or without bound, or none at all. -/
def isReal (word : List Char) : Bool :=
  let (negative, rest) := unsign word
  let notE (c : Char) : Bool := c != 'e' && c != 'E'
  let head := rest.takeWhile notE
  let tail := rest.dropWhile notE
  let whole := head.takeWhile (· != '.')
  let fraction := head.dropWhile (· != '.')
  if rest = "inf".toList ∨ rest = "nan".toList then true
  else if fraction = [] ∧ tail = [] then false
  else
    match decimal? whole,
      (if fraction = [] then some 0 else digitsValue? 10 (fraction.drop 1)),
      (if tail = [] then some (false, 0) else exponent? (tail.drop 1)) with
    | some w, some f, some (down, e) =>
      let places := digitCount fraction
      let mantissa := w * Nat.pow 10 places + f
      negative || !overflows mantissa (if down then 0 else e) (places + if down then e else 0)
    | _, _, _ => false

/-! ## Points in time -/

/-- A number of exactly this many digits, within bounds. -/
def fixed? (width low high : Nat) (cs : List Char) : Option Nat :=
  if cs.length = width ∧ cs.all digit = true then
    let n := cs.foldl (fun n c => 10 * n + (c.toNat - 48)) 0
    if low ≤ n ∧ n ≤ high then some n else none
  else none

def leapYear (year : Nat) : Bool := year % 4 == 0 && (year % 100 != 0 || year % 400 == 0)

def daysIn (year month : Nat) : Nat :=
  if month = 2 then if leapYear year then 29 else 28
  else if month = 4 ∨ month = 6 ∨ month = 9 ∨ month = 11 then 30
  else 31

def isDate (cs : List Char) : Bool :=
  match fixed? 4 0 9999 (cs.take 4), (cs.drop 4).head?, fixed? 2 1 12 ((cs.drop 5).take 2),
    (cs.drop 7).head? with
  | some year, some '-', some month, some '-' =>
    (fixed? 2 1 (daysIn year month) (cs.drop 8)).isSome
  | _, _, _, _ => false

/-- A fraction of a second: nothing, or a dot and digits. -/
def isFraction : List Char → Bool
  | [] => true
  | '.' :: c :: rest => digit c && rest.all digit
  | _ => false

def isTime (cs : List Char) : Bool :=
  (fixed? 2 0 23 (cs.take 2)).isSome && (cs.drop 2).head? == some ':' &&
    (fixed? 2 0 59 ((cs.drop 3).take 2)).isSome && (cs.drop 5).head? == some ':' &&
    (fixed? 2 0 60 ((cs.drop 6).take 2)).isSome && isFraction (cs.drop 8)

def isOffset : List Char → Bool
  | ['Z'] | ['z'] => true
  | '+' :: rest | '-' :: rest =>
    (fixed? 2 0 23 (rest.take 2)).isSome && (rest.drop 2).head? == some ':' &&
      (fixed? 2 0 59 (rest.drop 3)).isSome
  | _ => false

/-- A time of day, perhaps with its offset. -/
def isOffsetTime (cs : List Char) : Bool :=
  let plain (c : Char) : Bool := digit c || c == ':' || c == '.'
  let offset := cs.dropWhile plain
  isTime (cs.takeWhile plain) && (offset == [] || isOffset offset)

def isMoment (word : List Char) : Bool :=
  isDate word || isTime word ||
    (isDate (word.take 10) && ((word.drop 10).head? == some 'T' || (word.drop 10).head? == some 't')
      && isOffsetTime (word.drop 11))

/-! ## Words -/

def wordChar (c : Char) : Bool :=
  letter c || digit c || c == '+' || c == '-' || c == '_' || c == '.' || c == ':'

def ofWord (word : List Char) : Option Document :=
  if word = "true".toList then some (.bool true)
  else if word = "false".toList then some (.bool false)
  else
    match integer? word with
    | some n => some (.integer n)
    | none =>
      if isReal word then some (.real (String.ofList word))
      else if isMoment word then some (.moment (String.ofList word))
      else none

/-- Reads a word.  A date and a time of day may have a space between them. -/
def word : Scan Document := fun cs => do
  let (first, rest) ← span wordChar cs
  match isDate first, rest with
  | true, ' ' :: c :: more =>
    if digit c then
      let (second, rest) ← span wordChar (c :: more)
      if isOffsetTime second then
        return (.moment (String.ofList (first ++ ' ' :: second)), rest)
      else none
    else return (.moment (String.ofList first), rest)
  | _, _ => return (← ofWord first, rest)

end Synod.Toml
