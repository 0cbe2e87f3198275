/-
Synod.Address -- hosts and numbers on them

An address is a host and a number below 2¹⁶, with a colon between them.  Where the host
itself has colons, the last one counts.

A host that is written as a number needs no look-up.  One of the fourth version is one
to four parts with points between them: all but the last are bytes, and the last fills
what is left of the four bytes.  Each part is hexadecimal after `0x`, octal after `0`,
and decimal otherwise.  One of the sixth version is eight groups of 16 bits; two colons
once stand for groups of zeros, and the last two groups may be written as four bytes.
After a percent sign such a host may name its scope by a number below 2³².
-/

namespace Synod

set_option autoImplicit false

structure Address where
  host : String
  number : UInt16
deriving DecidableEq, Repr

namespace Address

/-! ## Numbers -/

/-- The value of a digit, whatever the base. -/
def digit? (c : Char) : Option Nat :=
  if '0' ≤ c ∧ c ≤ '9' then some (c.toNat - 48)
  else if 'a' ≤ c ∧ c ≤ 'f' then some (c.toNat - 87)
  else if 'A' ≤ c ∧ c ≤ 'F' then some (c.toNat - 55)
  else none

/-- A number of at least one digit. -/
def digits? (base : Nat) (cs : List Char) : Option Nat :=
  if cs = [] then none
  else
    cs.foldlM (fun n c =>
      (digit? c).bind fun d => if d < base then some (base * n + d) else none) 0

/-- The number of an address, perhaps with a plus sign. -/
def number? (cs : List Char) : Option UInt16 :=
  let digits := match cs with
    | '+' :: rest => rest
    | _ => cs
  (digits? 10 digits).bind fun n => if n < 65536 then some (UInt16.ofNat n) else none

/-- Reads an address.  A sign goes with no host in brackets. -/
def ofText? (text : String) : Option Address :=
  match (text.splitOn ":").reverse with
  | last :: host :: before =>
    let host := ":".intercalate (host :: before).reverse
    if host.startsWith "[" ∧ last.startsWith "+" then none
    else (number? last.toList).map fun number => { host, number }
  | _ => none

/-! ## Hosts -/

/-- Numbers of a host, in its version. -/
inductive Host
  | four (value : Nat)
  | six (groups : List Nat)
deriving DecidableEq, Repr

def part? : List Char → Option Nat
  | '0' :: c :: rest => if c = 'x' ∨ c = 'X' then digits? 16 rest else digits? 8 (c :: rest)
  | cs => digits? 10 cs

/-- A host of the fourth version, as a number of four bytes. -/
def four? (cs : List Char) : Option Nat := do
  let parts ← (cs.splitOn '.').mapM part?
  match parts.reverse with
  | [] => none
  | last :: before =>
    let room := Nat.pow 256 (4 - before.length)
    if before.length < 4 ∧ before.all (· < 256) = true ∧ last < room then
      some (before.foldr (fun part n => n * 256 + part) 0 * room + last)
    else none

/-- Four bytes, each in decimal without needless zeros. -/
def bytes? (cs : List Char) : Option (List Nat) := do
  let parts := cs.splitOn '.'
  let values ← parts.mapM (digits? 10)
  if values.length = 4 ∧ values.all (· < 256) = true ∧
      parts.all (fun part => part.head? ≠ some '0' ∨ part = ['0']) = true then some values
  else none

/-- A group, or two of them as four bytes. -/
def group? (cs : List Char) : Option (List Nat) :=
  match bytes? cs with
  | some [a, b, c, d] => some [a * 256 + b, c * 256 + d]
  | _ => if cs.length ≤ 4 then (digits? 16 cs).map ([·]) else none

/-- Groups with single colons between them; bytes stand only at the end. -/
def groups? (texts : List (List Char)) : Option (List Nat) := do
  let groups ← texts.mapM group?
  if groups.dropLast.all (fun group => group.length = 1) = true then some groups.flatten else none

/-- The groups on one side of two colons. -/
def side? (cs : List Char) : Option (List Nat) :=
  if cs = [] then some [] else groups? (cs.splitOn ':')

/-- Splits at the first two colons that stand together. -/
def gap? : List Char → Option (List Char × List Char)
  | ':' :: ':' :: rest => some ([], rest)
  | c :: rest => (gap? rest).map fun (before, after) => (c :: before, after)
  | [] => none

/-- A host of the sixth version. -/
def six? (cs : List Char) : Option (List Nat) :=
  match gap? cs with
  | none => (side? cs).bind fun groups => if groups.length = 8 then some groups else none
  | some (before, after) => do
    let before ← if '.' ∈ before then none else side? before
    let after ← side? after
    let missing := 8 - (before.length + after.length)
    if 0 < missing then some (before ++ List.replicate missing 0 ++ after) else none

/-- A host of the sixth version, perhaps with its scope, which is no part of the host. -/
def scoped? (cs : List Char) : Option (List Nat) :=
  match cs.dropWhile (· ≠ '%') with
  | [] => six? cs
  | _ :: scope =>
    if (digits? 10 scope).any (· < UInt32.size) = true then six? (cs.takeWhile (· ≠ '%')) else none

/-- The host as numbers, if it is written so; one of the sixth version may stand in
brackets. -/
def numeric? (a : Address) : Option Host :=
  match a.host.toList with
  | '[' :: rest =>
    if rest.getLast? = some ']' then (scoped? rest.dropLast).map .six else none
  | cs => ((four? cs).map Host.four).or ((scoped? cs).map .six)

/-- The host as it is looked up.  What stands in brackets has to be a number. -/
def sought? (a : Address) : Option String :=
  match a.host.toList with
  | '[' :: rest => a.numeric?.map fun _ => String.ofList rest.dropLast
  | _ => some a.host

end Address

end Synod
