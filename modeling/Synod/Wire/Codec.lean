/-
Synod.Wire.Codec -- messages as bytes

A message is its kind, a 32-bit number, followed by its fields.  Numbers are
written with the lowest byte first; a round takes eight bytes, and so does the
length of a text, which precedes its UTF-8 bytes.  An optional field is a byte 0,
or a byte 1 and the field.

A reader answers with what it read and the bytes that follow, so a message may be
followed by anything.
-/
import Synod.Message

namespace Synod.Wire

set_option autoImplicit false

/-- Why bytes are no message. -/
inductive DecodeError
  | truncated
  | notText
  | badOption (tag : UInt8)
  | badKind (kind : Nat)
deriving DecidableEq, Repr

abbrev Reader (α : Type) := StateT (List UInt8) (Except DecodeError) α

/-! ## Numbers -/

/-- The `width` lowest bytes of a number, the lowest first. -/
def littleEndian : Nat → Nat → List UInt8
  | 0, _ => []
  | width + 1, n => UInt8.ofNat n :: littleEndian width (n / 256)

def ofLittleEndian (bytes : List UInt8) : Nat :=
  bytes.foldr (fun b n => b.toNat + 256 * n) 0

/-- Takes this many bytes, if there are as many. -/
def readBytes (count : Nat) : Reader (List UInt8) := fun bytes =>
  if bytes.length < count then .error .truncated
  else .ok (bytes.take count, bytes.drop count)

def readNumber (width : Nat) : Reader Nat := return ofLittleEndian (← readBytes width)

/-! ## Fields -/

def writeText (s : String) : List UInt8 :=
  littleEndian 8 s.utf8ByteSize ++ s.toUTF8.data.toList

def readText : Reader String := do
  let bytes ← readBytes (← readNumber 8)
  match String.fromUTF8? ⟨bytes.toArray⟩ with
  | some s => return s
  | none => throw .notText

def writeBallot (b : Ballot) : List UInt8 :=
  littleEndian 8 b.number.toNat ++ writeText b.owner

def readBallot : Reader Ballot := do
  let number ← readNumber 8
  let owner ← readText
  return { number := UInt64.ofNat number, owner }

def writeOption {α : Type} (write : α → List UInt8) : Option α → List UInt8
  | none => [0]
  | some x => 1 :: write x

def readOption {α : Type} (read : Reader α) : Reader (Option α) := fun bytes =>
  match bytes with
  | [] => .error .truncated
  | tag :: rest =>
    if tag = 0 then .ok (none, rest)
    else if tag = 1 then (some <$> read) rest
    else .error (.badOption tag)

/-! ## Messages -/

/-- The number of a message's kind, followed by its fields. -/
def encode : Message → List UInt8
  | .prepare sender b => littleEndian 4 0 ++ writeText sender ++ writeBallot b
  | .promise sender b accepted value =>
    littleEndian 4 1 ++ writeText sender ++ writeBallot b ++ writeOption writeBallot accepted ++
      writeOption writeText value
  | .prepareNack sender b promised =>
    littleEndian 4 2 ++ writeText sender ++ writeBallot b ++ writeBallot promised
  | .accept sender b v => littleEndian 4 3 ++ writeText sender ++ writeBallot b ++ writeText v
  | .accepted sender b v => littleEndian 4 4 ++ writeText sender ++ writeBallot b ++ writeText v
  | .acceptNack sender b promised =>
    littleEndian 4 5 ++ writeText sender ++ writeBallot b ++ writeBallot promised
  | .heartbeat sender b => littleEndian 4 6 ++ writeText sender ++ writeBallot b
  | .propose v => littleEndian 4 7 ++ writeText v

def readMessage : Reader Message := do
  match ← readNumber 4 with
  | 0 => return .prepare (← readText) (← readBallot)
  | 1 =>
    return .promise (← readText) (← readBallot) (← readOption readBallot) (← readOption readText)
  | 2 => return .prepareNack (← readText) (← readBallot) (← readBallot)
  | 3 => return .accept (← readText) (← readBallot) (← readText)
  | 4 => return .accepted (← readText) (← readBallot) (← readText)
  | 5 => return .acceptNack (← readText) (← readBallot) (← readBallot)
  | 6 => return .heartbeat (← readText) (← readBallot)
  | 7 => return .propose (← readText)
  | kind => throw (.badKind kind)

/-- The message at the front of some bytes. -/
def decode (bytes : List UInt8) : Except DecodeError Message :=
  Prod.fst <$> readMessage.run bytes

end Synod.Wire
