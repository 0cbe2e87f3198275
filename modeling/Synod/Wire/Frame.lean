/-
Synod.Wire.Frame -- messages on a stream

A frame is a header and a body.  The header holds the length and the checksum of
the body, four bytes each; the body is one encoded message.  A reader refuses a
body longer than `bodyLimit` before it reads any of it, and a body whose checksum
is not the one announced.

Reading answers with the bytes that are left even where it fails.  A stream that
ends early leaves none.
-/
import Synod.Error
import Synod.Wire.Checksum

namespace Synod.Wire

set_option autoImplicit false

structure Header where
  length : UInt32
  checksum : UInt32
deriving DecidableEq, Repr

namespace Header

def size : Nat := 8

/-- The header for a body; the length is kept modulo 2³². -/
def ofBody (body : List UInt8) : Header where
  length := UInt32.ofNat body.length
  checksum := Checksum.checksum body

def toBytes (h : Header) : List UInt8 :=
  littleEndian 4 h.length.toNat ++ littleEndian 4 h.checksum.toNat

/-- Reads the first eight bytes. -/
def ofBytes (bytes : List UInt8) : Header where
  length := UInt32.ofNat (ofLittleEndian (bytes.take 4))
  checksum := UInt32.ofNat (ofLittleEndian ((bytes.drop 4).take 4))

def verify (h : Header) (body : List UInt8) : Bool :=
  decide (Checksum.checksum body = h.checksum)

end Header

/-- The longest body that a reader takes. -/
def bodyLimit : Nat := 16777216

def writeFrame (m : Message) : List UInt8 := (Header.ofBody (encode m)).toBytes ++ encode m

def endOfStream : Error := .io "unexpected end of file"

def readFrame (bytes : List UInt8) : Except Error Message × List UInt8 :=
  if bytes.length < Header.size then (.error endOfStream, [])
  else
    let header := Header.ofBytes bytes
    let rest := bytes.drop Header.size
    let length := header.length.toNat
    if bodyLimit < length then
      (.error (.network ("Frame of " ++ Nat.repr length ++ " bytes exceeds limit of " ++
        Nat.repr bodyLimit)), rest)
    else if rest.length < length then (.error endOfStream, [])
    else
      let body := rest.take length
      let left := rest.drop length
      if header.verify body then
        match decode body with
        | .ok m => (.ok m, left)
        | .error e => (.error (.decode e), left)
      else (.error (.network "Message checksum mismatch"), left)

theorem readFrame_length {bytes left : List UInt8} {m : Message}
    (h : readFrame bytes = (.ok m, left)) : left.length < bytes.length := by
  unfold readFrame at h
  split at h
  · simp at h
  · next long =>
    simp only at h
    split at h
    · simp at h
    · split at h
      · simp at h
      · split at h
        · split at h
          · simp only [Prod.mk.injEq] at h
            rw [← h.2, List.length_drop, List.length_drop]
            simp only [Header.size] at long ⊢
            omega
          · simp at h
        · simp at h

/-- What reading a stream frame by frame came to: it always ends with a failure, if
only because the stream is over. -/
structure Transcript where
  messages : List Message
  failure : Error
  unread : List UInt8

def readFrames (bytes : List UInt8) : Transcript :=
  match _read : readFrame bytes with
  | (.ok m, left) =>
    let later := readFrames left
    { later with messages := m :: later.messages }
  | (.error failure, left) => { messages := [], failure, unread := left }
termination_by bytes.length
decreasing_by exact readFrame_length _read

end Synod.Wire
