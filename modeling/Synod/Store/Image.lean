/-
Synod.Store.Image -- a store as the bytes of a file

An image is a signature and the two rows of a store, each of them optional, with their
fields in the form of the wire.  That a table is broken is no part of it.  The
signature starts with a byte that starts no text, so no text is an image.
-/
import Synod.Store

namespace Synod.Store

set_option autoImplicit false

open Wire

def writeSnapshot (s : Snapshot) : List UInt8 :=
  writeOption writeBallot s.promised ++ writeOption writeBallot s.accepted ++
    writeOption writeText s.value

def readSnapshot : Reader Snapshot :=
  return {
    promised := ← readOption readBallot
    accepted := ← readOption readBallot
    value := ← readOption readText }

def writeDecision (d : Ballot × Value) : List UInt8 := writeBallot d.1 ++ writeText d.2

def readDecision : Reader (Ballot × Value) := return (← readBallot, ← readText)

def signature : List UInt8 := 0x89 :: "synod store 1\n".toUTF8.toList

def toImage (s : Store) : List UInt8 :=
  signature ++ writeOption writeSnapshot (s.stateRow.map StateRow.toSnapshot) ++
    writeOption writeDecision (s.resolutionRow.map ResolutionRow.toDecision)

def readImage : Reader Store :=
  return {
    stateRow := (← readOption readSnapshot).map StateRow.ofSnapshot
    resolutionRow := (← readOption readDecision).map fun d => ResolutionRow.ofDecision d.1 d.2 }

def notAStore : Error := .storage "file is not a store"

/-- The store that an image holds; bytes that follow it are refused. -/
def ofImage (bytes : List UInt8) : Except Error Store :=
  if signature.isPrefixOf bytes then
    match readImage.run (bytes.drop signature.length) with
    | .ok (s, []) => .ok s
    | .ok (_, _ :: _) => .error notAStore
    | .error _ => .error notAStore
  else .error notAStore

end Synod.Store
