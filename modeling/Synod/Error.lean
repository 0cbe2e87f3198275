/-
Synod.Error -- what can go wrong around the protocol

The protocol itself never fails: what is stale or malformed is dropped.  These are
the failures of what surrounds it.  Where a failure is told by somebody else, its
text is kept as it came.
-/
import Synod.Wire.Codec

namespace Synod

set_option autoImplicit false

inductive Error
  /-- The configuration contradicts itself. -/
  | config (reason : String)
  /-- The configuration file cannot be read as one. -/
  | configParse (reason : String)
  | storage (reason : String)
  | network (reason : String)
  | connectionFailed (address reason : String)
  | connectionTimeout (address : String)
  | decode (cause : Wire.DecodeError)
  /-- A document does not have the form that is asked for. -/
  | document (reason : String)
  | io (reason : String)
  | shuttingDown
deriving DecidableEq, Repr

def Wire.DecodeError.message : Wire.DecodeError → String
  | .truncated => "io error: unexpected end of file"
  | .notText => "string is not valid utf8"
  | .badOption tag => "tag for enum is not valid, found " ++ Nat.repr tag.toNat
  | .badKind kind =>
    "invalid value: integer \x60" ++ Nat.repr kind ++
      "\x60, expected variant index 0 <= i < 8"

namespace Error

def message : Error → String
  | .config reason => "Configuration error: " ++ reason
  | .configParse reason => "Invalid configuration file: " ++ reason
  | .storage reason => "Storage error: " ++ reason
  | .network reason => "Network error: " ++ reason
  | .connectionFailed address reason => "Connection failed to " ++ address ++ ": " ++ reason
  | .connectionTimeout address => "Connection timeout to " ++ address
  | .decode cause => "Message serialization error: " ++ cause.message
  | .document reason => "JSON error: " ++ reason
  | .io reason => "I/O error: " ++ reason
  | .shuttingDown => "Shutdown in progress"

/-- Failures of the connection may pass. -/
def retryable : Error → Bool
  | .connectionTimeout _ | .connectionFailed .. | .network _ => true
  | _ => false

end Error

end Synod
