/-
Synod.Config.Schema -- configurations from documents

A record is a table, or a list of its fields in order of declaration, where fields
with a default may be missing at the end.  Fields that no record declares are
ignored.  A point in time counts as a table without declared fields.

Documents differ in one rule: whether a list may have more elements than the record
has fields.
-/
import Synod.Config.Basic
import Synod.Toml.Reader

namespace Synod.Config

set_option autoImplicit false

/-- What to do about elements after a record's last field. -/
inductive Surplus
  | ignored
  | refused
deriving DecidableEq, Repr

/-- The fields of a record, by name. -/
abbrev Fields := String → Option Document

def fields? (surplus : Surplus) (names : List String) : Document → Option Fields
  | .table entries => some fun name => entries.lookup name
  | .moment _ => some fun _ => none
  | .list items =>
    if surplus = .refused ∧ names.length < items.length then none
    else some fun name => items[names.idxOf name]?
  | _ => none

/-! ## Fields -/

/-- Every field is an unsigned number of at most 64 bits. -/
def number? : Document → Option Nat
  | .integer n => if 0 ≤ n ∧ n.toNat < UInt64.size then some n.toNat else none
  | _ => none

def text? : Document → Option String
  | .text s => some s
  | _ => none

/-- A text that may be null. -/
def nullableText? : Document → Option (Option String)
  | .null => some none
  | d => (text? d).map some

def required {α : Type} (read : Document → Option α) (field : Option Document) : Option α :=
  field.bind read

/-- A missing field has its default; one of the wrong form has not. -/
def defaulted {α : Type} (read : Document → Option α) (default : α) : Option Document → Option α
  | some d => read d
  | none => some default

/-! ## Records -/

def member? (surplus : Surplus) (d : Document) : Option MemberConfig := do
  let field ← fields? surplus ["id", "address"] d
  return {
    id := ← required text? (field "id")
    address := ← required text? (field "address") }

def members? (surplus : Surplus) : Document → Option (List MemberConfig)
  | .list items => items.mapM (member? surplus)
  | _ => none

def node? (surplus : Surplus) (d : Document) : Option NodeConfig := do
  let field ← fields? surplus ["id", "bind_address", "data_dir", "advertise_address"] d
  let id ← required text? (field "id")
  let bindAddress ← required text? (field "bind_address")
  let unset : NodeConfig := { id, bindAddress }
  return {
    id
    bindAddress
    dataDir := ← defaulted text? unset.dataDir (field "data_dir")
    advertiseAddress := ← defaulted nullableText? none (field "advertise_address") }

def cluster? (surplus : Surplus) (d : Document) : Option ClusterConfig := do
  let field ← fields? surplus ["members", "heartbeat_interval_ms", "heartbeat_timeout_ms",
    "liveness_window_ms", "liveness_poll_ms", "liveness_jitter_ms", "min_quorum", "leader"] d
  let unset : ClusterConfig := {}
  return {
    members := ← defaulted (members? surplus) unset.members (field "members")
    heartbeatInterval :=
      ← defaulted number? unset.heartbeatInterval (field "heartbeat_interval_ms")
    heartbeatTimeout := ← defaulted number? unset.heartbeatTimeout (field "heartbeat_timeout_ms")
    livenessWindow := ← defaulted number? unset.livenessWindow (field "liveness_window_ms")
    livenessPoll := ← defaulted number? unset.livenessPoll (field "liveness_poll_ms")
    livenessJitter := ← defaulted number? unset.livenessJitter (field "liveness_jitter_ms")
    minQuorum := ← defaulted number? unset.minQuorum (field "min_quorum")
    leader := ← defaulted nullableText? unset.leader (field "leader") }

def logging? (surplus : Surplus) (d : Document) : Option LoggingConfig := do
  let field ← fields? surplus ["level"] d
  let unset : LoggingConfig := {}
  return { level := ← defaulted text? unset.level (field "level") }

def ofDocument? (surplus : Surplus) (d : Document) : Option Config := do
  let field ← fields? surplus ["node", "cluster", "logging"] d
  return {
    node := ← required (node? surplus) (field "node")
    cluster := ← required (cluster? surplus) (field "cluster")
    logging := ← defaulted (logging? surplus) {} (field "logging") }

/-! ## Texts and trees -/

/-- The configuration that a TOML text stands for. -/
def ofToml (text : String) : Except Error Config :=
  match (Toml.parse text).bind (ofDocument? .ignored) with
  | some c => c.validate
  | none => .error (.configParse "not a configuration in TOML")

/-- The configuration that a JSON tree stands for. -/
def ofJson (d : Document) : Except Error Config :=
  match ofDocument? .refused d with
  | some c => c.validate
  | none => .error (.document "not a configuration")

/-- The configuration in a file, given the bytes of the file if there is one. -/
def ofFile (bytes : Option (List UInt8)) : Except Error Config :=
  match bytes with
  | none => .error (.io "no such file")
  | some bytes =>
    match String.fromUTF8? ⟨bytes.toArray⟩ with
    | some text => ofToml text
    | none => .error (.io "stream did not contain valid UTF-8")

end Synod.Config
