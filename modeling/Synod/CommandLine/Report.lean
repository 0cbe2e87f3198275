/-
Synod.CommandLine.Report -- what commands print

Each report is a text of whole lines.  The durable state of a node can be shown as
lines for a reader or as JSON.
-/
import Synod.Config.Template
import Synod.Config.Basic
import Synod.Document.Printer

namespace Synod.CommandLine

set_option autoImplicit false

open Config (linesOf)

def versionReport : String := linesOf ["wolfpaxos 0.1.0"]

def helpReport : String :=
  linesOf ["Usage: wolfpaxos [OPTIONS] <start|propose|init|validate|status>"]

def initReport (output : String) : String :=
  linesOf [
    "Configuration file created: " ++ output,
    "",
    "Edit the file to list every cluster member.",
    "Then start with: wolfpaxos start --config " ++ output]

def proposeReport (address value : String) : String :=
  linesOf ["Proposed \"" ++ value ++ "\" to " ++ address]

def validateReport (c : Config) : String :=
  linesOf [
    "✓ Configuration is valid",
    "  Node ID: " ++ c.node.id,
    "  Bind Address: " ++ c.node.bindAddress,
    "  Peers: " ++ Nat.repr c.peers.length,
    "  Quorum Size: " ++ Nat.repr c.quorumSize,
    "  Initial Leader: " ++ c.cluster.leader.getD "(elected)"]

/-! ## Status -/

/-- What a node's store holds; an empty store holds the empty snapshot. -/
structure Status where
  config : Config
  snapshot : Snapshot
  resolution : Option (Ballot × Value)

namespace Status

def ballotText : Option Ballot → String
  | some b => b.render
  | none => "-"

def report (s : Status) : String :=
  linesOf [
    "WolfPaxos Node Status",
    "=====================",
    "",
    "Node ID:          " ++ s.config.node.id,
    "Data Directory:   " ++ s.config.node.dataDir,
    "",
    "Acceptor:",
    "  Promised:       " ++ ballotText s.snapshot.promised,
    "  Accepted:       " ++ ballotText s.snapshot.accepted,
    "  Value:          " ++ s.snapshot.value.getD "-",
    "",
    match s.resolution with
    | some (b, v) => "Resolved:         " ++ v ++ " at " ++ b.render
    | none => "Resolved:         (not yet)"]

def ballotDocument (b : Ballot) : Document :=
  .table [("number", .integer b.number.toNat), ("owner_id", .text b.owner)]

def orNull {α : Type} (write : α → Document) : Option α → Document
  | some x => write x
  | none => .null

/-- Entries are in alphabetical order. -/
def document (s : Status) : Document :=
  .table [
    ("acceptor", .table [
      ("accepted_id", orNull ballotDocument s.snapshot.accepted),
      ("accepted_value", orNull .text s.snapshot.value),
      ("promised_id", orNull ballotDocument s.snapshot.promised)]),
    ("node_id", .text s.config.node.id),
    ("resolution", orNull
      (fun r : Ballot × Value => .table [("proposal_id", ballotDocument r.1), ("value", .text r.2)])
      s.resolution)]

def jsonReport (s : Status) : String := s.document.pretty 0 ++ "\n"

end Status

end Synod.CommandLine
