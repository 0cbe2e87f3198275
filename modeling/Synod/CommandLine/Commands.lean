/-
Synod.CommandLine.Commands -- what commands do

Commands are written against `Surroundings`: files, stores, other nodes and the two
outputs.  They run the same over a `World` and over the machine.

A command that fails ends with its error; it has printed nothing on the first output
by then.
-/
import Synod.CommandLine.Arguments
import Synod.CommandLine.Report
import Synod.Config.Schema
import Synod.Service

namespace Synod.CommandLine

set_option autoImplicit false

class Surroundings (m : Type → Type) where
  /-- An address that is bound. -/
  Listener : Type
  /-- The bytes of a file, if there is one to read. -/
  contents (path : String) : m (Option (List UInt8))
  write (path text : String) : m (Except Error Unit)
  /-- Opens the store of a data directory, and creates both where they are missing. -/
  openStore (directory : String) : m (Except Error Store)
  /-- Puts a store back into its data directory. -/
  keepStore (directory : String) (store : Store) : m Unit
  /-- Sends a message to an address. -/
  send (address : String) (message : Message) : m (Except Error Unit)
  bind (address : String) : m (Except Error Listener)
  /-- Serves at an address until it is told to stop. -/
  serve (listener : Listener) (service : Service) : m (Except Error Unit)
  print (text : String) : m Unit
  complain (text : String) : m Unit

/-- How the program ends. -/
inductive Exit
  | success
  | usage
  | failure (error : Error)
  /-- The service broke off at its start. -/
  | abort
deriving DecidableEq, Repr

def Exit.code : Exit → Nat
  | .success => 0
  | .failure _ => 1
  | .usage => 2
  | .abort => 101

variable {m : Type → Type} [Monad m] [Surroundings m]

open Surroundings

def readConfig (path : String) : ExceptT Error m Config := do
  Config.ofFile (← liftM (contents path : m _))

def runStart (path : String) (proposal : Option String) : ExceptT Error m Exit := do
  let config ← readConfig path
  let store ← ExceptT.mk (openStore (m := m) config.node.dataDir)
  let created ← ExceptT.mk (pure (Service.create config store) : m _)
  let service := match proposal with
    | some value => created.act (.propose value)
    | none => created
  liftM (keepStore config.node.dataDir service.replica.store : m _)
  let listener ← ExceptT.mk (bind (m := m) config.node.bindAddress)
  if service.sustainable then
    ExceptT.mk (serve listener service)
    return .success
  else
    liftM (complain "A heartbeat interval of 0 cannot be kept\n" : m _)
    return .abort

def runPropose (address value : String) : ExceptT Error m Unit := do
  match ← liftM (send address (.propose value) : m _) with
  | .ok () => liftM (print (proposeReport address value) : m _)
  | .error e =>
    liftM (complain ("Failed to reach " ++ address ++ ": " ++ e.message ++ "\n") : m _)
    throw e

def runInit (output nodeId : String) : ExceptT Error m Unit := do
  ExceptT.mk (write output (Config.template nodeId))
  liftM (print (initReport output) : m _)

def runValidate (path : String) : ExceptT Error m Unit := do
  match ← liftM (readConfig path : ExceptT Error m Config).run with
  | .ok config => liftM (print (validateReport config) : m _)
  | .error e =>
    liftM (complain ("✗ Configuration error: " ++ e.message ++ "\n") : m _)
    throw e

def runStatus (path : String) (json : Bool) : ExceptT Error m Unit := do
  let config ← readConfig path
  let store ← ExceptT.mk (openStore (m := m) config.node.dataDir)
  let snapshot ← ExceptT.mk (pure store.load : m _)
  let resolution ← ExceptT.mk (pure store.resolution : m _)
  let status : Status := { config, snapshot := snapshot.getD {}, resolution }
  liftM (print (if json then status.jsonReport else status.report) : m _)

def runCommand (i : Invocation) : ExceptT Error m Exit :=
  match i.command with
  | .start proposal => runStart i.config proposal
  | .propose address value => do runPropose address value; return .success
  | .init output nodeId => do runInit output nodeId; return .success
  | .validate => do runValidate i.config; return .success
  | .status json => do runStatus i.config json; return .success

def run (args : List String) : m Exit := do
  match parse args with
  | .error .version => print versionReport; return .success
  | .error .help => print helpReport; return .success
  | .error .usage => complain helpReport; return .usage
  | .ok invocation =>
    match ← (runCommand invocation).run with
    | .ok exit => return exit
    | .error e => return .failure e

end Synod.CommandLine
