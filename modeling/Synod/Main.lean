/-
Synod.Main -- the program on a machine

Commands run over the file system, the network and the clock here.  What they do is
decided elsewhere: this module reads, writes, waits and hands over.

A served node is driven by one loop.  Connections put what arrives into an inbox; the
loop lets time pass in the service, gives it the inbox, keeps the store, and only
then sends.
-/
import Std.Async.DNS
import Std.Async.Signal
import Std.Async.TCP
import Std.Async.Timer
import Synod.Address
import Synod.CommandLine.Commands
import Synod.Store.Opening
import Synod.Wire.Frame

namespace Synod.Machine

set_option autoImplicit false

open Std.Async Std.Net

/-- Runs an action; where it fails, its failure is told as an error. -/
def attempt {α : Type} (tell : String → Error) (act : IO α) : IO (Except Error α) := do
  try return .ok (← act)
  catch e => return .error (tell (toString e))

/-! ## Stores -/

/-- The file of a store, and how it is used; none if the store is kept in memory. -/
def storeFile (directory : String) : Except Error (Option (String × Store.Usage)) := do
  match ← Store.Locator.ofName (Store.fileName directory) with
  | .memory => return none
  | .file path usage =>
    match String.fromUTF8? ⟨path.toArray⟩ with
    | some name => return some (name, usage)
    | none => throw Store.cannotOpen

/-- Writes a file beside the one it replaces, and moves it there. -/
def replaceFile (name : String) (bytes : List UInt8) : IO Unit := do
  let fresh := name ++ ".new"
  IO.FS.writeBinFile fresh ⟨bytes.toArray⟩
  IO.FS.rename fresh name

def keepStore (directory : String) (store : Store) : IO Unit := do
  if let .ok (some (name, _)) := storeFile directory then replaceFile name store.toImage

/-- What is found at a path; what cannot be read is taken for a directory. -/
def entryAt (path : String) : IO (Option Entry) := do
  try return some (.file (← IO.FS.readBinFile path).toList)
  catch
    | .noFileOrDirectory .. => return none
    | _ => return some (.directory false)

/-- The store in a file.  What is beside the file is looked at first, and changed
afterwards as opening it changes it. -/
def storeOf (name : String) (usage : Store.Usage) : IO (Except Error Store) := do
  let here : Location := [(namesOf (pathOf name)).getLastD []]
  let mut before : FileTree := {}
  for suffix in Store.suffixes do
    if let some entry := ← entryAt (name ++ suffix) then
      before := { before with entries := (here.beside suffix, entry) :: before.entries }
  let (opened, after) := (Store.storeAt here usage).run before
  for suffix in Store.suffixes do
    let place := here.beside suffix
    match before.entry? place, after.entry? place with
    | some _, none => IO.FS.removeFile (name ++ suffix)
    | old, some (.file bytes) =>
      if old ≠ some (.file bytes) then replaceFile (name ++ suffix) bytes
    | _, _ => pure ()
  return opened

/-- Fails if there is no file that a new one should resemble. -/
def checkModel (usage : Store.Usage) : IO Unit := do
  if let some path := usage.model then
    let some name := String.fromUTF8? ⟨path.toArray⟩ | throw (IO.userError "no such file")
    let _ ← IO.FS.Handle.mk name .read

def openStore (directory : String) : IO (Except Error Store) := ExceptT.run do
  if directory ≠ "" then ExceptT.mk (attempt .io (IO.FS.createDirAll directory))
  match ← (storeFile directory : Except Error _) with
  | none => return {}
  | some (name, usage) =>
    ExceptT.mk (attempt .storage (checkModel usage))
    let opened ← ExceptT.mk (attempt .storage (storeOf name usage))
    (opened : Except Error Store)

/-! ## Connections -/

/-- Waits for an action for so many milliseconds. -/
def within {α : Type} (duration : Nat) (act : Async α) : IO (Option α) :=
  (Async.race (some <$> act) (do sleep (.ofNat duration); return none)).block

/-- The socket addresses that an address stands for. -/
def resolve (address : String) : IO (List SocketAddress) := do
  let some address := Address.ofText? address
    | throw (IO.userError "invalid socket address")
  let some host := address.sought?
    | throw (IO.userError "invalid socket address")
  let found ← (DNS.getAddrInfo host (toString address.number)).block
  return found.toList.map fun
    | .v4 host => .v4 ⟨host, address.number⟩
    | .v6 host => .v6 ⟨host, address.number⟩

/-- The first of some socket addresses with which an action succeeds. -/
def firstOf {α : Type} (act : SocketAddress → IO α) : List SocketAddress → IO α
  | [] => throw (IO.userError "no address")
  | [address] => act address
  | address :: rest => do
    try act address
    catch _ => firstOf act rest

/-- How long dialing and writing may take, in milliseconds. -/
def patience : Nat := 5000

def dial (address : String) : IO (Except Error TCP.Socket.Client) := do
  let dialed ← attempt (.connectionFailed address) do
    firstOf (fun target => within patience do
      let socket ← TCP.Socket.Client.mk
      socket.connect target
      socket.noDelay
      return socket) (← resolve address)
  return dialed.bind fun
    | some socket => .ok socket
    | none => .error (.connectionTimeout address)

def sendOn (socket : TCP.Socket.Client) (address : String) (message : Message) :
    IO (Except Error Unit) := do
  let sent ← attempt .io (within patience (socket.send ⟨(Wire.writeFrame message).toArray⟩))
  return sent.bind fun
    | some () => .ok ()
    | none => .error (.connectionTimeout address)

/-- Sends a message on a connection of its own. -/
def send (address : String) (message : Message) : IO (Except Error Unit) := do
  match ← dial address with
  | .ok socket => sendOn socket address message
  | .error e => return .error e

/-- Sends on the connection that is kept for an address, or else on a new one. -/
def sendKept (kept : IO.Ref (Option TCP.Socket.Client)) (address : String) (message : Message) :
    IO Unit := do
  if let some socket := ← kept.get then
    if let .ok () := ← sendOn socket address message then return
    kept.set none
  if let .ok socket := ← dial address then
    if let .ok () := ← sendOn socket address message then kept.set (some socket)

/-! ## Serving -/

/-- How many bytes to wait for before a frame can be read or refused. -/
def wanted (pending : ByteArray) : Nat :=
  if pending.size < Wire.Header.size then Wire.Header.size
  else
    let header := Wire.Header.ofBytes (pending.extract 0 Wire.Header.size).toList
    if Wire.bodyLimit < header.length.toNat then Wire.Header.size
    else Wire.Header.size + header.length.toNat

/-- Puts what arrives on a connection into the inbox, up to the first frame that
cannot be read. -/
partial def attend (socket : TCP.Socket.Client) (inbox : IO.Ref (Array Message))
    (pending : ByteArray) : IO Unit := do
  if pending.size < wanted pending then
    if let some bytes := ← (socket.recv? 65536).block then
      attend socket inbox (pending ++ bytes)
  else
    let frame := pending.extract 0 (wanted pending)
    if let (.ok message, _) := Wire.readFrame frame.toList then
      inbox.modify (·.push message)
      attend socket inbox (pending.extract frame.size pending.size)

partial def accept (server : TCP.Socket.Server) (inbox : IO.Ref (Array Message)) : IO Unit := do
  let socket ← server.accept.block
  let _ ← IO.asTask (attend socket inbox ByteArray.empty) .dedicated
  accept server inbox

/-- A peer's address, its kept connection, and what is being sent there. -/
structure Route where
  address : String
  kept : IO.Ref (Option TCP.Socket.Client)
  last : IO.Ref (Task (Except IO.Error Unit))

def Route.ofAddress (address : String) : IO Route :=
  return {
    address
    kept := ← IO.mkRef none
    last := ← IO.mkRef (.pure (.ok ())) }

/-- Sends a message once what came before it is sent. -/
def Route.hand (r : Route) (message : Message) : IO Unit := do
  let next ← IO.mapTask (fun _ => sendKept r.kept r.address message) (← r.last.get)
  r.last.set next

/-- Acts on an event; the store is kept before anything is sent. -/
def act (routes : List Route) (service : Service) (event : Service.Event) : IO Service := do
  let (after, carried) := service.step event
  if after.replica.store ≠ service.replica.store then
    keepStore after.config.node.dataDir after.replica.store
  for (address, message) in carried do
    if let some route := routes.find? fun r => r.address = address then route.hand message
  return after

/-- Drives a service until it is told to stop. -/
partial def drive (routes : List Route) (inbox : IO.Ref (Array Message)) (told : BaseIO Bool)
    (started : Nat) (service : Service) : IO Unit := do
  if ← told then
    let _ ← act routes service .stop
  else
    let elapsed := (← IO.monoMsNow) - started
    let mut service := service
    if service.now < elapsed then
      service ← act routes service (.advance (elapsed - service.now))
    for message in ← inbox.modifyGet fun messages => (messages, #[]) do
      service ← act routes service (.receive message)
    IO.sleep 2
    drive routes inbox told started service

def bind (address : String) : IO TCP.Socket.Server := do
  firstOf (fun target => do
    let server ← TCP.Socket.Server.mk
    server.bind target
    server.listen 128
    return server) (← resolve address)

def serve (server : TCP.Socket.Server) (service : Service) : IO Unit := do
  let interrupt ← (← Signal.Waiter.mk .sigint false).wait
  let inbox ← IO.mkRef #[]
  let _ ← IO.asTask (accept server inbox) .dedicated
  let routes ← service.config.peers.mapM fun m => Route.ofAddress m.address
  let jitter ← IO.rand 0 service.config.cluster.livenessJitter
  let service ← act routes (service.delayPolls jitter) .start
  drive routes inbox (IO.hasFinished interrupt) (← IO.monoMsNow) service

/-! ## The program -/

instance : CommandLine.Surroundings IO where
  contents path := do
    try return some (← IO.FS.readBinFile path).toList
    catch _ => return none
  write path text := attempt .io (IO.FS.writeFile path text)
  openStore := openStore
  keepStore := keepStore
  send := send
  Listener := TCP.Socket.Server
  bind address := attempt .io (bind address)
  serve listener service := attempt .io (serve listener service)
  print := IO.print
  complain := IO.eprint

def run (args : List String) : IO UInt32 := do
  let exit : CommandLine.Exit ← CommandLine.run args
  if let .failure e := exit then IO.eprintln ("Error: " ++ e.message)
  return UInt32.ofNat exit.code

end Synod.Machine

def main (args : List String) : IO UInt32 := Synod.Machine.run args
