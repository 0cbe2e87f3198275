/-
Synod.CommandLine.World -- surroundings as a value

A world holds a tree of files and the outputs so far.  Commands that run over it change
nothing but the world, so all that they do can be looked at afterwards.

Messages arrive at once where somebody listens.  Nobody comes to a node that is served
in a world, so it is stopped at once.
-/
import Synod.Address
import Synod.CommandLine.Commands
import Synod.FileTree
import Synod.Link
import Synod.Store.Opening

namespace Synod.CommandLine

set_option autoImplicit false

structure World where
  tree : FileTree := {}
  network : Network := {}
  /-- The messages that were sent, with their addresses. -/
  arrived : List (String × Message) := []
  output : String := ""
  complaints : String := ""

namespace World

/-! ## Files -/

def contents (w : World) (path : String) : Option (List UInt8) := w.tree.contents? (pathOf path)

def put (w : World) (here : Location) (bytes : List UInt8) : Except Error World :=
  match w.tree.put? here (.file bytes) with
  | some tree => .ok { w with tree }
  | none => .error (.io "Permission denied")

def write (w : World) (path text : String) : Except Error World :=
  match w.tree.locate? (pathOf path) with
  | none => .error (.io "No such file or directory")
  | some here =>
    match w.tree.entry? here with
    | some (.directory _) => .error (.io "Is a directory")
    | some (.device .null) => .ok w
    | some (.device .output) => .ok { w with output := w.output ++ text }
    | some (.device .refusing) | some (.device (.fixed _)) =>
      .error (.io "No space left on device")
    | some (.file _) | none => w.put here text.toUTF8.toList

/-! ## Stores -/

def openStore (w : World) (directory : String) : Except Error Store × World :=
  let (opened, tree) := (Store.openIn directory).run w.tree
  (opened, { w with tree })

def keepStore (w : World) (directory : String) (store : Store) : World :=
  { w with tree := Store.keepIn w.tree directory store }

/-! ## Messages -/

def send (w : World) (address : String) (message : Message) : Except Error World :=
  match w.network.dial address with
  | .ok () => .ok { w with arrived := w.arrived ++ [(address, message)] }
  | .error reason => .error (.connectionFailed address reason)

/-- Whether the machine has an address: all of the fourth version, none of the sixth but
the one that stands for any, and the name of itself. -/
def owns (address : String) : Bool :=
  match Address.ofText? address with
  | none => false
  | some a =>
    match a.numeric? with
    | some (.four _) => true
    | some (.six groups) => groups.all (· = 0) || groups.take 6 = [0, 0, 0, 0, 0, 0xFFFF]
    | none => a.host.toLower = "localhost"

end World

open World

instance : Surroundings (StateM World) where
  Listener := Unit
  contents path := return (← get).contents path
  write path text := fun w =>
    match w.write path text with
    | .ok after => (.ok (), after)
    | .error e => (.error e, w)
  openStore directory := fun w => w.openStore directory
  keepStore directory store := modify (·.keepStore directory store)
  send address message := fun w =>
    match w.send address message with
    | .ok after => (.ok (), after)
    | .error e => (.error e, w)
  bind address :=
    return if owns address then .ok () else .error (.io "Cannot assign requested address")
  serve _ _ := return .ok ()
  print text := modify fun w => { w with output := w.output ++ text }
  complain text := modify fun w => { w with complaints := w.complaints ++ text }

/-- Runs the program in a world. -/
def World.run (w : World) (args : List String) : Exit × World :=
  (CommandLine.run args : StateM World Exit) w

end Synod.CommandLine
