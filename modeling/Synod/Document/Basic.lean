/-
Synod.Document.Basic -- trees that configuration texts stand for

The common form of what a configuration can be read from.  A number that is no
integer and a point in time keep the characters they were written with.
-/

namespace Synod

set_option autoImplicit false

inductive Document
  | null
  | bool (value : Bool)
  | integer (value : Int)
  | real (written : String)
  | moment (written : String)
  | text (value : String)
  | list (items : List Document)
  | table (entries : List (String × Document))
deriving Inhabited, Repr

end Synod
