import Breadboard.Number.Binary64

/-!
Payloads of commands and answers of the host: plain data without references.
-/

namespace Breadboard

inductive Primitive where
  | bool (value : Bool)
  | int (value : Int64)
  | float (value : Binary64)
  | text (value : String)
  | list (items : List Primitive)
  deriving Inhabited

end Breadboard
