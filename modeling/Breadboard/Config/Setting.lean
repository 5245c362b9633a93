import Breadboard.Config
import Breadboard.Json.Reader
import Breadboard.Toml.Reader

/-!
Settings in files. Both formats give names to plain data; names that are no
settings are ignored, and a setting may be given once.
-/

namespace Breadboard

inductive Setting where
  | verbose | debug | stepDelay | maxLoopIterations | maxInnerIterations
  deriving DecidableEq

namespace Setting

def name : Setting → String
  | .verbose => "verbose"
  | .debug => "debug"
  | .stepDelay => "stepDelay"
  | .maxLoopIterations => "maxLoopIterations"
  | .maxInnerIterations => "maxInnerIterations"

def all : List Setting :=
  [.verbose, .debug, .stepDelay, .maxLoopIterations, .maxInnerIterations]

def ofName? (text : String) : Option Setting := all.find? fun setting => setting.name = text

end Setting

inductive Datum where
  | null
  | bool (value : Bool)
  | natural (value : Nat)
  | other

def JsonValue.datum : JsonValue → Datum
  | .null => .null
  | .bool value => .bool value
  | .int (.ofNat value) => if value < UInt64.size then .natural value else .other
  | _ => .other

def Toml.Item.datum : Toml.Item → Datum
  | .bool value => .bool value
  | .integer value => if value < 0 then .other else .natural value.toInt.toNat
  | _ => .other

namespace Config

def set? (config : Config) (setting : Setting) (datum : Datum) : Option Config :=
  match setting, datum with
  | .verbose, .bool verbose => some { config with verbose }
  | .debug, .bool debug => some { config with debug }
  | .stepDelay, .natural stepDelay => some { config with stepDelay }
  | .maxLoopIterations, .natural maxLoopIterations => some { config with maxLoopIterations }
  | .maxInnerIterations, .natural limit => some { config with maxInnerIterations := some limit }
  | .maxInnerIterations, .null => some { config with maxInnerIterations := none }
  | _, _ => none

def ofSettings? (given : List (Setting × Datum)) : Option Config :=
  if (given.map Prod.fst).Nodup then
    given.foldlM (fun config (setting, datum) => config.set? setting datum) {}
  else none

def ofFields? (fields : List (String × Datum)) : Option Config :=
  ofSettings? (fields.filterMap fun (name, datum) =>
    (Setting.ofName? name).map fun setting => (setting, datum))

def ofJson? (text : String) : Option Config :=
  match JsonValue.read? text with
  | some (.object fields) => ofFields? (fields.map fun (name, value) => (name, value.datum))
  | some (.list items) =>
      if items.length ≤ Setting.all.length then
        ofSettings? (Setting.all.zip (items.map JsonValue.datum))
      else none
  | _ => none

def ofToml? (text : String) : Option Config :=
  (Toml.read? text).bind fun fields =>
    ofFields? (fields.map fun (name, item) => (name, item.datum))

end Config

end Breadboard
