import Breadboard.Memory.Value
import Breadboard.Sketch.Program
import Breadboard.Text.Utf8

/-!
Scoped storage of variables. Globals and static variables stay; the variables of
a scope go when it closes. Names are looked up from the innermost scope outward,
not past the innermost function, and then among the globals.
-/

namespace Breadboard

inductive MemoryError where
  | duplicateDeclaration (name : String)
  | undefinedVariable (name : String)
  | indexOutOfBounds (index size : Nat)
  | danglingPlace
  | notIndexable (type : String)
  | noSuchField (owner field : String)
  deriving DecidableEq

def MemoryError.message : MemoryError → String
  | .duplicateDeclaration name => "'" ++ name ++ "' is already declared in this scope"
  | .undefinedVariable name => "'" ++ name ++ "' is not declared"
  | .indexOutOfBounds index size =>
      "index " ++ toString index ++ " out of bounds for size " ++ toString size
  | .danglingPlace => "pointer refers to storage that no longer exists"
  | .notIndexable type => "cannot index a value of type " ++ type
  | .noSuchField owner field => "no field '" ++ field ++ "' in " ++ owner

structure Variable where
  name : String
  type : DataType
  value : Value
  isStatic : Bool := false
  isVolatile : Bool := false

inductive ScopeKind where
  | global | function | block
  deriving DecidableEq

abbrev Bindings := List (String × Cell)

structure Scope where
  kind : ScopeKind
  bindings : Bindings := []
  /-- How many locals there were when the scope opened. -/
  localsBase : Nat

structure LocalSlot where
  generation : UInt32
  declared : Variable

structure Environment where
  globals : Array Variable := #[]
  locals : Array LocalSlot := #[]
  nextGeneration : UInt32 := 0
  /-- The names of the outermost scope, which never closes. -/
  base : Bindings := []
  /-- The other scopes, innermost first. -/
  scopes : List Scope := []
  /-- The cells of static variables by the node that declares them. -/
  statics : List (NodeId × Cell) := []

namespace Value

/-- The element or field one step inside a value. A text is a row of characters
with a zero behind it. -/
def step (value : Value) (step : PathStep) : Except MemoryError Value :=
  match value, step with
  | .array items, .index pos =>
      match items[pos]? with
      | some item => .ok item
      | none => .error (.indexOutOfBounds pos items.length)
  | .text string, .index pos =>
      let bytes := Text.bytes string
      match bytes[pos]? with
      | some byte => .ok (.char byte.toInt8)
      | none =>
          if pos = bytes.length then .ok (.char 0)
          else .error (.indexOutOfBounds pos (bytes.length + 1))
  | .record name fields, .field wanted =>
      match fields.lookup wanted with
      | some field => .ok field
      | none => .error (.noSuchField name wanted)
  | value, .index _ => .error (.notIndexable value.typeName)
  | value, .field wanted => .error (.noSuchField value.typeName wanted)

/-- The value at the end of a path. Nothing lies behind a character of a text, and
what follows it on the path is not looked at. -/
def read (value : Value) : List PathStep → Except MemoryError Value
  | [] => .ok value
  | step :: rest =>
      match value, value.step step with
      | .text _, result => result
      | _, .ok inner => inner.read rest
      | _, .error error => .error error

/-- A text with one of its bytes replaced. Both the old and the new byte must be a
character of their own. -/
def writeByte (string : String) (pos : Nat) (byte : UInt8) : Except MemoryError String :=
  let bytes := Text.bytes string
  let fits := pos < bytes.length && byte < 0x80 &&
    Text.isBoundary bytes pos && Text.isBoundary bytes (pos + 1)
  if fits then .ok (Text.ofBytesLossy (bytes.set pos byte))
  else .error (.indexOutOfBounds pos bytes.length)

def setField (wanted : String) (value : Value) : List (String × Value) → List (String × Value)
  | [] => []
  | (name, old) :: rest =>
      if name = wanted then (name, value) :: rest
      else (name, old) :: setField wanted value rest

def write (value : Value) (path : List PathStep) (new : Value) : Except MemoryError Value :=
  match path with
  | [] => .ok new
  | step :: rest =>
      match value, step with
      | .array items, .index pos =>
          match items[pos]? with
          | some item => do .ok (.array (items.set pos (← item.write rest new)))
          | none => .error (.indexOutOfBounds pos items.length)
      | .text string, .index pos => do
          .ok (.text (← writeByte string pos ((new.integer?).getD 0).toUInt64.toUInt8))
      | .record name fields, .field wanted =>
          match fields.lookup wanted with
          | some field => do .ok (.record name (setField wanted (← field.write rest new) fields))
          | none => .error (.noSuchField name wanted)
      | value, .index _ => .error (.notIndexable value.typeName)
      | value, .field wanted => .error (.noSuchField value.typeName wanted)

end Value

namespace Environment

def pushScope (env : Environment) (kind : ScopeKind) : Environment :=
  { env with scopes := { kind, localsBase := env.locals.size } :: env.scopes }

def popScope (env : Environment) : Environment :=
  match env.scopes with
  | [] => env
  | scope :: outer =>
      { env with scopes := outer, locals := env.locals.take scope.localsBase }

def depth (env : Environment) : Nat := env.scopes.length + 1

def bindings (env : Environment) : Bindings :=
  match env.scopes with
  | [] => env.base
  | scope :: _ => scope.bindings

def isGlobal (env : Environment) : Bool :=
  match env.scopes with
  | [] => true
  | scope :: _ => scope.kind = .global

def addBinding (env : Environment) (name : String) (cell : Cell) : Environment :=
  match env.scopes with
  | [] => { env with base := (name, cell) :: env.base }
  | scope :: outer =>
      { env with scopes :=
          { scope with bindings := (name, cell) :: scope.bindings } :: outer }

def bind (env : Environment) (name : String) (cell : Cell) : Except MemoryError Environment :=
  match env.bindings.lookup name with
  | some _ => .error (.duplicateDeclaration name)
  | none => .ok (env.addBinding name cell)

def allocateGlobal (env : Environment) (declared : Variable) : Cell × Environment :=
  (.global env.globals.size, { env with globals := env.globals.push declared })

def allocateLocal (env : Environment) (declared : Variable) : Cell × Environment :=
  (.frame env.locals.size env.nextGeneration,
    { env with
      locals := env.locals.push ⟨env.nextGeneration, declared⟩
      nextGeneration := env.nextGeneration + 1 })

def declare (env : Environment) (declared : Variable) : Except MemoryError (Cell × Environment) :=
  match env.bindings.lookup declared.name with
  | some _ => .error (.duplicateDeclaration declared.name)
  | none =>
      let (cell, env) :=
        if env.isGlobal then env.allocateGlobal declared else env.allocateLocal declared
      .ok (cell, env.addBinding declared.name cell)

def staticCell? (env : Environment) (site : NodeId) : Option Cell := env.statics.lookup site

/-- Declares the static variable of a declaration site. The first time it gets a cell;
later the name is bound to that cell again. The cell is allocated before the
name is bound, and stays allocated if the name is taken. -/
def declareStatic (env : Environment) (site : NodeId) (declared : Variable) :
    Except MemoryError Cell × Environment :=
  match env.staticCell? site with
  | some cell =>
      match env.bind declared.name cell with
      | .ok env => (.ok cell, env)
      | .error error => (.error error, env)
  | none =>
      let (cell, env) := env.allocateGlobal declared
      match env.bind declared.name cell with
      | .ok env => (.ok cell, { env with statics := (site, cell) :: env.statics })
      | .error error => (.error error, env)

/-- Looks through scopes from the innermost on, up to the end of the function. -/
def lookupScopes (name : String) : List Scope → Option Cell
  | [] => none
  | scope :: outer =>
      match scope.bindings.lookup name with
      | some cell => some cell
      | none => if scope.kind = .function then none else lookupScopes name outer

def lookup? (env : Environment) (name : String) : Option Cell :=
  match lookupScopes name env.scopes with
  | some cell => some cell
  | none => env.base.lookup name

def lookup (env : Environment) (name : String) : Except MemoryError Cell :=
  match env.lookup? name with
  | some cell => .ok cell
  | none => .error (.undefinedVariable name)

def resolve? (env : Environment) : Cell → Option Variable
  | .global index => env.globals[index]?
  | .frame index generation =>
      match env.locals[index]? with
      | some slot => if slot.generation = generation then some slot.declared else none
      | none => none

def resolve (env : Environment) (cell : Cell) : Except MemoryError Variable :=
  match env.resolve? cell with
  | some found => .ok found
  | none => .error .danglingPlace

def get? (env : Environment) (name : String) : Option Value := do
  let cell ← env.lookup? name
  let found ← env.resolve? cell
  some found.value

def read (env : Environment) (place : Place) : Except MemoryError Value := do
  (← env.resolve place.cell).value.read place.path

def setValue (env : Environment) (cell : Cell) (value : Value) : Environment :=
  match cell with
  | .global index =>
      { env with globals := env.globals.modify index fun old => { old with value } }
  | .frame index _ =>
      { env with locals := env.locals.modify index fun slot =>
          { slot with declared := { slot.declared with value } } }

def write (env : Environment) (place : Place) (value : Value) : Except MemoryError Environment := do
  let found ← env.resolve place.cell
  .ok (env.setValue place.cell (← found.value.write place.path value))

def elementCount? (env : Environment) (place : Place) : Option Nat :=
  match place.lastIndex? with
  | none => none
  | some _ =>
      match env.read place.container with
      | .ok (.array items) => some items.length
      | .ok (.text text) => some (Text.size text + 1)
      | _ => none

def stepType (structs : StructTable) (owner : String) (type : DataType) :
    PathStep → Except MemoryError DataType
  | .index _ =>
      if type.base = .text && !type.isArray then .ok (.of .char) else .ok type.element
  | .field wanted =>
      match type.base with
      | .record name =>
          match (structs.lookup name).bind (·.find? fun field => field.name = wanted) with
          | some field => .ok field.type
          | none => .error (.noSuchField name wanted)
      | _ => .error (.noSuchField owner wanted)

def placeType (env : Environment) (structs : StructTable) (place : Place) :
    Except MemoryError DataType := do
  let found ← env.resolve place.cell
  place.path.foldlM (stepType structs found.name) found.type

def placeName (env : Environment) (place : Place) : String :=
  let name :=
    match env.resolve? place.cell with
    | some found => found.name
    | none => "?"
  name ++ Place.pathText place.path

end Environment

end Breadboard
