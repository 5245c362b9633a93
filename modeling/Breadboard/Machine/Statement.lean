import Breadboard.Machine.Jump

/-!
Executing statements other than loops: blocks, declarations, branches.
-/

namespace Breadboard

/-- The type of a variable once its value is known: an array without a size gets the
number of its elements. -/
def DataType.sizedBy (type : DataType) (value : Value) : DataType :=
  match type.dims, value with
  | none :: dims, .array items => { type with dims := some items.length :: dims }
  | _, _ => type

namespace Act

/-- Declares a static variable and keeps what memory did even if it failed. -/
def declareStatic (node : NodeId) (declared : Variable) (loc : Location) : Act Cell := do
  let (cell, env) := (← environment).declareStatic node declared
  setEnvironment env
  attemptMemory cell loc

def declareIn (declared : Variable) (loc : Location) : Act Cell := do
  let (cell, env) ← attemptMemory ((← environment).declare declared) loc
  setEnvironment env
  pure cell

/-- Declares the variable of a declaration. One that is static and has been declared
before only gets its name back. -/
def declareVariable (fw : Firmware) (node : NodeId) (init : Option Value) : Act Effect := do
  let loc := fw.program.location node
  match fw.program.kind node with
  | .varDecl name type _ isStatic isVolatile =>
      let env ← environment
      match if isStatic then env.staticCell? node else none with
      | some cell =>
          setEnvironment (← attemptMemory (env.bind name cell) loc)
          pure .quiet
      | none =>
          let value ←
            match init with
            | some given => convert fw given type loc
            | none => pure (type.default fw.structs)
          let declared : Variable :=
            { name, type := type.sizedBy value, value, isStatic, isVolatile }
          let cell ←
            if isStatic then declareStatic node declared loc
            else declareIn declared loc
          match init with
          | some _ => varSet (.of cell) value
          | none => pure .quiet
  | _ => unsupported (.wrongNode "declaration") loc

def constructObject (fw : Firmware) (node : NodeId) : Act Effect := do
  let loc := fw.program.location node
  match fw.program.kind node with
  | .objectDecl name className args =>
      let values ← popMany args.length loc
      let declared : Variable :=
        { name, type := .of (.library className), value := .object ⟨className, name⟩ }
      let _ ← declareIn declared loc
      pure (.emit (.objectCreated className name ((← environment).payloads values)))
  | _ => unsupported (.wrongNode "object declaration") loc

def exec (fw : Firmware) (node : NodeId) : Act Effect := do
  let loc := fw.program.location node
  let quietly (frames : List Frame) : Act Effect := do
    schedule frames
    pure .quiet
  match fw.program.kind node with
  | .block _ =>
      openScope .block
      quietly [.block node 0 true]
  | .exprStmt expr => quietly [.eval expr, .discard]
  | .varDecl _ _ init isStatic _ =>
      let declaredBefore := isStatic && ((← environment).staticCell? node).isSome
      match init with
      | some expr =>
          if declaredBefore then declareVariable fw node none
          else quietly [.eval expr, .declare node]
      | none => declareVariable fw node none
  | .objectDecl _ _ args => quietly (args.map Frame.eval ++ [.construct node])
  | .declGroup decls => quietly (decls.map Frame.exec)
  | .ifElse condition _ _ => quietly [.eval condition, .branch node]
  | .whileLoop _ _ => quietly [.loop node .cond 0 false]
  | .doWhile _ _ => quietly [.loop node .body 0 false]
  | .forLoop init _ _ _ =>
      openScope .block
      quietly (init.toList.map Frame.exec ++ [.loop node .cond 0 true])
  | .switch expr _ => quietly [.eval expr, .switchSelect node]
  | .returnStmt expr => quietly (expr.toList.map Frame.eval ++ [.leave node])
  | .breakStmt => do
      breakLoop loc
      pure .quiet
  | .continueStmt => do
      continueLoop loc
      pure .quiet
  | .empty => pure .quiet
  | .functionDef name _ _ _ => unsupported (.nestedFunction name) loc
  | .structDef name _ => unsupported (.localStruct name) loc
  | _ => quietly [.eval node, .discard]

def runBlock (fw : Firmware) (node : NodeId) (next : Nat) (hasScope : Bool) : Act Unit := do
  match fw.program.kind node with
  | .block statements =>
      match statements[next]? with
      | some statement => schedule [.exec statement, .block node (next + 1) hasScope]
      | none => if hasScope then closeScope else pure ()
  | _ => pure ()

def runBranch (fw : Firmware) (node : NodeId) : Act Unit := do
  let loc := fw.program.location node
  match fw.program.kind node with
  | .ifElse _ thenBranch elseBranch =>
      let holds ← truth (← pop loc) loc
      if holds then schedule [.exec thenBranch]
      else schedule (elseBranch.toList.map Frame.exec)
  | _ => unsupported (.wrongNode "if statement") loc

end Act

end Breadboard
