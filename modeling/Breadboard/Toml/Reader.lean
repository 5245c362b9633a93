import Breadboard.Toml.Scalar

/-!
Reading TOML documents: values that hold others, headers, and keys with values,
line by line.
-/

namespace Breadboard.Toml

open Reader

def listItems (item : Reader Item) : Reader (List Item) := do
  gap
  let listed : Reader (List Item) := do
    let first ← item
    gap
    let rest ← many do
      expect ','
      gap
      let next ← item
      gap
      pure next
    let _ ← maybe (expect ',')
    gap
    pure (first :: rest)
  pure ((← maybe listed).getD [])

def assignment (item : Reader Item) : Reader (List String × String × Item) := do
  let (path, name) ← key
  expect '='
  blanks
  pure (path, name, ← item)

def assignAll (start : Table) (assignments : List (List String × String × Item)) : Option Table :=
  assignments.foldlM (fun table (path, name, item) => table.assign? path name item) start

def inlineTable (item : Reader Item) : Reader Item := do
  expect '\x7b'
  blanks
  let listed : Reader (List (List String × String × Item)) := do
    let first ← assignment item
    blanks
    let rest ← many do
      expect ','
      let next ← assignment item
      blanks
      pure next
    pure (first :: rest)
  let assignments := (← maybe listed).getD []
  expect '\x7d'
  match assignAll ⟨.inline, []⟩ assignments with
  | some table => pure (.table .inline table.fields)
  | none => failure

def value : Nat → Reader Item
  | 0 => scalar
  | depth + 1 =>
      either scalar <|
        either (inlineTable (value depth)) do
          expect '['
          let items ← listItems (value depth)
          expect ']'
          pure (.list items)

/-- A document as far as it has been read, and the path of the table that is open. -/
structure Draft where
  root : Table := .document
  path : List String := []

def assignmentLine (draft : Draft) : Reader Draft := do
  let (path, name, item) ← assignment (value depthLimit)
  restOfLine
  match draft.root.alter false (Table.assign? path name item) draft.path with
  | some root => pure { draft with root }
  | none => failure

def headerLine (draft : Draft) : Reader Draft := do
  expect '['
  let (path, name) ← key
  expect ']'
  restOfLine
  match draft.root.open? path name with
  | some root => pure { root, path := path ++ [name] }
  | none => failure

def repeatedHeaderLine (draft : Draft) : Reader Draft := do
  expectAll "[["
  let (path, name) ← key
  expectAll "]]"
  restOfLine
  match draft.root.openNext? path name with
  | some root => pure { root, path := path ++ [name] }
  | none => failure

def commentLine : Reader Unit := do
  comment
  lineEnd

def line (draft : Draft) : Reader Draft := do
  match ← peek? with
  | some '#' => do
      commentLine
      pure draft
  | some '[' =>
      match (← get)[1]? with
      | some '[' => repeatedHeaderLine draft
      | _ => headerLine draft
  | some '\n' | some '\r' => do
      newline
      pure draft
  | _ => assignmentLine draft

def lines : Nat → Draft → Reader Draft
  | 0, draft => pure draft
  | limit + 1, draft => do
      blanks
      if (← get).isEmpty then pure draft
      else lines limit (← line draft)

/-- The fields of a document. A mark of the byte order may stand in front. -/
def read? (input : String) : Option Fields :=
  let text :=
    match input.toList with
    | '\ufeff' :: rest => rest
    | text => text
  match (lines (text.length + 1) {}).run text with
  | some (draft, _) => some draft.root.fields
  | none => none

end Breadboard.Toml
