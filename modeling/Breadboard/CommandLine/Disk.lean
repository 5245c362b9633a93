import Breadboard.Text.Utf8

/-!
Files as the command line sees them: one directory of files without directories
in it.
-/

namespace Breadboard

inductive FileError where
  | missing
  | isDirectory
  | notDirectory
  | notText
  | other (message : String)

def FileError.message : FileError → String
  | .missing => "No such file or directory (os error 2)"
  | .isDirectory => "Is a directory (os error 21)"
  | .notDirectory => "Not a directory (os error 20)"
  | .notText => "stream did not contain valid UTF-8"
  | .other message => message

def pathParts (path : String) : List String :=
  (path.splitOn "/").filter fun part => part ≠ "" && part ≠ "."

/-- Whether the name at the end of a path has an ending: what follows its last point,
unless nothing stands before that point. -/
def hasEnding (path ending : String) : Bool :=
  match (pathParts path).getLast? with
  | some name =>
      match (name.splitOn ".").reverse with
      | last :: before => last = ending && before ≠ [] && before ≠ [""]
      | [] => false
  | none => false

abbrev FileReader := String → Except FileError Text.Bytes

def FileReader.text (read : FileReader) (path : String) : Except FileError String := do
  match Text.ofBytes? (← read path) with
  | some text => .ok text
  | none => .error .notText

structure Disk where
  files : List (String × Text.Bytes) := []

namespace Disk

def locate (disk : Disk) (path : String) : Except FileError String :=
  if path.startsWith "/" then .error .missing
  else
    match pathParts path with
    | [] => .error .isDirectory
    | [name] => .ok name
    | name :: _ =>
        if (disk.files.lookup name).isSome then .error .notDirectory else .error .missing

def read (disk : Disk) : FileReader := fun path => do
  match disk.files.lookup (← disk.locate path) with
  | some bytes => .ok bytes
  | none => .error .missing

def write (disk : Disk) (path : String) (bytes : Text.Bytes) : Except FileError Disk := do
  let name ← disk.locate path
  .ok { disk with files := (name, bytes) :: disk.files }

end Disk

end Breadboard
