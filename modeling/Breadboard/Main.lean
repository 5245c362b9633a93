import Breadboard.CommandLine.Job

/-!
The command line: runs a sketch and prints its commands as they are emitted.
-/

namespace Breadboard

def readFile (path : String) : IO (Except FileError Text.Bytes) := do
  try
    pure (.ok (← IO.FS.readBinFile path).toList)
  catch error =>
    match error with
    | .noFileOrDirectory .. => pure (.error .missing)
    | _ => pure (.error (.other (toString error)))

/-- Lets a run go on and prints what it emits, until it ends or is broken off. -/
partial def follow (invocation : Invocation) (listener : Invocation.Listener) (session : Session) :
    IO (Option Session) := do
  let mut listener := listener
  for entry in session.log.entries.toSubarray listener.printed.size do
    match listener.hear entry with
    | .ok next =>
        IO.println entry.record.compact
        listener := next
    | .error _ => return none
  match session.move invocation.mode (invocation.respond listener.clock) () with
  | (some _, session) => follow invocation listener session
  | (none, session) => pure (some session)

def reportFailure (failure : Failure) : IO UInt32 := do
  for line in failure.lines do
    IO.eprintln line
  pure 1

def perform (invocation : Invocation) : Job → IO UInt32
  | .write path bytes => do
      try
        IO.FS.writeBinFile path ⟨bytes.toArray⟩
        pure 0
      catch error => reportFailure (.unwritable path (.other (toString error)))
  | .run session => do
      let some done ← follow invocation {} session | pure 101
      match invocation.failure? done with
      | some failure => reportFailure failure
      | none => pure 0

def runArguments (arguments : List String) : IO UInt32 := do
  match Invocation.ofArguments arguments with
  | .error .help => do
      Invocation.usage.forM IO.println
      pure 0
  | .error .invalid => do
      Invocation.usage.forM IO.eprintln
      pure 2
  | .ok invocation => do
      let paths := invocation.config.toList ++ [invocation.file]
      let contents ← paths.mapM fun path => do
        pure (path, ← readFile path)
      let read : FileReader := fun path => (contents.lookup path).getD (.error .missing)
      match invocation.prepare read with
      | .error failure => reportFailure failure
      | .ok job => perform invocation job

end Breadboard

def main (arguments : List String) : IO UInt32 := Breadboard.runArguments arguments
