import Breadboard.Archive
import Breadboard.Command.Record
import Breadboard.CommandLine.Disk
import Breadboard.CommandLine.Invocation
import Breadboard.Config.Setting
import Breadboard.Session
import Breadboard.Sketch

/-!
What the command line does: load settings and a program, then run the program or
write it as an archive. Time passes only by the delays that the sketch asks for.
-/

namespace Breadboard

inductive Failure where
  | unreadableConfig (path : String) (error : FileError)
  | invalidConfig (format : String)
  | unreadable (path : String) (error : FileError)
  | undecodable (path : String) (error : ArchiveError)
  | unparsable (path : String) (error : ParseError)
  | unwritable (path : String) (error : FileError)
  | stopped (path : String)

namespace Failure

def headline : Failure → String
  | .unreadableConfig path _ => "reading config " ++ path
  | .invalidConfig format => "invalid " ++ format ++ " configuration"
  | .unreadable path _ => "reading " ++ path
  | .undecodable path _ => "decoding " ++ path
  | .unparsable path _ => "parsing " ++ path
  | .unwritable path _ => "writing " ++ path
  | .stopped path => path ++ " stopped with a runtime error"

def cause? : Failure → Option String
  | .unreadableConfig _ error => some error.message
  | .invalidConfig _ => none
  | .unreadable _ error => some error.message
  | .undecodable _ error => some error.message
  | .unparsable _ error => some error.message
  | .unwritable _ error => some error.message
  | .stopped _ => none

def lines (failure : Failure) : List String :=
  ("Error: " ++ failure.headline).splitOn "\n" ++
    match failure.cause? with
    | some cause => "" :: "Caused by:" :: (cause.splitOn "\n").map ("    " ++ ·)
    | none => []

end Failure

inductive Job where
  | write (path : String) (bytes : Text.Bytes)
  | run (session : Session)

namespace Invocation

def named {ε α : Type} (failure : ε → Failure) : Except ε α → Except Failure α
  | .ok value => .ok value
  | .error error => .error (failure error)

def readConfig (read : FileReader) (path : String) : Except Failure Config := do
  let text ← named (.unreadableConfig path) (read.text path)
  if hasEnding path "json" then
    (Config.ofJson? text).elim (.error (.invalidConfig "JSON")) .ok
  else (Config.ofToml? text).elim (.error (.invalidConfig "TOML")) .ok

def loadConfig (invocation : Invocation) (read : FileReader) : Except Failure Config := do
  let config : Config ←
    match invocation.config with
    | some path => readConfig read path
    | none => .ok {}
  .ok { config with
    maxLoopIterations := invocation.maxLoopIterations.getD config.maxLoopIterations
    verbose := config.verbose || invocation.verbose
    debug := config.debug || invocation.debug }

def loadSketch (invocation : Invocation) (read : FileReader) : Except Failure Sketch := do
  let path := invocation.file
  if invocation.fromArchive then
    let bytes ← named (.unreadable path) (read path)
    let program ← named (.undecodable path) (Archive.decode bytes)
    .ok ⟨program, []⟩
  else
    let source ← named (.unreadable path) (read.text path)
    named (.unparsable path) (parseSketch source)

def prepare (invocation : Invocation) (read : FileReader) : Except Failure Job := do
  let config ← invocation.loadConfig read
  let sketch ← invocation.loadSketch read
  match invocation.archiveTo with
  | some path => .ok (.write path (Archive.encode sketch.program))
  | none =>
      .ok (.run { firmware := { program := sketch.program, macros := sketch.macros, config } })

def time? (microseconds : Nat) : Option UInt64 :=
  if microseconds < UInt64.size then some (.ofNat microseconds) else none

/-- The clock after a command, unless that is a time which it cannot show. -/
def advanceClock (clock : UInt64) : Command → Option UInt64
  | .delay milliseconds => do
      let microseconds ← time? ((max milliseconds 0).toUInt64.toNat * 1000)
      time? (clock.toNat + microseconds.toNat)
  | .delayMicroseconds microseconds =>
      time? (clock.toNat + (max microseconds 0).toUInt64.toNat)
  | _ => some clock

/-- Answers requests: pins read as the options say, and the time as the clock shows it. -/
def respond (invocation : Invocation) (clock : UInt64) : Session.Responder Unit :=
  fun _ _ request =>
    let answer :=
      match request with
      | .analogRead _ => invocation.analogValue
      | .digitalRead _ => invocation.digitalValue
      | .millis => (clock / 1000).toInt64
      | .micros => clock.toInt64
      | .method .. => 0
    (.int answer, ())

/-- What the command line has printed, and the time that has passed. -/
structure Listener where
  printed : Array Emitted := #[]
  clock : UInt64 := 0

/-- Advances the clock and prints a command. The command line breaks off, with what it has
printed, at a command that takes the clock out of its range. -/
def Listener.hear (listener : Listener) (entry : Emitted) : Except Listener Listener :=
  match advanceClock listener.clock entry.command with
  | some clock => .ok ⟨listener.printed.push entry, clock⟩
  | none => .error listener

def mode (invocation : Invocation) : Mode := if invocation.stepwise then .paused else .running

/-- Moves a session on and listens to it. -/
def run (invocation : Invocation) :
    Nat → Listener → Session → Except Listener (Listener × Session)
  | 0, listener, session => .ok (listener, session)
  | fuel + 1, listener, session =>
      match session.move invocation.mode (invocation.respond listener.clock) () with
      | (some _, session) => do
          let fresh := session.log.entries.extract listener.printed.size
          invocation.run fuel (← fresh.toList.foldlM Listener.hear listener) session
      | (none, session) => .ok (listener, session)

def failure? (invocation : Invocation) (session : Session) : Option Failure :=
  match session.status with
  | .failed _ => some (.stopped invocation.file)
  | _ => none

end Invocation

structure Report where
  exit : Nat
  output : List String := []
  errors : List String := []
  disk : Disk

namespace Report

def ofFailure (disk : Disk) (output : List String) (failure : Failure) : Report :=
  { exit := 1, output, errors := failure.lines, disk }

def lines (listener : Invocation.Listener) : List String :=
  listener.printed.toList.map fun entry => entry.record.compact

def ofJob (invocation : Invocation) (disk : Disk) (fuel : Nat) : Job → Report
  | .write path bytes =>
      match disk.write path bytes with
      | .ok disk => { exit := 0, disk }
      | .error error => ofFailure disk [] (.unwritable path error)
  | .run session =>
      match invocation.run fuel {} session with
      | .error listener => { exit := 101, output := lines listener, disk }
      | .ok (listener, done) =>
          match invocation.failure? done with
          | some failure => ofFailure disk (lines listener) failure
          | none => { exit := 0, output := lines listener, disk }

def ofArguments (arguments : List String) (disk : Disk) (fuel : Nat) : Report :=
  match Invocation.ofArguments arguments with
  | .error .help => { exit := 0, output := Invocation.usage, disk }
  | .error .invalid => { exit := 2, errors := Invocation.usage, disk }
  | .ok invocation =>
      match invocation.prepare disk.read with
      | .error failure => ofFailure disk [] failure
      | .ok job => ofJob invocation disk fuel job

end Report

end Breadboard
