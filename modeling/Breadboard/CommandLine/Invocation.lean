import Breadboard.Text.Integer

/-!
The arguments of the command line. One names the file to run; the others are
options, each given at most once. An option's value follows an equals sign or is
the next argument, which then must not look like an option.
-/

namespace Breadboard

structure Invocation where
  file : String
  config : Option String := none
  maxLoopIterations : Option Nat := none
  stepwise : Bool := false
  verbose : Bool := false
  debug : Bool := false
  analogValue : Int64 := 512
  digitalValue : Int64 := 0
  archiveTo : Option String := none
  fromArchive : Bool := false

inductive Refusal where
  | help
  | invalid

namespace Invocation

structure Draft where
  file : Option String := none
  config : Option String := none
  maxLoopIterations : Option Nat := none
  stepwise : Option Unit := none
  verbose : Option Unit := none
  debug : Option Unit := none
  analogValue : Option Int64 := none
  digitalValue : Option Int64 := none
  archiveTo : Option String := none
  fromArchive : Option Unit := none

/-- What to remember for something that must not have been given before. -/
def once {α : Type} (before : Option α) (value : Option α) : Except Refusal (Option α) :=
  match before, value with
  | none, some value => .ok (some value)
  | _, _ => .error .invalid

def path? (text : String) : Option String := if text.isEmpty then none else some text

def natural? (text : String) : Option Nat :=
  let digits :=
    match text.toList with
    | '+' :: digits => digits
    | digits => digits
  (Text.readNatural? 10 digits).filter (· < UInt64.size)

def integer? (text : String) : Option Int64 := Text.readInt64? 10 text.toList

def Draft.setFile (draft : Draft) (text : String) : Except Refusal Draft := do
  .ok { draft with file := ← once draft.file (path? text) }

def Draft.setFlag? (draft : Draft) (name : String) : Option (Except Refusal Draft) :=
  match name with
  | "step" => some do
      .ok { draft with stepwise := ← once draft.stepwise (some ()) }
  | "verbose" => some do
      .ok { draft with verbose := ← once draft.verbose (some ()) }
  | "debug" => some do
      .ok { draft with debug := ← once draft.debug (some ()) }
  | "from-ast" => some do
      .ok { draft with fromArchive := ← once draft.fromArchive (some ()) }
  | "help" => some (.error .help)
  | _ => none

def Draft.setter? (draft : Draft) (name : String) : Option (String → Except Refusal Draft) :=
  match name with
  | "config" => some fun value => do
      .ok { draft with config := ← once draft.config (path? value) }
  | "max-loop-iterations" => some fun value => do
      .ok { draft with
        maxLoopIterations := ← once draft.maxLoopIterations (natural? value) }
  | "analog-value" => some fun value => do
      .ok { draft with analogValue := ← once draft.analogValue (integer? value) }
  | "digital-value" => some fun value => do
      .ok { draft with digitalValue := ← once draft.digitalValue (integer? value) }
  | "emit-ast" => some fun value => do
      .ok { draft with archiveTo := ← once draft.archiveTo (path? value) }
  | _ => none

def looksLikeOption (argument : String) : Bool :=
  argument.startsWith "-" && argument ≠ "-"

def longOption? (argument : String) : Option (String × Option String) :=
  match argument.toList with
  | '-' :: '-' :: chars =>
      match chars.span (· ≠ '=') with
      | (name, _ :: value) => some (String.ofList name, some (String.ofList value))
      | (name, []) => some (String.ofList name, none)
  | _ => none

def Draft.setLetters (draft : Draft) : List Char → Except Refusal Draft
  | [] => .ok draft
  | 'v' :: rest => do
      (← (draft.setFlag? "verbose").getD (.error .invalid)).setLetters rest
  | 'h' :: _ => .error .help
  | _ => .error .invalid

inductive Taken where
  | complete (draft : Draft)
  | awaiting (set : String → Except Refusal Draft)

def Draft.take (draft : Draft) (argument : String) : Except Refusal Taken :=
  match longOption? argument with
  | some (name, given) =>
      match draft.setFlag? name, draft.setter? name, given with
      | some outcome, _, none => outcome.map .complete
      | none, some set, some value => (set value).map .complete
      | none, some set, none => .ok (.awaiting set)
      | _, _, _ => .error .invalid
  | none =>
      if looksLikeOption argument then
        (draft.setLetters (argument.toList.drop 1)).map .complete
      else (draft.setFile argument).map .complete

/-- Takes arguments from left to right. After a double dash, all are files. -/
def collect : Taken → List String → Except Refusal Draft
  | .complete draft, [] => .ok draft
  | .awaiting _, [] => .error .invalid
  | .awaiting set, value :: rest =>
      if looksLikeOption value then .error .invalid
      else do collect (.complete (← set value)) rest
  | .complete draft, argument :: rest =>
      if argument = "--" then rest.foldlM Draft.setFile draft
      else do collect (← draft.take argument) rest

def ofArguments (arguments : List String) : Except Refusal Invocation := do
  let draft ← collect (.complete {}) arguments
  match draft.file with
  | none => .error .invalid
  | some file =>
      .ok {
        file
        config := draft.config
        maxLoopIterations := draft.maxLoopIterations
        stepwise := draft.stepwise.isSome
        verbose := draft.verbose.isSome
        debug := draft.debug.isSome
        analogValue := draft.analogValue.getD 512
        digitalValue := draft.digitalValue.getD 0
        archiveTo := draft.archiveTo
        fromArchive := draft.fromArchive.isSome }

def usage : List String :=
  ["Runs a sketch and prints the commands it produces as JSON lines.",
    "",
    "Arguments: [options] FILE",
    "",
    "  --config PATH              settings, in JSON if the name ends in .json, else in TOML",
    "  --max-loop-iterations N    how often loop() runs",
    "  --step                     run step by step",
    "  -v, --verbose              log every command",
    "  --debug                    trace every frame",
    "  --analog-value N           answer for every analogRead() [512]",
    "  --digital-value N          answer for every digitalRead() [0]",
    "  --emit-ast PATH            write the program as an archive instead of running it",
    "  --from-ast                 FILE holds an archive",
    "  -h, --help                 print this text"]

end Invocation

end Breadboard
