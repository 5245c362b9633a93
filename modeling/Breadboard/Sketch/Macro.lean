import Breadboard.Sketch.ParseError

/-!
Object-like macros. Directive lines become empty lines, so positions survive;
every other line is expanded under the definitions in force before it. Macros
whose expansion is one literal also form a table of values.
-/

namespace Breadboard

inductive MacroValue where
  | int (value : Int64)
  | float (value : Binary64)
  | text (value : String)
  deriving DecidableEq

abbrev MacroTable := List (String × MacroValue)

abbrev Definitions := List (String × List Char)

namespace Definitions

def erase (defs : Definitions) (name : String) : Definitions :=
  defs.filter fun definition => definition.1 != name

def insert (defs : Definitions) (name : String) (body : List Char) : Definitions :=
  (name, body) :: erase defs name

end Definitions

namespace Macro

/-- The rest of a quoted literal through its closing quote, and what follows. A
backslash protects the character behind it. -/
def literal (quote : Char) : List Char → List Char × List Char
  | [] => ([], [])
  | ['\\'] => (['\\'], [])
  | '\\' :: c :: rest =>
      let (body, tail) := literal quote rest
      ('\\' :: c :: body, tail)
  | c :: rest =>
      if c = quote then ([c], rest)
      else
        let (body, tail) := literal quote rest
        (c :: body, tail)

def isNumberPart (c : Char) : Bool :=
  Decimal.isDigit c || ('a' ≤ c && c ≤ 'z') || ('A' ≤ c && c ≤ 'Z') || c == '.'

/-- One pass over a line: every macro name outside literals, numbers and line
comments is replaced by its body after `expandBody`. The first argument bounds
the number of pieces; the length of the line is enough. -/
def substitute (defs : Definitions) (expandBody : List Char → List Char) :
    Nat → List Char → List Char
  | 0, line => line
  | _ + 1, [] => []
  | fuel + 1, c :: rest =>
      if c = '"' ∨ c = '\'' then
        let (body, tail) := literal c rest
        c :: body ++ substitute defs expandBody fuel tail
      else if c = '/' ∧ rest.head? = some '/' then c :: rest
      else if Cursor.isNameStart c then
        let word := c :: rest.takeWhile Cursor.isNamePart
        let tail := rest.dropWhile Cursor.isNamePart
        let replacement :=
          match defs.lookup (String.ofList word) with
          | some body => expandBody body
          | none => word
        replacement ++ substitute defs expandBody fuel tail
      else if Decimal.isDigit c then
        c :: rest.takeWhile isNumberPart ++
          substitute defs expandBody fuel (rest.dropWhile isNumberPart)
      else c :: substitute defs expandBody fuel rest

/-- A line with its macros replaced, bodies expanded in turn up to `depth` deep. -/
def expand (defs : Definitions) : Nat → List Char → List Char
  | 0, line => line
  | depth + 1, line => substitute defs (expand defs depth) line.length line

def expansionDepth : Nat := 16

def beforeComment : List Char → List Char
  | '/' :: '/' :: _ => []
  | c :: rest => c :: beforeComment rest
  | [] => []

/-- The definitions after a directive, given without its `#` and leading blanks.
Directives other than `define` and `undef` change nothing. -/
def directive (defs : Definitions) (loc : Location) (text : List Char) :
    Except ParseError Definitions :=
  match Text.after? "define".toList text with
  | some rest =>
      let rest := Text.trimStart rest
      let name := rest.takeWhile Cursor.isNamePart
      let body := rest.dropWhile Cursor.isNamePart
      if name.isEmpty then .error ⟨.missingMacroName, loc⟩
      else if body.head? = some '(' then
        .error ⟨.functionLikeMacro (String.ofList name), loc⟩
      else .ok (defs.insert (String.ofList name) (Text.trim (beforeComment body)))
  | none =>
      match Text.after? "undef".toList text with
      | some rest => .ok (defs.erase (String.ofList (Text.trim rest)))
      | none => .ok defs

def directive? (line : List Char) : Option (List Char) :=
  (Text.after? ['#'] (Text.trimStart line)).map Text.trimStart

/-- Expands lines in order, `number` being the number of the first. -/
def expandLines (defs : Definitions) (number : Nat) :
    List (List Char) → Except ParseError (List (List Char) × Definitions)
  | [] => .ok ([], defs)
  | line :: rest =>
      match directive? line with
      | some text => do
          let changed ← directive defs ⟨number, 1⟩ text
          let (lines, final) ← expandLines changed (number + 1) rest
          .ok ([] :: lines, final)
      | none => do
          let (lines, final) ← expandLines defs (number + 1) rest
          .ok (expand defs expansionDepth line :: lines, final)

/-- The lines of a text. A line ends at a line feed, together with a carriage
return in front of it; the last line need not end. `current` holds the
characters of the line so far, last first. -/
def linesFrom (current : List Char) : List Char → List (List Char)
  | [] => if current.isEmpty then [] else [current.reverse]
  | '\n' :: rest =>
      let line :=
        match current with
        | '\r' :: before => before
        | _ => current
      line.reverse :: linesFrom [] rest
  | c :: rest => linesFrom (c :: current) rest

def lines (text : List Char) : List (List Char) := linesFrom [] text

/-- Removes pairs of parentheses around a text, with blanks between them. -/
def unwrap : Nat → List Char → List Char
  | 0, text => text
  | fuel + 1, text =>
      match text with
      | '(' :: rest =>
          if rest.getLast? = some ')' then unwrap fuel (Text.trim rest.dropLast) else text
      | _ => text

def integer? (digits : List Char) : Option Int64 :=
  match digits with
  | '0' :: 'x' :: rest => Text.readInt64? 16 rest
  | '0' :: 'X' :: rest => Text.readInt64? 16 rest
  | '0' :: 'b' :: rest => Text.readInt64? 2 rest
  | '0' :: 'B' :: rest => Text.readInt64? 2 rest
  | _ => Text.readInt64? 10 digits

def isFloatMark (c : Char) : Bool := c == 'f' || c == 'F'

def value? (body : List Char) : Option MacroValue :=
  let text := unwrap body.length (Text.trim body)
  match text with
  | '"' :: rest =>
      if rest.getLast? = some '"' then some (.text (String.ofList rest.dropLast)) else none
  | _ =>
      let (negative, unsigned) :=
        match text with
        | '-' :: rest => (true, Text.trimStart rest)
        | _ => (false, text)
      let digits := Text.dropEndWhile Cursor.isIntegerMark unsigned
      match integer? digits with
      | some n => some (.int (if negative then -n else n))
      | none =>
          if digits.head?.any fun c => Decimal.isDigit c || c == '.' then
            (Decimal.read? (Text.dropEndWhile isFloatMark digits)).map fun x =>
              .float (if negative then x.neg else x)
          else none

def table (defs : Definitions) : MacroTable :=
  defs.filterMap fun definition =>
    (value? (expand defs expansionDepth definition.2)).map fun value =>
      (definition.1, value)

end Macro

structure Preprocessed where
  source : String
  macros : MacroTable

def preprocess (source : String) : Except ParseError Preprocessed := do
  let (lines, defs) ← Macro.expandLines [] 1 (Macro.lines source.toList)
  .ok ⟨String.ofList (lines.flatMap fun line => line ++ ['\n']), Macro.table defs⟩

end Breadboard
