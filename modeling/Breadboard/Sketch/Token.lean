import Breadboard.Number.Decimal
import Breadboard.Sketch.Location
import Breadboard.Text.Integer

/-!
Tokens of the sketch language: literals, names, keywords and symbols. Keywords
and symbols carry their spelling, and every token has a description for
messages.
-/

namespace Breadboard

inductive Keyword where
  | intKw | longKw | shortKw | charKw | boolKw | floatKw | doubleKw | voidKw
  | unsignedKw | signedKw | structKw
  | constKw | staticKw | volatileKw
  | ifKw | elseKw | whileKw | doKw | forKw | switchKw | caseKw | defaultKw
  | breakKw | continueKw | returnKw | sizeofKw | trueKw | falseKw | nullKw
  deriving DecidableEq

def Keyword.spelling : Keyword → String
  | .intKw => "int"
  | .longKw => "long"
  | .shortKw => "short"
  | .charKw => "char"
  | .boolKw => "bool"
  | .floatKw => "float"
  | .doubleKw => "double"
  | .voidKw => "void"
  | .unsignedKw => "unsigned"
  | .signedKw => "signed"
  | .structKw => "struct"
  | .constKw => "const"
  | .staticKw => "static"
  | .volatileKw => "volatile"
  | .ifKw => "if"
  | .elseKw => "else"
  | .whileKw => "while"
  | .doKw => "do"
  | .forKw => "for"
  | .switchKw => "switch"
  | .caseKw => "case"
  | .defaultKw => "default"
  | .breakKw => "break"
  | .continueKw => "continue"
  | .returnKw => "return"
  | .sizeofKw => "sizeof"
  | .trueKw => "true"
  | .falseKw => "false"
  | .nullKw => "NULL"

def Keyword.all : List Keyword :=
  [.intKw, .longKw, .shortKw, .charKw, .boolKw, .floatKw, .doubleKw, .voidKw,
    .unsignedKw, .signedKw, .structKw, .constKw, .staticKw, .volatileKw,
    .ifKw, .elseKw, .whileKw, .doKw, .forKw, .switchKw, .caseKw, .defaultKw,
    .breakKw, .continueKw, .returnKw, .sizeofKw, .trueKw, .falseKw, .nullKw]

def Keyword.ofWord? (word : String) : Option Keyword :=
  if word = "nullptr" then some .nullKw
  else Keyword.all.find? fun keyword => keyword.spelling = word

inductive Symbol where
  | plus | minus | star | slash | percent
  | equal | notEqual | less | lessEqual | greater | greaterEqual
  | andAnd | orOr | bang
  | amp | pipe | caret | tilde | shiftLeft | shiftRight
  | assign | plusAssign | minusAssign | starAssign | slashAssign | percentAssign
  | ampAssign | pipeAssign | caretAssign | shiftLeftAssign | shiftRightAssign
  | plusPlus | minusMinus
  | dot | arrow | question | colon
  | leftParen | rightParen | leftBrace | rightBrace | leftBracket | rightBracket
  | semicolon | comma
  deriving DecidableEq

def Symbol.spelling : Symbol → String
  | .plus => "+"
  | .minus => "-"
  | .star => "*"
  | .slash => "/"
  | .percent => "%"
  | .equal => "=="
  | .notEqual => "!="
  | .less => "<"
  | .lessEqual => "<="
  | .greater => ">"
  | .greaterEqual => ">="
  | .andAnd => "&&"
  | .orOr => "||"
  | .bang => "!"
  | .amp => "&"
  | .pipe => "|"
  | .caret => "^"
  | .tilde => "~"
  | .shiftLeft => "<<"
  | .shiftRight => ">>"
  | .assign => "="
  | .plusAssign => "+="
  | .minusAssign => "-="
  | .starAssign => "*="
  | .slashAssign => "/="
  | .percentAssign => "%="
  | .ampAssign => "&="
  | .pipeAssign => "|="
  | .caretAssign => "^="
  | .shiftLeftAssign => "<<="
  | .shiftRightAssign => ">>="
  | .plusPlus => "++"
  | .minusMinus => "--"
  | .dot => "."
  | .arrow => "->"
  | .question => "?"
  | .colon => ":"
  | .leftParen => "("
  | .rightParen => ")"
  | .leftBrace => "\x7b"
  | .rightBrace => "\x7d"
  | .leftBracket => "["
  | .rightBracket => "]"
  | .semicolon => ";"
  | .comma => ","

/-- The longest symbol at the start of a text, with what follows it. -/
def Symbol.scan? : List Char → Option (Symbol × List Char)
  | '<' :: '<' :: '=' :: rest => some (.shiftLeftAssign, rest)
  | '>' :: '>' :: '=' :: rest => some (.shiftRightAssign, rest)
  | '+' :: '+' :: rest => some (.plusPlus, rest)
  | '+' :: '=' :: rest => some (.plusAssign, rest)
  | '-' :: '-' :: rest => some (.minusMinus, rest)
  | '-' :: '=' :: rest => some (.minusAssign, rest)
  | '-' :: '>' :: rest => some (.arrow, rest)
  | '*' :: '=' :: rest => some (.starAssign, rest)
  | '/' :: '=' :: rest => some (.slashAssign, rest)
  | '%' :: '=' :: rest => some (.percentAssign, rest)
  | '=' :: '=' :: rest => some (.equal, rest)
  | '!' :: '=' :: rest => some (.notEqual, rest)
  | '^' :: '=' :: rest => some (.caretAssign, rest)
  | '&' :: '&' :: rest => some (.andAnd, rest)
  | '&' :: '=' :: rest => some (.ampAssign, rest)
  | '|' :: '|' :: rest => some (.orOr, rest)
  | '|' :: '=' :: rest => some (.pipeAssign, rest)
  | '<' :: '<' :: rest => some (.shiftLeft, rest)
  | '<' :: '=' :: rest => some (.lessEqual, rest)
  | '>' :: '>' :: rest => some (.shiftRight, rest)
  | '>' :: '=' :: rest => some (.greaterEqual, rest)
  | c :: rest =>
      let single? : Option Symbol :=
        match c with
        | '+' => some .plus
        | '-' => some .minus
        | '*' => some .star
        | '/' => some .slash
        | '%' => some .percent
        | '=' => some .assign
        | '!' => some .bang
        | '^' => some .caret
        | '&' => some .amp
        | '|' => some .pipe
        | '<' => some .less
        | '>' => some .greater
        | '~' => some .tilde
        | '.' => some .dot
        | '?' => some .question
        | ':' => some .colon
        | '(' => some .leftParen
        | ')' => some .rightParen
        | '\x7b' => some .leftBrace
        | '\x7d' => some .rightBrace
        | '[' => some .leftBracket
        | ']' => some .rightBracket
        | ';' => some .semicolon
        | ',' => some .comma
        | _ => none
      single?.map fun symbol => (symbol, rest)
  | [] => none

inductive TokenKind where
  | int (value : Int64) (unsigned : Bool)
  | float (value : Binary64)
  | char (value : Int8)
  | text (value : String)
  | name (value : String)
  | keyword (value : Keyword)
  | symbol (value : Symbol)
  | endOfFile
  deriving DecidableEq

structure Token where
  kind : TokenKind
  location : Location
  deriving DecidableEq

def hexByte (byte : UInt8) : String :=
  String.ofList (Text.digits 16 false (byte.toNat / 16) ++
    Text.digits 16 false (byte.toNat % 16))

def TokenKind.describe : TokenKind → String
  | .int value _ => "int literal " ++ toString value.toInt
  | .float value => "float literal " ++ Decimal.plain value
  | .char value =>
      let byte := value.toUInt8
      if 0x20 ≤ byte && byte ≤ 0x7E then
        "char literal '" ++ String.ofList [Char.ofNat byte.toNat] ++ "'"
      else "char literal '\\x" ++ hexByte byte ++ "'"
  | .text value => "string literal \"" ++ value ++ "\""
  | .name value => "identifier '" ++ value ++ "'"
  | .keyword value => "'" ++ value.spelling ++ "'"
  | .symbol value => "'" ++ value.spelling ++ "'"
  | .endOfFile => "end of file"

end Breadboard
