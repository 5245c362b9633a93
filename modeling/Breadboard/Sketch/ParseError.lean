import Breadboard.Sketch.Lexer

/-!
Why a sketch is no program, and where.
-/

namespace Breadboard

inductive ParseFault where
  | lexical (fault : LexFault)
  | missingMacroName
  | functionLikeMacro (name : String)
  | expected (what : String) (found : TokenKind)
  | unexpected (found : TokenKind)
  | unknownType (name : String)
  | referenceParameter
  | arraySize
  | sizeofDimension
  | constructorMismatch (className found : String)
  | statementBeforeCase
  | callOfExpression
  /-- The bound on parsing steps was reached. -/
  | exhausted
  deriving DecidableEq

def ParseFault.message : ParseFault → String
  | .lexical fault => fault.message
  | .missingMacroName => "Expected macro name after #define"
  | .functionLikeMacro name => "Function-like macro '" ++ name ++ "' is not supported"
  | .expected what found => "Expected " ++ what ++ ", found " ++ found.describe
  | .unexpected found => "Unexpected token: " ++ found.describe
  | .unknownType name => "Unknown type name '" ++ name ++ "'"
  | .referenceParameter => "Reference parameters are not supported"
  | .arraySize => "Array size must be a non-negative constant integer"
  | .sizeofDimension => "Expected constant array size in sizeof"
  | .constructorMismatch className found =>
      "Expected constructor '" ++ className ++ "', found '" ++ found ++ "'"
  | .statementBeforeCase => "Statement before first case label in switch"
  | .callOfExpression => "Function call must be on identifier"
  | .exhausted => "Parsing did not finish"

structure ParseError where
  fault : ParseFault
  location : Location
  deriving DecidableEq

def ParseError.message (error : ParseError) : String :=
  "Parse error at line " ++ toString error.location.line ++ ", column " ++
    toString error.location.column ++ ": " ++ error.fault.message

def LexError.toParseError (error : LexError) : ParseError := ⟨.lexical error.fault, error.location⟩

end Breadboard
