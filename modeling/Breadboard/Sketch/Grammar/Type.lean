import Breadboard.Sketch.Grammar.State

/-!
Type specifiers: qualifiers, a base type, and the stars of a pointer type.
-/

namespace Breadboard

structure Specifiers where
  type : DataType
  isStatic : Bool
  isVolatile : Bool

def Keyword.startsType : Keyword → Bool
  | .intKw | .longKw | .shortKw | .charKw | .boolKw | .floatKw | .doubleKw | .voidKw
  | .unsignedKw | .signedKw | .structKw | .constKw => true
  | _ => false

def Keyword.isQualifier : Keyword → Bool
  | .staticKw | .volatileKw | .constKw => true
  | _ => false

namespace ParseState

def typeFollows (state : ParseState) : Bool :=
  match state.kindAt 1 with
  | some (.keyword keyword) => keyword.startsType
  | some (.name name) => state.isTypeName name
  | _ => false

def startsDeclaration (state : ParseState) : Bool :=
  match state.kind with
  | .keyword keyword => keyword.startsType || keyword.isQualifier
  | .name name =>
      (state.isTypeName name && state.kindAt 1 != some (.symbol .leftParen)) ||
        state.startsObject
  | _ => false

end ParseState

namespace Parse

def keyword (wanted : Keyword) : Parse Bool := accept (.keyword wanted)

def typeFollows : Parse Bool := fun state => .ok (state.typeFollows, state)

def startsDeclaration : Parse Bool := fun state => .ok (state.startsDeclaration, state)

def startsObject : Parse Bool := fun state => .ok (state.startsObject, state)

def takeWhile (property : TokenKind → Bool) : Parse (List TokenKind) := fun state =>
  .ok ((state.tokens.takeWhile fun token => property token.kind).map Token.kind,
    { state with tokens := state.tokens.dropWhile fun token => property token.kind })

def integerWidth : Parse (Option BaseType) := do
  if ← keyword .charKw then pure (some .char)
  else if ← keyword .shortKw then
    let _ ← keyword .intKw
    pure (some .short)
  else if ← keyword .longKw then
    let twice ← keyword .longKw
    let _ ← keyword .intKw
    pure (some (if twice then .longLong else .int))
  else if ← keyword .intKw then pure (some .int)
  else pure none

def unsignedOf : Option BaseType → BaseType
  | some .char => .byte
  | some .short => .word
  | some .longLong => .longLong
  | _ => .unsigned

def baseType : Parse BaseType := do
  match ← kind with
  | .keyword .unsignedKw =>
      advance
      pure (unsignedOf (← integerWidth))
  | .keyword .signedKw =>
      advance
      pure ((← integerWidth).getD .int)
  | .keyword .intKw | .keyword .shortKw | .keyword .longKw | .keyword .charKw =>
      pure ((← integerWidth).getD .int)
  | .keyword .boolKw =>
      advance
      pure .bool
  | .keyword .floatKw =>
      advance
      pure .float
  | .keyword .doubleKw =>
      advance
      pure .double
  | .keyword .voidKw =>
      advance
      pure .void
  | .keyword .structKw =>
      advance
      pure (.record (← name))
  | .name word =>
      match BaseType.ofAlias? word with
      | some base =>
          advance
          pure base
      | none =>
          if (← get).structNames.contains word then
            advance
            pure (.record word)
          else fail (.unknownType word)
  | _ => missing "type"

def isQualifier : TokenKind → Bool
  | .keyword keyword => keyword.isQualifier
  | _ => false

def specifiers : Parse Specifiers := do
  let qualifiers ← takeWhile isQualifier
  let base ← baseType
  let constBehind ← keyword .constKw
  pure {
    type := { base, isConst := constBehind || qualifiers.contains (.keyword .constKw) }
    isStatic := qualifiers.contains (.keyword .staticKw)
    isVolatile := qualifiers.contains (.keyword .volatileKw) }

def pointers (type : DataType) : Parse DataType := do
  let stars ← takeWhile fun kind => kind = .symbol .star
  pure (stars.foldl (fun result _ => result.pointerTo) type)

def plainType : Parse DataType := do
  pointers (← specifiers).type

end Parse

end Breadboard
