import Breadboard.Sketch.ParseError
import Breadboard.Sketch.Program

/-!
What the grammar's rules read and build: the tokens still to come, the nodes so
far, and the names that change how later tokens are read. A rule either fails at
the current token or consumes tokens and yields a result.
-/

namespace Breadboard

structure ParseState where
  /-- The rest of the tokens, the current one first; the end of the file stays. -/
  tokens : List Token
  nodes : Array Node := #[]
  structNames : List String := []
  /-- Constants with a known integer value, later ones first. -/
  constants : List (String × Int64) := []

namespace ParseState

def kindAt (state : ParseState) (ahead : Nat) : Option TokenKind :=
  state.tokens[ahead]?.map Token.kind

def kind (state : ParseState) : TokenKind :=
  match state.tokens with
  | token :: _ => token.kind
  | [] => .endOfFile

def location (state : ParseState) : Location :=
  match state.tokens with
  | token :: _ => token.location
  | [] => Location.start

def advance (state : ParseState) : ParseState :=
  match state.tokens with
  | [] => state
  | token :: rest =>
      if token.kind = .endOfFile then state else { state with tokens := rest }

def nodeKind (state : ParseState) (id : NodeId) : NodeKind := (Program.mk state.nodes []).kind id

def isTypeName (state : ParseState) (name : String) : Bool :=
  (BaseType.ofAlias? name).isSome || state.structNames.contains name

/-- Two names followed by `;`, `(`, `=` or `,`, the first no known type: the
declaration of a library object. -/
def startsObject (state : ParseState) : Bool :=
  match state.tokens with
  | ⟨.name className, _⟩ :: ⟨.name _, _⟩ :: ⟨.symbol symbol, _⟩ :: _ =>
      !state.isTypeName className &&
        [Symbol.semicolon, .leftParen, .assign, .comma].contains symbol
  | _ => false

end ParseState

abbrev Parse := StateT ParseState (Except ParseError)

namespace Parse

def fail {α : Type} (fault : ParseFault) : Parse α := fun state =>
  .error ⟨fault, state.location⟩

def missing {α : Type} (what : String) : Parse α := fun state =>
  .error ⟨.expected what state.kind, state.location⟩

def unexpected {α : Type} : Parse α := fun state =>
  .error ⟨.unexpected state.kind, state.location⟩

def kind : Parse TokenKind := fun state => .ok (state.kind, state)

def location : Parse Location := fun state => .ok (state.location, state)

def advance : Parse Unit := fun state => .ok ((), state.advance)

def remaining : Parse Nat := fun state => .ok (state.tokens.length, state)

def isAt (wanted : TokenKind) : Parse Bool := fun state =>
  .ok (decide (state.kind = wanted), state)

def accept (wanted : TokenKind) : Parse Bool := fun state =>
  if state.kind = wanted then .ok (true, state.advance) else .ok (false, state)

def expect (wanted : TokenKind) (what : String) : Parse Unit := do
  if ← accept wanted then pure () else missing what

def symbol (wanted : Symbol) : Parse Bool := accept (.symbol wanted)

def isAtSymbol (wanted : Symbol) : Parse Bool := isAt (.symbol wanted)

/-- A symbol that must stand here; `context` tells where it is missing. -/
def require (wanted : Symbol) (context : String) : Parse Unit :=
  expect (.symbol wanted) ("'" ++ wanted.spelling ++ "' " ++ context)

def name : Parse String := do
  match ← kind with
  | .name value => do
      advance
      pure value
  | _ => missing "identifier"

def node (kind : NodeKind) (location : Location) : Parse NodeId := fun state =>
  .ok (state.nodes.size, { state with nodes := state.nodes.push ⟨kind, location⟩ })

def moreItems {α : Type} (item : Parse α) : Nat → Parse (List α)
  | 0 => fail .exhausted
  | fuel + 1 => do
      if ← symbol .comma then
        let first ← item
        let rest ← moreItems item fuel
        pure (first :: rest)
      else pure []

def commaSeparated {α : Type} (item : Parse α) (fuel : Nat) : Parse (List α) := do
  let first ← item
  let rest ← moreItems item fuel
  pure (first :: rest)

/-- Items up to a token that ends them, which stays, or up to the end of the file. -/
def itemsUntil {α : Type} (stop : TokenKind → Bool) (item : Parse α) : Nat → Parse (List α)
  | 0 => fail .exhausted
  | fuel + 1 => do
      let current ← kind
      if stop current || current = .endOfFile then pure []
      else
        let first ← item
        let rest ← itemsUntil stop item fuel
        pure (first :: rest)

def group (decls : List NodeId) (location : Location) : Parse NodeId :=
  match decls with
  | [decl] => pure decl
  | _ => node (.declGroup decls) location

end Parse

end Breadboard
