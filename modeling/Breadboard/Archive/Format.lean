import Breadboard.Sketch.Program
import Breadboard.Text.Integer
import Breadboard.Text.Utf8

/-!
The stored form of programs. A file is a header with the counts of nodes and
items, the items, a table of the texts that nodes use, and the nodes in order.
Numbers are little-endian and texts are referred to by their place in the table.
-/

namespace Breadboard.Archive

open Breadboard.Text (Bytes)

def magic : Bytes := [0x53, 0x4B, 0x41, 0x53, 0x54]

def version : Nat := 1

/-- Written in place of a node or a dimension that is absent. -/
def absent : Nat := 0xFFFFFFFF

def maxDepth : Nat := 1024

def binaryOps : List BinaryOp :=
  [.add, .sub, .mul, .div, .mod, .eq, .ne, .lt, .le, .gt, .ge,
    .bitAnd, .bitOr, .bitXor, .shl, .shr]

def logicalOps : List LogicalOp := [.and, .or]

def unaryOps : List UnaryOp := [.neg, .plus, .not, .bitNot, .deref, .addressOf]

def incDecOps : List IncDecOp := [.preInc, .preDec, .postInc, .postDec]

def plainBases : List BaseType :=
  [.void, .bool, .char, .byte, .short, .word, .int, .unsigned, .longLong,
    .float, .double, .text]

/-- The forms of a numeric literal: whole numbers by range, then floats by width. -/
inductive NumberTag where
  | uint8 | int8 | uint16 | int16 | int32 | uint32 | int64 | single | double
  deriving DecidableEq

def NumberTag.all : List NumberTag :=
  [.uint8, .int8, .uint16, .int16, .int32, .uint32, .int64, .single, .double]

end Breadboard.Archive

namespace Breadboard

inductive ArchiveError where
  | unexpectedEnd (pos : Nat)
  | badMagic
  | unsupportedVersion (version : Nat)
  | unknownTag (what : String) (tag : UInt8) (offset : Nat)
  | badString (index : Nat)
  | invalidUtf8
  | danglingNode (id : NodeId)
  | sharedNode (id : NodeId)
  | cyclicNode (id : NodeId)
  | tooDeep (limit : Nat)
  | trailingBytes (count : Nat)
  deriving DecidableEq

def ArchiveError.message : ArchiveError → String
  | .unexpectedEnd pos => "Unexpected end of input at byte " ++ toString pos
  | .badMagic => "Missing SKAST header"
  | .unsupportedVersion version => "Unsupported format version " ++ toString version
  | .unknownTag what tag offset =>
      "Unknown " ++ what ++ " tag 0x" ++
        String.ofList (Text.digits 16 false (tag.toNat / 16) ++
          Text.digits 16 false (tag.toNat % 16)) ++
        " at byte " ++ toString offset
  | .badString index => "String index " ++ toString index ++ " out of range"
  | .invalidUtf8 => "Invalid UTF-8 in string table"
  | .danglingNode id =>
      "Node " ++ toString id ++ " refers to a node that does not exist"
  | .sharedNode id => "Node " ++ toString id ++ " has more than one parent"
  | .cyclicNode id => "Node " ++ toString id ++ " is its own ancestor"
  | .tooDeep limit => "Tree is nested deeper than " ++ toString limit ++ " levels"
  | .trailingBytes count => toString count ++ " trailing bytes after last node"

end Breadboard
