import Breadboard.Proofs.Archive.Decoded
import Breadboard.Proofs.Archive.Reading

/-!
A stored program is restored exactly. The format has four bytes for a number: counts, lengths,
positions and dimensions must fit them, and a dimension must not be the mark of an absent one. A
forest of bounded depth that fits is what reading gives back.
-/

open List

namespace Breadboard

namespace NodeKind

def types : NodeKind → List DataType
  | .functionDef _ params retType _ => params.map Field.type ++ [retType]
  | .structDef _ fields => fields.map Field.type
  | .varDecl _ type _ _ _ | .cast type _ | .sizeofType type => [type]
  | _ => []

/-- The lengths of the lists that a node holds, apart from those in its types. -/
def listLengths : NodeKind → List Nat
  | .functionDef _ params _ _ => [params.length]
  | .structDef _ fields => [fields.length]
  | .objectDecl _ _ args | .call _ args | .methodCall _ _ args => [args.length]
  | .declGroup nodes | .block nodes | .initList nodes => [nodes.length]
  | .switch _ cases => cases.length :: cases.map (·.body.length)
  | _ => []

end NodeKind

namespace Archive

open Breadboard.Text (Bytes)

/-- A type can be stored: a dimension is absent or less than the mark of an absent one. -/
structure TypeFits (type : DataType) : Prop where
  few : type.dims.length < 2 ^ 32
  small : ∀ dim ∈ type.dims, ∀ size ∈ dim, size < absent

structure NodeFits (node : Node) : Prop where
  line : node.location.line < 2 ^ 32
  column : node.location.column < 2 ^ 32
  lists : ∀ length ∈ node.kind.listLengths, length < 2 ^ 32
  types : ∀ type ∈ node.kind.types, TypeFits type

/-- All counts, lengths, positions and dimensions of a program fit the format. -/
structure Fits (prog : Program) : Prop where
  nodes : prog.nodes.size < 2 ^ 32
  items : prog.items.length < 2 ^ 32
  texts : (textTable prog).length < 2 ^ 32
  lengths : ∀ text ∈ textTable prog, Text.size text < 2 ^ 32
  each : ∀ node ∈ prog.nodes.toList, NodeFits node

instance (type : DataType) : Decidable (TypeFits type) :=
  decidable_of_iff (type.dims.length < 2 ^ 32 ∧ ∀ dim ∈ type.dims, ∀ size ∈ dim, size < absent)
    ⟨fun ⟨few, small⟩ => ⟨few, small⟩, fun fits => ⟨fits.few, fits.small⟩⟩

instance (node : Node) : Decidable (NodeFits node) :=
  decidable_of_iff (node.location.line < 2 ^ 32 ∧ node.location.column < 2 ^ 32 ∧
      (∀ length ∈ node.kind.listLengths, length < 2 ^ 32) ∧
      ∀ type ∈ node.kind.types, TypeFits type)
    ⟨fun ⟨line, column, lists, types⟩ => ⟨line, column, lists, types⟩,
      fun fits => ⟨fits.line, fits.column, fits.lists, fits.types⟩⟩

instance (prog : Program) : Decidable (Fits prog) :=
  decidable_of_iff (prog.nodes.size < 2 ^ 32 ∧ prog.items.length < 2 ^ 32 ∧
      (textTable prog).length < 2 ^ 32 ∧
      (∀ text ∈ textTable prog, Text.size text < 2 ^ 32) ∧
      ∀ node ∈ prog.nodes.toList, NodeFits node)
    ⟨fun ⟨nodes, items, texts, lengths, each⟩ => ⟨nodes, items, texts, lengths, each⟩,
      fun fits => ⟨fits.nodes, fits.items, fits.texts, fits.lengths, fits.each⟩⟩

/-- A node can be written with a table and read back: its texts are in the table, its children
are numbers that stand for no absent node, and its lists and types fit. -/
structure Writable (table : List String) (kind : NodeKind) : Prop where
  small : table.length < 2 ^ 32
  texts : ∀ text ∈ texts kind, text ∈ table
  children : ∀ child ∈ kind.children, child < absent
  lists : ∀ length ∈ kind.listLengths, length < 2 ^ 32
  types : ∀ type ∈ kind.types, TypeFits type

namespace Writable

attribute [local simp] Archive.texts NodeKind.children NodeKind.listLengths NodeKind.types

open Read (Takes takes_byte takes_counted takes_flag takes_float takes_integer takes_operator
  takes_pure)

variable {table : List String} {kind : NodeKind} (writable : Writable table kind)
include writable

theorem takes_text (text : String) (used : text ∈ Archive.texts kind) :
    (Read.reference table).Takes (reference table text) text :=
  Read.takes_reference writable.small (writable.texts text used)

theorem takes_child (child : NodeId) (isChild : child ∈ kind.children) :
    Read.word.Takes (word child) child :=
  Read.takes_word (Nat.lt_trans (writable.children child isChild) (by decide))

theorem takes_child? (child : Option NodeId) (isChild : ∀ found ∈ child, found ∈ kind.children) :
    Read.optionalWord.Takes (optionalWord child) child :=
  Read.takes_optionalWord fun found among => writable.children found (isChild found among)

theorem takes_children (children : List NodeId) (few : children.length ∈ kind.listLengths)
    (areChildren : ∀ child ∈ children, child ∈ kind.children) :
    Read.words.Takes (words children) children :=
  takes_counted (writable.lists _ few) fun child among =>
    writable.takes_child child (areChildren child among)

theorem takes_type (type : DataType) (among : type ∈ kind.types)
    (used : ∀ text ∈ typeTexts type, text ∈ Archive.texts kind) :
    (Read.dataType table).Takes (dataType table type) type :=
  have fits := writable.types type among
  Read.takes_dataType writable.small (fun text found => writable.texts text (used text found))
    fits.few fits.small

theorem takes_fields (members : List Field) (few : members.length ∈ kind.listLengths)
    (among : ∀ member ∈ members, member.type ∈ kind.types)
    (used : ∀ text ∈ members.flatMap fieldTexts, text ∈ Archive.texts kind) :
    (Read.counted (Read.field table)).Takes (fields table members) members := by
  refine takes_counted (writable.lists _ few) fun member isMember => ?_
  have inside : ∀ text ∈ fieldTexts member, text ∈ Archive.texts kind :=
    fun text found => used text (mem_flatMap.mpr ⟨member, isMember, found⟩)
  obtain ⟨nameUsed, typeUsed⟩ := forall_mem_cons.mp inside
  refine (writable.takes_text _ nameUsed).bind (Takes.map ?_ _)
  exact writable.takes_type _ (among member isMember) typeUsed

theorem takes_arms (arms : List SwitchCase) (few : arms.length ∈ kind.listLengths)
    (bodies : ∀ arm ∈ arms, arm.body.length ∈ kind.listLengths)
    (areChildren : ∀ arm ∈ arms, ∀ child ∈ arm.label.toList ++ arm.body, child ∈ kind.children) :
    (Read.counted Read.arm).Takes (word arms.length ++ arms.flatMap arm) arms := by
  refine takes_counted (writable.lists _ few) fun arm isArm => ?_
  obtain ⟨label, body⟩ := forall_mem_append.mp (areChildren arm isArm)
  have labelIsChild : ∀ child ∈ arm.label, child ∈ kind.children :=
    fun child found => label child (Option.mem_toList.mpr found)
  refine (writable.takes_child? _ labelIsChild).bind ?_
  exact (writable.takes_children _ (bodies arm isArm) body).map _

theorem takes_contents : (Read.contents table (kindTag kind)).Takes (contents table kind) kind := by
  cases kind with
  | functionDef name params retType body =>
    have takesName := writable.takes_text name (by simp)
    have takesParams := writable.takes_fields params (by simp)
      (fun param among => by simp [mem_map_of_mem among])
      (by simp +contextual)
    have takesReturn := writable.takes_type retType (by simp)
      (by simp +contextual)
    have takesBody := writable.takes_child body (by simp)
    simp only [contents, append_assoc]
    exact takesName.bind (takesParams.bind (takesReturn.bind (takesBody.map _)))
  | structDef name members =>
    have takesName := writable.takes_text name (by simp)
    have takesFields := writable.takes_fields members (by simp)
      (fun member among => by simp [mem_map_of_mem among])
      (by simp +contextual)
    exact takesName.bind (takesFields.map _)
  | varDecl name type init isStatic isVolatile =>
    have takesName := writable.takes_text name (by simp)
    have takesType := writable.takes_type type (by simp)
      (by simp +contextual)
    have takesInit := writable.takes_child? init (by simp)
    simp only [contents, append_assoc]
    refine takesName.bind (takesType.bind (takesInit.bind ((takes_byte _).last ?_)))
    cases isStatic <;> cases isVolatile <;> exact takes_pure _
  | objectDecl name className args =>
    have takesName := writable.takes_text name (by simp)
    have takesClass := writable.takes_text className (by simp)
    have takesArgs := writable.takes_children args (by simp) fun _ => id
    simp only [contents, append_assoc]
    exact takesName.bind (takesClass.bind (takesArgs.map _))
  | declGroup nodes | block nodes | initList nodes =>
    exact (writable.takes_children nodes (by simp) fun _ => id).map _
  | exprStmt expr | sizeofExpr expr =>
    exact (writable.takes_child expr (by simp)).map _
  | ifElse cond thenBranch elseBranch =>
    have takesCondition := writable.takes_child cond (by simp)
    have takesThen := writable.takes_child thenBranch (by simp)
    have takesElse := writable.takes_child? elseBranch (by simp +contextual)
    simp only [contents, append_assoc]
    exact takesCondition.bind (takesThen.bind (takesElse.map _))
  | whileLoop first second | doWhile first second | assign first second | index first second =>
    have takesFirst := writable.takes_child first (by simp)
    have takesSecond := writable.takes_child second (by simp)
    exact takesFirst.bind (takesSecond.map _)
  | forLoop init cond increment body =>
    have takesInit := writable.takes_child? init (by simp +contextual)
    have takesCondition := writable.takes_child? cond (by simp +contextual)
    have takesIncrement := writable.takes_child? increment (by simp +contextual)
    have takesBody := writable.takes_child body (by simp)
    simp only [contents, append_assoc]
    exact takesInit.bind (takesCondition.bind (takesIncrement.bind (takesBody.map _)))
  | switch expr arms =>
    have takesExpr := writable.takes_child expr (by simp)
    have takesArms := writable.takes_arms arms (by simp) (fun arm among => by
        simp only [NodeKind.listLengths, mem_cons, mem_map]
        exact .inr ⟨arm, among, rfl⟩)
      (fun arm among child found => by
        simp only [NodeKind.children, mem_cons, mem_flatMap]
        exact .inr ⟨arm, among, found⟩)
    simp only [contents, append_assoc]
    exact takesExpr.bind (takesArms.map _)
  | returnStmt expr => exact (writable.takes_child? expr (by simp)).map _
  | breakStmt | continueStmt | empty | nullLiteral => exact takes_pure _
  | intLiteral value isUnsigned => exact (takes_flag _).bind (takes_integer value isUnsigned)
  | floatLiteral value => exact (takes_flag _).bind (takes_float value false)
  | charLiteral value => exact (takes_byte _).last (takes_pure _)
  | boolLiteral value => exact (takes_flag value).map _
  | stringLiteral text | identifier text =>
    exact (writable.takes_text text (by simp)).map _
  | binary op left right | compoundAssign op left right =>
    have takesLeft := writable.takes_child left (by simp)
    have takesRight := writable.takes_child right (by simp)
    simp only [contents, append_assoc]
    exact (Read.takes_binaryOp op).bind (takesLeft.bind (takesRight.map _))
  | logical op left right =>
    have takesLeft := writable.takes_child left (by simp)
    have takesRight := writable.takes_child right (by simp)
    simp only [contents, append_assoc]
    exact (Read.takes_logicalOp op).bind (takesLeft.bind (takesRight.map _))
  | unary op operand =>
    have takesOperand := writable.takes_child operand (by simp)
    exact (Read.takes_unaryOp op).bind (takesOperand.map _)
  | incDec op target =>
    have takesTarget := writable.takes_child target (by simp)
    exact (Read.takes_incDecOp op).bind (takesTarget.map _)
  | ternary cond thenExpr elseExpr =>
    have takesCondition := writable.takes_child cond (by simp)
    have takesThen := writable.takes_child thenExpr (by simp)
    have takesElse := writable.takes_child elseExpr (by simp)
    simp only [contents, append_assoc]
    exact takesCondition.bind (takesThen.bind (takesElse.map _))
  | call callee args =>
    have takesCallee := writable.takes_text callee (by simp)
    have takesArgs := writable.takes_children args (by simp) fun _ => id
    exact takesCallee.bind (takesArgs.map _)
  | methodCall receiver method args =>
    have takesReceiver := writable.takes_child receiver (by simp)
    have takesMethod := writable.takes_text method (by simp)
    have takesArgs := writable.takes_children args (by simp)
      (by simp +contextual)
    simp only [contents, append_assoc]
    exact takesReceiver.bind (takesMethod.bind (takesArgs.map _))
  | member object name throughPointer =>
    have takesObject := writable.takes_child object (by simp)
    have takesName := writable.takes_text name (by simp)
    simp only [contents, append_assoc]
    exact takesObject.bind (takesName.bind ((takes_flag _).map _))
  | cast type expr =>
    have takesType := writable.takes_type type (by simp) (by simp)
    have takesExpr := writable.takes_child expr (by simp)
    exact takesType.bind (takesExpr.map _)
  | sizeofType type =>
    exact (writable.takes_type type (by simp) (by simp)).map _

end Writable

theorem takes_node (writable : Writable table stored.kind)
    (fits : NodeFits stored) : (Read.node table).Takes (node table stored) stored := by
  have takesContents := writable.takes_contents
  exact (Read.takes_byte (kindTag stored.kind)).bind ((Read.takes_word fits.line).bind
    ((Read.takes_word fits.column).bind (takesContents.map _)))

theorem takes_header : Read.header.Takes (magic ++ littleEndian 2 version) () := fun _ _ => rfl

variable {prog : Program}

theorem Fits.writable (fits : Fits prog)
    (inside : ∀ child ∈ prog.references, child < prog.nodes.size) {stored : Node}
    (among : stored ∈ prog.nodes.toList) : Writable (textTable prog) stored.kind where
  small := fits.texts
  texts text used := by
    rw [textTable, mem_eraseDups]
    exact mem_flatMap.mpr ⟨stored, among, used⟩
  children child isChild := by
    have below := inside child (mem_flatMap.mpr ⟨stored, among, isChild⟩)
    exact Nat.lt_of_lt_of_le below (Nat.le_of_lt_succ fits.nodes)
  lists := (fits.each stored among).lists
  types := (fits.each stored among).types

theorem finishes_program (fits : Fits prog)
    (inside : ∀ child ∈ prog.references, child < prog.nodes.size)
    (itemsInside : ∀ item ∈ prog.items, item < prog.nodes.size) :
    Read.program.Finishes (encode prog) prog := by
  have takesItems : Read.words.Takes (words prog.items) prog.items :=
    Read.takes_words fits.items fun item among => Nat.lt_trans (itemsInside item among) fits.nodes
  have takesTable := Read.takes_counted fits.texts fun text among =>
    Read.takes_text (fits.lengths text among)
  have takesNodes := Read.takes_replicate fun stored among =>
    takes_node (fits.writable inside among) (fits.each stored among)
  rw [Array.length_toList] at takesNodes
  have written : encode prog = (magic ++ littleEndian 2 version) ++ (word prog.nodes.size ++
      (words prog.items ++ ((word (textTable prog).length ++ (textTable prog).flatMap text) ++
          (prog.nodes.toList.flatMap (node (textTable prog)) ++ [])))) := by
    simp only [encode, append_assoc, append_nil]
  rw [written]
  refine takes_header.finishes ((Read.takes_word fits.nodes).finishes (takesItems.finishes
    (takesTable.finishes (takesNodes.finishes ?_))))
  exact fun _ => rfl

theorem decode_encode_eq (fits : Fits prog)
    (inside : ∀ child ∈ prog.references, child < prog.nodes.size)
    (itemsInside : ∀ item ∈ prog.items, item < prog.nodes.size) :
    decode (encode prog) = (checkForest prog).map fun _ => prog := by
  have read : StateT.run Read.program { rest := encode prog } = .ok (prog, _) :=
    finishes_program fits inside itemsInside 0
  rw [decode, read]
  change (checkForest prog >>= fun _ => .ok prog) = _
  cases checkForest prog <;> rfl

/-- A program that is a forest of bounded depth and fits the format is restored exactly. -/
theorem decode_encode (program : Program) (bounded : program.IsBoundedForest maxDepth)
    (fits : Fits program) : decode (encode program) = .ok program := by
  rw [decode_encode_eq fits bounded.inside bounded.itemsInside,
    checkForest_of_isBoundedForest bounded]
  rfl

/-- The declaration `const float gains[][2] = {-200, -0.0};`. -/
def gains : Program where
  nodes := #[ ⟨.intLiteral (-200) false, ⟨1, 27⟩⟩, ⟨.floatLiteral ⟨0x8000000000000000⟩, ⟨1, 33⟩⟩,
    ⟨.initList [0, 1], ⟨1, 26⟩⟩,
    ⟨.varDecl "gains" { base := .float, isConst := true, dims := [none, some 2] } (some 2)
      false false, ⟨1, 13⟩⟩]
  items := [3]

theorem gains_isBoundedForest : gains.IsBoundedForest maxDepth :=
  Program.isBoundedForest_of_ordered (by decide) (by decide) (by decide) (by decide)

theorem gains_fits : Fits gains := by decide

theorem gains_restored : gains.IsBoundedForest maxDepth ∧ Fits gains ∧
    decode (encode gains) = .ok gains :=
  ⟨gains_isBoundedForest, gains_fits, decode_encode gains gains_isBoundedForest gains_fits⟩

end Archive

end Breadboard
