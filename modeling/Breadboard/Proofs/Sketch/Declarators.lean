import Breadboard.Proofs.Sketch.Parsed
import Breadboard.Proofs.Sketch.ReadBack

/-!
Array sizes. The parser computes a size from the constants that it knows where the size stands.
`Program.Folds` is that computation as a relation, and for each declared name of a program
`Declarator` tells the sizes behind it, each with the constants known there: the dimensions of the
type are what the sizes come to.
-/

open List

namespace Breadboard

theorem GrowsTo.kind_of (grows : GrowsTo nodes grown) {id : NodeId}
    (found : (Program.mk nodes items).kind id = kind) (some : kind ≠ .empty) :
    (Program.mk grown others).kind id = kind := by
  by_cases inside : id < nodes.size
  · rw [grows.kind_eq inside others items, found]
  · rw [Program.kind_eq_empty (Nat.le_of_not_lt inside)] at found
    exact absurd found.symm some

/-- An expression in brackets, and the constants that are known behind it. -/
structure ArraySize where
  node : NodeId
  known : List (String × Int64)
deriving DecidableEq

namespace Program

/-- The number that a size comes to with the constants of a table. -/
inductive Folds (prog : Program) (table : List (String × Int64)) : NodeId → Int64 → Prop where
  | intLiteral {id n unsigned}
      (kind : prog.kind id = .intLiteral n unsigned) : Folds prog table id n
  | charLiteral {id c} (kind : prog.kind id = .charLiteral c) : Folds prog table id c.toInt64
  | identifier {id name n}
      (kind : prog.kind id = .identifier name) (known : table.lookup name = some n) :
      Folds prog table id n
  | neg {id operand n} (kind : prog.kind id = .unary .neg operand)
      (part : Folds prog table operand n) : Folds prog table id (-n)
  | binary {id left right op l r n}
      (kind : prog.kind id = .binary op left right) (first : Folds prog table left l)
      (second : Folds prog table right r) (res : op.fold? l r = some n) : Folds prog table id n

/-- The dimension that brackets give to a type, without or with a size in them. -/
inductive Records (prog : Program) : Option ArraySize → Option Nat → Prop where
  | unsized : Records prog none none
  | sized {size n} (folds : prog.Folds size.known size.node n)
      (nonneg : 0 ≤ n) : Records prog (some size) (some n.toInt.toNat)

/-- A node declares a name with a type, as a variable or as a field. -/
inductive Declares (prog : Program) (decl : NodeId) (word : String) (type : DataType) :
    Prop where
  | ofVariable {init isStatic isVolatile}
      (kind : prog.kind decl = .varDecl word type init isStatic isVolatile)
  | ofField {name fields}
      (kind : prog.kind decl = .structDef name fields) (among : ⟨word, type⟩ ∈ fields)

variable {nodes grown : Array Node} {items others : List NodeId} {table : List (String × Int64)}

theorem Folds.mono (grows : GrowsTo nodes grown) {id : NodeId}
    (folds : Folds ⟨nodes, items⟩ table id n) : Folds ⟨grown, others⟩ table id n := by
  induction folds with
  | intLiteral kind => exact .intLiteral (grows.kind_of kind nofun)
  | charLiteral kind => exact .charLiteral (grows.kind_of kind nofun)
  | identifier kind known => exact .identifier (grows.kind_of kind nofun) known
  | neg kind _ part => exact .neg (grows.kind_of kind nofun) part
  | binary kind _ _ res first second =>
    exact .binary (grows.kind_of kind nofun) first second res

theorem Records.mono (grows : GrowsTo nodes grown)
    (records : Records ⟨nodes, items⟩ size dim) : Records ⟨grown, others⟩ size dim := by
  cases records with
  | unsized => exact .unsized
  | sized folds nonneg => exact .sized (folds.mono grows) nonneg

theorem Declares.declares {prog : Program}
    (declares : prog.Declares decl word type) : (prog.kind decl).declares = true := by
  cases declares with
  | ofVariable kind | ofField kind =>
    rw [kind]
    rfl

end Program

theorem ParseState.folds_of_constant? {state : ParseState} {id : NodeId}
    (found : state.constant? fuel id = some n) :
    Program.Folds ⟨state.nodes, []⟩ state.constants id n := by
  induction fuel generalizing id n with
  | zero => cases found
  | succ fuel ih =>
    simp only [constant?] at found
    split at found
    · rename_i kind
      cases found
      exact .intLiteral kind
    · rename_i kind
      cases found
      exact .charLiteral kind
    · rename_i kind
      exact .identifier kind found
    · rename_i kind
      obtain ⟨m, part, rfl⟩ := Option.map_eq_some_iff.mp found
      exact .neg kind (ih part)
    · rename_i kind
      obtain ⟨l, left, found⟩ := Option.bind_eq_some_iff.mp found
      obtain ⟨r, right, res⟩ := Option.bind_eq_some_iff.mp found
      exact .binary kind (ih left) (ih right) res
    · cases found

namespace Parse

variable {state next : ParseState} {type : DataType}

/-- What stands in the brackets that follow, without a look at its value. -/
def brackets : Nat → Parse (List (Option ArraySize))
  | 0 => fail .exhausted
  | fuel + 1 => do
    if ← symbol .leftBracket then
      if ← symbol .rightBracket then (none :: ·) <$> brackets fuel
      else
        let size ← expression
        let state ← get
        require .rightBracket "after array size"
        (some ⟨size, state.constants⟩ :: ·) <$> brackets fuel
    else pure []

def sizes : Parse (List (Option ArraySize)) := do brackets ((← remaining) + 1)

theorem brackets_of_arrays (run : arrays fuel type state = .ok (full, next)) :
    ∃ sizes dims, brackets fuel state = .ok (sizes, next) ∧ full.dims = type.dims ++ dims ∧
      List.Forall₂ (Program.Records ⟨next.nodes, []⟩) sizes dims := by
  induction fuel generalizing type state with
  | zero => cases run
  | succ fuel ih =>
    obtain ⟨opens, opened, found, run⟩ := bind_ok run
    rw [brackets, bind_of_ok found]
    cases opens with
    | false =>
      cases run
      exact ⟨[], [], rfl, by simp, .nil⟩
    | true =>
      obtain ⟨closes, closed, found, run⟩ := bind_ok run
      rw [if_pos rfl, bind_of_ok found]
      cases closes with
      | true =>
        obtain ⟨sizes, dims, written, same, records⟩ := ih run
        exact ⟨none :: sizes, none :: dims, map_of_ok written _,
          by simp [same, DataType.arrayOf], .cons .unsized records⟩
      | false =>
        obtain ⟨size, sized, read, run⟩ := bind_ok run
        obtain ⟨value, _, found, rest⟩ := bind_ok run
        rw [if_neg Bool.false_ne_true, bind_of_ok read]
        split at rest
        · rename_i n
          split at rest
          · cases rest
          · rename_i nonneg
            obtain ⟨_, behind, required, others⟩ := bind_ok rest
            obtain ⟨sizes, dims, written, extended, records⟩ := ih others
            obtain ⟨folded, same⟩ := Prod.mk.inj (Except.ok.inj found)
            subst same
            have closes := (quiet_require _ _).grown required
            have grows := closes.trans ((quiet_arrays _ (Nat.zero_le _)).grown others)
            have folds : Program.Folds ⟨next.nodes, []⟩ sized.constants size n :=
              (ParseState.folds_of_constant? folded).mono grows.traced.moves.nodes
            refine ⟨some ⟨size, sized.constants⟩ :: sizes, some n.toInt.toNat :: dims, ?_,
              by simp [extended, DataType.arrayOf],
              .cons (.sized folds (Int64.not_lt.mp nonneg)) records⟩
            have reads : (get : Parse ParseState) sized = .ok (sized, sized) := rfl
            rw [bind_of_ok reads, bind_of_ok required]
            exact map_of_ok written _
        · cases rest

theorem sizes_of_arraySuffix (plain : base.dims = [])
    (run : arraySuffix base state = .ok (type, next)) :
    ∃ written, sizes state = .ok (written, next) ∧
      List.Forall₂ (Program.Records ⟨next.nodes, []⟩) written type.dims := by
  obtain ⟨fuel, _, counted, run⟩ := bind_ok run
  cases counted
  obtain ⟨written, dims, read, same, records⟩ := brackets_of_arrays run
  rw [plain, nil_append] at same
  rw [same]
  exact ⟨written, read, records⟩

def fieldSizes (spec : Specifiers) : Parse (List (Option ArraySize)) := do
  let _ ← pointers spec.type
  let _ ← name
  sizes

theorem sizes_of_structField (plain : spec.type.dims = [])
    (run : structField spec state = .ok (field, next)) :
    ∃ written, fieldSizes spec state = .ok (written, next) ∧
      List.Forall₂ (Program.Records ⟨next.nodes, []⟩) written field.type.dims := by
  obtain ⟨base, starred, stars, run⟩ := bind_ok run
  obtain ⟨word, named, names, run⟩ := bind_ok run
  obtain ⟨type, _, suffix, run⟩ := bind_ok run
  cases run
  obtain ⟨written, read, records⟩ := sizes_of_arraySuffix (pointers_dims plain _ _ _ stars) suffix
  refine ⟨written, ?_, records⟩
  rw [fieldSizes, bind_of_ok stars, bind_of_ok names]
  exact read

/-- A node declares a name with a type, and behind the name stand brackets with sizes. -/
inductive Declarator (start : ParseState) (decl : NodeId) (word : String) (type : DataType)
    (written : List (Option ArraySize)) (stop : ParseState) : Prop where
  | ofVariable {spec base place before sized after} (plain : base.dims = []) (reached : start.Moves before)
      (declares : variableAfterName spec base word place before = .ok (decl, after))
      (suffix : arraySuffix base before = .ok (type, sized))
      (brackets : sizes before = .ok (written, sized)) (goes : after.Moves stop)
  | ofField {spec before first second after}
      (plain : spec.type.dims = []) (reached : start.Moves before)
      (defines : structDefinition before = .ok (decl, after)) (within : before.Moves first)
      (declares : structField spec first = .ok (⟨word, type⟩, second))
      (brackets : fieldSizes spec first = .ok (written, second)) (leaves : second.Moves after)
      (goes : after.Moves stop)

theorem moves_node {kind : NodeKind} {id : NodeId}
    (built : node kind place state = .ok (id, next)) :
    state.Moves next ∧ next.nodeKind id = kind ∧ id < next.nodes.size := by
  cases built
  exact ⟨⟨suffix_rfl, suffix_rfl, [⟨kind, place⟩], by simp⟩,
    by simp [ParseState.nodeKind, Program.kind], by simp⟩

theorem Declarator.records (declarator : Declarator start decl word type written stop)
    (items : List NodeId) :
    List.Forall₂ (Program.Records ⟨stop.nodes, items⟩) written type.dims := by
  cases declarator with
  | ofVariable plain _ declares suffix brackets goes =>
    obtain ⟨_, _, sized, _, again, growth, built⟩ := variableAfterName_ok declares
    cases suffix.symm.trans again
    obtain ⟨_, read, records⟩ := sizes_of_arraySuffix plain suffix
    cases brackets.symm.trans read
    have behind := growth.traced.moves.trans (moves_node built).1
    exact records.imp fun _ _ records => records.mono (behind.trans goes).nodes
  | ofField plain _ _ _ declares brackets leaves goes =>
    obtain ⟨_, read, records⟩ := sizes_of_structField plain declares
    cases brackets.symm.trans read
    exact records.imp fun _ _ records => records.mono (leaves.trans goes).nodes

/-! Each of several items was read at some point by the rule for one. -/

section Members

variable {α : Type} {item : Parse α} (quiet : item.Quiet 0 1) {fuel : Nat} {state last : ParseState}
  {items : List α}

include quiet

theorem between_of_mem_cons (one : item state = .ok (first, middle)) (others : middle.Moves last)
    (among : x ∈ first :: items) (later : x ∈ items → item.Between middle x last) :
    item.Between state x last := by
  rcases mem_cons.mp among with rfl | among
  · exact ⟨state, middle, .refl _, one, others⟩
  · exact (later among).trans (quiet.grown one).traced.moves (.refl _)

theorem between_of_mem_moreItems (read : moreItems item fuel state = .ok (items, last)) :
    ∀ x ∈ items, item.Between state x last := by
  induction fuel generalizing state items with
  | zero => cases read
  | succ fuel ih =>
    obtain ⟨found, opened, comma, read⟩ := bind_ok read
    split at read
    · obtain ⟨first, middle, one, read⟩ := bind_ok read
      obtain ⟨rest, _, others, read⟩ := bind_ok read
      cases read
      intro x among
      have comma := (quiet_accept.grown comma).traced.moves
      have moves := ((builds_moreItems quiet (Nat.zero_le _)).grown others).traced.moves
      exact (between_of_mem_cons quiet one moves among (ih others x)).trans comma (.refl _)
    · cases read
      exact nofun

theorem between_of_mem_commaSeparated (read : commaSeparated item fuel state = .ok (items, last)) :
    ∀ x ∈ items, item.Between state x last := by
  obtain ⟨first, middle, one, read⟩ := bind_ok read
  obtain ⟨rest, _, others, read⟩ := bind_ok read
  cases read
  intro x among
  exact between_of_mem_cons quiet one ((builds_moreItems quiet (Nat.zero_le _)).grown others).traced.moves among
    (between_of_mem_moreItems quiet others x)

theorem between_of_mem_itemsUntil (read : itemsUntil stop item fuel state = .ok (items, last)) :
    ∀ x ∈ items, item.Between state x last := by
  induction fuel generalizing state items with
  | zero => cases read
  | succ fuel ih =>
    obtain ⟨current, _, found, read⟩ := bind_ok read
    cases found
    split at read
    · cases read
      exact nofun
    · obtain ⟨first, middle, one, read⟩ := bind_ok read
      obtain ⟨rest, _, others, read⟩ := bind_ok read
      cases read
      intro x among
      have moves := ((builds_itemsUntil _ quiet (Nat.zero_le _)).grown others).traced.moves
      exact between_of_mem_cons quiet one moves among (ih others x)

end Members

theorem between_of_mem_structFields (run : structFields state = .ok (fields, next)) :
    ∀ field ∈ fields, ∃ spec, spec.type.dims = [] ∧
      (structField spec).Between state field next := by
  obtain ⟨spec, specified, specifies, run⟩ := bind_ok run
  obtain ⟨fuel, _, counted, run⟩ := bind_ok run
  cases counted
  obtain ⟨_, separated, members, run⟩ := bind_ok run
  obtain ⟨_, _, ends, run⟩ := bind_ok run
  cases run
  intro field among
  have between := between_of_mem_commaSeparated (quiet_structField spec) members field among
  exact ⟨spec, specifiers_dims _ _ _ specifies,
    between.trans (quiet_specifiers.grown specifies).traced.moves
      ((quiet_require _ _).grown ends).traced.moves⟩

theorem exists_declarator (parsed : Parse.program { tokens } = .ok (prog, last))
    (declares : prog.Declares decl word type) :
    ∃ written, Declarator { tokens } decl word type written last := by
  obtain ⟨fuel, items, read, rfl⟩ := program_ok parsed
  obtain ⟨rule, isRule, before, after, reached, run, goes⟩ :=
    ((builds_itemsUntil _ builds_topLevel (Nat.zero_le _)).grown read).traced.declared decl (Nat.zero_le _)
      declares.declares
  have kind_eq {kind : NodeKind} {place : Location} {between : ParseState}
      (built : node kind place between = .ok (decl, after)) :
      (Program.mk last.nodes (items.filterMap id)).kind decl = kind := by
    obtain ⟨-, same, inside⟩ := moves_node built
    rw [goes.nodes.kind_eq inside _ []]
    exact same
  cases isRule with
  | ofVariable plain =>
    obtain ⟨found, init, sized, between, suffix, -, built⟩ := variableAfterName_ok run
    cases declares with
    | ofVariable isVariable =>
      cases (kind_eq built).symm.trans isVariable
      obtain ⟨written, brackets, -⟩ := sizes_of_arraySuffix plain suffix
      exact ⟨written, .ofVariable plain reached run suffix brackets goes⟩
    | ofField isField => cases (kind_eq built).symm.trans isField
  | ofStructure =>
    obtain ⟨name, lines, place, _, opened, listed, between, opens, members, closes, built⟩ :=
      structDefinition_ok run
    cases declares with
    | ofVariable isVariable => cases (kind_eq built).symm.trans isVariable
    | ofField isField among =>
      cases (kind_eq built).symm.trans isField
      obtain ⟨line, amongLines, among⟩ := mem_flatten.mp among
      obtain ⟨first, second, enters, readLine, leaves⟩ :=
        between_of_mem_itemsUntil quiet_structFields members line amongLines
      obtain ⟨spec, plain, ran⟩ := between_of_mem_structFields readLine _ among
      obtain ⟨first, second, enters, field, leaves⟩ := ran.trans (opens.traced.moves.trans enters)
        (leaves.trans (closes.traced.moves.trans (moves_node built).1))
      obtain ⟨written, brackets, -⟩ := sizes_of_structField plain field
      exact ⟨written, .ofField plain reached run enters field brackets leaves goes⟩

end Parse

/-- In the text of a sketch a node declares a name with a type, and behind the name stand brackets
with sizes. -/
def DeclaredIn (source : String) (decl : NodeId) (word : String) (type : DataType)
    (written : List (Option ArraySize)) : Prop :=
  ∃ text tokens prog last, preprocess source = .ok text ∧ tokenize text.source = .ok tokens ∧
    Parse.program { tokens } = .ok (prog, last) ∧
    Parse.Declarator { tokens } decl word type written last

variable {source : String} {sketch : Sketch} {decl : NodeId} {word : String} {type : DataType}

variable (parsed : parseSketch source = .ok sketch)
include parsed

theorem tokens_of_parseSketch :
    ∃ text tokens last, preprocess source = .ok text ∧ tokenize text.source = .ok tokens ∧
      Parse.program { tokens } = .ok (sketch.program, last) := by
  obtain ⟨text, prepared, parsed⟩ := bind_eq_ok.mp parsed
  obtain ⟨prog, built, parsed⟩ := bind_eq_ok.mp parsed
  cases parsed
  obtain ⟨tokens, last, read, built⟩ := tokens_of_parseProgram built
  exact ⟨text, tokens, last, prepared, read, built⟩

theorem exists_declaredIn (declares : sketch.program.Declares decl word type) :
    ∃ written, DeclaredIn source decl word type written := by
  obtain ⟨text, tokens, last, prepared, read, built⟩ := tokens_of_parseSketch parsed
  obtain ⟨written, declarator⟩ := Parse.exists_declarator built declares
  exact ⟨written, text, tokens, sketch.program, last, prepared, read, built, declarator⟩

theorem DeclaredIn.records (declared : DeclaredIn source decl word type written) :
    List.Forall₂ sketch.program.Records written type.dims := by
  obtain ⟨⟨nodes, items⟩, macros⟩ := sketch
  obtain ⟨text, tokens, last, prepared, read, built⟩ := tokens_of_parseSketch parsed
  obtain ⟨_, _, prog, _, preparedToo, readToo, builtToo, declarator⟩ := declared
  cases prepared.symm.trans preparedToo
  cases read.symm.trans readToo
  cases built.symm.trans builtToo
  obtain ⟨_, _, -, same⟩ := Parse.program_ok built
  cases same
  exact declarator.records _

end Breadboard
