import Breadboard.Proofs.Sketch.Bounded
import Breadboard.Proofs.Sketch.Lexeme
import Breadboard.Proofs.Sketch.ReadBack
import Breadboard.Sketch

/-!
The grammar sets no bound on how deep a sketch nests. A variable whose initial value complements
another one any number of times is a sketch, and its program has a way down that meets a node for
each complement.
-/

open List

namespace Breadboard

/-! Texts without macros. -/

namespace Macro

theorem literal_append (quote : Char) (text : List Char) :
    (literal quote text).1 ++ (literal quote text).2 = text := by
  fun_induction literal quote text with
  | case1 | case2 | case4 rest => rfl
  | case3 c rest body tail found ih | case5 c rest _ _ other body tail found ih => simp_all

theorem substitute_nil (expandBody : List Char → List Char) (fuel : Nat) (line : List Char) :
    substitute [] expandBody fuel line = line := by
  induction fuel generalizing line with
  | zero => cases line <;> rfl
  | succ fuel ih =>
    cases line with
    | nil => rfl
    | cons c rest =>
      simp only [substitute, ih, lookup_nil, cons_append,
        takeWhile_append_dropWhile, literal_append, ite_self]

theorem linesFrom_of_unbroken (unbroken : '\n' ∉ text) (current : List Char)
    (filled : current ++ text ≠ []) : linesFrom current text = [current.reverse ++ text] := by
  induction text generalizing current with
  | nil => simp_all [linesFrom]
  | cons c rest ih =>
    rw [mem_cons, not_or] at unbroken
    rw [linesFrom, ih unbroken.2 (c :: current) (by simp)]
    · simp
    · exact fun same => unbroken.1 same.symm

end Macro

theorem preprocess_line (filled : line ≠ []) (unbroken : '\n' ∉ line)
    (plain : Macro.directive? line = none) :
    preprocess (String.ofList line) = .ok ⟨String.ofList (line ++ ['\n']), []⟩ := by
  have expanded : Macro.expand [] Macro.expansionDepth line = line := Macro.substitute_nil _ _ _
  unfold preprocess Macro.lines
  rw [String.toList_ofList, Macro.linesFrom_of_unbroken unbroken [] filled]
  simp [Macro.expandLines, plain, expanded, Macro.table, bind, Except.bind]

/-- A variable whose initial value is another one after `count` complements. -/
def complements (count : Nat) : List Char :=
  ['i', 'n', 't', ' ', 'y', ' ', '=', ' '] ++ (List.replicate count '~' ++ ['x', ';'])

theorem Lexeme.cover_marks (count : Nat) :
    Cover (List.replicate count ⟨['~'], some (.symbol .tilde)⟩ ++
        [⟨['x'], some (.name "x")⟩, ⟨[';'], some (.symbol .semicolon)⟩, ⟨['\n'], none⟩])
      (List.replicate count '~' ++ ['x', ';', '\n']) := by
  induction count with
  | zero =>
    exact .cons ⟨fun _ => ⟨_, rfl⟩⟩ (.cons ⟨fun _ => ⟨_, rfl⟩⟩ (.cons ⟨fun _ => ⟨_, rfl⟩⟩ .nil))
  | succ count ih => exact .cons ⟨fun _ => ⟨_, rfl⟩⟩ ih

theorem tokenize_complements (count : Nat) :
    ∃ tokens, tokenize (String.ofList (complements count ++ ['\n'])) = .ok tokens ∧
      tokens.map Token.kind = .keyword .intKw :: .name "y" :: .symbol .assign ::
        (List.replicate count (.symbol .tilde) ++ [.name "x", .symbol .semicolon, .endOfFile]) := by
  have covers : Lexeme.Cover (⟨['i', 'n', 't'], some (.keyword .intKw)⟩ :: ⟨[' '], none⟩ ::
      ⟨['y'], some (.name "y")⟩ :: ⟨[' '], none⟩ :: ⟨['='], some (.symbol .assign)⟩ ::
      ⟨[' '], none⟩ :: _) _ :=
    .cons ⟨fun _ => ⟨_, rfl⟩⟩ (.cons ⟨fun _ => ⟨_, rfl⟩⟩ (.cons ⟨fun _ => ⟨_, rfl⟩⟩
      (.cons ⟨fun _ => ⟨_, rfl⟩⟩ (.cons ⟨fun _ => ⟨_, rfl⟩⟩ (.cons ⟨fun _ => ⟨_, rfl⟩⟩
        (Lexeme.cover_marks count))))))
  obtain ⟨tokens, read, kinds⟩ := covers.tokens le_rfl Location.start
  refine ⟨tokens, ?_, ?_⟩
  · rw [tokenize, String.toList_ofList]
    simpa [complements, Cursor.ofText] using read
  · simpa using kinds

def complemented : Nat → ExprTree
  | 0 => .name "x"
  | count + 1 => .unary .bitNot (complemented count)

theorem written_complemented (count : Nat) :
    (complemented count).written = List.replicate count (.symbol .tilde) ++ [.name "x"] := by
  induction count with
  | zero => rfl
  | succ count ih =>
    have tight : 13 ≤ (complemented count).precedence := by
      cases count with
      | zero => decide
      | succ => exact le_rfl
    have inner : (complemented count).spell 13 = _ := ExprTree.spell_of_le tight
    rw [replicate_succ, cons_append, ← ih, ← inner]
    rfl

theorem words_complemented (count : Nat) : (complemented count).words = ["x"] := by
  induction count with
  | zero => rfl
  | succ count ih => exact ih

theorem Denotes.descends {id : NodeId} {count : Nat}
    (denotes : Denotes nodes id (complemented count)) (items : List NodeId) :
    ∃ path, path.head? = some id ∧ (Program.mk nodes items).Descends path ∧
      path.length = count + 1 := by
  induction count generalizing id with
  | zero => exact ⟨[id], rfl, .singleton _, rfl⟩
  | succ count ih =>
    cases denotes with
    | unary found operand =>
      obtain ⟨path, starts, descends, long⟩ := ih operand
      refine ⟨id :: path, rfl, isChain_cons.mpr ⟨?_, descends⟩, by simp [long]⟩
      intro child isChild
      cases starts.symm.trans isChild
      simp [Program.Child, Program.kind, found, NodeKind.children]

namespace Parse

open ParseState

theorem initializer_complements {count : Nat} (kinds : others.map Token.kind =
      List.replicate count (.symbol .tilde) ++ [.name "x", .symbol .semicolon, .endOfFile]) :
    ∃ init semicolon last nodes names constants, initializer { tokens := others } = .ok (init, {
        tokens := [⟨.symbol .semicolon, semicolon⟩, ⟨.endOfFile, last⟩]
        nodes := nodes, structNames := names, constants := constants }) ∧
      Denotes nodes init (complemented count) := by
  let start : ParseState := { tokens := others }
  have here : start.kinds = (complemented count).written ++ .symbol .semicolon :: [.endOfFile] := by
    rw [written_complemented, append_assoc]
    exact kinds
  have plain : start.Plain (complemented count) := by
    rw [ParseState.Plain, words_complemented]
    exact forall_mem_singleton.mpr rfl
  obtain ⟨init, ⟨tokens, nodes, names, constants⟩, read, passes, denotes⟩ :=
    expression_yields here plain
  have ending : tokens.map Token.kind = _ := passes.kinds_of here
  obtain ⟨⟨_, semicolon⟩, _, rfl, ⟨⟩, behind⟩ := map_eq_cons_iff.mp ending
  obtain ⟨⟨_, last⟩, _, rfl, ⟨⟩, nothing⟩ := map_eq_cons_iff.mp behind
  obtain rfl := map_eq_nil_iff.mp nothing
  refine ⟨init, semicolon, last, nodes, names, constants, ?_, denotes⟩
  have other : start.kind ≠ .symbol .leftBrace := by
    rw [kind_eq_of_kinds here, written_complemented]
    cases count <;> simp [replicate_succ]
  change initializerAt (start.tokens.length + 1) start = _
  rw [initializerAt, bind_location, bind_of_ok (symbol_of_kind_ne other)]
  exact read

theorem topLevel_complements {start name sign : Location} {count : Nat}
    (kinds : others.map Token.kind =
      List.replicate count (.symbol .tilde) ++ [.name "x", .symbol .semicolon, .endOfFile]) :
    ∃ decl next path, topLevel { tokens := ⟨.keyword .intKw, start⟩ :: ⟨.name "y", name⟩ ::
          ⟨.symbol .assign, sign⟩ :: others } = .ok (some decl, next) ∧
      next.kind = .endOfFile ∧ (Program.mk next.nodes [decl]).Descends path ∧
      path.length = count + 2 := by
  obtain ⟨init, semicolon, last, nodes, names, constants, read, denotes⟩ :=
    initializer_complements kinds
  let declaration : Node := ⟨.varDecl "y" (.of .int) (some init) false false, start⟩
  have grown : GrowsTo nodes (nodes.push declaration) := by simp [GrowsTo]
  obtain ⟨path, starts, descends, long⟩ := (denotes.mono grown).descends [nodes.size]
  refine ⟨nodes.size, ⟨[⟨.endOfFile, last⟩], nodes.push declaration, names, constants⟩,
    nodes.size :: path, ?_, rfl, isChain_cons.mpr ⟨?_, descends⟩, by simp [long]⟩
  · have declared := bind_of_ok read fun init => do
      recordConstant "y" (.of .int) init
      node (.varDecl "y" (.of .int) (some init) false false) start
    have grouped := bind_of_ok declared fun decl => do
      let others ← moreItems (nextVariable ⟨.of .int, false, false⟩) (← remaining)
      require .semicolon "after variable declaration"
      group (decl :: others) start
    exact bind_of_ok grouped fun decl => pure (some decl)
  · intro child isChild
    cases starts.symm.trans isChild
    simp [Program.Child, Program.kind, declaration, NodeKind.children]

theorem program_of_topLevel (other : first.kind ≠ .endOfFile)
    (declared : topLevel { tokens := first :: second :: rest } = .ok (some decl, final))
    (ends : final.kind = .endOfFile) :
    program { tokens := first :: second :: rest } = .ok (⟨final.nodes, [decl]⟩, final) := by
  let start : ParseState := { tokens := first :: second :: rest }
  have last : itemsUntil (fun _ => false) topLevel (rest.length + 1) final = .ok ([], final) := by
    rw [itemsUntil, bind_of_ok (rfl : kind final = _), ends]
    rfl
  have items : itemsUntil (fun _ => false) topLevel (rest.length + 2) start =
      .ok ([some decl], final) := by
    have going : (false || decide (start.kind = .endOfFile)) = false := decide_eq_false other
    rw [itemsUntil, bind_of_ok (rfl : kind start = _), going]
    exact (bind_of_ok declared _).trans (bind_of_ok last _)
  rw [program, bind_of_ok (rfl : remaining start = _)]
  exact bind_of_ok items _

end Parse

/-- However many complements a sketch nests, it is parsed, and its program has a way down
through all of them. -/
theorem parseSketch_complements (count : Nat) :
    ∃ sketch, parseSketch (String.ofList (complements count)) = .ok sketch ∧
      ∃ path, sketch.program.Descends path ∧ path.length = count + 2 := by
  obtain ⟨tokens, scanned, kinds⟩ := tokenize_complements count
  obtain ⟨⟨_, start⟩, _, rfl, ⟨⟩, behindType⟩ := map_eq_cons_iff.mp kinds
  obtain ⟨⟨_, name⟩, _, rfl, ⟨⟩, behindName⟩ := map_eq_cons_iff.mp behindType
  obtain ⟨⟨_, sign⟩, others, rfl, ⟨⟩, behindSign⟩ := map_eq_cons_iff.mp behindName
  obtain ⟨decl, next, path, declared, ends, descends, long⟩ := Parse.topLevel_complements behindSign
  have plain : preprocess (String.ofList (complements count)) =
      .ok ⟨String.ofList (complements count ++ ['\n']), []⟩ :=
    preprocess_line (by simp [complements]) (by simp [complements]) rfl
  have parsed : parseProgram (String.ofList (complements count ++ ['\n'])) =
      .ok ⟨next.nodes, [decl]⟩ := by
    have read := Parse.program_of_topLevel (by simp) declared ends
    unfold parseProgram
    rw [scanned]
    dsimp only [StateT.run]
    rw [read]
    rfl
  refine ⟨⟨⟨next.nodes, [decl]⟩, []⟩, ?_, path, descends, long⟩
  unfold parseSketch
  rw [plain]
  dsimp only [bind, Except.bind]
  rw [parsed]

end Breadboard
