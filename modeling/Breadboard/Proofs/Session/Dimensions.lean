import Breadboard.Proofs.Session.Callee
import Breadboard.Proofs.Session.Labels
import Breadboard.Proofs.Sketch.Declarators

/-!
Array dimensions and the running program. The parser computes a size in 64 bits and with the
constants that it has met so far, whatever their scopes and types. Evaluated where the declaration
is, the size is the same number if no part of it leaves the range of its type and the names in it
have there the numbers that the parser knows.
-/

open List

namespace Breadboard

theorem exactInt64?_eq (exact : exactInt64? n = some m) : Int64.ofInt n = m := by
  unfold exactInt64? at exact
  split at exact
  · exact Option.some.inj exact
  · cases exact

theorem BinaryOp.apply_of_fold? {op : BinaryOp} (folds : op.fold? l r = some n) :
    op.apply (.long l) (.long r) = .ok (.long n) := by
  cases op with
  | add =>
    rw [← exactInt64?_eq folds, Int64.ofInt_add, Int64.ofInt_toInt, Int64.ofInt_toInt]
    rfl
  | sub =>
    rw [← exactInt64?_eq folds, Int64.ofInt_sub, Int64.ofInt_toInt, Int64.ofInt_toInt]
    rfl
  | mul =>
    rw [← exactInt64?_eq folds, Int64.ofInt_mul, Int64.ofInt_toInt, Int64.ofInt_toInt]
    rfl
  | div =>
    simp only [fold?] at folds
    split at folds
    · cases folds
    · rename_i nonzero
      have quotient : Int64.ofInt (l.toInt.tdiv r.toInt) = l / r :=
        (Int64.ofInt_eq_iff_bmod_eq_toInt _ _).mpr (Int64.toInt_div l r).symm
      rw [← exactInt64?_eq folds, quotient]
      exact if_neg nonzero
  | shl =>
    simp only [fold?] at folds
    split at folds <;> cases folds
    rename_i amount
    have low := Int64.le_iff_toInt_le.mp amount.1
    have high := Int64.lt_iff_toInt_lt.mp amount.2
    have places := toNat_of_nonneg low
    have same : Int64.ofNat (r.toUInt64.toNat % 64) = r := by
      rw [Nat.mod_eq_of_lt (by simp at high; omega), ← Int64.ofInt_eq_ofNat, places,
        Int64.ofInt_toInt]
    change Except.ok (Value.long (l <<< Int64.ofNat (r.toUInt64.toNat % 64))) = _
    rw [same]
  | _ => cases folds

def Program.Mentions (prog : Program) (node : NodeId) (name : String) : Prop :=
  ∃ leaf, Relation.ReflTransGen prog.Child leaf node ∧ prog.kind leaf = .identifier name

theorem Program.Mentions.of_child {prog : Program} (mentions : prog.Mentions child name)
    (isChild : prog.Child child parent) : prog.Mentions parent name := by
  obtain ⟨leaf, below, kind⟩ := mentions
  exact ⟨leaf, below.tail isChild, kind⟩

namespace Firmware

variable {fw : Firmware} {env : Environment} {ctx : Context} {node : NodeId}
  {table : List (String × Int64)} {n : Int64}

theorem exists_means_of_folds (env : Environment) (folds : fw.program.Folds table node n) :
    ∃ out, fw.Means env node out := by
  induction folds with
  | intLiteral kind => exact ⟨_, .intLiteral kind⟩
  | charLiteral kind => exact ⟨_, .charLiteral kind⟩
  | identifier kind => exact ⟨_, .identifier kind⟩
  | neg kind _ part =>
    obtain ⟨_, part⟩ := part
    exact ⟨_, .neg kind part⟩
  | binary kind _ _ _ first second =>
    obtain ⟨_, first⟩ := first
    obtain ⟨_, second⟩ := second
    exact ⟨_, .binary kind first second⟩

/-- The names in an expression have the numbers that a table knows. -/
def Knows (fw : Firmware) (env : Environment) (table : List (String × Int64))
    (node : NodeId) : Prop :=
  ∀ name n, fw.program.Mentions node name → table.lookup name = some n →
    ∃ value, fw.nameValue env name = .ok value ∧ value.wholeNumber? = some n

theorem Knows.part (knows : fw.Knows env table node) (same : fw.program.kind node = kind)
    (isChild : child ∈ kind.children) : fw.Knows env table child := by
  intro name n mentions known
  have isPart : fw.program.Child child node := by
    rw [Program.Child, same]
    exact isChild
  exact knows name n (mentions.of_child isPart) known

theorem eq_of_folds_leaf (folds : fw.program.Folds table node n)
    (childless : (fw.program.kind node).children = []) (knows : fw.Knows env table node)
    (means : fw.Means env node (.ok value)) : value.wholeNumber? = some n := by
  cases folds with
  | @intLiteral _ _ unsigned kind =>
    cases means.unique (.intLiteral kind)
    obtain ⟨_, literal⟩ := Value.ofLiteral_integral n unsigned
    exact literal.whole
  | charLiteral kind =>
    cases means.unique (.charLiteral kind)
    rfl
  | @identifier _ name _ kind known =>
    obtain ⟨_, found, whole⟩ := knows name n ⟨node, .refl, kind⟩ known
    cases found.symm.trans (means.unique (.identifier kind)).symm
    exact whole
  | neg kind | binary kind =>
    rw [kind] at childless
    cases childless

theorem Stays.eq_of_folds (stays : fw.Stays env node rank m) (folds : fw.program.Folds table node n)
    (knows : fw.Knows env table node) : m = n := by
  induction stays generalizing n with
  | leaf childless means integral =>
    have whole := eq_of_folds_leaf folds childless knows means
    exact Option.some.inj (integral.whole.symm.trans whole)
  | neg kind _ _ ih =>
    cases folds with
    | neg same part =>
      cases kind.symm.trans same
      rw [ih part (knows.part kind (by simp [NodeKind.children]))]
    | intLiteral other | charLiteral other | identifier other | binary other =>
      cases kind.symm.trans other
  | binary kind _ _ stays one two =>
    cases folds with
    | binary same first second res =>
      cases kind.symm.trans same
      cases one first (knows.part kind (by simp [NodeKind.children]))
      cases two second (knows.part kind (by simp [NodeKind.children]))
      obtain ⟨wide, out, view⟩ := stays.result
      cases out.symm.trans (BinaryOp.apply_of_fold? res)
      exact (Option.some.inj view).symm
    | intLiteral other | charLiteral other | identifier other | neg other =>
      cases kind.symm.trans other
  | cast kind =>
    cases folds with
    | intLiteral other | charLiteral other | identifier other | neg other | binary other =>
      cases kind.symm.trans other

/-- A size, if there is one, is evaluated to the dimension, if there is one. -/
def Agrees (fw : Firmware) (ctx : Context) (size : Option ArraySize) (dim : Option Nat) :
    Prop :=
  ∀ written ∈ size, ∀ n ∈ dim, ∃ value m,
    fw.Gives ctx written.node [] { ctx with values := value :: ctx.values } ∧
      value.wholeNumber? = some m ∧ m.toInt = n

/-- A size, if there is one, means the dimension, if there is one, in the types of its parts. -/
def MeansDim (fw : Firmware) (env : Environment) (size : Option ArraySize)
    (dim : Option Nat) : Prop :=
  ∀ written ∈ size, ∀ n ∈ dim, ∃ value m,
    fw.Means env written.node (.ok value) ∧ value.wholeNumber? = some m ∧ m.toInt = n

/-- No part of a size leaves the range of its type, and its names have the numbers that the parser
knew. -/
def Faithful (fw : Firmware) (env : Environment) (size : Option ArraySize) : Prop :=
  ∀ written ∈ size, (∃ rank m, fw.Stays env written.node rank m) ∧
    fw.Knows env written.known written.node

variable {size : Option ArraySize} {dim : Option Nat}

theorem agrees_iff_meansDim (records : fw.program.Records size dim) :
    fw.Agrees ctx size dim ↔ fw.MeansDim ctx.env size dim := by
  cases records with
  | unsized => simp [Agrees, MeansDim]
  | sized folds nonneg =>
    obtain ⟨out, means⟩ := exists_means_of_folds ctx.env folds
    constructor
    · rintro agrees _ ⟨rfl⟩ k isDim
      obtain ⟨value, m, gives, whole, same⟩ := agrees _ rfl k isDim
      obtain ⟨value, means, whole⟩ := (gives_iff_means means).mp ⟨value, gives, whole⟩
      exact ⟨value, m, means, whole, same⟩
    · rintro agrees _ ⟨rfl⟩ k isDim
      obtain ⟨value, m, meaning, whole, same⟩ := agrees _ rfl k isDim
      obtain ⟨value, gives, whole⟩ := (gives_iff_means means).mpr ⟨value, meaning, whole⟩
      exact ⟨value, m, gives, whole, same⟩

theorem Faithful.meansDim (faithful : fw.Faithful env size)
    (records : fw.program.Records size dim) : fw.MeansDim env size dim := by
  cases records with
  | unsized => simp [MeansDim]
  | @sized written n folds nonneg =>
    obtain ⟨⟨rank, m, stays⟩, knows⟩ := faithful written rfl
    obtain ⟨value, means, integral⟩ := stays.means
    rw [stays.eq_of_folds folds knows] at integral
    rintro _ ⟨rfl⟩ _ ⟨rfl⟩
    have same := Int.toNat_of_nonneg (Int64.le_iff_toInt_le.mp nonneg)
    exact ⟨value, n, means, integral.whole, same.symm⟩

/-- Each declared name of a sketch was read with sizes in brackets behind it, and its dimensions are
what the sizes come to with the constants known there. In a running program a size has the value of
its dimension just if it means that number in the types of its parts. This is so if no part leaves
the range of its type and the names in it have the numbers that were known. -/
theorem dimensions_agree_iff {source : String} {sketch : Sketch}
    (parsed : parseSketch source = .ok sketch) :
    (∀ decl word type, sketch.program.Declares decl word type →
      ∃ sizes, DeclaredIn source decl word type sizes) ∧
    ∀ decl word type sizes, DeclaredIn source decl word type sizes →
      List.Forall₂ (fun size dim => sketch.program.Records size dim ∧
        ∀ (firmware : Firmware) (context : Context), firmware.program = sketch.program →
          (firmware.Agrees context size dim ↔ firmware.MeansDim context.env size dim) ∧
          (firmware.Faithful context.env size → firmware.Agrees context size dim))
        sizes type.dims := by
  refine ⟨fun decl word type declares => exists_declaredIn parsed declares, ?_⟩
  intro decl word type sizes declared
  refine (declared.records parsed).imp fun size dim records => ⟨records, ?_⟩
  intro firmware context same
  rw [← same] at records
  have agrees : firmware.Agrees context size dim ↔ _ := agrees_iff_meansDim records
  exact ⟨agrees, fun faithful => agrees.mpr (faithful.meansDim records)⟩

deriving instance DecidableEq for ParseState, Preprocessed

/-- A constant is hidden for a while by another one of its name. The parser goes on with the other
one behind its block. -/
def shadowText : String :=
  "const int N = 3;\nint kept[N + 1];\nvoid setup() \x7b\n" ++
  "  \x7b const int N = 5; \x7d\n  int lost[N];\n\x7d\n"

def shadowed : Firmware where
  program := {
    nodes := #[
      ⟨.intLiteral 3 false, ⟨1, 15⟩⟩,
      ⟨.varDecl "N" { base := .int, isConst := true } (some 0) false false, ⟨1, 1⟩⟩,
      ⟨.identifier "N", ⟨2, 10⟩⟩, ⟨.intLiteral 1 false, ⟨2, 14⟩⟩, ⟨.binary .add 2 3, ⟨2, 12⟩⟩,
      ⟨.varDecl "kept" { base := .int, dims := [some 4] } none false false, ⟨2, 1⟩⟩,
      ⟨.intLiteral 5 false, ⟨4, 19⟩⟩,
      ⟨.varDecl "N" { base := .int, isConst := true } (some 6) false false, ⟨4, 5⟩⟩,
      ⟨.block [7], ⟨4, 3⟩⟩, ⟨.identifier "N", ⟨5, 12⟩⟩,
      ⟨.varDecl "lost" { base := .int, dims := [some 5] } none false false, ⟨5, 3⟩⟩,
      ⟨.block [8, 10], ⟨3, 14⟩⟩, ⟨.functionDef "setup" [] (.of .void) 11, ⟨3, 6⟩⟩]
    items := [1, 5, 12] }

def shadowTokens : List Token := (tokenize shadowText).toOption.getD []

def shadowAt (read built : Nat) (constants : List (String × Int64)) : ParseState where
  tokens := shadowTokens.drop read
  nodes := ⟨shadowed.program.nodes.toList.take built⟩
  constants := constants

theorem shadowAt_moves {read built later grown : Nat}
    (reads : read ≤ later) (builds : built ≤ grown) (learns : constants <:+ more) :
    (shadowAt read built constants).Moves (shadowAt later grown more) where
  tokens := drop_suffix_drop_left _ reads
  constants := learns
  nodes := take_prefix_take_left builds

theorem shadowText_read :
    preprocess shadowText = .ok ⟨shadowText, []⟩ ∧ tokenize shadowText = .ok shadowTokens ∧
      Parse.program { tokens := shadowTokens } =
        .ok (shadowed.program, shadowAt 34 13 [("N", 5), ("N", 3)]) := by
  decide +kernel

theorem shadowed_parsed : parseSketch shadowText = .ok ⟨shadowed.program, []⟩ := by
  obtain ⟨prepared, read, built⟩ := shadowText_read
  simp only [parseSketch, parseProgram, prepared, ok_bind, read, StateT.run, built, Except.map]

/-- An array of integers that is read between two states of the parse. -/
theorem shadowed_declares {before sized after : ParseState}
    (read : Parse.variableAfterName ⟨.of .int, false, false⟩ (.of .int) word place before =
        .ok (decl, after) ∧ Parse.arraySuffix (.of .int) before = .ok (type, sized) ∧
      Parse.sizes before = .ok (written, sized)) (reached : (shadowAt 0 0 []).Moves before)
    (goes : after.Moves (shadowAt 34 13 [("N", 5), ("N", 3)])) :
    DeclaredIn shadowText decl word type written := by
  obtain ⟨prepared, tokens, built⟩ := shadowText_read
  obtain ⟨declares, suffix, brackets⟩ := read
  exact ⟨_, _, _, _, prepared, tokens, built, .ofVariable rfl reached declares suffix brackets goes⟩

theorem shadowed_kept :
    DeclaredIn shadowText 5 "kept" { base := .int, dims := [some 4] } [some ⟨4, [("N", 3)]⟩] := by
  have read : Parse.variableAfterName ⟨.of .int, false, false⟩ (.of .int) "kept" ⟨2, 1⟩
        (shadowAt 8 2 [("N", 3)]) = .ok (5, shadowAt 13 6 [("N", 3)]) ∧
      Parse.arraySuffix (.of .int) (shadowAt 8 2 [("N", 3)]) =
        .ok ({ base := .int, dims := [some 4] }, shadowAt 13 5 [("N", 3)]) ∧
      Parse.sizes (shadowAt 8 2 [("N", 3)]) =
        .ok ([some ⟨4, [("N", 3)]⟩], shadowAt 13 5 [("N", 3)]) := by
    decide +kernel
  exact shadowed_declares read (shadowAt_moves (by decide) (by decide) (by decide))
    (shadowAt_moves (by decide) (by decide) (by decide))

/-- The context in which `kept` is declared. -/
def keeping : Context := (shadowed.callRun (.initial Session.defaultSeed) [] [] 5).context

theorem keeping_stays : shadowed.Stays keeping.env 4 0 4 := by
  have left : shadowed.program.kind 2 = .identifier "N" := rfl
  have right : shadowed.program.kind 3 = .intLiteral 1 false := rfl
  have known : shadowed.nameValue keeping.env "N" = .ok (.int 3) := rfl
  have stays : BinaryOp.add.Stays 0 0 3 1 4 := ⟨⟨_, rfl, rfl⟩, by decide, by decide⟩
  exact .binary rfl (.leaf rfl (known ▸ .identifier left) (.int 3))
    (.leaf rfl (.intLiteral right) (.int 1)) stays

theorem keeping_knows : shadowed.Knows keeping.env [("N", 3)] 4 := by
  intro name n _ known
  rw [lookup_cons] at known
  split at known
  · rename_i isN
    cases eq_of_beq isN
    cases known
    exact ⟨.int 3, rfl, rfl⟩
  · cases known

/-- The size of `kept` is evaluated to its dimension where `kept` is declared. -/
theorem shadowed_kept_agrees :
    shadowed.Reaches none keeping ∧ (∃ rest, keeping.frames = .exec 5 :: rest) ∧
      DeclaredIn shadowText 5 "kept" { base := .int, dims := [some 4] } [some ⟨4, [("N", 3)]⟩] ∧
      shadowed.Agrees keeping (some ⟨4, [("N", 3)]⟩) (some 4) := by
  have reached : shadowed.Reaches none keeping :=
    (Reaches.start.callRun [] [] 5).going (by decide +kernel)
  refine ⟨reached, ⟨_, rfl⟩, shadowed_kept, ?_⟩
  have sizes := (dimensions_agree_iff shadowed_parsed).2 _ _ _ _ shadowed_kept
  obtain ⟨-, agrees⟩ := (forall₂_cons.mp sizes).1
  refine (agrees shadowed keeping rfl).2 fun size isSize => ?_
  cases isSize
  exact ⟨⟨0, 4, keeping_stays⟩, keeping_knows⟩

end Firmware

end Breadboard
