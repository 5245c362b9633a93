import Breadboard.Proofs.Machine.Price
import Breadboard.Proofs.Session.Termination

/-!
Frames and the nodes that they stand for. A frame is made in one step and run in a later one, with
any number of steps and answers between the two, and keeps just the number of its node. In a
program whose numbers are all those of nodes, every frame of a run has a node of the arena that is
of the kind its handler is for. So no handler ever has to refuse a node, wherever statements and
expressions stand in the tree.
-/

open List

namespace Breadboard

open NodeKind Breadboard.Frame Archive

variable {fw : Firmware} {frame : Frame}

/-- Whether a node is of a kind that the handler of a frame is for. -/
def Frame.handles : Frame → NodeKind → Bool
  | .block _ _ hasScope, kind => !hasScope || (kind matches .block _)
  | .declare _, kind => (kind matches .varDecl ..)
  | .construct _, kind => (kind matches .objectDecl ..)
  | .branch _, kind => (kind matches .ifElse ..)
  | .loop .., kind => (kind matches .whileLoop .. | .doWhile .. | .forLoop ..)
  | .switchSelect _, kind => (kind matches .switch ..)
  | .switch .., kind => (kind matches .switch ..)
  | .leave _, kind => (kind matches .returnStmt _)
  | .call .., kind => (kind matches .functionDef ..)
  | .builtin _, kind => (kind matches .call ..)
  | .method _, kind => (kind matches .methodCall ..)
  | .binary _, kind => (kind matches .binary ..)
  | .logical .., kind => (kind matches .logical ..)
  | .unary _, kind =>
    match kind with
    | .unary op _ => op ≠ .deref && op ≠ .addressOf
    | _ => false
  | .incDec _, kind => (kind matches .incDec ..)
  | .select _, kind => (kind matches .ternary ..)
  | .compoundAssign _, kind => (kind matches .compoundAssign ..)
  | .cast _, kind => (kind matches .cast ..)
  | .fieldPlace _, kind => (kind matches .member ..)
  | _, _ => true

/-- The node that a frame stands for is there and of a kind that its handler is for. -/
def Program.Backs (prog : Program) (frame : Frame) : Prop :=
  ∀ node, frame.node? = some node →
    node < prog.nodes.size ∧ frame.handles (prog.kind node) = true

theorem Firmware.Suits.handles {node : NodeId} (suits : fw.Suits frame)
    (stands : frame.node? = some node) : frame.handles (fw.program.kind node) = true := by
  cases frame with
  | program | discard | callReturn | collect => cases stands
  | exec | eval | evalPlace | load | assign | indexPlace | derefPlace => rfl
  | block _ _ hasScope =>
    cases stands
    cases hasScope with
    | false => rfl
    | true =>
      obtain ⟨statements, kind⟩ := suits rfl
      simp [handles, kind]
  | loop =>
    cases stands
    obtain ⟨parts, loops⟩ := suits
    simp only [handles]
    generalize fw.program.kind node = kind at loops
    cases kind with
    | whileLoop | doWhile | forLoop => rfl
    | _ => cases loops
  | unary =>
    cases stands
    obtain ⟨op, operand, kind, noDeref, noAddress⟩ := suits
    simp [handles, kind, noDeref, noAddress]
  | declare =>
    cases stands
    obtain ⟨_, _, _, _, _, kind⟩ := suits
    simp [handles, kind]
  | call =>
    cases stands
    obtain ⟨_, _, _, _, kind⟩ := suits
    simp [handles, kind]
  | construct | branch | method | binary | logical | select | compoundAssign | fieldPlace =>
    cases stands
    obtain ⟨_, _, _, kind⟩ := suits
    simp [handles, kind]
  | switchSelect | switch | builtin | incDec | cast =>
    cases stands
    obtain ⟨_, _, kind⟩ := suits
    simp [handles, kind]
  | leave =>
    cases stands
    obtain ⟨_, kind⟩ := suits
    simp [handles, kind]

/-! Nodes of the arena. -/

namespace Program

variable {prog : Program}

def Contains (prog : Program) (frame : Frame) : Prop :=
  ∀ node, frame.node? = some node → node < prog.nodes.size

/-- The numbers that nodes and items refer to are those of nodes. -/
structure IsClosed (prog : Program) : Prop where
  references : ∀ child ∈ prog.references, child < prog.nodes.size
  items : ∀ item ∈ prog.items, item < prog.nodes.size

theorem Accepted.isClosed (accepted : prog.Accepted) : prog.IsClosed := by
  cases accepted with
  | parsed parsed same =>
    subst same
    have grown := grown_of_parseSketch parsed
    exact ⟨grown.references_lt, grown.inside⟩
  | decoded read =>
    have bounded := isBoundedForest_of_checkForest (decode_eq_ok.mp read).2
    exact ⟨bounded.inside, bounded.itemsInside⟩

theorem Accepted.of_bytes (bytes : Text.Bytes)
    (read : (decode bytes).toOption = some prog) : prog.Accepted := by
  cases decoded : decode bytes with rw [decoded] at read
  | error => cases read
  | ok found =>
    cases read
    exact .decoded decoded

namespace IsClosed

variable {parent : NodeId} {kind : NodeKind}

variable (closed : prog.IsClosed)
include closed

theorem children
    (found : prog.kind parent = kind) : ∀ child ∈ kind.children, child < prog.nodes.size := by
  intro child isChild
  refine closed.references child (mem_references.mpr ⟨parent, ?_⟩)
  rwa [Child, found]

theorem below {nodes : List NodeId} (found : prog.kind parent = kind)
    (inside : parent < prog.nodes.size) (among : nodes ⊆ parent :: kind.children) :
    ∀ node ∈ nodes, node < prog.nodes.size := by
  intro node listed
  rcases mem_cons.mp (among listed) with rfl | isChild
  · exact inside
  · exact closed.children found node isChild

theorem function {function : NodeId}
    (found : prog.function? name = some function) : function < prog.nodes.size :=
  closed.items function (definition_of_function? found).1

theorem nextGlobal {next after : Nat}
    (found : prog.nextGlobal? next = some (item, after)) : item < prog.nodes.size := by
  have among := (nextGlobal?_sublist found).subset mem_cons_self
  exact closed.items item (mem_of_mem_drop among)

end IsClosed

end Program

@[simp] theorem Frame.node?_comp_eval : node? ∘ eval = some := rfl

@[simp] theorem Frame.node?_comp_exec : node? ∘ exec = some := rfl

theorem Turn.contains (closed : fw.program.IsClosed)
    (own : ∀ node, frame.node? = some node → node < fw.program.nodes.size)
    (turn : Turn fw height frame pushed scheduled move) :
    ∀ node ∈ scheduled.filterMap node?, node < fw.program.nodes.size := by
  cases turn with
  | global found =>
    have item := closed.nextGlobal found
    simpa [node?] using item
  | setup _ kind | loop _ _ kind | call kind =>
    have body := closed.children kind _ mem_cons_self
    simpa [node?, entry] using body
  | exprStmt kind | initializer kind | objectArguments kind | group kind | condition kind
  | selector kind | result kind | thenBranch kind | evalBinary kind
  | evalLogical kind | evalAddress kind | evalUnary kind | evalIncDec kind | evalTernary kind
  | evalAssign kind | evalCompoundAssign kind | evalBuiltin kind | evalMethod kind
  | evalCast kind | evalInitList kind | undecided kind =>
    refine closed.below kind (own _ rfl) ?_
    simp [node?, children, filterMap_cons]
  | forLoop kind =>
    refine closed.below kind (own _ rfl) ?_
    simp [node?, children]
  | elseBranch kind =>
    refine closed.below kind (own _ rfl) ?_
    intro node
    simp +contextual [node?, children]
  | nextStatement kind among =>
    refine closed.below kind (own _ rfl) ?_
    simpa [node?, children] using .inr (mem_of_getElem? among)
  | loopCondition loops found =>
    refine closed.below rfl (own _ rfl) ?_
    simpa [node?] using .inr ((loop?_children loops).2.1 _ found)
  | startBody _ loops =>
    refine closed.below rfl (own _ rfl) ?_
    simpa [node?] using .inr (loop?_children loops).1
  | increment loops found =>
    refine closed.below rfl (own _ rfl) ?_
    simpa [node?, filterMap_cons] using .inr ((loop?_children loops).2.2 _ found)
  | @armStatement node expr statement cases arm next current kind selected among =>
    refine closed.below kind (own _ rfl) ?_
    have listed : statement ∈ (switch expr cases).children := by
      refine mem_cons_of_mem _ (mem_flatMap.mpr ⟨current, ?_, ?_⟩)
      · exact mem_of_getElem? selected
      · exact mem_append_right _ (mem_of_getElem? among)
    simpa [node?] using .inr listed
  | evalCall kind found =>
    intro node among
    simp only [filterMap_append, filterMap_map, node?_comp_eval,
      filterMap_some] at among
    rcases mem_append.mp among with isChild | called
    · exact closed.children kind node isChild
    · cases mem_singleton.mp called
      exact closed.function found
  | select kind chosen =>
    refine closed.below kind (own _ rfl) ?_
    rcases chosen with rfl | rfl <;> simp [node?, children]
  | placeIndex kind base | placeMember kind base | placeDeref kind base =>
    refine closed.below kind (own _ rfl) ?_
    rcases base with rfl | rfl <;> simp [node?, children]
  | openBlock | expression | whileLoop | doWhile | noCondition | noIncrement | selectArm | nextArm
  | evalLoad =>
    have inside := own _ rfl
    simpa [node?] using inside
  | _ => exact forall_mem_nil _

theorem Stepped.contains {next} (closed : fw.program.IsClosed)
    (own : fw.program.Contains frame) (contained : ∀ other ∈ ctx.frames, fw.program.Contains other)
    (stepped : Stepped fw frame ctx effect next) :
    ∀ other ∈ next.frames, fw.program.Contains other := by
  rcases stepped with ⟨pushed, scheduled, move, turn, frames, -⟩ | ⟨-, jump⟩
  · rw [frames, forall_mem_append]
    refine ⟨?_, contained⟩
    intro other among node stands
    exact turn.contains closed own node (mem_filterMap.mpr ⟨other, among, stands⟩)
  · cases jump with
    | breakOut _ split =>
      rw [split, forall_mem_append, forall_mem_cons] at contained
      exact contained.2.2
    | goOn _ split =>
      rw [split, forall_mem_append] at contained
      exact contained.2
    | leave split =>
      rw [split, forall_mem_append, forall_mem_cons] at contained
      exact forall_mem_cons.mpr ⟨nofun, contained.2.2⟩

namespace Firmware

variable {fw : Firmware} {pending : Option Request} {ctx : Context}

theorem Reaches.contains (closed : fw.program.IsClosed) (reached : fw.Reaches pending ctx) :
    ∀ frame ∈ ctx.frames, fw.program.Contains frame := by
  induction reached with
  | start => exact forall_mem_singleton.mpr nofun
  | @step ctx next frame rest effect earlier top out ih =>
    rw [top, forall_mem_cons] at ih
    obtain ⟨stepped, -⟩ := (step_meets top earlier.balanced).of_ok out
    exact stepped.contains closed ih.1 ih.2
  | answer _ _ ih => exact ih

theorem Reaches.backs (closed : fw.program.IsClosed) (reached : fw.Reaches pending ctx) :
    ∀ frame ∈ ctx.frames, fw.program.Backs frame := by
  intro frame among node stands
  have suits := reached.balanced_and_mirrors.1.suited frame among
  exact ⟨reached.contains closed frame among node stands, suits.handles stands⟩

def backing (fw : Firmware) : Discipline fw :=
  .ofState fw (fun _ => True) fw.program.Backs fun _ none _ stands => by
    cases none.symm.trans stands

theorem Fails.backs (closed : fw.program.IsClosed) (fails : fw.Fails fault final) :
    ∀ frame ∈ final.frames, fw.program.Backs frame := by
  obtain ⟨ctx, frame, rest, reached, top, out⟩ := fails
  have backs := reached.backs closed
  rw [top, forall_mem_cons] at backs
  have grows : fw.backing.Grows := by constructor <;> constructor <;> intros <;> trivial
  have keeps : (Act.runFrame fw frame).KeepsAt fw.backing false
      { ctx with frames := rest } Effect.Reports :=
    Act.keepsAt_runFrame frame (fun _ => grows) (fun _ _ _ => trivial)
      ⟨trivial, fun _ _ => trivial, fun _ => backs.2⟩ fun _ _ _ _ => trivial
  exact (keeps.of_error out).frames rfl

/-- The frames of all that a run reaches have nodes of the arena that are of the kinds their
handlers are for, under any control of the host and also where the run fails. No run fails because
a handler refuses a node. -/
theorem frames_match_nodes (firmware : Firmware) (accepted : firmware.program.Accepted) :
    (∀ pending context, firmware.Reaches pending context →
      ∀ frame ∈ context.frames, firmware.program.Backs frame) ∧
    (∀ fault final, firmware.Fails fault final →
      (∀ frame ∈ final.frames, firmware.program.Backs frame) ∧
      (∀ wanted, fault.cause ≠ .unsupported (.wrongNode wanted)) ∧
      fault.cause ≠ .unsupported .callOfNonFunction ∧
      fault.cause ≠ .unsupported .addressOperator) ∧
    ∀ nextRequest controls context,
      (({ firmware, nextRequest } : Session).perform controls).status.context? = some context →
        ∀ frame ∈ context.frames, firmware.program.Backs frame := by
  have closed := accepted.isClosed
  refine ⟨fun pending context reached => reached.backs closed, ?_, ?_⟩
  · intro fault final fails
    have never {construct : Unsupported} (own : (Cause.unsupported construct).isOwn = true) :
        fault.cause ≠ .unsupported construct := by
      intro cause
      cases (fails.unsupported cause).symm.trans own
    exact ⟨fails.backs closed, fun _ => never rfl, never rfl, never rfl⟩
  · intro nextRequest controls context held
    have reached :
        (({ firmware, nextRequest } : Session).perform controls).status.Reached firmware :=
      Session.perform_reached controls trivial
    rcases reached.context held with ⟨pending, reached⟩ | ⟨fault, fails⟩
    · exact reached.backs closed
    · exact fails.backs closed

/-- A stored program. The body of its loop is a sum, and what is to be added is a return. -/
def tangle : Firmware where
  program := {
    nodes := #[
      ⟨.functionDef "setup" [] (.of .void) 1, ⟨1, 6⟩⟩,
      ⟨.block [2], ⟨1, 14⟩⟩,
      ⟨.forLoop none none none 3, ⟨2, 3⟩⟩, ⟨.binary .add 4 8, ⟨3, 5⟩⟩,
      ⟨.cast (.of .byte) 5, ⟨3, 5⟩⟩,
      ⟨.unary .neg 6, ⟨3, 12⟩⟩,
      ⟨.call "analogRead" [7], ⟨3, 13⟩⟩,
      ⟨.intLiteral 0 false, ⟨3, 24⟩⟩,
      ⟨.returnStmt none, ⟨3, 30⟩⟩]
    items := [0] }

theorem tangle_accepted : tangle.program.Accepted := by
  apply Program.Accepted.of_bytes (encode tangle.program)
  decide +kernel

/-- At the request the sum is under way; the answer leads on to the return, which has no value. -/
theorem tangle_frames_match :
    tangle.program.Accepted ∧
      ∃ asking failed,
        (({ firmware := tangle } : Session).perform [.start, .tick, .tick]).status.context? =
          some asking ∧
        asking.frames.filterMap Frame.node? = [5, 4, 8, 3, 2, 1] ∧
        (∀ frame ∈ asking.frames, tangle.program.Backs frame) ∧
        (({ firmware := tangle } : Session).perform
          [.start, .tick, .tick, .answer 1 (.int 742)]).status.context? = some failed ∧
        failed.frames.filterMap Frame.node? = [3, 2, 1] ∧
        ∀ frame ∈ failed.frames, tangle.program.Backs frame := by
  have asked : (({ firmware := tangle } : Session).perform
      [.start, .tick, .tick]).status.context?.map (·.frames.filterMap Frame.node?) =
        some [5, 4, 8, 3, 2, 1] := by
    decide +kernel
  have answered : (({ firmware := tangle } : Session).perform
      [.start, .tick, .tick, .answer 1 (.int 742)]).status.context?.map
        (·.frames.filterMap Frame.node?) = some [3, 2, 1] := by
    decide +kernel
  obtain ⟨asking, held, nodes⟩ := Option.map_eq_some_iff.mp asked
  obtain ⟨failed, heldAfter, nodesAfter⟩ := Option.map_eq_some_iff.mp answered
  obtain ⟨-, -, sessions⟩ := frames_match_nodes tangle tangle_accepted
  exact ⟨tangle_accepted, asking, failed, held, nodes, sessions 1 _ asking held, heldAfter,
    nodesAfter, sessions 1 _ failed heldAfter⟩

end Firmware

end Breadboard
