import Breadboard.Proofs.Machine.Bridge

/-!
Expressions do the same on the two sides of a bridge and keep its discipline, and so do the
functions and methods of the board. What they emit is a report.
-/

open List

namespace Breadboard.Act

variable (env : Environment)

open Bridge

variable {α β : Type} {fw : Firmware} {br : Bridge fw} {partway : Bool}
  {node copy : NodeId} {loc loc' : Location} {ctx twin : Context}

/-! The types of expressions that are not evaluated. -/

def SameType (br : Bridge fw) : Except Fault α → Except Fault α → Prop
  | .ok value, .ok value' => value = value'
  | .error fault, .error fault' =>
    fault'.cause = fault.cause ∧ br.near fault.location fault'.location
  | _, _ => False

theorem SameType.bind {res result' : Except Fault α} {next next' : α → Except Fault β}
    (first : SameType br res result') (rest : ∀ value, SameType br (next value) (next' value)) :
    SameType br (res >>= next) (result' >>= next') := by
  cases res <;> cases result' <;> first | exact first | exact first.elim | skip
  cases first
  exact rest _

theorem sameType_typeBy {env : Environment} {typeOf typeOf' : NodeId → Except Fault DataType}
    (alike : ∀ node copy, br.related node copy →
      SameType br (typeOf node) (typeOf' copy)) (one : br.related node copy) :
    SameType br (fw.typeBy env typeOf node) (fw.typeBy env typeOf' copy) := by
  have close := br.placed one
  have copied := br.copied one
  unfold Firmware.typeBy
  generalize fw.program.kind node = kind, fw.program.kind copy = kind' at copied ⊢
  cases copied with
  | plain simple =>
    cases kind with
    | identifier name =>
      dsimp only
      split
      · cases env.placeType fw.structs _ <;> first | rfl | exact ⟨rfl, close⟩
      · split <;> first | rfl | exact ⟨rfl, close⟩
    | _ => first | rfl | exact ⟨rfl, close⟩ | cases simple
  | binary op left right =>
    dsimp only
    split
    · rfl
    · split
      · exact alike _ _ left
      · exact (alike _ _ left).bind fun _ => (alike _ _ right).bind fun _ => rfl
  | unary op operand =>
    cases op with
    | not => rfl
    | _ => exact (alike _ _ operand).bind fun _ => rfl
  | incDec op part | ternary _ part | assign part | compoundAssign op part =>
    exact alike _ _ part
  | index array pos => exact (alike _ _ array).bind fun _ => rfl
  | member field throughPointer object =>
    refine (alike _ _ object).bind fun type => ?_
    split
    · split <;> first | rfl | exact ⟨rfl, close⟩
    · exact ⟨rfl, close⟩
  | initList items =>
    cases items with
    | nil => rfl
    | cons first rest =>
      refine (alike _ _ first).bind fun type => ?_
      simp only [length_cons, rest.length_eq]
      rfl
  | _ => first | rfl | exact ⟨rfl, close⟩

theorem sameType_typeAt (fuel : Nat) (one : br.related node copy) :
    SameType br (fw.typeAt env fuel node) (fw.typeAt env fuel copy) := by
  induction fuel generalizing node copy with
  | zero => exact ⟨rfl, br.placed one⟩
  | succ fuel ih => exact sameType_typeBy (fun _ _ => ih) one

/-! Expressions. -/

theorem alike_pushBare (close : br.near loc loc') (answers : Answers res (·.isBare = true)) :
    br.Alike partway (do push (← attempt res loc) : Act Unit) (do push (← attempt res loc')) :=
  (twins_attempt close fun _ => answers.of_ok).bind fun _ isBare =>
    alike_push (br.discipline.bare isBare)

theorem matches_eval (copied : List.Forall₂ br.related nodes copies) {below below' : List Frame}
    (matched : List.Forall₂ br.Matches below below') :
    List.Forall₂ br.Matches (nodes.map Frame.eval ++ below) (copies.map Frame.eval ++ below') := by
  refine rel_append ?_ matched
  rw [forall₂_map_left_iff, forall₂_map_right_iff]
  exact copied.imp fun _ _ one => .eval one

theorem alike_evalCall (one : br.related node copy) (copied : List.Forall₂ br.related args args')
    (close : br.near loc loc') :
    br.Alike false (evalCall fw node callee args loc) (evalCall fw copy callee args' loc') := by
  unfold evalCall
  split
  · rw [copied.length_eq]
    exact alike_schedule (matches_eval copied (.cons (.call _ _ close) .nil))
  · split
    · exact alike_schedule (matches_eval copied (.cons (.builtin one) .nil))
    · exact twins_raise close

theorem operand_matches (one : br.related node copy) :
    br.Matches (fw.operand env node).1 (fw.operand env copy).1 ∧
      (fw.operand env copy).2 = (fw.operand env node).2 := by
  have alike : fw.hasPlace env copy = fw.hasPlace env node := by
    have copied := br.copied one
    unfold Firmware.hasPlace
    generalize fw.program.kind node = kind, fw.program.kind copy = kind' at copied ⊢
    cases copied with
    | unary op operand => cases op <;> rfl
    | _ => rfl
  unfold Firmware.operand
  rw [alike]
  split
  · exact ⟨.evalPlace one, rfl⟩
  · exact ⟨.eval one, rfl⟩

section Eval

variable (joins : br.Joins true ctx twin) (sees : br.discipline.Sees ctx.env)
include joins sees

theorem twinsAt_evalName (close : br.near loc loc') :
    br.TwinsAt partway (fun _ => True) ctx twin (evalName fw name loc) (evalName fw name loc') := by
  refine .environment joins ?_
  split
  · rename_i cell bound
    refine .attemptMemory close joins fun value loaded => ?_
    have operand := br.discipline.load joins.holds.memory (sees name cell bound) loaded
    exact alike_push operand _ _ joins
  · exact alike_pushBare close (fw.resolve_answers name) _ _ joins

variable (one : br.related node copy)
include one

theorem twinsAt_eval : br.TwinsAt false (fun _ => True) ctx twin (eval fw node) (eval fw copy) := by
  have close := br.placed one
  have copied := br.copied one
  have scheduled {frames copies : List Frame} (matched : List.Forall₂ br.Matches frames copies) :=
    alike_schedule matched ctx twin joins
  have pushed {value : Value} (isBare : value.isBare = true) :
      br.TwinsAt false (fun _ => True) ctx twin (push value) (push value) :=
    alike_push (br.discipline.bare isBare) ctx twin joins
  unfold eval
  dsimp only
  generalize fw.program.kind node = kind, fw.program.kind copy = kind' at copied ⊢
  cases copied with
  | plain simple =>
    cases kind with
    | identifier name => exact twinsAt_evalName joins sees close
    | intLiteral value unsigned => exact pushed (Value.isBare_ofLiteral value unsigned)
    | floatLiteral | charLiteral | stringLiteral | boolLiteral | nullLiteral | sizeofType =>
      exact pushed rfl
    | _ => first | exact twins_raise close _ _ joins | cases simple
  | binary op left right =>
    exact scheduled (.cons (.eval left) (.cons (.eval right) (.cons (.binary one) .nil)))
  | logical op left right => exact scheduled (.cons (.eval left) (.cons (.logical false one) .nil))
  | unary op operand =>
    cases op with
    | addressOf => exact scheduled (.cons (.evalPlace operand) .nil)
    | deref => exact scheduled (.cons (.evalPlace one) (.cons (.load one) .nil))
    | _ => exact scheduled (.cons (.eval operand) (.cons (.unary one) .nil))
  | incDec op target => exact scheduled (.cons (.evalPlace target) (.cons (.incDec one) .nil))
  | ternary cond => exact scheduled (.cons (.eval cond) (.cons (.select one) .nil))
  | assign target value =>
    exact scheduled (.cons (.evalPlace target) (.cons (.eval value) (.cons (.assign one) .nil)))
  | compoundAssign op target value =>
    exact scheduled
      (.cons (.evalPlace target) (.cons (.eval value) (.cons (.compoundAssign one) .nil)))
  | call callee args => exact alike_evalCall one args close _ _ joins
  | methodCall method receiver args =>
    exact scheduled (matches_eval (.cons receiver args) (.cons (.method one) .nil))
  | index | member => exact scheduled (.cons (.evalPlace one) (.cons (.load one) .nil))
  | cast type expr => exact scheduled (.cons (.eval expr) (.cons (.cast one) .nil))
  | sizeofExpr expr =>
    refine .environment joins ?_
    have alike := sameType_typeAt ctx.env (fw.program.nodes.size + 1) expr
    unfold Firmware.staticType
    cases type : fw.typeAt ctx.env (fw.program.nodes.size + 1) _ <;>
      cases type' : fw.typeAt ctx.env (fw.program.nodes.size + 1) _ <;>
        rw [type, type'] at alike
    · exact twins_throw alike.1 alike.2 _ _ joins
    · exact alike.elim
    · exact alike.elim
    · cases alike
      exact pushed rfl
  | initList items =>
    dsimp only
    rw [items.length_eq]
    exact scheduled (matches_eval items (.cons (.collect _) .nil))

theorem twinsAt_evalPlace : br.TwinsAt false (fun _ => True) ctx twin (evalPlace fw node)
      (evalPlace fw copy) := by
  have close := br.placed one
  have copied := br.copied one
  have scheduled {frames copies : List Frame} (matched : List.Forall₂ br.Matches frames copies) :=
    alike_schedule matched ctx twin joins
  unfold evalPlace
  refine .environment joins ?_
  generalize fw.program.kind node = kind, fw.program.kind copy = kind' at copied ⊢
  cases copied with
  | plain simple =>
    cases kind with
    | identifier name =>
      dsimp only
      split
      · rename_i cell bound
        exact alike_push (sees name cell bound) _ _ joins
      · exact .attempt close joins fun _ _ => twins_raise close _ _ joins
    | _ => first | exact twins_raise close _ _ joins | cases simple
  | index array pos =>
    obtain ⟨base, fromPlace⟩ := operand_matches ctx.env array
    dsimp only
    rw [fromPlace]
    exact scheduled (.cons base (.cons (.eval pos) (.cons (.indexPlace _ one) .nil)))
  | member field throughPointer object =>
    dsimp only
    split
    · exact scheduled (.cons (.eval object) (.cons (.fieldPlace one) .nil))
    · exact scheduled (.cons (.evalPlace object) (.cons (.fieldPlace one) .nil))
  | unary op operand =>
    cases op with
    | deref =>
      obtain ⟨base, fromPlace⟩ := operand_matches ctx.env operand
      dsimp only
      rw [fromPlace]
      exact scheduled (.cons base (.cons (.derefPlace _ one) .nil))
    | _ => exact twins_raise close _ _ joins
  | _ => exact twins_raise close _ _ joins

end Eval

/-! Frames that finish an expression. -/

section Finish

variable (one : br.related node copy) (fromPlace : Bool)
include one

theorem alike_runLoad : br.Alike partway (runLoad fw node) (runLoad fw copy) := by
  have close := br.placed one
  refine (twins_popPlace close).bind fun place placed => ?_
  refine twins_environment.bind fun env memory => ?_
  refine (twins_attemptMemory close fun value => br.discipline.load memory placed).bind ?_
  exact fun value => alike_push

theorem alike_runIndexPlace : br.Alike partway (runIndexPlace fw node fromPlace)
      (runIndexPlace fw copy fromPlace) := by
  have close := br.placed one
  refine (twins_pop close).bind fun pos _ => ?_
  split
  · exact twins_raise close
  · rename_i index _
    refine (twins_pop close).bind fun base operand => twins_environment.bind fun env memory => ?_
    split
    · rename_i place
      refine Twins.bind (twins_attempt close fun target found => ?_) fun target => alike_push
      cases fromPlace with
      | true =>
        exact br.discipline.leadsTo memory operand ((env.elementOf_answers place index).of_ok found)
      | false =>
        exact br.discipline.pointer operand ((env.offsetPlace_answers place index).of_ok found)
    · exact twins_raise close
    · exact twins_raise close

theorem alike_runDerefPlace : br.Alike partway (runDerefPlace fw node fromPlace)
      (runDerefPlace fw copy fromPlace) := by
  have close := br.placed one
  refine (twins_pop close).bind fun base operand => ?_
  split
  · rename_i place
    split
    · refine twins_environment.bind fun env memory => ?_
      refine (twins_attempt close fun target found => br.discipline.leadsTo memory operand
        ((env.pointeeOf_answers place).of_ok found)).bind ?_
      exact fun target => alike_push
    · exact alike_push operand
  · exact twins_raise close
  · exact twins_raise close

theorem alike_runBinary : br.Alike partway (runBinary fw node) (runBinary fw copy) := by
  obtain ⟨close, kind, kind', same, same', copied⟩ := br.kinds one
  simp only [runBinary, same, same']
  cases copied with
  | binary op =>
    refine (twins_pop close).bind fun right rightOperand => ?_
    refine (twins_pop close).bind fun left leftOperand => twins_environment.bind fun env _ => ?_
    refine (twins_attempt close fun value => (env.operate_answers op left right).of_ok).bind
      fun value stems => ?_
    exact alike_push (br.discipline.stems stems (by simp [leftOperand, rightOperand]))
  | plain simple => cases kind <;> first | exact twins_raise close | cases simple
  | _ => exact twins_raise close

theorem alike_runLogical (isRight : Bool) :
    br.Alike false (runLogical fw node isRight) (runLogical fw copy isRight) := by
  obtain ⟨close, kind, kind', same, same', copied⟩ := br.kinds one
  simp only [runLogical, same, same']
  cases copied with
  | logical op left right =>
    refine (twins_pop close).bind fun value _ => (alike_truth close).bind fun decided _ => ?_
    split
    · exact alike_push (br.discipline.bare rfl)
    · split
      · exact alike_push (br.discipline.bare rfl)
      · exact alike_push (br.discipline.bare rfl)
      · exact alike_schedule (.cons (.eval right) (.cons (.logical true one) .nil))
  | plain simple => cases kind <;> first | exact twins_raise close | cases simple
  | _ => exact twins_raise close

theorem alike_runUnary : br.Alike partway (runUnary fw node) (runUnary fw copy) := by
  obtain ⟨close, kind, kind', same, same', copied⟩ := br.kinds one
  simp only [runUnary, same, same']
  cases copied with
  | unary op =>
    refine (twins_pop close).bind fun value _ => ?_
    cases op with
    | deref | addressOf =>
      exact (twins_raise close).bind fun _ isBare => alike_push (br.discipline.bare isBare)
    | _ => exact alike_pushBare close (UnaryOp.apply_answers value (by simp) (by simp))
  | plain simple => cases kind <;> first | exact twins_raise close | cases simple
  | _ => exact twins_raise close

theorem alike_runSelect : br.Alike false (runSelect fw node) (runSelect fw copy) := by
  obtain ⟨close, kind, kind', same, same', copied⟩ := br.kinds one
  simp only [runSelect, same, same']
  cases copied with
  | ternary cond thenExpr elseExpr =>
    refine (twins_pop close).bind fun value _ => (alike_truth close).bind fun holds _ => ?_
    cases holds with
    | true => exact alike_schedule (.cons (.eval thenExpr) .nil)
    | false => exact alike_schedule (.cons (.eval elseExpr) .nil)
  | plain simple => cases kind <;> first | exact twins_raise close | cases simple
  | _ => exact twins_raise close

theorem alike_runCast : br.Alike partway (runCast fw node) (runCast fw copy) := by
  obtain ⟨close, kind, kind', same, same', copied⟩ := br.kinds one
  simp only [runCast, same, same']
  cases copied with
  | cast =>
    refine (twins_pop close).bind fun value operand => (twins_convert close operand).bind ?_
    exact fun _ fitting => alike_push (br.discipline.operand_of_stored fitting)
  | plain simple => cases kind <;> first | exact twins_raise close | cases simple
  | _ => exact twins_raise close

theorem alike_runFieldPlace : br.Alike partway (runFieldPlace fw node) (runFieldPlace fw copy) := by
  obtain ⟨close, kind, kind', same, same', copied⟩ := br.kinds one
  simp only [runFieldPlace, same, same']
  cases copied with
  | member =>
    exact (twins_popPlace close).bind fun place placed =>
      alike_push (br.discipline.pointer placed rfl)
  | plain simple => cases kind <;> first | exact twins_raise close | cases simple
  | _ => exact twins_raise close

variable (writes : br.discipline.Writes)
include writes

theorem twins_runAssign :
    br.Twins partway Effect.Reports (runAssign fw node) (runAssign fw copy) := by
  have close := br.placed one
  refine (twins_pop close).bind fun value operand => ?_
  refine (twins_popPlace close).bind fun place placed ctx twin joins => ?_
  refine .environment joins (.attempt close joins fun _ writable => ?_)
  exact (twinsAt_store close writes joins placed writable operand).bind fun res stored =>
    (alike_push stored.1).returning stored.2

theorem twins_runIncDec :
    br.Twins partway Effect.Reports (runIncDec fw node) (runIncDec fw copy) := by
  obtain ⟨close, kind, kind', same, same', copied⟩ := br.kinds one
  simp only [runIncDec, same, same']
  cases copied with
  | incDec op =>
    refine (twins_popPlace close).bind fun place placed ctx twin joins => ?_
    refine .environment joins (.attempt close joins fun _ writable => ?_)
    refine .attemptMemory close joins fun old found => .attempt close joins fun new made => ?_
    have oldOperand := br.discipline.read joins.holds.memory placed found
    have newOperand : br.discipline.operand new :=
      br.discipline.stems ((stepped_answers _ op old).of_ok made) (by simp [oldOperand])
    refine (twinsAt_store close writes joins placed writable newOperand).bind
      fun res stored => (alike_push ?_).returning stored.2
    split
    · exact stored.1
    · exact oldOperand
  | plain simple => cases kind <;> first | exact twins_raise close | cases simple
  | _ => exact twins_raise close

theorem twins_runCompoundAssign : br.Twins partway Effect.Reports (runCompoundAssign fw node)
      (runCompoundAssign fw copy) := by
  obtain ⟨close, kind, kind', same, same', copied⟩ := br.kinds one
  simp only [runCompoundAssign, same, same']
  cases copied with
  | compoundAssign op =>
    refine (twins_pop close).bind fun right operand => ?_
    refine (twins_popPlace close).bind fun place placed ctx twin joins => ?_
    refine .environment joins (.attempt close joins fun _ writable => ?_)
    refine .attemptMemory close joins fun current found => .attempt close joins fun res made => ?_
    have currentOperand := br.discipline.read joins.holds.memory placed found
    have resultOperand : br.discipline.operand res :=
      br.discipline.stems ((ctx.env.operate_answers op current right).of_ok made)
        (by simp [currentOperand, operand])
    exact (twinsAt_store close writes joins placed writable resultOperand).bind
      fun res stored => (alike_push stored.1).returning stored.2
  | plain simple => cases kind <;> first | exact twins_raise close | cases simple
  | _ => exact twins_raise close

end Finish

/-! Functions and methods of the board. -/

section Board

variable (close : br.near loc loc') {values : List Value} {method : String} {args : Arguments}
include close

theorem twins_drawRandom : br.Twins partway br.discipline.operand (drawRandom args loc)
      (drawRandom args loc') := by
  have draw (low high : Int64) : br.Twins partway br.discipline.operand (do
      let drawn := nextRandom (← get).random low high
      modify fun ctx => { ctx with random := drawn.2 }
      pure (.int drawn.1.toInt32) : Act Value) (do
      let drawn := nextRandom (← get).random low high
      modify fun ctx => { ctx with random := drawn.2 }
      pure (.int drawn.1.toInt32)) := by
    intro ctx copy joins _
    obtain ⟨env, frames, values, random⟩ := ctx
    obtain ⟨env', frames', values', random'⟩ := copy
    obtain ⟨holds, rfl, rfl, values, frames⟩ := joins
    exact ⟨rfl, br.discipline.bare rfl,
      ⟨holds.memory, holds.operands, fun _ => holds.frames rfl⟩, rfl, rfl, values, frames⟩
  unfold drawRandom
  dsimp only
  split
  · exact (alike_attempt close).bind fun high _ => draw _ high
  · exact (alike_attempt close).bind fun low _ => (alike_attempt close).bind fun high _ =>
      draw low high

theorem twins_seedRandom : br.Twins partway br.discipline.operand (seedRandom args loc)
      (seedRandom args loc') := by
  refine (alike_attempt close).bind fun seed _ => ?_
  refine Twins.returning (alike_modify fun _ _ joins => ?_) (br.discipline.bare rfl)
  exact ⟨⟨joins.holds.memory, joins.holds.operands, fun _ => joins.holds.frames rfl⟩, joins.env, rfl,
    joins.values, joins.frames⟩

theorem twins_runBuiltin (opds : ∀ value ∈ values, br.discipline.operand value) :
    br.Twins partway Effect.Reports (runBuiltin builtin values loc)
      (runBuiltin builtin values loc') := by
  have returned {act act' : Act Value} (twins : br.Twins true br.discipline.operand act act') :
      br.Twins partway Effect.Reports (do push (← act); pure .quiet : Act Effect)
        (do push (← act'); pure .quiet) :=
    twins.bind fun _ operand => (alike_push operand).returning trivial
  refine (alike_attempt close).bind fun _ _ => ?_
  split
  · exact (alike_attempt close).bind fun _ _ => twins_pure trivial
  · split
    · rename_i told
      refine (twins_attempt close fun cmd => Builtin.command?_isReport told).bind ?_
      exact fun cmd reports => (alike_push (br.discipline.bare rfl)).returning reports
    · split
      · exact returned (twins_drawRandom close)
      · exact returned (twins_seedRandom close)
      · refine twins_environment.bind fun env _ => ?_
        refine returned (twins_attempt close fun value computed => ?_)
        rcases (Builtin.compute_answers builtin env _).of_ok computed with isBare | given
        · exact br.discipline.bare isBare
        · exact opds value given

theorem twins_runLibrary (opds : ∀ value ∈ values, br.discipline.operand value) :
    br.Twins partway Effect.Reports (runLibrary fw handle method values loc)
      (runLibrary fw handle method values loc') := by
  unfold runLibrary
  split
  · exact twins_raise close
  · rename_i compute route
    split
    · rename_i value computed
      exact (alike_push (br.discipline.computed route opds computed)).returning trivial
    · exact twins_raise close
  · refine twins_environment.bind fun env _ => ?_
    dsimp only
    split
    · exact twins_pure trivial
    · exact (alike_push (br.discipline.bare rfl)).returning rfl

theorem twins_runText : br.Twins partway Effect.Reports (runText text method values loc)
      (runText text method values loc') :=
  twins_environment.bind fun env _ =>
    (twins_attempt close fun _ => (Text.call_answers env text method values).of_ok).bind
      fun _ isBare => (alike_push (br.discipline.bare isBare)).returning trivial

theorem twins_runSerial : br.Twins partway Effect.Reports (runSerial method values loc)
      (runSerial method values loc') := by
  refine twins_environment.bind fun env _ => ?_
  refine (twins_attempt close fun reply answered =>
    And.intro answered ((Serial.call_answers env method values).of_ok answered)).bind ?_
  rintro reply ⟨answered, isBare⟩
  refine (alike_push (br.discipline.bare isBare)).bind fun _ _ => ?_
  split
  · exact twins_pure (Serial.command?_isReport answered ‹_›)
  · exact twins_pure trivial

theorem twins_runMethod (opds : ∀ value ∈ values, br.discipline.operand value) :
    br.Twins partway Effect.Reports (runMethod fw receiver method values loc)
      (runMethod fw receiver method values loc') := by
  unfold runMethod
  split
  · split
    · exact twins_runSerial close
    · exact twins_runLibrary close opds
  · exact twins_runText close
  · refine twins_environment.bind fun env _ => ?_
    split
    · exact twins_runText close
    · exact twins_raise close
  · exact twins_raise close

end Board

theorem twins_runCallFrame (one : br.related node copy) :
    br.Twins partway Effect.Reports (runCallFrame fw node) (runCallFrame fw copy) := by
  obtain ⟨close, kind, kind', same, same', copied⟩ := br.kinds one
  simp only [runCallFrame, same, same']
  cases copied with
  | call callee args =>
    dsimp only
    rw [args.length_eq]
    refine (twins_popMany close).bind fun values opds => ?_
    split
    · exact twins_runBuiltin close opds
    · exact twins_raise close
  | plain simple => cases kind <;> first | exact twins_raise close | cases simple
  | _ => exact twins_raise close

theorem twins_runMethodFrame (one : br.related node copy) :
    br.Twins partway Effect.Reports (runMethodFrame fw node) (runMethodFrame fw copy) := by
  obtain ⟨close, kind, kind', same, same', copied⟩ := br.kinds one
  simp only [runMethodFrame, same, same']
  cases copied with
  | methodCall method receiver args =>
    dsimp only
    rw [args.length_eq]
    refine (twins_popMany close).bind fun opds sound => ?_
    split
    · exact twins_runMethod close (forall_mem_cons.mp sound).2
    · exact twins_raise close
  | plain simple => cases kind <;> first | exact twins_raise close | cases simple
  | _ => exact twins_raise close

end Breadboard.Act
