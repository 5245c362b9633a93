import Breadboard.Proofs.Machine.Storage
import Breadboard.Proofs.Session.Callee

/-!
The result of a call. A return takes the frames of its function off the stack, with their scopes,
and only then is the value converted to the type of the result. What it is converted to does not
depend on when this is done, but for one case: a text is wanted and the value points to characters
in a local of the function itself. They are gone by then, and the call fails.
-/

open List

namespace Breadboard

open Act Evaluation Scope

variable {fw : Firmware} {ctx : Context}

/-! Floors. -/

namespace Rooted

variable {root size : Nat} {scopes others : List Scope}

theorem congr (rooted : Rooted root size scopes)
    (same : others.map localsBase = scopes.map localsBase) : Rooted root size others := by
  induction scopes generalizing others size with
  | nil =>
    cases map_eq_nil_iff.mp same
    exact rooted
  | cons scope scopes ih =>
    cases others with
    | nil => cases same
    | cons other others =>
      obtain ⟨floor, below⟩ := List.cons.inj same
      obtain ⟨within, rooted⟩ := rooted
      exact ⟨floor ▸ within, floor ▸ ih rooted below⟩

theorem grow (rooted : Rooted root size scopes) (grows : size ≤ larger)
    (outside : scopes = [] → larger = size) : Rooted root larger scopes := by
  cases scopes with
  | nil => exact (outside rfl).trans rooted
  | cons scope scopes => exact ⟨Nat.le_trans rooted.1 grows, rooted.2⟩

end Rooted

namespace Environment

def Rising (env : Environment) : Prop := Rooted 0 env.locals.size env.scopes

variable {env next : Environment}

namespace Rising

variable (rising : env.Rising)
include rising

theorem extended (extended : env.Extends next) : next.Rising := by
  have floors (env : Environment) : env.scopes.map localsBase = env.outline.map Prod.snd := by
    simp [outline]
  have same : next.scopes.map localsBase = env.scopes.map localsBase := by
    rw [floors, floors, extended.outline]
  exact (rising.grow extended.grows extended.outside).congr same

theorem pushScope (kind : ScopeKind) : (env.pushScope kind).Rising := ⟨Nat.le_refl _, rising⟩

theorem popScope : env.popScope.Rising := by
  cases opened : env.scopes with
  | nil => rwa [Environment.popScope, opened]
  | cons scope outer =>
    rw [Rising, opened] at rising
    obtain ⟨within, rooted⟩ := rising
    rw [Environment.popScope, opened, Rising]
    have size : (env.locals.take scope.localsBase).size = scope.localsBase := by
      rw [Array.take, Array.size_extract, Nat.min_eq_left within, Nat.sub_zero]
    rw [size]
    exact rooted

theorem moved {move : ScopeMove} (relates : move.Relates env next) : next.Rising := by
  cases move with
  | keep =>
    obtain ⟨scopes, -, size⟩ := relates
    rwa [Rising, scopes, size]
  | declare => exact rising.extended relates
  | enter kind => exact (rising.pushScope kind).extended relates
  | exit =>
    rw [show next = _ from relates]
    exact rising.popScope

theorem release (frames : List Frame) : (env.release frames).Rising := by
  induction frames generalizing env with
  | nil => exact rising
  | cons frame frames ih =>
    rw [release_cons]
    cases frame.ownsScope with
    | true => exact ih rising.popScope
    | false => exact ih rising

end Rising

end Environment

theorem Stepped.rising {next : Context} (stepped : Stepped fw frame ctx effect next)
    (rising : ctx.env.Rising) : next.env.Rising := by
  rcases stepped with ⟨_, _, _, -, -, -, relates, -⟩ | ⟨-, jump⟩
  · exact rising.moved relates
  · obtain ⟨discarded, _, -, -, env, -⟩ := jump.releases
    rw [env]
    exact rising.release discarded

theorem Firmware.Reaches.rising (reached : fw.Reaches pending ctx) : ctx.env.Rising := by
  induction reached with
  | start => rfl
  | step reached top out ih =>
    exact ((Firmware.step_meets top reached.balanced).of_ok out).1.rising ih
  | answer _ _ ih => exact ih

/-! Leaving a function. -/

def DataType.isText (type : DataType) : Bool :=
  type.base = .text && type.pointerDepth = 0 && !type.isArray

namespace Environment

variable {env : Environment} {frames : List Frame} {kinds : List ScopeKind}

def function? (env : Environment) : Option Scope := env.scopes.find? (·.kind = .function)

/-- Whether a cell is a local of the innermost function. -/
def isOwn (env : Environment) : Cell → Bool
  | .global _ => false
  | .frame index _ => env.function?.any (·.localsBase ≤ index)

def leave (env : Environment) (frames : List Frame) : Environment := (env.release frames).popScope

theorem take_take {α : Type} {items : Array α}
    (fewer : few ≤ (items.take many).size) : (items.take many).take few = items.take few := by
  rw [Array.take, Array.size_extract] at fewer
  rw [Array.take, Array.take, Array.take, Array.extract_extract, Nat.zero_add, Nat.zero_add,
    Nat.min_eq_left (by omega)]

theorem leave_eq (rising : env.Rising) (inside : ∀ frame ∈ frames, frame.isBarrier = false)
    (mirrors : env.scopes.map kind = scopeKinds frames ++ .function :: kinds) :
    ∃ scope scopes, env.function? = some scope ∧ scope.localsBase ≤ env.locals.size ∧
      env.leave frames = { env with scopes, locals := env.locals.take scope.localsBase } := by
  induction frames generalizing env with
  | nil =>
    cases opened : env.scopes with
    | nil => simp [opened] at mirrors
    | cons scope outer =>
      rw [opened] at mirrors
      have kind : scope.kind = .function := (List.cons.inj mirrors).1
      rw [Rising, opened] at rising
      refine ⟨scope, outer, ?_, rising.1, ?_⟩
      · simp [function?, opened, kind]
      · simp [leave, Environment.release, popScope, opened]
  | cons frame frames ih =>
    obtain ⟨here, within⟩ := forall_mem_cons.mp inside
    rw [scopeKinds_cons, Frame.scopeKind?_eq here] at mirrors
    rw [leave, release_cons]
    cases owns : frame.ownsScope with rw [owns] at mirrors
    | false => exact ih rising within mirrors
    | true =>
      cases opened : env.scopes with
      | nil => simp [opened] at mirrors
      | cons scope outer =>
        -- The frame's own block lies in the function, above its floor.
        have popped : env.popScope = { env with
            scopes := outer, locals := env.locals.take scope.localsBase } := by
          rw [popScope, opened]
        rw [opened] at mirrors
        obtain ⟨kind, mirrors⟩ := List.cons.inj mirrors
        have mirrors : env.popScope.scopes.map Scope.kind =
            scopeKinds frames ++ .function :: kinds := by
          rw [popped]
          exact mirrors
        obtain ⟨function, scopes, found, above, left⟩ := ih rising.popScope within mirrors
        refine ⟨function, scopes, ?_, ?_, ?_⟩
        · rw [popped] at found
          rw [function?, opened, List.find?_cons_of_neg (by simp [kind])]
          exact found
        · rw [popped] at above
          refine Nat.le_trans above ?_
          rw [Array.take, Array.size_extract]
          exact Nat.min_le_right ..
        · rw [if_pos rfl, ← leave, left, popped]
          rw [popped] at above
          rw [take_take above]

theorem resolve?_leave (rising : env.Rising) (inside : ∀ frame ∈ frames, frame.isBarrier = false)
    (mirrors : env.scopes.map kind = scopeKinds frames ++ .function :: kinds) (cell : Cell) :
    (env.leave frames).resolve? cell = if env.isOwn cell then none else env.resolve? cell := by
  obtain ⟨scope, scopes, found, -, left⟩ := leave_eq rising inside mirrors
  rw [left]
  cases cell with
  | «global» index => rfl
  | frame index generation =>
    simp only [isOwn, found, Option.any_some, decide_eq_true_eq, resolve?, getElem?_take]
    by_cases own : scope.localsBase ≤ index
    · rw [if_pos own, if_neg (Nat.not_lt_of_le own)]
    · rw [if_neg own, if_pos (Nat.lt_of_not_le own)]

/-! Texts behind pointers, before and after. -/

variable {other : Environment} {place : Place}

theorem read_congr (same : other.resolve? place.cell = env.resolve? place.cell) :
    other.read place = env.read place := by
  rw [Environment.read, Environment.read, resolve, resolve, same]

theorem textAt?_congr (same : other.resolve? place.cell = env.resolve? place.cell) :
    other.textAt? place = env.textAt? place := by
  have container : other.read place.container = env.read place.container := read_congr same
  rw [textAt?, textAt?, read_congr same, container]

theorem textAt?_of_resolve?_eq_none (gone : env.resolve? place.cell = none) :
    env.textAt? place = none := by
  have dangles (path : List PathStep) : env.read { place with path } = .error .danglingPlace := by
    rw [Environment.read, resolve, gone]
    rfl
  have whole : env.read place = .error .danglingPlace := dangles place.path
  have container : env.read place.container = .error .danglingPlace := dangles _
  rw [textAt?, whole, container]
  cases place.lastIndex? <;> rfl

theorem givenAs_of_isText (isText : type.isText = true) (value : Value) :
    env.givenAs type value = env.textOf value := if_pos isText

/-- Whether a value points to characters in a local of the innermost function. -/
def pointsToOwnText (env : Environment) : Value → Bool
  | .pointer place => env.isOwn place.cell && (env.textAt? place).isSome
  | _ => false

section Leave

variable {frames : List Frame} {kinds : List ScopeKind} (rising : env.Rising)
  (inside : ∀ frame ∈ frames, frame.isBarrier = false)
  (mirrors : env.scopes.map kind = scopeKinds frames ++ .function :: kinds) {value : Value}
include rising inside mirrors

theorem textAt?_leave (place : Place) : (env.leave frames).textAt? place =
      if env.isOwn place.cell then none else env.textAt? place := by
  have resolved := resolve?_leave rising inside mirrors place.cell
  split
  · rename_i own
    rw [if_pos own] at resolved
    exact textAt?_of_resolve?_eq_none resolved
  · rename_i other
    rw [if_neg other] at resolved
    exact textAt?_congr resolved

theorem textOf_leave_own (own : env.pointsToOwnText value = true) :
    (env.leave frames).textOf value = value := by
  cases value with
  | pointer place =>
    obtain ⟨own, -⟩ := Bool.and_eq_true_iff.mp own
    simp only [textOf, textAt?_leave rising inside mirrors, if_pos own]
  | _ => cases own

theorem textOf_leave (apart : env.pointsToOwnText value = false) :
    (env.leave frames).textOf value = env.textOf value := by
  cases value with
  | pointer place =>
    simp only [textOf, textAt?_leave rising inside mirrors]
    by_cases own : env.isOwn place.cell = true
    · -- There is no text to lose.
      have nothing : env.textAt? place = none := by
        simpa [pointsToOwnText, own] using apart
      rw [if_pos own, nothing]
    · rw [if_neg own]
  | _ => rfl

/-- What a result is converted from after the function has been left is what it was converted
from before, unless a text is wanted that stood in a local of the function. -/
theorem givenAs_leave (apart : (type.isText && env.pointsToOwnText value) = false) :
    (env.leave frames).givenAs type value = env.givenAs type value := by
  cases isText : type.isText with
  | true =>
    rw [isText] at apart
    rw [givenAs_of_isText isText, givenAs_of_isText isText,
      textOf_leave rising inside mirrors apart]
  | false =>
    have otherwise : ¬ type.isText = true := by simp [isText]
    exact (if_neg otherwise).trans (if_neg otherwise).symm

end Leave

end Environment

namespace Value

variable {structs : StructTable} {type : DataType}

theorem convert_text (wanted : type.isText = true) (string : String) :
    (text string).convert structs type = .ok (.text string) := by
  simp only [DataType.isText, Bool.and_eq_true, decide_eq_true_eq, Bool.not_eq_true'] at wanted
  obtain ⟨⟨base, depth⟩, single⟩ := wanted
  simp [convert, single, depth, base, toScalar]

theorem convert_pointer (wanted : type.isText = true) (place : Place) :
    (pointer place).convert structs type =
      .error (.typeMismatch (.conversion "pointer" .text)) := by
  simp only [DataType.isText, Bool.and_eq_true, decide_eq_true_eq, Bool.not_eq_true'] at wanted
  obtain ⟨⟨base, depth⟩, single⟩ := wanted
  simp [convert, single, depth, base, toScalar, isNumeric, typeName]

end Value

/-! The two steps of a return. -/

theorem Evaluation.Returns.iterate (returned : run.Returns base)
    (steps : Nat) : (next fw base)^[steps] run = run :=
  Function.iterate_fixed (next_of_returns returned) steps

/-- A call is over with the result of a conversion, above the operands that were kept for it, and
fails as the conversion fails. -/
structure Evaluation.Gives (base : List Frame) (kept : List Value) (ctx : Context)
    (conversion : EStateM.Result Fault Context Value) (run : Evaluation) : Prop where
  succeeds : ∀ res, run.Returns base ∧ run.context.values = res :: kept ↔
    conversion = .ok res ctx
  fails : ∀ fault, run.progress = .failed fault ↔ conversion = .error fault ctx

namespace Firmware

variable {inner : List Frame} {fw : Firmware} {ctx : Context} {value : Value} {below : List Value}
  {retType : DataType} {height : Nat} {loc : Location} {base : List Frame}

theorem convert_eq : convert fw value type loc ctx =
      match (ctx.env.givenAs type value).convert fw.structs type with
      | .ok converted => .ok converted ctx
      | .error cause => .error ⟨cause, loc⟩ ctx := by
  change attempt ((ctx.env.givenAs type value).convert fw.structs type) loc ctx = _
  cases (ctx.env.givenAs type value).convert fw.structs type <;> rfl

theorem step_leave (isReturn : fw.program.kind node = .returnStmt (some expr))
    (operands : ctx.values = value :: below)
    (inside : ∀ frame ∈ inner, frame.isBarrier = false) : fw.step ctx (.leave node)
        (inner ++ .callReturn retType height returned loc :: base) =
      .ok .quiet { ctx with
        env := ctx.env.release inner
        frames := .callReturn retType height true loc :: base
        values := value :: below.drop (below.length - height) } := by
  have unwound : unwind Frame.isBarrier ctx.env
      (inner ++ .callReturn retType height returned loc :: base) = _ :=
    Environment.unwind_append ctx.env inside rfl
  apply eq_ok_of_meets
  simp only [runFrame, leaveFunction, isReturn, meets_bind]
  refine (meets_pop _ (by exact operands)).mpr ?_
  simp only [returnValue, unwindTo, meets_bind, meets_get, unwound, meets_set,
    meets_pure, List.head?_cons, meets_truncate, meets_push, meets_modify,
    tail_cons, and_self]

theorem step_callReturn (operands : ctx.values = value :: below) (short : below.length ≤ height)
    (converts : (ctx.env.popScope.givenAs retType value).convert fw.structs retType = out) :
    fw.step ctx (.callReturn retType height true loc) base =
      (attempt out loc >>= push >>= fun _ => pure .quiet : Act Effect)
        ⟨ctx.env.popScope, base, below, ctx.random⟩ := by
  have kept : below.drop (below.length - height) = below := by
    rw [Nat.sub_eq_zero_of_le short, drop_zero]
  obtain ⟨env, frames, values, random⟩ := ctx
  cases operands
  cases converts
  change (convert fw value retType loc >>= push >>= fun _ => pure .quiet : Act Effect)
    ⟨env.popScope, base, below.drop (below.length - height), random⟩ = _
  rw [kept]
  rfl

theorem length_kept_le (below : List Value) (height : Nat) :
    (below.drop (below.length - height)).length ≤ height := by
  rw [length_drop]
  omega

section Return

variable {node expr : NodeId} {inner : List Frame} {returned : Bool}
  (isReturn : fw.program.kind node = .returnStmt (some expr))
  (top : ctx.frames = .leave node :: (inner ++ .callReturn retType height returned loc :: base))
  (inside : ∀ frame ∈ inner, frame.isBarrier = false)
  (operands : ctx.values = value :: below)
include isReturn top inside operands

/-- The first step unwinds the stack, and what the second one does decides the call. -/
theorem callRun_leave (ends : fw.step
      ⟨ctx.env.release inner, .callReturn retType height true loc :: base,
        value :: below.drop (below.length - height), ctx.random⟩
      (.callReturn retType height true loc) base = res) (answers : List Primitive) (steps : Nat) :
    fw.callRun ctx base answers (steps + 2) = (next fw base)^[steps] (settle
        ⟨⟨ctx.env.release inner, .callReturn retType height true loc :: base,
          value :: below.drop (below.length - height), ctx.random⟩, answers, [.quiet], .going⟩
        res) := by
  have further (front : List Frame) (frame : Frame) : front ++ frame :: base ≠ base := by
    intro same
    have lengths := congrArg List.length same
    simp only [length_append, length_cons] at lengths
    omega
  let started : Evaluation := { context := ctx, answers }
  have first : started.next fw base = _ :=
    (next_of_cons rfl top (further (.leave node :: inner) _)).trans
      (congrArg started.settle (step_leave isReturn operands inside))
  rw [callRun, Function.iterate_succ_apply, Function.iterate_succ_apply, first, ← ends]
  exact congrArg _ (next_of_cons rfl rfl (further [] _))

theorem callRun_of_convert
    (converts : ((ctx.env.leave inner).givenAs retType value).convert fw.structs
      retType = .ok converted) (answers : List Primitive) (steps : Nat) :
    (fw.callRun ctx base answers (steps + 2)).Returns base ∧
      (fw.callRun ctx base answers (steps + 2)).context.values =
        converted :: below.drop (below.length - height) := by
  let finished : Evaluation :=
    ⟨⟨ctx.env.leave inner, base, converted :: below.drop (below.length - height),
      ctx.random⟩, answers, [.quiet, .quiet], .going⟩
  have returned : finished.Returns base := ⟨rfl, rfl⟩
  have ended : fw.callRun ctx base answers (steps + 2) = finished :=
    (callRun_leave isReturn top inside operands
      (step_callReturn rfl (length_kept_le below height) converts) answers steps).trans
        (returned.iterate steps)
  rw [ended]
  exact ⟨returned, rfl⟩

/-- The call fails if the returned value cannot be converted when the function has been left. -/
theorem callRun_of_convert_error
    (refuses : ((ctx.env.leave inner).givenAs retType value).convert fw.structs
      retType = .error cause) (answers : List Primitive) (steps : Nat) :
    (fw.callRun ctx base answers (steps + 2)).progress = .failed ⟨cause, loc⟩ := by
  let failed : Evaluation :=
    ⟨⟨ctx.env.leave inner, base, below.drop (below.length - height), ctx.random⟩, answers,
      [.quiet], .failed ⟨cause, loc⟩⟩
  have stopped : failed.progress ≠ .going := nofun
  have ended : fw.callRun ctx base answers (steps + 2) = failed :=
    (callRun_leave isReturn top inside operands
      (step_callReturn rfl (length_kept_le below height) refuses) answers steps).trans
        (Function.iterate_fixed (next_of_ne_going stopped base) steps)
  rw [ended]

theorem callRun_gives (same : (ctx.env.leave inner).givenAs retType value =
      ctx.env.givenAs retType value) (answers : List Primitive) (steps : Nat) :
    (fw.callRun ctx base answers (steps + 2)).Gives base (below.drop (below.length - height)) ctx
      (convert fw value retType loc ctx) := by
  rw [convert_eq]
  cases out : (ctx.env.givenAs retType value).convert fw.structs retType with
  | ok converted =>
    obtain ⟨⟨going, frames⟩, values⟩ :=
      callRun_of_convert isReturn top inside operands (same ▸ out) answers steps
    refine ⟨?_, ?_⟩
    · intro res
      rw [values]
      constructor
      · rintro ⟨-, ⟨⟩⟩
        rfl
      · rintro ⟨⟩
        exact ⟨⟨going, frames⟩, rfl⟩
    · intro fault
      rw [going]
      constructor <;> rintro ⟨⟩
  | error cause =>
    have failed := callRun_of_convert_error isReturn top inside operands (same ▸ out) answers steps
    refine ⟨?_, ?_⟩
    · intro res
      rw [Evaluation.Returns, failed]
      constructor
      · rintro ⟨⟨⟨⟩, -⟩, -⟩
      · rintro ⟨⟩
    · intro fault
      rw [failed]
      constructor
      · rintro ⟨⟩
        rfl
      · rintro ⟨⟩
        rfl

end Return

/-- As long as the function runs, a text in a local of it can be converted. -/
theorem convert_ownText (isText : retType.isText = true)
    (own : ctx.env.pointsToOwnText value = true) :
    ∃ string, convert fw value retType loc ctx = .ok (.text string) ctx := by
  cases value with
  | pointer place =>
    obtain ⟨-, stands⟩ := Bool.and_eq_true_iff.mp own
    obtain ⟨string, found⟩ := Option.isSome_iff_exists.mp stands
    refine ⟨string, ?_⟩
    have given : ctx.env.givenAs retType (.pointer place) = .text string := by
      rw [Environment.givenAs_of_isText isText, Environment.textOf, found]
    rw [convert_eq, given, Value.convert_text isText]
  | _ => cases own

theorem convert_leave_ownText (rising : ctx.env.Rising)
    (inside : ∀ frame ∈ inner, frame.isBarrier = false)
    (mirrors : ctx.env.scopes.map kind = scopeKinds inner ++ .function :: kinds)
    (isText : retType.isText = true) (own : ctx.env.pointsToOwnText value = true) :
    ((ctx.env.leave inner).givenAs retType value).convert fw.structs retType =
      .error (.typeMismatch (.conversion "pointer" .text)) := by
  rw [Environment.givenAs_of_isText isText, Environment.textOf_leave_own rising inside mirrors own]
  cases value with
  | pointer place => exact Value.convert_pointer isText place
  | _ => cases own

/-- A call from whose function a value is returned. It is over two steps after the value has been
computed, with the result of converting the value in the memory of that moment, before any scope
is given up, and it fails where that conversion fails. This is so just if the result is not a text
that stands in a local of the function, and with such a text the call fails. -/
theorem returned_value_converts (firmware : Firmware) {context : Context} {node expr : NodeId}
    {inner base : List Frame} {returnType : DataType} {height : Nat} {returned : Bool}
    {location : Location} {value : Value} {below : List Value}
    (reached : firmware.Reaches none context)
    (isReturn : firmware.program.kind node = .returnStmt (some expr))
    (top : context.frames =
      .leave node :: (inner ++ .callReturn returnType height returned location :: base))
    (inside : ∀ frame ∈ inner, frame.isBarrier = false)
    (operands : context.values = value :: below) (answers : List Primitive) (steps : Nat) :
    let run := firmware.callRun context base answers (steps + 2)
    (run.Gives base (below.drop (below.length - height)) context
        (Act.convert firmware value returnType location context) ↔
      (returnType.isText && context.env.pointsToOwnText value) = false) ∧
    ((returnType.isText && context.env.pointsToOwnText value) = true →
      run.progress = .failed ⟨.typeMismatch (.conversion "pointer" .text), location⟩) := by
  have rising := reached.rising
  have mirrors := reached.balanced_and_mirrors.2.kinds
  rw [top] at mirrors
  simp only [scopeKinds_cons, scopeKinds_append, Frame.scopeKind?, Option.toList_none,
    Option.toList_some, nil_append, singleton_append] at mirrors
  have fails (own : (returnType.isText && context.env.pointsToOwnText value) = true) :
      (firmware.callRun context base answers (steps + 2)).progress =
        .failed ⟨.typeMismatch (.conversion "pointer" .text), location⟩ := by
    obtain ⟨isText, own⟩ := Bool.and_eq_true_iff.mp own
    exact callRun_of_convert_error isReturn top inside operands
      (convert_leave_ownText rising inside mirrors isText own) answers steps
  refine ⟨⟨?_, ?_⟩, fails⟩
  · intro gives
    by_contra own
    have own := eq_true_of_ne_false own
    obtain ⟨isText, text⟩ := Bool.and_eq_true_iff.mp own
    obtain ⟨string, converts⟩ := convert_ownText isText text
    obtain ⟨⟨going, -⟩, -⟩ := (gives.succeeds _).mpr converts
    cases going.symm.trans (fails own)
  · intro apart
    exact callRun_gives isReturn top inside operands
      (Environment.givenAs_leave rising inside mirrors apart) answers steps

/-- A function makes a text out of an array of its own. -/
def labelling : Firmware where
  program := {
    nodes := #[
      ⟨.stringLiteral "abc", ⟨2, 17⟩⟩,
      ⟨.varDecl "buf" { base := .char, dims := [some 4] } (some 0) false false, ⟨2, 3⟩⟩,
      ⟨.identifier "buf", ⟨3, 10⟩⟩, ⟨.returnStmt (some 2), ⟨3, 3⟩⟩, ⟨.block [1, 3], ⟨1, 15⟩⟩,
      ⟨.functionDef "name" [] (.of .text) 4, ⟨1, 8⟩⟩, ⟨.identifier "Serial", ⟨6, 3⟩⟩,
      ⟨.call "name" [], ⟨6, 16⟩⟩, ⟨.methodCall 6 "print" [7], ⟨6, 9⟩⟩, ⟨.exprStmt 8, ⟨6, 3⟩⟩,
      ⟨.block [9], ⟨5, 14⟩⟩,
      ⟨.functionDef "setup" [] (.of .void) 10, ⟨5, 6⟩⟩]
    items := [5, 11] }

/-- The context in which the function returns its array. -/
def labellingReturn : Context := (labelling.callRun (.initial Session.defaultSeed) [] [] 15).context

theorem labellingReturn_reached : labelling.Reaches none labellingReturn := by
  refine (Reaches.start.callRun [] [] 15).going ?_
  decide +kernel

/-- The array could be converted where it is returned, but the call fails. -/
theorem labelling_loses_text :
    let base := labellingReturn.frames.drop 3
    labelling.Reaches none labellingReturn ∧
      labellingReturn.frames =
        .leave 3 :: ([.block 4 2 false] ++ .callReturn (.of .text) 1 false ⟨6, 16⟩ :: base) ∧
      (∃ string, Act.convert labelling (.pointer ⟨.frame 0 0, [.index 0]⟩) (.of .text) ⟨6, 16⟩
        labellingReturn = .ok (.text string) labellingReturn) ∧
      (labelling.callRun labellingReturn base [] 2).progress =
        .failed ⟨.typeMismatch (.conversion "pointer" .text), ⟨6, 16⟩⟩ := by
  intro base
  have top : labellingReturn.frames =
      .leave 3 :: ([.block 4 2 false] ++ .callReturn (.of .text) 1 false ⟨6, 16⟩ :: base) := by
    decide +kernel
  have own : labellingReturn.env.pointsToOwnText (.pointer ⟨.frame 0 0, [.index 0]⟩) = true := by
    decide +kernel
  have operands : labellingReturn.values =
      .pointer ⟨.frame 0 0, [.index 0]⟩ :: [.object ⟨"Serial", "Serial"⟩] := by
    rfl
  have conversion := returned_value_converts labelling labellingReturn_reached
    (show labelling.program.kind 3 = .returnStmt (some 2) from rfl) top (by decide) operands [] 0
  refine ⟨labellingReturn_reached, top, convert_ownText rfl own, conversion.2 ?_⟩
  rw [own]
  rfl

end Firmware

end Breadboard
