import Breadboard.Proofs.Session.Reach
import Breadboard.Proofs.Typing.Store

/-!
Typed storage along a run. That every variable holds a value of its type and every operand is
sound is a discipline: a declaration gives a variable a value of its type, a store converts to
the type of its place, and what a method computes is sound if the library sees to that. So
every variable holds a value of its type in all that a run reaches.
-/

open List

namespace Breadboard

/-- The methods that a library computes make sound values from sound ones. -/
def Library.Computes (structs : StructTable) (library : Library) : Prop :=
  ∀ className method compute, library.route? className method = some (.internal compute) →
    ∀ values res, (∀ value ∈ values, Sound structs value) → compute values = some res →
      Sound structs res

theorem Library.standard_computes (structs : StructTable) : standard.Computes structs :=
  fun _ _ _ route _ _ _ computed =>
    .plain (Value.isPlain_of_isBare (standard_isBare route computed))

theorem Inhabits.sizedBy
    (inhabits : Inhabits structs value type) : Inhabits structs value (type.sizedBy value) := by
  unfold DataType.sizedBy
  split
  · rename_i dims items shape
    obtain ⟨dim, rest, same, -, values⟩ := array_iff.mp inhabits
    cases shape.symm.trans same
    refine .array rfl (by simp) ?_
    simpa [DataType.element, shape] using values
  · exact inhabits

/-- Variables hold values of their types, and operands are sound. -/
structure Context.Typed (structs : StructTable) (ctx : Context) : Prop where
  env : ctx.env.Typed structs
  operands : ∀ value ∈ ctx.values, Sound structs value

namespace Firmware

variable {fw : Firmware}

def typing (fw : Firmware) (acyclic : Acyclic fw.structs)
    (computes : fw.library.Computes fw.structs) : Discipline fw where
  operand := Sound fw.structs
  stored type value := Inhabits fw.structs value type
  memory := Environment.Typed fw.structs
  frame _ := True
  bare isBare := .plain (Value.isPlain_of_isBare isBare)
  pointer _ _ := .plain rfl
  array := .array
  read typed _ := typed.read
  convert := Value.convert_inhabits acyclic
  default := DataType.default_inhabits acyclic
  object className name := .scalar rfl (.object className name)
  sized := Inhabits.sizedBy
  operand_of_stored := Inhabits.sound
  computed route := computes _ _ _ route _ _
  nodeless _ := trivial

theorem typing_lasting (acyclic : Acyclic fw.structs) (computes : fw.library.Computes fw.structs) :
    Lasting (fw.typing acyclic computes) where
  grows := {
    openScope := fun kind typed => typed.pushScope kind
    declare := fun typed inhabits => typed.declare inhabits
    declareStatic := fun site typed inhabits => typed.declareStatic inhabits site
    rebind := fun typed _ => typed.bind
    write := fun typed _ _ placed inhabits => typed.write placed inhabits }
  closes _ typed := typed.popScope
  sees _ _ _ _ _ := .plain rfl
  frames _ := trivial
  initial seed := by
    refine ⟨?_, by simp [Context.initial]⟩
    simp only [Context.initial, mem_toArray, mem_singleton, forall_eq]
    exact .scalar rfl (.object "Serial" "Serial")

theorem Reaches.typed (acyclic : Acyclic fw.structs) (computes : fw.library.Computes fw.structs)
    (reached : fw.Reaches pending ctx) : ctx.Typed fw.structs := by
  obtain ⟨memory, opds, -⟩ := (typing_lasting acyclic computes).reaches reached
  exact ⟨memory, opds⟩

theorem Fails.typed (acyclic : Acyclic fw.structs) (computes : fw.library.Computes fw.structs)
    (fails : fw.Fails fault final) : final.Typed fw.structs := by
  obtain ⟨memory, opds, -⟩ := (typing_lasting acyclic computes).fails fails
  exact ⟨memory, opds⟩

/-- In all that a run reaches, under any control of its host and also where it fails, every global
and every local holds a value of its recorded type. -/
theorem variables_inhabit_types (firmware : Firmware) (acyclic : Acyclic firmware.structs)
    (computes : firmware.library.Computes firmware.structs) :
    (∀ pending context, firmware.Reaches pending context →
      context.env.Typed firmware.structs) ∧
    (∀ fault final, firmware.Fails fault final → final.env.Typed firmware.structs) ∧
    ∀ nextRequest controls context,
      (({ firmware, nextRequest } : Session).perform controls).status.context? = some context →
        context.env.Typed firmware.structs := by
  refine ⟨?_, ?_, ?_⟩
  · intro pending context reached
    exact (reached.typed acyclic computes).env
  · intro fault final fails
    exact (fails.typed acyclic computes).env
  · intro nextRequest controls context held
    have reached :
        (({ firmware, nextRequest } : Session).perform controls).status.Reached firmware :=
      Session.perform_reached controls trivial
    generalize (({ firmware, nextRequest } : Session).perform controls).status = status at *
    cases status with
    | idle => cases held
    | active | waiting =>
        cases held
        exact (Reaches.typed acyclic computes reached).env
    | complete =>
        cases held
        exact (reached.1.typed acyclic computes).env
    | failed =>
        cases held
        obtain ⟨fault, fails⟩ := reached
        exact (fails.typed acyclic computes).env

/-- A sketch with a structure that holds an array of others and a pointer to its own kind. Its
`setup` stores a number that is too large for the field it goes to. -/
def grid : Firmware where
  program := {
    nodes := #[
      ⟨.structDef "Cell" [⟨"level", .of .byte⟩], ⟨1, 1⟩⟩,
      ⟨.structDef "Grid" [⟨"cells", { base := .record "Cell", dims := [some 2] }⟩,
        ⟨"next", { base := .record "Grid", pointerDepth := 1 }⟩], ⟨2, 1⟩⟩,
      ⟨.varDecl "grid" (.of (.record "Grid")) none false false, ⟨3, 1⟩⟩,
      ⟨.functionDef "setup" [] (.of .void) 4, ⟨4, 1⟩⟩,
      ⟨.block [5], ⟨4, 14⟩⟩,
      ⟨.exprStmt 6, ⟨5, 3⟩⟩,
      ⟨.assign 7 12, ⟨5, 3⟩⟩,
      ⟨.member 8 "level" false, ⟨5, 3⟩⟩,
      ⟨.index 9 10, ⟨5, 3⟩⟩,
      ⟨.member 11 "cells" false, ⟨5, 3⟩⟩,
      ⟨.intLiteral 1 false, ⟨5, 14⟩⟩,
      ⟨.identifier "grid", ⟨5, 3⟩⟩,
      ⟨.intLiteral 300 false, ⟨5, 25⟩⟩]
    items := [0, 1, 2, 3] }

theorem grid_acyclic : Acyclic grid.structs := by
  refine .of_rank (fun name => if name = "Grid" then 1 else 0) ?_
  rintro outer inner ⟨layout, found, field, inside, base, depth⟩
  obtain ⟨before, after, split, -⟩ := lookup_eq_some_iff.mp found
  have listed : (outer, layout) ∈ grid.structs := by
    simp [split]
  have tables : grid.structs = [("Grid", [⟨"cells", { base := .record "Cell", dims := [some 2] }⟩,
      ⟨"next", { base := .record "Grid", pointerDepth := 1 }⟩]),
      ("Cell", [⟨"level", .of .byte⟩])] := rfl
  rw [tables] at listed
  simp only [mem_cons, Prod.mk.injEq, not_mem_nil, or_false] at listed
  rcases listed with ⟨rfl, rfl⟩ | ⟨rfl, rfl⟩
  · simp only [mem_cons, not_mem_nil, or_false] at inside
    rcases inside with rfl | rfl
    · cases base
      decide
    · cases depth
  · cases mem_singleton.mp inside
    cases base

/-- What `setup` leaves: the number is cut to the byte that the field holds. -/
def gridText : String :=
  "Grid \x7b cells: [Cell \x7b level: 0 \x7d, Cell \x7b level: 44 \x7d], next: 0 \x7d"

theorem grid_variables_inhabit :
    Acyclic grid.structs ∧ grid.library.Computes grid.structs ∧
      ∃ context, (({ firmware := grid } : Session).perform
          [.start, .tick, .tick, .tick]).status.context? = some context ∧
        (context.env.get? "grid").map Value.render = some gridText ∧
        context.env.Typed grid.structs := by
  have computes := Library.standard_computes grid.structs
  have ran : (({ firmware := grid } : Session).perform
      [.start, .tick, .tick, .tick]).status.context?.map
        (fun context => (context.env.get? "grid").map Value.render) = some (some gridText) := by
    decide +kernel
  obtain ⟨context, held, shown⟩ := Option.map_eq_some_iff.mp ran
  exact ⟨grid_acyclic, computes, context, held, shown,
    (variables_inhabit_types grid grid_acyclic computes).2.2 1 _ context held⟩

end Firmware

end Breadboard
