import Breadboard.Proofs.Machine.Upkeep

/-!
What steps tell the host. A step may emit a command for the board, or report an object or a
store. That a run begins, ends, fails or waits for data is never told by a step: those commands
come from the session.
-/

namespace Breadboard.Firmware

variable {fw : Firmware} {ctx : Context} {started : Bool}

theorem step_reports (out : fw.step ctx frame rest = .ok effect next) : effect.Reports := by
  have keeps : (Act.runFrame fw frame).KeepsAt (.free fw) false
      { ctx with frames := rest } Effect.Reports :=
    Act.keepsAt_runFrame frame (fun _ => Discipline.free_grows) (fun _ _ _ => trivial)
      (Discipline.free_holds true _) fun _ _ _ _ => trivial
  exact (keeps.of_ok out).1

theorem isReport_of_mem_runFrames (reports : ∀ cmd ∈ emitted, cmd.isReport = true) :
    ∀ cmd ∈ (fw.runFrames fuel started emitted ctx).commands, cmd.isReport = true := by
  fun_induction fw.runFrames fuel started emitted ctx with
  | case5 _ _ _ _ _ _ _ _ _ _ _ _ ih => exact ih reports
  | case6 _ _ _ _ _ _ _ _ _ _ _ _ out ih =>
    exact ih (List.forall_mem_cons.mpr ⟨step_reports out, reports⟩)
  | _ => exact fun cmd inside => reports cmd (List.mem_reverse.mp inside)

theorem isReport_of_mem_runUnit : ∀ cmd ∈ (fw.runUnit started ctx).commands, cmd.isReport = true :=
  isReport_of_mem_runFrames nofun

end Breadboard.Firmware
