import Breadboard.Proofs.Machine.Report
import Breadboard.Proofs.Session.Reach

/-!
What a session makes of a unit. An open log takes the commands of the unit and then those that
its ending calls for, and the ending alone decides the state of the session.
-/

open List

namespace Breadboard

namespace Log

variable {log : Log}

@[simp] theorem isSealed_emit (log : Log) (cmd : Command) :
    (log.emit cmd).isSealed = log.isSealed := by
  unfold emit
  split <;> rfl

@[simp] theorem isSealed_emitAll (log : Log) (commands : List Command) :
    (log.emitAll commands).isSealed = log.isSealed := by
  unfold emitAll
  induction commands generalizing log with
  | nil => rfl
  | cons cmd commands ih =>
    rw [foldl_cons, ih, isSealed_emit]

@[simp] theorem commands_close (log : Log) : log.close.commands = log.commands := rfl

theorem commands_emit (cmd : Command) (unsealed : log.isSealed = false) :
    (log.emit cmd).commands = log.commands ++ [cmd] := by
  simp [emit, entry?, unsealed, commands]

theorem commands_emitAll (commands : List Command) (unsealed : log.isSealed = false) :
    (log.emitAll commands).commands = log.commands ++ commands := by
  unfold emitAll
  induction commands generalizing log with
  | nil => simp
  | cons cmd commands ih =>
    have still : (log.emit cmd).isSealed = false := by
      rw [isSealed_emit, unsealed]
    rw [foldl_cons, ih still, commands_emit cmd unsealed,
      append_assoc, singleton_append]

def Numbered (log : Log) : Prop :=
  ∀ (pos : Nat) (entry : Emitted), log.entries[pos]? = some entry → entry.seq = pos

theorem Numbered.empty : Numbered {} := by
  intro pos entry found
  simp at found

theorem Numbered.emit (numbered : log.Numbered) (cmd : Command) : (log.emit cmd).Numbered := by
  unfold Log.emit entry?
  cases log.isSealed with
  | true => exact numbered
  | false =>
    intro pos entry found
    simp only [Bool.false_eq_true, if_false, Array.getElem?_push] at found
    split at found
    · cases found
      exact Eq.symm ‹_›
    · exact numbered pos entry found

theorem Numbered.emitAll (numbered : log.Numbered) (commands : List Command) :
    (log.emitAll commands).Numbered := by
  unfold Log.emitAll
  induction commands generalizing log with
  | nil => exact numbered
  | cons cmd commands ih => exact ih (numbered.emit cmd)

theorem Numbered.close (numbered : log.Numbered) : log.close.Numbered := numbered

end Log

namespace Ending

def closing (id : Nat) : Ending → List Command
  | .boundary | .exhausted => []
  | .suspended request => [request.command id]
  | .finished => [.programEnd]
  | .loopLimit iters => [.loopLimitReached iters, .programEnd]
  | .failed fault => [.error fault.kind fault.message fault.location]

def status (mode : Mode) (id : Nat) (ctx : Context) : Ending → Status
  | .boundary | .exhausted => .active mode ctx
  | .suspended request => .waiting ⟨id, request, mode⟩ ctx
  | .finished | .loopLimit _ => .complete ctx
  | .failed _ => .failed ctx

def isFinal : Ending → Bool
  | .finished | .loopLimit _ | .failed _ => true
  | _ => false

def asked (id : Nat) : Ending → List Nat
  | .suspended _ => [id]
  | _ => []

end Ending

namespace Session

variable {s : Session} {mode : Mode} {started : Bool} {ctx : Context}

/-- All that a unit does to a session. -/
theorem settle_eq (s : Session) (mode : Mode) (started : Bool) (ctx : Context) :
    let res := s.firmware.runUnit started ctx
    let told := s.log.emitAll (res.commands ++ res.ending.closing s.nextRequest)
    s.settle mode started ctx = { s with
      status := res.ending.status mode s.nextRequest res.context
      log := if res.ending.isFinal then told.close else told
      nextRequest := s.nextRequest + (res.ending.asked s.nextRequest).length } := by
  unfold settle
  dsimp only
  cases (s.firmware.runUnit started ctx).ending <;>
    simp [Ending.status, Ending.closing, Ending.asked, Ending.isFinal, finish, Log.emitAll]

theorem settle_status (s : Session) (mode : Mode) (started : Bool) (ctx : Context) :
    (s.settle mode started ctx).status =
      (s.firmware.runUnit started ctx).ending.status mode s.nextRequest
        (s.firmware.runUnit started ctx).context := by
  rw [settle_eq]

theorem settle_nextRequest (s : Session) (mode : Mode) (started : Bool) (ctx : Context) :
    (s.settle mode started ctx).nextRequest = s.nextRequest +
      ((s.firmware.runUnit started ctx).ending.asked s.nextRequest).length := by
  rw [settle_eq]

theorem settle_isSealed (unsealed : s.log.isSealed = false) :
    (s.settle mode started ctx).log.isSealed = (s.firmware.runUnit started ctx).ending.isFinal := by
  rw [settle_eq]
  cases (s.firmware.runUnit started ctx).ending.isFinal with
  | true => rfl
  | false => simpa using unsealed

theorem settle_commands (unsealed : s.log.isSealed = false) :
    (s.settle mode started ctx).log.commands =
      s.log.commands ++ ((s.firmware.runUnit started ctx).commands ++
        (s.firmware.runUnit started ctx).ending.closing s.nextRequest) := by
  rw [settle_eq, ← Log.commands_emitAll _ unsealed]
  dsimp only
  split <;> rfl

theorem settle_numbered (numbered : s.log.Numbered) : (s.settle mode started ctx).log.Numbered := by
  rw [settle_eq]
  dsimp only
  split
  · exact (numbered.emitAll _).close
  · exact numbered.emitAll _

end Session

end Breadboard
