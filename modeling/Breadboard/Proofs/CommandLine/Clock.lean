import Breadboard.CommandLine.Job
import Breadboard.Proofs.Machine.Words
import Breadboard.Proofs.Session.Settle

/-!
The time that a sketch is told. It passes only by delays, and a clock of 64 bits counts it in
microseconds. The command line goes on as with a clock that shows every time until the delays come
to more than its own can hold, and then breaks off.
-/

open List

namespace Breadboard

/-- The microseconds that a command takes. -/
def Command.duration : Command → Nat
  | .delay milliseconds => milliseconds.toInt.toNat * 1000
  | .delayMicroseconds microseconds => microseconds.toInt.toNat
  | _ => 0

def elapsed : List Command → Nat
  | [] => 0
  | cmd :: rest => cmd.duration + elapsed rest

/-- What a request for the time is to be told. -/
def Request.reading? (time : Nat) : Request → Option Nat
  | .millis => some (time / 1000)
  | .micros => some time
  | _ => none

theorem elapsed_append (earlier later : List Command) :
    elapsed (earlier ++ later) = elapsed earlier + elapsed later := by
  induction earlier with
  | nil => exact (Nat.zero_add _).symm
  | cons cmd earlier ih => rw [cons_append, elapsed, ih, elapsed, Nat.add_assoc]

theorem elapsed_le (before : earlier <+: later) : elapsed earlier ≤ elapsed later := by
  obtain ⟨more, rfl⟩ := before
  exact elapsed_append earlier more ▸ Nat.le_add_right _ _

theorem toNat_max_zero (n : Int64) : (max n 0).toUInt64.toNat = n.toInt.toNat := by
  have most := n.toInt_lt
  have value := toNat_toUInt64 (max n 0)
  have larger : (max n 0).toInt = if n.toInt ≤ 0 then 0 else n.toInt := by
    change (if n ≤ 0 then 0 else n : Int64).toInt = _
    simp only [apply_ite Int64.toInt, Int64.le_iff_toInt_le]
    rfl
  rw [larger] at value
  split at value <;> omega

namespace Session

variable {s : Session} {Host : Type}

theorem isPrefix_emitAll (log : Log) (commands : List Command) :
    log.entries.toList <+: (log.emitAll commands).entries.toList := by
  unfold Log.emitAll
  induction commands generalizing log with
  | nil => exact prefix_refl _
  | cons cmd commands ih =>
    refine IsPrefix.trans ?_ (ih (log.emit cmd))
    unfold Log.emit
    split
    · simp
    · exact prefix_refl _

/-- A session without a run has no history. -/
def IsFresh (s : Session) : Prop := s.status = .idle → s.log.entries = #[]

theorem settle_adds (s : Session) (mode : Mode) (started : Bool) (ctx : Context) :
    (s.settle mode started ctx).IsFresh ∧
      s.log.entries.toList <+: (s.settle mode started ctx).log.entries.toList := by
  constructor
  · unfold IsFresh
    rw [settle_status]
    cases (s.firmware.runUnit started ctx).ending <;> nofun
  · rw [settle_eq]
    dsimp only
    split <;> exact isPrefix_emitAll _ _

/-- A host adds to the history, or leaves the session as it is. -/
theorem move_adds (fresh : s.IsFresh) (mode : Mode) (respond : Responder Host) (host : Host) :
    (s.move mode respond host).2.IsFresh ∧
      s.log.entries.toList <+: (s.move mode respond host).2.log.entries.toList ∧
      ((s.move mode respond host).1 = none → (s.move mode respond host).2 = s) := by
  unfold move
  cases status : s.status with
  | waiting pending ctx => simp [answer, status, settle_adds]
  | idle =>
    cases mode with
    | running => simp [advance, start, status, Status.isIdle, fresh status, IsFresh]
    | paused => simp [advance, step, status, fresh status, settle_adds]
  | active current ctx =>
    cases mode <;> cases current <;>
      simp [advance, tick, step, status, Status.isIdle, settle_adds, fresh]
  | complete | failed => cases mode <;> simp [advance, tick, step, status, Status.isIdle, fresh]

theorem drive_adds (fresh : s.IsFresh) (mode : Mode) (respond : Responder Host)
    (more : fewer ≤ fuel) (host : Host) : (drive mode respond fewer host s).log.entries.toList <+:
      (drive mode respond fuel host s).log.entries.toList := by
  induction fuel generalizing s fewer host with
  | zero =>
    cases Nat.le_zero.mp more
    exact prefix_refl _
  | succ fuel ih =>
    obtain ⟨still, adds, -⟩ := move_adds fresh mode respond host
    cases fewer with
    | zero =>
      unfold drive
      split <;> rename_i moved <;> rw [moved] at still adds
      · exact adds.trans (ih still (Nat.zero_le _) _)
      · exact adds
    | succ fewer =>
      unfold drive
      split
      · rename_i moved
        rw [moved] at still
        exact ih still (Nat.le_of_succ_le_succ more) _
      · exact prefix_refl _

theorem move_congr (mode : Mode) (host : Host)
    (same : ∀ request, respond host s.log request = other host s.log request) :
    s.move mode respond host = s.move mode other host := by
  unfold move
  split
  · rw [same]
  · rfl

end Session

namespace Invocation

/-- The answers of a clock that shows every time. -/
def ideal (invocation : Invocation) : Session.Responder Unit := fun host log request =>
  match request.reading? (elapsed log.commands) with
  | some reading => (.int (.ofNat reading), host)
  | none => invocation.respond 0 host log request

theorem respond_eq_ideal (invocation : Invocation) (log : Log)
    (exact : clock.toNat = elapsed log.commands) (request : Request) :
    invocation.respond clock () log request = invocation.ideal () log request := by
  have shown (n : UInt64) : n.toInt64 = Int64.ofNat n.toNat :=
    congrArg UInt64.toInt64 UInt64.ofNat_toNat.symm
  unfold ideal
  rw [← exact]
  cases request with
  | millis => exact congrArg (Primitive.int ·, ()) (shown (clock / 1000))
  | micros => exact congrArg (Primitive.int ·, ()) (shown clock)
  | _ => rfl

theorem response_ideal {request : Request} (invocation : Invocation)
    (asked : request.reading? (elapsed log.commands) = some reading) :
    request.response (invocation.ideal () log request).1 = .unsigned (UInt32.ofNat reading) := by
  unfold ideal
  rw [asked]
  cases request with
  | millis | micros => exact congrArg Value.unsigned (UInt64.toUInt32_ofNat' ..)
  | _ => cases asked

theorem advanceClock_eq (clock : UInt64) (cmd : Command) :
    advanceClock clock cmd = time? (clock.toNat + cmd.duration) := by
  cases cmd with
  | delay milliseconds =>
    rw [advanceClock, toNat_max_zero, Command.duration]
    generalize milliseconds.toInt.toNat * 1000 = duration
    by_cases fits : duration < UInt64.size
    · have same : (UInt64.ofNat duration).toNat = duration := Nat.mod_eq_of_lt fits
      rw [time?, if_pos fits]
      exact congrArg (fun n => time? (clock.toNat + n)) same
    · rw [time?, if_neg fits, time?, if_neg (by omega)]
      rfl
  | delayMicroseconds microseconds => rw [advanceClock, toNat_max_zero, Command.duration]
  | _ =>
    have same : time? clock.toNat = some clock := by
      rw [time?, if_pos clock.toNat_lt, UInt64.ofNat_toNat]
    exact same.symm

namespace Listener

variable {listener : Listener} {heard : List Emitted}

/-- All of a history is printed, and the clock shows what the delays in it come to. -/
structure Follows (listener : Listener) (entries : List Emitted) : Prop where
  printed : listener.printed.toList = entries
  exact : listener.clock.toNat = elapsed (entries.map Emitted.command)

/-- A history is printed up to a delay with which the clock would leave its range. -/
def BreaksOff (listener : Listener) (entries : List Emitted) : Prop :=
  ∃ front entry rest, listener.Follows front ∧ entries = front ++ entry :: rest ∧
    2 ^ 64 ≤ listener.clock.toNat + entry.command.duration

theorem hear_all (follows : listener.Follows heard) (entries : List Emitted) :
    match entries.foldlM hear listener with
    | .ok next => next.Follows (heard ++ entries)
    | .error last => last.BreaksOff (heard ++ entries) := by
  induction entries generalizing listener heard with
  | nil => rwa [append_nil]
  | cons entry entries ih =>
    rw [foldlM_cons, hear, advanceClock_eq, time?]
    by_cases fits : listener.clock.toNat + entry.command.duration < UInt64.size
    · rw [if_pos fits]
      rw [append_cons]
      refine ih ⟨by simp [follows.printed], ?_⟩
      rw [map_append, elapsed_append, ← follows.exact]
      exact Nat.mod_eq_of_lt fits
    · rw [if_neg fits]
      exact ⟨heard, entry, entries, follows, rfl, Nat.le_of_not_lt fits⟩

theorem BreaksOff.mono (breaks : listener.BreaksOff entries) (added : entries <+: more) :
    listener.BreaksOff more := by
  obtain ⟨front, entry, rest, follows, rfl, beyond⟩ := breaks
  obtain ⟨later, rfl⟩ := added
  exact ⟨front, entry, rest ++ later, follows, by simp, beyond⟩

theorem BreaksOff.beyond (breaks : listener.BreaksOff entries) :
    2 ^ 64 ≤ elapsed (entries.map Emitted.command) := by
  obtain ⟨front, entry, rest, follows, rfl, beyond⟩ := breaks
  rw [map_append, elapsed_append, ← follows.exact, map_cons, elapsed]
  omega

end Listener

/-- A run with a clock that shows every time. -/
def idealRun (invocation : Invocation) (fuel : Nat) (s : Session) : Session :=
  s.drive invocation.mode invocation.ideal fuel ()

theorem run_follows (invocation : Invocation) (fuel : Nat)
    (follows : listener.Follows s.log.entries.toList) (fresh : s.IsFresh) :
    match invocation.run fuel listener s with
    | .ok (next, last) => last = invocation.idealRun fuel s ∧ next.Follows last.log.entries.toList
    | .error last => last.BreaksOff (invocation.idealRun fuel s).log.entries.toList := by
  induction fuel generalizing listener s with
  | zero => exact ⟨rfl, follows⟩
  | succ fuel ih =>
    have same := Session.move_congr invocation.mode ()
      (invocation.respond_eq_ideal s.log follows.exact)
    obtain ⟨still, adds, stays⟩ := Session.move_adds fresh invocation.mode invocation.ideal ()
    unfold run idealRun Session.drive
    rw [same]
    generalize s.move invocation.mode invocation.ideal () = moved at still adds stays
    obtain ⟨_ | _, next⟩ := moved
    · cases stays rfl
      exact ⟨rfl, follows⟩
    · obtain ⟨new, whole⟩ := adds
      change _ = next.log.entries.toList at whole
      have heard : (next.log.entries.extract listener.printed.size).toList = new := by
        simp [← Array.length_toList, ← whole, follows.printed]
      have hears := Listener.hear_all follows new
      rw [whole] at hears
      dsimp only
      rw [heard]
      cases told : new.foldlM Listener.hear listener with rw [told] at hears
      | ok after => exact ih hears still
      | error last => exact hears.mono (Session.drive_adds still _ _ (Nat.zero_le _) _)

/-- The command line keeps time just as long as the delays come to less than `2 ^ 64` microseconds.
Its run is then that of a clock that shows every time, which never goes back and from which requests
are told the time, cut to 32 bits. Otherwise it breaks off at the delay that its clock cannot
follow. -/
theorem timekeeping_iff (invocation : Invocation) (firmware : Firmware) (fuel : Nat) :
    let done := invocation.idealRun fuel { firmware }
    (elapsed done.log.commands < 2 ^ 64 ↔ ∃ listener, listener.Follows done.log.entries.toList ∧
      invocation.run fuel {} { firmware } = .ok (listener, done)) ∧
    (2 ^ 64 ≤ elapsed done.log.commands ↔ ∃ listener,
      listener.BreaksOff done.log.entries.toList ∧
      invocation.run fuel {} { firmware } = .error listener) ∧
    (∀ fewer ≤ fuel, elapsed (invocation.idealRun fewer { firmware }).log.commands ≤
      elapsed done.log.commands) ∧
    ∀ log (request : Request) reading, request.reading? (elapsed log.commands) = some reading →
      request.response (invocation.ideal () log request).1 = .unsigned (UInt32.ofNat reading) := by
  intro done
  have fresh : ({ firmware } : Session).IsFresh := fun _ => rfl
  have starts : ({} : Listener).Follows ({ firmware } : Session).log.entries.toList := ⟨rfl, rfl⟩
  have ran := invocation.run_follows fuel starts fresh
  rw [← and_assoc]
  refine ⟨?_, ?_, fun log request reading => invocation.response_ideal⟩
  · cases out : invocation.run fuel {} { firmware } with rw [out] at ran
    | ok found =>
      obtain ⟨listener, last⟩ := found
      obtain ⟨rfl, follows⟩ := ran
      have fits : elapsed done.log.commands < 2 ^ 64 := follows.exact ▸ listener.clock.toNat_lt
      refine ⟨⟨fun _ => ⟨listener, follows, rfl⟩, fun _ => fits⟩, ?_, ?_⟩
      · exact fun beyond => absurd fits (Nat.not_lt_of_le beyond)
      · rintro ⟨_, -, ⟨⟩⟩
    | error last =>
      refine ⟨⟨?_, ?_⟩, fun _ => ⟨last, ran, rfl⟩, fun _ => ran.beyond⟩
      · exact fun fits => absurd ran.beyond (Nat.not_le_of_lt fits)
      · rintro ⟨_, -, ⟨⟩⟩
  · intro fewer le
    exact elapsed_le ((Session.drive_adds fresh _ _ le _).map _)

/-- The sketch `void setup() { delay(18446744073709552); }`. -/
def overlong : Firmware where
  program := {
    nodes := #[
      ⟨.intLiteral 18446744073709552 false, ⟨1, 22⟩⟩,
      ⟨.call "delay" [0], ⟨1, 16⟩⟩,
      ⟨.exprStmt 1, ⟨1, 16⟩⟩,
      ⟨.block [2], ⟨1, 14⟩⟩,
      ⟨.functionDef "setup" [] (.of .void) 3, ⟨1, 1⟩⟩]
    items := [4] }

/-- A delay just too long for the clock ends the command line, which has printed no more than the
start of the run. -/
theorem overlong_breaks_off :
    let invocation : Invocation := { file := "sketch.ino" }
    let report := Report.ofJob invocation ⟨[]⟩ 9 (.run { firmware := overlong })
    2 ^ 64 ≤ elapsed (invocation.idealRun 9 { firmware := overlong }).log.commands ∧
      report.exit = 101 ∧ report.output.length = 1 := by
  intro invocation report
  have printed : report.output.length = 1 := by decide +kernel
  have beyond : 2 ^ 64 ≤ elapsed (invocation.idealRun 9 { firmware := overlong }).log.commands := by
    decide +kernel
  obtain ⟨listener, -, ran⟩ := (timekeeping_iff invocation overlong 9).2.1.mp beyond
  refine ⟨beyond, ?_, printed⟩
  unfold report
  rw [Report.ofJob, ran]

end Invocation

end Breadboard
