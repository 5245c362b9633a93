import Breadboard.Proofs.Machine.Answer

/-!
Answers of the built-in functions and of methods: the host may refuse arguments, but
never because of a defect, and a result is bare or one of the arguments. The commands that they
give are reports.
-/

namespace Breadboard

open Arguments

variable {command : Command} (env : Environment)

namespace Arguments

variable {args : Arguments} {pos : Nat}

theorem checkCount_answers (always : ∀ done, fits done) :
    Answers (args.checkCount least most) fits := by
  unfold checkCount
  dsimp only
  split
  · rfl
  · split
    · rfl
    · exact always ()

theorem integer_answers (always : ∀ n, fits n) : Answers (args.integer pos) fits := by
  unfold integer
  split
  · exact always _
  · rfl

theorem number_answers (always : ∀ x, fits x) : Answers (args.number pos) fits := by
  unfold number
  split
  · exact always _
  · rfl

def Fits (args : Arguments) (value : Value) : Prop := value.isBare = true ∨ value ∈ args.values

theorem fits_get (args : Arguments) (pos : Nat) : args.Fits (args.get pos) := by
  unfold get
  cases found : args.values[pos]? with
  | none => exact .inl rfl
  | some value => exact .inr (List.mem_of_getElem? found)

end Arguments

theorem formattedText_answers (args : Arguments) (uppercase : Bool)
    (always : ∀ text, fits text) : Answers (formattedText env args uppercase) fits := by
  unfold formattedText
  split
  · exact always _
  · split
    · simp only [answers_bind]
      exact integer_answers fun _ => always _
    · split
      · simp only [answers_bind]
        exact integer_answers fun _ => integer_answers fun _ => always _
      · exact always _
    · exact always _

namespace Builtin

variable {builtin : Builtin} {args : Arguments}

theorem less_answers (a b : Value) (always : ∀ truth, fits truth) : Answers (less a b) fits := by
  unfold less
  rw [answers_bind]
  refine (BinaryOp.apply_answers .lt a b).weaken fun value _ => ?_
  split <;> exact always _

theorem compute_answers (builtin : Builtin) (env : Environment) (args : Arguments) :
    Answers (builtin.compute env args) args.Fits := by
  have bare {value : Value} (isBare : value.isBare = true) : args.Fits value := .inl isBare
  cases builtin with
  | abs =>
    simp only [compute]
    split
    · exact bare rfl
    · exact bare rfl
    · exact bare rfl
    · simp only [answers_bind]
      exact integer_answers fun _ => bare rfl
  | min | max =>
    simp only [compute, answers_bind]
    refine less_answers _ _ fun truth => ?_
    split <;> exact args.fits_get _
  | constrain =>
    simp only [compute, answers_bind]
    refine less_answers _ _ fun truth => ?_
    split
    · exact args.fits_get _
    · rw [answers_bind]
      refine less_answers _ _ fun truth => ?_
      split <;> exact args.fits_get _
  | map =>
    simp only [compute, answers_bind]
    refine integer_answers fun _ => integer_answers fun _ =>
      integer_answers fun _ => integer_answers fun _ =>
        integer_answers fun _ => ?_
    split
    · rfl
    · exact bare rfl
  | pow =>
    simp only [compute, answers_bind]
    exact number_answers fun _ => number_answers fun _ => bare rfl
  | sq => exact (BinaryOp.apply_answers .mul _ _).weaken fun _ isBare => bare isBare
  | sqrt | sin | cos | tan | floor | ceil | round =>
    simp only [compute, answers_bind]
    exact number_answers fun _ => bare rfl
  | bit | lowByte | highByte =>
    simp only [compute, answers_bind]
    exact integer_answers fun _ => bare rfl
  | bitRead =>
    simp only [compute, answers_bind]
    exact integer_answers fun _ => integer_answers fun _ => bare rfl
  | makeText =>
    simp only [compute, answers_bind]
    exact formattedText_answers env args false fun _ => bare rfl
  | _ => exact bare rfl

theorem command?_answers (found : builtin.command? args = some res) :
    Answers res fun _ => True := by
  cases builtin with
  | pinMode | digitalWrite | analogWrite =>
    cases found
    simp only [answers_bind]
    exact integer_answers fun _ => integer_answers fun _ => trivial
  | delay | delayMicroseconds | noTone =>
    cases found
    simp only [answers_bind]
    exact integer_answers fun _ => trivial
  | tone =>
    cases found
    dsimp only
    split
    · simp only [answers_bind, answers_map]
      exact integer_answers fun _ => integer_answers fun _ =>
        integer_answers fun _ => trivial
    · simp only [answers_bind, answers_ok]
      exact integer_answers fun _ => integer_answers fun _ => trivial
  | _ => cases found

theorem request?_answers (found : builtin.request? args = some res) :
    Answers res fun _ => True := by
  cases builtin with
  | analogRead | digitalRead =>
    cases found
    simp only [answers_bind]
    exact integer_answers fun _ => trivial
  | millis | micros =>
    cases found
    trivial
  | _ => cases found

end Builtin

theorem Serial.call_answers (method : String) (values : List Value) :
    Answers (Serial.call env method values) (·.value.isBare = true) := by
  unfold Serial.call
  dsimp only
  split
  · simp only [answers_bind]
    exact checkCount_answers fun _ => integer_answers fun _ => rfl
  · simp only [answers_bind]
    exact checkCount_answers fun _ => formattedText_answers _ _ _ fun _ => rfl
  · simp only [answers_bind]
    exact checkCount_answers fun _ => formattedText_answers _ _ _ fun _ => rfl
  · simp only [answers_bind]
    refine checkCount_answers fun _ => ?_
    split
    · rfl
    · rw [answers_bind]
      exact integer_answers fun _ => rfl
  all_goals rfl

namespace Text

variable (env : Environment)

theorem textArgument_answers (args : Arguments) (pos : Nat)
    (always : ∀ text, fits text) : Answers (textArgument env args pos) fits := by
  unfold textArgument
  dsimp only
  split
  · rfl
  · split
    · exact always _
    · exact always _
    · exact always _
    · rfl

theorem found_isBare (position? : Option Nat) : (found position?).isBare = true := by
  cases position? <;> rfl

theorem call_answers (text method : String) (values : List Value) :
    Answers (Text.call env text method values) (·.isBare = true) := by
  unfold Text.call
  dsimp only
  split
  case h_3 =>
    simp only [answers_bind]
    refine checkCount_answers fun _ => textArgument_answers _ _ _ fun needle => ?_
    split
    · simp only [answers_bind]
      refine integer_answers fun _ => ?_
      rw [answers_ok]
      split <;> exact found_isBare _
    · rw [answers_bind, answers_ok]
      split <;> exact found_isBare _
  case h_4 =>
    simp only [answers_bind]
    exact checkCount_answers fun _ => textArgument_answers _ _ _ fun _ => found_isBare _
  case h_5 =>
    simp only [answers_bind]
    refine checkCount_answers fun _ => integer_answers fun _ => ?_
    split
    · rw [answers_bind]
      exact integer_answers fun _ => rfl
    · rfl
  case h_2 =>
    simp only [answers_bind]
    exact checkCount_answers fun _ => integer_answers fun _ => rfl
  case h_6 | h_7 | h_8 | h_9 | h_10 =>
    simp only [answers_bind]
    exact checkCount_answers fun _ => textArgument_answers _ _ _ fun _ => rfl
  case h_1 | h_11 | h_12 | h_13 =>
    simp only [answers_bind]
    exact checkCount_answers fun _ => rfl
  case h_14 => rfl

end Text

namespace Library

variable {res : Value}

theorem pixelColor_isBare (computed : pixelColor args = some res) : res.isBare = true := by
  simp only [pixelColor, Option.bind_eq_bind, Option.bind_eq_some_iff] at computed
  obtain ⟨red, -, green, -, blue, -, made⟩ := computed
  split at made
  · obtain ⟨white, -, whole⟩ := Option.bind_eq_some_iff.mp made
    cases whole
    rfl
  · cases made
    rfl

/-- The only method that the standard libraries compute themselves mixes a color. -/
theorem standard_isBare
    {values : List Value} (route : standard.route? className method = some (.internal compute))
    (computed : compute values = some res) : res.isBare = true := by
  obtain ⟨before, after, split, -⟩ := List.lookup_eq_some_iff.mp route
  have listed : ((className, method), Route.internal compute) ∈ standard := by
    simp [split]
  obtain ⟨-, rfl⟩ : (className = "Adafruit_NeoPixel" ∧ method = "Color") ∧
      compute = pixelColor := by
    simpa [standard, registerAll, register] using listed
  exact pixelColor_isBare computed

end Library

def Command.isReport : Command → Bool
  | .programStart | .programEnd | .loopLimitReached _ | .error _ _ _ | .analogReadRequest _ _
  | .digitalReadRequest _ _ | .millisRequest _ | .microsRequest _
  | .methodRequest _ _ _ _ _ => false
  | _ => true

theorem Command.requestId?_of_isReport (reports : command.isReport = true) :
    command.requestId? = none := by
  cases command <;> first | rfl | cases reports

def Effect.Reports : Effect → Prop
  | .emit command => command.isReport = true
  | _ => True

theorem Builtin.command?_isReport {builtin : Builtin} (found : builtin.command? args = some res)
    (told : res = .ok command) : command.isReport = true := by
  cases builtin with
  | pinMode | digitalWrite | analogWrite =>
    cases found
    simp only [bind_eq_ok, Except.ok.injEq] at told
    obtain ⟨_, _, _, _, rfl⟩ := told
    rfl
  | delay | delayMicroseconds | noTone =>
    cases found
    simp only [bind_eq_ok, Except.ok.injEq] at told
    obtain ⟨_, _, rfl⟩ := told
    rfl
  | tone =>
    cases found
    dsimp only at told
    split at told
    all_goals
      simp only [bind_eq_ok, Except.ok.injEq] at told
      obtain ⟨_, _, _, _, _, _, rfl⟩ := told
      rfl
  | _ => cases found

theorem Serial.command?_isReport {env} {values : List Value}
    (answered : Serial.call env method values = .ok reply)
    (told : reply.command? = some command) : command.isReport = true := by
  unfold Serial.call at answered
  dsimp only at answered
  split at answered
  case h_1 | h_2 | h_3 =>
    simp only [bind_eq_ok, Except.ok.injEq] at answered
    obtain ⟨_, _, _, _, rfl⟩ := answered
    cases told
    rfl
  case h_4 =>
    simp only [bind_eq_ok] at answered
    obtain ⟨_, _, answered⟩ := answered
    split at answered
    · cases answered
      cases told
      rfl
    · simp only [bind_eq_ok, Except.ok.injEq] at answered
      obtain ⟨_, _, rfl⟩ := answered
      cases told
      rfl
  case h_10 => cases answered
  all_goals
    cases answered
    cases told

end Breadboard
