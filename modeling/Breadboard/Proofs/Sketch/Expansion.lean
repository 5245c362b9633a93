import Breadboard.Proofs.Sketch.Lexeme

/-!
What one pass of the macro expander does to each lexeme: names are looked up, and literals, numbers
and symbols are copied. The expander does not know block comments; one that holds no quote and no
`//` is expanded on its own.
-/

open List

namespace Breadboard.Macro

open Cursor

variable {defs : Definitions} {expandBody : List Char → List Char} {rest text : List Char}
  {c : Char}

theorem length_literal (quote : Char) (text : List Char) :
    (literal quote text).2.length ≤ text.length := by
  fun_induction literal quote text <;> simp_all <;> omega

theorem substitute_fuel (enough : text.length ≤ fuel) (alsoEnough : text.length ≤ more) :
    substitute defs expandBody fuel text = substitute defs expandBody more text := by
  induction fuel generalizing more text with
  | zero =>
    cases text with
    | nil => cases more <;> rfl
    | cons c rest => cases enough
  | succ fuel ih =>
    cases text with
    | nil => cases more <;> rfl
    | cons c rest =>
      rw [length_cons] at enough alsoEnough
      obtain ⟨more, rfl⟩ : ∃ fewer, more = fewer + 1 := ⟨more - 1, by omega⟩
      have again : ∀ tail : List Char, tail.length ≤ rest.length →
          substitute defs expandBody fuel tail =
            substitute defs expandBody more tail := fun tail shorter =>
        ih (by omega) (by omega)
      simp only [substitute]
      rw [again _ (length_literal c rest), again _ ( length_dropWhile_le _ rest),
        again _ ( length_dropWhile_le _ rest), again rest le_rfl]

def pass (defs : Definitions) (expandBody : List Char → List Char) (text : List Char) :
    List Char :=
  substitute defs expandBody text.length text

theorem pass_nil : pass defs expandBody [] = [] := rfl

theorem expand_succ (depth : Nat) (text : List Char) :
    expand defs (depth + 1) text = pass defs (expand defs depth) text := rfl

theorem pass_cons (c : Char) (rest : List Char) : pass defs expandBody (c :: rest) =
      if c = '"' ∨ c = '\'' then
        c :: (literal c rest).1 ++ pass defs expandBody (literal c rest).2
      else if c = '/' ∧ rest.head? = some '/' then c :: rest
      else if isNameStart c then
        (match defs.lookup (String.ofList (c :: rest.takeWhile isNamePart)) with
          | some body => expandBody body
          | none => c :: rest.takeWhile isNamePart) ++
          pass defs expandBody (rest.dropWhile isNamePart)
      else if Decimal.isDigit c then c :: rest.takeWhile isNumberPart ++
          pass defs expandBody (rest.dropWhile isNumberPart)
      else c :: pass defs expandBody rest := by
  have again : ∀ tail : List Char, tail.length ≤ rest.length →
      substitute defs expandBody rest.length tail = pass defs expandBody tail :=
    fun tail shorter => substitute_fuel shorter le_rfl
  rw [← again _ (length_literal c rest), ← again _ ( length_dropWhile_le _ rest),
    ← again _ ( length_dropWhile_le _ rest), ← again rest le_rfl]
  rfl

def isInert (c : Char) : Bool :=
  c != '"' && c != '\'' && !isNameStart c && !Decimal.isDigit c

theorem pass_inert (inert : isInert c = true) (apart : ¬ (c = '/' ∧ rest.head? = some '/')) :
    pass defs expandBody (c :: rest) = c :: pass defs expandBody rest := by
  simp only [isInert, Bool.and_eq_true, bne_iff_ne, Bool.not_eq_true'] at inert
  obtain ⟨⟨⟨noText, noCharacter⟩, noName⟩, noDigit⟩ := inert
  rw [pass_cons, if_neg (by simp [noText, noCharacter]), if_neg apart, if_neg (by simp [noName]),
    if_neg (by simp [noDigit])]

theorem pass_quoted (isQuote : quote = '"' ∨ quote = '\'')
    (closed : literal quote (body ++ rest) = (body, rest)) :
    pass defs expandBody (quote :: body ++ rest) = quote :: body ++ pass defs expandBody rest := by
  rw [cons_append, pass_cons, if_pos isQuote, closed]

theorem pass_lineComment (line : List Char) :
    pass defs expandBody ('/' :: '/' :: line) = '/' :: '/' :: line := by
  rw [pass_cons, if_neg (by decide), if_pos ⟨rfl, rfl⟩]

theorem pass_word {tail : List Char} (starts : isNameStart c = true)
    (parts : ∀ d ∈ tail, isNamePart d = true) (ends : ∀ d ∈ rest.head?, isNamePart d = false) :
    pass defs expandBody (c :: tail ++ rest) =
      (match defs.lookup (String.ofList (c :: tail)) with
        | some body => expandBody body
        | none => c :: tail) ++ pass defs expandBody rest := by
  have noQuote : ¬ (c = '"' ∨ c = '\'') := by
    rintro (rfl | rfl) <;> revert starts <;> decide
  have noSlash : ¬ (c = '/' ∧ (tail ++ rest).head? = some '/') := by
    rintro ⟨rfl, -⟩
    revert starts
    decide
  rw [cons_append, pass_cons, if_neg noQuote, if_neg noSlash, if_pos starts,
    takeWhile_run parts ends, dropWhile_run parts ends]

theorem isNameStart_of_isDigit (digit : Decimal.isDigit c = true) : isNameStart c = false := by
  simp only [Decimal.isDigit, Bool.and_eq_true, decide_eq_true_eq] at digit
  have noLower : ¬ 'a' ≤ c := fun lower => absurd (Char.le_trans lower digit.2) (by decide)
  have noUpper : ¬ 'A' ≤ c := fun upper => absurd (Char.le_trans upper digit.2) (by decide)
  have noLine : c ≠ '_' := by
    rintro rfl
    exact absurd digit.2 (by decide)
  simp [isNameStart, noLower, noUpper, noLine]

theorem pass_numeral (numeral : Cursor.IsNumeral text)
    (ends : ∀ d ∈ rest.head?, isNumberPart d = false) :
    pass defs expandBody (text ++ rest) = text ++ pass defs expandBody rest := by
  obtain ⟨c, tail, rfl, digit, parts⟩ := numeral
  have noQuote : ¬ (c = '"' ∨ c = '\'') := by
    rintro (rfl | rfl) <;> revert digit <;> decide
  have noSlash : ¬ (c = '/' ∧ (tail ++ rest).head? = some '/') := by
    rintro ⟨rfl, -⟩
    revert digit
    decide
  have noName : ¬ isNameStart c = true := by
    rw [isNameStart_of_isDigit digit]
    decide
  rw [cons_append, pass_cons, if_neg noQuote, if_neg noSlash, if_neg noName, if_pos digit,
    takeWhile_run parts ends, dropWhile_run parts ends]

theorem pass_number (number : Cursor.IsNumber text)
    (ends : ∀ d ∈ rest.head?, isNumberPart d = false) :
    pass defs expandBody (text ++ rest) = text ++ pass defs expandBody rest := by
  obtain ⟨point, whole, signed, rfl, isPoint, numeral, isSigned⟩ := number.parts
  have exponent : pass defs expandBody (whole ++ signed ++ rest) =
      whole ++ signed ++ pass defs expandBody rest := by
    rcases isSigned with rfl | ⟨sign, run, rfl, isSign, isRun⟩
    · rw [append_nil, pass_numeral numeral ends]
    · have stops : ∀ d ∈ (sign :: run ++ rest).head?, isNumberPart d = false := by
        rintro d ⟨⟩
        rcases isSign with rfl | rfl <;> decide
      have inert : isInert sign = true := by
        rcases isSign with rfl | rfl <;> decide
      have noSlash : ¬ (sign = '/' ∧ (run ++ rest).head? = some '/') := by
        rintro ⟨rfl, -⟩
        revert isSign
        decide
      rw [append_assoc, pass_numeral numeral stops, cons_append,
        pass_inert inert noSlash, pass_numeral isRun ends]
      simp
  rcases isPoint with rfl | rfl
  · exact exponent
  · rw [append_assoc, append_assoc, singleton_append,
      pass_inert (by decide) (by simp), ← append_assoc, exponent]
    simp

theorem pass_run (inert : ∀ c ∈ run, isInert c = true ∧ c ≠ '/') :
    pass defs expandBody (run ++ rest) = run ++ pass defs expandBody rest := by
  induction run with
  | nil => rfl
  | cons c run ih =>
    obtain ⟨isInert, noSlash⟩ := inert c mem_cons_self
    rw [cons_append, pass_inert isInert fun both => noSlash both.1,
      ih fun d member => inert d (mem_cons_of_mem _ member)]
    rfl

theorem pass_symbol {symbol : Symbol} (apart : symbol = .slash → rest.head? ≠ some '/') :
    pass defs expandBody (symbol.spelling.toList ++ rest) =
      symbol.spelling.toList ++ pass defs expandBody rest := by
  by_cases slash : symbol = .slash
  · subst slash
    exact pass_inert (by decide) fun both => apart rfl both.2
  by_cases slashAssign : symbol = .slashAssign
  · subst slashAssign
    have spelled : Symbol.slashAssign.spelling.toList = ['/', '='] := rfl
    rw [spelled, cons_append, cons_append, nil_append,
      pass_inert (by decide) (by simp), pass_inert (by decide) (by simp)]
    rfl
  · have inert : symbol.spelling.toList.all (fun c => isInert c && c != '/') = true := by
      cases symbol <;> first | rfl | contradiction
    apply pass_run
    intro c member
    simpa using all_eq_true.mp inert c member

/-! Block comments, which the expander does not know. -/

def hasSlashes : List Char → Bool
  | '/' :: '/' :: _ => true
  | _ :: rest => hasSlashes rest
  | [] => false

theorem hasSlashes_cons (clear : hasSlashes (c :: rest) = false) :
    hasSlashes rest = false ∧ ¬ (c = '/' ∧ rest.head? = some '/') := by
  by_cases slashes : c = '/' ∧ rest.head? = some '/'
  · obtain ⟨rfl, next⟩ := slashes
    obtain ⟨rest, rfl⟩ := List.head?_eq_some_iff.mp next
    cases clear
  · rw [hasSlashes] at clear
    · exact ⟨clear, slashes⟩
    · rintro tail rfl rfl
      exact slashes ⟨rfl, rfl⟩

theorem hasSlashes_append (clear : hasSlashes (front ++ back) = false) :
    hasSlashes back = false := by
  induction front with
  | nil => exact clear
  | cons c front ih => exact ih (hasSlashes_cons clear).1

theorem takeWhile_append_stop (accept : Char → Bool) (stops : accept stop = false)
    (run rest : List Char) : (run ++ stop :: rest).takeWhile accept = run.takeWhile accept ∧
      (run ++ stop :: rest).dropWhile accept = run.dropWhile accept ++ stop :: rest := by
  induction run with
  | nil => simp [stops]
  | cons c run ih =>
    by_cases accepted : accept c = true
    · simp [accepted, ih]
    · simp [accepted]

/-- Where no quote and no `//` stands, the text up to a slash is expanded on its own. -/
theorem pass_slash (unquoted : ∀ c ∈ body, c ≠ '"' ∧ c ≠ '\'')
    (clear : hasSlashes (body ++ '/' :: rest.head?.toList) = false) :
    pass defs expandBody (body ++ '/' :: rest) =
      pass defs expandBody (body ++ ['/']) ++ pass defs expandBody rest := by
  induction length : body.length using Nat.strong_induction_on generalizing body with
  | _ size ih =>
    cases body with
    | nil =>
      have apart := (hasSlashes_cons clear).2
      have next : ¬ ('/' = '/' ∧ rest.head? = some '/') := by
        rintro ⟨-, next⟩
        exact apart ⟨rfl, by rw [next]; rfl⟩
      rw [nil_append, nil_append, pass_inert (by decide) next,
        pass_inert (by decide) (by simp)]
      rfl
    | cons c body =>
      rw [cons_append] at clear
      obtain ⟨clear, apart⟩ := hasSlashes_cons clear
      have noQuote : ¬ (c = '"' ∨ c = '\'') := by
        obtain ⟨noText, noCharacter⟩ := unquoted c mem_cons_self
        simp [noText, noCharacter]
      have opens : ∀ rest : List Char, (body ++ '/' :: rest).head? = (body ++ ['/']).head? := by
        intro rest
        cases body <;> rfl
      rw [opens] at apart
      have again : ∀ front back : List Char, front ++ back = body →
          pass defs expandBody (back ++ '/' :: rest) =
            pass defs expandBody (back ++ ['/']) ++ pass defs expandBody rest := by
        rintro front back rfl
        refine ih back.length ?_ ?_ ?_ rfl
        · rw [← length, length_cons, length_append]
          omega
        · exact fun d member => unquoted d (mem_cons_of_mem _ (mem_append_right _ member))
        · rw [append_assoc] at clear
          exact hasSlashes_append clear
      have behind : ∀ accept : Char → Bool,
          pass defs expandBody (body.dropWhile accept ++ '/' :: rest) =
            pass defs expandBody (body.dropWhile accept ++ ['/']) ++
              pass defs expandBody rest := fun accept =>
        again _ _ takeWhile_append_dropWhile
      have name := takeWhile_append_stop isNamePart (show isNamePart '/' = false by decide) body
      have number := takeWhile_append_stop isNumberPart
        (show isNumberPart '/' = false by decide) body
      rw [cons_append, cons_append, pass_cons, pass_cons c, if_neg noQuote,
        if_neg noQuote, opens, if_neg apart, if_neg apart, (name rest).1, (name rest).2,
        (name []).1, (name []).2, (number rest).1, (number rest).2, (number []).1, (number []).2,
        behind, behind, again [] body rfl]
      split_ifs <;> simp

end Breadboard.Macro
