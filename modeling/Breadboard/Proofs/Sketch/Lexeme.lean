import Breadboard.Proofs.Sketch.Wording

/-!
Lexemes: what the scan takes step by step, tokens as well as blanks and comments. A text is the
lexemes that cover it, its tokens are theirs, and lexemes that do not paste cover the text in which
they are written one after the other.
-/

open List

namespace Breadboard

open Cursor
open Location (start)

/-- What a step of the scan takes: its characters, and the kind of the token if it is one. -/
structure Lexeme where
  text : List Char
  kind? : Option TokenKind
  deriving DecidableEq

namespace Lexeme

/-- What the characters of a lexeme look like in front of `rest`. -/
inductive Shape : Lexeme → List Char → Prop where
  | blank {c rest} (isBlank : Text.isBlank c = true) : Shape ⟨[c], none⟩ rest
  | directive {line rest} : Shape ⟨'#' :: line, none⟩ rest
  | lineComment {line ending rest} (oneLine : '\n' ∉ line)
      (ends : ending = ['\n'] ∨ ending = [] ∧ rest = []) :
      Shape ⟨'/' :: '/' :: line ++ ending, none⟩ rest
  | blockComment {body rest} : Shape ⟨'/' :: '*' :: body ++ ['/'], none⟩ rest
  | text {body rest value} (oneLine : '\n' ∉ body)
      (closed : ∀ other, Macro.literal '"' (body ++ other) = (body, other)) :
      Shape ⟨'"' :: body, some (.text value)⟩ rest
  | character {body rest value} (oneLine : body.head? ≠ some '\n' → '\n' ∉ body)
      (closed : body.head? ≠ some '\'' →
        ∀ other, Macro.literal '\'' (body ++ other) = (body, other)) :
      Shape ⟨'\'' :: body, some (.char value)⟩ rest
  | number {taken rest kind} (isNumber : Cursor.IsNumber taken)
      (numeric : kind.isNumeric = true) : Shape ⟨taken, some kind⟩ rest
  | word {c tail rest} (starts : isNameStart c = true)
      (parts : ∀ d ∈ tail, isNamePart d = true)
      (ends : ∀ d ∈ rest.head?, isNamePart d = false) :
      Shape ⟨c :: tail, some (wordKind (String.ofList (c :: tail)))⟩ rest
  | symbol {symbol rest} (apart : symbol = .slash → rest.head? ≠ some '/') :
      Shape ⟨symbol.spelling.toList, some (.symbol symbol)⟩ rest

end Lexeme

namespace Cursor

open Lexeme (Shape)

theorem token_shape {rest : List Char}
    (apart : ¬ (c = '/' ∧ rest.head? = some '/')) (out : token c rest loc = .ok (kind, final)) :
    ∃ taken, c :: rest = taken ++ final.rest ∧ Shape ⟨taken, some kind⟩ final.rest ∧
      ∀ value unsigned, kind = .int value unsigned → Numeral value taken := by
  simp only [token] at out
  split at out
  · rename_i quote
    subst quote
    obtain ⟨⟨body, _⟩, read, same⟩ := bind_eq_ok.mp out
    cases same
    obtain ⟨taken, -, split, oneLine, closed, -⟩ := textBody_again read
    exact ⟨'"' :: taken, congrArg ('"' :: ·) split, .text oneLine closed, by simp⟩
  split at out
  · rename_i quote
    subst quote
    obtain ⟨⟨byte, _⟩, read, same⟩ := bind_eq_ok.mp out
    cases same
    obtain ⟨taken, split, oneLine, closed⟩ := characterBody_text read
    exact ⟨'\'' :: taken, congrArg ('\'' :: ·) split, .character oneLine closed, by simp⟩
  split at out
  · rename_i starts
    have numeral : c = '.' ∧ startsWithDigit rest = true ∨ Decimal.isDigit c = true := by
      simpa [or_comm] using starts
    obtain ⟨taken, split, written⟩ := number_text numeral out
    obtain ⟨isNumber, numeric⟩ := written.isNumber
    refine ⟨c :: taken, congrArg (c :: ·) split, .number isNumber numeric, ?_⟩
    rintro value unsigned rfl
    obtain ⟨isNumeral⟩ := written
    exact isNumeral
  split at out
  · rename_i starts
    cases out
    refine ⟨c :: rest.takeWhile isNamePart,
      congrArg (c :: ·) takeWhile_append_dropWhile.symm, .word starts
      (fun d member => mem_takeWhile_imp member) fun d next => ?_, fun value unsigned isWord => ?_⟩
    · have stop := List.head?_dropWhile_not isNamePart rest
      change (rest.dropWhile isNamePart).head? = some d at next
      rw [next] at stop
      exact stop
    · unfold wordKind at isWord
      split at isWord <;> cases isWord
  · split at out <;> cases out
    rename_i symbol final scanned
    obtain ⟨taken, split, rfl, -⟩ := Symbol.scan?_again scanned
    refine ⟨_, split, .symbol ?_, by simp⟩
    rintro rfl next
    obtain ⟨rfl, behind⟩ := List.cons.inj split
    exact apart ⟨rfl, behind ▸ next⟩

theorem scan_shape (out : scan cursor = .ok (kind?, final)) :
    ∃ taken, cursor.rest = taken ++ final.rest ∧ Shape ⟨taken, kind?⟩ final.rest ∧
      ∀ value unsigned, kind? = some (.int value unsigned) → Numeral value taken := by
  obtain ⟨_ | ⟨c, rest⟩, loc⟩ := cursor
  · cases out
  obtain ⟨⟨token?, next⟩, stepped, same⟩ := bind_eq_ok.mp out
  cases same
  by_cases blank : Text.isBlank c = true
  · rw [step_blank blank] at stepped
    cases stepped
    exact ⟨[c], rfl, .blank blank, nofun⟩
  by_cases directive : c = '#'
  · subst directive
    rw [step_directive] at stepped
    cases stepped
    obtain ⟨line, ending, split, -, -⟩ := skipLine_text ⟨rest, loc.next '#'⟩
    exact ⟨'#' :: (line ++ ending), congrArg ('#' :: ·) split, .directive, nofun⟩
  by_cases noLine : c = '/' ∧ rest.head? = some '/'
  · obtain ⟨rfl, next⟩ := noLine
    obtain ⟨rest, rfl⟩ := List.head?_eq_some_iff.mp next
    rw [step_lineComment, skipLine_cons (by decide)] at stepped
    cases stepped
    obtain ⟨line, ending, split, oneLine, ends⟩ :=
      skipLine_text ⟨rest, (loc.next '/').next '/'⟩
    refine ⟨'/' :: '/' :: line ++ ending, ?_, .lineComment oneLine ends, nofun⟩
    exact congrArg ('/' :: '/' :: ·) split
  by_cases noBlock : c = '/' ∧ rest.head? = some '*'
  · obtain ⟨rfl, next⟩ := noBlock
    obtain ⟨rest, rfl⟩ := List.head?_eq_some_iff.mp next
    rw [step_blockComment] at stepped
    split at stepped <;> cases stepped
    rename_i final ended
    obtain ⟨body, split, -⟩ := commentEnd?_again ended
    refine ⟨'/' :: '*' :: (body ++ ['*']) ++ ['/'], ?_, .blockComment, nofun⟩
    rw [split]
    simp
  · rw [step_token (by simpa using blank) directive noLine noBlock] at stepped
    obtain ⟨⟨kind, _⟩, read, same⟩ := bind_eq_ok.mp stepped
    cases same
    obtain ⟨taken, split, shape, numeral⟩ := token_shape noLine read
    exact ⟨taken, split, shape, fun value unsigned same => numeral value unsigned (Option.some.inj same)⟩

end Cursor

namespace Lexeme

variable {text rest : List Char} {lexemes : List Lexeme} {lexeme : Lexeme}

theorem Shape.text_ne_nil (shape : Shape lexeme rest) : lexeme.text ≠ [] := by
  cases shape with
  | number isNumber _ =>
    obtain ⟨point, whole, signed, rfl, -, ⟨c, tail, rfl, -⟩, -⟩ := isNumber.parts
    simp
  | symbol _ => exact Symbol.spelling_ne_nil _
  | _ => exact cons_ne_nil _ _

/-- The scan takes the lexeme in front of `rest`, wherever in a text it stands. -/
structure Before (lexeme : Lexeme) (rest : List Char) : Prop where
  taken : ∀ loc, ∃ reached,
    scan ⟨lexeme.text ++ rest, loc⟩ = .ok (lexeme.kind?, ⟨rest, reached⟩)

theorem Before.shape (before : lexeme.Before rest) : lexeme.Shape rest := by
  obtain ⟨reached, scanned⟩ := before.taken start
  obtain ⟨taken, split, shape, -⟩ := scan_shape scanned
  cases append_cancel_right split
  exact shape

theorem Before.numeral (before : Before ⟨text, some (.int value unsigned)⟩ rest) :
    Numeral value text := by
  obtain ⟨reached, scanned⟩ := before.taken start
  obtain ⟨taken, split, -, numeral⟩ := scan_shape scanned
  cases append_cancel_right split
  exact numeral value unsigned rfl

theorem Before.congr (before : lexeme.Before rest)
    (alike : other.head? = rest.head?) : lexeme.Before other := by
  constructor
  intro loc
  obtain ⟨reached, scanned⟩ := before.taken start
  obtain ⟨taken, split, again⟩ := settles_scan.again start scanned
  cases append_cancel_right split
  exact again other alike start loc

/-- What the scan takes at the start of a text, and what is left. -/
def first? (text : List Char) : Option (Lexeme × List Char) :=
  match scan (ofText text) with
  | .ok (kind?, next) =>
    some (⟨text.take (text.length - next.rest.length), kind?⟩, next.rest)
  | .error _ => none

/-- Everything the scan takes, in order. The first argument bounds the number of steps. -/
def all? : Nat → List Char → Option (List Lexeme)
  | _, [] => some []
  | 0, _ :: _ => none
  | fuel + 1, c :: text => do
    let (lexeme, rest) ← first? (c :: text)
    let lexemes ← all? fuel rest
    some (lexeme :: lexemes)

def ofText? (text : List Char) : Option (List Lexeme) := all? text.length text

/-- The scan takes the lexemes one after the other and nothing else. -/
inductive Cover : List Lexeme → List Char → Prop where
  | nil : Cover [] []
  | cons {lexeme : Lexeme} {lexemes : List Lexeme} {rest : List Char}
      (before : lexeme.Before rest) (covers : Cover lexemes rest) :
      Cover (lexeme :: lexemes) (lexeme.text ++ rest)

theorem first?_before (found : first? text = some (lexeme, rest)) :
    text = lexeme.text ++ rest ∧ lexeme.Before rest := by
  simp only [first?] at found
  split at found <;> cases found
  rename_i kind? next scanned
  obtain ⟨taken, split, again⟩ := settles_scan.again start scanned
  change text = taken ++ next.rest at split
  subst split
  have front : (taken ++ next.rest).take ((taken ++ next.rest).length - next.rest.length) =
      taken := by
    simp
  rw [front]
  exact ⟨rfl, ⟨fun loc => again next.rest rfl start loc⟩⟩

theorem cover_of_all? (found : all? fuel text = some lexemes) : Cover lexemes text := by
  induction fuel generalizing text lexemes with
  | zero =>
    cases text with
    | nil =>
      cases found
      exact .nil
    | cons c text => cases found
  | succ fuel ih =>
    cases text with
    | nil =>
      cases found
      exact .nil
    | cons c text =>
      simp only [all?, Option.bind_eq_bind, Option.bind_eq_some_iff, Option.some.injEq] at found
      obtain ⟨⟨lexeme, rest⟩, first, others, followed, rfl⟩ := found
      obtain ⟨split, before⟩ := first?_before first
      rw [split]
      exact .cons before (ih followed)

theorem Before.first? (before : lexeme.Before rest) :
    first? (lexeme.text ++ rest) = some (lexeme, rest) := by
  obtain ⟨reached, scanned⟩ := before.taken start
  simp [Lexeme.first?, ofText, scanned]

/-- Whether two texts, written one behind the other, are read otherwise than apart. -/
def pastes (lexeme next : Lexeme) : Bool :=
  first? (lexeme.text ++ next.text) != some (lexeme, next.text)

def neighbours (lexemes : List Lexeme) : List (Lexeme × Lexeme) := lexemes.zip lexemes.tail

theorem pastes_eq_false_iff {next} : lexeme.pastes next = false ↔ lexeme.Before next.text := by
  rw [pastes, bne_eq_false_iff_eq]
  exact ⟨fun found => (first?_before found).2, Before.first?⟩

theorem Cover.text_ne_nil (covers : Cover (lexeme :: lexemes) text) : lexeme.text ≠ [] := by
  cases covers with
  | cons before _ => exact before.shape.text_ne_nil

theorem head?_flatMap_text (nonempty : lexeme.text ≠ []) (lexemes : List Lexeme) :
    ((lexeme :: lexemes).flatMap Lexeme.text).head? = lexeme.text.head? := by
  obtain ⟨c, tail, starts⟩ := exists_cons_of_ne_nil nonempty
  rw [flatMap_cons, starts]
  rfl

section

variable (covers : Cover lexemes text)
include covers

theorem Cover.text_eq : text = lexemes.flatMap Lexeme.text := by
  induction covers with
  | nil => rfl
  | cons before covers ih => rw [flatMap_cons, ← ih]

theorem Cover.tokens (enough : text.length ≤ fuel) (loc : Location) :
    ∃ tokens, Cursor.tokens fuel ⟨text, loc⟩ = .ok tokens ∧
      tokens.map Token.kind = lexemes.filterMap Lexeme.kind? ++ [.endOfFile] := by
  induction covers generalizing fuel loc with
  | nil =>
    refine ⟨[⟨.endOfFile, loc⟩], ?_, rfl⟩
    cases fuel <;> rfl
  | @cons lexeme lexemes rest before covers ih =>
    obtain ⟨reached, scanned⟩ := before.taken loc
    obtain ⟨c, tail, starts⟩ := exists_cons_of_ne_nil before.shape.text_ne_nil
    rw [starts, cons_append] at scanned enough ⊢
    obtain ⟨fuel, rfl⟩ : ∃ fewer, fuel = fewer + 1 :=
      ⟨fuel - 1, by rw [length_cons] at enough; omega⟩
    obtain ⟨⟨token?, next⟩, stepped, same⟩ := bind_eq_ok.mp scanned
    have shorter : rest.length ≤ fuel := by
      simp only [length_cons, length_append] at enough
      omega
    obtain ⟨following, read, kinds⟩ := ih shorter reached
    have kind : token?.map Token.kind = lexeme.kind? := congrArg Prod.fst (Except.ok.inj same)
    have behind : next = ⟨rest, reached⟩ := congrArg Prod.snd (Except.ok.inj same)
    subst behind
    refine ⟨token?.toList ++ following, ?_, ?_⟩
    · refine bind_eq_ok.mpr ⟨_, stepped, ?_⟩
      exact bind_eq_ok.mpr ⟨_, read, rfl⟩
    · rw [map_append, kinds, filterMap_cons, ← kind]
      cases token? <;> rfl

theorem Cover.tokenize :
    (Breadboard.tokenize (String.ofList text)).map (List.map Token.kind) =
      .ok (lexemes.filterMap Lexeme.kind? ++ [.endOfFile]) := by
  obtain ⟨tokens, read, kinds⟩ := covers.tokens le_rfl start
  have tokenized : Breadboard.tokenize (String.ofList text) = .ok tokens := by
    rw [Breadboard.tokenize, String.toList_ofList]
    exact read
  rw [tokenized, Except.map, kinds]

theorem Cover.head?_eq : lexemes.head?.bind (·.text.head?) = text.head? := by
  cases covers with
  | nil => rfl
  | cons before _ =>
    obtain ⟨c, tail, starts⟩ := exists_cons_of_ne_nil before.shape.text_ne_nil
    simp [starts]

theorem Cover.apart : ∀ pair ∈ neighbours lexemes, pair.1.pastes pair.2 = false := by
  induction covers with
  | nil => exact fun pair member => absurd member not_mem_nil
  | @cons lexeme lexemes rest before covers ih =>
    intro pair member
    cases lexemes with
    | nil => cases member
    | cons next lexemes =>
      rcases mem_cons.mp member with rfl | later
      · refine pastes_eq_false_iff.mpr (before.congr ?_)
        rw [covers.text_eq, head?_flatMap_text covers.text_ne_nil]
      · exact ih pair later

theorem Cover.last : ∀ lexeme ∈ lexemes.getLast?, lexeme.Before [] := by
  induction covers with
  | nil => exact fun lexeme member => by cases member
  | @cons lexeme lexemes rest before covers ih =>
    cases covers with
    | nil =>
      rintro other ⟨⟩
      exact before
    | cons _ _ => simpa using ih

end

/-- Lexemes that do not paste cover the text in which they stand one behind the other. -/
theorem cover_of_apart (apart : ∀ pair ∈ neighbours lexemes, pair.1.pastes pair.2 = false)
    (last : ∀ lexeme ∈ lexemes.getLast?, lexeme.Before []) :
    Cover lexemes (lexemes.flatMap Lexeme.text) := by
  induction lexemes with
  | nil => exact .nil
  | cons lexeme lexemes ih =>
    cases lexemes with
    | nil => exact .cons (last lexeme rfl) .nil
    | cons next rest =>
      have covers := ih
        (fun pair later => apart pair (mem_cons_of_mem _ later)) (by simpa using last)
      have separate := apart (lexeme, next) mem_cons_self
      refine .cons ((pastes_eq_false_iff.mp separate).congr ?_) covers
      exact head?_flatMap_text covers.text_ne_nil rest

end Lexeme

end Breadboard
