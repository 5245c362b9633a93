import Breadboard.Proofs.Sketch.Expansion

/-!
Macros as a replacement of lexemes. A word that is defined gives way to the lexemes of its body, and
these are replaced in turn; every other lexeme stays. On regular lexemes, a pass of the expander
over their text does the same.
-/

open List

namespace Breadboard

open Macro Lexeme

namespace Lexeme

variable {text rest : List Char} {lexeme : Lexeme} {depth : Nat} {pieces : List Lexeme}
  {body line : List Char}

def isComment (lexeme : Lexeme) : Bool :=
  match lexeme.kind?, lexeme.text with
  | none, '/' :: '*' :: _ => true
  | _, _ => false

def word? (lexeme : Lexeme) : Option String :=
  match lexeme.kind? with
  | some (.name _) | some (.keyword _) => some (String.ofList lexeme.text)
  | _ => none

/-- What replaces a lexeme: the lexemes of its body, replaced in turn up to `depth` deep, for a
word that is defined, and otherwise itself. In a comment the text is replaced. -/
def expand (defs : Definitions) : Nat → Lexeme → Option (List Lexeme)
  | 0, lexeme => some [lexeme]
  | depth + 1, lexeme =>
    if lexeme.isComment then
      some [⟨Macro.expand defs (depth + 1) lexeme.text, none⟩]
    else
      match lexeme.word?.bind fun word => defs.lookup word with
      | none => some [lexeme]
      | some body => do
        let parts ← ofText? body
        let expanded ← parts.mapM (expand defs depth)
        some expanded.flatten

def lastLine (text : List Char) : List Char :=
  (text.reverse.takeWhile (· != '\n')).reverse

def isQuote (c : Char) : Bool := c == '"' || c == '\''

/-- Whether the expander sees the end of the lexeme where the lexer sees it. -/
def regular (lexeme : Lexeme) (next? : Option Char) : Bool :=
  match lexeme.kind? with
  | none =>
    lexeme.text.head? != some '#' &&
      (!lexeme.isComment || next?.all (· == '\n') ||
        (!(lastLine lexeme.text).any isQuote &&
          !Macro.hasSlashes (lastLine lexeme.text ++ next?.toList)))
  | some (.char _) => lexeme.text[1]? != some '\'' && lexeme.text[1]? != some '\n'
  | some kind => !(kind.isNumeric && next?.any isNumberPart)

def allRegular : List Lexeme → Bool
  | [] => true
  | lexeme :: rest => lexeme.regular (rest.head?.bind (·.text.head?)) && allRegular rest

variable {defs : Definitions}

theorem word?_wordKind :
    word? ⟨text, some (Cursor.wordKind (String.ofList text))⟩ = some (String.ofList text) := by
  simp only [Cursor.wordKind]
  split <;> rfl

theorem isComment_some : isComment ⟨text, some kind⟩ = false := rfl

theorem isInert_of_isBlank (blank : Text.isBlank c = true) : isInert c = true ∧ c ≠ '/' := by
  have values : ∀ {low high : Char}, low ≤ c ∧ c ≤ high →
      low.toNat ≤ c.toNat ∧ c.toNat ≤ high.toNat := id
  have others : c ≠ '"' ∧ c ≠ '\'' ∧ c ≠ '/' := by
    refine ⟨?_, ?_, ?_⟩ <;> rintro rfl <;> revert blank <;> decide
  simp only [Text.isBlank, Bool.or_eq_true, Bool.and_eq_true, decide_eq_true_eq,
    beq_iff_eq] at blank
  have noName : Cursor.isNameStart c = false := by
    by_contra starts
    simp only [Cursor.isNameStart, Bool.not_eq_false, Bool.or_eq_true, Bool.and_eq_true,
      decide_eq_true_eq, beq_iff_eq] at starts
    rcases starts with (lower | upper) | rfl
    · have := values lower
      simp at this
      omega
    · have := values upper
      simp at this
      omega
    · simp at blank
  have noDigit : Decimal.isDigit c = false := by
    by_contra digit
    simp only [Decimal.isDigit, Bool.not_eq_false, Bool.and_eq_true, decide_eq_true_eq] at digit
    have := values digit
    simp at this
    omega
  simp [isInert, noName, noDigit, others]

theorem expand_self (plain : lexeme.isComment = false) (noWord : lexeme.word? = none)
    (expanded : lexeme.expand defs (depth + 1) = some pieces) : pieces = [lexeme] := by
  simp only [expand, plain, noWord, Option.bind_none] at expanded
  exact (Option.some.inj expanded).symm

theorem sameLine_of_oneLine (oneLine : '\n' ∉ text) : ∀ c ∈ text, (c != '\n') = true := by
  intro c member
  rw [bne_iff_ne]
  rintro rfl
  exact oneLine member

theorem lastLine_of_oneLine (oneLine : '\n' ∉ text) : lastLine text = text := by
  have whole : text.reverse.takeWhile (· != '\n') = text.reverse :=
    takeWhile_eq_self_iff.mpr fun c member =>
      sameLine_of_oneLine oneLine c (mem_reverse.mp member)
  rw [lastLine, whole, reverse_reverse]

theorem lastLine_append (front back : List Char) :
    lastLine (front ++ '\n' :: back) = lastLine back := by
  have stops := takeWhile_append_stop (· != '\n')
    (show ('\n' != '\n') = false by decide) back.reverse front.reverse
  simp only [lastLine, reverse_append, reverse_cons, append_assoc,
    singleton_append, stops.1]

/-- The expander leaves the text at its end in front of what follows: that is the end of the line,
or the text holds nothing that hides what comes after it. -/
structure Calm (text : List Char) (next? : Option Char) : Prop where
  quiet : next?.all (· == '\n') = true ∨
    text.any isQuote = false ∧ hasSlashes (text ++ next?.toList) = false

theorem calm_of_regular {next? : Option Char}
    (isRegular : regular ⟨'/' :: '*' :: body ++ ['/'], none⟩ next? = true) :
    Calm (lastLine ('/' :: '*' :: body ++ ['/'])) next? := by
  constructor
  simpa [regular, isComment] using isRegular

theorem pass_calm (calm : Calm (body ++ ['/']) rest.head?)
    (next : line = [] ∨ line.head? = rest.head?)
    (oneLine : '\n' ∉ line) : pass defs expandBody (body ++ ['/'] ++ line) =
      pass defs expandBody (body ++ ['/']) ++ pass defs expandBody line := by
  by_cases empty : line = []
  · subst empty
    rw [append_nil, pass_nil, append_nil]
  have same := next.resolve_left empty
  obtain ⟨c, tail, rfl⟩ := exists_cons_of_ne_nil empty
  have noBreak : c ≠ '\n' := by
    rintro rfl
    exact oneLine mem_cons_self
  obtain ⟨unquoted, clear⟩ := calm.quiet.resolve_left (by simp [← same, noBreak])
  rw [← same, append_assoc] at clear
  rw [append_assoc, singleton_append]
  refine pass_slash (fun d member => ?_) clear
  have plain := any_eq_false.mp unquoted d (mem_append_left _ member)
  simpa [isQuote] using plain

theorem head?_of_regular {next? : Option Char}
    (isRegular : regular ⟨'\'' :: body, some (.char value)⟩ next? = true) :
    body.head? ≠ some '\'' ∧ body.head? ≠ some '\n' := by
  simpa [regular, List.head?_eq_getElem?] using isRegular

theorem Shape.breaks (shape : lexeme.Shape rest) (breaks : '\n' ∈ lexeme.text)
    (isRegular : lexeme.regular rest.head? = true) : lexeme = ⟨['\n'], none⟩ ∨
      (∃ line, '\n' ∉ line ∧ lexeme = ⟨'/' :: '/' :: line ++ ['\n'], none⟩) ∨
      ∃ body, lexeme = ⟨'/' :: '*' :: body ++ ['/'], none⟩ := by
  cases shape with
  | blank isBlank =>
    obtain rfl := mem_singleton.mp breaks
    exact .inl rfl
  | directive => cases isRegular
  | @lineComment line ending _ oneLine ends =>
    rcases ends with rfl | ⟨rfl, -⟩
    · exact .inr (.inl ⟨line, oneLine, rfl⟩)
    · simp [oneLine] at breaks
  | @blockComment body _ => exact .inr (.inr ⟨body, rfl⟩)
  | text oneLine closed => simp [oneLine] at breaks
  | character oneLine closed => simp [oneLine (head?_of_regular isRegular).2] at breaks
  | number isNumber numeric => exact absurd breaks isNumber.oneLine
  | @word c tail _ starts parts ends =>
    rcases mem_cons.mp breaks with rfl | inTail
    · cases starts
    · cases parts _ inTail
  | @symbol symbol _ apart =>
    have oneLine : '\n' ∉ symbol.spelling.toList := by
      cases symbol <;> decide
    exact absurd breaks oneLine

/-- A pass over a line takes a regular lexeme and goes on behind it. -/
theorem pass_shape (shape : lexeme.Shape rest) (next : line = [] ∨ line.head? = rest.head?)
    (isRegular : lexeme.regular rest.head? = true) (oneLine : '\n' ∉ lexeme.text ++ line)
    (bodies : ∀ word body parts expanded, defs.lookup word = some body →
      ofText? body = some parts → parts.mapM (expand defs depth) = some expanded →
      expanded.flatten.flatMap Lexeme.text = Macro.expand defs depth body)
    (expanded : lexeme.expand defs (depth + 1) = some pieces) :
    Macro.pass defs (Macro.expand defs depth) (lexeme.text ++ line) = pieces.flatMap Lexeme.text ++
        Macro.pass defs (Macro.expand defs depth) line := by
  have heads : ∀ {accept : Char → Bool}, (∀ d ∈ rest.head?, accept d = false) →
      ∀ d ∈ line.head?, accept d = false := by
    intro accept ends d member
    rcases next with rfl | same
    · cases member
    · exact ends d (same ▸ member)
  cases shape with
  | @blank c _ isBlank =>
    have plain : isComment ⟨[c], none⟩ = false := by
      simp only [isComment]
    cases expand_self plain rfl expanded
    obtain ⟨inert, noSlash⟩ := isInert_of_isBlank isBlank
    exact pass_inert inert fun both => noSlash both.1
  | directive => cases isRegular
  | @lineComment text ending _ _ ends =>
    cases expand_self rfl rfl expanded
    rcases ends with rfl | ⟨rfl, rfl⟩
    · simp at oneLine
    · obtain rfl : line = [] := next.elim id fun same => List.head?_eq_none_iff.mp same
      simp only [append_nil, flatMap_cons, flatMap_nil, pass_nil]
      exact pass_lineComment text
  | @blockComment body _ =>
    cases expanded
    have textOneLine : '\n' ∉ '/' :: '*' :: body ++ ['/'] := fun member =>
      oneLine (mem_append_left _ member)
    have calm := calm_of_regular isRegular
    rw [lastLine_of_oneLine textOneLine] at calm
    rw [flatMap_singleton, expand_succ]
    exact pass_calm calm next fun member => oneLine (mem_append_right _ member)
  | text _ closed =>
    cases expand_self rfl rfl expanded
    rw [pass_quoted (.inl rfl) (closed line)]
    simp
  | character _ closed =>
    cases expand_self rfl rfl expanded
    rw [pass_quoted (.inr rfl) (closed (head?_of_regular isRegular).1 line)]
    simp
  | @number taken _ kind isNumber numeric =>
    have noWord : word? ⟨taken, some kind⟩ = none := by
      cases kind <;> first | rfl | cases numeric
    cases expand_self rfl noWord expanded
    have ends : ∀ d ∈ rest.head?, isNumberPart d = false := by
      intro d member
      rw [Option.mem_def] at member
      cases kind <;> simp_all [regular, TokenKind.isNumeric]
    rw [pass_number isNumber (heads ends)]
    simp
  | @word c tail _ starts parts ends =>
    rw [pass_word starts parts (heads ends)]
    simp only [expand, isComment_some, word?_wordKind, Option.bind_some] at expanded
    cases found : defs.lookup (String.ofList (c :: tail)) with
    | none =>
      simp only [found] at expanded
      cases expanded
      simp
    | some body =>
      simp only [found, Option.bind_eq_bind] at expanded
      obtain ⟨parts, lexed, expanded⟩ := Option.bind_eq_some_iff.mp expanded
      obtain ⟨groups, grouped, same⟩ := Option.bind_eq_some_iff.mp expanded
      cases same
      rw [bodies _ body parts groups found lexed grouped]
  | symbol apart =>
    cases expand_self rfl rfl expanded
    rw [pass_symbol fun slash => ?_]
    · simp
    · rcases next with rfl | same
      · simp
      · rw [same]
        exact apart slash

end Lexeme

/-- Bodies are on one line and, where they have lexemes, those are regular. -/
structure Definitions.Orderly (defs : Definitions) : Prop where
  oneLine : ∀ definition ∈ defs, '\n' ∉ definition.2
  isRegular : ∀ definition ∈ defs, ∀ parts,
    ofText? definition.2 = some parts → allRegular parts = true

/-- Whether the lexemes of every body that has any are regular. -/
def Definitions.regular (defs : Definitions) : Bool :=
  defs.all fun definition => (ofText? definition.2).all allRegular

theorem Definitions.Orderly.lookup {defs : Definitions} (orderly : defs.Orderly)
    (found : defs.lookup word = some body) :
    '\n' ∉ body ∧ ∀ parts, ofText? body = some parts → allRegular parts = true := by
  obtain ⟨front, back, split, -⟩ := lookup_eq_some_iff.mp found
  have member : (word, body) ∈ defs := by simp [split]
  exact ⟨orderly.oneLine _ member, orderly.isRegular _ member⟩

namespace Lexeme

variable {defs : Definitions}

theorem expand_cover (orderly : defs.Orderly) {text : List Char} (covers : Cover lexemes text)
    (oneLine : '\n' ∉ text) (isRegular : allRegular lexemes = true)
    (expanded : lexemes.mapM (expand defs depth) = some groups) :
    groups.flatten.flatMap Lexeme.text = Macro.expand defs depth text := by
  induction depth generalizing text lexemes groups with
  | zero =>
    have single : lexemes.mapM (expand defs 0) =
        some (lexemes.map fun lexeme => [lexeme]) := mapM_pure
    rw [single] at expanded
    cases expanded
    rw [covers.text_eq, Macro.expand, ← flatMap_def]
    simp
  | succ depth bodyHypothesis =>
    rw [expand_succ]
    induction covers generalizing groups with
    | nil =>
      cases expanded
      rfl
    | @cons lexeme lexemes rest before covers ih =>
      simp only [allRegular, Bool.and_eq_true, covers.head?_eq] at isRegular
      simp only [mapM_cons, Option.bind_eq_bind, Option.pure_def] at expanded
      obtain ⟨pieces, first, expanded⟩ := Option.bind_eq_some_iff.mp expanded
      obtain ⟨groups, others, same⟩ := Option.bind_eq_some_iff.mp expanded
      cases same
      have restOneLine : '\n' ∉ rest := fun member => oneLine (mem_append_right _ member)
      rw [pass_shape before.shape (.inr rfl) isRegular.1 oneLine ?_ first,
        ← ih restOneLine isRegular.2 others]
      · simp
      · intro word body parts expanded found lexed grouped
        obtain ⟨bodyOneLine, bodyRegular⟩ := orderly.lookup found
        exact bodyHypothesis (cover_of_all? lexed) bodyOneLine (bodyRegular parts lexed) grouped

end Lexeme

end Breadboard
