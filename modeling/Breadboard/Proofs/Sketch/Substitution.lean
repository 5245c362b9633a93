import Breadboard.Proofs.Sketch.Replacement
import Mathlib.Tactic.MkIffOfInductiveProp

/-!
Expanding the macros of a source and then reading tokens gives the tokens of the source, directive
lines left blank, with every defined word replaced by the tokens of its body.
-/

open List

namespace Breadboard

open Lexeme

variable {definitions : Definitions} {scopes : List Definitions}

/-! Lines and bodies hold no line break. -/

theorem Text.after?_subset {start text rest : List Char} (found : after? start text = some rest) :
    rest ⊆ text := by
  fun_induction after? start text with
  | case1 =>
    cases found
    exact List.Subset.refl _
  | case2 | case4 => cases found
  | case3 start c text ih =>
    exact subset_cons_of_subset c (ih found)

theorem Text.trim_subset (text : List Char) : trim text ⊆ text := by
  intro c member
  simp only [trim, trimEnd, dropEndWhile, mem_reverse] at member
  have inReverse := (dropWhile_sublist _).subset member
  exact (dropWhile_sublist _).subset (mem_reverse.mp inReverse)

namespace Macro

variable {text : List Char} {line : List Char}

theorem beforeComment_subset (text : List Char) : beforeComment text ⊆ text := by
  fun_induction beforeComment text with
  | case1 => exact nil_subset _
  | case2 c rest _ ih => exact cons_subset_cons c ih
  | case3 => exact List.Subset.refl _

theorem oneLine_of_linesFrom (oneLine : '\n' ∉ current)
    (member : line ∈ linesFrom current text) : '\n' ∉ line := by
  fun_induction linesFrom current text with
  | case1 => cases member
  | case2 current _ =>
    obtain rfl := mem_singleton.mp member
    simpa using oneLine
  | case3 current rest ended ih =>
    rcases mem_cons.mp member with rfl | later
    · simp only [ended, mem_reverse]
      split
      · exact fun inBefore => oneLine (mem_cons_of_mem _ inBefore)
      · exact oneLine
    · exact ih not_mem_nil later
  | case4 current c rest sameLine ih =>
    refine ih (fun inLine => ?_) member
    rcases mem_cons.mp inLine with isBreak | earlier
    · exact sameLine isBreak.symm
    · exact oneLine earlier

theorem directive?_subset (found : directive? line = some text) : text ⊆ line := by
  obtain ⟨rest, isDirective, rfl⟩ := Option.map_eq_some_iff.mp found
  intro c member
  have inRest := (dropWhile_sublist _).subset member
  exact (dropWhile_sublist _).subset (Text.after?_subset isDirective inRest)

theorem oneLine_of_directive (oneLine : '\n' ∉ text)
    (bodies : ∀ definition ∈ definitions, '\n' ∉ definition.2)
    (outcome : directive definitions location text = .ok changed) :
    ∀ definition ∈ changed, '\n' ∉ definition.2 := by
  have kept : ∀ name, ∀ definition ∈ definitions.erase name, '\n' ∉ definition.2 :=
    fun name definition member => bodies definition (mem_filter.mp member).1
  simp only [directive] at outcome
  split at outcome
  · rename_i rest found
    split at outcome
    · cases outcome
    split at outcome
    · cases outcome
    cases outcome
    refine forall_mem_cons.mpr ⟨fun inBody => ?_, kept _⟩
    have inRest := beforeComment_subset _ (Text.trim_subset _ inBody)
    have inTrimmed := (dropWhile_sublist _).subset inRest
    exact oneLine (Text.after?_subset found ((dropWhile_sublist _).subset inTrimmed))
  · split at outcome
    · cases outcome
      exact kept _
    · cases outcome
      exact bodies

end Macro

/-! Sources, line by line. -/

/-- A line with the definitions in force on it. -/
structure Macro.Page where
  definitions : Definitions
  line : List Char
  deriving DecidableEq

namespace Macro.Page

/-- The lines of a source with the definitions in force on them. Directive lines are blank. -/
def ofLines (definitions : Definitions) (number : Nat) :
    List (List Char) → Except ParseError (List Page)
  | [] => .ok []
  | line :: rest =>
    match directive? line with
    | some text => do
      let changed ← directive definitions ⟨number, 1⟩ text
      let pages ← ofLines changed (number + 1) rest
      .ok (⟨definitions, []⟩ :: pages)
    | none => do
      let pages ← ofLines definitions (number + 1) rest
      .ok (⟨definitions, line⟩ :: pages)

def ofText (source : String) : Except ParseError (List Page) := ofLines [] 1 (lines source.toList)

def text (pages : List Page) : List Char := pages.flatMap fun page => page.line ++ ['\n']

def expanded (pages : List Page) : List Char :=
  pages.flatMap fun page => Macro.expand page.definitions expansionDepth page.line ++ ['\n']

end Macro.Page

/-- A text whose lines are each expanded under the definitions for them. -/
def Macro.expandText : List Definitions → List Char → List Char
  | [], text => text
  | definitions :: scopes, text =>
    let line := expand definitions expansionDepth (text.takeWhile (· != '\n'))
    match text.dropWhile (· != '\n') with
    | [] => line
    | c :: rest => line ++ c :: expandText scopes rest

theorem Macro.expandText_oneLine {text : List Char} (oneLine : '\n' ∉ text) :
    expandText (definitions :: scopes) text = expand definitions expansionDepth text := by
  have inside := sameLine_of_oneLine oneLine
  have ends : ∀ c ∈ ([] : List Char).head?, (c != '\n') = false := fun c member => by cases member
  have taken := takeWhile_run inside ends
  have left := dropWhile_run inside ends
  rw [append_nil] at taken left
  simp only [expandText, taken, left]

theorem Macro.expandText_break (oneLine : '\n' ∉ front) :
    expandText (definitions :: scopes) (front ++ '\n' :: back) =
      expand definitions expansionDepth front ++ '\n' :: expandText scopes back := by
  have inside := sameLine_of_oneLine oneLine
  have ends : ∀ c ∈ ('\n' :: back).head?, (c != '\n') = false := by
    rintro c ⟨⟩
    rfl
  simp only [expandText, takeWhile_run inside ends, dropWhile_run inside ends]

namespace Lexeme

/-- What replaces a lexeme under the definitions for its lines. -/
def expandOn (scopes : List Definitions) (lexeme : Lexeme) : Option (List Lexeme) :=
  if lexeme.isComment then some [⟨Macro.expandText scopes lexeme.text, none⟩]
  else lexeme.expand (scopes.headD []) Macro.expansionDepth

theorem expandOn_oneLine {lexeme : Lexeme} (oneLine : '\n' ∉ lexeme.text) :
    lexeme.expandOn (definitions :: scopes) = lexeme.expand definitions Macro.expansionDepth := by
  simp only [expandOn, headD_cons, Macro.expandText_oneLine oneLine]
  split
  · rename_i isComment
    simp only [Macro.expansionDepth, expand, isComment, if_true]
  · rfl

/-- What replaces lexemes under the definitions for their lines. -/
def expandAll? : List Definitions → List Lexeme → Option (List Lexeme)
  | _, [] => some []
  | scopes, lexeme :: lexemes => do
    let pieces ← lexeme.expandOn scopes
    let others ← expandAll? (scopes.drop (lexeme.text.count '\n')) lexemes
    some (pieces ++ others)

end Lexeme

namespace Macro.Page

variable {pages : List Page} {rest front : List Char} {page : Page} {definitions : Definitions}
  {number : Nat} {lines : List (List Char)} {pieces : List Lexeme}

theorem ofLines_of_expandLines (outcome : expandLines definitions number lines = .ok (out, final)) :
    ∃ pages, ofLines definitions number lines = .ok pages ∧
      expanded pages = out.flatMap fun line => line ++ ['\n'] := by
  induction lines generalizing definitions number out with
  | nil =>
    cases outcome
    exact ⟨[], rfl, rfl⟩
  | cons line lines ih =>
    simp only [expandLines] at outcome
    split at outcome
    · rename_i text isDirective
      obtain ⟨changed, directed, outcome⟩ := bind_eq_ok.mp outcome
      obtain ⟨⟨others, _⟩, followed, same⟩ := bind_eq_ok.mp outcome
      cases same
      obtain ⟨pages, paged, written⟩ := ih followed
      refine ⟨⟨definitions, []⟩ :: pages, ?_, ?_⟩
      · simp only [ofLines, isDirective]
        refine bind_eq_ok.mpr ⟨changed, directed, ?_⟩
        exact bind_eq_ok.mpr ⟨pages, paged, rfl⟩
      · simp only [expanded, flatMap_cons] at written ⊢
        rw [written]
        rfl
    · rename_i isText
      obtain ⟨⟨others, _⟩, followed, same⟩ := bind_eq_ok.mp outcome
      cases same
      obtain ⟨pages, paged, written⟩ := ih followed
      refine ⟨⟨definitions, line⟩ :: pages, ?_, ?_⟩
      · simp only [ofLines, isText]
        exact bind_eq_ok.mpr ⟨pages, paged, rfl⟩
      · simp only [expanded, flatMap_cons] at written ⊢
        rw [written]

structure Orderly (page : Page) : Prop where
  oneLine : '\n' ∉ page.line
  definitions : page.definitions.Orderly

theorem text_cons (page : Page) (pages : List Page) :
    text (page :: pages) = page.line ++ '\n' :: text pages := by
  simp [text]

theorem expanded_cons (page : Page) (pages : List Page) : expanded (page :: pages) =
      expand page.definitions expansionDepth page.line ++ '\n' :: expanded pages := by
  simp [expanded]

theorem line_eq (split : text (page :: pages) = front ++ rest) (oneLine : '\n' ∉ front) :
    ∃ tail, page.line = front ++ tail ∧ rest = tail ++ '\n' :: text pages := by
  rw [text_cons] at split
  rcases append_eq_append_iff.mp split with ⟨tail, atFront, atBreak⟩ | ⟨tail, atLine, atRest⟩
  · cases tail with
    | nil => exact ⟨[], by simpa using atFront.symm, by simpa using atBreak.symm⟩
    | cons c tail =>
      obtain ⟨rfl, -⟩ := List.cons.inj atBreak
      exact absurd (atFront ▸ mem_append_right _ mem_cons_self) oneLine
  · exact ⟨tail, atLine, atRest⟩

theorem line_eq_break (split : text (page :: pages) = front ++ '\n' :: rest)
    (oneLine : '\n' ∉ front) (orderly : page.Orderly) : page.line = front ∧ rest = text pages := by
  obtain ⟨tail, atLine, atRest⟩ := line_eq split oneLine
  cases tail with
  | nil => exact ⟨by simpa using atLine, (List.cons.inj atRest).2⟩
  | cons c tail =>
    obtain ⟨rfl, -⟩ := List.cons.inj atRest
    exact absurd (atLine ▸ mem_append_right _ mem_cons_self) orderly.oneLine

/-- The pages from some place in a text on, given what stands before it and what replaces that. -/
structure Behind (pages : List Page) (front back : List Char) (written : List Char)
    (others : List Page) : Prop where
  text_eq : back = text others
  orderly : ∀ page ∈ others, page.Orderly
  scopes_eq : others.map Page.definitions =
    (pages.map Page.definitions).drop (front.count '\n')
  expanded_eq : expanded pages = written ++ expanded others

theorem behind_oneLine (split : text (page :: pages) = front ++ rest) (oneLine : '\n' ∉ front)
    (orderly : ∀ other ∈ page :: pages, other.Orderly)
    (goesOn : ∀ tail, '\n' ∉ tail → (tail = [] ∨ tail.head? = rest.head?) →
      expand page.definitions expansionDepth (front ++ tail) =
        written ++ expand page.definitions expansionDepth tail) :
    ∃ others, Behind (page :: pages) front rest written others := by
  obtain ⟨tail, atLine, atRest⟩ := line_eq split oneLine
  obtain ⟨here, later⟩ := forall_mem_cons.mp orderly
  have tailOneLine : '\n' ∉ tail := fun member =>
    here.oneLine (atLine ▸ mem_append_right _ member)
  have next : tail = [] ∨ tail.head? = rest.head? := by
    rw [atRest]
    cases tail with
    | nil => exact .inl rfl
    | cons c tail => exact .inr rfl
  refine ⟨⟨page.definitions, tail⟩ :: pages, ?_, ?_, ?_, ?_⟩
  · rw [text_cons, atRest]
  · exact forall_mem_cons.mpr ⟨⟨tailOneLine, here.definitions⟩, later⟩
  · rw [count_eq_zero_of_not_mem oneLine]
    rfl
  · rw [expanded_cons, expanded_cons, atLine, goesOn tail tailOneLine next, append_assoc]

theorem behind_comment (split : text pages = body ++ ['/'] ++ rest)
    (calm : Lexeme.Calm (lastLine (body ++ ['/'])) rest.head?)
    (orderly : ∀ page ∈ pages, page.Orderly) : ∃ others, Behind pages (body ++ ['/']) rest
      (expandText (pages.map Page.definitions) (body ++ ['/'])) others := by
  induction pages generalizing body with
  | nil => simp [text] at split
  | cons page pages ih =>
    obtain ⟨here, later⟩ := forall_mem_cons.mp orderly
    by_cases breaks : '\n' ∈ body
    · obtain ⟨front, back, rfl, oneLine⟩ := eq_append_cons_of_mem breaks
      simp only [append_assoc, cons_append] at split calm ⊢
      rw [lastLine_append] at calm
      obtain ⟨atLine, atRest⟩ := line_eq_break split oneLine here
      obtain ⟨others, behind⟩ := ih (by simpa using atRest.symm) calm later
      refine ⟨others, behind.text_eq, behind.orderly, ?_, ?_⟩
      · have counts : (front ++ '\n' :: (back ++ ['/'])).count '\n' =
            (back ++ ['/']).count '\n' + 1 := by
          rw [count_append, count_cons_self, count_eq_zero_of_not_mem oneLine,
            Nat.zero_add]
        rw [behind.scopes_eq, counts]
        rfl
      · rw [expanded_cons, behind.expanded_eq, map_cons, expandText_break oneLine, atLine]
        simp
    · have oneLine : '\n' ∉ body ++ ['/'] := by simp [breaks]
      refine behind_oneLine split oneLine orderly fun tail tailOneLine next => ?_
      rw [lastLine_of_oneLine oneLine] at calm
      rw [map_cons, expandText_oneLine oneLine]
      exact pass_calm calm next tailOneLine

theorem behind_break (split : text (page :: pages) = front ++ ['\n'] ++ rest)
    (oneLine : '\n' ∉ front) (orderly : ∀ other ∈ page :: pages, other.Orderly)
    (same : expand page.definitions expansionDepth front = front) :
    ∃ others, Behind (page :: pages) (front ++ ['\n']) rest (front ++ ['\n']) others := by
  rw [append_assoc, singleton_append] at split
  obtain ⟨here, later⟩ := forall_mem_cons.mp orderly
  obtain ⟨atLine, atRest⟩ := line_eq_break split oneLine here
  refine ⟨pages, atRest, later, ?_, ?_⟩
  · rw [count_append, count_eq_zero_of_not_mem oneLine]
    rfl
  · rw [expanded_cons, atLine, same]
    simp

theorem behind_lexeme {lexeme : Lexeme} (shape : lexeme.Shape rest)
    (split : text pages = lexeme.text ++ rest) (isRegular : lexeme.regular rest.head? = true)
    (orderly : ∀ page ∈ pages, page.Orderly)
    (expanded : lexeme.expandOn (pages.map Page.definitions) = some pieces) :
    ∃ others, Behind pages lexeme.text rest (pieces.flatMap Lexeme.text) others := by
  cases pages with
  | nil =>
    have empty : lexeme.text = [] := (append_eq_nil_iff.mp split.symm).1
    exact absurd empty shape.text_ne_nil
  | cons page pages =>
    by_cases breaks : '\n' ∈ lexeme.text
    · rcases shape.breaks breaks isRegular with rfl | ⟨line, oneLine, rfl⟩ | ⟨body, rfl⟩
      · cases expanded
        exact behind_break (show _ = [] ++ ['\n'] ++ rest from split) not_mem_nil orderly rfl
      · cases expanded
        rw [flatMap_singleton]
        exact behind_break split (by simp [oneLine]) orderly (pass_lineComment line)
      · cases expanded
        rw [flatMap_singleton]
        exact behind_comment split (calm_of_regular isRegular) orderly
    · refine behind_oneLine split breaks orderly fun tail oneLine next => ?_
      have definitionsOrderly := (orderly page mem_cons_self).definitions
      refine pass_shape shape next isRegular ?_ ?_ ?_
      · simp [breaks, oneLine]
      · intro word body parts groups found lexed grouped
        obtain ⟨bodyOneLine, bodyRegular⟩ := definitionsOrderly.lookup found
        exact expand_cover definitionsOrderly (cover_of_all? lexed) bodyOneLine
          (bodyRegular parts lexed) grouped
      · exact (expandOn_oneLine breaks).symm.trans expanded

theorem expanded_eq (covers : Lexeme.Cover lexemes (text pages))
    (isRegular : allRegular lexemes = true) (orderly : ∀ page ∈ pages, page.Orderly)
    (expands : expandAll? (pages.map Page.definitions) lexemes = some pieces) :
    expanded pages = pieces.flatMap Lexeme.text := by
  generalize whole : text pages = source at covers
  induction covers generalizing pages pieces with
  | nil =>
    cases pages with
    | nil =>
      cases expands
      rfl
    | cons page pages =>
      rw [text_cons] at whole
      simp at whole
  | @cons lexeme lexemes rest before covers ih =>
    simp only [allRegular, Bool.and_eq_true, covers.head?_eq] at isRegular
    simp only [expandAll?, Option.bind_eq_bind] at expands
    obtain ⟨first, expandsFirst, expands⟩ := Option.bind_eq_some_iff.mp expands
    obtain ⟨others, expandsOthers, same⟩ := Option.bind_eq_some_iff.mp expands
    cases same
    obtain ⟨later, behind⟩ := behind_lexeme before.shape whole isRegular.1 orderly expandsFirst
    rw [← behind.scopes_eq] at expandsOthers
    rw [behind.expanded_eq, flatMap_append,
      ih isRegular.2 behind.orderly expandsOthers behind.text_eq.symm]

theorem oneLine_of_ofLines (oneLine : ∀ line ∈ lines, '\n' ∉ line)
    (bodies : ∀ definition ∈ definitions, '\n' ∉ definition.2)
    (outcome : ofLines definitions number lines = .ok pages) :
    ∀ page ∈ pages, '\n' ∉ page.line ∧ ∀ definition ∈ page.definitions, '\n' ∉ definition.2 := by
  induction lines generalizing definitions number pages with
  | nil =>
    cases outcome
    exact fun page member => absurd member not_mem_nil
  | cons line lines ih =>
    obtain ⟨here, later⟩ := forall_mem_cons.mp oneLine
    simp only [ofLines] at outcome
    split at outcome
    · rename_i text isDirective
      obtain ⟨changed, directed, outcome⟩ := bind_eq_ok.mp outcome
      obtain ⟨others, followed, same⟩ := bind_eq_ok.mp outcome
      cases same
      have textOneLine : '\n' ∉ text := fun member => here (directive?_subset isDirective member)
      have behind := ih later (oneLine_of_directive textOneLine bodies directed) followed
      exact forall_mem_cons.mpr ⟨⟨not_mem_nil, bodies⟩, behind⟩
    · obtain ⟨others, followed, same⟩ := bind_eq_ok.mp outcome
      cases same
      exact forall_mem_cons.mpr ⟨⟨here, bodies⟩, ih later bodies followed⟩

theorem orderly_of_ofText (outcome : ofText source = .ok pages)
    (isRegular : ∀ page ∈ pages, page.definitions.regular = true) :
    ∀ page ∈ pages, page.Orderly := by
  have linesOneLine : ∀ line ∈ lines source.toList, '\n' ∉ line := fun line member =>
    oneLine_of_linesFrom not_mem_nil member
  have oneLine := oneLine_of_ofLines linesOneLine
    (fun definition member => absurd member not_mem_nil) outcome
  intro page member
  obtain ⟨lineOneLine, bodiesOneLine⟩ := oneLine page member
  refine ⟨lineOneLine, bodiesOneLine, fun definition defined parts lexed => ?_⟩
  have bodyRegular := all_eq_true.mp (isRegular page member) definition defined
  rw [lexed] at bodyRegular
  exact bodyRegular

theorem getLast?_text (pages : List Page) : ∀ c ∈ (text pages).getLast?, c = '\n' := by
  induction pages with
  | nil => exact fun c member => by cases member
  | cons page pages ih =>
    rw [text_cons]
    cases rest : text pages with
    | nil =>
      intro c member
      simp at member
      exact member.symm
    | cons d tail =>
      rw [rest] at ih
      simpa using ih

end Macro.Page

namespace Lexeme

theorem expandOn_of_endsLine {lexeme : Lexeme} (shape : lexeme.Shape rest)
    (isRegular : lexeme.regular rest.head? = true) (ends : lexeme.text.getLast? = some '\n')
    (scopes : List Definitions) : lexeme.expandOn scopes = some [lexeme] := by
  rcases shape.breaks (mem_of_getLast? ends) isRegular with
    rfl | ⟨line, -, rfl⟩ | ⟨body, rfl⟩
  · rfl
  · rfl
  · cases (List.getLast?_concat ..).symm.trans ends

theorem getLast?_expandAll? {text : List Char} (covers : Cover lexemes text)
    (isRegular : allRegular lexemes = true) (ends : ∀ c ∈ text.getLast?, c = '\n')
    (expands : expandAll? scopes lexemes = some pieces) : pieces.getLast? = lexemes.getLast? := by
  induction covers generalizing scopes pieces with
  | nil =>
    cases expands
    rfl
  | @cons lexeme lexemes rest before covers ih =>
    simp only [allRegular, Bool.and_eq_true, covers.head?_eq] at isRegular
    simp only [expandAll?, Option.bind_eq_bind] at expands
    obtain ⟨first, expandsFirst, expands⟩ := Option.bind_eq_some_iff.mp expands
    obtain ⟨others, expandsOthers, same⟩ := Option.bind_eq_some_iff.mp expands
    cases same
    cases lexemes with
    | nil =>
      cases covers
      cases expandsOthers
      have last := List.getLast?_eq_some_getLast before.shape.text_ne_nil
      rw [append_nil, last] at ends
      rw [ends _ rfl] at last
      rw [expandOn_of_endsLine before.shape isRegular.1 last] at expandsFirst
      cases expandsFirst
      rfl
    | cons next lexemes =>
      have nonempty : rest ≠ [] := by
        rw [covers.text_eq, flatMap_cons]
        exact append_ne_nil_of_left_ne_nil covers.text_ne_nil _
      rw [List.getLast?_append_of_ne_nil _ nonempty] at ends
      have last := ih isRegular.2 ends expandsOthers
      rw [List.getLast?_append, last, List.getLast?_cons_cons, List.getLast?_cons]
      rfl

end Lexeme

namespace Macro

/-- The lexemes of a source with its directive lines blank, and the pieces that replace them under
the definitions in force on their lines. -/
@[mk_iff]
structure Replaces (source : String) (pages : List Page) (lexemes pieces : List Lexeme) :
    Prop where
  paged : Page.ofText source = .ok pages
  lexed : ofText? (Page.text pages) = some lexemes
  isRegular : allRegular lexemes = true
  bodiesRegular : ∀ page ∈ pages, page.definitions.regular = true
  expands : expandAll? (pages.map Page.definitions) lexemes = some pieces

end Macro

/-- Expanding macros and then reading tokens is reading tokens and then replacing words, as long as
no two pieces paste that were not neighbours before. -/
theorem tokenize_preprocess {source : String} {output : Preprocessed} {pages : List Macro.Page}
    {lexemes pieces : List Lexeme} (processed : preprocess source = .ok output)
    (replaces : Macro.Replaces source pages lexemes pieces)
    (apart : ∀ pair ∈ Lexeme.neighbours pieces, pair ∉ Lexeme.neighbours lexemes →
      pair.1.pastes pair.2 = false) :
    (tokenize (String.ofList (Macro.Page.text pages))).map (List.map Token.kind) =
        .ok (lexemes.filterMap Lexeme.kind? ++ [.endOfFile]) ∧
      (tokenize output.source).map (List.map Token.kind) =
        .ok (pieces.filterMap Lexeme.kind? ++ [.endOfFile]) := by
  obtain ⟨paged, lexed, isRegular, bodiesRegular, expands⟩ := replaces
  obtain ⟨⟨out, final⟩, written, same⟩ := bind_eq_ok.mp processed
  cases same
  obtain ⟨found, pagedAgain, expanded⟩ := Macro.Page.ofLines_of_expandLines written
  cases paged.symm.trans pagedAgain
  have orderly := Macro.Page.orderly_of_ofText paged bodiesRegular
  have covers := Lexeme.cover_of_all? lexed
  have pieced := Macro.Page.expanded_eq covers isRegular orderly expands
  have last := Lexeme.getLast?_expandAll? covers isRegular (Macro.Page.getLast?_text pages) expands
  have covered : Lexeme.Cover pieces (pieces.flatMap Lexeme.text) := by
    refine Lexeme.cover_of_apart (fun pair member => ?_) ?_
    · by_cases before : pair ∈ Lexeme.neighbours lexemes
      · exact covers.apart pair before
      · exact apart pair member before
    · rw [last]
      exact covers.last
  refine ⟨covers.tokenize, ?_⟩
  rw [← expanded, pieced]
  exact covered.tokenize

/-! Two sources. -/

namespace Macro

def pagesOf (source : String) : List Page := (Page.ofText source).toOption.getD []

def lexemesOf (source : String) : List Lexeme :=
  (ofText? (Page.text (pagesOf source))).getD []

def piecesOf (source : String) : List Lexeme :=
  (expandAll? ((pagesOf source).map Page.definitions) (lexemesOf source)).getD []

end Macro

theorem exists_of_isSome {ε α : Type} {res : Except ε α}
    (succeeds : res.toOption.isSome = true) : ∃ value, res = .ok value := by
  cases res with
  | error fault => cases succeeds
  | ok value => exact ⟨value, rfl⟩

/-- Definitions that use one another and end, and their names in comments and literals. -/
def pinned : String :=
  "#define PIN 13\n#define UP (PIN+1)\n/* isn't\n UP */ a = -UP; // PIN\n#undef PIN\n" ++
    "f(\"PIN\", PIN);\n"

theorem pinned_substitutes :
    Macro.Replaces pinned (Macro.pagesOf pinned) (Macro.lexemesOf pinned) (Macro.piecesOf pinned) ∧
      ∃ output, preprocess pinned = .ok output ∧
        (tokenize output.source).map (List.map Token.kind) =
          .ok [.name "a", .symbol .assign, .symbol .minus, .symbol .leftParen, .int 13 false,
            .symbol .plus, .int 1 false, .symbol .rightParen, .symbol .semicolon, .name "f",
            .symbol .leftParen, .text "PIN", .symbol .comma, .name "PIN", .symbol .rightParen,
            .symbol .semicolon, .endOfFile] := by
  have replaces : Macro.Replaces pinned (Macro.pagesOf pinned) (Macro.lexemesOf pinned)
      (Macro.piecesOf pinned) := by
    rw [Macro.replaces_iff]
    decide +kernel
  obtain ⟨output, processed⟩ := exists_of_isSome
    (show (preprocess pinned).toOption.isSome = true by decide +kernel)
  refine ⟨replaces, output, processed, ?_⟩
  rw [(tokenize_preprocess processed replaces (by decide +kernel)).2]
  decide +kernel

/-- A minus in front of a word whose body begins with a minus. -/
def decremented : String :=
  "#define STEP -1\nvoid setup() \x7b\n  Serial.print(5 -STEP);\n\x7d\n"

theorem decremented_pastes :
    ∃ output pages lexemes pieces, preprocess decremented = .ok output ∧
      Macro.Replaces decremented pages lexemes pieces ∧
      (tokenize output.source).map (List.map Token.kind) ≠
        .ok (pieces.filterMap Lexeme.kind? ++ [.endOfFile]) := by
  have replaces : Macro.Replaces decremented (Macro.pagesOf decremented)
      (Macro.lexemesOf decremented) (Macro.piecesOf decremented) := by
    rw [Macro.replaces_iff]
    decide +kernel
  have differs : ((preprocess decremented).toOption.map fun output =>
      (tokenize output.source).map (List.map Token.kind)) ≠
        some (.ok ((Macro.piecesOf decremented).filterMap Lexeme.kind? ++ [.endOfFile])) := by
    decide +kernel
  obtain ⟨output, processed⟩ := exists_of_isSome
    (show (preprocess decremented).toOption.isSome = true by decide +kernel)
  rw [processed] at differs
  exact ⟨output, _, _, _, processed, replaces, fun same => differs (congrArg some same)⟩

end Breadboard
