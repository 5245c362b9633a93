import Breadboard.Proofs.Sketch.Lexeme

/-!
Texts that are read as one token. Whatever the lexer reads is covered by lexemes, and those that
are no tokens are blanks, or comments and directives, which show by their mark. So a text with one
token is, up to blanks at its ends, the lexeme of that token, or it contains such a mark.
-/

open List

namespace Breadboard

open Text

namespace Text

/-! Trimming. -/

variable {drop : Char → Bool} {text front back : List Char} {c : Char}

theorem mem_dropWhile (kept : drop c = false) (member : c ∈ text) : c ∈ text.dropWhile drop := by
  rw [← takeWhile_append_dropWhile (p := drop) (l := text)] at member
  rcases mem_append.mp member with dropped | remains
  · have satisfied := mem_takeWhile_imp dropped
    rw [kept] at satisfied
    cases satisfied
  · exact remains

theorem mem_dropEndWhile (kept : drop c = false) (member : c ∈ text) : c ∈ dropEndWhile drop text :=
  mem_reverse.mpr (mem_dropWhile kept (mem_reverse.mpr member))

theorem mem_trim (visible : isBlank c = false) (member : c ∈ text) : c ∈ trim text :=
  mem_dropEndWhile visible (mem_dropWhile visible member)

/-- A run at the end is dropped as far as the last character that stays. -/
theorem dropEndWhile_append (dropped : ∀ c ∈ back, drop c = true)
    (ends : ∀ c ∈ front.getLast?, drop c = false) : dropEndWhile drop (front ++ back) = front := by
  rw [dropEndWhile, reverse_append, dropWhile_run, reverse_reverse]
  · intro c member
    exact dropped c (mem_reverse.mp member)
  · intro c last
    rw [List.head?_reverse] at last
    exact ends c last

theorem dropEndWhile_cons (kept : drop c = false) (text : List Char) :
    ∃ tail, dropEndWhile drop (c :: text) = c :: tail := by
  rw [dropEndWhile, reverse_cons, dropWhile_append]
  split
  · rw [dropWhile_cons_of_neg (by simp [kept])]
    exact ⟨[], rfl⟩
  · rw [reverse_append]
    exact ⟨_, rfl⟩

theorem trim_blanks (blanks : ∀ b ∈ front, isBlank b = true) (visible : isBlank c = false)
    (text : List Char) : ∃ tail, trim (front ++ c :: text) = c :: tail := by
  have starts : trimStart (front ++ c :: text) = c :: text := by
    refine dropWhile_run blanks fun d first => ?_
    cases first
    exact visible
  rw [trim, starts]
  exact dropEndWhile_cons visible text

theorem trim_between (inFront : ∀ b ∈ front, isBlank b = true)
    (inBack : ∀ b ∈ back, isBlank b = true)
    (starts : ∀ c ∈ text.head?, isBlank c = false) (ends : ∀ c ∈ text.getLast?, isBlank c = false)
    (nonempty : text ≠ []) : trim (front ++ (text ++ back)) = text := by
  obtain ⟨c, tail, rfl⟩ := exists_cons_of_ne_nil nonempty
  have kept : trimStart (front ++ (c :: tail ++ back)) = c :: tail ++ back :=
    dropWhile_run inFront fun d first => starts d first
  rw [trim, kept]
  exact dropEndWhile_append inBack ends

end Text

namespace Lexeme

variable {text front taken : List Char} {lexemes : List Lexeme} {kind : TokenKind}

/-- A text without tokens: blanks alone, or blanks and then a comment or a directive. -/
inductive Silent : List Char → Prop where
  | blank {text : List Char} (blanks : ∀ c ∈ text, isBlank c = true) : Silent text
  | marked {blanks rest c} (areBlanks : ∀ b ∈ blanks, isBlank b = true)
      (isMark : c = '/' ∨ c = '#') : Silent (blanks ++ c :: rest)

theorem Silent.append {next} {lexeme : Lexeme} (silent : Silent text)
    (shape : lexeme.Shape next) (untold : lexeme.kind? = none) : Silent (lexeme.text ++ text) := by
  have noBlanks : ∀ b ∈ ([] : List Char), isBlank b = true := fun b member =>
    absurd member not_mem_nil
  cases shape with
  | @blank c _ isBlank =>
    cases silent with
    | blank blanks =>
      exact .blank fun b member => (mem_cons.mp member).elim (· ▸ isBlank) (blanks b)
    | @marked blanks rest d areBlanks isMark =>
      change Silent ((c :: blanks) ++ d :: rest)
      refine .marked (fun b member => ?_) isMark
      exact (mem_cons.mp member).elim (· ▸ isBlank) (areBlanks b)
  | directive => exact .marked noBlanks (.inr rfl)
  | lineComment _ _ | blockComment => exact .marked noBlanks (.inl rfl)
  | _ => cases untold

/-- Every step takes a lexeme, and so moves forward. -/
theorem before_of_step (stepped : Cursor.step c rest loc = .ok (token?, left)) :
    ∃ taken, c :: rest = taken ++ left.rest ∧ Before ⟨taken, token?.map Token.kind⟩ left.rest ∧
      left.rest.length ≤ rest.length := by
  have scanned : Cursor.scan ⟨c :: rest, loc⟩ = .ok (token?.map Token.kind, left) :=
    bind_eq_ok.mpr ⟨_, stepped, rfl⟩
  obtain ⟨taken, split, again⟩ := Cursor.settles_scan.again loc scanned
  -- The step depends on no position, so the lexeme is taken before this rest wherever it stands.
  have before : Before ⟨taken, token?.map Token.kind⟩ left.rest :=
    ⟨fun loc => again left.rest rfl Location.start loc⟩
  have consumed := length_pos_of_ne_nil before.shape.text_ne_nil
  refine ⟨taken, split, before, ?_⟩
  have lengths := congrArg List.length split
  simp only [length_cons, length_append] at lengths consumed
  omega

theorem cover_of_tokens (enough : cursor.rest.length ≤ fuel)
    (out : Cursor.tokens fuel cursor = .ok tokens) : ∃ lexemes, Cover lexemes cursor.rest ∧
      tokens.map Token.kind = lexemes.filterMap Lexeme.kind? ++ [.endOfFile] := by
  induction fuel generalizing cursor tokens with
  | zero =>
    cases out
    rw [length_eq_zero_iff.mp (Nat.le_zero.mp enough)]
    exact ⟨[], .nil, rfl⟩
  | succ fuel ih =>
    obtain ⟨_ | ⟨c, rest⟩, loc⟩ := cursor
    · cases out
      exact ⟨[], .nil, rfl⟩
    obtain ⟨⟨token?, next⟩, stepped, out⟩ := bind_eq_ok.mp out
    obtain ⟨following, followed, same⟩ := bind_eq_ok.mp out
    cases same
    obtain ⟨taken, split, before, shorter⟩ := before_of_step stepped
    obtain ⟨lexemes, covers, kinds⟩ := ih (shorter.trans (Nat.le_of_succ_le_succ enough)) followed
    refine ⟨⟨taken, token?.map Token.kind⟩ :: lexemes, ?_, ?_⟩
    · rw [split]
      exact .cons before covers
    · rw [map_append, kinds, filterMap_cons]
      cases token? <;> rfl

theorem Cover.silent (covers : Cover lexemes text)
    (untold : lexemes.filterMap Lexeme.kind? = []) : Silent text := by
  induction covers with
  | nil => exact .blank fun c member => absurd member not_mem_nil
  | cons before _ ih =>
    rw [filterMap_eq_nil_iff] at untold
    have later := filterMap_eq_nil_iff.mpr fun other member =>
      untold other (mem_cons_of_mem _ member)
    exact (ih later).append before.shape (untold _ mem_cons_self)

theorem Cover.single (covers : Cover lexemes text)
    (told : lexemes.filterMap Lexeme.kind? = [kind]) :
    ∃ front taken back, text = front ++ (taken ++ back) ∧ Silent front ∧ Silent back ∧
      Before ⟨taken, some kind⟩ back := by
  induction covers with
  | nil => cases told
  | @cons lexeme lexemes rest before covers ih =>
    obtain ⟨taken, _ | found⟩ := lexeme
    · obtain ⟨front, literal, back, rfl, inFront, inBack, standing⟩ := ih told
      refine ⟨taken ++ front, literal, back, ?_, inFront.append before.shape rfl, inBack, standing⟩
      rw [append_assoc]
    · obtain ⟨rfl, later⟩ := List.cons.inj told
      have nothing : Silent [] := .blank fun c member => absurd member not_mem_nil
      exact ⟨[], taken, rest, rfl, nothing, covers.silent later, before⟩

theorem single_of_tokenize
    (read : (tokenize (String.ofList text)).map (List.map Token.kind) = .ok [kind, .endOfFile]) :
    ∃ front taken back, text = front ++ (taken ++ back) ∧ Silent front ∧ Silent back ∧
      Before ⟨taken, some kind⟩ back := by
  cases tokenized : tokenize (String.ofList text) with rw [tokenized] at read
  | error fault => cases read
  | ok tokens =>
    rw [tokenize, String.toList_ofList] at tokenized
    have enough : (Cursor.ofText text).rest.length ≤ text.length := le_rfl
    obtain ⟨lexemes, covers, kinds⟩ := cover_of_tokens enough tokenized
    rw [Except.ok.inj read] at kinds
    refine covers.single ?_
    exact append_cancel_right kinds.symm

/-- A trimmed text of one token begins with the token or with the mark of a comment or directive. -/
theorem trim_head (inFront : Silent front) (starts : taken.head? = some c)
    (visible : isBlank c = false) (back : List Char) :
    ∃ d tail, trim (front ++ (taken ++ back)) = d :: tail ∧ (d = c ∨ d = '/' ∨ d = '#') := by
  obtain ⟨rest, rfl⟩ := List.head?_eq_some_iff.mp starts
  cases inFront with
  | blank blanks =>
    obtain ⟨tail, trimmed⟩ := trim_blanks blanks visible (rest ++ back)
    exact ⟨c, tail, trimmed, .inl rfl⟩
  | @marked blanks more d areBlanks isMark =>
    have markVisible : isBlank d = false := by
      rcases isMark with rfl | rfl <;> decide
    obtain ⟨tail, trimmed⟩ := trim_blanks areBlanks markVisible (more ++ (c :: rest ++ back))
    refine ⟨d, tail, ?_, .inr isMark⟩
    rw [← trimmed]
    simp

/-- A trimmed text of one token is the token, or it contains the mark of a comment or directive. -/
theorem trim_eq_or_mark (inFront : Silent front) (inBack : Silent back)
    (nonempty : taken ≠ []) (visible : ∀ c ∈ taken, isBlank c = false) :
    trim (front ++ (taken ++ back)) = taken ∨
      ∃ c ∈ trim (front ++ (taken ++ back)), c = '/' ∨ c = '#' := by
  -- A mark on either side is not blank and stays.
  have marked : ∀ c, c = '/' ∨ c = '#' → c ∈ front ++ (taken ++ back) →
      ∃ c ∈ trim (front ++ (taken ++ back)), c = '/' ∨ c = '#' := by
    intro c isMark member
    refine ⟨c, mem_trim ?_ member, isMark⟩
    rcases isMark with rfl | rfl <;> decide
  cases inFront with
  | marked _ isMark => exact .inr (marked _ isMark (by simp))
  | blank frontBlank =>
    cases inBack with
    | marked _ isMark => exact .inr (marked _ isMark (by simp))
    | blank backBlank =>
      refine .inl (trim_between frontBlank backBlank ?_ ?_ nonempty)
      · exact fun c first => visible c (mem_of_mem_head? first)
      · exact fun c last => visible c (mem_of_getLast? last)

end Lexeme

end Breadboard
