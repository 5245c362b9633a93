import Breadboard.Proofs.Sketch.Single

/-!
Integer literals as the lexer reads them and as the macro table does. Both take a mark for the
radix and marks at the end, but only the lexer takes a leading zero for an octal numeral, so they
give the same number unless an octal numeral has a value of eight or more.
-/

open List

namespace Breadboard

open Cursor Decimal Text

variable {value : Int64}

namespace Text

variable {radix larger value : Nat} {c : Char} {text : List Char} {n : Int64} {final ahead : Nat}

/-! Digits. -/

theorem digitValue?_larger (smaller : radix < larger)
    (isDigit : digitValue? radix c = some digit) : digitValue? larger c = some digit := by
  simp only [digitValue?, Option.filter_eq_some_iff, decide_eq_true_eq] at isDigit ⊢
  exact ⟨isDigit.1, isDigit.2.trans smaller⟩

theorem isSome_digitValue?_of_natural? (read : natural? radix value text = some final) :
    ∀ c ∈ text, (digitValue? radix c).isSome = true := by
  induction text generalizing value with
  | nil => exact fun c member => absurd member not_mem_nil
  | cons c rest ih =>
    simp only [natural?] at read
    split at read
    · rename_i digit isDigit
      intro d member
      rcases mem_cons.mp member with rfl | later
      · rw [isDigit]
        rfl
      · exact ih read d later
    · cases read

/-- Two readings of the same digits, in a radix and in a larger one: while they are below the radix
they are the same, and from there on the one in the larger radix is ahead. -/
def KeepsAhead (radix value ahead : Nat) : Prop :=
  value = ahead ∧ value < radix ∨ value < ahead ∧ radix ≤ value

theorem KeepsAhead.digit {digit : Nat} (smaller : radix < larger) (within : digit < radix)
    (keeps : KeepsAhead radix value ahead) :
    KeepsAhead radix (radix * value + digit) (larger * ahead + digit) := by
  rcases keeps with ⟨rfl, -⟩ | ⟨less, beyond⟩
  · rcases Nat.eq_zero_or_pos value with rfl | positive
    · exact .inl ⟨by simp, by simpa using within⟩
    · have ahead : radix * value < larger * value := Nat.mul_lt_mul_of_pos_right smaller positive
      have beyond : radix * 1 ≤ radix * value := Nat.mul_le_mul_left radix positive
      exact .inr ⟨by omega, by omega⟩
  · have ahead : radix * value < larger * ahead := Nat.mul_lt_mul'' smaller less
    have beyond : radix * 1 ≤ radix * value := Nat.mul_le_mul_left radix (by omega)
    exact .inr ⟨by omega, by omega⟩

theorem KeepsAhead.natural? (smaller : radix < larger) (keeps : KeepsAhead radix value ahead)
    (read : natural? radix value text = some final) :
    ∃ other, natural? larger ahead text = some other ∧ KeepsAhead radix final other := by
  induction text generalizing value ahead with
  | nil =>
    cases read
    exact ⟨ahead, rfl, keeps⟩
  | cons c rest ih =>
    simp only [natural?] at read ⊢
    split at read
    · rename_i digit isDigit
      rw [digitValue?_larger smaller isDigit]
      have within : digit < radix := by
        simp only [digitValue?, Option.filter_eq_some_iff, decide_eq_true_eq] at isDigit
        exact isDigit.2
      exact ih (keeps.digit smaller within) read
    · cases read

/-! Numerals within the 64 bit range. -/

theorem readInt64?_eq_some_iff (unsigned : ∀ c ∈ text, Macro.isNumberPart c = true) :
    readInt64? radix text = some n ↔ ∃ m : Nat, readNatural? radix text = some m ∧ n.toInt = m := by
  have signless : ∀ sign rest, text = sign :: rest → Macro.isNumberPart sign = true := by
    rintro sign rest rfl
    exact unsigned sign mem_cons_self
  rw [readInt64?]
  · simp only [Option.bind_eq_bind, Option.pure_def, Option.map_id', Option.bind_eq_some_iff,
      Option.some.injEq]
    constructor
    · rintro ⟨_, ⟨m, read, rfl⟩, within⟩
      split at within <;> cases within
      rename_i bounds
      have below : (m : Int) < 2 ^ 63 := Int.lt_of_le_of_lt bounds.2 (by decide)
      exact ⟨m, read, Int64.toInt_ofInt_of_le bounds.1 below⟩
    · rintro ⟨m, read, same⟩
      refine ⟨m, ⟨m, read, rfl⟩, ?_⟩
      rw [← same, if_pos ⟨n.minValue_le_toInt, n.toInt_le⟩, Int64.ofInt_toInt]
  · intro rest split
    cases signless '-' rest split
  · intro rest split
    cases signless '+' rest split

theorem isNumberPart_of_readNatural? (read : readNatural? radix text = some m) :
    ∀ c ∈ text, Macro.isNumberPart c = true := by
  rw [readNatural?] at read
  split at read
  · cases read
  · intro c member
    exact isNumberPart_of_digitValue? (isSome_digitValue?_of_natural? read c member)

theorem mem_of_readInt64? (read : readInt64? radix text = some n) :
    ∀ c ∈ text, Macro.isNumberPart c = true ∨ c = '-' ∨ c = '+' := by
  have signed : ∀ {sign : Char} {rest : List Char} {m : Nat}, sign = '-' ∨ sign = '+' →
      readNatural? radix rest = some m →
      ∀ c ∈ sign :: rest, Macro.isNumberPart c = true ∨ c = '-' ∨ c = '+' := by
    intro sign rest m isSign natural c member
    rcases mem_cons.mp member with rfl | later
    · exact .inr isSign
    · exact .inl (isNumberPart_of_readNatural? natural c later)
  obtain ⟨value, found, -⟩ := Option.bind_eq_some_iff.mp read
  split at found <;> obtain ⟨_, lifted, -⟩ := Option.map_eq_some_iff.mp found <;>
    obtain ⟨m, natural, -⟩ := Option.bind_eq_some_iff.mp lifted
  · exact signed (.inl rfl) natural
  · exact signed (.inr rfl) natural
  · intro c member
    exact .inl (isNumberPart_of_readNatural? natural c member)

end Text

namespace RadixMark

variable {mark : Char} {radix : Nat}

theorem integer? (isMark : RadixMark mark radix) (digits : List Char) :
    Macro.integer? ('0' :: mark :: digits) = readInt64? radix digits := by
  rcases isMark with (rfl | rfl) | (rfl | rfl) <;> rfl

end RadixMark

namespace Numeral

variable {value : Int64} {text : List Char} {digits : List Char} {c : Char}

/-- Whether a numeral has a leading zero with more digits behind it. -/
def isOctal : List Char → Bool
  | '0' :: c :: _ => isDigit c
  | _ => false

theorem isDigit_eq_false_of_mark (isMark : isIntegerMark c = true) : isDigit c = false := by
  simp only [isIntegerMark, Bool.or_eq_true, beq_iff_eq] at isMark
  rcases isMark with ((rfl | rfl) | rfl) | rfl <;> decide

theorem isIntegerMark_eq_false
    (isDigit : (digitValue? radix c).isSome = true) : isIntegerMark c = false := by
  by_contra isMark
  simp only [Bool.not_eq_false, isIntegerMark, Bool.or_eq_true, beq_iff_eq] at isMark
  rcases isMark with ((rfl | rfl) | rfl) | rfl <;> cases isDigit

theorem isOctal_iff : isOctal text = true ↔
    ∃ c rest, text = '0' :: c :: rest ∧ isDigit c = true := by
  constructor
  · intro octal
    unfold isOctal at octal
    split at octal
    · exact ⟨_, _, rfl, octal⟩
    · cases octal
  · rintro ⟨c, rest, rfl, isDigit⟩
    exact isDigit

/-- Digits without a mark are octal behind a leading zero, and otherwise decimal. -/
theorem integerValue?_cases (areDigits : ∀ c ∈ digits, isDigit c = true)
    (read : integerValue? digits = some value) (areMarks : ∀ c ∈ marks, isIntegerMark c = true) :
    (∃ rest, digits = '0' :: rest ∧ isOctal (digits ++ marks) = true ∧
      readInt64? 8 rest = some value) ∨
    isOctal (digits ++ marks) = false ∧ readInt64? 10 digits = some value := by
  have nonempty := digits_ne_nil read
  simp only [integerValue?] at read
  split at read
  · rename_i c rest
    refine .inl ⟨c :: rest, rfl, ?_, read⟩
    exact areDigits c (mem_cons_of_mem _ mem_cons_self)
  · rename_i short
    refine .inr ⟨?_, read⟩
    rw [← Bool.not_eq_true, isOctal_iff]
    rintro ⟨c, rest, split, isDigit⟩
    obtain ⟨first, others, rfl⟩ := exists_cons_of_ne_nil nonempty
    obtain ⟨rfl, behind⟩ := List.cons.inj split
    cases others with
    | nil =>
      have isMark := areMarks c (by rw [show marks = c :: rest from behind]; simp)
      rw [isDigit_eq_false_of_mark isMark] at isDigit
      cases isDigit
    | cons d others => exact short d others rfl

theorem readInt64?_leadingZero {rest : List Char} (areDigits : ∀ c ∈ rest, isDigit c = true)
    (read : readInt64? 8 rest = some value) :
    readInt64? 10 ('0' :: rest) = some value ↔ value < 8 := by
  have parts : ∀ c ∈ rest, Macro.isNumberPart c = true := fun c member =>
    isNumberPart_of_isDigit (areDigits c member)
  have zeroParts : ∀ c ∈ '0' :: rest, Macro.isNumberPart c = true := fun c member =>
    (mem_cons.mp member).elim (· ▸ by decide) (parts c)
  obtain ⟨m, natural, isValue⟩ := (readInt64?_eq_some_iff parts).mp read
  rw [readInt64?_eq_some_iff zeroParts]
  have octal : natural? 8 0 rest = some m := by
    rw [readNatural?] at natural
    split at natural
    · cases natural
    · exact natural
  have start : Text.KeepsAhead 8 0 0 := .inl ⟨rfl, by decide⟩
  obtain ⟨d, decimal, keeps⟩ := start.natural? (by decide : 8 < 10) octal
  -- In decimal the leading zero adds nothing.
  have natural : readNatural? 10 ('0' :: rest) = some d := decimal
  have below : value < 8 ↔ m < 8 := by
    rw [Int64.lt_iff_toInt_lt, isValue]
    exact Int.ofNat_lt
  rw [natural, below, isValue]
  constructor
  · rintro ⟨_, ⟨⟩, same⟩
    rcases keeps with ⟨-, below⟩ | ⟨less, -⟩
    · exact below
    · omega
  · intro below
    rcases keeps with ⟨rfl, -⟩ | ⟨-, beyond⟩
    · exact ⟨m, rfl, rfl⟩
    · omega

/-- The table reads a numeral as the lexer does, unless it is octal and has a value of eight or
more. -/
theorem integer?_eq_some_iff (numeral : Numeral value text) :
    Macro.integer? (dropEndWhile isIntegerMark text) = some value ↔
      (isOctal text = true → value < 8) := by
  cases numeral with
  | @marked mark radix digits marks isMark areDigits read areMarks =>
    have ends : dropEndWhile isIntegerMark ('0' :: mark :: digits ++ marks) =
        '0' :: mark :: digits := by
      refine dropEndWhile_append areMarks fun c last => ?_
      rcases mem_cons.mp (mem_of_getLast? last) with rfl | later
      · decide
      rcases mem_cons.mp later with rfl | inDigits
      · exact isMark.plain.2.2
      · exact isIntegerMark_eq_false (areDigits c inDigits)
    have notOctal : isOctal ('0' :: mark :: digits ++ marks) = false := isMark.plain.2.1
    rw [ends, isMark.integer?, read, notOctal]
    simp
  | @decimal digits marks areDigits read areMarks =>
    have ends : dropEndWhile isIntegerMark (digits ++ marks) = digits := by
      refine dropEndWhile_append areMarks fun c last => ?_
      by_contra isMark
      have isDigit := areDigits c (mem_of_getLast? last)
      rw [isDigit_eq_false_of_mark (by simpa using isMark)] at isDigit
      cases isDigit
    have unmarked : Macro.integer? digits = readInt64? 10 digits := by
      rw [Macro.integer?]
      all_goals rintro rest rfl
      all_goals cases areDigits _ (mem_cons_of_mem _ mem_cons_self)
    rw [ends, unmarked]
    rcases integerValue?_cases areDigits read areMarks with
      ⟨rest, rfl, octal, inOctal⟩ | ⟨notOctal, decimal⟩
    · have behind : ∀ c ∈ rest, isDigit c = true := fun c member =>
        areDigits c (mem_cons_of_mem _ member)
      rw [octal, readInt64?_leadingZero behind inOctal]
      simp
    · rw [notOctal, decimal]
      simp

theorem nonnegative (numeral : Numeral value text) : 0 ≤ value := by
  have natural : ∀ {radix : Nat} {digits : List Char}, (∀ c ∈ digits, Macro.isNumberPart c = true) →
      readInt64? radix digits = some value → 0 ≤ value := by
    intro radix digits parts read
    obtain ⟨m, -, isValue⟩ := (readInt64?_eq_some_iff parts).mp read
    rw [Int64.le_iff_toInt_le, isValue]
    exact Int.natCast_nonneg m
  cases numeral with
  | marked _ areDigits read _ =>
    exact natural (fun c member => isNumberPart_of_digitValue? (areDigits c member)) read
  | decimal areDigits read areMarks =>
    have parts := fun c member => isNumberPart_of_isDigit (areDigits c member)
    rcases integerValue?_cases areDigits read areMarks with ⟨rest, rfl, -, octal⟩ | ⟨-, decimal⟩
    · exact natural (fun c member => parts c (mem_cons_of_mem _ member)) octal
    · exact natural parts decimal

end Numeral

/-- A text that the table reads as an integer has no other characters in it. -/
theorem Macro.mem_of_integer? {digits : List Char} (read : integer? digits = some value) :
    ∀ c ∈ digits, isNumberPart c = true ∨ c = '-' ∨ c = '+' := by
  have behind : ∀ {radix : Nat} {mark : Char} {rest : List Char}, isNumberPart mark = true →
      readInt64? radix rest = some value →
      ∀ c ∈ '0' :: mark :: rest, isNumberPart c = true ∨ c = '-' ∨ c = '+' := by
    intro radix mark rest isPart read c member
    rcases mem_cons.mp member with rfl | member
    · exact .inl (by decide)
    rcases mem_cons.mp member with rfl | member
    · exact .inl isPart
    · exact mem_of_readInt64? read c member
  unfold integer? at read
  split at read
  · exact behind (by decide) read
  · exact behind (by decide) read
  · exact behind (by decide) read
  · exact behind (by decide) read
  · exact mem_of_readInt64? read

end Breadboard
