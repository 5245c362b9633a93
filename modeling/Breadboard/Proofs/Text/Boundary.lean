import Breadboard.Proofs.Text.Utf8

/-!
The places between the characters of a text. The form of a character is a byte that begins it and
bytes that continue it, so a byte has such places on both sides just if it is an ASCII character.
One ASCII character can then be replaced by another: the text keeps its length and its other bytes.
-/

open List

namespace Breadboard.Text

variable {pos : Nat} {byte : UInt8} {chars : List Char}

/-- A byte that begins a character and bytes that continue it. Only an ASCII character is a byte of
its own. -/
structure IsForm (lead : UInt8) (tail : Bytes) : Prop where
  begins : isContinuation lead = false
  continues : ∀ byte ∈ tail, isContinuation byte = true
  alone : lead < 0x80 ↔ tail = []

theorem isForm_ascii (plain : n ≤ 0x7F) : IsForm (UInt8.ofNat n) [] := by
  have value := toNat_ofNat_of_lt (n := n) (by omega)
  have ascii : UInt8.ofNat n < 0x80 := by
    rw [UInt8.lt_iff_toNat_lt, value]
    exact Nat.lt_succ_of_le plain
  refine ⟨?_, by simp, fun _ => rfl, fun _ => ascii⟩
  rw [isContinuation, Bool.and_eq_false_iff]
  exact .inl (decide_eq_false (UInt8.not_le.mpr ascii))

theorem isForm_lead {tail : Bytes} (small : n < 256) (large : 0xC0 ≤ n)
    (continues : ∀ byte ∈ second :: tail, isContinuation byte = true) :
    IsForm (UInt8.ofNat n) (second :: tail) := by
  have value := toNat_ofNat_of_lt small
  refine ⟨?_, continues, ?_, nofun⟩
  · rw [isContinuation, Bool.and_eq_false_iff]
    refine .inr (decide_eq_false ?_)
    rw [UInt8.le_iff_toNat_le, value]
    change ¬ n ≤ 191
    omega
  · intro ascii
    rw [UInt8.lt_iff_toNat_lt, value] at ascii
    exact absurd ascii (Nat.not_lt_of_le (Nat.le_trans (by decide) large))

theorem utf8EncodeChar_isForm (c : Char) :
    ∃ lead tail, String.utf8EncodeChar c = lead :: tail ∧ IsForm lead tail := by
  have rule (n : Nat) {tail : Bytes} (rest : ∀ byte ∈ tail, isContinuation byte = true) :
      ∀ byte ∈ UInt8.ofNat (n % 64 + 128) :: tail, isContinuation byte = true :=
    forall_mem_cons.mpr ⟨isContinuation_ofNat n, rest⟩
  unfold String.utf8EncodeChar
  dsimp only
  split
  · exact ⟨_, _, rfl, isForm_ascii ‹_›⟩
  split
  · exact ⟨_, _, rfl, isForm_lead (by omega) (by omega) (rule _ nofun)⟩
  split
  · exact ⟨_, _, rfl, isForm_lead (by omega) (by omega) (rule _ (rule _ nofun))⟩
  · exact ⟨_, _, rfl, isForm_lead (by omega) (by omega) (rule _ (rule _ (rule _ nofun)))⟩

theorem utf8EncodeChar_ofNat (ascii : byte < 0x80) :
    String.utf8EncodeChar (Char.ofNat byte.toNat) = [byte] := by
  rw [UInt8.lt_iff_toNat_lt] at ascii
  change byte.toNat < 128 at ascii
  have valid : byte.toNat.isValidChar := .inl (by omega)
  have value : (Char.ofNat byte.toNat).val.toNat = byte.toNat := by
    rw [Char.ofNat, dif_pos valid]
    rfl
  simp [String.utf8EncodeChar, value, show byte.toNat ≤ 127 by omega]

theorem isBoundary_append (front rest : Bytes) (pos : Nat) :
    isBoundary (front ++ rest) (front.length + pos) = isBoundary rest pos := by
  rw [isBoundary, isBoundary, List.getElem?_append_right (Nat.le_add_right ..),
    Nat.add_sub_cancel_left, length_append, beq_eq_beq.mpr Nat.add_left_cancel_iff]

/-- There is no place between characters inside the form of one. -/
theorem IsForm.isBoundary {tail rest : Bytes} (form : IsForm lead tail)
    (inside : pos < tail.length) : isBoundary (lead :: tail ++ rest) (pos + 1) = false := by
  have continues := form.continues _ (getElem_mem inside)
  rw [Text.isBoundary, cons_append, List.getElem?_cons_succ,
    List.getElem?_append_left inside, List.getElem?_eq_getElem inside]
  exact congrArg not continues

theorem exists_front_of_isBoundary (inside : pos < (chars.flatMap String.utf8EncodeChar).length)
    (boundary : isBoundary (chars.flatMap String.utf8EncodeChar) pos = true) :
    ∃ front c back, chars = front ++ c :: back ∧
      (front.flatMap String.utf8EncodeChar).length = pos := by
  induction chars generalizing pos with
  | nil => cases inside
  | cons first chars ih =>
    obtain ⟨lead, tail, encoded, form⟩ := utf8EncodeChar_isForm first
    rw [flatMap_cons, encoded] at inside boundary
    cases pos with
    | zero => exact ⟨[], first, chars, rfl, rfl⟩
    | succ before =>
      by_cases within : before < tail.length
      · rw [form.isBoundary within] at boundary
        cases boundary
      · obtain ⟨beyond, rfl⟩ := Nat.exists_eq_add_of_le (Nat.le_of_not_lt within)
        have shifted : tail.length + beyond + 1 = (lead :: tail).length + beyond :=
          Nat.add_right_comm ..
        rw [shifted, length_append, Nat.add_lt_add_iff_left] at inside
        rw [shifted, isBoundary_append] at boundary
        obtain ⟨front, c, back, rfl, length⟩ := ih inside boundary
        refine ⟨first :: front, c, back, rfl, ?_⟩
        rw [flatMap_cons, encoded, length_append, length, shifted]

/-- A byte with places between characters on both sides is an ASCII character. -/
theorem exists_ascii_of_isBoundary (inside : pos < (chars.flatMap String.utf8EncodeChar).length)
    (before : isBoundary (chars.flatMap String.utf8EncodeChar) pos = true)
    (after : isBoundary (chars.flatMap String.utf8EncodeChar) (pos + 1) = true) :
    ∃ front c back, chars = front ++ c :: back ∧
      (front.flatMap String.utf8EncodeChar).length = pos ∧
      ∃ byte < 0x80, String.utf8EncodeChar c = [byte] := by
  obtain ⟨front, c, back, rfl, rfl⟩ := exists_front_of_isBoundary inside before
  obtain ⟨lead, tail, encoded, form⟩ := utf8EncodeChar_isForm c
  rw [flatMap_append, isBoundary_append, flatMap_cons, encoded] at after
  have alone : tail = [] := by
    cases tail with
    | nil => rfl
    | cons second tail =>
      rw [form.isBoundary (Nat.zero_lt_succ _)] at after
      cases after
  exact ⟨front, c, back, rfl, rfl, lead, form.alone.mpr alone, alone ▸ encoded⟩

theorem getElem?_of_isBoundary (inside : pos < (bytes text).length)
    (before : isBoundary (bytes text) pos = true)
    (after : isBoundary (bytes text) (pos + 1) = true) :
    ∃ byte < 0x80, (bytes text)[pos]? = some byte := by
  obtain ⟨front, c, back, chars, length, byte, ascii, encoded⟩ :=
    exists_ascii_of_isBoundary inside before after
  refine ⟨byte, ascii, ?_⟩
  rw [bytes, chars, flatMap_append, ← length, List.getElem?_append_right (Nat.le_refl _),
    Nat.sub_self, flatMap_cons, encoded]
  rfl

theorem bytes_ofBytesLossy_set (inside : pos < (bytes text).length) (ascii : byte < 0x80)
    (before : isBoundary (bytes text) pos = true)
    (after : isBoundary (bytes text) (pos + 1) = true) :
    bytes (ofBytesLossy ((bytes text).set pos byte)) = (bytes text).set pos byte := by
  obtain ⟨front, c, back, chars, length, old, -, encoded⟩ :=
    exists_ascii_of_isBoundary inside before after
  have replaced : (bytes text).set pos byte =
      (front ++ Char.ofNat byte.toNat :: back).flatMap String.utf8EncodeChar := by
    rw [bytes, chars, flatMap_append, flatMap_append, flatMap_cons,
      flatMap_cons, encoded, utf8EncodeChar_ofNat ascii, ← length,
      set_append_right _ _ (Nat.le_refl _), Nat.sub_self]
    rfl
  rw [replaced, ofBytesLossy, (pieces_chars _).2, bytes, String.toList_ofList]

theorem isBoundary_zero (chars : List Char) :
    isBoundary (chars.flatMap String.utf8EncodeChar) 0 = true := by
  cases chars with
  | nil => rfl
  | cons first chars =>
    obtain ⟨lead, tail, encoded, form⟩ := utf8EncodeChar_isForm first
    rw [flatMap_cons, encoded]
    exact congrArg not form.begins

/-- There are places between characters on both sides of an ASCII byte. -/
theorem isBoundary_of_ascii (found : (chars.flatMap String.utf8EncodeChar)[pos]? = some byte)
    (ascii : byte < 0x80) : isBoundary (chars.flatMap String.utf8EncodeChar) pos = true ∧
      isBoundary (chars.flatMap String.utf8EncodeChar) (pos + 1) = true := by
  induction chars generalizing pos with
  | nil => cases found
  | cons first chars ih =>
    obtain ⟨lead, tail, encoded, form⟩ := utf8EncodeChar_isForm first
    rw [flatMap_cons, encoded] at found ⊢
    by_cases within : pos < (lead :: tail).length
    · rw [List.getElem?_append_left within] at found
      cases pos with
      | zero =>
        cases found
        cases form.alone.mp ascii
        exact ⟨congrArg not form.begins, isBoundary_append [byte] _ 0 ▸ isBoundary_zero chars⟩
      | succ before =>
        -- A byte that continues a character is no ASCII byte.
        have continues := form.continues byte (mem_of_getElem? found)
        rw [isContinuation, Bool.and_eq_true, decide_eq_true_eq] at continues
        exact absurd ascii (UInt8.not_lt.mpr continues.1)
    · obtain ⟨beyond, rfl⟩ := Nat.exists_eq_add_of_le (Nat.le_of_not_lt within)
      rw [List.getElem?_append_right (Nat.le_add_right ..), Nat.add_sub_cancel_left] at found
      rw [Nat.add_assoc, isBoundary_append, isBoundary_append]
      exact ih found

end Breadboard.Text
