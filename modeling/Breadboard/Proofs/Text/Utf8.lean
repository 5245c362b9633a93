import Breadboard.Text.Utf8
import Mathlib.Data.List.Basic

/-!
The UTF-8 form of a text reads back as the text. The bytes of one character are one piece, so a
byte sequence is cut just where its characters were joined.
-/

namespace Breadboard.Text

theorem toNat_ofNat_of_lt (small : n < 256) : (UInt8.ofNat n).toNat = n := by
  simp [Nat.mod_eq_of_lt small]

theorem isContinuation_ofNat (n : Nat) : isContinuation (UInt8.ofNat (n % 64 + 128)) = true := by
  have value := toNat_ofNat_of_lt (n := n % 64 + 128) (by omega)
  simp only [isContinuation, Bool.and_eq_true, decide_eq_true_eq, UInt8.le_iff_toNat_le, value]
  constructor
  · exact Nat.le_add_left ..
  · change n % 64 + 128 ≤ 191
    omega

theorem payload_ofNat (n : Nat) : payload (UInt8.ofNat (n % 64 + 128)) = n % 64 := by
  rw [payload, toNat_ofNat_of_lt (by omega)]
  omega

variable {n : Nat} (rest : Bytes)

theorem firstPiece_one (high : n ≤ 0x7F) :
    firstPiece (UInt8.ofNat n) rest = .char (Char.ofNat n) 1 := by
  have value := toNat_ofNat_of_lt (n := n) (by omega)
  have plain : UInt8.ofNat n < 0x80 := by
    rw [UInt8.lt_iff_toNat_lt, value]
    exact Nat.lt_succ_of_le high
  rw [firstPiece.eq_def, if_pos plain, value]

theorem firstPiece_two (low : 0x7F < n) (high : n ≤ 0x7FF) :
    firstPiece (UInt8.ofNat (n / 64 % 32 + 192)) (UInt8.ofNat (n % 64 + 128) :: rest) =
      .char (Char.ofNat n) 2 := by
  have value := toNat_ofNat_of_lt (n := n / 64 % 32 + 192) (by omega)
  have joined : (n / 64 % 32 + 192) % 32 * 64 + n % 64 = n := by omega
  simp only [firstPiece, UInt8.lt_iff_toNat_lt, UInt8.le_iff_toNat_le, value,
    isContinuation_ofNat, char2, payload_ofNat, joined, UInt8.reduceToNat, if_true]
  rw [if_neg (by omega), if_pos (by simp; omega)]

theorem followsLeadOfThree_ofNat (low : 0x7FF < n) (valid : n < 0xD800 ∨ 0xDFFF < n)
    (high : n ≤ 0xFFFF) :
    followsLeadOfThree (UInt8.ofNat (n / 4096 % 16 + 224)) (UInt8.ofNat (n / 64 % 64 + 128)) =
      true := by
  have lead := toNat_ofNat_of_lt (n := n / 4096 % 16 + 224) (by omega)
  have second := toNat_ofNat_of_lt (n := n / 64 % 64 + 128) (by omega)
  simp only [followsLeadOfThree, ← UInt8.toNat_inj, UInt8.le_iff_toNat_le, lead, second,
    isContinuation_ofNat, UInt8.reduceToNat]
  split
  · simp; omega
  · split
    · simp; omega
    · rfl

theorem firstPiece_three (low : 0x7FF < n) (valid : n < 0xD800 ∨ 0xDFFF < n) (high : n ≤ 0xFFFF) :
    firstPiece (UInt8.ofNat (n / 4096 % 16 + 224))
        (UInt8.ofNat (n / 64 % 64 + 128) :: UInt8.ofNat (n % 64 + 128) :: rest) =
      .char (Char.ofNat n) 3 := by
  have value := toNat_ofNat_of_lt (n := n / 4096 % 16 + 224) (by omega)
  have follows := followsLeadOfThree_ofNat low valid high
  have joined : ((n / 4096 % 16 + 224) % 16 * 64 + n / 64 % 64) * 64 + n % 64 = n := by omega
  simp only [firstPiece, UInt8.lt_iff_toNat_lt, UInt8.le_iff_toNat_le, value, follows,
    isContinuation_ofNat, char3, payload_ofNat, joined, UInt8.reduceToNat, if_true,
    Bool.not_true, Bool.false_eq_true, if_false]
  rw [if_neg (by omega), if_neg (by simp), if_pos (by simp; omega)]

theorem followsLeadOfFour_ofNat (low : 0xFFFF < n) (high : n < 0x110000) :
    followsLeadOfFour (UInt8.ofNat (n / 262144 % 8 + 240)) (UInt8.ofNat (n / 4096 % 64 + 128)) =
      true := by
  have lead := toNat_ofNat_of_lt (n := n / 262144 % 8 + 240) (by omega)
  have second := toNat_ofNat_of_lt (n := n / 4096 % 64 + 128) (by omega)
  simp only [followsLeadOfFour, ← UInt8.toNat_inj, UInt8.le_iff_toNat_le, lead, second,
    isContinuation_ofNat, UInt8.reduceToNat]
  split
  · simp; omega
  · split
    · simp; omega
    · rfl

theorem firstPiece_four (low : 0xFFFF < n) (high : n < 0x110000) :
    firstPiece (UInt8.ofNat (n / 262144 % 8 + 240)) (UInt8.ofNat (n / 4096 % 64 + 128) ::
        UInt8.ofNat (n / 64 % 64 + 128) :: UInt8.ofNat (n % 64 + 128) :: rest) =
      .char (Char.ofNat n) 4 := by
  have value := toNat_ofNat_of_lt (n := n / 262144 % 8 + 240) (by omega)
  have follows := followsLeadOfFour_ofNat low high
  have joined : (((n / 262144 % 8 + 240) % 8 * 64 + n / 4096 % 64) * 64 + n / 64 % 64) * 64 +
      n % 64 = n := by omega
  simp only [firstPiece, UInt8.lt_iff_toNat_lt, UInt8.le_iff_toNat_le, value, follows,
    isContinuation_ofNat, char4, payload_ofNat, joined, UInt8.reduceToNat, if_true,
    Bool.not_true, Bool.false_eq_true, if_false]
  rw [if_neg (by omega), if_neg (by simp), if_neg (by simp), if_pos (by simp; omega)]

theorem firstPiece_utf8EncodeChar (c : Char) : ∃ lead tail, String.utf8EncodeChar c = lead :: tail ∧
      firstPiece lead (tail ++ rest) = .char c (tail.length + 1) := by
  have valid : c.val.toNat < 0xD800 ∨ 0xDFFF < c.val.toNat ∧ c.val.toNat < 0x110000 := c.valid
  have whole {lead : UInt8} {tail : Bytes} {length : Nat}
      (piece : firstPiece lead tail = .char (Char.ofNat c.val.toNat) length) :
      firstPiece lead tail = .char c length :=
    piece.trans (congrArg (Piece.char · length) (Char.ofNat_toNat c))
  unfold String.utf8EncodeChar
  dsimp only
  split
  · exact ⟨_, _, rfl, whole (firstPiece_one rest ‹_›)⟩
  · split
    · exact ⟨_, _, rfl, whole (firstPiece_two rest (by omega) ‹_›)⟩
    · split
      · exact ⟨_, _, rfl, whole (firstPiece_three rest (by omega) (by omega) ‹_›)⟩
      · exact ⟨_, _, rfl, whole (firstPiece_four rest (by omega) (by omega))⟩

theorem pieces_skip (front : Bytes) : pieces front.length (front ++ rest) = pieces 0 rest := by
  induction front with
  | nil => rfl
  | cons byte front ih => exact ih

theorem pieces_utf8EncodeChar (c : Char) :
    ∃ length, pieces 0 (String.utf8EncodeChar c ++ rest) = .char c length :: pieces 0 rest := by
  obtain ⟨lead, tail, form, piece⟩ := firstPiece_utf8EncodeChar rest c
  refine ⟨tail.length + 1, ?_⟩
  rw [form, List.cons_append, pieces, piece]
  simp only [Nat.add_sub_cancel, pieces_skip]

theorem pieces_chars (chars : List Char) :
    (pieces 0 (chars.flatMap String.utf8EncodeChar)).mapM Piece.char? = some chars ∧
      (pieces 0 (chars.flatMap String.utf8EncodeChar)).map Piece.toChar = chars := by
  induction chars with
  | nil => exact ⟨rfl, rfl⟩
  | cons c chars ih =>
    obtain ⟨length, first⟩ := pieces_utf8EncodeChar (chars.flatMap String.utf8EncodeChar) c
    rw [List.flatMap_cons, first, List.mapM_cons, ih.1, List.map_cons, ih.2]
    exact ⟨rfl, rfl⟩

theorem ofBytes?_bytes (text : String) : ofBytes? (bytes text) = some text := by
  rw [ofBytes?, bytes, (pieces_chars _).1, Option.map_some, String.ofList_toList]

end Breadboard.Text
