import Breadboard.Archive.Reader
import Breadboard.Proofs.Number.Binary64
import Breadboard.Proofs.Text.Utf8
import Mathlib.Algebra.Order.Ring.Int

/-!
Readers take back what writers wrote. `reader.Takes bytes value` says that a reader takes just the
given bytes off the front, whatever follows them, and yields the value. Where a reader is put
together from others, what it takes is put together from what they take.
-/

open List

namespace Breadboard.Archive

open Breadboard.Text (Bytes)

namespace Read

variable {α β : Type} {front back bytes : Bytes} {n : Int64}

def Takes (reader : Read α) (bytes : Bytes) (value : α) : Prop :=
  ∀ rest pos,
    reader ⟨bytes ++ rest, pos⟩ = .ok (value, ⟨rest, pos + bytes.length⟩)

theorem takes_pure (value : α) : (pure value : Read α).Takes [] value := fun _ _ => rfl

theorem Takes.bind {next : α → Read β} (first : reader.Takes front value)
    (second : (next value).Takes back res) : (reader >>= next).Takes (front ++ back) res := by
  intro rest pos
  have step := first (back ++ rest) pos
  have further := second rest (pos + front.length)
  change (reader _ >>= fun found => next found.1 found.2) = _
  rw [append_assoc, step, length_append, ← Nat.add_assoc]
  exact further

theorem Takes.last {next : α → Read β} (first : reader.Takes bytes value)
    (second : (next value).Takes [] res) : (reader >>= next).Takes bytes res := by
  have both := first.bind second
  rwa [append_nil] at both

theorem Takes.map {value : α} (takes : reader.Takes bytes value)
    (f : α → β) : (do pure (f (← reader)) : Read β).Takes bytes (f value) :=
  takes.last (takes_pure (f value))

def Finishes (reader : Read α) (bytes : Bytes) (value : α) : Prop :=
  ∀ pos, reader ⟨bytes, pos⟩ = .ok (value, ⟨[], pos + bytes.length⟩)

theorem Takes.finishes {next : α → Read β} (first : reader.Takes front value)
    (second : (next value).Finishes back res) : (reader >>= next).Finishes (front ++ back) res := by
  intro pos
  have step := first back pos
  have further := second (pos + front.length)
  change (reader _ >>= fun found => next found.1 found.2) = _
  rw [step, length_append, ← Nat.add_assoc]
  exact further

theorem split?_append (front back : Bytes) :
    split? front.length (front ++ back) = some (front, back) := by
  induction front with
  | nil => rfl
  | cons byte front ih => simp [split?, ih]

theorem takes_take (bytes : Bytes) : (take bytes.length).Takes bytes bytes := by
  intro rest pos
  simp only [take, split?_append]

theorem length_littleEndian (width n : Nat) : (littleEndian width n).length = width := by
  induction width generalizing n with
  | zero => rfl
  | succ width ih => simp [littleEndian, ih]

theorem ofLittleEndian_littleEndian (width n : Nat) :
    ofLittleEndian (littleEndian width n) = n % 256 ^ width := by
  induction width generalizing n with
  | zero => simp [littleEndian, ofLittleEndian, Nat.mod_one]
  | succ width ih =>
    rw [littleEndian, ofLittleEndian, ih, Nat.pow_succ, Nat.mul_comm (256 ^ width), Nat.mod_mul]
    simp

theorem takes_number (width n : Nat) :
    (number width).Takes (littleEndian width n) (n % 256 ^ width) := by
  have takes := (takes_take (littleEndian width n)).map ofLittleEndian
  rwa [length_littleEndian, ofLittleEndian_littleEndian] at takes

theorem takes_byte (value : UInt8) : byte.Takes [value] value := by
  have takes := (takes_number 1 value.toNat).map UInt8.ofNat
  have pattern : littleEndian 1 value.toNat = [value] := by simp [littleEndian]
  have back : UInt8.ofNat (value.toNat % 256 ^ 1) = value := by simp
  rwa [pattern, back] at takes

theorem takes_word {n : Nat} (small : n < 2 ^ 32) : word.Takes (Archive.word n) n := by
  have takes := takes_number 4 n
  rwa [Nat.mod_eq_of_lt (by omega)] at takes

theorem takes_flag (value : Bool) : flag.Takes (Archive.flag value) value := by
  have takes := (takes_byte (if value then 1 else 0)).map (· != 0)
  cases value <;> exact takes

theorem takes_optionalWord (small : ∀ n ∈ value, n < absent) :
    optionalWord.Takes (Archive.optionalWord value) value := by
  cases value with
  | none => exact (takes_word (n := absent) (by decide)).map _
  | some n =>
    have below := small n rfl
    have takes := (takes_word (n := n) (by unfold absent at below; omega)).map
      fun value => if value = absent then none else some value
    rwa [if_neg (Nat.ne_of_lt below)] at takes

theorem takes_replicate {write : α → Bytes}
    (takes : ∀ item ∈ items, reader.Takes (write item) item) :
    (replicate reader items.length).Takes (items.flatMap write) items := by
  induction items with
  | nil => exact takes_pure []
  | cons item items ih =>
    obtain ⟨first, others⟩ := forall_mem_cons.mp takes
    have further := (ih others).map (item :: ·)
    exact first.bind further

theorem takes_counted {write : α → Bytes}
    (few : items.length < 2 ^ 32) (takes : ∀ item ∈ items, reader.Takes (write item) item) :
    (counted reader).Takes (Archive.word items.length ++ items.flatMap write) items :=
  (takes_word few).bind (takes_replicate takes)

theorem takes_words (few : items.length < 2 ^ 32)
    (small : ∀ item ∈ items, item < 2 ^ 32) : words.Takes (Archive.words items) items :=
  takes_counted few fun item among => takes_word (small item among)

theorem takes_text (short : (Text.bytes value).length < 2 ^ 32) :
    text.Takes (Archive.text value) value := by
  refine (takes_word short).bind ((takes_take _).last ?_)
  rw [Text.ofBytes?_bytes]
  exact takes_pure value

theorem takes_operator [BEq α] [LawfulBEq α] {op : α} (what : String) (few : ops.length ≤ 256)
    (among : op ∈ ops) : (operator ops what).Takes (Archive.operator ops op) op := by
  have inside : ops.idxOf op < ops.length := idxOf_lt_length_iff.mpr among
  have place : (UInt8.ofNat (ops.idxOf op)).toNat = ops.idxOf op :=
    Text.toNat_ofNat_of_lt (by omega)
  refine (takes_byte _).last ?_
  rw [place, List.getElem?_idxOf among]
  exact takes_pure op

theorem takes_binaryOp (op : BinaryOp) : (operator binaryOps "binary operator").Takes
    (Archive.operator binaryOps op) op :=
  takes_operator _ (by decide) (by cases op <;> decide)

theorem takes_logicalOp (op : LogicalOp) : (operator logicalOps "logical operator").Takes
    (Archive.operator logicalOps op) op :=
  takes_operator _ (by decide) (by cases op <;> decide)

theorem takes_unaryOp (op : UnaryOp) : (operator unaryOps "unary operator").Takes
    (Archive.operator unaryOps op) op :=
  takes_operator _ (by decide) (by cases op <;> decide)

theorem takes_incDecOp (op : IncDecOp) : (operator incDecOps "increment operator").Takes
    (Archive.operator incDecOps op) op :=
  takes_operator _ (by decide) (by cases op <;> decide)

/-! Numeric literals. -/

theorem toInt_eq (n : Int64) :
    n.toInt = if 2 * n.toUInt64.toNat < 2 ^ 64 then (n.toUInt64.toNat : Int)
      else (n.toUInt64.toNat : Int) - 2 ^ 64 :=
  BitVec.toInt_eq_toNat_cond n.toBitVec

theorem takes_unsigned (width : Nat) (low : 0 ≤ n.toInt) (high : n.toInt < 256 ^ width) :
    (unsigned width).Takes (littleEndian width n.toUInt64.toNat) n := by
  have bound := n.toUInt64.toNat_lt
  have value : n.toInt = n.toUInt64.toNat := by
    have parts := toInt_eq n
    split at parts
    · exact parts
    · omega
  have takes := (takes_number width n.toUInt64.toNat).map Int64.ofNat
  rwa [Nat.mod_eq_of_lt (by rw [value] at high; exact_mod_cast high), ← Int64.ofInt_eq_ofNat,
    ← value, Int64.ofInt_toInt] at takes

theorem takes_signed (width : Nat) (few : width = 1 ∨ width = 2 ∨ width = 4 ∨ width = 8)
    (low : -256 ^ width ≤ 2 * n.toInt) (high : 2 * n.toInt < 256 ^ width) :
    (signed width).Takes (littleEndian width n.toUInt64.toNat) n := by
  have bound := n.toUInt64.toNat_lt
  have parts := toInt_eq n
  refine (takes_number width n.toUInt64.toNat).last ?_
  have value : (if 2 * (n.toUInt64.toNat % 256 ^ width) < Nat.pow 256 width
      then ((n.toUInt64.toNat % 256 ^ width : Nat) : Int)
      else ((n.toUInt64.toNat % 256 ^ width : Nat) : Int) - Nat.pow 256 width) = n.toInt := by
    rw [Nat.pow_eq]
    rcases few with rfl | rfl | rfl | rfl <;> split at parts <;> split <;> omega
  dsimp only
  rw [value, Int64.ofInt_toInt]
  exact takes_pure n

theorem takes_integer (n : Int64) (isUnsigned : Bool) :
    (literal isUnsigned).Takes (Archive.integer n) (.intLiteral n isUnsigned) := by
  have low := n.le_toInt
  have high := n.toInt_lt
  unfold Archive.integer integerTag
  split
  · exact (takes_byte _).bind ((takes_unsigned 1 (by omega) (by omega)).map _)
  · split
    · exact (takes_byte _).bind ((takes_signed 1 (by decide) (by omega) (by omega)).map _)
    · split
      · exact (takes_byte _).bind ((takes_unsigned 2 (by omega) (by omega)).map _)
      · split
        · exact (takes_byte _).bind ((takes_signed 2 (by decide) (by omega) (by omega)).map _)
        · split
          · exact (takes_byte _).bind ((takes_signed 4 (by decide) (by omega) (by omega)).map _)
          · split
            · exact (takes_byte _).bind ((takes_unsigned 4 (by omega) (by omega)).map _)
            · exact (takes_byte _).bind ((takes_signed 8 (by decide) (by omega) (by omega)).map _)

theorem takes_float (x : Binary64) (isUnsigned : Bool) :
    (literal isUnsigned).Takes (Archive.float x) (.floatLiteral x) := by
  unfold Archive.float
  split
  · rename_i bits exact
    have fits : bits.toNat % 256 ^ 4 = bits.toNat := Nat.mod_eq_of_lt bits.toNat_lt
    have takes := takes_number 4 bits.toNat
    rw [fits] at takes
    refine (takes_byte _).bind (takes.last ?_)
    rw [UInt32.ofNat_toNat, Binary64.widen_of_exactSingle? exact]
    exact takes_pure _
  · have fits : x.bits.toNat % 256 ^ 8 = x.bits.toNat := Nat.mod_eq_of_lt x.bits.toNat_lt
    have takes := takes_number 8 x.bits.toNat
    rw [fits] at takes
    refine (takes_byte _).bind (takes.last ?_)
    rw [UInt64.ofNat_toNat]
    exact takes_pure _

section Table

variable {table : List String} (small : table.length < 2 ^ 32)
include small

theorem takes_reference (among : value ∈ table) :
    (reference table).Takes (Archive.reference table value) value := by
  have inside : table.idxOf value < table.length := idxOf_lt_length_iff.mpr among
  refine (takes_word (by omega)).last ?_
  rw [List.getElem?_idxOf among]
  exact takes_pure value

theorem takes_baseType (known : ∀ name ∈ baseTexts base, name ∈ table) :
    (baseType table).Takes (Archive.baseType table base) base := by
  cases base with
  | record name =>
    have listed : name ∈ table := known name (by simp [baseTexts])
    exact (takes_byte recordTag).bind ((takes_reference small listed).map _)
  | library name =>
    have listed : name ∈ table := known name (by simp [baseTexts])
    exact (takes_byte libraryTag).bind ((takes_reference small listed).map _)
  | _ => exact (takes_byte _).last (takes_pure _)

theorem takes_dataType (known : ∀ name ∈ typeTexts type, name ∈ table)
    (few : type.dims.length < 2 ^ 32) (dims : ∀ dim ∈ type.dims, ∀ n ∈ dim, n < absent) :
    (dataType table).Takes (Archive.dataType table type) type := by
  rw [Archive.dataType]
  simp only [append_assoc]
  refine (takes_baseType small known).bind ((takes_flag _).bind ((takes_byte _).bind ?_))
  exact (takes_counted few fun dim among => takes_optionalWord (dims dim among)).map _

end Table

end Read

end Breadboard.Archive
