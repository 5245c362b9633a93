import Breadboard.Proofs.Archive.RoundTrip

/-!
Stored programs mark their own end. A reader that yields a value has taken some bytes off the
front. It takes the same bytes whatever follows them, and if only some of them are there, it misses
the others before it can find any other fault. This holds of the readers of numbers and is kept
where readers are put together, so it holds of a whole file: no part of it and nothing longer is a
file as well.
-/

namespace Breadboard

/-- Whether an error is about the arena that the bytes spell, and not about the bytes. -/
def ArchiveError.isGraphFault : ArchiveError → Bool
  | .danglingNode _ | .sharedNode _ | .cyclicNode _ | .tooDeep _ => true
  | _ => false

namespace Archive

variable {bytes : Bytes}

open Breadboard.Text (Bytes)

namespace Read

variable {α β : Type} {bytes front back : Bytes}

def Lacks (reader : Read α) (bytes : Bytes) : Prop :=
  ∀ pos, ∃ stop ≤ pos + bytes.length,
    reader ⟨bytes, pos⟩ = .error (.unexpectedEnd stop)

def Delimits (reader : Read α) : Prop :=
  ∀ source value final, reader source = .ok (value, final) →
    ∃ taken, source.rest = taken ++ final.rest ∧ reader.Takes taken value ∧
      ∀ front, front <+: taken → front ≠ taken → reader.Lacks front

theorem bind_apply (reader : Read α) (next : α → Read β) (source : Source) :
    (reader >>= next) source = reader source >>= fun found => next found.1 found.2 := rfl

theorem Lacks.bind (lacks : reader.Lacks bytes) (next : α → Read β) :
    (reader >>= next).Lacks bytes := by
  intro pos
  obtain ⟨stop, inside, failed⟩ := lacks pos
  exact ⟨stop, inside, by rw [bind_apply, failed]; rfl⟩

theorem Takes.lacks {next : α → Read β} (takes : reader.Takes front value)
    (lacks : (next value).Lacks back) : (reader >>= next).Lacks (front ++ back) := by
  intro pos
  obtain ⟨stop, inside, failed⟩ := lacks (pos + front.length)
  refine ⟨stop, by rw [List.length_append]; omega, ?_⟩
  rw [bind_apply, takes back pos]
  exact failed

theorem delimits_pure (value : α) : (pure value : Read α).Delimits := by
  rintro source _ _ ⟨⟩
  refine ⟨[], rfl, takes_pure value, fun front short proper => ?_⟩
  exact absurd (List.prefix_nil.mp short) proper

/-- A part of what two readers take ends before the second one begins, or inside it. -/
theorem Delimits.bind {next : α → Read β} (first : reader.Delimits)
    (second : ∀ value, (next value).Delimits) : (reader >>= next).Delimits := by
  intro source res final out
  obtain ⟨⟨value, middle⟩, read, out⟩ := bind_eq_ok.mp out
  obtain ⟨front, split, takes, lacks⟩ := first source value middle read
  obtain ⟨back, further, takesBack, lacksBack⟩ := second value middle res final out
  refine ⟨front ++ back, by rw [split, further, List.append_assoc], takes.bind takesBack, ?_⟩
  intro part short proper
  rcases List.prefix_or_prefix_of_prefix short (List.prefix_append front back) with inside | beyond
  · by_cases whole : part = front
    · subst whole
      have empty : [] ≠ back := fun none => proper (by rw [← none, List.append_nil])
      have lacksNone := lacksBack [] List.nil_prefix empty
      simpa using takes.lacks lacksNone
    · exact (lacks part inside whole).bind next
  · obtain ⟨rest, rfl⟩ := beyond
    have shortRest : rest <+: back := (List.prefix_append_right_inj front).mp short
    exact takes.lacks (lacksBack rest shortRest fun whole => proper (by rw [whole]))

theorem split?_eq_some (found : split? count bytes = some (front, back)) :
    bytes = front ++ back ∧ front.length = count := by
  induction count generalizing bytes front with
  | zero =>
    cases found
    exact ⟨rfl, rfl⟩
  | succ count ih =>
    cases bytes with
    | nil => cases found
    | cons byte bytes =>
      obtain ⟨⟨inner, rest⟩, inside, same⟩ := Option.map_eq_some_iff.mp found
      cases same
      obtain ⟨rfl, rfl⟩ := ih inside
      exact ⟨rfl, rfl⟩

theorem delimits_take (count : Nat) : (take count).Delimits := by
  intro source value final out
  unfold take at out
  split at out <;> cases out
  rename_i back found
  obtain ⟨split, rfl⟩ := split?_eq_some found
  refine ⟨value, split, takes_take value, fun part short proper pos => ?_⟩
  refine ⟨pos, Nat.le_add_right _ _, ?_⟩
  -- Bytes that could be taken would be as many as there are in `value`.
  cases cut : split? value.length part with
  | none => simp only [take, cut]
  | some found =>
    obtain ⟨rfl, length⟩ := split?_eq_some cut
    have few := short.length_le
    rw [List.length_append] at few
    exact absurd (short.eq_of_length (by rw [List.length_append]; omega)) proper

/-- Readers put together from the reading of bytes and from failures to make sense of them. -/
inductive Formed : {α : Type} → Read α → Prop where
  | pure {α : Type} (value : α) : Formed (Pure.pure value : Read α)
  | take (count : Nat) : Formed (take count)
  | fail {α : Type} (error : ArchiveError) (plain : error.isGraphFault = false) :
      Formed (fail error : Read α)
  | unknown {α : Type} (what : String) (tag : UInt8) : Formed (unknown what tag : Read α)
  | bind {α β : Type} {reader : Read α} {next : α → Read β} :
      Formed reader → (∀ value, Formed (next value)) → Formed (reader >>= next)

theorem Formed.map (formed : reader.Formed) (f : α → β) :
    (do Pure.pure (f (← reader)) : Read β).Formed :=
  formed.bind fun value => .pure (f value)

theorem Formed.delimits {reader : Read α} (formed : reader.Formed) : reader.Delimits := by
  induction formed with
  | pure value => exact delimits_pure value
  | take count => exact delimits_take count
  | fail | unknown => nofun
  | bind _ _ first second => exact first.bind second

/-- A reader of bytes does not look at the graph that its nodes make. -/
theorem Formed.plain {reader : Read α} (formed : reader.Formed)
    (failed : reader source = .error error) : error.isGraphFault = false := by
  induction formed generalizing source with
  | pure => cases failed
  | take count =>
    unfold Read.take at failed
    split at failed <;> cases failed
    rfl
  | fail _ plain =>
    cases failed
    exact plain
  | unknown =>
    cases failed
    rfl
  | @bind _ _ reader next _ _ first second =>
    rw [bind_apply] at failed
    cases read : reader source with rw [read] at failed
    | error =>
      cases failed
      exact first read
    | ok found => exact second found.1 failed

theorem formed_number (width : Nat) : (number width).Formed := (Formed.take width).map _

theorem formed_byte : byte.Formed := (formed_number 1).map _

theorem formed_word : word.Formed := formed_number 4

theorem formed_flag : flag.Formed := formed_byte.map _

theorem formed_optionalWord : optionalWord.Formed := formed_word.map _

theorem formed_replicate (formed : item.Formed) (count : Nat) : (replicate item count).Formed := by
  induction count with
  | zero => exact .pure []
  | succ count ih =>
    exact formed.bind fun first => ih.map (first :: ·)

theorem formed_counted (formed : item.Formed) : (counted item).Formed :=
  formed_word.bind (formed_replicate formed)

theorem formed_words : words.Formed := formed_counted formed_word

theorem formed_arm : arm.Formed :=
  formed_optionalWord.bind fun label => formed_words.map (SwitchCase.mk label)

theorem formed_operator (ops : List α) (what : String) : (operator ops what).Formed := by
  refine formed_byte.bind fun tag => ?_
  split
  · exact .pure _
  · exact .unknown what tag

theorem formed_literal (isUnsigned : Bool) : (literal isUnsigned).Formed := by
  refine formed_byte.bind fun tag => ?_
  dsimp only
  split
  · rename_i form _
    cases form with
    | uint8 | uint16 | uint32 | int8 | int16 | int32 | int64 =>
      exact ((formed_number _).map _).map _
    | single | double => exact (formed_number _).map _
  · exact .unknown "number" tag

theorem formed_text : text.Formed := by
  refine formed_word.bind fun length => (Formed.take length).bind fun bytes => ?_
  split
  · exact .pure _
  · exact .fail .invalidUtf8 rfl

theorem formed_header : header.Formed := by
  refine (Formed.take _).bind fun found => ?_
  have versioned : (do
      let found ← number 2
      if found != version then fail (.unsupportedVersion found) : Read Unit).Formed := by
    refine (formed_number 2).bind fun found => ?_
    split
    · exact .fail _ rfl
    · exact .pure ()
  split
  · exact (Formed.fail .badMagic rfl).bind fun _ => versioned
  · exact (Formed.pure ()).bind fun _ => versioned

section Table

variable (table : List String)

theorem formed_reference : (reference table).Formed := by
  refine formed_word.bind fun index => ?_
  split
  · exact .pure _
  · exact .fail _ rfl

theorem formed_baseType : (baseType table).Formed := by
  refine formed_byte.bind fun tag => ?_
  split
  · exact .pure _
  · split
    · exact (formed_reference table).map _
    · split
      · exact (formed_reference table).map _
      · exact .unknown "type" tag

theorem formed_dataType : (dataType table).Formed :=
  (formed_baseType table).bind fun _ => formed_flag.bind fun _ => formed_byte.bind fun _ =>
    (formed_counted formed_optionalWord).map _

theorem formed_field : (field table).Formed :=
  (formed_reference table).bind fun _ => (formed_dataType table).map _

theorem formed_contents (tag : UInt8) : (contents table tag).Formed := by
  have reference := formed_reference table
  have dataType := formed_dataType table
  have fields := formed_counted (formed_field table)
  have operator {α : Type} := @formed_operator α
  have word := formed_word
  have optional := formed_optionalWord
  have words := formed_words
  unfold contents
  match tag.toNat with
  | 1 =>
    exact reference.bind fun _ => fields.bind fun _ => dataType.bind fun _ => word.map _
  | 2 => exact reference.bind fun _ => fields.map _
  | 3 =>
    exact reference.bind fun _ => dataType.bind fun _ => optional.bind fun _ =>
      formed_byte.map _
  | 4 => exact reference.bind fun _ => reference.bind fun _ => words.map _
  | 5 | 6 | 37 => exact words.map _
  | 7 | 36 => exact word.map _
  | 8 => exact word.bind fun _ => word.bind fun _ => optional.map _
  | 9 | 10 | 28 | 32 => exact word.bind fun _ => word.map _
  | 11 =>
    exact optional.bind fun _ => optional.bind fun _ => optional.bind fun _ => word.map _
  | 12 => exact word.bind fun _ => (formed_counted formed_arm).map _
  | 13 => exact optional.map _
  | 14 | 15 | 16 | 21 => exact .pure _
  | 17 => exact formed_flag.bind formed_literal
  | 18 => exact formed_byte.map _
  | 19 | 22 => exact reference.map _
  | 20 => exact formed_flag.map _
  | 23 | 24 | 29 => exact (operator _ _).bind fun _ => word.bind fun _ => word.map _
  | 25 | 26 => exact (operator _ _).bind fun _ => word.map _
  | 27 => exact word.bind fun _ => word.bind fun _ => word.map _
  | 30 => exact reference.bind fun _ => words.map _
  | 31 => exact word.bind fun _ => reference.bind fun _ => words.map _
  | 33 => exact word.bind fun _ => reference.bind fun _ => formed_flag.map _
  | 34 => exact dataType.bind fun _ => word.map _
  | 35 => exact dataType.map _
  | 0 | _ + 38 => exact .unknown "node" tag

theorem formed_node : (node table).Formed :=
  formed_byte.bind fun tag => formed_word.bind fun _ => formed_word.bind fun _ =>
    (formed_contents table tag).map _

end Table

def unended : Read Program := do
  header
  let count ← word
  let items ← words
  let table ← counted text
  let nodes ← replicate (node table) count
  pure ⟨nodes.toArray, items⟩

def ended (stored : Program) : Read Program := do
  let source ← get
  if source.rest.isEmpty then pure stored
  else fail (.trailingBytes source.rest.length)

theorem program_eq : program = unended >>= ended := by
  simp only [program, unended, ended, bind_assoc, pure_bind]

theorem formed_unended : unended.Formed :=
  formed_header.bind fun _ => formed_word.bind fun count => formed_words.bind fun _ =>
    (formed_counted formed_text).bind fun table =>
      (formed_replicate (formed_node table) count).map _

theorem program_plain {source : Source}
    (failed : program source = .error error) : error.isGraphFault = false := by
  rw [program_eq, bind_apply] at failed
  cases read : unended source with rw [read] at failed
  | error =>
    cases failed
    exact formed_unended.plain read
  | ok found =>
    change (if found.2.rest.isEmpty = true then pure found.1
      else fail (.trailingBytes found.2.rest.length) : Read Program) found.2 = _ at failed
    split at failed <;> cases failed
    rfl

theorem program_ok (read : program { rest := bytes } = .ok (stored, final)) :
    unended.Takes bytes stored ∧
      ∀ front, front <+: bytes → front ≠ bytes → unended.Lacks front := by
  rw [program_eq] at read
  obtain ⟨⟨value, behind⟩, taken, checked⟩ := bind_eq_ok.mp read
  obtain ⟨front, split, takes, lacks⟩ := formed_unended.delimits _ value behind taken
  change (if behind.rest.isEmpty = true then pure value
    else fail (.trailingBytes behind.rest.length) : Read Program) behind = _ at checked
  split at checked <;> cases checked
  rename_i nothing
  rw [List.isEmpty_iff.mp nothing, List.append_nil] at split
  subst split
  exact ⟨takes, lacks⟩

end Read

theorem decode_of_lacks (lacks : Read.unended.Lacks bytes) :
    ∃ stop ≤ bytes.length, decode bytes = .error (.unexpectedEnd stop) := by
  obtain ⟨stop, inside, failed⟩ := lacks.bind Read.ended 0
  rw [← Read.program_eq] at failed
  refine ⟨stop, by omega, ?_⟩
  rw [decode, StateT.run, failed]
  rfl

theorem decode_of_takes (takes : Read.unended.Takes bytes stored)
    (more : extra ≠ []) : decode (bytes ++ extra) = .error (.trailingBytes extra.length) := by
  have read : Read.program { rest := bytes ++ extra } = .error (.trailingBytes extra.length) := by
    rw [Read.program_eq, Read.bind_apply, takes extra 0]
    cases extra with
    | nil => exact absurd rfl more
    | cons => rfl
  rw [decode, StateT.run, read]
  rfl

/-- A stored program marks its own end. Where bytes are missing, decoding comes to the end of the
others; where there are more bytes, it tells how many. So no stored program begins another. -/
theorem decode_delimits {bytes : Bytes} {stored : Program} (decoded : decode bytes = .ok stored) :
    (∀ front, front <+: bytes → front ≠ bytes →
      ∃ stop ≤ front.length, decode front = .error (.unexpectedEnd stop)) ∧
    (∀ extra, extra ≠ [] → decode (bytes ++ extra) = .error (.trailingBytes extra.length)) ∧
    ∀ longer other, bytes <+: longer → decode longer = .ok other → longer = bytes := by
  obtain ⟨⟨_, final⟩, read, checked⟩ := bind_eq_ok.mp decoded
  obtain ⟨_, -, same⟩ := bind_eq_ok.mp checked
  cases same
  obtain ⟨takes, lacks⟩ := Read.program_ok read
  refine ⟨?_, ?_, ?_⟩
  · intro front short proper
    exact decode_of_lacks (lacks front short proper)
  · intro extra more
    exact decode_of_takes takes more
  · rintro _ other ⟨extra, rfl⟩ decodedOther
    by_cases more : extra = []
    · rw [more, List.append_nil]
    · cases (decode_of_takes takes more).symm.trans decodedOther

theorem gains_decoded : decode (encode gains) = .ok gains := by
  rw [decode_encode_eq gains_fits gains_isBoundedForest.inside gains_isBoundedForest.itemsInside,
    checkForest_of_isBoundedForest gains_isBoundedForest]
  rfl

/-- The file of `gains` without its last byte, and with a byte more. -/
theorem gains_delimited :
    decode (encode gains) = .ok gains ∧
      (∃ stop ≤ (encode gains).length - 1,
        decode (encode gains).dropLast = .error (.unexpectedEnd stop)) ∧
      decode (encode gains ++ [0]) = .error (.trailingBytes 1) := by
  obtain ⟨short, long, -⟩ := decode_delimits gains_decoded
  have proper : (encode gains).dropLast ≠ encode gains := by decide +kernel
  have missing := short _ (List.dropLast_prefix _) proper
  rw [List.length_dropLast] at missing
  exact ⟨gains_decoded, missing, long [0] (by decide)⟩

end Archive

end Breadboard
