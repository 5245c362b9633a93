import Breadboard.Proofs.Sketch.Expansion
import Breadboard.Proofs.Sketch.Parsed
import Breadboard.Proofs.Sketch.Single

/-!
Parsing ends. A step of the scan moves forward, a rule that is repeated takes a token or fails, and
so does every cycle of rules within rules. So the bounds on loops and on nesting, which are computed
from what is left to read, are never reached, whatever the text is and wherever it breaks off.
-/

open List

namespace Breadboard

theorem Cursor.tokens_fuel (enough : cursor.rest.length ≤ fuel)
    (alsoEnough : cursor.rest.length ≤ more) :
    Cursor.tokens fuel cursor = Cursor.tokens more cursor := by
  induction fuel generalizing cursor more with
  | zero =>
    obtain ⟨rest, location⟩ := cursor
    cases length_eq_zero_iff.mp (Nat.le_zero.mp enough)
    cases more <;> rfl
  | succ fuel ih =>
    obtain ⟨_ | ⟨c, rest⟩, location⟩ := cursor
    · cases more <;> rfl
    obtain _ | more := more
    · cases alsoEnough
    simp only [tokens]
    cases stepped : step c rest location with
    | error => rfl
    | ok found =>
      obtain ⟨_, -, -, forward⟩ := Lexeme.before_of_step stepped
      change (do let following ← tokens fuel found.2; _) = do let following ← tokens more found.2; _
      rw [ih (forward.trans (Nat.le_of_succ_le_succ enough))
        (forward.trans (Nat.le_of_succ_le_succ alsoEnough))]

theorem Text.length_trim_le (text : List Char) : (trim text).length ≤ text.length := by
  have front := length_dropWhile_le isBlank text
  have back := length_dropWhile_le isBlank (trimStart text).reverse
  simp only [trim, trimEnd, dropEndWhile, trimStart, length_reverse] at back ⊢
  omega

theorem Macro.unwrap_fuel (enough : text.length ≤ fuel) (alsoEnough : text.length ≤ more) :
    unwrap fuel text = unwrap more text := by
  induction fuel generalizing more text with
  | zero =>
    cases length_eq_zero_iff.mp (Nat.le_zero.mp enough)
    cases more <;> rfl
  | succ fuel ih =>
    obtain _ | ⟨c, rest⟩ := text
    · cases more <;> rfl
    obtain _ | more := more
    · cases alsoEnough
    have shorter := Text.length_trim_le rest.dropLast
    rw [length_dropLast] at shorter
    rw [length_cons] at enough alsoEnough
    have again : unwrap fuel (Text.trim rest.dropLast) = unwrap more (Text.trim rest.dropLast) :=
      ih (by omega) (by omega)
    unfold unwrap
    split <;> simp_all

namespace Parse

/-- The rules that are repeated, for what is left and for what nests in them. -/
inductive Repeated (n : Nat) : {α : Type} → Parse α → Prop where
  | topLevel : Repeated n topLevel
  | statement (enough : n ≤ fuel) : Repeated n (statementAt fuel)
  | fields : Repeated n structFields
  | field : Repeated n (structField spec)
  | variable (plain : spec.type.dims = []) : Repeated n (nextVariable spec)
  | object : Repeated n (object className)
  | initializer (enough : n ≤ fuel) : Repeated n (initializerAt fuel)
  | expression {level fuel} (proper : level.Proper) (enough : 16 * n ≤ fuel + level.rank) :
      Repeated n (exprAt fuel level)

theorem Repeated.leads {rule : Parse α} (repeated : rule.Repeated n) : rule.Leads none n 1 := by
  cases repeated with
  | topLevel => exact builds_topLevel.toLeads
  | statement enough => exact (builds_statementAt enough).toLeads
  | fields => exact quiet_structFields.toLeads
  | field => exact (quiet_structField _).toLeads
  | «variable» plain => exact (builds_nextVariable plain).toLeads
  | object => exact (builds_object _).toLeads
  | initializer enough => exact (builds_initializerAt enough).toLeads
  | expression proper enough => exact (builds_exprAt proper enough).toLeads

theorem leads_program : program.Leads none n 0 :=
  leads_remaining fun _ => (builds_itemsUntil _ builds_topLevel le_rfl).toLeads.bind fun _ =>
    leads_reading fun _ => (builds_pure rfl : Quiet _ _ _).toLeads

end Parse

theorem fault_ne_exhausted (failed : parseProgram source = .error error) :
    error.fault ≠ .exhausted := by
  unfold parseProgram at failed
  split at failed
  · rename_i tokens read
    have enough : (Cursor.ofText source.toList).rest.length ≤ source.toList.length := le_rfl
    obtain ⟨lexemes, -, kinds⟩ := Lexeme.cover_of_tokens enough read
    obtain ⟨front, last, rfl, -, isLast⟩ := map_eq_append_iff.mp kinds
    obtain ⟨⟨_, place⟩, rfl, rfl⟩ := map_eq_singleton_iff.mp isLast
    have lands := Parse.leads_program.lands { tokens := front ++ [⟨.endOfFile, place⟩] } _ le_rfl
      ⟨nofun, le_rfl, front, place, rfl⟩
    cases run : Parse.program { tokens := front ++ [⟨.endOfFile, place⟩] } with
    | error cause =>
      rw [run] at lands
      rw [StateT.run, run] at failed
      cases failed
      exact lands
    | ok found =>
      rw [StateT.run, run] at failed
      cases failed
  · cases failed
    exact nofun

/-- No text makes the scan, the replacement and the reading of macros or the grammar come to a
bound: with any larger one the others give the same, and the grammar fails for other reasons only.
Every rule that is repeated takes a token, or fails, also where the text breaks off. -/
theorem parsing_ends (source : String) :
    (∀ bound, source.toList.length ≤ bound →
      Cursor.tokens bound (.ofText source.toList) = tokenize source) ∧
    (∀ definitions expandBody line bound, line.length ≤ bound →
      Macro.substitute definitions expandBody bound line =
        Macro.substitute definitions expandBody line.length line) ∧
    (∀ body bound, body.length ≤ bound →
      Macro.unwrap bound (Text.trim body) = Macro.unwrap body.length (Text.trim body)) ∧
    (∀ error, parseProgram source = .error error → error.fault ≠ .exhausted) ∧
    ∀ {α : Type} (rule : Parse α) (n : Nat), rule.Repeated n → rule.Leads none n 1 :=
  ⟨fun _ enough => Cursor.tokens_fuel enough le_rfl,
    fun _ _ _ _ enough => Macro.substitute_fuel enough le_rfl,
    fun body _ enough => Macro.unwrap_fuel ((Text.length_trim_le body).trans enough)
      (Text.length_trim_le body),
    fun _ => fault_ne_exhausted, fun _ _ => Parse.Repeated.leads⟩

end Breadboard
