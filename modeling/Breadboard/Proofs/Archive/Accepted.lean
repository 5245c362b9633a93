import Breadboard.Proofs.Archive.RoundTrip
import Breadboard.Proofs.Sketch.Nesting
import Breadboard.Proofs.Sketch.Parsed

/-!
Sketches in the archive. The arena of a parsed sketch is a forest whatever the sketch holds, so
one that fits the format is restored, unless it nests deeper than a stored program may: then
reading refuses it for its depth. Parsing has no such bound, so there are sketches that cannot be
restored.
-/

namespace Breadboard

/-- In the program of a sketch, children come before their parents. -/
theorem child_lt_of_parseSketch (parsed : parseSketch source = .ok sketch) (child parent : NodeId)
    (isChild : sketch.program.Child child parent) : child < parent :=
  (grown_of_parseSketch parsed).child_lt isChild

namespace Archive

/-- A sketch that fits the format is restored if no way down its program is longer than a stored
program may have, and refused for its depth otherwise. -/
theorem decode_encode_sketch {source : String} {sketch : Sketch}
    (parsed : parseSketch source = .ok sketch) (fits : Fits sketch.program) :
    ((∀ path, sketch.program.Descends path → path.length ≤ maxDepth) →
      decode (encode sketch.program) = .ok sketch.program) ∧
    ∀ path, sketch.program.Descends path → maxDepth < path.length →
      decode (encode sketch.program) = .error (.tooDeep maxDepth) := by
  have grown := grown_of_parseSketch parsed
  have unshared : sketch.program.references.Nodup := grown.distinct.of_append_left
  have acyclic := Program.not_ancestor_of_ordered (child_lt_of_parseSketch parsed)
  rw [decode_encode_eq fits grown.references_lt grown.inside]
  constructor
  · intro shallow
    have bounded : sketch.program.IsBoundedForest maxDepth :=
      ⟨grown.references_lt, grown.inside, unshared, acyclic,
        fun _ _ _ path _ descends => shallow path descends⟩
    rw [checkForest_of_isBoundedForest bounded]
    rfl
  · intro path descends long
    rw [checkForest_eq_tooDeep grown.references_lt grown.inside unshared acyclic descends long]
    rfl

/-- A prototype, an array whose size is computed, and a cast written like a call. -/
def sensorText : String :=
  "int read(int pin);\nfloat gains[2 + 2];\nint read(int pin) \x7b return int(gains[pin]); \x7d"

theorem sensorText_restored :
    ∃ sketch, parseSketch sensorText = .ok sketch ∧ Fits sketch.program ∧
      decode (encode sketch.program) = .ok sketch.program := by
  have read : (parseSketch sensorText).toOption.any (fun sketch =>
      decide (Fits sketch.program ∧ sketch.program.nodes.size ≤ maxDepth)) = true := by
    decide +kernel
  cases parsed : parseSketch sensorText with
  | error error =>
      rw [parsed] at read
      cases read
  | ok sketch =>
      rw [parsed] at read
      obtain ⟨fits, few⟩ := of_decide_eq_true read
      have ordered := child_lt_of_parseSketch parsed
      refine ⟨sketch, rfl, fits, (decode_encode_sketch parsed fits).1 fun path descends => ?_⟩
      refine Program.length_le_of_roots (by decide) (Program.not_ancestor_of_ordered ordered)
        (fun root inside _ => ?_) descends
      exact (Program.within_of_ordered ordered root).mono (Nat.le_trans inside few)

/-- A sketch that nests too deep for the archive. -/
theorem complements_refused :
    ∃ sketch, parseSketch (String.ofList (complements maxDepth)) = .ok sketch ∧
      decode (encode sketch.program) ≠ .ok sketch.program := by
  obtain ⟨sketch, parsed, path, descends, long⟩ := parseSketch_complements maxDepth
  refine ⟨sketch, parsed, fun restored => ?_⟩
  have bounded := isBoundedForest_of_checkForest (decode_eq_ok.mp restored).2
  have short := Program.length_le_of_roots (by decide) bounded.acyclic bounded.shallow descends
  omega

end Archive

end Breadboard
