import Breadboard.Text.Blank
import Breadboard.Text.Combining
import Breadboard.Text.Integer
import Breadboard.Text.Unassigned

/-!
Texts in quotes, as messages show them. Characters that would not be seen for what
they are stand as an escape with their code point.
-/

namespace Breadboard.Text

/-- Whether a character is seen as itself wherever it stands. A blank is not, except
for the space. -/
def isVisible (c : Char) : Bool :=
  c = ' ' || !(isBlank c || controls.has c || formatControls.has c || privateUse.has c ||
    defaultIgnorable.has c || combining.has c || unassigned.has c)

def shown (c : Char) : List Char :=
  match c with
  | '"' => ['\\', '"']
  | '\\' => ['\\', '\\']
  | '\n' => ['\\', 'n']
  | '\r' => ['\\', 'r']
  | '\t' => ['\\', 't']
  | '\x00' => ['\\', '0']
  | _ =>
      if isVisible c then [c]
      else ['\\', 'u', '\x7b'] ++ digits 16 false c.toNat ++ ['\x7d']

def quoted (text : String) : String :=
  "\"" ++ String.ofList (text.toList.flatMap shown) ++ "\""

end Breadboard.Text
