/-!
Blank characters and trimming. A character is blank when it has the Unicode
property White_Space, which holds of twenty-five characters.
-/

namespace Breadboard.Text

def isBlank (c : Char) : Bool :=
  let n := c.toNat
  (0x09 ≤ n && n ≤ 0x0D) || n == 0x20 || n == 0x85 || n == 0xA0 || n == 0x1680 ||
    (0x2000 ≤ n && n ≤ 0x200A) || n == 0x2028 || n == 0x2029 || n == 0x202F ||
    n == 0x205F || n == 0x3000

def trimStart (text : List Char) : List Char := text.dropWhile isBlank

def dropEndWhile (drop : Char → Bool) (text : List Char) : List Char :=
  (text.reverse.dropWhile drop).reverse

def trimEnd (text : List Char) : List Char := dropEndWhile isBlank text

def trim (text : List Char) : List Char := trimEnd (trimStart text)

def after? (start text : List Char) : Option (List Char) :=
  match start, text with
  | [], text => some text
  | _, [] => none
  | expected :: start, c :: text => if expected = c then after? start text else none

end Breadboard.Text
