import Breadboard.Memory.Value

/-!
Methods of library objects. A method either is computed here or is passed on to
the host, which supplies the result where there is one.
-/

namespace Breadboard

/-- What calling a method does. A computed method may refuse its arguments. -/
inductive Route where
  | internal (compute : List Value → Option Value)
  | external (returnsValue : Bool)

abbrev Library := List ((String × String) × Route)

namespace Library

def register (library : Library) (className method : String) (route : Route) : Library :=
  ((className, method), route) :: library

def route? (library : Library) (className method : String) : Option Route :=
  library.lookup (className, method)

def hasClass (library : Library) (className : String) : Bool :=
  library.any fun entry => entry.1.1 = className

def channel? (args : List Value) (pos : Nat) : Option UInt32 :=
  (args[pos]?.bind Value.integer?).map fun n => n.toUInt64.toUInt32 &&& 0xFF

/-- Red, green, blue and perhaps white in one word, white in the highest byte. -/
def pixelColor (args : List Value) : Option Value := do
  let red ← channel? args 0
  let green ← channel? args 1
  let blue ← channel? args 2
  let white ← if 3 < args.length then channel? args 3 else some 0
  some (.unsigned ((white <<< 24) ||| (red <<< 16) ||| (green <<< 8) ||| blue))

def registerAll (library : Library) (className : String) (methods : List String)
    (returnsValue : Bool) : Library :=
  methods.foldl (fun table method => table.register className method (.external returnsValue))
    library

def standard : Library :=
  let library : Library := []
  let library :=
    library.registerAll "Servo" ["attach", "write", "writeMicroseconds", "detach"] false
  let library := library.registerAll "Servo" ["read", "attached"] true
  let library := library.registerAll "Adafruit_NeoPixel"
    ["begin", "show", "clear", "setPixelColor", "setBrightness", "fill"] false
  let library :=
    library.registerAll "Adafruit_NeoPixel" ["getPixelColor", "numPixels"] true
  let library := library.register "Adafruit_NeoPixel" "Color" (.internal pixelColor)
  library.registerAll "LiquidCrystal" ["begin", "print", "clear", "setCursor", "home"] false

end Library

end Breadboard
