import Rv32i.Text.Numeral

/-!
# Terminal styles

A text may be shown in a style, by the escape sequences of a terminal. Where styles are off the
text stands for itself.
-/

namespace Rv32i

open Text

/-- The styles of a report. -/
inductive Style
  | bold | dimmed | red | green | yellow | cyan
deriving DecidableEq

namespace Style

/-- The terminal's number for a style. -/
def code : Style → Nat
  | bold => 1
  | dimmed => 2
  | red => 31
  | green => 32
  | yellow => 33
  | cyan => 36

/-- The text in a style, if styles are on. -/
def paint (style : Style) (styled : Bool) (text : String) : String :=
  if styled then "\x1b[" ++ decimal style.code ++ "m" ++ text ++ "\x1b[0m" else text

@[simp] theorem paint_false (style : Style) (text : String) : style.paint false text = text := rfl

end Style

end Rv32i
