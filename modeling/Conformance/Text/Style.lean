namespace Conformance.Text

inductive Weight where
  | bold
  | dimmed
deriving DecidableEq, Repr

def Weight.code : Weight → String
  | bold => "1"
  | dimmed => "2"

inductive Color where
  | red
  | green
  | yellow
  | cyan
deriving DecidableEq, Repr

def Color.code : Color → String
  | red => "31"
  | green => "32"
  | yellow => "33"
  | cyan => "36"

structure Style where
  weight : Option Weight := none
  color : Option Color := none
deriving DecidableEq, Repr

namespace Style

def bold : Style := { weight := some .bold }

def dimmed : Style := { weight := some .dimmed }

def colored (color : Color) : Style := { color := some color }

def boldColored (color : Color) : Style := { weight := some .bold, color := some color }

def codes (style : Style) : List String :=
  (style.weight.map Weight.code).toList ++ (style.color.map Color.code).toList

def start (style : Style) : String :=
  "\x1b[" ++ ";".intercalate style.codes ++ "m"

def finish : String := "\x1b[0m"

end Style

/-- A text in the given style. An end of styles inside it is followed by the
style again, so that it holds up to the last character. -/
def styled (on : Bool) (style : Style) (text : String) : String :=
  if on then
    let start := style.start
    start ++ text.replace Style.finish (Style.finish ++ start) ++ Style.finish
  else text

structure StyleWishes where
  force : Option String
  never : Option String
  usual : Option String

def StyleWishes.isOn (wishes : StyleWishes) (seen : Bool) : Bool :=
  if wishes.force.any (· != "0") then true
  else if wishes.never.isSome then false
  else seen && wishes.usual.all (· != "0")

@[simp] theorem styled_false (style : Style) (text : String) :
    styled false style text = text := rfl

end Conformance.Text
