namespace PushAudit.Console

inductive Color
  | red
  | yellow
  | blue
  | cyan
deriving DecidableEq, Repr

def Color.code : Color → String
  | red => "31"
  | yellow => "33"
  | blue => "34"
  | cyan => "36"

def sgr (code : String) : String := "\x1b[" ++ code ++ "m"

def Color.paint (c : Color) (s : String) : String := sgr c.code ++ s ++ sgr "39"

def bold (s : String) : String := sgr "1" ++ s ++ sgr "0"

def styled (color : Bool) (style : String → String) (s : String) : String := if color then style s else s

inductive Format
  | human
  | json
deriving DecidableEq, Repr

def Format.ofName (s : String) : Format := if s = "json" then json else human

structure Printed where
  out : String
  err : String
deriving DecidableEq, Repr

def errorTag (color : Bool) : String := styled color (fun s => bold (Color.red.paint s)) "error:"

def noteTag (color : Bool) : String := styled color (fun s => bold (Color.cyan.paint s)) "note:"

/-- Whether a format is colored, where color is allowed at all. -/
def usesColor (color : Bool) (f : Format) : Bool := f != .json && color

@[simp] theorem usesColor_human (color : Bool) : usesColor color .human = color := rfl

end PushAudit.Console
