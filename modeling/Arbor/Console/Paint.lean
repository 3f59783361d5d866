/-!
# Colours on a terminal

Text between an escape sequence that switches a colour or bold face on and one that switches it off.
-/

namespace Arbor.Console

inductive Colour where
  | red
  | yellow
  | white
  | brightBlack
  | brightRed
  | brightGreen
  | brightYellow
  | brightBlue
  | brightMagenta
  | brightCyan
  | brightWhite
deriving DecidableEq, Repr

def Colour.code : Colour → Nat
  | red => 31
  | yellow => 33
  | white => 37
  | brightBlack => 90
  | brightRed => 91
  | brightGreen => 92
  | brightYellow => 93
  | brightBlue => 94
  | brightMagenta => 95
  | brightCyan => 96
  | brightWhite => 97

def escapeStart : String := "\x1b["

def Colour.paint (colour : Colour) (text : String) : String :=
  escapeStart ++ toString colour.code ++ "m" ++ text ++ escapeStart ++ "39m"

def bold (text : String) : String := escapeStart ++ "1m" ++ text ++ escapeStart ++ "0m"

end Arbor.Console
