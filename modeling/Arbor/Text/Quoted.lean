import Arbor.Text.Escaped

/-!
# Quoted text

Text in double quotes, with escapes for quotes, backslashes, line ends, tabulators, zero characters
and everything that leaves no mark of its own.
-/

namespace Arbor.Text

def escape (c : Char) : String :=
  match c with
  | '\x00' => "\\0"
  | '\t' => "\\t"
  | '\r' => "\\r"
  | '\n' => "\\n"
  | '\\' => "\\\\"
  | '"' => "\\\""
  | c =>
    if isEscaped c then "\\u\x7b" ++ String.ofList (Nat.toDigits 16 c.toNat) ++ "\x7d"
    else c.toString

def quoted (text : String) : String :=
  "\"" ++ text.foldl (fun written c => written ++ escape c) "" ++ "\""

def trimQuotes (text : String) : String :=
  let isQuote : Char → Bool := (· == '"')
  String.ofList ((text.toList.dropWhile isQuote).reverse.dropWhile isQuote).reverse

end Arbor.Text
