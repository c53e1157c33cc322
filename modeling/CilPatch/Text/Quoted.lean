import CilPatch.Text.Digits
import CilPatch.Text.Plain

/-!
# Quoted text

A text between double quotes, on one line and free of characters without a visible form.  A
backslash opens an escape: `\0 \t \r \n \" \\` for the six characters that have a name, and
`\u{h}` with the code point in hexadecimal for every other character that is not plain.
-/

namespace CilPatch.Text

/-- what stands for `c` between the quotes -/
def escapeChar (c : Char) : String :=
  match c with
  | '\x00' => "\\0"
  | '\t' => "\\t"
  | '\r' => "\\r"
  | '\n' => "\\n"
  | '"' => "\\\""
  | '\\' => "\\\\"
  | c => if isPlain c then c.toString else "\\u\x7b" ++ hex c.toNat ++ "\x7d"

def quoted (s : String) : String :=
  "\"" ++ String.join (s.toList.map escapeChar) ++ "\""

end CilPatch.Text
