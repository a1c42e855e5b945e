import CallForest.Text.Extending
import CallForest.Text.Unprintable

/-!
# Quoted text

A text between double quotes with backslash escapes, so that it stays on one line and every
character of it is seen.
-/

namespace CallForest

namespace Text

/-- The hexadecimal digits of `n`, in lower case, at least `width` of them. -/
def hex (width n : Nat) : String :=
  let digits := String.ofList (Nat.toDigits 16 n)
  "".pushn '0' (width - digits.length) ++ digits

/-- The character shows as itself wherever it stands. -/
def isPlain (c : Char) : Bool := !isUnprintable c && !isExtending c

/-- Quotes and backslashes are escaped, and characters that are not plain too: the usual controls by
a letter and all others by their number. -/
def quotedChar (c : Char) : String :=
  match c with
  | '"' => "\\\""
  | '\\' => "\\\\"
  | '\n' => "\\n"
  | '\r' => "\\r"
  | '\t' => "\\t"
  | '\x00' => "\\0"
  | c =>
    if isPlain c then String.singleton c else "\\u\x7b" ++ hex 1 c.toNat ++ "\x7d"

/-- The quoted text. -/
def quoted (s : String) : String :=
  s.toList.foldl (fun acc c => acc ++ quotedChar c) "\"" ++ "\""

end Text

end CallForest
