import StreamQuery.Text.GraphemeExtend
import StreamQuery.Text.Unprintable

/-!
# Quoted text

`quoted` writes a text between double quotes so that it can be read on a terminal: quotes,
backslashes and the usual control characters have short escapes, and any other character that would
not show up, or would change the one before it, is written by its code point.
-/

namespace StreamQuery.Text

/-- The code point of a character in lower-case hexadecimal, without leading zeros. -/
def hexadecimal (c : Char) : String :=
  String.ofList (Nat.toDigits 16 c.toNat)

/-- Whether a character would change the one before it. The voiced and semi-voiced sound marks of
halfwidth Katakana extend a grapheme too, but are letters that take up a place of their own. -/
def isCombining (c : Char) : Bool :=
  isGraphemeExtend c && c ≠ '\uff9e' && c ≠ '\uff9f'

/-- One character of a quoted text. -/
def escape (c : Char) : String :=
  match c with
  | '\x00' => "\\0"
  | '\t' => "\\t"
  | '\n' => "\\n"
  | '\r' => "\\r"
  | '"' => "\\\""
  | '\\' => "\\\\"
  | c =>
    if isCombining c || isUnprintable c then
      "\\u\x7b" ++ hexadecimal c ++ "\x7d"
    else
      c.toString

/-- A text between double quotes, with escapes. -/
def quoted (text : String) : String :=
  "\"" ++ String.join (text.toList.map escape) ++ "\""

example : quoted "it's \"so\"\n" = "\"it's \\\"so\\\"\\n\"" := by decide +kernel

end StreamQuery.Text
