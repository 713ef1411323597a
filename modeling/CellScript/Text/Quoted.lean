import CellScript.Text.Rune
import CellScript.Text.Printable

/-! Quoted text as messages and tree listings show it: printable runes as they are, everything
else as a backslash escape. -/
namespace CellScript.Text

def hexDigit (n : Nat) : UInt8 := (if n % 16 < 10 then 48 + n % 16 else 87 + n % 16).toUInt8

/-- The last `width` hexadecimal digits of a number, in lower case. -/
def hex : (width : Nat) → Nat → Text
  | 0, _ => []
  | w + 1, n => hex w (n / 16) ++ [hexDigit n]

def shortEscape : Nat → Option Char
  | 7 => some 'a'
  | 8 => some 'b'
  | 9 => some 't'
  | 10 => some 'n'
  | 11 => some 'v'
  | 12 => some 'f'
  | 13 => some 'r'
  | _ => none

/-- One code point inside quotes of the given kind. -/
def escapePoint (quote : UInt8) (n : Nat) : Text :=
  if n = quote.toNat || n = 92 then [92, n.toUInt8]
  else if isPrintable n then Rune.encode n
  else match shortEscape n with
  | some c => [92, byte c]
  | none =>
    if n < 32 || n = 127 then utf8 "\\x" ++ hex 2 n
    else if n < 0x10000 then utf8 "\\u" ++ hex 4 n
    else utf8 "\\U" ++ hex 8 n

def escapeRune (quote : UInt8) : Rune → Text
  | .point n => escapePoint quote n
  | .stray b => utf8 "\\x" ++ hex 2 b.toNat

/-- The text in double quotes. -/
def quoted (t : Text) : Text :=
  byte '"' :: t.runes.flatMap (escapeRune (byte '"')) ++ [byte '"']

/-- A single code point in single quotes. -/
def quotedPoint (n : Nat) : Text := [39] ++ escapePoint 39 n ++ [39]

end CellScript.Text
