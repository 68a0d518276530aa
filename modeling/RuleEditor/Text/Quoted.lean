import RuleEditor.Text.Printable

/-!
# Quoted texts

A quoted text stands between double quotes, and some of its characters are written as escapes.
Three sets of escapes are in use: those of JSON, those of a constant shown to a reader, and those
of a text cited in a message.
-/

namespace RuleEditor.Text

/-- The text between quotes, each character written by `spell`. -/
def quoteWith (spell : Char → String) (text : String) : String :=
  "\"" ++ String.join (text.toList.map spell) ++ "\""

/-- Lower-case hexadecimal digits, as few as possible. -/
def hexadecimal (n : Nat) : String := String.ofList (Nat.toDigits 16 n)

/-! ## JSON -/

/-- JSON escapes the quote, the backslash and the control characters, five of them by a letter. -/
def spellJson (c : Char) : String :=
  match c with
  | '"' => "\\\""
  | '\\' => "\\\\"
  | '\x08' => "\\b"
  | '\x0c' => "\\f"
  | '\n' => "\\n"
  | '\r' => "\\r"
  | '\t' => "\\t"
  | c =>
    if c.toNat < 0x10 then "\\u000" ++ hexadecimal c.toNat
    else if c.toNat < 0x20 then "\\u00" ++ hexadecimal c.toNat
    else c.toString

def quoteJson (text : String) : String := quoteWith spellJson text

/-! ## Constants shown to a reader -/

/-- A shown constant escapes the quote, the backslash and the line break. -/
def spellShown (c : Char) : String :=
  match c with
  | '"' => "\\\""
  | '\\' => "\\\\"
  | '\n' => "\\n"
  | c => c.toString

def quoteShown (text : String) : String := quoteWith spellShown text

/-! ## Texts cited in messages -/

/-- A cited text escapes the quote, the backslash and every character that is not printable. -/
def spellCited (c : Char) : String :=
  match c with
  | '"' => "\\\""
  | '\\' => "\\\\"
  | '\n' => "\\n"
  | '\r' => "\\r"
  | '\t' => "\\t"
  | '\x00' => "\\0"
  | c => if isPrintable c then c.toString else "\\u\x7b" ++ hexadecimal c.toNat ++ "\x7d"

def quoteCited (text : String) : String := quoteWith spellCited text

end RuleEditor.Text
