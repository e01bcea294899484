/-!
# Character classes

A delimiter run is judged by the characters next to it, and a line by the characters it starts with.
Both judgements need only the class of a character. The classes are decided on the numeric code of a
text unit, so that a code beyond the Unicode range, or half of a surrogate pair, has a class too.

## Main definitions

* `isLineBreakCode`, `isSpaceCode`, `isWhiteSpaceCode`, `isAsciiWhiteSpaceCode`, `isDigitCode`,
  `isEscapableCode`, `isPunctuationCode`, `isShortcodeCode`: the classes as tests on codes.
* `CharClass`: the class that matters next to a delimiter run.
* `CharClass.ofCode`: the class of a code, where no code at all is an end of the text.
-/

namespace LiveMarkdown

/-- Line feed, carriage return, the two Unicode separators and the next-line control. -/
def isLineBreakCode (code : Nat) : Bool :=
  code == 0x0A || code == 0x0D || code == 0x2028 || code == 0x2029 || code == 0x85

/-- White space that does not end a line. The zero width space counts. -/
def isSpaceCode (code : Nat) : Bool :=
  code == 0x20 || code == 0x09 || code == 0x0B || code == 0x0C || code == 0xA0 || code == 0x1680 ||
  code == 0x202F || code == 0x205F || code == 0x3000 || (0x2000 ≤ code && code ≤ 0x200B)

/-- White space of either sort. -/
def isWhiteSpaceCode (code : Nat) : Bool :=
  isSpaceCode code || isLineBreakCode code

/-- The white space that is cut off the edges of a fragment: tab to carriage return, and space. -/
def isAsciiWhiteSpaceCode (code : Nat) : Bool :=
  code == 0x20 || (0x09 ≤ code && code ≤ 0x0D)

/-- An ASCII digit. -/
def isDigitCode (code : Nat) : Bool :=
  0x30 ≤ code && code ≤ 0x39

/-- ASCII punctuation, which is exactly what a backslash can escape. -/
def isEscapableCode (code : Nat) : Bool :=
  (0x21 ≤ code && code ≤ 0x2F) || (0x3A ≤ code && code ≤ 0x40) ||
  (0x5B ≤ code && code ≤ 0x60) || (0x7B ≤ code && code ≤ 0x7E)

/-- Punctuation next to a delimiter run: ASCII punctuation, the general punctuation block, the
common ideographic marks and seven Latin marks. -/
def isPunctuationCode (code : Nat) : Bool :=
  isEscapableCode code ||
  (0x2010 ≤ code && code ≤ 0x2027) || (0x2030 ≤ code && code ≤ 0x205E) ||
  (0x3001 ≤ code && code ≤ 0x3003) || (0x3008 ≤ code && code ≤ 0x3011) ||
  code == 0xA1 || code == 0xA7 || code == 0xAB || code == 0xB6 ||
  code == 0xB7 || code == 0xBB || code == 0xBF

/-- A character of an emoji shortcode name. -/
def isShortcodeCode (code : Nat) : Bool :=
  isDigitCode code || (0x41 ≤ code && code ≤ 0x5A) || (0x61 ≤ code && code ≤ 0x7A) ||
  code == 0x5F || code == 0x2B || code == 0x2D

/-- What the character next to a delimiter run is. Either end of the text counts as white space. -/
inductive CharClass where
  | whiteSpace
  | punctuation
  | letter
  | digit
  deriving DecidableEq, Repr

namespace CharClass

/-- The class of a code. White space is tested first and everything unnamed is a letter, so the
four classes partition the codes. -/
def ofCode : Option Nat → CharClass
  | none => whiteSpace
  | some code =>
    if isWhiteSpaceCode code then whiteSpace
    else if isDigitCode code then digit
    else if isPunctuationCode code then punctuation
    else letter

/-- The class of a neighbouring character. A character outside the basic plane is a letter, and so
is each half of its surrogate pair, hence the class does not depend on the unit of text. -/
def ofChar? (c : Option Char) : CharClass :=
  ofCode (c.map Char.toNat)

/-- Letters and digits, the classes that make up a word. -/
def isWord : CharClass → Bool
  | letter => true
  | digit => true
  | _ => false

/-- The index under which the class is reported. -/
def toNat : CharClass → Nat
  | whiteSpace => 0
  | punctuation => 1
  | letter => 2
  | digit => 3

/-- The class with the given index. -/
def ofNat? : Nat → Option CharClass
  | 0 => some whiteSpace
  | 1 => some punctuation
  | 2 => some letter
  | 3 => some digit
  | _ => none

end CharClass

/-- White space that does not end a line. -/
def isSpace (c : Char) : Bool := isSpaceCode c.toNat

/-- White space that is cut off the edges of a fragment. -/
def isAsciiWhiteSpace (c : Char) : Bool := isAsciiWhiteSpaceCode c.toNat

/-- A character that a backslash can escape. -/
def isEscapable (c : Char) : Bool := isEscapableCode c.toNat

/-- A character of an emoji shortcode name. -/
def isShortcodeChar (c : Char) : Bool := isShortcodeCode c.toNat

end LiveMarkdown
