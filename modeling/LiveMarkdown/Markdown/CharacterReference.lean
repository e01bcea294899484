import LiveMarkdown.Markdown.NamedReference
import LiveMarkdown.Text.CharClass

/-!
# Character references and escapes

In a finished text a character may be written by its name or its number, between an ampersand and a
semicolon, and a backslash takes the meaning from the punctuation behind it.

## Main definitions

* `characterReference?`: a reference at the start of a text, behind its ampersand.
* `decodeString`: a text with its references and escapes resolved.
-/

namespace LiveMarkdown

/-- Whether a number names no character that a text may hold: controls, halves of surrogate pairs
and the codes that are set aside. -/
def isRefusedCode (n : Nat) : Bool :=
  n < 0x09 || n == 0x0B || (0x0D < n && n < 0x20) || (0x7E < n && n < 0xA0) ||
  (0xD7FF < n && n < 0xE000) || (0xFDCF < n && n < 0xFDF0) ||
  n % 0x10000 == 0xFFFF || n % 0x10000 == 0xFFFE || 0x10FFFF < n

/-- The character of a number. The replacement character stands for what a text may not hold. -/
def charOfCode (n : Nat) : Char :=
  if isRefusedCode n then '\uFFFD' else Char.ofNat n

/-- The value of a digit in a base up to sixteen. -/
def digitValue? (base : Nat) (c : Char) : Option Nat :=
  let value :=
    if c.isDigit then some (c.toNat - 0x30)
    else if 'a' ≤ c && c ≤ 'f' then some (c.toNat - 0x57)
    else if 'A' ≤ c && c ≤ 'F' then some (c.toNat - 0x37)
    else none
  value.filter (· < base)

/-- A number in the given base with at most `limit` digits, up to the semicolon: the character and
the number of characters read. -/
def numericReference? (base limit : Nat) (cs : List Char) : Option (List Char × Nat) :=
  let digits := cs.takeWhile (fun c => (digitValue? base c).isSome)
  if digits.isEmpty || limit < digits.length || (cs.drop digits.length).head? != some ';' then none
  else
    let value := digits.foldl (fun n c => n * base + (digitValue? base c).getD 0) 0
    some ([charOfCode value], digits.length + 1)

/-- A reference at the start of a text, behind its ampersand: what it stands for and the number of
characters read. -/
def characterReference? (cs : List Char) : Option (List Char × Nat) :=
  match cs with
  | '#' :: 'x' :: rest => (numericReference? 16 6 rest).map fun r => (r.1, r.2 + 2)
  | '#' :: 'X' :: rest => (numericReference? 16 6 rest).map fun r => (r.1, r.2 + 2)
  | '#' :: rest => (numericReference? 10 7 rest).map fun r => (r.1, r.2 + 1)
  | cs =>
    let name := cs.takeWhile Char.isAlphanum
    if name.isEmpty || 31 < name.length || (cs.drop name.length).head? != some ';' then none
    else
      (namedReference? (String.ofList name)).map fun s => (s.toList, name.length + 1)

/-- A text with its references and escapes resolved. -/
def decodeString : List Char → List Char
  | [] => []
  | '\\' :: c :: cs =>
    if isEscapable c then c :: decodeString cs else '\\' :: decodeString (c :: cs)
  | '&' :: cs =>
    match characterReference? cs with
    | some (shown, used) => shown ++ decodeString (cs.drop used)
    | none => '&' :: decodeString cs
  | c :: cs => c :: decodeString cs
termination_by cs => cs.length
decreasing_by all_goals simp only [List.length_cons, List.length_drop]; omega

end LiveMarkdown
