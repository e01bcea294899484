/-!
# Trimming

Blank characters at the edges of a line or of a slice of source carry no meaning. The set is wider
than ASCII: it holds the Unicode space separators, both line separators and the byte order mark,
but neither the next-line control nor the zero width space.

## Main definitions

* `isBlankChar`: membership in the set.
* `trimLeft`, `trim`: removal at the start, and at both ends.
-/

namespace LiveMarkdown

/-- A character that trimming removes. -/
def isBlankChar (c : Char) : Bool :=
  let n := c.toNat
  (0x09 ≤ n && n ≤ 0x0D) || n == 0x20 || n == 0xA0 || n == 0x1680 || (0x2000 ≤ n && n ≤ 0x200A) ||
  n == 0x2028 || n == 0x2029 || n == 0x202F || n == 0x205F || n == 0x3000 || n == 0xFEFF

/-- Removes the blank characters at the start. -/
def trimLeft (cs : List Char) : List Char :=
  cs.dropWhile isBlankChar

/-- Removes the blank characters at the end. -/
def trimRight (cs : List Char) : List Char :=
  (cs.reverse.dropWhile isBlankChar).reverse

/-- Removes the blank characters at both ends. -/
def trim (cs : List Char) : List Char :=
  trimRight (trimLeft cs)

/-- ASCII white space is blank. -/
theorem isBlankChar_of_ascii {c : Char} (h : c = ' ' ∨ c = '\t' ∨ c = '\n' ∨ c = '\r') :
    isBlankChar c = true := by
  rcases h with rfl | rfl | rfl | rfl <;> rfl

end LiveMarkdown
