/-!
# Offsets in sixteen-bit units

Offsets into a text count sixteen-bit units: a character outside the basic plane counts as two. An
offset may fall between the two units of one character; the half that is left is shown by the
replacement character.

## Main definitions

* `unitLength`: the units of a character.
* `dropUnits`, `takeUnits`, `sliceUnits`: parts of a text.
-/

namespace LiveMarkdown

/-- The number of units of a character. -/
def unitLength (c : Char) : Nat :=
  if c.toNat < 0x10000 then 1 else 2

/-- What stands for half of a character. -/
def halfChar : Char := '\uFFFD'

/-- The text behind the first `n` units. -/
def dropUnits : Nat → List Char → List Char
  | 0, cs => cs
  | _ + 1, [] => []
  | n + 1, c :: cs =>
    if unitLength c = 1 then dropUnits n cs
    else
      match n with
      | 0 => halfChar :: cs
      | m + 1 => dropUnits m cs

/-- The first `n` units of a text. -/
def takeUnits : Nat → List Char → List Char
  | 0, _ => []
  | _ + 1, [] => []
  | n + 1, c :: cs =>
    if unitLength c = 1 then c :: takeUnits n cs
    else
      match n with
      | 0 => [halfChar]
      | m + 1 => c :: takeUnits m cs

/-- The units from one offset up to another. -/
def sliceUnits (start stop : Nat) (cs : List Char) : List Char :=
  takeUnits (stop - start) (dropUnits start cs)

end LiveMarkdown
