import LiveMarkdown.Text.CharClass

/-!
# Flanking rules

Whether a delimiter run may open or close a construct depends only on the classes of the characters
directly before and after it. Each delimiter has its own rule. An asterisk or a tilde opens when it
is left flanking and closes when it is right flanking; an underscore does so at the edge of a word
only; the pairs `++` and `==` keep away from words on their outer side; a single dollar sign before
a digit is a currency sign; a double one always counts.

## Main definitions

* `isLeftFlanking`, `isRightFlanking`: the two basic tests.
* `Delimiter`: the ten delimiters with a rule.
* `Delimiter.canOpen`, `Delimiter.canClose`: the rules.
-/

namespace LiveMarkdown

/-- A left flanking run leans on what follows it. -/
def isLeftFlanking (before after : CharClass) : Bool :=
  after != .whiteSpace &&
    (after != .punctuation || before == .whiteSpace || before == .punctuation)

/-- A right flanking run leans on what precedes it. -/
def isRightFlanking (before after : CharClass) : Bool :=
  before != .whiteSpace &&
    (before != .punctuation || after == .whiteSpace || after == .punctuation)

/-- The delimiters whose runs are judged by their neighbours. -/
inductive Delimiter where
  | star
  | doubleStar
  | underscore
  | doubleUnderscore
  | tilde
  | doubleTilde
  | doublePlus
  | doubleEquals
  | dollar
  | doubleDollar
  deriving DecidableEq, Repr

namespace Delimiter

/-- Every delimiter, in the order in which the rules are listed. -/
def all : List Delimiter :=
  [star, doubleStar, underscore, doubleUnderscore, tilde, doubleTilde, doublePlus, doubleEquals,
    dollar, doubleDollar]

/-- The delimiter as written. -/
def spelling : Delimiter → String
  | star => "*"
  | doubleStar => "**"
  | underscore => "_"
  | doubleUnderscore => "__"
  | tilde => "~"
  | doubleTilde => "~~"
  | doublePlus => "++"
  | doubleEquals => "=="
  | dollar => "$"
  | doubleDollar => "$$"

/-- Whether a run between the two classes may open a construct. -/
def canOpen (d : Delimiter) (before after : CharClass) : Bool :=
  match d with
  | star | doubleStar | tilde | doubleTilde => isLeftFlanking before after
  | underscore | doubleUnderscore =>
    isLeftFlanking before after && (!isRightFlanking before after || before == .punctuation)
  | doublePlus | doubleEquals => !before.isWord && after != .whiteSpace
  | dollar => after != .whiteSpace && after != .digit
  | doubleDollar => true

/-- Whether a run between the two classes may close a construct. -/
def canClose (d : Delimiter) (before after : CharClass) : Bool :=
  match d with
  | star | doubleStar | tilde | doubleTilde => isRightFlanking before after
  | underscore | doubleUnderscore =>
    isRightFlanking before after && (!isLeftFlanking before after || after == .punctuation)
  | doublePlus | doubleEquals => !after.isWord && before != .whiteSpace
  | dollar => before != .whiteSpace
  | doubleDollar => true

end Delimiter

end LiveMarkdown
