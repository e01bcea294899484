import LiveMarkdown.Completion.Flanking

/-!
# Open constructs

A text that stops in the middle of a construct leaves it open. Each open construct knows the text
that closes it and the text that opens it again in a later fragment. A link whose address has not
arrived yet is closed with a placeholder address.

## Main definitions

* `Marker`: the delimiters of emphasis and its relatives.
* `OpenConstruct`: an inline construct that has been opened and not yet closed.
* `OpenConstruct.closer`, `OpenConstruct.opener`: the closing and the reopening text.
* `OpenFence`: a fenced code block that is still open, with `OpenFence.closer`.
-/

namespace LiveMarkdown

/-- A delimiter that brackets inline content. -/
inductive Marker where
  | star
  | doubleStar
  | underscore
  | doubleUnderscore
  | tilde
  | doubleTilde
  | doublePlus
  | doubleEquals
  deriving DecidableEq, Repr

namespace Marker

/-- The character a marker repeats. -/
def char : Marker → Char
  | star | doubleStar => '*'
  | underscore | doubleUnderscore => '_'
  | tilde | doubleTilde => '~'
  | doublePlus => '+'
  | doubleEquals => '='

/-- The number of characters of a marker. -/
def length : Marker → Nat
  | star | underscore | tilde => 1
  | doubleStar | doubleUnderscore | doubleTilde | doublePlus | doubleEquals => 2

/-- The marker as written. -/
def text (m : Marker) : List Char :=
  List.replicate m.length m.char

/-- The delimiter whose flanking rule governs the marker. -/
def delimiter : Marker → Delimiter
  | star => .star
  | doubleStar => .doubleStar
  | underscore => .underscore
  | doubleUnderscore => .doubleUnderscore
  | tilde => .tilde
  | doubleTilde => .doubleTilde
  | doublePlus => .doublePlus
  | doubleEquals => .doubleEquals

theorem length_pos (m : Marker) : 0 < m.length := by
  cases m <;> decide

theorem text_length (m : Marker) : m.text.length = m.length := by
  simp [text]

/-- The markers in a fixed order. -/
def all : List Marker :=
  [star, doubleStar, underscore, doubleUnderscore, tilde, doubleTilde, doublePlus, doubleEquals]

/-- The marker with the given spelling. -/
def ofText? (cs : List Char) : Option Marker :=
  all.find? (fun m => m.text == cs)

end Marker

/-- An inline construct that has been opened and not yet closed. -/
inductive OpenConstruct where
  /-- Content between two equal markers. -/
  | delimiter (marker : Marker)
  /-- A code span; only a run of as many backticks closes it. -/
  | codeSpan (run : Nat)
  /-- A formula. A display formula whose opener stood alone on its line is closed on its own
  line. -/
  | math (display ownLine : Bool)
  /-- The bracketed label of a link, an image or a footnote. -/
  | linkLabel (image footnote : Bool)
  /-- The address of a link, inside so many parentheses. -/
  | linkDestination (depth : Nat)
  deriving DecidableEq, Repr

/-- The address given to a link whose own address has not arrived yet. -/
def incompleteLinkAddress : List Char := "mdex:incomplete-link".toList

namespace OpenConstruct

/-- The text that closes a construct. -/
def closer : OpenConstruct → List Char
  | delimiter marker => marker.text
  | codeSpan run => List.replicate run '`'
  | math false _ => ['$']
  | math true false => ['$', '$']
  | math true true => ['\n', '$', '$']
  | linkLabel _ true => [']']
  | linkLabel _ false => [']', '('] ++ incompleteLinkAddress ++ [')']
  | linkDestination depth => List.replicate depth ')'

/-- The text that opens a construct again in a later fragment. An address has none: it only makes
sense after its label. -/
def opener : OpenConstruct → List Char
  | delimiter marker => marker.text
  | codeSpan run => List.replicate run '`'
  | math false _ => ['$']
  | math true _ => ['$', '$']
  | linkLabel true _ => ['!', '[']
  | linkLabel false _ => ['[']
  | linkDestination _ => []

/-- Whether a construct is reopened in the fragment that follows. Blocks and links are not. -/
def carriesOver : OpenConstruct → Bool
  | delimiter _ => true
  | codeSpan _ => true
  | math display _ => !display
  | _ => false

/-- Inside code, formulas and addresses only the matching closer counts. -/
def isLiteral : OpenConstruct → Bool
  | codeSpan _ => true
  | math _ _ => true
  | linkDestination _ => true
  | _ => false

end OpenConstruct

/-- The character of a code fence. -/
inductive FenceMark where
  | backtick
  | tilde
  deriving DecidableEq, Repr

namespace FenceMark

/-- The character itself. -/
def char : FenceMark → Char
  | backtick => '`'
  | tilde => '~'

/-- The mark that a character is, if any. -/
def ofChar? (c : Char) : Option FenceMark :=
  if c = '`' then some backtick else if c = '~' then some tilde else none

theorem ofChar?_char (m : FenceMark) : ofChar? m.char = some m := by
  cases m <;> rfl

theorem char_of_ofChar? {c : Char} {mark : FenceMark} (h : ofChar? c = some mark) :
    mark.char = c := by
  unfold ofChar? at h
  split at h
  · rename_i hc
    rw [← Option.some.inj h, hc]
    rfl
  · obtain ⟨rfl, h⟩ := Option.ite_none_right_eq_some.mp h
    rw [← Option.some.inj h]
    rfl

end FenceMark

/-- A fenced code block that is still open where the text ends. -/
structure OpenFence where
  /-- The character of the fence. -/
  mark : FenceMark
  /-- The length of the opening run. -/
  length : Nat
  /-- The columns between the block quote markers and the fence. -/
  indent : Nat
  /-- The number of block quotes around the fence. -/
  quoteDepth : Nat
  /-- What a closing line has to begin with to stay in the same containers. -/
  leader : List Char
  /-- Whether a line has followed the opening one. -/
  hasBody : Bool
  /-- The length of a closing run that the last line has begun. -/
  partialClose : Nat
  deriving DecidableEq, Repr

/-- The text that closes a fence: the rest of a closing run that has begun, nothing for a block
without a body, and else a line of its own. -/
def OpenFence.closer (f : OpenFence) : List Char :=
  if 0 < f.partialClose then List.replicate (f.length - f.partialClose) f.mark.char
  else if f.hasBody then '\n' :: (f.leader ++ List.replicate f.length f.mark.char)
  else []

/-- Whether the text that closes a fence begins on a line of its own. -/
def OpenFence.closerStartsLine (f : OpenFence) : Bool :=
  if 0 < f.partialClose then false else f.hasBody

end LiveMarkdown
