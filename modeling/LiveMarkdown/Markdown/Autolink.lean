import LiveMarkdown.Markdown.Label

/-!
# Addresses in angle brackets

An address in angle brackets is a link to itself: a URI with a scheme, or the address of a mailbox.

## Main definitions

* `Address`: an address with the text that shows it.
* `angleAddress?`: the address between angle brackets.
-/

namespace LiveMarkdown

/-- An address as it is written, and the beginning that a link to it needs in front. -/
structure Address where
  scheme : String
  written : List Char
  deriving DecidableEq, Repr

/-- Where a link to the address leads. -/
def Address.url (a : Address) : String :=
  a.scheme ++ String.ofList a.written

/-- A character of a scheme. -/
def isSchemeChar (c : Char) : Bool :=
  c.isAlphanum || c == '+' || c == '-' || c == '.'

/-- A character of the name of a mailbox. -/
def isMailboxChar (c : Char) : Bool :=
  c.isAlphanum || "#$%&'*+-./=?^_`\x7b|\x7d~".toList.contains c

/-- A part of the domain of a mailbox. -/
def isDomainPart (part : List Char) : Bool :=
  part.length ≤ 63 && part.head?.any Char.isAlphanum && part.getLast?.any Char.isAlphanum

/-- The length of the URI at the start of a text, up to a closing angle bracket. Its scheme has two
to thirty-two characters. -/
def uriLength? (cs : List Char) : Option Nat :=
  let scheme := cs.takeWhile isSchemeChar
  let behind := (cs.drop (scheme.length + 1)).takeWhile fun c =>
    !isControlOrSpace c && c != '<' && c != '>'
  let length := scheme.length + 1 + behind.length
  if cs.head?.any Char.isAlpha && 2 ≤ scheme.length && scheme.length ≤ 32 &&
      (cs.drop scheme.length).head? == some ':' && (cs.drop length).head? == some '>' then
    some length
  else none

/-- The length of the mailbox address at the start of a text, up to a closing angle bracket. -/
def mailboxLength? (cs : List Char) : Option Nat :=
  let name := cs.takeWhile isMailboxChar
  let domain := (cs.drop (name.length + 1)).takeWhile fun c => c.isAlphanum || c == '-' || c == '.'
  let length := name.length + 1 + domain.length
  if !name.isEmpty && (cs.drop name.length).head? == some '@' &&
      (domain.splitOn '.').all isDomainPart && (cs.drop length).head? == some '>' then
    some length
  else none

/-- The address in front of a closing angle bracket. -/
def angleAddress? (cs : List Char) : Option Address :=
  match uriLength? cs, mailboxLength? cs with
  | some length, _ => some ⟨"", cs.take length⟩
  | none, some length => some ⟨"mailto:", cs.take length⟩
  | none, none => none

end LiveMarkdown
