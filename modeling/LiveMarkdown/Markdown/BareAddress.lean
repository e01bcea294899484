import LiveMarkdown.Markdown.Autolink
import LiveMarkdown.Text.Punctuation

/-!
# Addresses in running text

An address that starts with `www.` or with the scheme of a web page, and the address of a mailbox,
are links even without brackets. Punctuation at the end of an address belongs to the sentence around
it.

## Main definitions

* `isTrailing`: whether nothing but punctuation comes up to the end of a word.
* `webAddress?`, `bareMailbox?`: the two sorts of addresses.
* `bareAddress?`: the address at the start of a text.
-/

namespace LiveMarkdown

/-- Punctuation that does not belong to an address at its end. -/
def isTrailMark (c : Char) : Bool :=
  "!\"')*,.:;?_~".toList.contains c

/-- Whether nothing but punctuation and character references comes up to the end of a word. A
closing bracket also ends a word when it could end the label of a link. -/
def isTrailing (cs : List Char) : Bool :=
  match cs with
  | [] => true
  | c :: rest =>
    if isTrailMark c then isTrailing rest
    else if c == '&' then
      let name := rest.takeWhile Char.isAlpha
      !name.isEmpty && (rest.drop name.length).head? == some ';' &&
        isTrailing (rest.drop (name.length + 1))
    else if c == ']' then
      rest.head?.all (fun d => d == '(' || d == '[' || isBlankChar d) || isTrailing rest
    else c == '<' || isBlankChar c
termination_by cs.length
decreasing_by all_goals simp only [List.length_cons, List.length_drop]; omega

/-- The length of the domain at the start of a text. Its last two parts hold no underscore; `last`
and `former` say whether one has been met in them, and `seen` whether the domain has begun. -/
def domainLength? (last former seen : Bool) : List Char → Option Nat
  | [] => if last || former || !seen then none else some 0
  | c :: cs =>
    let ends :=
      if c == '.' || c == '_' then isTrailing (c :: cs)
      else isBlankChar c || (c != '-' && isPunctuation c)
    if ends then if last || former || !seen then none else some 0
    else if c == '_' then (domainLength? true former seen cs).map (· + 1)
    else if c == '.' then (domainLength? false last seen cs).map (· + 1)
    else (domainLength? last former true cs).map (· + 1)

/-- Punctuation that ends the path of an address if only more of it follows. -/
def isPathMark (c : Char) : Bool :=
  isTrailMark c || c == '&' || c == '<' || c == ']'

/-- The length of the path at the start of a text. `depth` counts the parentheses that are open,
less those that were closed without; while some are open a closing one belongs to the path. -/
def pathLength (depth : Int) : List Char → Nat
  | [] => 0
  | c :: cs =>
    if c == '(' then pathLength (depth + 1) cs + 1
    else if !(c == ')' && 0 < depth) && isPathMark c && isTrailing (c :: cs) then 0
    else if isBlankChar c then 0
    else pathLength (if c == ')' then depth - 1 else depth) cs + 1

/-- The length of a domain and the path behind it. -/
def hostLength? (cs : List Char) : Option Nat :=
  (domainLength? false false false cs).map fun n => n + pathLength 0 (cs.drop n)

/-- The length of the scheme of a web page with the slashes behind it. -/
def webSchemeLength? (cs : List Char) : Option Nat :=
  let scheme := (cs.take 5).takeWhile Char.isAlpha
  let known := scheme.map Char.toLower
  if (known == "http".toList || known == "https".toList) &&
      (cs.drop scheme.length).take 3 == "://".toList then
    some (scheme.length + 3)
  else none

/-- Whether a text starts with `www.`, and goes on. -/
def startsWww (cs : List Char) : Bool :=
  (cs.take 4).map Char.toLower == "www.".toList && 4 < cs.length

/-- Whether an address that starts with `www.` may stand behind a character. -/
def allowsWww (previous : Option Char) : Bool :=
  previous.all fun c => "(*_[]~ \t\n".toList.contains c

/-- The web address at the start of a text. -/
def webAddress? (previous : Option Char) (cs : List Char) : Option Address :=
  if startsWww cs then
    if allowsWww previous then (hostLength? cs).map fun n => ⟨"http://", cs.take n⟩ else none
  else
    match webSchemeLength? cs with
    | none => none
    | some scheme =>
      let host := cs.drop scheme
      if previous.any Char.isAlpha ||
          host.head?.all (fun c => isControlOrSpace c || isBlankChar c || isPunctuation c) then none
      else (hostLength? host).map fun n => ⟨"", cs.take (scheme + n)⟩

/-- A character of the name of a mailbox that is not in brackets. -/
def isBareMailboxChar (c : Char) : Bool :=
  c.isAlphanum || c == '+' || c == '-' || c == '.' || c == '_'

/-- The length of the domain of a mailbox. It holds a point, and ends in a letter. -/
def mailDomainLength? (begun dotted : Bool) (last : Char) : List Char → Option Nat
  | [] => if begun && dotted && last.isAlpha then some 0 else none
  | c :: cs =>
    if c == '.' && cs.head?.any Char.isAlphanum then
      (mailDomainLength? begun true c cs).map (· + 1)
    else if c == '-' || c == '_' || c.isAlphanum then
      (mailDomainLength? true dotted c cs).map (· + 1)
    else if begun && dotted && last.isAlpha then some 0
    else none

/-- The mailbox address at the start of a text. -/
def bareMailbox? (previous : Option Char) (cs : List Char) : Option Address :=
  let name := cs.takeWhile isBareMailboxChar
  if name.isEmpty || (cs.drop name.length).head? != some '@' ||
      previous.any (fun c => c == '/' || isBareMailboxChar c) then none
  else
    (mailDomainLength? false false '@' (cs.drop (name.length + 1))).map fun n =>
      ⟨"mailto:", cs.take (name.length + 1 + n)⟩

/-- The address at the start of a text, behind the given character. -/
def bareAddress? (previous : Option Char) (cs : List Char) : Option Address :=
  (bareMailbox? previous cs).or (webAddress? previous cs)

end LiveMarkdown
