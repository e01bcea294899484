import LiveMarkdown.Markdown.BareAddress
import LiveMarkdown.Markup.Tree

/-!
# Addresses left in text

Some addresses show only when all other Markdown has been read, for instance behind a bracket that
has turned out to be text. So the text that is left over is searched for addresses once more, except
inside of links. This search has rules of its own: a domain may hold an underscore in a front part,
and what stands before an address is looked at in the text alone.

## Main definitions

* `Found`: what is found at the start of a text.
* `webAddressFound?`, `mailboxFound?`: the two searches.
* `linkAddresses`: trees with the addresses in their text as links.
-/

namespace LiveMarkdown

/-- What is found at the start of a text: its length and what it becomes. -/
structure Found where
  length : Nat
  trees : List MarkupTree

/-- A link to an address, which shows as its text. -/
def Address.link (a : Address) : MarkupTree :=
  .branch none (.link a.url none) [.leaf none (.text (String.ofList a.written))]

/-- Whether an address may stand behind a character. -/
def precedesAddress (previous : Option Char) : Bool :=
  previous.all fun c => isBlankChar c || isPunctuation c

/-- A letter, a digit or an underscore. -/
def isWordChar (c : Char) : Bool :=
  c.isAlphanum || c == '_'

/-- Whether the last two parts of a domain are parts that an address may have. -/
def isWebDomain (domain : List Char) : Bool :=
  let good (part : List Char) : Bool :=
    part.isEmpty || (!part.contains '_' && part.any Char.isAlphanum)
  match (domain.splitOn '.').reverse with
  | last :: former :: _ => good last && good former
  | _ => false

/-- Moves closing parentheses from the end of an address back to it, as long as it has opened more
of them than it has closed. -/
def takeBackParens (openings closings : Nat) (address trail : List Char) : List Char × List Char :=
  match trail with
  | [] => (address, [])
  | c :: rest =>
    if openings ≤ closings || !trail.contains ')' then (address, trail)
    else takeBackParens openings (if c == ')' then closings + 1 else closings) (address ++ [c]) rest

/-- An address without the punctuation at its end, and that punctuation. -/
def splitTrail (address : List Char) : List Char × List Char :=
  let kept := (address.reverse.dropWhile fun c => "!\"&'),.:;<>?]\x7d".toList.contains c).reverse
  takeBackParens (kept.count '(') (kept.count ')') kept (address.drop kept.length)

/-- The length of the scheme of a web page, or of the beginning `www`, at the start of a text. -/
def webStartLength? (cs : List Char) : Option Nat :=
  let lower := (cs.take 8).map Char.toLower
  if lower == "https://".toList then some 8
  else if lower.take 7 == "http://".toList then some 7
  else if lower.take 4 == "www.".toList then some 3
  else none

/-- The web address at the start of a text. -/
def webAddressFound? (previous : Option Char) (cs : List Char) : Option Found :=
  match webStartLength? cs with
  | none => none
  | some start =>
    let name := (cs.drop start).takeWhile fun c => isWordChar c || c == '-' || c == '.'
    let behind := (cs.drop (start + name.length)).takeWhile fun c => !isLabelBlank c
    let www := start == 3
    let domain := if www then cs.take (start + name.length) else name
    let (address, trail) := splitTrail (domain ++ behind)
    if name.isEmpty || !precedesAddress previous || !isWebDomain domain || address.isEmpty then none
    else
      let written := if www then address else cs.take start ++ address
      let link := (Address.mk (if www then "http://" else "") written).link
      let rest := if trail.isEmpty then [] else [.leaf none (.text (String.ofList trail))]
      some ⟨start + name.length + behind.length, link :: rest⟩

/-- The parts of a domain, each with the point in front of it. -/
def dottedPartsLength (cs : List Char) : Nat :=
  match cs with
  | [] => 0
  | c :: rest =>
    let part := rest.takeWhile fun d => isWordChar d || d == '-'
    if c == '.' && !part.isEmpty then 1 + part.length + dottedPartsLength (rest.drop part.length)
    else 0
termination_by cs.length
decreasing_by simp only [List.length_cons, List.length_drop]; omega

/-- The mailbox address at the start of a text. -/
def mailboxFound? (previous : Option Char) (cs : List Char) : Option Found :=
  let name := cs.takeWhile fun c => isWordChar c || c == '-' || c == '.' || c == '+'
  let behind := cs.drop (name.length + 1)
  let first := behind.takeWhile fun c => isWordChar c || c == '-'
  let others := dottedPartsLength (behind.drop first.length)
  let domain := behind.take (first.length + others)
  let length := name.length + 1 + domain.length
  if name.isEmpty || (cs.drop name.length).head? != some '@' || first.isEmpty || others = 0 ||
      !domain.getLast?.any Char.isAlpha || !precedesAddress previous || previous == some '/' then
    none
  else some ⟨length, [(Address.mk "mailto:" (cs.take length)).link]⟩

/-- A text as a tree, unless it is empty. -/
def textTrees (cs : List Char) : List MarkupTree :=
  if cs.isEmpty then [] else [.leaf none (.text (String.ofList cs))]

/-- Puts what is found in a text into its place. The characters since the last place are kept newest
first. -/
def replaceFound (find : Option Char → List Char → Option Found) (previous : Option Char)
    (passed : List Char) (cs : List Char) : List MarkupTree :=
  match cs with
  | [] => textTrees passed.reverse
  | c :: rest =>
    match find previous (c :: rest) with
    | none => replaceFound find (some c) (c :: passed) rest
    | some found =>
      let taken := c :: rest.take (found.length - 1)
      textTrees passed.reverse ++ found.trees ++
        replaceFound find taken.getLast? [] (rest.drop (found.length - 1))
termination_by cs.length
decreasing_by all_goals simp only [List.length_cons, List.length_drop]; omega

/-- Whether the text inside a node is left alone. -/
def MarkupBranch.isLink : MarkupBranch → Bool
  | link _ _ => true
  | linkReference _ => true
  | _ => false

mutual

/-- A tree with what is found in its text put into place. -/
def replaceInTree (find : Option Char → List Char → Option Found) : MarkupTree → List MarkupTree
  | .leaf span l =>
    match l with
    | .text value => replaceFound find none [] value.toList
    | _ => [.leaf span l]
  | .branch span b ts =>
    if b.isLink then [.branch span b ts] else [.branch span b (replaceInTrees find ts)]

/-- Trees with what is found in their text put into place. -/
def replaceInTrees (find : Option Char → List Char → Option Found) :
    List MarkupTree → List MarkupTree
  | [] => []
  | t :: ts => replaceInTree find t ++ replaceInTrees find ts

end

/-- Trees with the addresses in their text as links. -/
def linkAddresses (trees : List MarkupTree) : List MarkupTree :=
  replaceInTrees mailboxFound? (replaceInTrees webAddressFound? trees)

end LiveMarkdown
