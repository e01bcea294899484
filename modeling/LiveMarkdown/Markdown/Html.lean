import LiveMarkdown.Completion.Line

/-!
# HTML

HTML is passed through as it is written, so that it only has to be told where it starts and ends. A
block of HTML starts with one of seven openings, which also decide how it ends; a piece of HTML
inside a text is a single tag, comment, instruction, declaration or character data section.

## Main definitions

* `HtmlBlockKind`, `htmlBlockStart?`, `HtmlBlockKind.endsOn`: blocks.
* `TagState`, `tagTail`: what follows the name of a tag.
* `htmlInlineLength?`: the length of a piece of HTML inside a text.
-/

namespace LiveMarkdown

/-- The names of tags whose content is raw text. -/
def rawTagNames : List String := ["pre", "script", "style", "textarea"]

/-- The names of tags that make blocks. -/
def blockTagNames : List String :=
  ["address", "article", "aside", "base", "basefont", "blockquote", "body", "caption", "center",
    "col", "colgroup", "dd", "details", "dialog", "dir", "div", "dl", "dt", "fieldset",
    "figcaption", "figure", "footer", "form", "frame", "frameset", "h1", "h2", "h3", "h4", "h5",
    "h6", "head", "header", "hr", "html", "iframe", "legend", "li", "link", "main", "menu",
    "menuitem", "nav", "noframes", "ol", "optgroup", "option", "p", "param", "search", "section",
    "summary", "table", "tbody", "td", "tfoot", "th", "thead", "title", "tr", "track", "ul"]

/-- A character of a tag name behind the first one. -/
def isTagNameChar (c : Char) : Bool := c.isAlphanum || c == '-'

/-- White space inside a tag. -/
def isTagSpace (c : Char) : Bool := isSpaceOrTab c || c == '\n'

/-! ### Tags -/

/-- Where a reader stands behind the name of an opening tag. -/
inductive TagState where
  | between
  | name
  | afterName
  | beforeValue
  | quoted (mark : Char)
  | unquoted
  | afterQuoted
  | slash
  deriving DecidableEq, Repr

/-- What a character does to the reader of a tag. -/
inductive TagStep where
  | go (state : TagState)
  | close
  | fail
  deriving DecidableEq, Repr

namespace TagState

/-- A character between attributes. -/
def stepBetween (c : Char) : TagStep :=
  if c = '/' then .go slash
  else if c = ':' || c = '_' || c.isAlpha then .go name
  else if isTagSpace c then .go between
  else if c = '>' then .close
  else .fail

/-- A character behind the name of an attribute. -/
def stepAfterName (c : Char) : TagStep :=
  if c = '=' then .go beforeValue
  else if isTagSpace c then .go afterName
  else stepBetween c

/-- What a character does. In a block an equals sign behind a bare value starts another value, and a
slash ends a bare value, which may be empty. -/
def step (loose : Bool) (c : Char) : TagState → TagStep
  | between => stepBetween c
  | name =>
    if c = '-' || c = '.' || c = ':' || c = '_' || c.isAlphanum then .go name else stepAfterName c
  | afterName => stepAfterName c
  | beforeValue =>
    if c = '<' || c = '=' || c = '>' || c = '`' then .fail
    else if c = '"' || c = '\'' then .go (quoted c)
    else if isTagSpace c then .go beforeValue
    else if loose && c = '/' then .go slash
    else .go unquoted
  | quoted mark => if c = mark then .go afterQuoted else .go (quoted mark)
  | unquoted =>
    if c = '"' || c = '\'' || c = '<' || c = '`' then .fail
    else if c = '=' then if loose then .go beforeValue else .fail
    else if c = '/' || c = '>' || isTagSpace c then stepBetween c
    else .go unquoted
  | afterQuoted => if c = '/' || c = '>' || isTagSpace c then stepBetween c else .fail
  | slash => if c = '>' then .close else .fail

end TagState

/-- What is left behind an opening tag whose name has been read. -/
def tagTail (loose : Bool) : TagState → List Char → Option (List Char)
  | _, [] => none
  | state, c :: cs =>
    match state.step loose c with
    | .go next => tagTail loose next cs
    | .close => some cs
    | .fail => none

/-- What is left behind a closing tag whose name has been read. -/
def closingTagTail (cs : List Char) : Option (List Char) :=
  match cs.dropWhile isTagSpace with
  | '>' :: rest => some rest
  | _ => none

/-! ### Blocks -/

/-- The kinds of HTML blocks, by how they end. -/
inductive HtmlBlockKind where
  /-- A tag with raw content; ends on a line with a closing tag of this sort. -/
  | raw
  | comment
  | instruction
  | declaration
  | characterData
  /-- A tag that makes a block; ends before a blank line. -/
  | block
  /-- Any other tag that stands alone on its line; ends before a blank line. -/
  | complete
  deriving DecidableEq, Repr

/-- Whether a block ends before a blank line, and not on a line of its own. -/
def HtmlBlockKind.endsAtBlank : HtmlBlockKind → Bool
  | block => true
  | complete => true
  | _ => false

/-- The kind of a block that starts with a tag, whose text behind the angle bracket and the slash is
given, and what is left behind the opening. -/
def tagBlockStart? (allowComplete closing : Bool) (cs : List Char) :
    Option (HtmlBlockKind × List Char) :=
  if !cs.head?.any Char.isAlpha then none
  else
    let name := cs.takeWhile isTagNameChar
    let rest := cs.drop name.length
    let known := String.ofList (name.map Char.toLower)
    let ends := match rest with | [] => true | c :: _ => c == '/' || c == '>' || isSpaceOrTab c
    if !ends then none
    else if !closing && rest.head? != some '/' && rawTagNames.contains known then some (.raw, rest)
    else if blockTagNames.contains known then
      match rest with
      | '/' :: '>' :: _ => some (.block, rest)
      | '/' :: _ => none
      | _ => some (.block, rest)
    else if !allowComplete then none
    else
      let tail := if closing then closingTagTail rest else tagTail true .between rest
      if tail.any (fun t => t.all isSpaceOrTab) then some (.complete, rest) else none

/-- The kind of the HTML block that a line starts, and what is left behind its opening. A tag of no
particular meaning starts a block only where it is allowed to. -/
def htmlBlockStart? (allowComplete : Bool) : List Char → Option (HtmlBlockKind × List Char)
  | '<' :: '!' :: '-' :: '-' :: rest => some (.comment, rest)
  | '<' :: '!' :: '[' :: 'C' :: 'D' :: 'A' :: 'T' :: 'A' :: '[' :: rest =>
    some (.characterData, rest)
  | '<' :: '!' :: c :: rest => if c.isAlpha then some (.declaration, rest) else none
  | '<' :: '?' :: rest => some (.instruction, rest)
  | '<' :: '/' :: rest => tagBlockStart? allowComplete true rest
  | '<' :: rest => tagBlockStart? allowComplete false rest
  | _ => none

/-- Whether a closing angle bracket comes behind two hyphens, so many of which have been passed. -/
def commentTail (hyphens : Nat) : List Char → Option (List Char)
  | [] => none
  | '-' :: cs => commentTail (min 2 (hyphens + 1)) cs
  | '>' :: cs => if hyphens = 2 then some cs else commentTail 0 cs
  | _ :: cs => commentTail 0 cs

/-- Whether a closing angle bracket comes directly behind a question mark. -/
def instructionTail (afterMark : Bool) : List Char → Option (List Char)
  | [] => none
  | '>' :: cs => if afterMark then some cs else instructionTail false cs
  | c :: cs => instructionTail (c == '?') cs

/-- Whether a line holds the end of a character data section. Brackets are taken in pairs. -/
def closesCharacterData : List Char → Bool
  | ']' :: ']' :: '>' :: _ => true
  | ']' :: ']' :: cs => closesCharacterData cs
  | _ :: cs => closesCharacterData cs
  | [] => false

/-- Whether a line holds the closing tag of an element with raw content. -/
def closesRaw : List Char → Bool
  | [] => false
  | c :: cs =>
    (c == '<' &&
      (match cs with
       | '/' :: rest =>
         let name := rest.takeWhile Char.isAlpha
         name.length ≤ 8 && (rest.drop name.length).head? == some '>' &&
           rawTagNames.contains (String.ofList (name.map Char.toLower))
       | _ => false)) ||
      closesRaw cs

/-- Whether a line ends an HTML block. On its first line only what is behind the opening is given,
which may lend the hyphens or the question mark of the end. -/
def HtmlBlockKind.endsOn (first : Bool) (cs : List Char) : HtmlBlockKind → Bool
  | raw => closesRaw cs
  | comment => (commentTail (if first then 2 else 0) cs).isSome
  | instruction => (instructionTail first cs).isSome
  | declaration => cs.contains '>'
  | characterData => closesCharacterData cs
  | block => false
  | complete => false

/-! ### Inside a text -/

/-- What is left behind a character data section. -/
def characterDataTail (brackets : Nat) : List Char → Option (List Char)
  | [] => none
  | ']' :: cs => characterDataTail (min 2 (brackets + 1)) cs
  | '>' :: cs => if brackets = 2 then some cs else characterDataTail 0 cs
  | _ :: cs => characterDataTail 0 cs

/-- What is left behind a declaration. -/
def declarationTail : List Char → Option (List Char)
  | [] => none
  | '>' :: cs => some cs
  | _ :: cs => declarationTail cs

/-- What is left behind an opening tag whose angle bracket has been read. -/
def openingTagTail (cs : List Char) : Option (List Char) :=
  let rest := cs.dropWhile isTagNameChar
  match rest with
  | [] => none
  | c :: _ => if c = '/' || c = '>' || isTagSpace c then tagTail false .between rest else none

/-- What is left behind a piece of HTML. -/
def htmlInlineTail : List Char → Option (List Char)
  | '<' :: '!' :: '-' :: '-' :: rest => commentTail 2 rest
  | '<' :: '!' :: '[' :: 'C' :: 'D' :: 'A' :: 'T' :: 'A' :: '[' :: rest => characterDataTail 0 rest
  | '<' :: '!' :: c :: rest => if c.isAlpha then declarationTail (c :: rest) else none
  | '<' :: '?' :: rest => instructionTail false rest
  | '<' :: '/' :: c :: rest =>
    if c.isAlpha then closingTagTail (rest.dropWhile isTagNameChar) else none
  | '<' :: c :: rest => if c.isAlpha then openingTagTail rest else none
  | _ => none

/-- The length of a piece of HTML at the start of a text. -/
def htmlInlineLength? (cs : List Char) : Option Nat :=
  (htmlInlineTail cs).map fun rest => cs.length - rest.length

end LiveMarkdown
