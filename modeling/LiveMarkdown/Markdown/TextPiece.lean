import LiveMarkdown.Markdown.Glyph
import LiveMarkdown.Markup.Tree

/-!
# Pieces of running text

Running text is first cut into pieces: characters, finished trees, runs of marks that may open or
close a span, and brackets that may open a link. Then runs are paired from the inside out, and what
is left of them is text.

## Main definitions

* `Run`, `Bracket`, `TextPiece`: the pieces.
* `treesOfPieces`: the trees of pieces whose runs have been paired.
* `pairEmphasis`: asterisks and underscores in pairs.
* `pairTildes`: tildes in pairs.
* `pairRuns`: both, as they are paired inside another span.
-/

namespace LiveMarkdown

/-- A run of equal marks. -/
structure Run where
  mark : Char
  size : Nat
  opens : Bool
  closes : Bool
  deriving DecidableEq, Repr

/-- A bracket that may open a link or an image. -/
structure Bracket where
  image : Bool
  /-- Whether a link may still start here. A link inside of it takes that away. -/
  active : Bool
  /-- Whether a closing bracket has been met already that makes no link of it. -/
  balanced : Bool
  /-- What stands behind the bracket. -/
  behind : List Glyph
  deriving DecidableEq, Repr

/-- A piece of running text. -/
inductive TextPiece where
  /-- A character as it stands. -/
  | data (glyph : Glyph)
  /-- Characters that an escape, a reference or a line ending stands for. -/
  | literal (cs : List Char)
  | tree (tree : MarkupTree)
  | run (run : Run)
  | bracket (bracket : Bracket)
  deriving Repr

namespace TextPiece

/-- The text that a piece is if it has not become a tree. A pad belongs to the tab before it. -/
def text? : TextPiece → Option (List Char)
  | data g => some (if g.role = .pad then [] else g.text)
  | literal cs => some cs
  | tree _ => none
  | run r => some (List.replicate r.size r.mark)
  | bracket b => some (if b.image then ['!', '['] else ['['])

/-- White space that has not been written as a reference. -/
def isSpace : TextPiece → Bool
  | data g => g.isSpace
  | _ => false

/-- Whether a bracket has not met its closing bracket yet. -/
def isOpenBracket : TextPiece → Bool
  | bracket b => !b.balanced
  | _ => false

end TextPiece

/-- Puts text in front of trees, unless it is empty. -/
def consText (cs : List Char) (trees : List MarkupTree) : List MarkupTree :=
  if cs.isEmpty then trees else .leaf none (.text (String.ofList cs)) :: trees

/-- The trees of pieces. Neighbouring pieces of text become one. -/
def treesOfPieces (pieces : List TextPiece) : List MarkupTree :=
  let add (p : TextPiece) (rest : List Char × List MarkupTree) : List Char × List MarkupTree :=
    match p with
    | .tree t => ([], t :: consText rest.1 rest.2)
    | p => ((p.text?).getD [] ++ rest.1, rest.2)
  let (cs, trees) := pieces.foldr add ([], [])
  consText cs trees

/-! ### Pairing -/

/-- What stands between a run and the nearest run before it that it closes, newest first; that run;
and what stands before it. -/
structure Pairing where
  between : List TextPiece
  opener : Run
  before : List TextPiece

/-- The nearest run that is accepted among pieces, newest first. -/
def findOpener (accepts : Run → Bool) : List TextPiece → Option Pairing
  | [] => none
  | p :: ps =>
    let further := (findOpener accepts ps).map fun f => { f with between := p :: f.between }
    match p with
    | .run r => if accepts r then some ⟨[], r, ps⟩ else further
    | _ => further

/-- Whether a run opens what another one closes. If either could do both, their lengths must not add
up to a multiple of three, unless both are such multiples. -/
def Run.opensFor (closer opener : Run) : Bool :=
  opener.opens && opener.mark == closer.mark &&
    !((opener.closes || closer.opens) && closer.size % 3 != 0 &&
      (opener.size + closer.size) % 3 == 0)

/-- The run with so many marks less, if any is left. -/
def Run.shorten (n : Nat) (r : Run) : List TextPiece :=
  if r.size ≤ n then [] else [.run { r with size := r.size - n }]

/-- Pairs a run with the runs before it that it closes, at most `n` times. The pieces before it are
given newest first, and `inner` settles what stands between two runs. -/
def closeEmphasis (inner : List TextPiece → List TextPiece) :
    Nat → Run → List TextPiece → List TextPiece
  | 0, r, done => r.shorten 0 ++ done
  | n + 1, r, done =>
    match findOpener r.opensFor done with
    | none => .run r :: done
    | some ⟨between, opener, before⟩ =>
      let use := if 1 < opener.size && 1 < r.size then 2 else 1
      let branch : MarkupBranch := if use = 2 then .strong else .emphasis
      let span := TextPiece.tree (.branch none branch (treesOfPieces (inner between.reverse)))
      let done := span :: (opener.shorten use ++ before)
      if r.size ≤ use then done else closeEmphasis inner n { r with size := r.size - use } done

/-- Whether a run is made of asterisks or underscores. -/
def Run.isEmphasis (r : Run) : Bool := r.mark == '*' || r.mark == '_'

/-- A run that has found no partner is text. -/
def settleRun (accepts : Run → Bool) : TextPiece → TextPiece
  | .run r => if accepts r then .literal (List.replicate r.size r.mark) else .run r
  | p => p

/-- Pairs asterisks and underscores. A run closes the nearest run that fits it, two marks at a time
where both have them; what is left of it goes on. -/
def pairEmphasis (inner : List TextPiece → List TextPiece) (pieces : List TextPiece) :
    List TextPiece :=
  let add (done : List TextPiece) (p : TextPiece) : List TextPiece :=
    match p with
    | .run r =>
      if r.isEmphasis && r.closes then closeEmphasis inner r.size r done else p :: done
    | _ => p :: done
  ((pieces.foldl add []).reverse).map (settleRun Run.isEmphasis)

/-- Pairs tildes. A run closes the nearest run of the same length. -/
def pairTildes (inner : List TextPiece → List TextPiece) (pieces : List TextPiece) :
    List TextPiece :=
  let isTilde (r : Run) : Bool := r.mark == '~'
  let add (done : List TextPiece) (p : TextPiece) : List TextPiece :=
    match p with
    | .run r =>
      if isTilde r && r.closes then
        match findOpener (fun o => isTilde o && o.opens && o.size == r.size) done with
        | some ⟨between, _, before⟩ =>
          .tree (.branch none .delete (treesOfPieces (inner between.reverse))) :: before
        | none => p :: done
      else p :: done
    | _ => p :: done
  ((pieces.foldl add []).reverse).map (settleRun isTilde)

/-- Pairs the runs inside a span, tildes first. Spans lie no deeper in each other than `depth`. -/
def pairRuns : (depth : Nat) → List TextPiece → List TextPiece
  | 0, pieces => pieces
  | depth + 1, pieces => pairEmphasis (pairRuns depth) (pairTildes (pairRuns depth) pieces)

/-- The trees of the pieces between two brackets. -/
def treesBetween (pieces : List TextPiece) : List MarkupTree :=
  treesOfPieces (pairRuns pieces.length pieces)

/-- The trees of a whole text. The sort of marks that comes first in it is paired first. -/
def treesOfText (tildesFirst : Bool) (pieces : List TextPiece) : List MarkupTree :=
  let inner := pairRuns pieces.length
  treesOfPieces
    (if tildesFirst then pairEmphasis inner (pairTildes inner pieces)
     else pairTildes inner (pairEmphasis inner pieces))

end LiveMarkdown
