import LiveMarkdown.Completion.Fragment
import LiveMarkdown.Reported

/-!
# Engines

An engine reads a complete Markdown text into the blocks of a document. It is a function of the text
and of the options it is given, and it may fail.

## Main definitions

* `EngineOptions`: the options, each of which may be left to a default.
* `Engine`: the function.
* `parseDocument`, `parseFragment?`: reading a text in one go.
-/

namespace LiveMarkdown

/-- The extensions an engine is asked for. -/
structure EngineOptions where
  gfm : Option Bool := none
  math : Option Bool := none
  frontmatter : Option Bool := none
  deriving DecidableEq, Repr

namespace EngineOptions

/-- Options in which what is left open is taken from others. -/
def orElse (o defaults : EngineOptions) : EngineOptions :=
  ⟨o.gfm.or defaults.gfm, o.math.or defaults.math, o.frontmatter.or defaults.frontmatter⟩

/-- The given options, in the order of their names. -/
def given (o : EngineOptions) : List (String × Bool) :=
  [("frontmatter", o.frontmatter), ("gfm", o.gfm), ("math", o.math)].filterMap
    fun (name, value) => value.map fun b => (name, b)

end EngineOptions

/-- Reads a complete text into blocks. -/
abbrev Engine := EngineOptions → String → Except Fault (List Node)

/-- Reads a text into a document. A text that is still arriving is completed first. -/
def parseDocument (engine : Engine) (options : EngineOptions) (streaming : Bool) (text : String) :
    Except Fault Document :=
  (engine options (if streaming then completeFragment text else text)).map Document.ofNodes

/-- The single node of a document: a lone block, or the lone inline inside a lone paragraph. -/
def Document.single? (d : Document) : Option Node :=
  match d.children with
  | [.branch _ .paragraph [inline]] => some inline
  | [block] => some block
  | _ => none

/-- Reads a snippet into the single node it consists of, if it is no more than that. -/
def parseFragment? (engine : Engine) (options : EngineOptions) (streaming : Bool) (text : String) :
    Except Fault (Option Node) :=
  (parseDocument engine options streaming text).map Document.single?

end LiveMarkdown
