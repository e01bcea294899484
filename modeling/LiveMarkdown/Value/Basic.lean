import LiveMarkdown.Value.Decimal
import LiveMarkdown.Node.Kind

/-!
# Untyped values

What comes from outside need not be what is asked for. It is taken as an untyped value, judged, and
described in the message that rejects it.

## Main definitions

* `Value`: a value of any form.
* `Value.field?` and the readers `Value.text?`, `Value.nat?`, `Value.bool?`, `Value.list?`.
* `Value.describe`: a value in a few words.
* `Value.hasNodeShape`, `Value.isFragment`: whether a value looks like a node, or like part of a
  document.
-/

namespace LiveMarkdown

/-- A value of any form. The fields of a record are in order. -/
inductive Value where
  | null
  | bool (b : Bool)
  | number (n : Decimal)
  | text (s : String)
  | list (items : List Value)
  | record (fields : List (String × Value))
  deriving Repr

instance : Inhabited Value := ⟨.null⟩

namespace Value

/-- A natural number as a value. -/
def ofNat (n : Nat) : Value := number (.ofNat n)

/-- The field of a record with the given name. -/
def field? (key : String) : Value → Option Value
  | record fields => (fields.find? (fun f => f.1 == key)).map Prod.snd
  | _ => none

/-- The text that a value is. -/
def text? : Value → Option String
  | text s => some s
  | _ => none

/-- The truth value that a value is. -/
def bool? : Value → Option Bool
  | bool b => some b
  | _ => none

/-- The natural number that a value is. -/
def nat? : Value → Option Nat
  | number n => n.toNat?
  | _ => none

/-- The items of a list. -/
def list? : Value → Option (List Value)
  | list items => some items
  | _ => none

/-- A value in a few words: its form, and what it is. Of a record only the names of the first five
fields are told. -/
def describe : Value → String
  | null => "null"
  | bool true => "boolean true"
  | bool false => "boolean false"
  | number n => "number " ++ n.text
  | text s => "string " ++ s
  | list _ => "array"
  | record fields =>
    "object \x7b " ++ ", ".intercalate ((fields.take 5).map Prod.fst) ++ " \x7d"

/-- The kind that a value names in its field `kind`. -/
def kind? (v : Value) : Option NodeKind :=
  ((v.field? "kind").bind nat?).bind NodeKind.ofNat?

/-- Whether a value has the shape of a node: a kind, flags, and a list of children if any. -/
def hasNodeShape (v : Value) : Bool :=
  v.kind?.isSome &&
    (match v.field? "flags" with
     | some (number _) => true
     | _ => false) &&
    (match v.field? "children" with
     | none => true
     | some (list _) => true
     | some _ => false)

/-- Whether a value is part of a document: a node that is no document itself, or a list that starts
with such a part. -/
def isFragment : Value → Bool
  | list [] => false
  | list (item :: _) => item.isFragment
  | v => v.hasNodeShape && v.kind? != some .document

end Value

end LiveMarkdown
