import LiveMarkdown.Text.Quoted
import LiveMarkdown.Value.Basic

/-!
# Written values

A value is written on one line: texts are quoted, lists stand in brackets and records in braces,
with nothing but commas and colons between.

## Main definitions

* `Value.render`: the written value.
-/

namespace LiveMarkdown.Value

mutual

/-- A value as written. -/
def render : Value → String
  | null => "null"
  | bool true => "true"
  | bool false => "false"
  | number n => n.text
  | text s => quoted s
  | list [] => "[]"
  | list (item :: items) => "[" ++ render item ++ renderItems items ++ "]"
  | record [] => "\x7b\x7d"
  | record ((key, value) :: fields) =>
    "\x7b" ++ quoted key ++ ":" ++ render value ++ renderFields fields ++ "\x7d"

/-- The further items of a list, each behind a comma. -/
def renderItems : List Value → String
  | [] => ""
  | item :: items => "," ++ render item ++ renderItems items

/-- The further fields of a record, each behind a comma. -/
def renderFields : List (String × Value) → String
  | [] => ""
  | (key, value) :: fields => "," ++ quoted key ++ ":" ++ render value ++ renderFields fields

end

end LiveMarkdown.Value
