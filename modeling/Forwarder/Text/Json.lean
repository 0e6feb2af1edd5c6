import Forwarder.Text.Hex

/-!
# JSON text

`Json.render` writes a value as JSON text that holds ASCII characters only: all others are written
as UTF-16 escapes, in pairs beyond the basic plane. A `Layout` says whether the text stands on one
line or one item a line.
-/

namespace Forwarder

/-- A JSON value. An object keeps the order of its fields. -/
inductive Json where
  | null
  | number (n : Int)
  | string (s : String)
  | array (items : List Json)
  | object (fields : List (String × Json))
  deriving Repr

namespace Json

/-- How arrays and objects are laid out: on one line, or one item a line with an indentation for
each level. -/
inductive Layout where
  | line
  | indented (unit : String)
  deriving Repr, DecidableEq

/-- The layout that indents each level by a number of spaces. -/
def Layout.spaces (n : Int) : Layout := .indented (String.ofList (List.replicate n.toNat ' '))

/-- The escape of a UTF-16 unit. -/
def escapeUnit (unit : Nat) : List Char :=
  ['\\', 'u', Nat.digitChar (unit / 4096 % 16), Nat.digitChar (unit / 256 % 16),
    Nat.digitChar (unit / 16 % 16), Nat.digitChar (unit % 16)]

/-- How a character is written inside a string. -/
def escapeChar (c : Char) : List Char :=
  if c = '"' then ['\\', '"']
  else if c = '\\' then ['\\', '\\']
  else if c = '\n' then ['\\', 'n']
  else if c = '\r' then ['\\', 'r']
  else if c = '\t' then ['\\', 't']
  else if c = '\x08' then ['\\', 'b']
  else if c = '\x0c' then ['\\', 'f']
  else if ' ' ≤ c ∧ c ≤ '~' then [c]
  else if c.toNat < 0x10000 then escapeUnit c.toNat
  else
    let offset := c.toNat - 0x10000
    escapeUnit (0xD800 + offset / 1024) ++ escapeUnit (0xDC00 + offset % 1024)

/-- A string in quotes. -/
def quote (s : String) : List Char := '"' :: (s.toList.flatMap escapeChar ++ ['"'])

/-- What stands before the first item of an array or object, between two items, and behind the last
one. -/
structure Layout.Breaks where
  first : List Char
  between : List Char
  last : List Char
  deriving Repr, DecidableEq

/-- The line breaks of a layout inside `depth` arrays and objects. -/
def Layout.breaks (layout : Layout) (depth : Nat) : Layout.Breaks :=
  match layout with
  | .line => ⟨[], [',', ' '], []⟩
  | .indented unit =>
    let outer := '\n' :: (List.replicate depth unit.toList).flatten
    let inner := outer ++ unit.toList
    ⟨inner, ',' :: inner, outer⟩

mutual

/-- The text of a value inside `depth` arrays and objects. -/
def renderAt (layout : Layout) (depth : Nat) : Json → List Char
  | null => ['n', 'u', 'l', 'l']
  | number n => (toString n).toList
  | string s => quote s
  | array [] => ['[', ']']
  | array (item :: items) =>
    let breaks := layout.breaks depth
    '[' :: (breaks.first ++ renderAt layout (depth + 1) item
      ++ renderItems layout (depth + 1) breaks.between items ++ breaks.last ++ [']'])
  | object [] => ['\x7b', '\x7d']
  | object (field :: fields) =>
    let breaks := layout.breaks depth
    '\x7b' :: (breaks.first ++ renderField layout (depth + 1) field
      ++ renderFields layout (depth + 1) breaks.between fields ++ breaks.last ++ ['\x7d'])

/-- The text of further items of an array. -/
def renderItems (layout : Layout) (depth : Nat) (between : List Char) : List Json → List Char
  | [] => []
  | item :: items =>
    between ++ renderAt layout depth item ++ renderItems layout depth between items

/-- The text of a field of an object. -/
def renderField (layout : Layout) (depth : Nat) : String × Json → List Char
  | (name, value) => quote name ++ [':', ' '] ++ renderAt layout depth value

/-- The text of further fields of an object. -/
def renderFields (layout : Layout) (depth : Nat) (between : List Char) :
    List (String × Json) → List Char
  | [] => []
  | field :: fields =>
    between ++ renderField layout depth field ++ renderFields layout depth between fields

end

/-- The text of a value. -/
def render (layout : Layout) (value : Json) : String := String.ofList (renderAt layout 0 value)

/-- A string, or null where there is none. -/
def ofString? : Option String → Json
  | none => null
  | some s => string s

/-- A number, or null where there is none. -/
def ofInt? : Option Int → Json
  | none => null
  | some n => number n

end Json

end Forwarder
