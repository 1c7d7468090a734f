import BorrowLang.Text.Quoted

/-! # JSON text

Values and their text on one line: fields in the order given, a space after every comma and colon,
and nothing but ASCII, with a pair of escapes for a character beyond U+FFFF. -/
set_option autoImplicit false
namespace BorrowLang.Text

/-- A JSON value; the fields of an object keep their order. -/
inductive Json
  | null
  | num (n : Int)
  | str (s : String)
  | arr (items : List Json)
  | obj (fields : List (String × Json))

namespace Json

def unitEscape (unit : Nat) : List Char :=
  '\\' :: 'u' :: hexDigits 4 unit

/-- The form of a character inside a JSON string. -/
def escapedChar (c : Char) : List Char :=
  if c = '"' then ['\\', '"']
  else if c = '\\' then ['\\', '\\']
  else if c = '\n' then ['\\', 'n']
  else if c = '\r' then ['\\', 'r']
  else if c = '\t' then ['\\', 't']
  else if c = '\x08' then ['\\', 'b']
  else if c = '\x0c' then ['\\', 'f']
  else if 0x20 ≤ c.toNat ∧ c.toNat < 0x7f then [c]
  else if c.toNat < 0x10000 then unitEscape c.toNat
  else
    let offset := c.toNat - 0x10000
    unitEscape (0xd800 + offset / 0x400) ++ unitEscape (0xdc00 + offset % 0x400)

def stringText (s : String) : String :=
  String.ofList ('"' :: (s.toList.flatMap escapedChar ++ ['"']))

mutual

def render : Json → String
  | .null => "null"
  | .num n => toString n
  | .str s => stringText s
  | .arr items => "[" ++ ", ".intercalate (renderItems items) ++ "]"
  | .obj fields => "\x7b" ++ ", ".intercalate (renderFields fields) ++ "\x7d"

def renderItems : List Json → List String
  | [] => []
  | item :: rest => render item :: renderItems rest

def renderFields : List (String × Json) → List String
  | [] => []
  | (key, value) :: rest => (stringText key ++ ": " ++ render value) :: renderFields rest

end

def ofString? : Option String → Json
  | none => .null
  | some s => .str s

def ofNat? : Option Nat → Json
  | none => .null
  | some n => .num n

end Json

end BorrowLang.Text
