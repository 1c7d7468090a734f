/-! # Escapes in string literals

The text that a string literal stands for.  A backslash starts an escape: a single letter, an octal
number of up to three digits, a hexadecimal number of two, four or eight digits, or a character
name in braces; before a carriage return it drops both, and before any other character it stands for
itself.  A literal is malformed when a numeric or named escape is incomplete or names no character,
and when it holds a bare carriage return or a null character. -/
set_option autoImplicit false
namespace BorrowLang.Text

/-- What the reader of a literal has just seen. -/
inductive EscapeState
  | plain
  | backslash
  | octal (left value : Nat)
  | hex (left value : Nat)
  | nameStart
  | name (soFar : List Char)
deriving Repr, DecidableEq

def octalDigit? (c : Char) : Option Nat :=
  if '0' ≤ c ∧ c ≤ '7' then some (c.toNat - 48) else none

def hexDigit? (c : Char) : Option Nat :=
  if '0' ≤ c ∧ c ≤ '9' then some (c.toNat - 48)
  else if 'a' ≤ c ∧ c ≤ 'f' then some (c.toNat - 87)
  else if 'A' ≤ c ∧ c ≤ 'F' then some (c.toNat - 55)
  else none

/-- The character with a code point, if it is one. -/
def charOfCode? (n : Nat) : Option Char :=
  if n.isValidChar then some (Char.ofNat n) else none

def letterEscape? (c : Char) : Option Char :=
  match c with
  | '\\' => some '\\'
  | '\'' => some '\''
  | '"' => some '"'
  | 'a' => some '\x07'
  | 'b' => some '\x08'
  | 'f' => some '\x0c'
  | 'n' => some '\n'
  | 'r' => some '\r'
  | 't' => some '\t'
  | 'v' => some '\x0b'
  | _ => none

/-- The character of a name, in any case of letters. -/
def namedChar? (name : List Char) : Option Char :=
  if name.map Char.toUpper = "BULLET".toList then some '•' else none

/-- The text a character adds outside of an escape, and the state after it. -/
def plainStep? (c : Char) : Option (List Char × EscapeState) :=
  if c = '\\' then some ([], .backslash)
  else if c = '\r' ∨ c = '\x00' then none
  else some ([c], .plain)

/-- The text a character adds after a backslash, and the state after it. -/
def backslashStep? (c : Char) : Option (List Char × EscapeState) :=
  match letterEscape? c, octalDigit? c with
  | some letter, _ => some ([letter], .plain)
  | none, some digit => some ([], .octal 2 digit)
  | none, none =>
      if c = '\r' then some ([], .plain)
      else if c = '\x00' then none
      else if c = 'x' then some ([], .hex 2 0)
      else if c = 'u' then some ([], .hex 4 0)
      else if c = 'U' then some ([], .hex 8 0)
      else if c = 'N' then some ([], .nameStart)
      else some (['\\', c], .plain)

/-- One character of a literal: the text it adds and the state after it, or nothing where the
literal is malformed. -/
def escapeStep? : EscapeState → Char → Option (List Char × EscapeState)
  | .plain, c => plainStep? c
  | .backslash, c => backslashStep? c
  | .octal left value, c =>
      match left, octalDigit? c with
      | left + 1, some digit => some ([], .octal left (8 * value + digit))
      | _, _ => do
          let ended ← charOfCode? value
          let (text, next) ← plainStep? c
          return (ended :: text, next)
  | .hex left value, c =>
      match left, hexDigit? c with
      | 0, _ => none
      | _, none => none
      | 1, some digit => (charOfCode? (16 * value + digit)).map fun ended => ([ended], .plain)
      | left + 2, some digit => some ([], .hex (left + 1) (16 * value + digit))
  | .nameStart, c => if c = '\x7b' then some ([], .name []) else none
  | .name soFar, c =>
      if c = '\x7d' then (namedChar? soFar).map fun ended => ([ended], .plain)
      else some ([], .name (soFar ++ [c]))

/-- The text of a literal read from a state to the end. -/
def unescapeFrom : EscapeState → List Char → Option (List Char)
  | .plain, [] => some []
  | .octal _ value, [] => (charOfCode? value).map ([·])
  | _, [] => none
  | state, c :: rest => do
      let (text, next) ← escapeStep? state c
      let more ← unescapeFrom next rest
      return text ++ more

/-- The text that the characters between the quotes of a literal stand for. -/
def unescape? (chars : List Char) : Option String :=
  (unescapeFrom .plain chars).map String.ofList

end BorrowLang.Text
