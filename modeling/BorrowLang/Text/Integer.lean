import BorrowLang.Text.Blank

/-! # Integers written in text

The integers a user may write: a sign, decimal digits of any script, single underscores between
digits, and blanks around the whole. -/
set_option autoImplicit false
namespace BorrowLang.Text

/-- Code points of the zeros; the digits of a script follow its zero. -/
def zeroCodes : List Nat :=
  [0x30, 0x660, 0x6f0, 0x7c0, 0x966, 0x9e6, 0xa66, 0xae6, 0xb66, 0xbe6, 0xc66, 0xce6, 0xd66,
   0xde6, 0xe50, 0xed0, 0xf20, 0x1040, 0x1090, 0x17e0, 0x1810, 0x1946, 0x19d0, 0x1a80, 0x1a90,
   0x1b50, 0x1bb0, 0x1c40, 0x1c50, 0xa620, 0xa8d0, 0xa900, 0xa9d0, 0xa9f0, 0xaa50, 0xabf0,
   0xff10, 0x104a0, 0x10d30, 0x11066, 0x110f0, 0x11136, 0x111d0, 0x112f0, 0x11450, 0x114d0,
   0x11650, 0x116c0, 0x11730, 0x118e0, 0x11950, 0x11c50, 0x11d50, 0x11da0, 0x16a60, 0x16ac0,
   0x16b50, 0x1d7ce, 0x1d7d8, 0x1d7e2, 0x1d7ec, 0x1d7f6, 0x1e140, 0x1e2f0, 0x1e950, 0x1fbf0]

def digitValue? (c : Char) : Option Nat :=
  (zeroCodes.find? fun start => start ≤ c.toNat && c.toNat < start + 10).map (c.toNat - ·)

def isDigit (c : Char) : Bool := (digitValue? c).isSome

/-- The values of digits, of which neighbours may have one underscore between them. -/
def digitValues? : List Char → Option (List Nat)
  | [] => none
  | [c] => (digitValue? c).map ([·])
  | c :: '_' :: rest =>
      match digitValue? c, digitValues? rest with
      | some value, some values => some (value :: values)
      | _, _ => none
  | c :: rest =>
      match digitValue? c, digitValues? rest with
      | some value, some values => some (value :: values)
      | _, _ => none

/-- The greatest number of digits that is read as a number. -/
def digitLimit : Nat := 4300

/-- The number with these digits, if there are not too many. -/
def natural? (chars : List Char) : Option Nat :=
  match digitValues? chars with
  | none => none
  | some values =>
      if digitLimit < values.length then none
      else some (values.foldl (fun n value => n * 10 + value) 0)

/-- Is this a blank that may stand around a number?  The information separators may not. -/
def isNumberBlank (c : Char) : Bool :=
  isBlank c && !(0x1c ≤ c.toNat && c.toNat ≤ 0x1f)

def integer? (chars : List Char) : Option Int :=
  match ((chars.dropWhile isNumberBlank).reverse.dropWhile isNumberBlank).reverse with
  | '-' :: rest => (natural? rest).map fun n => -(n : Int)
  | '+' :: rest => (natural? rest).map Int.ofNat
  | rest => (natural? rest).map Int.ofNat

/-- Does a text look like a negative number: a minus, digits, and perhaps a point and digits?  A
line feed at its end is not looked at. -/
def looksNegative (chars : List Char) : Bool :=
  match if chars.getLast? = some '\n' then chars.dropLast else chars with
  | '-' :: rest =>
      match rest.dropWhile isDigit with
      | [] => !rest.isEmpty
      | '.' :: decimals => !decimals.isEmpty && decimals.all isDigit
      | _ => false
  | _ => false

end BorrowLang.Text
