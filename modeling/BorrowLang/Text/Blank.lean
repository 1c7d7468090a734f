/-! # Blank characters

The white space of the annotation rules: every Unicode space, the line and paragraph marks and the
information separators U+001C to U+001F.  Words are the maximal runs without a blank. -/
set_option autoImplicit false
namespace BorrowLang.Text

def blankCodes : List Nat :=
  [0x09, 0x0a, 0x0b, 0x0c, 0x0d, 0x1c, 0x1d, 0x1e, 0x1f, 0x20, 0x85, 0xa0, 0x1680, 0x2000, 0x2001,
   0x2002, 0x2003, 0x2004, 0x2005, 0x2006, 0x2007, 0x2008, 0x2009, 0x200a, 0x2028, 0x2029, 0x202f,
   0x205f, 0x3000]

def isBlank (c : Char) : Bool :=
  blankCodes.contains c.toNat

def trimLeft (chars : List Char) : List Char :=
  chars.dropWhile isBlank

def trim (chars : List Char) : List Char :=
  (trimLeft (trimLeft chars).reverse).reverse

/-- The words of a text; `word` holds the word being read. -/
def wordsFrom (word : List Char) : List Char → List (List Char)
  | [] => if word.isEmpty then [] else [word]
  | c :: rest =>
      if isBlank c then
        if word.isEmpty then wordsFrom [] rest else word :: wordsFrom [] rest
      else wordsFrom (word ++ [c]) rest

/-- The maximal runs of characters that are not blank, in order. -/
def words (chars : List Char) : List (List Char) :=
  wordsFrom [] chars

end BorrowLang.Text
