import BorrowLang.Ty

/-! # Built-in functions and macros

The function `displayi32` shows an integer, and the macro `println` shows a template with values. -/
set_option autoImplicit false
namespace BorrowLang

/-- The name of the function that shows an integer. -/
def displayName : String := "displayi32"

/-- The name of the macro that shows a template. -/
def printName : String := "println"

def builtin? (name : String) : Option Signature :=
  if name = displayName then some ⟨[.i32], .unit⟩ else none

end BorrowLang
