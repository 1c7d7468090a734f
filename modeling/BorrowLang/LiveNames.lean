/-! # Live names

The names that are still mentioned later, one set for every enclosing block and loop.  A name is
live when one of the sets holds it; names are compared as texts, so a shadowed binding counts as
live for as long as its shadow. -/
set_option autoImplicit false
namespace BorrowLang

/-- The sets of names mentioned later, the innermost first. -/
structure LiveNames where
  scopes : List (List String) := []
deriving Repr, DecidableEq, Inhabited

namespace LiveNames

def enter (live : LiveNames) (names : List String) : LiveNames := ⟨names :: live.scopes⟩

/-- The names without the innermost set, if there is one. -/
def exit? (live : LiveNames) : Option LiveNames :=
  match live.scopes with
  | [] => none
  | _ :: outer => some ⟨outer⟩

def contains (live : LiveNames) (name : String) : Bool :=
  live.scopes.any (·.contains name)

end LiveNames

end BorrowLang
