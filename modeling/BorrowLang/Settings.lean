import BorrowLang.Text.Quoted

/-! # Settings

What a run is told from outside: the entry function, the greatest number of activation frames, and
the rule for how long a stored borrow lasts. -/
set_option autoImplicit false
namespace BorrowLang

/-- How long a borrow held by a binding lasts: until the binding's last use, or until it leaves its
scope. -/
inductive LifetimeMode
  | nll
  | lexical
deriving Repr, DecidableEq, Inhabited

namespace LifetimeMode

def text : LifetimeMode → String
  | nll => "nll"
  | lexical => "lexical"

/-- The modes, in the order in which they are listed to a user. -/
def all : List LifetimeMode := [nll, lexical]

def ofText? (name : String) : Option LifetimeMode :=
  all.find? fun mode => mode.text = name

end LifetimeMode

/-- Settings of a run. -/
structure Settings where
  entry : String := "main"
  maxCallDepth : Nat := 1000
  lifetimes : LifetimeMode := .nll
  depth_pos : 0 < maxCallDepth := by decide
deriving Repr, DecidableEq

namespace Settings

instance : Inhabited Settings := ⟨{}⟩

/-- Why settings are refused. -/
inductive Refusal
  | unknownLifetimes (name : String)
  | depthNotPositive
deriving Repr, DecidableEq

def Refusal.message : Refusal → String
  | unknownLifetimes name =>
      "unknown lifetime mode " ++ Text.quoted name ++ "; expected one of "
        ++ ", ".intercalate (LifetimeMode.all.map LifetimeMode.text)
  | depthNotPositive => "max_call_depth must be positive"

/-- Settings from raw values: the mode must be known and the depth positive, in this order. -/
def of? (entry : String) (depth : Int) (lifetimes : String) : Except Refusal Settings :=
  match LifetimeMode.ofText? lifetimes with
  | none => .error (.unknownLifetimes lifetimes)
  | some mode =>
      if h : 0 < depth then .ok ⟨entry, depth.toNat, mode, by omega⟩
      else .error .depthNotPositive

/-- Settings from values that may be absent; an empty text and a zero count as absent. -/
def ofOptions? (entry : Option String) (depth : Option Int) (lifetimes : Option String) :
    Except Refusal Settings :=
  let defaults : Settings := {}
  of? ((entry.filter (· ≠ "")).getD defaults.entry)
    ((depth.filter (· ≠ 0)).getD defaults.maxCallDepth)
    ((lifetimes.filter (· ≠ "")).getD defaults.lifetimes.text)

/-- Do held borrows last until their holder leaves its scope? -/
def lexical (s : Settings) : Bool := s.lifetimes = .lexical

end Settings

end BorrowLang
