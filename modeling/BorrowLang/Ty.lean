import BorrowLang.Syntax.Tree

/-! # Types

Integers, booleans, the unit type, boxes and references; what a written type stands for; and where a
value of one type may stand for another. -/
set_option autoImplicit false
namespace BorrowLang

/-- A type. -/
inductive Ty
  | i32
  | bool
  | unit
  | box (inner : Ty)
  | ref (isMut : Bool) (target : Ty)
deriving Repr, DecidableEq, Inhabited

/-- Why a written type stands for none. -/
inductive TypeFault
  | unknown (name : String)
  | boxArguments
  | noArguments (name : String)
  /-- A reference type without a target; no text gives rise to one. -/
  | missingTarget
deriving Repr, DecidableEq

/-- The message of a fault; a missing target has none. -/
def TypeFault.message : TypeFault → String
  | unknown name => "cannot find type `" ++ name ++ "` in this scope"
  | boxArguments => "`Box` takes exactly one type argument"
  | noArguments name => "type `" ++ name ++ "` does not take type arguments"
  | missingTarget => ""

namespace Ty

def text : Ty → String
  | i32 => "i32"
  | bool => "bool"
  | unit => "()"
  | box inner => "Box<" ++ inner.text ++ ">"
  | ref true target => "&mut " ++ target.text
  | ref false target => "&" ++ target.text

/-- The type without arguments that a name stands for. -/
def ofName? (name : String) : Option Ty :=
  if name = "i32" then some i32
  else if name = "bool" then some bool
  else if name = "()" then some unit
  else none

def resolve : TypeExpr → Except TypeFault Ty
  | .mk name args =>
      if name = "&" then
        match args with
        | [] => .error .missingTarget
        | target :: _ => do return ref false (← resolve target)
      else if name = "&mut" then
        match args with
        | [] => .error .missingTarget
        | target :: _ => do return ref true (← resolve target)
      else if name = "Box" then
        match args with
        | [inner] => do return box (← resolve inner)
        | _ => .error .boxArguments
      else if args.isEmpty then
        match ofName? name with
        | some ty => .ok ty
        | none => .error (.unknown name)
      else .error (.noArguments name)

/-- The type of what a value of a type points at. -/
def pointee? : Ty → Option Ty
  | box inner => some inner
  | ref _ target => some target
  | _ => none

def isBox : Ty → Bool
  | box _ => true
  | _ => false

def isRef : Ty → Bool
  | ref _ _ => true
  | _ => false

/-- Is a value of this type copied rather than moved? -/
def isCopy : Ty → Bool
  | i32 | bool | unit => true
  | ref isMut _ => !isMut
  | box _ => false

/-- Is there a reference in the type, at any depth? -/
def hasRef : Ty → Bool
  | ref _ _ => true
  | box inner => inner.hasRef
  | _ => false

/-- Can a value of this type be shown: an integer or a boolean, behind any boxes and references? -/
def isDisplayable : Ty → Bool
  | i32 | bool => true
  | unit => false
  | box inner => inner.isDisplayable
  | ref _ target => target.isDisplayable

/-- May a value of the first type stand where the second is expected?  A mutable reference may stand
for a shared one to the same type. -/
def coercesTo (actual expected : Ty) : Bool :=
  actual = expected ||
    match actual, expected with
    | ref true target, ref false wanted => target = wanted
    | _, _ => false

end Ty

/-- The types of the parameters and of the result of a function. -/
structure Signature where
  params : List Ty
  result : Ty
deriving Repr, DecidableEq, Inhabited

end BorrowLang
