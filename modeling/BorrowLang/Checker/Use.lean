import BorrowLang.Checker.Loans

/-! # Using places

Which place an expression denotes, and what reading it does: a value that can be copied is copied,
with copies of the borrows that it carries; any other is moved out of its place, and takes its
borrows along. -/
set_option autoImplicit false
namespace BorrowLang.Checker

/-- The slot that a name is bound to, in the innermost scope that binds it. -/
def lookup? (scopes : List (List (String × PlaceId))) (name : String) : Option PlaceId :=
  scopes.findSome? fun scope => (scope.find? (·.1 = name)).map (·.2)

def lookup (ctx : Context) (loc : Option Position) (name : String) : Check PlaceId := do
  match lookup? (← get).scopes name with
  | some place => return place
  | none =>
      throw (ctx.fault .unresolvedName ("cannot find value `" ++ name ++ "` in this scope") loc
        (some name))

def bind (name : String) (ty : Option Ty) (isMut isParam initialized : Bool) : Check PlaceId := do
  let s ← get
  let (arena, place) := s.arena.addLocal name ty isMut isParam
  let scopes :=
    match s.scopes with
    | [] => [[(name, place)]]
    | scope :: rest => ((name, place) :: scope) :: rest
  set { s with arena, scopes, tracker := s.tracker.declare place initialized }
  return place

/-- The type of a place; a binding without one yet has no value either. -/
def typeOf (ctx : Context) (loc : Option Position) (place : PlaceId) : Check Ty := do
  match (← get).arena.ty? place with
  | some ty => return ty
  | none =>
      requireRead ctx loc place
      throw (ctx.fault .typeMismatch "type annotations needed" loc)

/-- What a value of a type is dereferenced as. -/
def viaOf : Ty → Via
  | .ref true _ => .mutRef
  | .ref false _ => .sharedRef
  | _ => .box

/-- What is said of a value that points at nothing. -/
def notPointerText (ty : Ty) : String := "type `" ++ ty.text ++ "` cannot be dereferenced"

def target (place : PlaceId) (via : Via) (ty : Ty) : Check PlaceId := do
  let s ← get
  let (arena, id) := s.arena.target place via (some ty)
  set { s with arena }
  return id

/-- The place that an expression denotes.  `*&p` is the place `p`, once the borrow is known to be
allowed. -/
def placeOf (ctx : Context) : Expr → Check PlaceId
  | .name loc ident => lookup ctx loc ident
  | .deref _ (.borrow loc operand isMut) => do
      let place ← placeOf ctx operand
      let s ← get
      if isMut then guard ctx loc (Tracker.checkMutable s.arena place true)
      guard ctx loc (s.tracker.checkBorrow s.arena place (.ofMut isMut))
      return place
  | .deref loc operand => do
      let base ← placeOf ctx operand
      let ty ← typeOf ctx operand.loc base
      match ty.pointee? with
      | none => throw (ctx.fault .typeMismatch (notPointerText ty) loc)
      | some inner => target base (viaOf ty) inner
  | _ => throw .unsupported

def usePlace (ctx : Context) (loc : Option Position) (place : PlaceId) : Check Operand := do
  let ty ← typeOf ctx loc place
  if ty.isCopy then
    requireRead ctx loc place
    if ty.hasRef then
      let s ← get
      let (tracker, nextBorrow, loans) := s.tracker.cloneHeld s.nextBorrow (s.arena.root place)
      set { s with tracker, nextBorrow }
      return { ty, loans }
    else return { ty }
  else
    let s ← get
    guard ctx loc (s.tracker.canMove s.arena place)
    let (tracker, loans) :=
      if (s.arena.parent? place).isNone then s.tracker.detach place else (s.tracker, [])
    set { s with tracker := tracker.markMoved place }
    return { ty, loans }

/-- A `&mut` binding passed to a `&mut` parameter is borrowed anew instead of moved. -/
def reborrow? (ctx : Context) (arg : Expr) (param : Ty) : Check (Option Operand) := do
  match param with
  | .ref true _ =>
      if arg.isPlace then
        let place ← placeOf ctx arg
        match (← get).arena.ty? place with
        | some (.ref true inner) =>
            requireRead ctx arg.loc place
            let reborrowed ← target place .mutRef inner
            let loan ← borrow ctx arg.loc reborrowed .exclusive
            return some { ty := .ref true inner, loans := [loan] }
        | _ => return none
      else return none
  | _ => return none

end BorrowLang.Checker
