import BorrowLang.Checker.Body

/-! # Checking programs

The names and types of all functions are settled first, then the entry function, then the bodies are
checked in the order of the text.  The first fault ends the check. -/
set_option autoImplicit false
namespace BorrowLang.Checker

def signatureOfDef (ctx : Context) (f : FunctionDef) : Except Fault Signature := do
  let params ← f.params.mapM fun param => ctx.resolve param.typeExpr param.loc
  match f.returnType with
  | none => return ⟨params, .unit⟩
  | some written => return ⟨params, ← ctx.resolve written f.loc⟩

/-- The signatures of functions, after those that are known already; no name is defined twice. -/
def collectSignatures (ctx : Context) :
    List FunctionDef → (known : List (String × Signature)) →
      Except Fault (List (String × Signature))
  | [], known => .ok known
  | f :: rest, known =>
      if known.any (·.1 = f.name) || (builtin? f.name).isSome then
        .error (ctx.fault .duplicateDefinition
          ("the name `" ++ f.name ++ "` is defined multiple times") f.loc (some f.name))
      else do
        let signature ← signatureOfDef ctx f
        collectSignatures ctx rest (known ++ [(f.name, signature)])

/-- The entry function exists and takes no parameters. -/
def checkEntry (ctx : Context) (program : Program) : Except Fault Unit :=
  let entry := ctx.settings.entry
  match ctx.signature? entry with
  | none =>
      .error (ctx.fault .unresolvedName ("`" ++ entry ++ "` function not found") none (some entry))
  | some signature =>
      if signature.params.isEmpty then .ok ()
      else
        .error (ctx.fault .typeMismatch ("`" ++ entry ++ "` function must not take parameters")
          ((program.functions.find? (·.name = entry)).bind (·.loc)) (some entry))

/-- The parameters become bindings of the outermost scope. -/
def bindParams (ctx : Context) : List (Param × Ty) → Check Unit
  | [] => pure ()
  | (param, ty) :: rest => do
      if (lookup? (← get).scopes param.name).isSome then
        throw (ctx.fault .duplicateDefinition
          ("identifier `" ++ param.name ++ "` is bound more than once in this parameter list")
          param.loc (some param.name))
      let _ ← bind param.name (some ty) param.isMut true true
      bindParams ctx rest

def checkFunction (ctx : Context) (f : FunctionDef) : Check Unit := do
  let signature := (ctx.signature? f.name).getD default
  let ctx := { ctx with result := signature.result }
  note (.checking f.name ctx.settings.lifetimes)
  modify fun s => { log := s.log, tracker := Tracker.pushFrame {} }
  bindParams ctx (f.params.zip signature.params)
  let value ← checkBlock ctx true f.body
  if !value.diverges && !value.ty.coercesTo signature.result then
    throw (ctx.fault .typeMismatch (mismatchText signature.result value.ty) (tailLoc f.body f.loc))
  let s ← get
  let (tracker, answer) := s.tracker.popFrame s.arena
  set { s with tracker }
  match answer with
  | .ok _ => note (.tracked f.name s.arena.size)
  | .error .outermost => throw .unreachable
  | .error (.dangling violation) => throw (.reported (violation.report s.arena (ctx.span f.loc)))

def checkFunctions (ctx : Context) : List FunctionDef → Check Unit
  | [] => pure ()
  | f :: rest => do
      checkFunction ctx f
      checkFunctions ctx rest

/-- The signatures of a program that breaks no rule, and what the check noted on the way. -/
def run (settings : Settings) (file : Option String) (program : Program) :
    Except Fault (List (String × Signature)) × List LogEvent :=
  let ctx : Context := { settings, file }
  match collectSignatures ctx program.functions [] with
  | .error fault => (.error fault, [])
  | .ok functions =>
      let ctx := { ctx with functions }
      match checkEntry ctx program with
      | .error fault => (.error fault, [])
      | .ok _ =>
          match (checkFunctions ctx program.functions).run.run {} with
          | (.error fault, s) => (.error fault, s.log.reverse)
          | (.ok _, s) => (.ok functions, s.log.reverse)

end BorrowLang.Checker

namespace BorrowLang

/-- The signatures of a program that breaks no rule. -/
def Program.check (settings : Settings) (file : Option String) (program : Program) :
    Except Checker.Fault (List (String × Signature)) :=
  (Checker.run settings file program).1

end BorrowLang
