import BorrowLang.Arith
import BorrowLang.Grammar.ParseTree
import BorrowLang.Syntax.Tree
import BorrowLang.Text.Escape
import BorrowLang.Text.Integer

/-! # Syntax trees from parse trees

The program that a parse tree stands for.  Some texts that the grammar allows are refused here: an
expression without `;` before the end of a block, paths other than `Box::new`, integers beyond 32
bits, and malformed string literals.  The first fault in the order of the text is reported, with the
parts of a node before the node's own check. -/
set_option autoImplicit false
namespace BorrowLang

open Grammar (ParseTree)

/-- Why a parse tree stands for no program. -/
inductive BuildFault
  | missingSemicolon (loc : Position)
  | unsupportedPath (owner member : String) (loc : Position)
  | boxArguments (loc : Position)
  | integerTooLarge (loc : Position)
  /-- The tree has a shape that no text gives rise to. -/
  | unsupportedShape (loc : Position)
  /-- A string literal whose escapes cannot be decoded. -/
  | malformedString
  /-- An integer literal with more digits than are ever converted. -/
  | tooManyDigits
deriving Repr, DecidableEq

/-- The number that decimal digits stand for. -/
def numeral (digits : List Char) : Nat :=
  digits.foldl (fun n c => 10 * n + (c.toNat - 48)) 0

/-- The literal of some digits, perhaps negated; underscores between them are ignored. -/
def buildInteger (negative : Bool) (text : String) (loc : Position) : Except BuildFault Expr :=
  let digits := text.toList.filter (· ≠ '_')
  if Text.digitLimit < digits.length then .error .tooManyDigits
  else
    let magnitude : Int := numeral digits
    let value := if negative then -magnitude else magnitude
    if value < minInt ∨ maxInt < value then .error (.integerTooLarge loc)
    else .ok (.literal (some loc) (.int value))

/-- The text of a string literal, without its quotes. -/
def buildString (text : String) : Except BuildFault String :=
  match Text.unescape? ((text.toList.drop 1).dropLast) with
  | some decoded => .ok decoded
  | none => .error .malformedString

/-- A tree of a shape that no text gives rise to. -/
def unsupported {α : Type} (loc : Position) : Except BuildFault α := .error (.unsupportedShape loc)

def treeLoc : ParseTree → Position
  | .leaf token => token.position
  | .node _ start _ => start

def buildType : ParseTree → Except BuildFault TypeExpr
  | .leaf token => unsupported token.position
  | .node form p children =>
      match form with
      | .namedType =>
          match children with
          | [.leaf name] => .ok (.mk name.text [])
          | _ => unsupported p
      | .unitType => .ok (.mk "()" [])
      | .genericType =>
          match children with
          | [.leaf name, _, arg, _] => do return .mk name.text [← buildType arg]
          | _ => unsupported p
      | .refType =>
          match children with
          | [_, target] => do return .mk "&" [← buildType target]
          | [_, _, target] => do return .mk "&mut" [← buildType target]
          | _ => unsupported p
      | .doubleRefType =>
          match children with
          | [_, target] => do return .mk "&" [.mk "&" [← buildType target]]
          | [_, _, target] => do return .mk "&" [.mk "&mut" [← buildType target]]
          | _ => unsupported p
      | _ => unsupported p

/-- Is this item of a block a lone semicolon? -/
def isEmptyItem : ParseTree → Bool
  | .node .emptyStmt _ _ => true
  | _ => false

/-- The position of an item that is an `if` or a block: it needs no `;` after it. -/
def blockLike? : ParseTree → Option Position
  | .node .ifExpr p _ | .node .blockExpr p _ => some p
  | _ => none

/-- The digits of a tree that is an integer literal. -/
def digits? : ParseTree → Option String
  | .node .intLit _ [.leaf digits] => some digits.text
  | _ => none

/-- The value that `Box::new` gets: a path can only be that, with one argument. -/
def buildPathCall (loc : Position) (owner member : String) (args : List Expr) :
    Except BuildFault Expr :=
  if owner = "Box" ∧ member = "new" then
    match args with
    | [value] => .ok (.boxNew (some loc) value)
    | _ => .error (.boxArguments loc)
  else .error (.unsupportedPath owner member loc)

mutual

def buildExpr : ParseTree → Except BuildFault Expr
  | .leaf token => unsupported token.position
  | .node form p children =>
      match form with
      | .binary =>
          match children with
          | [left, .leaf op, right] => do
              let left ← buildExpr left
              let right ← buildExpr right
              return .binary (some p) (.ofText op.text) left right
          | _ => unsupported p
      | .negation =>
          match children with
          | [_, operand] =>
              match digits? operand with
              | some digits => buildInteger true digits p
              | none => do return .unary (some p) .neg (← buildExpr operand)
          | _ => unsupported p
      | .complement =>
          match children with
          | [_, operand] => do return .unary (some p) .not (← buildExpr operand)
          | _ => unsupported p
      | .deref =>
          match children with
          | [_, operand] => do return .deref (some p) (← buildExpr operand)
          | _ => unsupported p
      | .borrow =>
          match children with
          | [_, operand] => do return .borrow (some p) (← buildExpr operand) false
          | [_, _, operand] => do return .borrow (some p) (← buildExpr operand) true
          | _ => unsupported p
      | .doubleBorrow =>
          match children with
          | [_, operand] => do
              return .borrow (some p) (.borrow (some p) (← buildExpr operand) false) false
          | [_, _, operand] => do
              return .borrow (some p) (.borrow (some p) (← buildExpr operand) true) false
          | _ => unsupported p
      | .call =>
          match children with
          | [.leaf func] => .ok (.call (some p) func.text [])
          | [.leaf func, .node _ _ args] => do
              return .call (some p) func.text (← buildExprs args)
          | _ => unsupported p
      | .pathCall =>
          match children with
          | [.leaf owner, .leaf member] => buildPathCall p owner.text member.text []
          | [.leaf owner, .leaf member, .node _ _ args] => do
              buildPathCall p owner.text member.text (← buildExprs args)
          | _ => unsupported p
      | .macroCall =>
          match children with
          | [.leaf callee, _] => .ok (.macroCall (some p) callee.text "" [])
          | [.leaf callee, _, .node _ _ (.leaf template :: args)] => do
              let template ← buildString template.text
              return .macroCall (some p) callee.text template (← buildExprs args)
          | _ => unsupported p
      | .ifExpr =>
          match children with
          | [condition, thenBlock] => do
              let condition ← buildExpr condition
              return .ifElse (some p) condition (← buildBlock thenBlock) none
          | [condition, thenBlock, .node .elseClause _ [.node .block q items]] => do
              let condition ← buildExpr condition
              let thenBlock ← buildBlock thenBlock
              let (statements, tail) ← buildItems items
              return .ifElse (some p) condition thenBlock (some (.mk statements tail (some q)))
          | [condition, thenBlock, .node .elseClause _ [chained]] => do
              let condition ← buildExpr condition
              let thenBlock ← buildBlock thenBlock
              let chained ← buildExpr chained
              return .ifElse (some p) condition thenBlock
                (some (.mk [] (some chained) chained.loc))
          | _ => unsupported p
      | .blockExpr =>
          match children with
          | [body] => do return .block (some p) (← buildBlock body)
          | _ => unsupported p
      | .var =>
          match children with
          | [.leaf name] => .ok (.name (some p) name.text)
          | _ => unsupported p
      | .intLit =>
          match children with
          | [.leaf digits] => buildInteger false digits.text p
          | _ => unsupported p
      | .trueLit => .ok (.literal (some p) (.bool true))
      | .falseLit => .ok (.literal (some p) (.bool false))
      | .unitLit => .ok (.literal (some p) .unit)
      | _ => unsupported p

def buildExprs : List ParseTree → Except BuildFault (List Expr)
  | [] => .ok []
  | tree :: rest => do
      let first ← buildExpr tree
      return first :: (← buildExprs rest)

def buildBlock : ParseTree → Except BuildFault Block
  | .leaf token => unsupported token.position
  | .node form p items =>
      match form with
      | .block => do
          let (statements, tail) ← buildItems items
          return .mk statements tail (some p)
      | _ => unsupported p

/-- The statements and the tail of the items of a block.  An expression without `;` is the tail when
only lone semicolons follow; an `if` or a block is the tail when nothing at all follows. -/
def buildItems : List ParseTree → Except BuildFault (List Stmt × Option Expr)
  | [] => .ok ([], none)
  | .node .emptyStmt _ _ :: rest => buildItems rest
  | .node .tailExpr p [value] :: rest =>
      if rest.all isEmptyItem then do return ([], some (← buildExpr value))
      else .error (.missingSemicolon p)
  | item :: rest =>
      match blockLike? item with
      | some p => do
          let value ← buildExpr item
          let (statements, tail) ← buildItems rest
          return if rest.isEmpty then ([], some value)
            else (.expr (some p) value :: statements, tail)
      | none => do
          let first ← buildStmt item
          let (statements, tail) ← buildItems rest
          return (first :: statements, tail)

def buildStmt : ParseTree → Except BuildFault Stmt
  | .leaf token => unsupported token.position
  | .node form p children =>
      match form with
      | .letStmt =>
          match children with
          | .leaf ⟨.kwMut, _, _⟩ :: parts => buildLet p true parts
          | parts => buildLet p false parts
      | .assignStmt =>
          match children with
          | [target, .leaf op, value] => do
              let target ← buildExpr target
              let value ← buildExpr value
              return .assign (some p) target value
                (if op.terminal = .compoundOp then some (.ofText (op.text.dropEnd 1).copy)
                  else none)
          | _ => unsupported p
      | .returnStmt =>
          match children with
          | [] => .ok (.ret (some p) none)
          | [value] => do return .ret (some p) (some (← buildExpr value))
          | _ => unsupported p
      | .whileStmt =>
          match children with
          | [condition, body] => do
              let condition ← buildExpr condition
              return .whileLoop (some p) condition (← buildBlock body)
          | _ => unsupported p
      | .exprStmt =>
          match children with
          | [value] => do return .expr (some p) (← buildExpr value)
          | _ => unsupported p
      | _ => unsupported p

/-- The binding of the trees after `let` and `mut`: a name, and perhaps a type and a value. -/
def buildLet (p : Position) (isMut : Bool) : List ParseTree → Except BuildFault Stmt
  | [.leaf name] => .ok (.letVar (some p) name.text none none isMut)
  | [.leaf name, .node _ _ [written]] => do
      return .letVar (some p) name.text (some (← buildType written)) none isMut
  | [.leaf name, .leaf _, value] => do
      return .letVar (some p) name.text none (some (← buildExpr value)) isMut
  | [.leaf name, .node _ _ [written], .leaf _, value] => do
      let written ← buildType written
      return .letVar (some p) name.text (some written) (some (← buildExpr value)) isMut
  | _ => unsupported p

end

def buildParam : ParseTree → Except BuildFault Param
  | .node .param p [.leaf name, written] => do
      return ⟨name.text, ← buildType written, some p, false⟩
  | .node .param p [.leaf _, .leaf name, written] => do
      return ⟨name.text, ← buildType written, some p, true⟩
  | tree => unsupported (treeLoc tree)

def buildFunction : ParseTree → Except BuildFault FunctionDef
  | .node .function p [.leaf name, body] => do
      return ⟨name.text, [], none, ← buildBlock body, some p⟩
  | .node .function p [.leaf name, .node .params _ params, body] => do
      let params ← params.mapM buildParam
      return ⟨name.text, params, none, ← buildBlock body, some p⟩
  | .node .function p [.leaf name, .node .result _ [written], body] => do
      let written ← buildType written
      return ⟨name.text, [], some written, ← buildBlock body, some p⟩
  | .node .function p [.leaf name, .node .params _ params, .node .result _ [written], body] => do
      let params ← params.mapM buildParam
      let written ← buildType written
      return ⟨name.text, params, some written, ← buildBlock body, some p⟩
  | tree => unsupported (treeLoc tree)

def buildProgram : List ParseTree → Except BuildFault Program
  | [.node .program _ functions] => do return ⟨← functions.mapM buildFunction⟩
  | _ => unsupported .start

end BorrowLang
