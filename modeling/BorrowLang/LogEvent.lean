import BorrowLang.Settings

/-! # Log events

What the checker, the evaluator and the command line tell of their progress when asked to. -/
set_option autoImplicit false
namespace BorrowLang

/-- Something worth a line in the log. -/
inductive LogEvent
  | checking (function : String) (mode : LifetimeMode)
  | released (borrows : Nat)
  | tracked (function : String) (places : Nat)
  | finished (allocated freed live : Nat)
  | failed (file phase message : String)
deriving Repr, DecidableEq

def LogEvent.line : LogEvent → String
  | checking function mode =>
      "DEBUG ferrum.borrow_checker: borrow-checking fn " ++ function
        ++ " (lifetimes=" ++ mode.text ++ ")"
  | released borrows =>
      "DEBUG ferrum.borrow_checker: released " ++ toString borrows ++ " borrow(s) after last use"
  | tracked function places =>
      "DEBUG ferrum.borrow_checker: fn " ++ function ++ ": " ++ toString places ++ " places tracked"
  | finished allocated freed live =>
      "DEBUG ferrum.interp: run finished: " ++ toString allocated ++ " cells allocated, "
        ++ toString freed ++ " freed, " ++ toString live ++ " live"
  | failed file phase message =>
      "DEBUG ferrum.driver: " ++ file ++ " failed in " ++ phase ++ ": " ++ message

end BorrowLang
