import BorrowLang.Evaluator.Machine

/-! # Running programs

A run takes steps from the call of the entry function to the end of the machine.  It ends with what
was shown and the state of the heap, in every case. -/
set_option autoImplicit false
namespace BorrowLang.Evaluator

/-- The steps that a run may take.  No run that ends in practice needs as many. -/
def ampleSteps : Nat := 1000000000000000

/-- How a run ends. -/
inductive Ending
  | normal
  | failed (fault : Fault)
  /-- There were not enough steps. -/
  | unfinished
deriving Repr, DecidableEq

def Machine.ending (m : Machine) : Ending :=
  match m with
  | ⟨.value _, .nil, _⟩ => .normal
  | ⟨.interrupted (.failed fault), .nil, _⟩ => .failed fault
  | _ => .unfinished

/-- What is left after a run. -/
structure Result where
  ending : Ending
  state : State

def Result.outputs (r : Result) : List String := r.state.outputs.reverse

def Result.log (r : Result) : List LogEvent :=
  match r.ending with
  | .normal =>
      [.finished r.state.heap.allocated r.state.heap.freed r.state.heap.live]
  | _ => []

def runWith (ctx : Context) (steps : Nat) : Result :=
  let m := (Machine.start ctx).run ctx steps
  ⟨m.ending, m.state⟩

end BorrowLang.Evaluator

namespace BorrowLang

def Program.run (settings : Settings) (file : Option String) (program : Program) :
    Evaluator.Result :=
  Evaluator.runWith ⟨program.functions, settings, file⟩ Evaluator.ampleSteps

end BorrowLang
