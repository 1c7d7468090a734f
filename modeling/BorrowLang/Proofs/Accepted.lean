import BorrowLang.Checker.Program
import BorrowLang.Syntax.OfText

/-!
# Accepted texts

A text is accepted when it is read and the program passes the check.
-/

set_option autoImplicit false

namespace BorrowLang

/-- The program of a text that is accepted. -/
def accepted? (text : String) (settings : Settings := default) : Option Program :=
  match Program.ofText none text with
  | .error _ => none
  | .ok program =>
      match program.check settings none with
      | .error _ => none
      | .ok _ => some program

theorem parts_of_accepted {text : String} {settings : Settings} {program : Program}
    (accepted : accepted? text settings = some program) :
    ∃ signatures, Program.ofText none text = .ok program ∧
      program.check settings none = .ok signatures := by
  unfold accepted? at accepted
  split at accepted
  · simp at accepted
  · rename_i found read
    split at accepted
    · simp at accepted
    · rename_i signatures passed
      obtain rfl := Option.some.inj accepted
      exact ⟨signatures, read, passed⟩

end BorrowLang
