import BorrowLang.Evaluator.Program
import BorrowLang.Proofs.Naming.Program
import BorrowLang.Proofs.Ownership.Run
import Mathlib.Data.List.Nodup
import Mathlib.Data.List.Perm.Basic

/-!
# Functions in another order

The check and the run ask for a function by its name only.  In an accepted program no name is
defined twice, so the order of the definitions is of no consequence.
-/

set_option autoImplicit false

namespace BorrowLang

/-! ### Entries with a name -/

/-- If no name occurs twice, the entry with a name is the one that is found. -/
theorem find?_eq_some_of_nodup {α : Type} {entries : List α} {key : α → String}
    (distinct : (entries.map key).Nodup) {name : String} {entry : α} :
    entries.find? (key · = name) = some entry ↔ entry ∈ entries ∧ key entry = name := by
  constructor
  · intro found
    exact ⟨List.mem_of_find?_eq_some found, by simpa using List.find?_some found⟩
  · rintro ⟨member, named⟩
    have isSome : (entries.find? (key · = name)).isSome :=
      List.find?_isSome.mpr ⟨entry, member, by simpa using named⟩
    obtain ⟨other, found⟩ := Option.isSome_iff_exists.mp isSome
    have namedOther : key other = name := by simpa using List.find?_some found
    have same : other = entry := List.inj_on_of_nodup_map distinct
      (List.mem_of_find?_eq_some found) member (namedOther.trans named.symm)
    rw [found, same]

theorem find?_perm {α : Type} {entries others : List α} {key : α → String}
    (perm : entries.Perm others) (distinct : (entries.map key).Nodup) (name : String) :
    others.find? (key · = name) = entries.find? (key · = name) := by
  have distinctOthers : (others.map key).Nodup := (perm.map key).nodup distinct
  ext entry
  rw [find?_eq_some_of_nodup distinctOthers, find?_eq_some_of_nodup distinct, perm.mem_iff]

/-! ### Checks -/

namespace Checker

variable {ctx ctx' : Context} {fs gs : List FunctionDef}

/-- Signatures are found for functions with names of their own whose types are all known. -/
theorem collectSignatures_completes (known : List (String × Signature)) :
    (∃ all, collectSignatures ctx fs known = .ok all) ↔
      (∀ f ∈ fs, builtin? f.name = none ∧ f.name ∉ known.map (·.1) ∧
        ∃ signature, signatureOfDef ctx f = .ok signature) ∧ (fs.map (·.name)).Nodup := by
  induction fs generalizing known with
  | nil => simp [collectSignatures]
  | cons f rest ih =>
      simp only [collectSignatures]
      split
      · rename_i taken
        constructor
        · rintro ⟨all, impossible⟩
          contradiction
        · rintro ⟨each, -⟩
          obtain ⟨notBuiltin, fresh, -⟩ := each f List.mem_cons_self
          simp_all
      · rename_i isNew
        obtain ⟨fresh, notBuiltin⟩ : f.name ∉ known.map (·.1) ∧ builtin? f.name = none := by
          simpa using isNew
        have later (signature : Signature) := ih (known ++ [(f.name, signature)])
        constructor
        · rintro ⟨all, collected⟩
          obtain ⟨signature, isKnown, collectedRest⟩ := bind_eq_ok.mp collected
          obtain ⟨each, distinct⟩ := (later signature).mp ⟨all, collectedRest⟩
          refine ⟨?_, ?_⟩
          · intro g member
            rcases List.mem_cons.mp member with rfl | inRest
            · exact ⟨notBuiltin, fresh, signature, isKnown⟩
            · obtain ⟨plain, freshToo, typed⟩ := each g inRest
              exact ⟨plain, fun old => freshToo (by simp_all), typed⟩
          · rw [List.map_cons, List.nodup_cons]
            refine ⟨fun twice => ?_, distinct⟩
            obtain ⟨g, inRest, same⟩ := List.mem_map.mp twice
            exact (each g inRest).2.1 (by simp [same])
        · rintro ⟨each, distinct⟩
          rw [List.map_cons, List.nodup_cons] at distinct
          obtain ⟨-, -, signature, isKnown⟩ := each f List.mem_cons_self
          obtain ⟨all, collectedRest⟩ := (later signature).mpr ⟨fun g inRest => by
            obtain ⟨plain, freshToo, typed⟩ := each g (List.mem_cons_of_mem f inRest)
            have other : g.name ≠ f.name := fun same =>
              distinct.1 (List.mem_map.mpr ⟨g, inRest, same⟩)
            refine ⟨plain, ?_, typed⟩
            rw [List.map_append, List.mem_append]
            rintro (old | own)
            · exact freshToo old
            · exact other (by simpa using own), distinct.2⟩
          exact ⟨all, bind_eq_ok.mpr ⟨signature, isKnown, collectedRest⟩⟩

/-- The signature with a name is that of the function with the name. -/
theorem Signed.signature?_eq_some (signed : Signed ctx fs) {name : String} {signature : Signature} :
    ctx.signature? name = some signature ↔
      ∃ f ∈ fs, f.name = name ∧ Checker.signatureOfDef ctx f = .ok signature := by
  constructor
  · intro known
    obtain ⟨entry, found, rfl⟩ := Option.map_eq_some_iff.mp known
    obtain ⟨f, member, isEntry⟩ := signed.only entry (List.mem_of_find?_eq_some found)
    have named : entry.1 = name := by simpa using List.find?_some found
    exact ⟨f, member, isEntry.name.symm.trans named, isEntry.signature⟩
  · rintro ⟨f, member, rfl, typed⟩
    obtain ⟨other, known⟩ := Option.isSome_iff_exists.mp (signed.signature?_isSome member)
    have same := signed.signatureOfDef member known
    rw [typed] at same
    rw [known, Except.ok.inj same]

/-- The signatures of a program are the same in another order. -/
theorem Signed.signature?_perm (signed : Signed ctx fs) (signed' : Signed ctx' gs)
    (perm : fs.Perm gs) (file : ctx'.file = ctx.file) (name : String) :
    ctx'.signature? name = ctx.signature? name := by
  have types (f : FunctionDef) : Checker.signatureOfDef ctx' f = Checker.signatureOfDef ctx f := by
    simp only [Checker.signatureOfDef, Context.resolve, Context.fault, Context.span, file]
  ext signature
  rw [signed'.signature?_eq_some, signed.signature?_eq_some]
  simp only [types, perm.mem_iff]

/-- A function is accepted, whatever was checked before it. -/
def Accepts (ctx : Context) (f : FunctionDef) : Prop :=
  ∃ a after, checkFunction ctx f {} = (.ok a, after)

theorem accepts_congr (like : Like .same ctx ctx') {f : FunctionDef} {signature : Signature}
    (known : ctx.signature? f.name = some signature)
    (arity : f.params.length = signature.params.length) (s t : State) :
    (∃ a after, checkFunction ctx f s = (.ok a, after)) ↔
      ∃ a after, checkFunction ctx' f t = (.ok a, after) :=
  (checkFunction_together like f.renamed_self known arity).completes

theorem checkFunctions_accepts (signed : Signed ctx fs) {part : List FunctionDef}
    (within : ∀ f ∈ part, f ∈ fs) (s : State) :
    (∃ a after, checkFunctions ctx part s = (.ok a, after)) ↔ ∀ f ∈ part, Accepts ctx f := by
  have like : Like .same ctx ctx := ⟨rfl, rfl, fun _ => rfl, nofun⟩
  induction part generalizing s with
  | nil => exact ⟨fun _ => by simp, fun _ => ⟨_, _, rfl⟩⟩
  | cons f rest ih =>
      obtain ⟨signature, known, arity⟩ := signed.arity (within f List.mem_cons_self)
      have first := accepts_congr like known arity s {}
      have others := ih fun g member => within g (List.mem_cons_of_mem f member)
      simp only [checkFunctions, run_bind]
      constructor
      · rintro ⟨a, after, done⟩
        cases here : checkFunction ctx f s with
        | mk answer mid =>
            cases answer with
            | error fault =>
                rw [here] at done
                cases (Prod.mk.inj done).1
            | ok b =>
                rw [here] at done
                exact List.forall_mem_cons.mpr
                  ⟨first.mp ⟨b, mid, here⟩, (others mid).mp ⟨a, after, done⟩⟩
      · intro all
        obtain ⟨b, mid, here⟩ := first.mpr (all f List.mem_cons_self)
        obtain ⟨a, after, done⟩ :=
          (others mid).mpr fun g member => all g (List.mem_cons_of_mem f member)
        exact ⟨a, after, by rw [here]; exact done⟩

/-- A program passes when its functions have names and types, one of them can be the entry, and each
of them is accepted beside the others. -/
theorem check_completes {p : Program} {settings : Settings} {file : Option String} :
    (∃ signatures, p.check settings file = .ok signatures) ↔
      ∃ signatures, collectSignatures { settings, file } p.functions [] = .ok signatures ∧
        checkEntry { settings, file, functions := signatures } p = .ok () ∧
        ∀ f ∈ p.functions, Accepts { settings, file, functions := signatures } f := by
  constructor
  · rintro ⟨signatures, passed⟩
    obtain ⟨collected, entryOk, after, checked⟩ := check_parts passed
    have signed := signed_of_collected collected
    exact ⟨signatures, collected, entryOk,
      (checkFunctions_accepts signed (fun f member => member) {}).mp ⟨_, after, checked⟩⟩
  · rintro ⟨signatures, collected, entryOk, all⟩
    have signed := signed_of_collected collected
    obtain ⟨_, after, checked⟩ :=
      (checkFunctions_accepts signed (fun f member => member) {}).mpr all
    exact ⟨signatures, check_of_parts collected entryOk checked⟩

/-- A program that passes does so with its functions in another order. -/
theorem check_passes_perm {p q : Program} (perm : p.functions.Perm q.functions)
    {settings : Settings} {file : Option String}
    (passed : ∃ signatures, p.check settings file = .ok signatures) :
    ∃ signatures, q.check settings file = .ok signatures := by
  obtain ⟨signatures, collected, entryOk, all⟩ := check_completes.mp passed
  obtain ⟨each, distinct⟩ := (collectSignatures_completes []).mp ⟨signatures, collected⟩
  obtain ⟨others, collectedOthers⟩ : ∃ others,
      collectSignatures { settings, file } q.functions [] = .ok others :=
    (collectSignatures_completes []).mpr
      ⟨fun f member => each f (perm.mem_iff.mpr member), (perm.map _).nodup distinct⟩
  have signed := signed_of_collected collected
  have same := signed.signature?_perm (signed_of_collected collectedOthers) perm rfl
  refine check_completes.mpr ⟨others, collectedOthers, ?_, ?_⟩
  · rw [checkEntry_eq_ok] at entryOk ⊢
    rw [same]
    exact entryOk
  · intro f member
    have member := perm.mem_iff.mpr member
    obtain ⟨signature, known, arity⟩ := signed.arity member
    have like : Like .same { settings, file, functions := signatures }
        { settings, file, functions := others } := ⟨rfl, rfl, same, nofun⟩
    exact (accepts_congr like known arity {} {}).mp (all f member)

end Checker

/-! ### Runs -/

namespace Evaluator

variable {ctx : Context} {fs : List FunctionDef}

/-- A step asks for functions by their names only. -/
theorem step_functions (same : ∀ name, ({ ctx with functions := fs } : Context).function? name =
    ctx.function? name) (m : Machine) : m.step { ctx with functions := fs } = m.step ctx := by
  obtain ⟨control, k, s⟩ := m
  cases control with
  | args loc func values rest =>
      cases rest with
      | nil =>
          simp only [Machine.step, advance, applyCall, same]
      | cons arg rest => rfl
  | stmts rest tail => cases rest <;> cases tail <;> rfl
  | shown template values rest => cases rest <;> rfl
  | follow template owned texts rest => cases rest <;> rfl
  | value v => cases k <;> rfl
  | interrupted interrupt => cases k <;> rfl
  | found l => cases k; rfl
  | finished => cases k; rfl
  | _ => rfl

theorem reached_functions (same : ∀ name, ({ ctx with functions := fs } : Context).function? name =
    ctx.function? name) (steps : Nat) :
    reached { ctx with functions := fs } steps = reached ctx steps := by
  induction steps with
  | zero => simp only [reached, Machine.run, Machine.start, same]
  | succ steps ih => rw [reached_succ, reached_succ, ih, step_functions same]

end Evaluator

/-! ### Programs -/

/-- The order of the functions of a program is of no consequence.  The program is accepted in every
order or in none; and if it is accepted, then its machine is the same after every step of a run in
every order, with the same outputs, fault, cells and tags, and so is the result of the run. -/
theorem Program.order_irrelevant {p q : Program} (perm : p.functions.Perm q.functions)
    (settings : Settings) (file : Option String) :
    ((∃ signatures, p.check settings file = .ok signatures) ↔
      ∃ signatures, q.check settings file = .ok signatures) ∧
    ((∃ signatures, p.check settings file = .ok signatures) →
      ∀ (running : Settings) (runFile : Option String),
        (∀ steps, Evaluator.reached ⟨q.functions, running, runFile⟩ steps =
          Evaluator.reached ⟨p.functions, running, runFile⟩ steps) ∧
        q.run running runFile = p.run running runFile) := by
  refine ⟨⟨Checker.check_passes_perm perm, Checker.check_passes_perm perm.symm⟩, ?_⟩
  rintro ⟨signatures, passed⟩ running runFile
  obtain ⟨collected, -⟩ := Checker.check_parts passed
  have distinct := ((Checker.collectSignatures_completes []).mp ⟨signatures, collected⟩).2
  have reversed : p.functions.reverse.Perm q.functions.reverse :=
    (List.reverse_perm _).trans (perm.trans (List.reverse_perm _).symm)
  have distinctReversed : (p.functions.reverse.map (·.name)).Nodup := by
    rw [List.map_reverse, List.nodup_reverse]
    exact distinct
  let ctx : Evaluator.Context := ⟨p.functions, running, runFile⟩
  have lookups : ∀ name,
      ({ ctx with functions := q.functions } : Evaluator.Context).function? name =
        ctx.function? name := find?_perm reversed distinctReversed
  have same : ∀ steps, Evaluator.reached ⟨q.functions, running, runFile⟩ steps =
      Evaluator.reached ⟨p.functions, running, runFile⟩ steps := Evaluator.reached_functions lookups
  refine ⟨same, ?_⟩
  have last := same Evaluator.ampleSteps
  unfold Evaluator.reached at last
  unfold Program.run Evaluator.runWith
  rw [last]

/-- A program with two functions that call each other. -/
def evenOdd : Program where
  functions := [
    { name := "even", params := [⟨"n", .mk "i32" [], none, false⟩], loc := none
      returnType := some (.mk "bool" [])
      body := .mk [] (some (.ifElse none
        (.binary none .eq (.name none "n") (.literal none (.int 0)))
        (.mk [] (some (.literal none (.bool true))) none)
        (some (.mk [] (some (.call none "odd"
          [.binary none (.arith .sub) (.name none "n") (.literal none (.int 1))])) none)))) none },
    { name := "odd", params := [⟨"n", .mk "i32" [], none, false⟩], loc := none
      returnType := some (.mk "bool" [])
      body := .mk [] (some (.ifElse none
        (.binary none .eq (.name none "n") (.literal none (.int 0)))
        (.mk [] (some (.literal none (.bool false))) none)
        (some (.mk [] (some (.call none "even"
          [.binary none (.arith .sub) (.name none "n") (.literal none (.int 1))])) none)))) none },
    { name := "main", params := [], loc := none, returnType := none
      body := .mk [.expr none (.macroCall none "println" "\x7b\x7d"
        [.call none "even" [.literal none (.int 3)]])] none none }]

/-- `evenOdd` with its functions in the opposite order. -/
theorem Program.order_irrelevant_evenOdd :
    evenOdd.functions.Perm evenOdd.functions.reverse ∧
    (∃ signatures, (⟨evenOdd.functions.reverse⟩ : Program).check default none = .ok signatures) ∧
    (⟨evenOdd.functions.reverse⟩ : Program).run default none = evenOdd.run default none := by
  have perm : evenOdd.functions.Perm evenOdd.functions.reverse := (List.reverse_perm _).symm
  have passed : ∃ signatures, evenOdd.check default none = .ok signatures := by
    have isOk : (evenOdd.check default none).toOption.isSome = true := by decide +kernel
    cases passed : evenOdd.check default none with
    | ok signatures => exact ⟨signatures, rfl⟩
    | error fault => simp [passed, Except.toOption] at isOk
  obtain ⟨checks, runs⟩ := Program.order_irrelevant (p := evenOdd)
    (q := ⟨evenOdd.functions.reverse⟩) perm default none
  exact ⟨perm, checks.mp passed, (runs passed default none).2⟩

end BorrowLang
