import BorrowLang.Checker.Program
import BorrowLang.Evaluator.Action
import BorrowLang.Proofs.Answers
import BorrowLang.Proofs.Typing.Bodies
import Mathlib.Data.List.Nodup

/-!
# Checked programs are typed

A program that passes the check has one function for each signature, and each function is typed by
its signature.  The entry function takes no parameters.
-/

set_option autoImplicit false

namespace BorrowLang

/-- The result type that a function declares, if what is written stands for one. -/
def FunctionDef.result? (f : FunctionDef) : Option Ty :=
  match f.returnType with
  | none => some .unit
  | some written => (Ty.resolve written).toOption

namespace Typing

/-- A function has a signature, and its body is typed by it. -/
structure FunctionTyped (signature? : String → Option Signature) (f : FunctionDef)
    (signature : Signature) : Prop where
  result : f.result? = some signature.result
  arity : f.params.length = signature.params.length
  body : ∃ out, BlockTyped signature? signature.result
      (Env.bindParams [[]] (f.params.zip signature.params)) f.body out ∧
    out.Suits (some signature.result)

/-- What can be called, and the entry of a program, are functions that are typed; or the function
that shows an integer is called. -/
structure ProgramTyped (ctx : Evaluator.Context) (signature? : String → Option Signature) :
    Prop where
  function : ∀ func signature, signature? func = some signature →
    (∃ f, ctx.function? func = some f ∧ FunctionTyped signature? f signature) ∨
    (ctx.function? func = none ∧ func = displayName ∧ signature = ⟨[.i32], .unit⟩)
  entry : ∃ f result, ctx.function? ctx.settings.entry = some f ∧
    FunctionTyped signature? f ⟨[], result⟩

end Typing

namespace Checker

open Typing

variable {ctx : Context} {s : State}

/-! ### Signatures -/

/-- A function and the entry of its signature. -/
structure Entry (ctx : Context) (f : FunctionDef) (entry : String × Signature) : Prop where
  name : entry.1 = f.name
  signature : signatureOfDef ctx f = .ok entry.2
  notBuiltin : builtin? f.name = none

/-- Each function has an entry, there are no other new entries, and no name has two. -/
theorem collectSignatures_entries {fs : List FunctionDef} {known all : List (String × Signature)}
    (collected : collectSignatures ctx fs known = .ok all) (distinct : (known.map (·.1)).Nodup) :
    (∀ f ∈ fs, ∃ entry ∈ all, Entry ctx f entry) ∧
    (∀ entry ∈ all, entry ∈ known ∨ ∃ f ∈ fs, Entry ctx f entry) ∧
    (∀ entry ∈ known, entry ∈ all) ∧ (all.map (·.1)).Nodup := by
  induction fs generalizing known with
  | nil =>
      obtain rfl := Except.ok.inj collected
      exact ⟨by simp, fun entry member => Or.inl member, fun entry member => member, distinct⟩
  | cons f rest ih =>
      simp only [collectSignatures] at collected
      split at collected
      · simp at collected
      · rename_i isNew
        obtain ⟨fresh, notBuiltin⟩ : f.name ∉ known.map (·.1) ∧ builtin? f.name = none := by
          simpa using isNew
        obtain ⟨signature, sigKnown, collectedRest⟩ := bind_eq_ok.mp collected
        have distinctMore : ((known ++ [(f.name, signature)]).map (·.1)).Nodup := by
          rw [List.map_append, List.nodup_append]
          refine ⟨distinct, List.nodup_singleton _, ?_⟩
          rintro name inKnown other isName rfl
          obtain rfl : name = f.name := List.mem_singleton.mp isName
          exact fresh inKnown
        have own : Entry ctx f (f.name, signature) := ⟨rfl, sigKnown, notBuiltin⟩
        obtain ⟨each, only, kept, distinctAll⟩ := ih collectedRest distinctMore
        have ownIn : (f.name, signature) ∈ all := kept _ (by simp)
        refine ⟨?_, ?_, fun entry member => kept entry (by simp [member]), distinctAll⟩
        · intro g member
          rcases List.mem_cons.mp member with rfl | later
          · exact ⟨_, ownIn, own⟩
          · exact each g later
        · intro entry member
          rcases only entry member with old | ⟨g, later, isEntry⟩
          · rcases List.mem_append.mp old with old | isOwn
            · exact Or.inl old
            · obtain rfl := List.mem_singleton.mp isOwn
              exact Or.inr ⟨f, List.mem_cons_self, own⟩
          · exact Or.inr ⟨g, List.mem_cons_of_mem f later, isEntry⟩

theorem resolve_eq_ok {written : TypeExpr} {loc : Option Position} {ty : Ty}
    (known : ctx.resolve written loc = .ok ty) : Ty.resolve written = .ok ty := by
  unfold Context.resolve at known
  split at known
  · rename_i resolved
    rw [resolved, Except.ok.inj known]
  all_goals simp at known

/-- The parts of a signature are those of the definition. -/
theorem signatureOfDef_parts {f : FunctionDef} {signature : Signature}
    (known : signatureOfDef ctx f = .ok signature) :
    f.params.length = signature.params.length ∧ f.result? = some signature.result := by
  obtain ⟨params, paramsKnown, known⟩ := bind_eq_ok.mp known
  have arity := (mapM_eq_ok paramsKnown).length_eq
  refine ⟨?_, ?_⟩
  · split at known
    · obtain rfl := Except.ok.inj known
      exact arity
    · obtain ⟨ty, -, same⟩ := bind_eq_ok.mp known
      obtain rfl := Except.ok.inj same
      exact arity
  · unfold FunctionDef.result?
    cases written : f.returnType with
    | none =>
        rw [written] at known
        obtain rfl := Except.ok.inj known
        rfl
    | some expr =>
        rw [written] at known
        obtain ⟨ty, resolved, same⟩ := bind_eq_ok.mp known
        obtain rfl := Except.ok.inj same
        simp [resolve_eq_ok resolved, Except.toOption]

/-- The signatures of a program: each of a function that is not built in, and no two of one name. -/
structure Signed (ctx : Context) (fs : List FunctionDef) : Prop where
  each : ∀ f ∈ fs, ∃ entry ∈ ctx.functions, Entry ctx f entry
  only : ∀ entry ∈ ctx.functions, ∃ f ∈ fs, Entry ctx f entry
  distinct : (ctx.functions.map (·.1)).Nodup

theorem signed_of_collected {settings : Settings} {file : Option String} {fs : List FunctionDef}
    {signatures : List (String × Signature)}
    (collected : collectSignatures { settings, file } fs [] = .ok signatures) :
    Signed { settings, file, functions := signatures } fs := by
  obtain ⟨each, only, -, distinct⟩ := collectSignatures_entries collected List.nodup_nil
  refine ⟨fun f member => ?_, fun known member => ?_, distinct⟩
  · obtain ⟨known, knownIn, isEntry⟩ := each f member
    exact ⟨known, knownIn, isEntry.name, isEntry.signature, isEntry.notBuiltin⟩
  · obtain ⟨f, fIn, isEntry⟩ := (only known member).resolve_left (by simp)
    exact ⟨f, fIn, isEntry.name, isEntry.signature, isEntry.notBuiltin⟩

section Signatures

variable {fs : List FunctionDef} {run : Evaluator.Context}

/-- The signature with a name is that of any function with the name. -/
theorem Signed.signatureOfDef (signed : Signed ctx fs) {f : FunctionDef} {signature : Signature}
    (member : f ∈ fs) (known : ctx.signature? f.name = some signature) :
    signatureOfDef ctx f = .ok signature := by
  obtain ⟨found, isFound, rfl⟩ := Option.map_eq_some_iff.mp known
  obtain ⟨entry, entryIn, isEntry⟩ := signed.each f member
  have named : found.1 = f.name := by simpa using List.find?_some isFound
  obtain rfl := List.inj_on_of_nodup_map signed.distinct entryIn
    (List.mem_of_find?_eq_some isFound) (isEntry.name.trans named.symm)
  exact isEntry.signature

theorem Signed.signature?_isSome (signed : Signed ctx fs) {f : FunctionDef} (member : f ∈ fs) :
    (ctx.signature? f.name).isSome := by
  obtain ⟨entry, entryIn, isEntry⟩ := signed.each f member
  simp only [Context.signature?, Option.isSome_map, List.find?_isSome, decide_eq_true_eq]
  exact ⟨entry, entryIn, isEntry.name⟩

theorem Signed.function? (signed : Signed ctx fs) (functions : run.functions = fs) {func : String}
    {signature : Signature} (known : ctx.signature? func = some signature) :
    ∃ f ∈ fs, run.function? func = some f ∧ f.name = func := by
  obtain ⟨entry, isFound, rfl⟩ := Option.map_eq_some_iff.mp known
  obtain ⟨g, gIn, isEntry⟩ := signed.only entry (List.mem_of_find?_eq_some isFound)
  have named : g.name = func := isEntry.name ▸ by simpa using List.find?_some isFound
  have isSome : (run.function? func).isSome := by
    simp only [Evaluator.Context.function?, functions, List.find?_isSome, List.mem_reverse,
      decide_eq_true_eq]
    exact ⟨g, gIn, named⟩
  obtain ⟨f, found⟩ := Option.isSome_iff_exists.mp isSome
  refine ⟨f, ?_, found, by simpa using List.find?_some found⟩
  simpa [functions] using List.mem_of_find?_eq_some found

/-- The name of a built-in function is not that of a function of the program. -/
theorem Signed.function?_builtin (signed : Signed ctx fs) (functions : run.functions = fs)
    {func : String} {signature : Signature} (builtin : builtin? func = some signature) :
    run.function? func = none := by
  refine List.find?_eq_none.mpr fun f member named => ?_
  obtain rfl : f.name = func := by simpa using named
  obtain ⟨entry, -, isEntry⟩ := signed.each f (by simpa [functions] using member)
  simp [isEntry.notBuiltin] at builtin

end Signatures

/-! ### Functions -/

theorem bindParams_passes (sound : s.Sound) (params : List (Param × Ty)) :
    Passes (bindParams ctx params) s fun _ after => after.Sound ∧ s.arena.Extends after.arena ∧
      ∀ arena, after.arena.Extends arena →
        envOf arena after.scopes = (envOf arena s.scopes).bindParams params := by
  induction params generalizing s with
  | nil => exact ⟨sound, .refl _, fun _ _ => rfl⟩
  | cons slot rest ih =>
      obtain ⟨param, ty⟩ := slot
      simp only [bindParams, meets_bind, meets_get]
      split
      · trivial
      simp only [meets_bind]
      refine (bind_passes sound param.name (some ty) param.isMut true true).mono ?_
      intro place mid met
      obtain ⟨midSound, extended, -, known, binding⟩ := met
      refine (ih midSound).mono ?_
      intro _ after met
      obtain ⟨afterSound, extendedRest, bindings⟩ := met
      refine ⟨afterSound, extended.trans extendedRest, fun arena later => ?_⟩
      rw [bindings arena later, binding arena, (extendedRest.trans later).ty known]
      rfl

/-- A function that passes is typed by its signature. -/
theorem checkFunction_passes {fs : List FunctionDef} (signed : Signed ctx fs) {f : FunctionDef}
    (member : f ∈ fs) (regular : f.body.Regular) :
    Passes (checkFunction ctx f) s fun _ _ => ∃ signature,
      ctx.signature? f.name = some signature ∧ FunctionTyped ctx.callable? f signature := by
  obtain ⟨signature, known⟩ := Option.isSome_iff_exists.mp (signed.signature?_isSome member)
  obtain ⟨arity, result⟩ := signatureOfDef_parts (signed.signatureOfDef member known)
  simp only [checkFunction, known, Option.getD_some, note, meets_bind, meets_modify]
  have fresh : ∀ log, State.Sound { log, tracker := Tracker.pushFrame {} } :=
    fun log => ⟨Arena.sound_empty, by simp⟩
  refine (bindParams_passes (fresh _) _).mono ?_
  intro _ mid met
  obtain ⟨midSound, -, bindings⟩ := met
  refine (block_typed f.body regular true mid midSound).mono fun value after checked => ?_
  have env : envOf after.arena mid.scopes =
      Env.bindParams [[]] (f.params.zip signature.params) := bindings after.arena checked.known
  have typed : BlockTyped ctx.callable? signature.result
      (Env.bindParams [[]] (f.params.zip signature.params)) f.body value.outcome :=
    env ▸ checked.typed after.arena (.refl _)
  split
  · trivial
  · rename_i fits
    have suits : value.outcome.Suits (some signature.result) := by
      refine Operand.suits ?_
      cases diverges : value.diverges <;> simp_all
    simp only [meets_bind, meets_get, meets_set]
    split
    · exact ⟨signature, rfl, result, arity, value.outcome, typed, suits⟩
    all_goals trivial

/-- What holds of each function that passes holds of all functions that do. -/
theorem checkFunctions_each {P : FunctionDef → Prop} {fs : List FunctionDef}
    (each : ∀ f ∈ fs, ∀ s, Passes (checkFunction ctx f) s fun _ _ => P f) :
    Passes (checkFunctions ctx fs) s fun _ _ => ∀ f ∈ fs, P f := by
  induction fs generalizing s with
  | nil => exact fun f impossible => by simp at impossible
  | cons f rest ih =>
      simp only [checkFunctions, meets_bind]
      refine (each f List.mem_cons_self s).mono fun _ mid here => ?_
      refine (ih fun g later => each g (List.mem_cons_of_mem f later)).mono fun _ after others => ?_
      exact List.forall_mem_cons.mpr ⟨here, others⟩

theorem check_parts {program : Program} {settings : Settings} {file : Option String}
    {signatures : List (String × Signature)}
    (passed : program.check settings file = .ok signatures) :
    collectSignatures { settings, file } program.functions [] = .ok signatures ∧
    checkEntry { settings, file, functions := signatures } program = .ok () ∧
    ∃ after, checkFunctions { settings, file, functions := signatures } program.functions {} =
      (.ok (), after) := by
  simp only [Program.check, Checker.run] at passed
  cases collected : collectSignatures { settings, file } program.functions [] with
  | error fault => simp [collected] at passed
  | ok functions =>
      simp only [collected] at passed
      cases entryOk : checkEntry { settings, file, functions } program with
      | error fault => simp [entryOk] at passed
      | ok _ =>
          simp only [entryOk] at passed
          cases checked : (checkFunctions { settings, file, functions } program.functions).run.run
              {} with
          | mk result after =>
              cases result with
              | error fault => simp [checked] at passed
              | ok _ =>
                  obtain rfl : functions = signatures := by simpa [checked] using passed
                  exact ⟨rfl, entryOk, after, checked⟩

theorem check_of_parts {program : Program} {settings : Settings} {file : Option String}
    {signatures : List (String × Signature)} {after : State}
    (collected : collectSignatures { settings, file } program.functions [] = .ok signatures)
    (entryOk : checkEntry { settings, file, functions := signatures } program = .ok ())
    (checked : checkFunctions { settings, file, functions := signatures } program.functions {} =
      (.ok (), after)) :
    program.check settings file = .ok signatures := by
  have done : (checkFunctions { settings, file, functions := signatures }
      program.functions).run.run {} = (.ok (), after) := checked
  simp [Program.check, Checker.run, collected, entryOk, done]

/-- What the check of a function makes sure of under its signature holds of all that can be called in
a run of a program that passes, but for what is built in, and of the entry. -/
theorem callable_of_check {P : FunctionDef → Signature → Prop} {program : Program}
    {settings : Settings} {file : Option String} {signatures : List (String × Signature)}
    (passed : program.check settings file = .ok signatures)
    (each : let ctx : Context := { settings, file, functions := signatures }
      Signed ctx program.functions → ∀ f ∈ program.functions, ∀ s,
        Passes (checkFunction ctx f) s fun _ _ =>
          ∃ signature, ctx.signature? f.name = some signature ∧ P f signature)
    {run : Evaluator.Context} (functions : run.functions = program.functions)
    (entry : run.settings.entry = settings.entry) :
    (∀ func signature,
      Context.callable? { settings, file, functions := signatures } func = some signature →
        (∃ f, run.function? func = some f ∧ P f signature) ∨
        (run.function? func = none ∧ func = displayName ∧ signature = ⟨[.i32], .unit⟩)) ∧
      ∃ f result, run.function? run.settings.entry = some f ∧ P f ⟨[], result⟩ := by
  obtain ⟨collected, entryOk, after, checked⟩ := check_parts passed
  let ctx : Context := { settings, file, functions := signatures }
  have signed : Signed ctx program.functions := signed_of_collected collected
  have all : ∀ f ∈ program.functions, ∃ signature,
      ctx.signature? f.name = some signature ∧ P f signature := by
    have passes := @checkFunctions_each ctx {} _ program.functions (each signed)
    unfold Passes Meets at passes
    rwa [checked] at passes
  have known : ∀ func signature, ctx.signature? func = some signature →
      ∃ f, run.function? func = some f ∧ P f signature := by
    intro func signature known
    obtain ⟨f, member, found, rfl⟩ := signed.function? functions known
    obtain ⟨own, ownKnown, holds⟩ := all f member
    obtain rfl := Option.some.inj (known.symm.trans ownKnown)
    exact ⟨f, found, holds⟩
  refine ⟨fun func signature callable => ?_, ?_⟩
  · cases own : ctx.signature? func with
    | some other =>
        obtain rfl : other = signature := by simpa [Context.callable?, own, ctx] using callable
        exact Or.inl (known func other own)
    | none =>
        have builtin : builtin? func = some signature := by
          simpa [Context.callable?, own, ctx] using callable
        refine Or.inr ⟨signed.function?_builtin functions builtin, ?_⟩
        unfold builtin? at builtin
        split at builtin
        · rename_i isDisplay
          exact ⟨isDisplay, (Option.some.inj builtin).symm⟩
        · simp at builtin
  · unfold checkEntry at entryOk
    cases own : ctx.signature? settings.entry with
    | none => simp [own, ctx] at entryOk
    | some signature =>
        have plain : signature.params = [] := by
          by_contra some
          simp [own, ctx, some] at entryOk
        obtain ⟨f, found, holds⟩ := known settings.entry signature own
        exact ⟨f, signature.result, entry ▸ found, plain ▸ holds⟩

/-- A program that passes the check is typed, for every run from the same entry. -/
theorem programTyped_of_check {program : Program} {settings : Settings} {file : Option String}
    {signatures : List (String × Signature)}
    (passed : program.check settings file = .ok signatures) (regular : program.Regular)
    {run : Evaluator.Context} (functions : run.functions = program.functions)
    (entry : run.settings.entry = settings.entry) :
    ProgramTyped run (Context.callable? { settings, file, functions := signatures }) := by
  obtain ⟨function, isEntry⟩ := callable_of_check passed
    (fun signed f member _ => checkFunction_passes signed member (regular f member))
    functions entry
  exact ⟨function, isEntry⟩

end Checker

end BorrowLang
