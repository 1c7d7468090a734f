import BorrowLang.Proofs.Accepted
import BorrowLang.Proofs.Naming.Bodies
import BorrowLang.Proofs.Parts
import BorrowLang.Proofs.Typing.Program

/-!
# Programs under other names

A function and the same function under other names are both accepted or both refused, and so are
programs.  Nothing of the check of one function reaches the next.
-/

set_option autoImplicit false

namespace BorrowLang.Checker

variable {s t : State} {r : Renaming} {env out : Bindings} {ctx ctx' : Context}

/-! ### Functions -/

theorem bindParams_together {ps ps' : List Param} (renamed : ParamsRenamed r env out ps ps')
    (types : List Ty) (arity : ps.length = types.length) (alike : Alike r env s t) :
    Together (bindParams ctx (ps.zip types)) (bindParams ctx' (ps'.zip types)) s t
      (Alike r out) := by
  induction renamed generalizing types s t with
  | nil env => exact together_pure _ alike
  | cons written loc isMut links paired rest ih =>
      obtain ⟨ty, types, rfl⟩ := List.exists_cons_of_length_eq_add_one arity.symm
      refine together_get ?_
      simp only [alike.scopes.lookup? links]
      split
      · exact together_throw _ _
      · refine (bind_together alike paired (some ty) isMut true true).bind fun _ _ _ alike => ?_
        exact ih types (Nat.succ.inj arity) alike

/-- The check of a function starts afresh, so the states before it do not matter. -/
theorem checkFunction_together (like : Like r ctx ctx') {f f' : FunctionDef}
    (renamed : f.Renamed r f') {signature : Signature}
    (known : ctx.signature? f.name = some signature)
    (arity : f.params.length = signature.params.length) :
    Together (checkFunction ctx f) (checkFunction ctx' f') s t fun _ _ => True := by
  obtain ⟨env, params, body⟩ := renamed.body
  have result : Like r { ctx with result := signature.result }
      { ctx' with result := signature.result } :=
    ⟨like.settings, rfl, like.signature, like.lexical⟩
  unfold checkFunction
  rw [renamed.name, like.signature, known, Option.getD_some]
  refine (together_modify (R := fun _ _ => True) trivial).bind fun _ s t _ => ?_
  have fresh : Alike r [[]] { log := s.log, tracker := Tracker.pushFrame {} }
      { log := t.log, tracker := Tracker.pushFrame {} } :=
    ⟨rfl, rfl, rfl, fun _ => r.nameless, .nil, .enter .nil⟩
  refine (together_modify fresh).bind fun _ s t alike => ?_
  refine (bindParams_together params _ arity alike).bind fun _ s t alike => ?_
  refine (block_together result body true s t alike).bind fun value s t alike => ?_
  split
  · exact together_throw _ _
  · refine together_get ?_
    rw [alike.tracker, alike.blind (f := fun arena => s.tracker.popFrame arena) (by simp)]
    refine (together_set (R := fun _ _ => True) trivial).bind fun _ s t _ => ?_
    split
    · exact together_modify trivial
    · exact together_throw _ _
    · exact together_throw _ _

/-! ### Programs -/

theorem signatureOfDef_renamed {f f' : FunctionDef} (renamed : f.Renamed r f') :
    signatureOfDef ctx f' = signatureOfDef ctx f := by
  obtain ⟨env, params, -⟩ := renamed.body
  have same : ∀ {before after : Bindings} {ps ps' : List Param},
      ParamsRenamed r before after ps ps' →
        ps'.mapM (fun param => ctx.resolve param.typeExpr param.loc) =
          ps.mapM fun param => ctx.resolve param.typeExpr param.loc := by
    intro before after ps ps' params
    induction params with
    | nil => rfl
    | cons written loc isMut links paired rest ih => simp only [List.mapM_cons, ih]
  unfold signatureOfDef
  rw [same params, renamed.returnType, renamed.loc]

variable {counts : Bool} {fs fs' : List FunctionDef}

/-- The functions of a program and of its renamed copy. -/
abbrev AllRenamed (counts : Bool) (fs fs' : List FunctionDef) : Prop :=
  List.Forall₂ (fun f f' => ∃ r : Renaming, r.counts = counts ∧ f.Renamed r f') fs fs'

theorem collectSignatures_renamed (renamed : AllRenamed counts fs fs')
    (known : List (String × Signature)) :
    collectSignatures ctx fs' known = collectSignatures ctx fs known := by
  induction renamed generalizing known with
  | nil => rfl
  | cons first rest ih =>
      obtain ⟨r, -, first⟩ := first
      simp only [collectSignatures, first.name, first.loc, signatureOfDef_renamed first, ih]

theorem checkFunctions_together (lexical : counts = false → ctx.settings.lexical = true)
    (renamed : AllRenamed counts fs fs')
    (known : ∀ f ∈ fs, ∃ signature, ctx.signature? f.name = some signature ∧
      f.params.length = signature.params.length) :
    Together (checkFunctions ctx fs) (checkFunctions ctx fs') s t fun _ _ => True := by
  induction renamed generalizing s t with
  | nil => exact together_pure _ trivial
  | cons first rest ih =>
      obtain ⟨r, rfl, first⟩ := first
      obtain ⟨signature, isKnown, arity⟩ := known _ List.mem_cons_self
      have like : Like r ctx ctx := ⟨rfl, rfl, fun _ => rfl, lexical⟩
      refine (checkFunction_together like first isKnown arity).bind fun _ s t _ => ?_
      exact ih fun f member => known f (List.mem_cons_of_mem _ member)

theorem Together.completes {α : Type} {x y : Check α} {R : State → State → Prop}
    (together : Together x y s t R) :
    (∃ a s', x s = (.ok a, s')) ↔ ∃ a t', y t = (.ok a, t') := by
  unfold Together at together
  split at together
  · rename_i a s' b t' mine theirs
    exact ⟨fun _ => ⟨b, t', theirs⟩, fun _ => ⟨a, s', mine⟩⟩
  · rename_i mine theirs
    exact ⟨fun ⟨_, _, done⟩ => (nomatch mine.symm.trans done),
      fun ⟨_, _, done⟩ => (nomatch theirs.symm.trans done)⟩
  · exact together.elim

/-- Each function of a program has a signature, with a type for each parameter. -/
theorem Signed.arity {fs : List FunctionDef} (signed : Signed ctx fs) {f : FunctionDef}
    (member : f ∈ fs) : ∃ signature, ctx.signature? f.name = some signature ∧
      f.params.length = signature.params.length := by
  obtain ⟨signature, known⟩ := Option.isSome_iff_exists.mp (signed.signature?_isSome member)
  exact ⟨signature, known, (signatureOfDef_parts (signed.signatureOfDef member known)).1⟩

theorem checkEntry_eq_ok {program : Program} : checkEntry ctx program = .ok () ↔
    ∃ signature, ctx.signature? ctx.settings.entry = some signature ∧ signature.params = [] := by
  unfold checkEntry
  cases known : ctx.signature? ctx.settings.entry with
  | none => simp [known]
  | some signature => cases plain : signature.params <;> simp [known, plain]

/-- The names of bindings matter in two ways only: by what each mention resolves to, and, unless
lifetimes are lexical, by which bindings are mentioned later.  Programs that agree on both are both
accepted, with the same signatures, or both refused. -/
theorem check_renamed {p q : Program} {settings : Settings} {file : Option String}
    (renamed : p.Renamed (!settings.lexical) q) (signatures : List (String × Signature)) :
    p.check settings file = .ok signatures ↔ q.check settings file = .ok signatures := by
  let ctx : Context := { settings, file, functions := signatures }
  have lexical : (!settings.lexical) = false → ctx.settings.lexical = true := by simp [ctx]
  have collects : collectSignatures { settings, file } q.functions [] =
      collectSignatures { settings, file } p.functions [] := collectSignatures_renamed renamed []
  have checks (signed : Signed ctx p.functions) :
      (∃ a after, checkFunctions ctx p.functions {} = (.ok a, after)) ↔
        ∃ a after, checkFunctions ctx q.functions {} = (.ok a, after) :=
    (checkFunctions_together lexical renamed fun f member => signed.arity member).completes
  constructor
  · intro passed
    obtain ⟨collected, entryOk, after, checked⟩ := check_parts passed
    obtain ⟨_, other, done⟩ := (checks (signed_of_collected collected)).mp ⟨_, after, checked⟩
    exact check_of_parts (collects.trans collected)
      (checkEntry_eq_ok.mpr (checkEntry_eq_ok.mp entryOk)) done
  · intro passed
    obtain ⟨collected, entryOk, after, checked⟩ := check_parts passed
    have collected := collects.symm.trans collected
    obtain ⟨_, other, done⟩ := (checks (signed_of_collected collected)).mpr ⟨_, after, checked⟩
    exact check_of_parts collected (checkEntry_eq_ok.mpr (checkEntry_eq_ok.mp entryOk)) done

/-- A program that borrows `a`, stores through the borrow, and assigns to `a`. -/
def loanUsed (holder : String) : Program where
  functions := [{
    name := "main", params := [], returnType := none, loc := none
    body := .mk [
      .letVar none "a" none (some (.literal none (.int 1))) true,
      .letVar none holder none (some (.borrow none (.name none "a") true)) false,
      .assign none (.deref none (.name none holder)) (.literal none (.int 2)) none,
      .assign none (.name none "a") (.literal none (.int 3)) none] none none }]

theorem loanUsed_renamed : (loanUsed "r").Renamed true (loanUsed "q") := by
  refine .cons ⟨.ofPairs true [("a", "a"), ("r", "q")], rfl, rfl, rfl, rfl, [[]], .nil _, ?_⟩ .nil
  exact .plain none <|
    .cons (.letValue none none true (Renaming.ofPairs_pairs (by decide)) (.literal _ _ _))
      (Renaming.ofPairs_agrees (by decide)) <|
    .cons (.letValue none none false (Renaming.ofPairs_pairs (by decide))
      (.borrow none true (.name none (by decide)))) (Renaming.ofPairs_agrees (by decide)) <|
    .cons (.assign none none (.deref none (.name none (by decide))) (.literal _ _ _))
      (Renaming.ofPairs_agrees (by decide)) <|
    .cons (.assign none none (.name none (by decide)) (.literal _ _ _))
      (Renaming.ofPairs_agrees (by decide)) <| .nil _ _ _

/-- With its borrower `r` called `q`, `loanUsed` is accepted too. -/
theorem check_renamed_loanUsed :
    (loanUsed "r").Renamed true (loanUsed "q") ∧
      (loanUsed "r").check default none = .ok [("main", ⟨[], .unit⟩)] ∧
      (loanUsed "q").check default none = .ok [("main", ⟨[], .unit⟩)] := by
  have passed : (loanUsed "r").check default none = .ok [("main", ⟨[], .unit⟩)] := by
    decide +kernel
  have renamed : (loanUsed "r").Renamed (!(default : Settings).lexical) (loanUsed "q") :=
    loanUsed_renamed
  exact ⟨renamed, passed, (check_renamed renamed _).mp passed⟩

/-- A program that borrows `a`, binds another variable, and assigns to `a`. -/
def loanShadowed (shadow : String) : Program where
  functions := [{
    name := "main", params := [], returnType := none, loc := none
    body := .mk [
      .letVar none "a" none (some (.literal none (.int 1))) true,
      .letVar none "r" none (some (.borrow none (.name none "a") true)) false,
      .letVar none shadow none (some (.literal none (.int 1))) false,
      .expr none (.call none "displayi32" [.name none shadow]),
      .assign none (.name none "a") (.literal none (.int 2)) none] none none }]

theorem loanShadowed_renamed : (loanShadowed "r").Renamed false (loanShadowed "q") := by
  refine .cons ⟨⟨fun _ _ => True, trivial, false⟩, rfl, rfl, rfl, rfl, [[]], .nil _, ?_⟩ .nil
  exact .plain none <|
    .cons (.letValue none none true trivial (.literal _ _ _)) nofun <|
    .cons (.letValue none none false trivial (.borrow none true (.name none (by decide)))) nofun <|
    .cons (.letValue none none false trivial (.literal _ _ _)) nofun <|
    .cons (.expr none (.call none "displayi32" (.cons (.name none (by decide)) (.nil _)))) nofun <|
    .cons (.assign none none (.name none (by decide)) (.literal _ _ _)) nofun <| .nil _ _ _

/-- Which bindings are mentioned later does matter.  A mention of the variable that shadows `r`
counts for the borrower, whose borrow then ends with that mention; once the shadow is called `q`,
the borrower counts as never mentioned, and its borrow lasts as long as its scope. -/
theorem check_not_renamed :
    (loanShadowed "r").Renamed false (loanShadowed "q") ∧
      (loanShadowed "r").check default none = .ok [("main", ⟨[], .unit⟩)] ∧
      ∃ diagnostic, (loanShadowed "q").check default none = .error (.reported diagnostic) ∧
        diagnostic.kind = .assignWhileBorrowed := by
  have passed : (loanShadowed "r").check default none = .ok [("main", ⟨[], .unit⟩)] := by
    decide +kernel
  have refused : refusal? ((loanShadowed "q").check default none) = some .assignWhileBorrowed := by
    decide +kernel
  exact ⟨loanShadowed_renamed, passed, reported_of_refusal? refused⟩

end BorrowLang.Checker
