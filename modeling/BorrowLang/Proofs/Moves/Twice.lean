import BorrowLang.Proofs.Moves.Outline
import Mathlib.Data.List.Basic

/-!
# Twice over the same code

When the bare check goes over the same code twice, it finds the same types both times, and what it
does to a move state is the same both times: it replaces it, or it merges something into it.  Both
have no effect when they are repeated, so that move states are settled after one pass.
-/

set_option autoImplicit false

namespace BorrowLang

namespace MoveState

variable (a b c : Option MoveState)

@[simp] theorem merge_none : merge a none = a := by rcases a with - | - | - | - <;> rfl

@[simp] theorem none_merge : merge none a = a := rfl

theorem merge_assoc : merge (merge a b) c = merge a (merge b c) := by
  rcases a with - | - | - | - <;> rcases b with - | - | - | - <;>
    rcases c with - | - | - | - <;> rfl

theorem merge_comm : merge a b = merge b a := by
  rcases a with - | - | - | - <;> rcases b with - | - | - | - <;> rfl

@[simp] theorem merge_self : merge a a = a := by rcases a with - | - | - | - <;> rfl

end MoveState

namespace Moves

open MoveState Checker

/-! ### Move states -/

/-- Two states become two others in the same way: they are replaced by one state, or one is merged
into both. -/
inductive Carried (x : Option MoveState) : (after y afterY : Option MoveState) → Prop
  | replaced (state y : Option MoveState) : Carried x state y state
  | merged (state y : Option MoveState) : Carried x (merge x state) y (merge y state)

namespace Carried

variable {x x₁ x₂ y y₁ y₂ : Option MoveState}

theorem refl (x y : Option MoveState) : Carried x x y y := by
  simpa using Carried.merged (x := x) none y

theorem trans (first : Carried x x₁ y y₁) (second : Carried x₁ x₂ y₁ y₂) : Carried x x₂ y y₂ := by
  cases second with
  | replaced => exact .replaced _ _
  | merged state =>
      cases first with
      | replaced => exact .replaced _ _
      | merged =>
          rw [merge_assoc, merge_assoc]
          exact .merged _ _

theorem join (first : Carried x x₁ y y₁) (second : Carried x x₂ y y₂) :
    Carried x (merge x₁ x₂) y (merge y₁ y₂) := by
  cases first with
  | replaced =>
      cases second with
      | replaced => exact .replaced _ _
      | merged =>
          rw [← merge_assoc, ← merge_assoc, merge_comm x₁ x, merge_comm x₁ y, merge_assoc,
            merge_assoc]
          exact .merged _ _
  | merged state =>
      cases second with
      | replaced =>
          rw [merge_assoc, merge_assoc]
          exact .merged _ _
      | merged other =>
          have both : ∀ z, merge (merge z state) (merge z other) = merge z (merge state other) := by
            intro z
            rw [merge_assoc, ← merge_assoc state, merge_comm state z, merge_assoc z state,
              ← merge_assoc, merge_self]
          rw [both, both]
          exact .merged _ _

/-- What happens to a state a second time leaves it as it is. -/
theorem settled (twice : Carried x x₁ x₁ x₂) : x₂ = x₁ := by
  cases twice with
  | replaced => rfl
  | merged => rw [merge_assoc, merge_self]

end Carried

/-- Two families of move states become two others in the same way. -/
def Steady (marks after others afterOthers : Marks) : Prop :=
  ∀ level depth, Carried (marks level depth) (after level depth) (others level depth)
    (afterOthers level depth)

namespace Steady

variable {m m₁ m₂ n n₁ n₂ : Marks}

theorem refl (m n : Marks) : Steady m m n n := fun _ _ => .refl _ _

theorem trans (first : Steady m m₁ n n₁) (second : Steady m₁ m₂ n₁ n₂) : Steady m m₂ n n₂ :=
  fun level depth => (first level depth).trans (second level depth)

theorem join (first : Steady m m₁ n n₁) (second : Steady m m₂ n n₂) :
    Steady m (m₁.join m₂) n (n₁.join n₂) :=
  fun level depth => (first level depth).join (second level depth)

theorem meet (first : Steady m m₁ n n₁) (second : Steady m m₂ n n₂)
    (diverges otherDiverges : Bool) :
    Steady m (m₁.meet diverges otherDiverges m₂) n (n₁.meet diverges otherDiverges n₂) := by
  cases diverges <;> cases otherDiverges
  · exact first.join second
  · exact first
  · exact second
  · exact first.join second

theorem settled (twice : Steady m m₁ m₁ m₂) : m₂ = m₁ :=
  funext fun level => funext fun depth => (twice level depth).settled

theorem set (m n : Marks) (spot : Spot) (state : MoveState) :
    Steady m (m.set spot state) n (n.set spot state) := by
  intro level depth
  unfold Marks.set
  split
  · exact .replaced _ _
  · exact .refl _ _

theorem setLive (m n : Marks) (spot : Spot) : Steady m (m.setLive spot) n (n.setLive spot) := by
  intro level depth
  unfold Marks.setLive
  split
  · exact .replaced _ _
  · exact .refl _ _

end Steady

/-! ### Types -/

/-- The type of a binding, if it has one. -/
def Outline.declTy? (o : Outline) (level : Nat) : Option Ty := o.decls[level]?.bind Decl.ty

/-- All bindings are there still, and have the types that they had. -/
structure Grows (o after : Outline) : Prop where
  binders : o.decls.map Decl.binder <+: after.decls.map Decl.binder
  ty : ∀ {level ty}, o.declTy? level = some ty → after.declTy? level = some ty

namespace Grows

variable {o mid after : Outline}

theorem refl (o : Outline) : Grows o o := ⟨List.prefix_rfl, id⟩

theorem trans (first : Grows o mid) (second : Grows mid after) : Grows o after :=
  ⟨first.binders.trans second.binders, fun known => second.ty (first.ty known)⟩

theorem length (grows : Grows o after) : o.decls.length ≤ after.decls.length := by
  simpa using grows.binders.length_le

end Grows

/-- No binding has another type than its last one, where that is known. -/
def Below (last : Nat → Option Ty) (o : Outline) : Prop :=
  ∀ level ty final, last level = some final → o.declTy? level = some ty → ty = final

theorem Below.of_grows {last : Nat → Option Ty} {o after : Outline} (below : Below last after)
    (grows : Grows o after) : Below last o :=
  fun level ty final isLast known => below level ty final isLast (grows.ty known)

/-- The same bindings are in scope, of the same types but for some that have no type yet in the
first outline and their last type in the second one. -/
structure Agree (last : Nat → Option Ty) (o other : Outline) : Prop where
  binders : o.decls.map Decl.binder = other.decls.map Decl.binder
  ty : ∀ level, o.declTy? level = other.declTy? level ∨
    o.declTy? level = none ∧ other.declTy? level = last level
  bound : ∀ level, o.decls.length ≤ level → last level = none

namespace Agree

variable {last : Nat → Option Ty} {o other : Outline}

theorem length (agree : Agree last o other) : o.decls.length = other.decls.length := by
  simpa using congrArg List.length agree.binders

/-- The marks of two outlines have no part in the agreement. -/
theorem with_marks (agree : Agree last o other) (m n : Marks) :
    Agree last { o with marks := m } { other with marks := n } :=
  ⟨agree.binders, agree.ty, agree.bound⟩

theorem declTy? (agree : Agree last o other) {level : Nat} {ty : Ty}
    (known : o.declTy? level = some ty) : other.declTy? level = some ty := by
  rcases agree.ty level with same | ⟨unknown, -⟩
  · exact same ▸ known
  · cases unknown.symm.trans known

end Agree

theorem level?_congr {decls others : List Decl}
    (binders : decls.map Decl.binder = others.map Decl.binder) (name : String) :
    level? decls name = level? others name := by
  induction decls generalizing others with
  | nil =>
      rw [List.map_nil, eq_comm, List.map_eq_nil_iff] at binders
      rw [binders]
  | cons decl later ih =>
      cases others with
      | nil => simp at binders
      | cons other laterOthers =>
          obtain ⟨same, rest⟩ := List.cons.inj binders
          have name : decl.name = other.name := congrArg Prod.fst same
          simp only [level?, ih rest, name]

theorem decls_ext {decls others : List Decl}
    (binders : decls.map Decl.binder = others.map Decl.binder)
    (types : ∀ level : Nat, decls[level]?.bind Decl.ty = others[level]?.bind Decl.ty) :
    decls = others := by
  refine List.ext_getElem? fun level => ?_
  have binder := congrArg (·[level]?) binders
  have ty := types level
  simp only [List.getElem?_map] at binder
  cases here : decls[level]? <;> cases there : others[level]? <;> rw [here, there] at binder ty
  · cases binder
  · cases binder
  · rename_i decl other
    obtain ⟨name, isMut⟩ := Prod.mk.inj (Option.some.inj binder)
    cases decl
    cases other
    obtain rfl : _ = _ := name
    obtain rfl : _ = _ := isMut
    obtain rfl : _ = _ := ty
    rfl

theorem tyAt_eq_none {decl : Decl} (unknown : decl.ty = none) (depth : Nat) :
    decl.tyAt depth = none := by
  induction depth with
  | zero => exact unknown
  | succ depth ih => rw [Decl.tyAt, ih, Option.bind_none]

theorem tyAt_congr {decl other : Decl} (same : decl.ty = other.ty) (depth : Nat) :
    decl.tyAt depth = other.tyAt depth := by
  induction depth with
  | zero => exact same
  | succ depth ih => rw [Decl.tyAt, Decl.tyAt, ih]

/-- The type of a place follows from that of its binding. -/
theorem ty?_of_declTy? {o other : Outline} {spot : Spot} {ty : Ty}
    (keeps : ∀ {bound}, o.declTy? spot.level = some bound → other.declTy? spot.level = some bound)
    (known : o.ty? spot = some ty) : other.ty? spot = some ty := by
  obtain ⟨decl, isDecl, isTy⟩ := Option.bind_eq_some_iff.mp known
  cases bound : decl.ty with
  | none => cases (tyAt_eq_none bound spot.depth).symm.trans isTy
  | some bound' =>
      have here : o.declTy? spot.level = some bound' :=
        Option.bind_eq_some_iff.mpr ⟨decl, isDecl, bound⟩
      obtain ⟨there, isThere, sameTy⟩ := Option.bind_eq_some_iff.mp (keeps here)
      rw [Outline.ty?, isThere, Option.bind_some, ← tyAt_congr (bound.trans sameTy.symm), isTy]

theorem Agree.ty? {last : Nat → Option Ty} {o other : Outline} (agree : Agree last o other)
    {spot : Spot} {ty : Ty} (known : o.ty? spot = some ty) : other.ty? spot = some ty :=
  ty?_of_declTy? agree.declTy? known

/-! ### Checks -/

variable {α β : Type}

theorem bind_eq_some {x : Bare α} {y : α → Bare β} {o after : Outline} {b : β} :
    (x >>= y) o = some (b, after) ↔ ∃ a mid, x o = some (a, mid) ∧ y a mid = some (b, after) := by
  change (x o).bind (fun result => y result.1 result.2) = _ ↔ _
  rw [Option.bind_eq_some_iff, Prod.exists]

theorem pure_eq_some {a b : α} {o after : Outline} :
    (pure a : Bare α) o = some (b, after) ↔ a = b ∧ o = after := by
  change some (a, o) = _ ↔ _
  simp

/-- A check that changes nothing. -/
def Reads (x : Bare α) : Prop := ∀ o a after, x o = some (a, after) → after = o

namespace Reads

theorem bind {x : Bare α} {y : α → Bare β} (first : Reads x) (next : ∀ a, Reads (y a)) :
    Reads (x >>= y) := fun _ _ _ passed => by
  obtain ⟨a, mid, begins, ends⟩ := bind_eq_some.mp passed
  exact (next a _ _ _ ends).trans (first _ _ _ begins)

theorem pure (a : α) : Reads (pure a : Bare α) := fun _ _ _ passed =>
  (pure_eq_some.mp passed).2.symm

theorem ensure (holds : Outline → Prop) : Reads (Bare.ensure holds) := fun _ _ _ passed => by
  unfold Bare.ensure at passed
  split at passed
  · cases passed
    rfl
  · cases passed

theorem typeOf (spot : Spot) : Reads (typeOf spot) := fun _ _ _ passed => by
  obtain ⟨_, -, same⟩ := Option.map_eq_some_iff.mp passed
  exact (Prod.mk.inj same).2.symm

theorem name (ident : String) : Reads fun o =>
    (level? o.decls ident).map fun level => ((⟨level, 0⟩ : Spot), o) := fun _ _ _ passed => by
  obtain ⟨_, -, same⟩ := Option.map_eq_some_iff.mp passed
  exact (Prod.mk.inj same).2.symm

theorem placeOf (e : Expr) : Reads (placeOf e) := by
  induction e using placeOf.induct with
  | case1 loc ident =>
      rw [Moves.placeOf]
      exact .name ident
  | case2 loc inner operand isMut ih =>
      rw [Moves.placeOf]
      refine ih.bind fun spot => ?_
      have whole := (Reads.ensure (·.Whole spot.level)).bind fun _ => .pure spot
      split
      · exact (Reads.ensure _).bind fun _ => whole
      · exact whole
  | case3 loc operand notBorrow ih =>
      rw [Moves.placeOf]
      · refine ih.bind fun base => (Reads.typeOf base).bind fun ty => ?_
        split
        · exact fun _ _ _ impossible => nomatch impossible
        · exact .pure _
      · exact notBorrow
  | case4 e notName notBorrow notDeref =>
      rw [Moves.placeOf]
      · exact fun _ _ _ impossible => nomatch impossible
      · exact notName
      · exact notBorrow
      · exact notDeref

end Reads

/-- A check that passes keeps bindings and their types; and when it passes from two outlines that
agree, it has the same answer, agrees in the end, and does the same to move states. -/
structure Regular (x : Bare α) : Prop where
  grows : ∀ {o a after}, x o = some (a, after) → Grows o after
  alike : ∀ {last o other a b after afterOther}, Agree last o other → Below last after →
    x o = some (a, after) → x other = some (b, afterOther) →
      a = b ∧ Agree last after afterOther ∧
        Steady o.marks after.marks other.marks afterOther.marks

namespace Regular

theorem bind {x : Bare α} {y : α → Bare β} (first : Regular x) (next : ∀ a, Regular (y a)) :
    Regular (x >>= y) where
  grows passed := by
    obtain ⟨a, mid, begins, ends⟩ := bind_eq_some.mp passed
    exact (first.grows begins).trans ((next a).grows ends)
  alike agree below passed passedOther := by
    obtain ⟨a, mid, begins, ends⟩ := bind_eq_some.mp passed
    obtain ⟨b, midOther, beginsOther, endsOther⟩ := bind_eq_some.mp passedOther
    obtain ⟨rfl, midAgree, begun⟩ :=
      first.alike agree (below.of_grows ((next a).grows ends)) begins beginsOther
    obtain ⟨same, agrees, ended⟩ := (next a).alike midAgree below ends endsOther
    exact ⟨same, agrees, begun.trans ended⟩

/-- A check that changes nothing, with one answer. -/
theorem of_reads {x : Bare α} (reads : Reads x)
    (same : ∀ {last o other a b}, Agree last o other → x o = some (a, o) →
      x other = some (b, other) → a = b) : Regular x where
  grows passed := by
    rw [reads _ _ _ passed]
    exact .refl _
  alike agree _ passed passedOther := by
    obtain rfl := reads _ _ _ passed
    obtain rfl := reads _ _ _ passedOther
    exact ⟨same agree passed passedOther, agree, .refl _ _⟩

theorem pure (a : α) : Regular (pure a : Bare α) :=
  of_reads (.pure a) fun _ passed passedOther =>
    (pure_eq_some.mp passed).1.symm.trans (pure_eq_some.mp passedOther).1

theorem refuse : Regular (Bare.refuse : Bare α) where
  grows passed := nomatch passed
  alike _ _ passed := nomatch passed

theorem ensure (holds : Outline → Prop) : Regular (Bare.ensure holds) :=
  of_reads (.ensure holds) fun _ _ _ => rfl

theorem answer (x : Check α) : Regular (Bare.answer x) := by
  have given : ∀ {o a after}, Bare.answer x o = some (a, after) →
      (x default).1 = .ok a ∧ after = o := by
    intro o a after passed
    unfold Bare.answer at passed
    split at passed
    · cases passed
      exact ⟨‹_›, rfl⟩
    · cases passed
  exact of_reads (fun _ _ _ passed => (given passed).2) fun _ passed passedOther =>
    Except.ok.inj ((given passed).1.symm.trans (given passedOther).1)

theorem mark {change : Marks → Marks} (steady : ∀ m n, Steady m (change m) n (change n)) :
    Regular (Bare.mark change) where
  grows passed := by
    cases passed
    exact ⟨List.prefix_rfl, id⟩
  alike agree _ passed passedOther := by
    cases passed
    cases passedOther
    exact ⟨rfl, agree.with_marks _ _, steady _ _⟩

theorem orSkip {x : Bare α} (inner : Regular x) : Regular x.orSkip := by
  have parts : ∀ {o a after}, x.orSkip o = some (a, after) → ∃ mid, x o = some (a, mid) ∧
      after = { mid with marks := mid.marks.join o.marks } := by
    intro o a after passed
    obtain ⟨⟨a', mid⟩, passes, ends⟩ := Option.bind_eq_some_iff.mp passed
    cases ends
    exact ⟨mid, passes, rfl⟩
  refine ⟨fun passed => ?_, fun agree below passed passedOther => ?_⟩
  · obtain ⟨mid, passes, rfl⟩ := parts passed
    have grows := inner.grows passes
    exact ⟨grows.binders, grows.ty⟩
  · obtain ⟨mid, passes, rfl⟩ := parts passed
    obtain ⟨midOther, passesOther, rfl⟩ := parts passedOther
    have belowMid : Below _ mid := below
    obtain ⟨same, agrees, steady⟩ := inner.alike agree belowMid passes passesOther
    exact ⟨same, agrees.with_marks _ _, steady.join (.refl _ _)⟩

theorem fork {first other : Bare Operand} (thenArm : Regular first) (elseArm : Regular other) :
    Regular (Bare.fork first other) := by
  have parts : ∀ {o a after}, Bare.fork first other o = some (a, after) →
      ∃ mid last, first o = some (a.1, mid) ∧
        other { mid with marks := o.marks } = some (a.2, last) ∧
        after = { last with marks := mid.marks.meet a.1.diverges a.2.diverges last.marks } := by
    intro o a after passed
    obtain ⟨⟨a, mid⟩, passes, rest⟩ := Option.bind_eq_some_iff.mp passed
    obtain ⟨⟨b, last⟩, passesOther, ends⟩ := Option.bind_eq_some_iff.mp rest
    cases ends
    exact ⟨mid, last, passes, passesOther, rfl⟩
  refine ⟨fun passed => ?_, fun agree below passed passedOther => ?_⟩
  · obtain ⟨mid, last, passes, passesOther, rfl⟩ := parts passed
    have grows := elseArm.grows passesOther
    exact (thenArm.grows passes).trans ⟨grows.binders, grows.ty⟩
  · obtain ⟨mid, last, passes, passesElse, rfl⟩ := parts passed
    obtain ⟨mid', last', passes', passesElse', rfl⟩ := parts passedOther
    have grows := elseArm.grows passesElse
    have belowLast : Below _ last := below
    have belowMid : Below _ mid := fun level ty final isLast known =>
      below level ty final isLast (grows.ty known)
    obtain ⟨same, agrees, steady⟩ := thenArm.alike agree belowMid passes passes'
    obtain ⟨sameElse, agreesElse, steadyElse⟩ :=
      elseArm.alike (agrees.with_marks _ _) belowLast passesElse passesElse'
    refine ⟨Prod.ext same sameElse, agreesElse.with_marks _ _, ?_⟩
    rw [same, sameElse]
    exact steady.meet steadyElse _ _

theorem declTy?_cut (o : Outline) (count level : Nat) :
    (o.cut count).declTy? level = if level < count then o.declTy? level else none := by
  unfold Outline.declTy? Outline.cut
  rw [List.getElem?_take]
  split <;> rfl

theorem inScope {x : Bare α} (inner : Regular x) : Regular x.inScope := by
  have parts : ∀ {o a after}, x.inScope o = some (a, after) → ∃ mid, x o = some (a, mid) ∧
      after = mid.cut o.decls.length := by
    intro o a after passed
    obtain ⟨⟨a', mid⟩, passes, ends⟩ := Option.bind_eq_some_iff.mp passed
    cases ends
    exact ⟨mid, passes, rfl⟩
  have length : ∀ {o mid a}, x o = some (a, mid) →
      (mid.cut o.decls.length).decls.length = o.decls.length := by
    intro o mid a passes
    exact (List.length_take).trans (Nat.min_eq_left (inner.grows passes).length)
  refine ⟨fun {o a after} passed => ?_,
    fun {last o other a b after afterOther} agree below passed passedOther => ?_⟩
  · obtain ⟨mid, passes, rfl⟩ := parts passed
    refine ⟨?_, fun {level ty} known => ?_⟩
    · have same : (mid.cut o.decls.length).decls.map Decl.binder = o.decls.map Decl.binder := by
        rw [Outline.cut, List.map_take, ← List.length_map Decl.binder]
        exact (List.prefix_iff_eq_take.mp (inner.grows passes).binders).symm
      exact same ▸ List.prefix_rfl
    have inside : level < o.decls.length := by
      obtain ⟨decl, isDecl, -⟩ := Option.bind_eq_some_iff.mp known
      exact (List.getElem?_eq_some_iff.mp isDecl).1
    rw [declTy?_cut, if_pos inside]
    exact (inner.grows passes).ty known
  · obtain ⟨mid, passes, rfl⟩ := parts passed
    obtain ⟨mid', passes', rfl⟩ := parts passedOther
    have belowMid : Below last mid := by
      intro level ty final isLast known
      rcases Nat.lt_or_ge level o.decls.length with inside | outside
      · exact below level ty final isLast (by rw [declTy?_cut, if_pos inside, known])
      · cases (agree.bound level outside).symm.trans isLast
    obtain ⟨same, agrees, steady⟩ := inner.alike agree belowMid passes passes'
    refine ⟨same, ⟨?_, fun level => ?_, fun level outside => ?_⟩, fun level depth => ?_⟩
    · simp only [Outline.cut, List.map_take, agrees.binders, agree.length]
    · rw [declTy?_cut, declTy?_cut, ← agree.length]
      split
      · exact agrees.ty level
      · exact Or.inl rfl
    · exact agree.bound level (length passes ▸ outside)
    · simp only [Outline.cut, ← agree.length]
      split
      · exact steady level depth
      · exact .replaced _ _

end Regular

/-! ### Places -/

variable {ctx : Context}

theorem typeOf_regular (spot : Spot) : Regular (typeOf spot) := by
  have given : ∀ {o ty after}, typeOf spot o = some (ty, after) → o.ty? spot = some ty := by
    intro o ty after passed
    obtain ⟨_, known, same⟩ := Option.map_eq_some_iff.mp passed
    cases same
    exact known
  refine .of_reads (.typeOf spot) fun agree passed passedOther => ?_
  exact Option.some.inj ((agree.ty? (given passed)).symm.trans (given passedOther))

theorem name_regular (ident : String) : Regular fun o =>
    (level? o.decls ident).map fun level => ((⟨level, 0⟩ : Spot), o) := by
  refine .of_reads (.name ident) fun {last o other spot spotOther} agree passed passedOther => ?_
  obtain ⟨level, known, same⟩ := Option.map_eq_some_iff.mp passed
  obtain ⟨levelOther, knownOther, sameOther⟩ := Option.map_eq_some_iff.mp passedOther
  rw [level?_congr agree.binders, knownOther] at known
  obtain rfl := Option.some.inj known
  exact (Prod.mk.inj same).1.symm.trans (Prod.mk.inj sameOther).1

theorem placeOf_regular (e : Expr) : Regular (placeOf e) := by
  induction e using placeOf.induct with
  | case1 loc ident =>
      rw [placeOf]
      exact name_regular ident
  | case2 loc inner operand isMut ih =>
      rw [placeOf]
      refine ih.bind fun spot => ?_
      have whole := (Regular.ensure (·.Whole spot.level)).bind fun _ => .pure spot
      split
      · exact (Regular.ensure _).bind fun _ => whole
      · exact whole
  | case3 loc operand notBorrow ih =>
      rw [placeOf]
      · refine ih.bind fun base => (typeOf_regular base).bind fun ty => ?_
        split
        · exact .refuse
        · exact .pure _
      · exact notBorrow
  | case4 e notName notBorrow notDeref =>
      rw [placeOf]
      · exact .refuse
      · exact notName
      · exact notBorrow
      · exact notDeref

theorem usePlace_regular (spot : Spot) : Regular (usePlace spot) := by
  refine (typeOf_regular spot).bind fun ty => ?_
  split
  · exact (Regular.ensure _).bind fun _ => .pure _
  · refine (Regular.ensure _).bind fun _ => ?_
    exact (Regular.mark fun m n => .set m n spot .moved).bind fun _ => .pure _

theorem borrowPlace_regular (spot : Spot) (isMut : Bool) : Regular (borrowPlace spot isMut) := by
  have borrowed := (Regular.ensure (·.Whole spot.level)).bind fun _ =>
    (typeOf_regular spot).bind fun ty => .pure { ty := .ref isMut ty : Operand }
  unfold borrowPlace
  split
  · exact (Regular.ensure _).bind fun _ => borrowed
  · exact borrowed

theorem showPlace_regular (loc : Option Position) (spot : Spot) :
    Regular (showPlace ctx loc spot) :=
  (Regular.ensure _).bind fun _ => (typeOf_regular spot).bind fun _ => .answer _

theorem argument_regular {arg : Expr} {value : Bare Operand} (inner : Regular value) (param : Ty) :
    Regular (argument arg param value) := by
  unfold argument
  split
  · split
    · refine (placeOf_regular arg).bind fun spot => (typeOf_regular spot).bind fun ty => ?_
      split
      · exact (Regular.ensure _).bind fun _ => (Regular.ensure _).bind fun _ => .pure _
      · exact inner
    · exact inner
  · exact inner

/-! ### Assignments and bindings -/

theorem declTy?_setTy (o : Outline) (level : Nat) (ty : Ty) (other : Nat) :
    (o.setTy level ty).declTy? other =
      if other = level ∧ other < o.decls.length then o.declTy? other <|> some ty
      else o.declTy? other := by
  unfold Outline.declTy? Outline.setTy
  rw [List.getElem?_modify]
  by_cases here : level = other
  · subst here
    by_cases inside : level < o.decls.length <;> simp [inside]
  · cases o.decls[other]? <;> simp [here, Ne.symm here]

theorem declTy?_declare (o : Outline) (decl : Decl) (initialized : Bool) (level : Nat) :
    (o.declare decl initialized).declTy? level =
      if level = o.decls.length then decl.ty else o.declTy? level := by
  unfold Outline.declTy? Outline.declare
  rw [List.getElem?_append]
  rcases Nat.lt_trichotomy level o.decls.length with inside | rfl | outside
  · rw [if_pos inside, if_neg (Nat.ne_of_lt inside)]
  · simp
  · have first : o.decls[level]? = none := List.getElem?_eq_none (Nat.le_of_lt outside)
    have later : [decl][level - o.decls.length]? = none := by
      rw [List.getElem?_eq_none]
      simp only [List.length_singleton]
      omega
    rw [if_neg (Nat.lt_asymm outside), if_neg (Nat.ne_of_gt outside), first, later]

theorem declare_regular (ident : String) (ty : Option Ty) (isMut initialized : Bool) :
    Regular (declare ident ty isMut initialized) where
  grows {o _ after} passed := by
    cases passed
    refine ⟨by simp [Outline.declare], fun {level ty'} known => ?_⟩
    rw [declTy?_declare, if_neg, known]
    rintro rfl
    simp [Outline.declTy?] at known
  alike {last o other _ _ _ _} agree _ passed passedOther := by
    cases passed
    cases passedOther
    refine ⟨rfl, ⟨?_, fun level => ?_, fun level outside => ?_⟩, ?_⟩
    · simp [Outline.declare, agree.binders]
    · rw [declTy?_declare, declTy?_declare, ← agree.length]
      split
      · exact Or.inl rfl
      · exact agree.ty level
    · simp only [Outline.declare, List.length_append] at outside
      exact agree.bound level (Nat.le_of_add_right_le outside)
    · simp only [Outline.declare, ← agree.length]
      exact .set _ _ _ _

/-- An assignment gives a type to a binding that has none; any other has its type already. -/
theorem assignType_parts {loc : Option Position} {spot : Spot} {value : Operand} {o after : Outline}
    (passed : assignType ctx loc spot value none o = some ((), after)) :
    after.decls.map Decl.binder = o.decls.map Decl.binder ∧ after.marks = o.marks ∧ ∀ level,
      after.declTy? level =
        if level = spot.level ∧ level < o.decls.length then o.declTy? level <|> some value.ty
        else o.declTy? level := by
  simp only [assignType] at passed
  split at passed
  · cases passed
    refine ⟨?_, rfl, declTy?_setTy o spot.level value.ty⟩
    apply List.ext_getElem? fun level => ?_
    simp only [Outline.setTy, List.getElem?_map, List.getElem?_modify]
    split <;> cases o.decls[level]? <;> rfl
  · rename_i ty known
    have same : after = o := by
      unfold Bare.answer at passed
      split at passed <;> cases passed
      rfl
    subst same
    refine ⟨rfl, rfl, fun level => ?_⟩
    split
    · rename_i here
      obtain ⟨decl, isDecl, isTy⟩ := Option.bind_eq_some_iff.mp known
      cases bound : decl.ty with
      | none => cases (tyAt_eq_none bound spot.depth).symm.trans isTy
      | some first =>
          have typed : after.declTy? level = some first := by
            rw [here.1]
            exact Option.bind_eq_some_iff.mpr ⟨decl, isDecl, bound⟩
          rw [typed]
          rfl
    · rfl

theorem assignType_regular (loc : Option Position) (spot : Spot) (value : Operand)
    (op : Option BinaryOp) : Regular (assignType ctx loc spot value op) := by
  cases op with
  | some op => exact (Regular.ensure _).bind fun _ => .ensure _
  | none =>
      refine ⟨fun {o _ after} passed => ?_,
        fun {last o other _ _ after afterOther} agree below passed passedOther => ⟨rfl, ?_, ?_⟩⟩
      · obtain ⟨binders, -, types⟩ := assignType_parts passed
        refine ⟨binders ▸ List.prefix_rfl, fun {level ty} known => ?_⟩
        rw [types, known]
        split <;> rfl
      · obtain ⟨binders, -, types⟩ := assignType_parts passed
        obtain ⟨bindersOther, -, typesOther⟩ := assignType_parts passedOther
        have length : after.decls.length = o.decls.length := by
          simpa using congrArg List.length binders
        refine ⟨binders.trans (agree.binders.trans bindersOther.symm), fun level => ?_,
          fun level outside => agree.bound level (length ▸ outside)⟩
        have given := below level
        rw [types] at given ⊢
        rw [typesOther, ← agree.length]
        split
        · rename_i here
          rw [if_pos here] at given
          rcases agree.ty level with same | ⟨unknown, isLast⟩
          · exact Or.inl (by rw [same])
          · -- The second outline has the last type of the binding, which is the one it gets here.
            rw [unknown] at given
            rw [unknown, isLast]
            cases final : last level with
            | none => exact Or.inl rfl
            | some ty => exact Or.inl (congrArg some (given value.ty ty final rfl))
        · exact agree.ty level
      · rw [(assignType_parts passed).2.1, (assignType_parts passedOther).2.1]
        exact .refl _ _

theorem assignPlace_regular (spot : Spot) : Regular (assignPlace spot) :=
  (Regular.ensure _).bind fun _ => .mark fun m n => .setLive m n spot

/-! ### Bodies -/

theorem turn_regular (loc : Option Position) {condition body : Bare Operand}
    (test : Regular condition) (inner : Regular body) : Regular (turn ctx loc condition body) :=
  test.bind fun _ => (Regular.answer _).bind fun _ => inner.bind fun _ => .ensure _

mutual

theorem expr_regular : (e : Expr) → Regular (expr ctx e)
  | .literal _ value => by
      rw [expr]
      exact .pure _
  | .name loc ident => by
      rw [expr]
      exact (placeOf_regular _).bind usePlace_regular
  | .deref loc operand => by
      rw [expr]
      split
      · exact (placeOf_regular _).bind usePlace_regular
      · exact (expr_regular operand).bind fun _ => .answer _
  | .unary loc op operand => by
      rw [expr]
      exact (expr_regular operand).bind fun _ => .answer _
  | .binary loc op left right => by
      rw [expr]
      refine (expr_regular left).bind fun _ => ?_
      split
      · refine (Regular.answer _).bind fun _ => Regular.bind (.orSkip ?_) fun _ => .pure _
        exact (expr_regular right).bind fun _ => .answer _
      · exact (expr_regular right).bind fun _ => .answer _
  | .borrow loc operand isMut => by
      rw [expr]
      split
      · exact (placeOf_regular _).bind fun _ => borrowPlace_regular _ _
      · exact (expr_regular operand).bind fun _ => .pure _
  | .call loc func args => by
      rw [expr]
      refine (Regular.answer _).bind fun signature => (Regular.ensure _).bind fun _ => ?_
      exact (arguments_regular args signature.params).bind fun _ => .pure _
  | .boxNew loc value => by
      rw [expr]
      exact (expr_regular value).bind fun _ => .pure _
  | .macroCall loc callee template args => by
      rw [expr]
      exact (Regular.answer _).bind fun _ => (shown_regular args).bind fun _ => .pure _
  | .ifElse loc condition thenBlock none => by
      rw [expr]
      refine (expr_regular condition).bind fun _ => (Regular.answer _).bind fun _ => ?_
      exact ((block_regular thenBlock).fork (.pure _)).bind fun _ => .answer _
  | .ifElse loc condition thenBlock (some elseBlock) => by
      rw [expr]
      refine (expr_regular condition).bind fun _ => (Regular.answer _).bind fun _ => ?_
      exact ((block_regular thenBlock).fork (block_regular elseBlock)).bind fun _ => .answer _
  | .block _ body => by
      rw [expr]
      exact block_regular body
  | .ofStmt _ | .ofBlock _ => by
      rw [expr]
      exact .refuse

theorem arguments_regular : (args : List Expr) → (params : List Ty) →
    Regular (arguments ctx args params)
  | [], params => by
      rw [arguments]
      · exact .pure _
      · exact fun arg args param rest impossible => nomatch impossible
  | arg :: args, [] => by
      rw [arguments]
      · exact .pure _
      · exact fun arg args param rest _ impossible => nomatch impossible
  | arg :: args, param :: params => by
      rw [arguments]
      refine (argument_regular (expr_regular arg) param).bind fun _ => (Regular.answer _).bind ?_
      exact fun _ => arguments_regular args params

theorem shown_regular : (args : List Expr) → Regular (shown ctx args)
  | [] => by
      rw [shown]
      exact .pure _
  | arg :: rest => by
      rw [shown]
      split
      · exact (placeOf_regular arg).bind fun _ => (showPlace_regular _ _).bind fun _ =>
          shown_regular rest
      · exact (expr_regular arg).bind fun _ => (Regular.answer _).bind fun _ => shown_regular rest

theorem stmt_regular : (statement : Stmt) → Regular (stmt ctx statement)
  | .letVar loc ident written none isMut => by
      rw [stmt]
      exact (Regular.answer _).bind fun _ => (declare_regular _ _ _ _).bind fun _ => .pure _
  | .letVar loc ident written (some value) isMut => by
      rw [stmt]
      refine (Regular.answer _).bind fun declared => (expr_regular value).bind fun operand => ?_
      have declares := (declare_regular ident (declared <|> some operand.ty) isMut true).bind
        fun _ => .pure false
      cases declared with
      | none => exact declares
      | some ty => exact (Regular.answer _).bind fun _ => declares
  | .assign loc target value op => by
      rw [stmt]
      refine (Regular.ensure _).bind fun _ => (expr_regular value).bind fun operand => ?_
      refine (placeOf_regular target).bind fun spot => (assignType_regular _ _ _ _).bind fun _ => ?_
      exact (assignPlace_regular spot).bind fun _ => .pure _
  | .ret loc none => by
      rw [stmt]
      exact (Regular.answer _).bind fun _ => .pure _
  | .ret loc (some value) => by
      rw [stmt]
      exact (expr_regular value).bind fun _ => (Regular.answer _).bind fun _ => .pure _
  | .whileLoop loc condition body => by
      rw [stmt]
      have once := @turn_regular ctx condition.loc _ _ (expr_regular condition)
        (block_regular body)
      exact Regular.bind (.orSkip (once.bind fun _ => once)) fun _ => .pure _
  | .expr loc value => by
      rw [stmt]
      exact (expr_regular value).bind fun _ => .pure _
  | .ofExpr _ | .ofBlock _ => by
      rw [stmt]
      exact .refuse

theorem stmts_regular : (statements : List Stmt) → Regular (stmts ctx statements)
  | [] => by
      rw [stmts]
      exact .pure _
  | first :: rest => by
      rw [stmts]
      exact (stmt_regular first).bind fun _ => (stmts_regular rest).bind fun _ => .pure _

theorem block_regular : (body : Block) → Regular (block ctx body)
  | .mk statements none loc => by
      rw [block]
      exact .inScope ((stmts_regular statements).bind fun _ => .pure _)
  | .mk statements (some tail) loc => by
      rw [block]
      exact .inScope ((stmts_regular statements).bind fun _ => (expr_regular tail).bind fun _ =>
        .pure _)

end

/-- A check that is repeated where it has ended, with the same bindings in scope as before, changes
nothing any more. -/
theorem Regular.settled {x : Bare α} (regular : Regular x) {o first second : Outline} {a b : α}
    (once : x o = some (a, first)) (sameCount : first.decls.length = o.decls.length)
    (twice : x first = some (b, second)) : second = first := by
  have grows := regular.grows once
  have agree : Agree first.declTy? o first := by
    refine ⟨?_, fun level => ?_, fun level outside => ?_⟩
    · exact grows.binders.eq_of_length (by simp [sameCount])
    · cases known : o.declTy? level with
      | none => exact Or.inr ⟨rfl, rfl⟩
      | some ty => exact Or.inl (grows.ty known).symm
    · rw [Outline.declTy?, List.getElem?_eq_none (sameCount ▸ outside), Option.bind_none]
  have below : Below first.declTy? first := fun _ _ _ isLast known =>
    Option.some.inj (known.symm.trans isLast)
  obtain ⟨-, ended, steady⟩ := regular.alike agree below once twice
  have types : ∀ level, first.declTy? level = second.declTy? level := fun level =>
    (ended.ty level).elim id fun ⟨unknown, isLast⟩ => isLast.symm
  have decls : second.decls = first.decls :=
    (decls_ext ended.binders types).symm
  obtain ⟨decls₁, marks₁⟩ := first
  obtain ⟨decls₂, marks₂⟩ := second
  obtain rfl : decls₂ = decls₁ := decls
  exact congrArg _ steady.settled

end Moves

end BorrowLang
