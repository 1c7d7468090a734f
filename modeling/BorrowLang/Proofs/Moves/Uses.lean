import BorrowLang.Proofs.Moves.Steps
import Mathlib.Data.List.Nodup

/-!
# Uses of places and move states

Finding the place that an expression denotes, using it and borrowing it, as the bare check does.
-/

set_option autoImplicit false

namespace BorrowLang

namespace Arena

open Moves

variable {a : Arena} {root : PlaceId}

theorem parent?_eq_none_of_isLocal (isLocal : a.IsLocal root) :
    ∃ place, a.place? root = some place ∧ ∀ parent via, place.kind ≠ .target parent via := by
  obtain ⟨there, isSlot⟩ := isLocal
  have known : a.place? root = some a.places[root] := Array.getElem?_eq_getElem there
  refine ⟨_, known, fun parent via kind => ?_⟩
  rw [parent?, known, Option.bind_some, Place.parent, kind] at isSlot
  cases isSlot

theorem decl_addLocal (there : root < a.size) (ident name : String)
    (ty : Option Ty) (isMut isParam : Bool) :
    (a.addLocal ident ty isMut isParam).1.decl name root = a.decl name root := by
  have known := (place?_addLocal a ident ty isMut isParam root).trans
    (if_neg (Nat.ne_of_lt there))
  simp only [decl, Arena.isMut, Arena.ty?, known]

/-- Naming a target does not change what bindings are declared as. -/
theorem decl_target (linked : a.Linked) (isLocal : a.IsLocal root) (parent : PlaceId) (via : Via)
    (ty : Option Ty) (name : String) :
    (a.target parent via ty).1.decl name root = a.decl name root := by
  suffices same :
      ((a.target parent via ty).1.place? root).map (fun place => (place.isMut, place.ty)) =
        (a.place? root).map fun place => (place.isMut, place.ty) by
    have isMut := congrArg (fun known => (known.map Prod.fst).getD false) same
    have types := congrArg (fun known => known.bind Prod.snd) same
    simp only [Option.map_map, Option.bind_map] at isMut types
    exact Decl.mk.injEq .. ▸ ⟨rfl, isMut, types⟩
  cases named : a.child? parent with
  | some child =>
      rw [place?_target_named named, if_neg]
      rintro rfl
      cases (linked parent child named).1.symm.trans isLocal.2
  | none =>
      rw [place?_target_new named, if_neg (Nat.ne_of_lt isLocal.1)]
      split
      · rw [Option.map_map]
        rfl
      · rfl

end Arena

namespace Checker

open Moves

variable {ctx : Context} {s mid after : State} {spot : Spot} {place : PlaceId}

/-! ### Names -/

theorem lookup?_eq_find? (scopes : List (List (String × PlaceId))) (name : String) :
    lookup? scopes name = (scopes.flatten.find? (·.1 = name)).map (·.2) := by
  induction scopes with
  | nil => rfl
  | cons scope rest ih =>
      rw [lookup?, List.findSome?_cons, List.flatten_cons, List.find?_append]
      cases found : scope.find? (·.1 = name) with
      | some binding => rfl
      | none => exact ih

theorem level?_append (decls : List Decl) (decl : Decl) (name : String) :
    level? (decls ++ [decl]) name =
      if decl.name = name then some decls.length else level? decls name := by
  induction decls with
  | nil => rfl
  | cons first rest ih =>
      rw [List.cons_append, level?, ih, level?]
      by_cases here : decl.name = name
      · simp only [here, if_true, List.length_cons]
      · simp only [here, if_false]

/-- The level of a name is that of its latest binding. -/
theorem level?_bindings (arena : Arena) (bindings : List (String × PlaceId)) (name : String) :
    match bindings.find? (·.1 = name) with
    | some binding => ∃ level, bindings.reverse[level]? = some binding ∧
        level? (bindings.reverse.map fun binding => arena.decl binding.1 binding.2) name =
          some level
    | none =>
        level? (bindings.reverse.map fun binding => arena.decl binding.1 binding.2) name = none := by
  induction bindings with
  | nil => rfl
  | cons binding rest ih =>
      rw [List.find?_cons, List.reverse_cons, List.map_append, List.map_singleton, level?_append]
      by_cases here : binding.1 = name
      · simp only [here, decide_true]
        refine ⟨rest.length, ?_, ?_⟩
        · rw [List.getElem?_append_right (Nat.le_of_eq (List.length_reverse)), List.length_reverse]
          simp
        · simp [Arena.decl]
      · simp only [here, decide_false, Arena.decl, if_false]
        split <;> rename_i found <;> rw [found] at ih
        · obtain ⟨level, isThere, isLevel⟩ := ih
          refine ⟨level, ?_, isLevel⟩
          rw [List.getElem?_append_left (List.getElem?_eq_some_iff.mp isThere).1, isThere]
        · exact ih

theorem lookup_mirrors (outlined : s.Outlined) (loc otherLoc : Option Position) (ident : String) :
    Mirrors (lookup ctx loc ident) (Moves.placeOf (.name otherLoc ident))
      (fun place spot after => after = s ∧ s.At spot place) s := by
  simp only [Mirrors, lookup, meets_bind, meets_get, Moves.placeOf]
  have known := level?_bindings s.arena s.scopes.flatten ident
  rw [lookup?_eq_find?]
  cases found : s.scopes.flatten.find? (·.1 = ident) with
  | some binding =>
      rw [found] at known
      obtain ⟨level, isThere, isLevel⟩ := known
      refine ⟨⟨level, 0⟩, ?_, ⟨rfl, binding, isThere, rfl⟩, outlined⟩
      rw [show level? s.outline.decls ident = some level from isLevel]
      rfl
  | none =>
      rw [found] at known
      refine Or.inr ?_
      rw [show level? s.outline.decls ident = none from known]
      rfl

/-! ### Types and targets -/

theorem typeOf_mirrors (outlined : s.Outlined) (stands : s.At spot place) (loc : Option Position) :
    Mirrors (Checker.typeOf ctx loc place) (Moves.typeOf spot)
      (fun ty bare after => after = s ∧ bare = ty ∧ s.arena.ty? place = some ty) s := by
  have types := stands.ty? outlined
  cases known : s.arena.ty? place with
  | some ty =>
      simp only [Mirrors, Checker.typeOf, meets_bind, meets_get, known, meets_pure]
      exact ⟨ty, by rw [Moves.typeOf, types, known]; rfl, by simp, outlined⟩
  | none =>
      refine .of_refuses (by rw [Moves.typeOf, types, known]; rfl) ?_
      simp only [Passes, Checker.typeOf, meets_bind, meets_get, known]
      exact (requireRead_passes loc place).mono fun _ _ _ => trivial

theorem State.At.level (stands : s.At spot place) (outlined : s.Outlined) (level : Level s after)
    (built : after.arena.Built) : after.At spot place := by
  obtain ⟨⟨name, root⟩, isHere, found⟩ := stands
  have isLocal := outlined.isLocal_at isHere
  refine ⟨⟨name, root⟩, ?_, ?_⟩
  · rw [State.bindings, level.scopes]
    exact isHere
  · have there := ((outlined.built.behind_iff isLocal).mp found).1
    exact (outlined.built.behind_grows built level.ways.toGrows isLocal there).mpr found

theorem target_mirrors (outlined : s.Outlined) (stands : s.At spot place) {pointer ty : Ty}
    (known : s.arena.ty? place = some pointer) (points : pointer.pointee? = some ty) :
    Mirrors (target place (viaOf pointer) ty) (pure spot.behind)
      (fun id spot after => Level s after ∧ after.At spot id) s := by
  obtain ⟨name, isHere, isLocal, found⟩ := stands.slot outlined
  have there := ((outlined.built.behind_iff isLocal).mp found).1
  have owns : s.Owns place := by
    refine ⟨there, ?_⟩
    obtain ⟨scope, inScopes, inScope⟩ :=
      List.mem_flatten.mp (List.mem_reverse.mp (List.mem_of_getElem? isHere))
    exact mem_flatten_of_declares outlined.framed.bound (List.mem_append_left _ inScopes) inScope
  have keeps := target_level outlined.framed owns known points
  obtain ⟨-, up, behindPlace⟩ := Arena.target_behind outlined.built.linked there (viaOf pointer)
    (some ty)
  have built := outlined.built.target there (viaOf pointer) (some ty)
  have grows := Arena.target_grows outlined.built.linked place (viaOf pointer) (some ty)
  simp only [Mirrors, target, Passes, meets_bind, meets_get, meets_set, meets_pure] at keeps ⊢
  obtain ⟨level, -⟩ := keeps
  refine ⟨spot.behind, ?_, ⟨level, (name, s.arena.root place), isHere, ?_⟩, ?_⟩
  · change some _ = some _
    refine congrArg (fun o => some (spot.behind, o)) ?_
    have decls : ∀ binding ∈ s.bindings,
        (s.arena.target place (viaOf pointer) (some ty)).1.decl binding.1 binding.2 =
          s.arena.decl binding.1 binding.2 := fun binding member =>
      Arena.decl_target outlined.built.linked (outlined.isLocal member) _ _ _ _
    have marks := outlined.marks_grows level built
    simp only [State.outline, State.bindings] at decls ⊢
    exact congrArg₂ Outline.mk (List.map_congr_left decls).symm marks.symm
  · rw [Spot.behind, Arena.behind,
      (outlined.built.behind_grows built grows isLocal there).mpr found, Option.bind_some]
    exact built.child?_of_parent? behindPlace
  · refine outlined.of_level level built fun id state isState => ?_
    exact Nat.lt_of_lt_of_le (outlined.known id state isState) grows.size

/-! ### Places -/

theorem placeOf_mirrors (outlined : s.Outlined) (e : Expr) :
    Mirrors (Checker.placeOf ctx e) (Moves.placeOf e)
      (fun place spot after => Level s after ∧ after.At spot place) s := by
  induction e using Checker.placeOf.induct with
  | case1 loc ident =>
      rw [Checker.placeOf]
      refine (lookup_mirrors outlined loc loc ident).mono ?_
      rintro place spot after ⟨rfl, stands⟩
      exact ⟨.refl outlined.framed, stands⟩
  | case2 loc inner operand isMut ih =>
      rw [Checker.placeOf, Moves.placeOf]
      refine ih.bind ?_
      rintro place spot mid midOutlined ⟨level, stands⟩
      have borrowed : Mirrors (do
          guard ctx inner (mid.tracker.checkBorrow mid.arena place (.ofMut isMut))
          return place) (do
          Bare.ensure (·.Whole spot.level)
          return spot) (fun place spot after => Level s after ∧ after.At spot place) mid := by
        refine (checkBorrow_mirrors midOutlined stands inner _).bind ?_
        rintro _ _ _ _ rfl
        exact .pure midOutlined ⟨level, stands⟩
      refine .get ?_
      cases isMut with
      | false => exact borrowed
      | true =>
          refine (checkMutable_mirrors midOutlined stands inner true).bind ?_
          rintro _ _ _ _ rfl
          exact borrowed
  | case3 loc operand notBorrow ih =>
      rw [Checker.placeOf, Moves.placeOf]
      · refine ih.bind ?_
        rintro base spot mid midOutlined ⟨level, stands⟩
        refine (typeOf_mirrors midOutlined stands operand.loc).bind ?_
        rintro _ ty _ _ ⟨rfl, rfl, known⟩
        cases points : ty.pointee? with
        | none => exact Or.inr rfl
        | some inner =>
            refine (target_mirrors midOutlined stands known points).mono ?_
            rintro _ _ _ ⟨later, there⟩
            exact ⟨level.trans later, there⟩
      · exact notBorrow
      · exact notBorrow
  | case4 e notName notBorrow notDeref =>
      rw [Checker.placeOf, Moves.placeOf]
      · exact Or.inr rfl
      all_goals assumption

/-! ### Changes of move states -/

/-- A change of the state of one place is one at its spot. -/
theorem State.marks_change (outlined : s.Outlined) (stands : s.At spot place) {t u : Tracker}
    {marks : Marks} (change : Nat → Option MoveState → Option MoveState)
    (line : ∀ root, s.arena.IsLocal root → ∀ depth, u.line s.arena root depth =
      if root = s.arena.root place then change depth (t.line s.arena root depth)
      else t.line s.arena root depth)
    (changed : ∀ level depth, marks level depth =
      if level = spot.level then change depth (s.marks t level depth) else s.marks t level depth) :
    s.marks u = marks := by
  obtain ⟨name, isHere, -, -⟩ := stands.slot outlined
  funext level depth
  rw [changed]
  unfold State.marks
  cases isThere : s.bindings[level]? with
  | none =>
      rw [if_neg]
      · rfl
      · rintro rfl
        cases isHere.symm.trans isThere
  | some binding =>
      rw [Option.bind_some, Option.bind_some, line _ (outlined.isLocal_at isThere)]
      refine if_congr ⟨fun same => ?_, ?_⟩ rfl rfl
      · exact outlined.level_inj isThere isHere same
      · rintro rfl
        rw [Option.some.inj (isThere.symm.trans isHere)]

theorem State.marks_markMoved (outlined : s.Outlined) (stands : s.At spot place) (t : Tracker) :
    s.marks (t.markMoved place) = (s.marks t).set spot .moved := by
  obtain ⟨-, -, isLocal, found⟩ := stands.slot outlined
  refine State.marks_change outlined stands (t := t)
    (fun depth old => if depth = spot.depth then some .moved else old)
    (fun root rootLocal depth => ?_) fun level depth => ?_
  · rw [Tracker.line_markMoved outlined.built isLocal found rootLocal]
    split_ifs <;> simp_all
  · unfold Marks.set
    split_ifs <;> simp_all

theorem State.marks_markLive (outlined : s.Outlined) (stands : s.At spot place) (t : Tracker) :
    s.marks (t.markLive s.arena place) = (s.marks t).setLive spot := by
  obtain ⟨-, -, isLocal, found⟩ := stands.slot outlined
  refine State.marks_change outlined stands (t := t)
    (fun depth old =>
      if spot.depth ≤ depth then if depth = spot.depth then some .live else none else old)
    (fun root rootLocal depth => ?_) fun level depth => ?_
  · rw [Tracker.line_markLive outlined.built isLocal found rootLocal]
    split_ifs <;> simp_all
  · unfold Marks.setLive
    split_ifs <;> simp_all

/-- Something is known of places that exist only, also after a change at a place. -/
theorem State.Outlined.known_insert (outlined : s.Outlined) (there : place < s.arena.size)
    (state : MoveState) {t : Tracker}
    (since : ∀ (id : PlaceId) known, t.states[id]? = some known →
      (s.tracker.states.insert place state)[id]? = some known) :
    ∀ id known, t.states[id]? = some known → id < s.arena.size := by
  intro id known isKnown
  have before := since id known isKnown
  rw [Tracker.getElem?_insert] at before
  split at before
  · rename_i here
    exact here ▸ there
  · exact outlined.known id known before

/-! ### Uses -/

/-- A value without the borrows that it carries. -/
def Operand.bare (value : Operand) : Operand := { value with loans := [] }

theorem State.At.there (stands : s.At spot place) (outlined : s.Outlined) :
    place < s.arena.size := by
  obtain ⟨-, -, isLocal, found⟩ := stands.slot outlined
  exact ((outlined.built.behind_iff isLocal).mp found).1

/-- A value is moved out of its place. -/
theorem moveOut_mirrors (outlined : s.Outlined) (stands : s.At spot place) (loc : Option Position)
    (ty : Ty) :
    Mirrors (do
      let s ← get
      guard ctx loc (s.tracker.canMove s.arena place)
      let (tracker, loans) :=
        if (s.arena.parent? place).isNone then s.tracker.detach place else (s.tracker, [])
      set { s with tracker := tracker.markMoved place }
      return ({ ty, loans } : Operand)) (do
      Bare.ensure fun o => o.Whole spot.level ∧ o.Owned spot
      Bare.mark (·.set spot .moved)
      return { ty }) (fun value bare after => bare = value.bare ∧ Level s after) s := by
  refine .get ?_
  have asked : Mirrors (guard ctx loc (s.tracker.canMove s.arena place))
      (Bare.ensure fun o => o.Whole spot.level ∧ o.Owned spot) _ s := guard_mirrors outlined loc
    (fun _ granted => by
      obtain ⟨available, owned, -⟩ := Tracker.canMove_eq_ok.mp granted
      exact ⟨(stands.whole_iff outlined).mpr available, (stands.owned_iff outlined).mpr owned⟩)
    (fun _ refused ⟨whole, owned⟩ => Tracker.canMove_fault ((stands.whole_iff outlined).mp whole)
      ((stands.owned_iff outlined).mp owned) refused)
  refine asked.bind ?_
  rintro _ _ s _ ⟨rfl, -⟩
  have moved : ∀ t : Tracker, t.states = s.tracker.states → t.frames = s.tracker.frames →
      Tracker.HandedOn s.tracker.frames s.tracker.borrows t.borrows → ∀ loans,
      Mirrors (do
        set { s with tracker := t.markMoved place }
        return ({ ty, loans } : Operand)) (do
        Bare.mark (·.set spot .moved)
        return { ty }) (fun value bare after => bare = value.bare ∧ Level s after) s := by
    intro t states frames each loans
    have level : Level s { s with tracker := t.markMoved place } :=
      .of_handedOn outlined.framed rfl rfl frames each
    simp only [Mirrors, meets_bind, meets_set, meets_pure]
    refine ⟨{ ty }, ?_, ⟨rfl, level⟩, outlined.of_level level outlined.built ?_⟩
    · change some _ = some _
      have marks := State.marks_markMoved outlined stands t
      have same : s.marks t = s.marks s.tracker := by
        unfold State.marks Tracker.line
        rw [states]
      rw [same] at marks
      exact congrArg (fun m => some (({ ty } : Operand), Outline.mk s.outline.decls m)) marks.symm
    · refine outlined.known_insert (stands.there outlined) .moved fun id known isKnown => ?_
      rw [← states]
      exact isKnown
  cases (s.arena.parent? place).isNone with
  | true =>
      exact moved (s.tracker.detach place).1 rfl rfl (Tracker.detach_handedOn _ _)
        (s.tracker.detach place).2
  | false => exact moved s.tracker rfl rfl (.refl _) []

theorem usePlace_mirrors (outlined : s.Outlined) (stands : s.At spot place)
    (loc : Option Position) :
    Mirrors (Checker.usePlace ctx loc place) (Moves.usePlace spot)
      (fun value bare after => bare = value.bare ∧ Level s after) s := by
  rw [Checker.usePlace, Moves.usePlace]
  refine (typeOf_mirrors outlined stands loc).bind ?_
  rintro _ ty s _ ⟨rfl, rfl, -⟩
  by_cases copy : ty.isCopy = true
  · simp only [copy, if_true]
    refine (requireRead_mirrors outlined stands loc).bind ?_
    rintro _ _ s _ rfl
    split
    · have level : Level s { s with
          tracker := (s.tracker.cloneHeld s.nextBorrow (s.arena.root place)).1
          nextBorrow := (s.tracker.cloneHeld s.nextBorrow (s.arena.root place)).2.1 } :=
        .of_handedOn outlined.framed rfl rfl rfl (Tracker.cloneHeld_handedOn _ _ _)
      simp only [Mirrors, meets_bind, meets_get, meets_set, meets_pure]
      exact ⟨_, rfl, ⟨rfl, level⟩, outlined.of_level level outlined.built outlined.known⟩
    · exact .pure outlined ⟨rfl, .refl outlined.framed⟩
  · rw [if_neg copy, if_neg copy]
    exact moveOut_mirrors outlined stands loc ty

theorem State.At.owns (stands : s.At spot place) (outlined : s.Outlined) : s.Owns place := by
  obtain ⟨name, isHere, isLocal, -⟩ := stands.slot outlined
  refine ⟨stands.there outlined, ?_⟩
  obtain ⟨scope, inScopes, inScope⟩ :=
    List.mem_flatten.mp (List.mem_reverse.mp (List.mem_of_getElem? isHere))
  exact mem_flatten_of_declares outlined.framed.bound (List.mem_append_left _ inScopes) inScope

/-- A new borrow is no part of what is known without borrows. -/
theorem borrow_mirrors (outlined : s.Outlined) (stands : s.At spot place) (loc : Option Position)
    (kind : BorrowKind) :
    Mirrors (borrow ctx loc place kind) (Bare.ensure (·.Whole spot.level))
      (fun _ _ after => Level s after ∧ after.arena = s.arena) s := by
  refine .get ?_
  have asked : Mirrors
      (guard ctx loc (s.tracker.beginBorrow s.arena s.nextBorrow place kind none false loc))
      (Bare.ensure (·.Whole spot.level)) _ s := guard_mirrors outlined loc
    (fun _ granted => by
      obtain ⟨_, checked, -⟩ := bind_eq_ok.mp granted
      exact (stands.whole_iff outlined).mpr (Tracker.checkBorrow_eq_ok.mp checked).1)
    (fun v refused whole => by
      refine Tracker.checkBorrow_fault ((stands.whole_iff outlined).mp whole)
        (?_ : s.tracker.checkBorrow s.arena place kind = .error v)
      unfold Tracker.beginBorrow at refused
      cases checked : s.tracker.checkBorrow s.arena place kind with
      | ok => rw [checked] at refused; cases refused
      | error other => rw [checked] at refused; cases refused; rfl)
  rw [← bind_pure (Bare.ensure (·.Whole spot.level))]
  refine asked.bind ?_
  rintro tracker _ s _ ⟨rfl, begun⟩
  obtain ⟨_, -, same⟩ := bind_eq_ok.mp begun
  obtain rfl := Except.ok.inj same
  have owns := stands.owns outlined
  have level : Level s { s with
      tracker.borrows := s.tracker.borrows ++ [⟨s.nextBorrow, place, kind, none, false, loc⟩]
      nextBorrow := s.nextBorrow + 1 } :=
    .of_sheltered outlined.framed rfl rfl rfl
      (outlined.framed.sheltered.push owns.there rfl owns.opened)
  simp only [Mirrors, meets_bind, meets_set, meets_pure]
  exact ⟨(), rfl, ⟨level, trivial⟩, outlined.of_level level outlined.built outlined.known⟩

theorem borrowPlace_mirrors (outlined : s.Outlined) (stands : s.At spot place)
    (loc : Option Position) (isMut : Bool) :
    Mirrors (Checker.borrowPlace ctx loc place isMut) (Moves.borrowPlace spot isMut)
      (fun value bare after => bare = value.bare ∧ Level s after) s := by
  have borrowed : Mirrors (borrowChecked ctx s loc place isMut) (do
      Bare.ensure (·.Whole spot.level)
      return { ty := .ref isMut (← Moves.typeOf spot) })
        (fun value bare after => bare = value.bare ∧ Level s after) s := by
    refine (borrow_mirrors outlined stands loc _).bind ?_
    rintro loan _ t tOutlined ⟨level, arena⟩
    have types : t.outline.ty? spot = s.arena.ty? place := by
      rw [(stands.level outlined level tOutlined.built).ty? tOutlined, arena]
    cases known : s.arena.ty? place with
    | none =>
        exact .of_refuses (typeOf_bind_none (types.trans known)) trivial
    | some ty =>
        exact ⟨_, typeOf_bind_some (types.trans known), ⟨rfl, level⟩, tOutlined⟩
  rw [borrowPlace_eq, Moves.borrowPlace]
  refine .get ?_
  cases isMut with
  | false => exact borrowed
  | true =>
      refine (checkMutable_mirrors outlined stands loc true).bind ?_
      rintro _ _ s _ rfl
      exact borrowed

theorem expectDisplayable_likewise (loc : Option Position) (ty : Option Ty) :
    Likewise id (expectDisplayable ctx loc ty) (expectDisplayable ctx loc ty) := by
  unfold expectDisplayable
  exact .ite (.pure ()) (.throw _)

theorem showPlace_mirrors (outlined : s.Outlined) (stands : s.At spot place)
    (loc : Option Position) :
    Mirrors (Checker.showPlace ctx loc place) (Moves.showPlace ctx loc spot)
      (fun _ _ after => after = s) s := by
  rw [Checker.showPlace, Moves.showPlace]
  refine .get ((checkBorrow_mirrors outlined stands loc .shared).bind ?_)
  rintro _ _ s _ rfl
  have types := stands.ty? outlined
  cases known : s.arena.ty? place with
  | none => exact .of_refuses (typeOf_bind_none (types.trans known)) trivial
  | some ty =>
      have shown := (@expectDisplayable_likewise ctx loc (some ty)).mirrors outlined
      simp only [Mirrors, typeOf_bind_some (types.trans known)] at shown ⊢
      refine shown.onOk ?_
      rintro _ after ⟨b, passes, isSame, there⟩
      exact ⟨b, passes, isSame.1, there⟩

/-! ### Bindings -/

/-- What is known of old bindings after a new one, and of the new one. -/
theorem line_declare (outlined : s.Outlined) (ident : String) (ty : Option Ty)
    (isMut isParam initialized : Bool) {root : PlaceId} (depth : Nat) :
    let arena := (s.arena.addLocal ident ty isMut isParam).1
    let tracker := s.tracker.declare s.arena.size initialized
    (s.arena.IsLocal root → tracker.line arena root depth = s.tracker.line s.arena root depth) ∧
      tracker.line arena s.arena.size depth =
        if depth = 0 then some (if initialized then .live else .uninit) else none := by
  intro arena tracker
  obtain ⟨-, -, newLocal⟩ := Arena.addLocal_laid outlined.framed.laid ident ty isMut isParam
  have grows : Arena.Grows s.arena arena := Arena.addLocal_grows s.arena ident ty isMut isParam
  have built : arena.Built := outlined.built.addLocal ident ty isMut isParam
  refine ⟨fun isLocal => ?_, ?_⟩
  · rw [← Tracker.line_grows outlined.built built grows isLocal outlined.known]
    unfold Tracker.line
    cases found : arena.behind root depth with
    | none => rfl
    | some place =>
        have old : place ≠ s.arena.size := by
          rintro rfl
          have isLocalNow : arena.IsLocal root :=
            ⟨Nat.lt_of_lt_of_le isLocal.1 grows.size, (grows.parent isLocal.1).trans isLocal.2⟩
          obtain ⟨-, belongs, -⟩ := (built.behind_iff isLocalNow).mp found
          rw [newLocal.root] at belongs
          exact absurd isLocal.1 (Nat.not_lt_of_ge (Nat.le_of_eq belongs))
        change (s.tracker.states.insert _ _)[place]? = _
        rw [Tracker.getElem?_insert, if_neg old]
        rfl
  · cases depth with
    | zero =>
        rw [Tracker.line_of_behind (rfl : arena.behind s.arena.size 0 = some s.arena.size),
          if_pos rfl]
        change (s.tracker.states.insert _ _)[s.arena.size]? = _
        rw [Tracker.getElem?_insert, if_pos rfl]
    | succ depth =>
        have last : arena.child? s.arena.size = none := by
          have beyond : s.arena.places[s.arena.size]? = none :=
            Array.getElem?_eq_none (Nat.le_refl _)
          rw [Arena.child?_addLocal, Arena.child?, Arena.place?, beyond, Option.bind_none]
        have nothing : arena.behind s.arena.size (depth + 1) = none := by
          induction depth with
          | zero => exact last
          | succ depth ih => rw [Arena.behind, ih, Option.bind_none]
        rw [Tracker.line, nothing, if_neg (Nat.succ_ne_zero depth)]
        rfl

/-- After a new binding the outline has one more declaration. -/
theorem outline_bound (outlined : s.Outlined) {ident : String} {ty : Option Ty}
    {isMut isParam initialized : Bool}
    (arena : after.arena = (s.arena.addLocal ident ty isMut isParam).1)
    (tracker : after.tracker = s.tracker.declare s.arena.size initialized)
    (bindings : after.bindings = s.bindings ++ [(ident, s.arena.size)]) :
    after.outline = s.outline.declare ⟨ident, isMut, ty⟩ initialized := by
  have length : s.outline.decls.length = s.bindings.length := by
    rw [State.outline, List.length_map]
  refine congrArg₂ Outline.mk ?_ (funext fun level => funext fun depth => ?_)
  · have new := Arena.place?_addLocal s.arena ident ty isMut isParam s.arena.size
    rw [if_pos rfl] at new
    rw [bindings, arena, List.map_append, List.map_singleton]
    refine congrArg₂ (· ++ ·) (List.map_congr_left fun binding member => ?_) ?_
    · exact Arena.decl_addLocal (outlined.isLocal member).1 _ _ _ _ _
    · simp only [Arena.decl, Arena.isMut, Arena.ty?, new]
      rfl
  · unfold State.marks Marks.set
    rw [bindings, arena, tracker, length]
    rcases Nat.lt_trichotomy level s.bindings.length with old | rfl | beyond
    · rw [List.getElem?_append_left old, if_neg fun here => Nat.ne_of_lt old here.1]
      refine Option.bind_congr fun binding member => ?_
      exact (line_declare outlined ident ty isMut isParam initialized depth).1
        (outlined.isLocal_at member)
    · have none : s.outline.marks s.bindings.length depth = none := by
        change (s.bindings[s.bindings.length]?).bind _ = _
        rw [List.getElem?_eq_none (Nat.le_refl _), Option.bind_none]
      rw [List.getElem?_concat_length, Option.bind_some, none,
        (@line_declare s outlined ident ty isMut isParam initialized s.arena.size depth).2]
      simp
    · have none : s.outline.marks level depth = none := by
        change (s.bindings[level]?).bind _ = _
        rw [List.getElem?_eq_none (Nat.le_of_lt beyond), Option.bind_none]
      rw [List.getElem?_eq_none, Option.bind_none, if_neg fun here => Nat.ne_of_gt beyond here.1,
        none]
      rw [List.length_append, List.length_singleton]
      exact beyond

theorem bind_mirrors (outlined : s.Outlined) (ident : String) (ty : Option Ty)
    (isMut isParam initialized : Bool) :
    Mirrors (bind ident ty isMut isParam initialized) (declare ident ty isMut initialized)
      (fun place _ after => Widened s after ∧ place ∈ after.tracker.frames.flatten) s := by
  obtain ⟨scope, rest, scopes⟩ := List.exists_cons_of_ne_nil outlined.framed.inside
  let next : State := { s with
    arena := (s.arena.addLocal ident ty isMut isParam).1
    scopes := ((ident, s.arena.size) :: scope) :: rest
    tracker := s.tracker.declare s.arena.size initialized }
  have ends : bind ident ty isMut isParam initialized s = (.ok s.arena.size, next) := by
    simp only [bind, run_bind]
    change (Except.ok _, _) = _
    rw [scopes]
    rfl
  have keeps := bind_widened outlined.framed ident ty isMut isParam initialized
  have bindings : next.bindings = s.bindings ++ [(ident, s.arena.size)] := by
    simp [State.bindings, scopes, next]
  unfold Passes Meets at keeps
  unfold Mirrors Meets
  rw [ends] at keeps ⊢
  have outline := outline_bound outlined (rfl : next.arena = _) rfl bindings
  refine ⟨(), congrArg (fun o => some ((), o)) outline.symm, keeps, keeps.1.framed,
    outlined.built.addLocal ident ty isMut isParam, fun id state isState => ?_, ?_, ?_⟩
  · change (s.tracker.states.insert _ _)[id]? = _ at isState
    rw [Tracker.getElem?_insert] at isState
    have size : next.arena.size = s.arena.size + 1 := by
      simp [next, Arena.addLocal, Arena.size]
    rw [size]
    split at isState
    · rename_i here
      exact here ▸ Nat.lt_succ_self _
    · exact Nat.lt_succ_of_lt (outlined.known id state isState)
  · have frames := outlined.frames
    rw [scopes] at frames
    change (s.tracker.declare s.arena.size initialized).frames = _
    simp only [Tracker.declare, frames, next, List.map_cons, List.cons_append, List.reverse_cons]
  · rw [bindings, List.map_append, List.map_singleton]
    refine List.Nodup.append outlined.distinct (List.nodup_singleton _) ?_
    rw [List.disjoint_singleton]
    intro member
    obtain ⟨binding, isBinding, same⟩ := List.mem_map.mp member
    exact absurd (outlined.isLocal isBinding).1 (Nat.not_lt_of_ge (Nat.le_of_eq same.symm))

end Checker

end BorrowLang
