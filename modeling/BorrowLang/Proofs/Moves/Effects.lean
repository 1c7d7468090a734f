import BorrowLang.Proofs.Moves.Uses

/-!
# Effects on what is known

Assignments, the ends of scopes and paths that meet, as the bare check has them.
-/

set_option autoImplicit false

namespace BorrowLang.Checker

open Moves

variable {α β : Type} {ctx : Context} {s mid after : State} {spot : Spot} {place : PlaceId}

/-! ### Assignments -/

theorem expect_likewise (expected : Ty) (value : Operand) (loc : Option Position) :
    Likewise id (expect ctx expected value loc) (expect ctx expected value.bare loc) := by
  unfold expect
  exact .ite (.pure ()) (.throw _)

theorem expect_mirrors (outlined : s.Outlined) (expected : Ty) (value : Operand)
    (loc : Option Position) :
    Mirrors (expect ctx expected value loc) (Bare.answer (expect ctx expected value.bare loc))
      (fun _ _ after => after = s) s :=
  ((expect_likewise expected value loc).mirrors outlined).mono fun _ _ _ known => known.1

/-- A place without a type is the slot of its binding. -/
theorem State.At.slot_of_untyped (stands : s.At spot place) (outlined : s.Outlined)
    (untyped : s.arena.ty? place = none) : spot.depth = 0 ∧ s.arena.root place = place := by
  obtain ⟨-, -, isLocal, found⟩ := stands.slot outlined
  cases depth : spot.depth with
  | zero =>
      rw [depth] at found
      exact ⟨rfl, Option.some.inj found⟩
  | succ above =>
      rw [depth] at found
      obtain ⟨parent, -, leads⟩ := Option.bind_eq_some_iff.mp found
      obtain ⟨_, _, -, -, known⟩ := outlined.framed.laid.typed parent place leads
      cases untyped.symm.trans known

theorem outline_setTy (outlined : s.Outlined) (stands : s.At spot place)
    (untyped : s.arena.ty? place = none) (ty : Ty)
    (level : Level s { s with arena := s.arena.setTy place (some ty) }) :
    State.outline { s with arena := s.arena.setTy place (some ty) } =
      s.outline.setTy spot.level ty := by
  obtain ⟨name, isHere, isLocal, -⟩ := stands.slot outlined
  obtain ⟨-, isSlot⟩ := stands.slot_of_untyped outlined untyped
  rw [isSlot] at isHere
  refine congrArg₂ Outline.mk (List.ext_getElem? fun row => ?_) ?_
  · change (s.bindings.map _)[row]? = _
    rw [List.getElem?_map, List.getElem?_modify, State.outline, List.getElem?_map]
    cases isThere : s.bindings[row]? with
    | none => split <;> rfl
    | some binding =>
        have known := Arena.place?_setTy s.arena place (some ty) binding.2
        by_cases same : spot.level = row
        · subst same
          obtain rfl := Option.some.inj (isHere.symm.trans isThere)
          have there := stands.there outlined
          have isPlace : s.arena.place? place = some s.arena.places[place] :=
            Array.getElem?_eq_getElem there
          rw [Arena.ty?, isPlace, Option.bind_some] at untyped
          simp only [Option.map_eq_map, Option.map_some, Arena.decl, Arena.isMut, Arena.ty?, known,
            isPlace, Option.bind_some, untyped, if_true]
          rfl
        · have apart : place ≠ binding.2 := fun here =>
            same (outlined.level_inj isHere isThere here)
          simp only [Option.map_eq_map, Option.map_some, Arena.decl, Arena.isMut, Arena.ty?, known,
            if_neg apart, if_neg same]
  · exact outlined.marks_grows level (outlined.built.setTy place (some ty))

theorem assignType_mirrors (outlined : s.Outlined) (stands : s.At spot place)
    (loc valueLoc targetLoc : Option Position) (value : Operand) (op : Option BinaryOp) :
    Mirrors (Checker.assignType ctx loc valueLoc targetLoc place value op)
      (Moves.assignType ctx valueLoc spot value.bare op) (fun _ _ after => Level s after) s := by
  rw [Checker.assignType]
  refine .get ?_
  have types := stands.ty? outlined
  cases op with
  | some op =>
      rw [Moves.assignType]
      refine (requireRead_mirrors outlined stands targetLoc).bind ?_
      rintro _ _ s _ rfl
      by_cases fits : s.arena.ty? place = some .i32 ∧ value.ty = .i32
      · have refused : ¬(s.arena.ty? place ≠ some .i32 ∨ value.ty ≠ .i32) := by
          rw [not_or, not_not, not_not]
          exact fits
        simp only [if_neg refused]
        refine ⟨(), ?_, .refl outlined.framed, outlined⟩
        rw [Bare.ensure, if_pos ⟨types.trans fits.1, fits.2⟩]
      · have refused : s.arena.ty? place ≠ some .i32 ∨ value.ty ≠ .i32 := by
          rw [← not_and_or]
          exact fits
        simp only [if_pos refused]
        refine Or.inr ?_
        rw [Bare.ensure, if_neg]
        rw [types]
        exact fits
  | none =>
      rw [Moves.assignType]
      cases known : s.arena.ty? place with
      | none =>
          obtain ⟨laid, ways⟩ := Arena.setTy_laid outlined.framed.laid known value.ty
          have level : Level s { s with arena := s.arena.setTy place (some value.ty) } :=
            .of_arena outlined.framed laid ways rfl rfl
          simp only [Mirrors, meets_set, types, known]
          refine ⟨(), ?_, level, outlined.of_level level (outlined.built.setTy _ _) ?_⟩
          · rw [outline_setTy outlined stands known value.ty level]
            rfl
          · exact fun id state isState =>
              Nat.lt_of_lt_of_le (outlined.known id state isState) ways.size
      | some ty =>
          have fits := @expect_mirrors ctx s outlined ty value valueLoc
          simp only [Mirrors, types, known] at fits ⊢
          refine Meets.onOk fits ?_
          rintro _ s ⟨_, passes, rfl, outlined⟩
          exact ⟨(), passes, .refl outlined.framed, outlined⟩

/-- The borrows of an assigned value are stored beside what is known without borrows. -/
theorem storeValue_beside (outlined : s.Outlined) (owns : s.Owns place) (value : Operand)
    (loc : Option Position) :
    Beside (do
      if !value.loans.isEmpty then
        if (s.arena.innermostRef place).isNone then
          storeLoans ctx (s.arena.root place) value.loans
        else if !(← storeInto ctx [place] value.loans loc) then
          storeLoans ctx (s.arena.root place) value.loans) s := by
  have adopted : ∀ mid, Level s mid → Still s mid →
      Meets (storeLoans ctx (s.arena.root place) value.loans) mid
        (fun _ after => Still s after ∧ Level s after) fun fault _ => fault.OfBorrow := by
    intro mid level still
    have opened : s.arena.root place ∈ mid.tracker.frames.flatten := by
      rw [level.frames]
      exact owns.opened
    refine Meets.onOk (Meets.known (storeLoans_stays _ _)
      (storeLoans_level level.framed opened value.loans)) fun _ after known => ?_
    exact ⟨still.trans known.1, level.trans known.2⟩
  refine Beside.of_still outlined ?_
  split
  · split
    · exact adopted s (.refl outlined.framed) (.refl s)
    · rw [meets_bind]
      have roots : ∀ other ∈ [place], s.Roots other := by
        intro other member _
        rw [List.mem_singleton.mp member]
        exact owns.opened
      refine Meets.onOk (Meets.known (storeInto_stays [place] value.loans loc)
        (storeInto_level outlined.framed roots value.loans loc)) ?_
      rintro stored mid ⟨still, level⟩
      split
      · exact adopted mid level still
      · exact ⟨still, level⟩
  · exact ⟨.refl s, .refl outlined.framed⟩

theorem canWrite_mirrors (outlined : s.Outlined) (stands : s.At spot place)
    (loc : Option Position) :
    Mirrors (guard ctx loc (s.tracker.canWrite s.arena place)) (Bare.ensure (·.Writable spot))
      (fun _ _ after => after = s) s :=
  (guard_mirrors outlined loc
    (fun _ granted => by
      obtain ⟨owners, declared, -⟩ := Tracker.canWrite_eq_ok.mp granted
      exact (stands.writable_iff outlined).mpr ⟨owners, declared⟩)
    (fun _ refused writable => by
      obtain ⟨owners, declared⟩ := (stands.writable_iff outlined).mp writable
      exact Tracker.canWrite_fault owners declared refused)).mono fun _ _ _ known => known.1

theorem markLive_mirrors (outlined : s.Outlined) (stands : s.At spot place) :
    Mirrors (modifyTracker (·.markLive s.arena place)) (Bare.mark (·.setLive spot))
      (fun _ _ after => Level s after ∧ after.arena = s.arena) s := by
  have level : Level s { s with tracker := s.tracker.markLive s.arena place } :=
    .of_handedOn outlined.framed rfl rfl rfl (.refl _)
  simp only [Mirrors, modifyTracker, meets_modify]
  refine ⟨(), ?_, ⟨level, trivial⟩, outlined.of_level level outlined.built ?_⟩
  · have marks := State.marks_markLive outlined stands s.tracker
    exact congrArg (fun m => some ((), Outline.mk s.outline.decls m)) marks.symm
  · refine outlined.known_insert (stands.there outlined) .live fun id known isKnown => ?_
    change ((s.arena.descendants place).foldl _ _)[id]? = _ at isKnown
    rw [Tracker.getElem?_foldl_erase] at isKnown
    split at isKnown
    · cases isKnown
    · exact isKnown

theorem assignPlace_mirrors (outlined : s.Outlined) (stands : s.At spot place)
    (targetLoc valueLoc : Option Position) (value : Operand) :
    Mirrors (Checker.assignPlace ctx targetLoc valueLoc place value) (Moves.assignPlace spot)
      (fun _ _ after => Level s after) s := by
  have marked : ∀ mid, mid.Outlined → Level s mid → mid.arena = s.arena → Mirrors (do
      modifyTracker (·.markLive s.arena place)
      if !value.loans.isEmpty then
        if (s.arena.innermostRef place).isNone then
          storeLoans ctx (s.arena.root place) value.loans
        else if !(← storeInto ctx [place] value.loans valueLoc) then
          storeLoans ctx (s.arena.root place) value.loans) (Bare.mark (·.setLive spot))
        (fun _ _ after => Level s after) mid := by
    intro mid midOutlined level arena
    have there := stands.level outlined level midOutlined.built
    rw [← arena, ← bind_pure (Bare.mark (·.setLive spot))]
    refine (markLive_mirrors midOutlined there).bind ?_
    rintro _ _ live liveOutlined ⟨liveLevel, liveArena⟩
    rw [← liveArena]
    have owns := (there.level midOutlined liveLevel liveOutlined.built).owns liveOutlined
    refine (Beside.mirrors (storeValue_beside liveOutlined owns value valueLoc)).mono ?_
    exact fun _ _ last known => (level.trans liveLevel).trans known.2
  rw [Checker.assignPlace, Moves.assignPlace]
  refine .get ((canWrite_mirrors outlined stands targetLoc).bind ?_)
  rintro _ _ s _ rfl
  dsimp only
  split
  · have level : Level s { s with tracker := s.tracker.endHeldBy place } :=
      .of_handedOn outlined.framed rfl rfl rfl (.filter _ _)
    have goesOn := marked _ (outlined.of_level level outlined.built outlined.known) level rfl
    rw [Mirrors, meets_bind, modifyTracker, meets_modify]
    exact goesOn
  · exact marked s outlined (.refl outlined.framed) rfl

/-! ### Paths that meet -/

/-- A path is left and another one taken: types that have become known stay, move states are those
from before. -/
theorem swap_outlined (outlined : s.Outlined) (later : after.Outlined) (level : Level s after) :
    let next : State := { after with tracker := s.tracker }
    next.Outlined ∧ next.outline = ⟨after.outline.decls, s.outline.marks⟩ := by
  intro next
  have swapped : Level s next := level.swap outlined.framed
  refine ⟨outlined.of_level swapped later.built fun id state isState => ?_, ?_⟩
  · exact Nat.lt_of_lt_of_le (outlined.known id state isState) level.ways.size
  · exact congrArg (Outline.mk _) (outlined.marks_grows swapped later.built)

theorem marks_join (s : State) (t u : Tracker) :
    s.marks (t.join u) = (s.marks t).join (s.marks u) := by
  funext row depth
  change s.bindings[row]?.bind _ =
    MoveState.merge (s.bindings[row]?.bind _) (s.bindings[row]?.bind _)
  cases s.bindings[row]? with
  | none => rfl
  | some binding => exact Tracker.line_join t u s.arena binding.2 depth

/-- Of two paths that meet, the second one is that of the state. -/
theorem meet_outlined (outlined : s.Outlined) {t : Tracker} (sheltered : t.Sheltered s.arena)
    (frames : t.frames = s.tracker.frames)
    (known : ∀ id state, t.states[id]? = some state → id < s.arena.size)
    (diverges otherDiverges : Bool) :
    let next : State := { s with tracker := meet diverges otherDiverges t s.tracker }
    next.Outlined ∧ Level s next ∧ next.outline =
      ⟨s.outline.decls, (s.marks t).meet diverges otherDiverges s.outline.marks⟩ := by
  intro next
  have level : Level s next := meet_level (s := s) outlined.framed sheltered frames diverges
    otherDiverges
  have joined : ∀ id state, (t.join s.tracker).states[id]? = some state → id < s.arena.size := by
    intro id state isState
    rw [Tracker.getElem?_states_join] at isState
    cases mine : t.states[id]? with
    | some theirs => exact known id theirs mine
    | none =>
        rw [mine] at isState
        exact outlined.known id state isState
  refine ⟨outlined.of_level level outlined.built fun id state isState => ?_, level, ?_⟩
  · cases diverges <;> cases otherDiverges
    · exact joined id state isState
    · exact known id state isState
    · exact outlined.known id state isState
    · exact joined id state isState
  · refine congrArg (Outline.mk _) ?_
    cases diverges <;> cases otherDiverges
    · exact marks_join s t s.tracker
    · rfl
    · rfl
    · exact marks_join s t s.tracker

theorem join_outlined (outlined : s.Outlined) {t : Tracker} (sheltered : t.Sheltered s.arena)
    (frames : t.frames = s.tracker.frames)
    (known : ∀ id state, t.states[id]? = some state → id < s.arena.size) :
    let next : State := { s with tracker := s.tracker.join t }
    next.Outlined ∧ Level s next ∧ next.outline =
      ⟨s.outline.decls, s.outline.marks.join (s.marks t)⟩ := by
  intro next
  have level : Level s next := join_level (s := s) outlined.framed sheltered frames
  refine ⟨outlined.of_level level outlined.built fun id state isState => ?_, level,
    congrArg (Outline.mk _) (marks_join s s.tracker t)⟩
  rw [Tracker.getElem?_states_join] at isState
  cases mine : s.tracker.states[id]? with
  | some own => exact outlined.known id own mine
  | none =>
      rw [mine] at isState
      exact known id state isState

/-- What a tracker from before knows is sheltered and about places that exist. -/
theorem State.Outlined.since (outlined : s.Outlined) (level : Level s after) :
    s.tracker.Sheltered after.arena ∧ s.tracker.frames = after.tracker.frames ∧
      ∀ id state, s.tracker.states[id]? = some state → id < after.arena.size :=
  ⟨outlined.framed.sheltered.grow level.ways, level.frames.symm, fun id state isState =>
    Nat.lt_of_lt_of_le (outlined.known id state isState) level.ways.size⟩

/-- What may be passed over ends where the path that passes it over meets. -/
theorem orSkip_mirrors {γ δ : Type} {x : Check α} {y : Bare β} {z : α → Check γ} {w : β → Bare δ}
    {same : α → β → Prop} {same' : γ → δ → State → Prop} (outlined : s.Outlined)
    (inner : Mirrors x y (fun a b after => same a b ∧ Level s after) s)
    (next : ∀ a b after, after.Outlined → same a b → Level s after →
      Mirrors (z a) (w b) same' after) :
    Mirrors (do
      let a ← x
      modifyTracker (·.join s.tracker)
      z a) (y.orSkip >>= w) same' s := by
  rw [Mirrors, meets_bind]
  refine Meets.mono inner ?_ ?_
  · rintro a mid ⟨b, passes, ⟨isSame, level⟩, midOutlined⟩
    obtain ⟨sheltered, frames, known⟩ := outlined.since level
    obtain ⟨joined, joinLevel, outline⟩ := join_outlined midOutlined sheltered frames known
    rw [outlined.marks_grows level midOutlined.built] at outline
    have skips : (y.orSkip >>= w) s.outline =
        w b ⟨mid.outline.decls, mid.outline.marks.join s.outline.marks⟩ := by
      change (Option.bind (y s.outline) _).bind _ = _
      rw [passes]
      rfl
    rw [skips, meets_bind, modifyTracker, meets_modify]
    have goesOn := next a b _ joined isSame (level.trans joinLevel)
    rw [Mirrors, outline] at goesOn
    exact goesOn
  · rintro fault _ (ofBorrow | refuses)
    · exact Or.inl ofBorrow
    · refine Or.inr ?_
      change (Option.bind (y s.outline) _).bind _ = _
      rw [refuses]
      rfl

/-- Two paths that start from one point, and meet again. -/
theorem fork_mirrors {γ δ : Type} {x x' : Check Operand} {y y' : Bare Operand}
    {z : Operand → Operand → Check γ} {w : Operand × Operand → Bare δ}
    {same' : γ → δ → State → Prop} (outlined : s.Outlined)
    (first : ∀ s : State, s.Outlined →
      Mirrors x y (fun value bare after => bare = value.bare ∧ Level s after) s)
    (other : ∀ s : State, s.Outlined →
      Mirrors x' y' (fun value bare after => bare = value.bare ∧ Level s after) s)
    (next : ∀ a b after, after.Outlined → Level s after →
      Mirrors (z a b) (w (a.bare, b.bare)) same' after) :
    Mirrors (do
      let a ← x
      let thenTracker := (← get).tracker
      modifyTracker fun _ => s.tracker
      let b ← x'
      modifyTracker (meet a.diverges b.diverges thenTracker)
      z a b) (Bare.fork y y' >>= w) same' s := by
  have forks : (Bare.fork y y' >>= w) s.outline = (y s.outline).bind fun thenEnd =>
      (y' ⟨thenEnd.2.decls, s.outline.marks⟩).bind fun elseEnd =>
        w (thenEnd.1, elseEnd.1) ⟨elseEnd.2.decls,
          thenEnd.2.marks.meet thenEnd.1.diverges elseEnd.1.diverges elseEnd.2.marks⟩ := by
    change (Option.bind (y s.outline) _).bind _ = _
    rw [Option.bind_assoc]
    refine Option.bind_congr fun thenEnd _ => ?_
    change (Option.bind _ _).bind _ = _
    rw [Option.bind_assoc]
    rfl
  rw [Mirrors, forks, meets_bind]
  refine Meets.mono (first s outlined) ?_ ?_
  · rintro a mid ⟨_, passes, ⟨rfl, level⟩, midOutlined⟩
    obtain ⟨swapped, outline⟩ := swap_outlined outlined midOutlined level
    rw [passes, Option.bind_some, ← outline, meets_bind, meets_get, meets_bind, modifyTracker,
      meets_modify, meets_bind]
    refine Meets.mono (other _ swapped) ?_ ?_
    · rintro b last ⟨_, passesOther, ⟨rfl, lastLevel⟩, lastOutlined⟩
      -- What the first path knows is still known where the other one has ended.
      have across : Level mid last :=
        ⟨lastLevel.framed, lastLevel.ways, lastLevel.frames.trans level.frames.symm,
          lastLevel.scopes⟩
      obtain ⟨sheltered, frames, known⟩ := midOutlined.since across
      obtain ⟨met, metLevel, metOutline⟩ :=
        meet_outlined lastOutlined sheltered frames known a.diverges b.diverges
      rw [midOutlined.marks_grows across lastOutlined.built] at metOutline
      have goesOn := next a b _ met ((level.trans across).trans metLevel)
      rw [Mirrors, metOutline] at goesOn
      rw [passesOther, Option.bind_some, meets_bind, modifyTracker, meets_modify]
      exact goesOn
    · rintro fault _ (ofBorrow | refuses)
      · exact Or.inl ofBorrow
      · exact Or.inr (by rw [refuses, Option.bind_none])
  · rintro fault _ (ofBorrow | refuses)
    · exact Or.inl ofBorrow
    · exact Or.inr (by rw [refuses, Option.bind_none])

/-! ### Scopes -/

/-- What is forgotten when a scope is left is about its bindings. -/
theorem getElem?_foldl_forget (arena : Arena) (dying : List PlaceId)
    (states : Std.TreeMap PlaceId MoveState) (id : PlaceId) :
    (dying.foldl (fun states place =>
      (arena.descendants place).foldl (·.erase ·) (states.erase place)) states)[id]? =
        if ∃ place ∈ dying, id ∈ place :: arena.descendants place then none else states[id]? := by
  induction dying generalizing states with
  | nil => simp
  | cons place rest ih =>
      have here : ((arena.descendants place).foldl (·.erase ·) (states.erase place))[id]? =
          if id ∈ place :: arena.descendants place then none else states[id]? := by
        rw [← Tracker.getElem?_foldl_erase (place :: arena.descendants place) states id]
        rfl
      rw [List.foldl_cons, ih, here]
      simp only [List.exists_mem_cons_iff]
      by_cases first : id ∈ place :: arena.descendants place
      · simp [first]
      · simp only [first, if_false, false_or]

/-- A scope inside another one is left, and its bindings are forgotten, or one of them is
borrowed. -/
theorem popFrame_cases {t : Tracker} {dying outer : List PlaceId} {rest : List (List PlaceId)}
    (arena : Arena) (frames : t.frames = dying :: outer :: rest) :
    (∃ u ids, t.popFrame arena = (u, .ok ids) ∧ u.states = dying.foldl (fun states place =>
      (arena.descendants place).foldl (·.erase ·) (states.erase place)) t.states) ∨
    ∃ u violation, t.popFrame arena = (u, .error (.dangling violation)) ∧
      violation.rule = .outlived := by
  unfold Tracker.popFrame
  rw [frames]
  dsimp only
  split
  · rename_i violation dangling
    refine Or.inr ⟨_, violation, rfl, ?_⟩
    obtain ⟨record, -, found⟩ := List.exists_of_findSome?_eq_some dangling
    dsimp only at found
    split at found <;> cases found
    rfl
  · exact Or.inl ⟨_, _, rfl, rfl⟩

/-- Without the innermost scope, the bindings of the others are left. -/
theorem bindings_eq_append {scope : List (String × PlaceId)}
    {others : List (List (String × PlaceId))} (scopes : s.scopes = scope :: others) :
    s.bindings = others.flatten.reverse ++ scope.reverse := by
  rw [State.bindings, scopes, List.flatten_cons, List.reverse_append]

/-- The places of an outer binding are not forgotten with an inner scope. -/
theorem not_forgotten (outlined : s.Outlined) {scope : List (String × PlaceId)}
    {others : List (List (String × PlaceId))} (scopes : s.scopes = scope :: others)
    {level depth : Nat} {binding : String × PlaceId} (isHere : others.flatten.reverse[level]? = some binding)
    {id : PlaceId} (found : s.arena.behind binding.2 depth = some id) :
    ¬∃ place ∈ (scope.map (·.2)).reverse, id ∈ place :: s.arena.descendants place := by
  rintro ⟨place, member, onLine⟩
  have bindings := bindings_eq_append scopes
  obtain ⟨bound, -⟩ := List.getElem?_eq_some_iff.mp isHere
  have isThere : s.bindings[level]? = some binding := by
    rw [bindings, List.getElem?_append_left bound, isHere]
  obtain ⟨inner, isInner, rfl⟩ := List.mem_map.mp (List.mem_reverse.mp member)
  obtain ⟨row, isRow⟩ := List.getElem?_of_mem (List.mem_reverse.mpr isInner)
  have innerThere : s.bindings[others.flatten.reverse.length + row]? = some inner := by
    rw [bindings, List.getElem?_append_right (Nat.le_add_right _ _), Nat.add_sub_cancel_left, isRow]
  have isLocal := outlined.isLocal_at isThere
  have innerLocal := outlined.isLocal_at innerThere
  obtain ⟨-, belongs, -⟩ := (outlined.built.behind_iff isLocal).mp found
  have innerBelongs : s.arena.root id = inner.2 := by
    rcases List.mem_cons.mp onLine with rfl | below
    · exact innerLocal.root
    · have through := (outlined.built.mem_descendants_iff.mp below).1
      rw [← outlined.built.root_of_mem_chain through, innerLocal.root]
  have same := outlined.level_inj isThere innerThere (belongs.symm.trans innerBelongs)
  omega

/-- When the innermost scope is closed, its bindings are no longer part of what is known. -/
theorem closeScope_ends (outlined : s.Outlined) (inner : s.scopes.drop 1 ≠ [])
    (loc : Option Position) :
    Meets (closeScope ctx loc) s
      (fun _ after => after.arena = s.arena ∧
        (∀ id state, after.tracker.states[id]? = some state → id < s.arena.size) ∧
        after.outline = s.outline.cut (s.scopes.drop 1).flatten.length)
      fun fault _ => fault.OfBorrow := by
  obtain ⟨scope, outer, rest, scopes⟩ : ∃ scope outer rest, s.scopes = scope :: outer :: rest := by
    cases scopes : s.scopes with
    | nil => simp [scopes] at inner
    | cons scope others =>
        cases others with
        | nil => simp [scopes] at inner
        | cons outer rest => exact ⟨scope, outer, rest, rfl⟩
  have frames := outlined.frames
  rw [scopes, List.map_cons, List.map_cons, List.cons_append, List.cons_append] at frames
  simp only [closeScope, meets_bind, meets_get, meets_set]
  obtain ⟨u, ids, popped, states⟩ | ⟨u, violation, popped, rule⟩ := popFrame_cases s.arena frames
  · rw [popped]
    dsimp only
    have forgotten := getElem?_foldl_forget s.arena (scope.map (·.2)).reverse s.tracker.states
    simp only [← states] at forgotten
    refine ⟨rfl, fun id state isState => ?_, ?_⟩
    · rw [show ({ s with tracker := u, scopes := s.scopes.drop 1 } : State).tracker = u from rfl,
        forgotten] at isState
      split at isState
      · cases isState
      · exact outlined.known id state isState
    · have bindings := bindings_eq_append scopes
      rw [scopes, List.drop_one, List.tail_cons]
      refine congrArg₂ Outline.mk ?_ (funext fun level => funext fun depth => ?_)
      · change (outer :: rest).flatten.reverse.map _ = (s.bindings.map _).take _
        rw [bindings, ← List.map_take, ← List.length_reverse, List.take_left]
      · change (outer :: rest).flatten.reverse[level]?.bind _ =
          if _ then s.bindings[level]?.bind _ else none
        rw [bindings]
        split
        · rename_i bound
          rw [List.getElem?_append_left (by rwa [List.length_reverse])]
          refine Option.bind_congr fun binding isHere => ?_
          unfold Tracker.line
          refine Option.bind_congr fun id found => ?_
          rw [forgotten, if_neg (not_forgotten outlined scopes isHere found)]
        · rename_i beyond
          rw [List.getElem?_eq_none, Option.bind_none]
          rw [List.length_reverse]
          exact Nat.le_of_not_lt beyond
  · rw [popped]
    dsimp only
    rw [meets_throw]
    simp only [Fault.OfBorrow, Violation.report, Violation.diagnose, rule]
    decide

/-- A block ends with what is known of the bindings outside. -/
theorem endBlock_ends (outlined : mid.Outlined) (inner : mid.scopes.drop 1 ≠ [])
    (loc : Option Position) (keep : List BorrowId) :
    Meets (endBlock ctx loc keep) mid
      (fun _ after => after.arena = mid.arena ∧
        (∀ id state, after.tracker.states[id]? = some state → id < mid.arena.size) ∧
        after.outline = mid.outline.cut (mid.scopes.drop 1).flatten.length)
      fun fault _ => fault.OfBorrow := by
  have closed : ∀ last : State, Level mid last → Still mid last →
      Meets (closeScope ctx loc) last
        (fun _ after => after.arena = mid.arena ∧
          (∀ id state, after.tracker.states[id]? = some state → id < mid.arena.size) ∧
          after.outline = mid.outline.cut (mid.scopes.drop 1).flatten.length)
        fun fault _ => fault.OfBorrow := by
    intro last level still
    have lastOutlined : last.Outlined := by
      refine outlined.of_level level (still.arena ▸ outlined.built) ?_
      rw [still.arena, still.states]
      exact outlined.known
    have ends := @closeScope_ends ctx last lastOutlined (still.scopes ▸ inner) loc
    rw [State.outline_congr still.scopes still.arena still.states, still.scopes,
      still.arena] at ends
    exact ends
  rw [endBlock_eq, meets_bind]
  refine Meets.onOk (Meets.known (modifyTracker_stays (f := (·.endTemporaries keep)) rfl)
    (endTemporaries_level outlined.framed keep)) ?_
  rintro _ ended ⟨still, level⟩
  split
  · rw [meets_bind, meets_modify]
    have released := releaseDead_level level.framed
    exact closed _ (level.trans released) ⟨⟨still.arena, still.scopes⟩, still.states⟩
  · exact closed ended level still

theorem beginBlock_outlined (outlined : s.Outlined) :
    let next : State := { s with tracker := s.tracker.pushFrame, scopes := [] :: s.scopes }
    next.Outlined ∧ next.outline = s.outline := by
  intro next
  refine ⟨⟨beginBlock_framed outlined.framed, outlined.built, outlined.known, ?_,
    outlined.distinct⟩, rfl⟩
  change [] :: s.tracker.frames = _
  rw [outlined.frames]
  rfl

/-- A block is checked as the bare one is: what is declared inside goes out of scope. -/
theorem inScope_mirrors {x : Check Operand} {y : Bare Operand} (outlined : s.Outlined)
    (loc : Option Position)
    (inner : ∀ s : State, s.Outlined →
      Mirrors x y (fun value bare after => bare = value.bare ∧ Widened s after) s) :
    Mirrors (do
      beginBlock
      let value ← x
      endBlock ctx loc value.loans
      return value) y.inScope (fun value bare after => bare = value.bare ∧ Level s after) s := by
  obtain ⟨pushed, outline⟩ := beginBlock_outlined outlined
  have opened := inner _ pushed
  rw [Mirrors, beginBlock, meets_bind, meets_modify, meets_bind]
  refine Meets.mono opened ?_ ?_
  · rintro value mid ⟨_, passes, ⟨rfl, widened⟩, midOutlined⟩
    rw [outline] at passes
    have outer : mid.scopes.drop 1 = s.scopes := widened.scopes
    have inside : mid.scopes.drop 1 ≠ [] := outer ▸ outlined.framed.inside
    have ends := Meets.known (@endBlock_ends ctx mid midOutlined inside loc value.loans)
      (endBlock_level outlined.framed loc value.loans widened)
    rw [meets_bind]
    refine Meets.mono ends ?_ fun _ _ => Or.inl
    rintro _ after ⟨⟨arena, known, cut⟩, level⟩
    rw [meets_pure]
    have length : s.outline.decls.length = (mid.scopes.drop 1).flatten.length := by
      rw [outer, State.outline, List.length_map, State.bindings, List.length_reverse]
    refine ⟨value.bare, ?_, ⟨rfl, level⟩, outlined.of_level level (arena ▸ midOutlined.built) ?_⟩
    · change Option.bind (y s.outline) _ = _
      rw [passes, cut, ← length]
      rfl
    · rw [arena]
      exact known
  · rintro fault _ (ofBorrow | refuses)
    · exact Or.inl ofBorrow
    · rw [outline] at refuses
      refine Or.inr ?_
      change Option.bind (y s.outline) _ = _
      rw [refuses]
      rfl

end BorrowLang.Checker
