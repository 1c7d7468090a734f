import BorrowLang.Proofs.Referents
import BorrowLang.Proofs.Scoping.Shelter
import BorrowLang.Proofs.Typing.Passes

/-!
# Checks and open scopes

What the steps of a check do to the open scopes.  Whatever is checked, the bindings of a scope are
declared in the frame of the tracker that was opened with it, and all borrows are sheltered by the open
frames; most checks leave scopes and frames exactly as they were.
-/

set_option autoImplicit false

namespace BorrowLang.Checker

open Tracker (HandedOn)

variable {α : Type} {ctx : Context} {s mid after : State}

/-- The frame of a scope declares what is bound in the scope. -/
def Declares (scope : List (String × PlaceId)) (frame : List PlaceId) : Prop :=
  ∀ binding ∈ scope, binding.2 ∈ frame

/-- Each open scope has a frame of its own, inside that of the function; the borrows are sheltered by
the frames. -/
structure State.Framed (s : State) : Prop where
  laid : s.arena.Laid
  sheltered : s.tracker.Sheltered s.arena
  inside : s.scopes ≠ []
  bound : List.Forall₂ Declares (s.scopes ++ [[]]) s.tracker.frames

theorem State.Framed.length (framed : s.Framed) :
    s.tracker.frames.length = s.scopes.length + 1 := by
  rw [← framed.bound.length_eq, List.length_append, List.length_singleton]

theorem mem_flatten_of_declares {scopes : List (List (String × PlaceId))}
    {frames : List (List PlaceId)} (bound : List.Forall₂ Declares scopes frames)
    {scope : List (String × PlaceId)} (member : scope ∈ scopes) {binding : String × PlaceId}
    (inScope : binding ∈ scope) : binding.2 ∈ frames.flatten := by
  induction bound with
  | nil => exact absurd member List.not_mem_nil
  | cons declares rest ih =>
      rw [List.flatten_cons]
      rcases List.mem_cons.mp member with rfl | inRest
      · exact List.mem_append_left _ (declares binding inScope)
      · exact List.mem_append_right _ (ih inRest)

/-- The place belongs to a binding of an open scope. -/
structure State.Owns (s : State) (place : PlaceId) : Prop where
  there : place < s.arena.size
  opened : s.arena.root place ∈ s.tracker.frames.flatten

/-- The same scopes and frames are open as before, and all places are where they were. -/
structure Level (s after : State) : Prop where
  framed : after.Framed
  ways : s.arena.SameWays after.arena
  frames : after.tracker.frames = s.tracker.frames
  scopes : after.scopes = s.scopes

namespace Level

theorem refl (framed : s.Framed) : Level s s := ⟨framed, .refl _, rfl, rfl⟩

theorem trans (first : Level s mid) (second : Level mid after) : Level s after where
  framed := second.framed
  ways := first.ways.trans second.ways
  frames := second.frames.trans first.frames
  scopes := second.scopes.trans first.scopes

/-- What leaves scopes as they are may follow on what has done so. -/
theorem onward {x : Check α} (level : Level s mid)
    (next : Passes x mid fun _ after => Level mid after) :
    Passes x mid fun _ after => Level s after :=
  next.mono fun _ _ later => level.trans later

theorem owns (level : Level s after) {place : PlaceId} (owns : s.Owns place) : after.Owns place where
  there := Nat.lt_of_lt_of_le owns.there level.ways.size
  opened := by
    rw [level.ways.root owns.there, level.frames]
    exact owns.opened

/-- Only the tracker has changed, and not its frames. -/
theorem of_sheltered (framed : s.Framed) (arena : after.arena = s.arena)
    (scopes : after.scopes = s.scopes) (frames : after.tracker.frames = s.tracker.frames)
    (sheltered : after.tracker.Sheltered s.arena) : Level s after where
  framed :=
    ⟨arena ▸ framed.laid, arena ▸ sheltered, scopes ▸ framed.inside,
      scopes ▸ frames ▸ framed.bound⟩
  ways := arena ▸ .refl _
  frames := frames
  scopes := scopes

theorem of_handedOn (framed : s.Framed) (arena : after.arena = s.arena)
    (scopes : after.scopes = s.scopes) (frames : after.tracker.frames = s.tracker.frames)
    (each : HandedOn s.tracker.frames s.tracker.borrows after.tracker.borrows) : Level s after :=
  of_sheltered framed arena scopes frames (framed.sheltered.handOn frames each)

/-- Only more places or types are known. -/
theorem of_arena (framed : s.Framed) (laid : after.arena.Laid)
    (ways : s.arena.SameWays after.arena) (tracker : after.tracker = s.tracker)
    (scopes : after.scopes = s.scopes) : Level s after where
  framed :=
    ⟨laid, tracker ▸ framed.sheltered.grow ways, scopes ▸ framed.inside,
      scopes ▸ tracker ▸ framed.bound⟩
  ways := ways
  frames := tracker ▸ rfl
  scopes := scopes

/-- Neither places nor the tracker have changed. -/
theorem of_same (framed : s.Framed) (arena : after.arena = s.arena)
    (tracker : after.tracker = s.tracker) (scopes : after.scopes = s.scopes) : Level s after :=
  of_arena framed (arena ▸ framed.laid) (arena ▸ .refl _) tracker scopes

end Level

/-! ### Places -/

/-- What a name is bound to is declared in an open frame. -/
theorem mem_frames_of_lookup? (framed : s.Framed) {name : String} {place : PlaceId}
    (found : lookup? s.scopes name = some place) : place ∈ s.tracker.frames.flatten := by
  obtain ⟨scope, member, inScope⟩ := List.exists_of_findSome?_eq_some found
  obtain ⟨binding, isBinding, rfl⟩ := Option.map_eq_some_iff.mp inScope
  have isBound := List.mem_of_find?_eq_some isBinding
  exact mem_flatten_of_declares framed.bound (List.mem_append_left _ member) isBound

theorem lookup_owns (framed : s.Framed) (loc : Option Position) (name : String) :
    Passes (lookup ctx loc name) s fun place after => after = s ∧ s.Owns place := by
  refine (lookup_passes loc name).mono ?_
  intro place after met
  obtain ⟨rfl, found⟩ := met
  refine ⟨rfl, ?_⟩
  have opened := mem_frames_of_lookup? framed found
  have isLocal := framed.sheltered.locals _ opened
  exact ⟨isLocal.1, isLocal.root.symm ▸ opened⟩

theorem target_level (framed : s.Framed) {place : PlaceId} (owns : s.Owns place) {pointer ty : Ty}
    (known : s.arena.ty? place = some pointer) (points : pointer.pointee? = some ty) :
    Passes (target place (viaOf pointer) ty) s fun id after => Level s after ∧ after.Owns id := by
  simp only [target, meets_bind, meets_get, meets_set, meets_pure]
  obtain ⟨laid, ways, there, root⟩ := Arena.target_laid framed.laid known points
  exact ⟨.of_arena framed laid ways rfl rfl, there, root ▸ owns.opened⟩

theorem placeOf_level (framed : s.Framed) (e : Expr) :
    Passes (placeOf ctx e) s fun place after => Level s after ∧ after.Owns place := by
  induction e using placeOf.induct with
  | case1 loc ident =>
      simp only [placeOf]
      refine (lookup_owns framed loc ident).mono ?_
      intro place after met
      obtain ⟨rfl, owns⟩ := met
      exact ⟨.refl framed, owns⟩
  | case2 loc inner operand isMut ih =>
      simp only [placeOf]
      rw [Passes, meets_bind]
      refine ih.mono fun place mid known => ?_
      rw [meets_bind, meets_get]
      split <;> simp only [meets_bind, meets_pure]
      · refine (guard_passes inner _).mono ?_
        rintro - after rfl
        refine (guard_passes inner _).mono ?_
        rintro - after rfl
        exact known
      · refine (guard_passes inner _).mono ?_
        rintro - after rfl
        exact known
  | case3 loc operand notBorrow ih =>
      simp only [placeOf, meets_bind]
      refine ih.mono ?_
      intro base mid met
      obtain ⟨level, owns⟩ := met
      refine (typeOf_passes operand.loc base).mono ?_
      intro pointer after met
      obtain ⟨rfl, known⟩ := met
      split
      · trivial
      · rename_i inner points
        refine (target_level level.framed owns known points).mono fun place after named => ?_
        exact ⟨level.trans named.1, named.2⟩
  | case4 e notName notBorrow notDeref =>
      rw [placeOf]
      · trivial
      · exact notName
      · exact notBorrow
      · exact notDeref

theorem usePlace_level (framed : s.Framed) (loc : Option Position) (place : PlaceId) :
    Passes (usePlace ctx loc place) s fun _ after => Level s after := by
  simp only [usePlace, meets_bind]
  refine (typeOf_passes loc place).mono ?_
  intro ty after met
  obtain ⟨rfl, -⟩ := met
  split
  · simp only [meets_bind]
    refine (requireRead_passes loc place).mono ?_
    rintro - after rfl
    split
    · exact .of_handedOn framed rfl rfl rfl (Tracker.cloneHeld_handedOn _ _ _)
    · exact .refl framed
  · simp only [meets_bind, meets_get, meets_set, meets_pure]
    refine (guard_passes loc _).mono ?_
    rintro - after rfl
    split
    · exact .of_handedOn framed rfl rfl rfl (Tracker.detach_handedOn _ _)
    · exact .of_handedOn framed rfl rfl rfl (.refl _)

theorem borrow_level (framed : s.Framed) (loc : Option Position) {place : PlaceId}
    (owns : s.Owns place) (kind : BorrowKind) :
    Passes (borrow ctx loc place kind) s fun _ after => Level s after := by
  simp only [borrow, meets_bind, meets_get, meets_set, meets_pure]
  cases begun : s.tracker.beginBorrow s.arena s.nextBorrow place kind none false loc with
  | error violation => simp [guard]
  | ok tracker =>
      obtain ⟨_, -, same⟩ := bind_eq_ok.mp begun
      obtain rfl := Except.ok.inj same
      exact .of_sheltered framed rfl rfl rfl (framed.sheltered.push owns.there rfl owns.opened)

theorem reborrow?_level (framed : s.Framed) (arg : Expr) (param : Ty) :
    Passes (reborrow? ctx arg param) s fun _ after => Level s after := by
  unfold reborrow?
  split
  · split
    · simp only [meets_bind, meets_get]
      refine (placeOf_level framed arg).mono ?_
      intro place mid met
      obtain ⟨level, owns⟩ := met
      split
      · rename_i inner known
        simp only [meets_bind, meets_pure]
        refine (requireRead_passes arg.loc place).mono ?_
        rintro - after rfl
        refine (target_level level.framed owns known rfl).mono ?_
        intro id named met
        obtain ⟨levelNamed, ownsTarget⟩ := met
        have whole := level.trans levelNamed
        exact whole.onward (borrow_level levelNamed.framed arg.loc ownsTarget .exclusive)
      · exact level
    · exact .refl framed
  · exact .refl framed

/-! ### Storing borrows -/

theorem modifyTracker_level (framed : s.Framed) {f : Tracker → Tracker}
    (frames : (f s.tracker).frames = s.tracker.frames)
    (each : HandedOn s.tracker.frames s.tracker.borrows (f s.tracker).borrows) :
    Passes (modifyTracker f) s fun _ after => Level s after := by
  simp only [modifyTracker, meets_modify]
  exact .of_handedOn framed rfl rfl frames each

theorem storeLoans_level (framed : s.Framed) {holder : PlaceId}
    (opened : holder ∈ s.tracker.frames.flatten) (loans : List BorrowId) :
    Passes (storeLoans ctx holder loans) s fun _ after => Level s after := by
  simp only [storeLoans, meets_modify]
  exact .of_handedOn framed rfl rfl rfl (Tracker.adopt_handedOn _ loans _ opened)

theorem shareWith_level (framed : s.Framed) (loans : List BorrowId) {holders : List PlaceId}
    (opened : ∀ holder ∈ holders, holder ∈ s.tracker.frames.flatten) :
    Passes (shareWith ctx loans holders) s fun _ after => Level s after := by
  induction holders generalizing s with
  | nil => exact .refl framed
  | cons holder rest ih =>
      simp only [shareWith, meets_bind, meets_get, meets_set]
      obtain ⟨each, frames⟩ := Tracker.shareEach_handedOn (opened holder List.mem_cons_self)
        (s.pins ctx holder) (loans.mergeSort fun a b => decide (a ≤ b)) s.tracker s.nextBorrow
      let shared := s.tracker.share s.nextBorrow loans holder (s.pins ctx holder)
      have level : Level s { s with tracker := shared.1, nextBorrow := shared.2.1 } :=
        .of_handedOn framed rfl rfl frames each
      refine level.onward (ih level.framed fun other member => ?_)
      rw [level.frames]
      exact opened other (List.mem_cons_of_mem _ member)

/-- What belongs to a binding belongs to one of an open scope. -/
def State.Roots (s : State) (place : PlaceId) : Prop :=
  s.arena.innermostRef place = none → s.arena.root place ∈ s.tracker.frames.flatten

/-- The bindings whose storage a place may be are those of open scopes: they are found through
borrows, and what these borrow belongs to such a binding unless it is behind a reference again. -/
theorem referents_opened (framed : s.Framed) {places : List PlaceId}
    (roots : ∀ place ∈ places, s.Roots place) {holders : List PlaceId}
    (known : unionReferents s.referents places = .ok (some holders)) :
    ∀ holder ∈ holders, holder ∈ s.tracker.frames.flatten := by
  intro holder member
  obtain ⟨place, isPlace, found, isFound, inFound⟩ := mem_of_unionReferents known member
  have onward : ∀ other, s.Roots other →
      ∀ record ∈ s.tracker.heldBy (s.arena.root other), s.Roots record.place :=
    fun _ _ record inHeld =>
      (framed.sheltered.records record (List.mem_of_mem_filter inHeld)).root
  obtain ⟨target, rootsTarget, owned, rfl⟩ :=
    root_of_referents onward _ (roots place isPlace) isFound inFound
  exact rootsTarget owned

theorem storeInto_level (framed : s.Framed) {places : List PlaceId}
    (roots : ∀ place ∈ places, s.Roots place) (loans : List BorrowId) (loc : Option Position) :
    Passes (storeInto ctx places loans loc) s fun _ after => Level s after := by
  simp only [storeInto, meets_bind, meets_get]
  split
  · trivial
  · simp only [meets_bind, meets_pure]
    refine (checkEscape_passes loans loc true).mono ?_
    rintro - after rfl
    exact .refl framed
  · rename_i holders known
    simp only [meets_bind, meets_pure]
    refine shareWith_level framed loans fun holder member => ?_
    exact referents_opened framed roots known holder (List.mem_mergeSort.mp member)

theorem storeArguments_level (framed : s.Framed) (loans : List (List BorrowId))
    (slots : List (Nat × Ty × Option Position)) :
    Passes (storeArguments ctx loans slots) s fun _ after => Level s after := by
  induction slots generalizing s with
  | nil => exact .refl framed
  | cons slot rest ih =>
      obtain ⟨index, param, loc⟩ := slot
      have next : ∀ mid, Level s mid →
          Passes (storeArguments ctx loans rest) mid fun _ after => Level s after :=
        fun mid first => first.onward (ih first.framed)
      simp only [storeArguments]
      split
      · split
        · simp only [meets_bind, meets_get]
          split
          · simp only [meets_bind]
            refine (storeInto_level framed (fun place member => ?_) _ _).mono
              fun _ mid first => next mid first
            obtain ⟨id, -, isPlace⟩ := List.mem_filterMap.mp member
            obtain ⟨record, found, rfl⟩ := Option.map_eq_some_iff.mp isPlace
            exact (framed.sheltered.records record (List.mem_of_find?_eq_some found)).root
          · exact next s (.refl framed)
        · exact next s (.refl framed)
      · exact next s (.refl framed)

end BorrowLang.Checker
