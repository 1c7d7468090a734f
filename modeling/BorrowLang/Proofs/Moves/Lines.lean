import BorrowLang.Proofs.Moves.Outline
import BorrowLang.Proofs.Places
import BorrowLang.Proofs.Tracking.Capabilities

/-!
# Lines of places

The places of one binding stand in a line, so that the number of boxes and references before it
tells each of them apart.  Capabilities and changes of move states are read off the line.
-/

set_option autoImplicit false

namespace BorrowLang

namespace Arena

variable {a b arena : Arena} {root place other : PlaceId} {depth : Nat}

/-- The place that many boxes and references behind another one, where it has been named. -/
def behind (arena : Arena) (root : PlaceId) : Nat → Option PlaceId
  | 0 => some root
  | depth + 1 => (arena.behind root depth).bind arena.child?

/-- The places of a binding are told apart by their depth. -/
theorem Built.behind_iff (built : arena.Built) (isLocal : arena.IsLocal root) :
    arena.behind root depth = some place ↔
      place < arena.size ∧ arena.root place = root ∧ (arena.chain place).length = depth + 1 := by
  constructor
  · intro found
    induction depth generalizing place with
    | zero =>
        obtain rfl := Option.some.inj found
        exact ⟨isLocal.1, isLocal.root, by rw [chain_of_slot isLocal.2, List.length_singleton]⟩
    | succ depth ih =>
        obtain ⟨parent, isParent, leads⟩ := Option.bind_eq_some_iff.mp found
        obtain ⟨-, root, length⟩ := ih isParent
        have points := built.child?_iff.mp leads
        refine ⟨lt_size_of_parent? points, ?_, ?_⟩
        · rw [root_of_parent? points (built.parent_lt points), root]
        · rw [built.chain_of_target points, List.length_append, length, List.length_singleton]
  · rintro ⟨there, belongs, length⟩
    induction place using built.upward generalizing depth with
    | slot place isSlot =>
        rw [chain_of_slot isSlot, List.length_singleton] at length
        obtain rfl : depth = 0 := by omega
        rw [root_of_parent?_none isSlot] at belongs
        rw [behind, belongs]
    | target place parent points ih =>
        have up := built.parent_lt points
        rw [root_of_parent? points up] at belongs
        rw [built.chain_of_target points, List.length_append, List.length_singleton] at length
        obtain ⟨above, rfl⟩ : ∃ above, depth = above + 1 := by
          have := List.length_pos_of_mem (arena.mem_chain_self parent)
          exact ⟨depth - 1, by omega⟩
        rw [behind, ih (Nat.lt_trans up there) belongs (by omega), Option.bind_some]
        exact built.child?_of_parent? points

theorem Built.behind_inj (built : arena.Built) {otherRoot : PlaceId} {otherDepth : Nat}
    (isLocal : arena.IsLocal root) (otherLocal : arena.IsLocal otherRoot)
    (found : arena.behind root depth = some place)
    (foundOther : arena.behind otherRoot otherDepth = some place) :
    otherRoot = root ∧ otherDepth = depth := by
  obtain ⟨-, belongs, length⟩ := (built.behind_iff isLocal).mp found
  obtain ⟨-, otherBelongs, otherLength⟩ := (built.behind_iff otherLocal).mp foundOther
  exact ⟨otherBelongs.symm.trans belongs, by omega⟩

/-- Every place stands somewhere behind its slot. -/
theorem Built.exists_behind (built : arena.Built) (isLocal : arena.IsLocal (arena.root place))
    (there : place < arena.size) :
    ∃ depth, arena.behind (arena.root place) depth = some place := by
  have := List.length_pos_of_mem (arena.mem_chain_self place)
  exact ⟨(arena.chain place).length - 1,
    (built.behind_iff isLocal).mpr ⟨there, rfl, by omega⟩⟩

/-- Where a place stands does not change when more places are named. -/
theorem Built.behind_grows (built : a.Built) (builtLater : b.Built) (grows : Grows a b)
    (isLocal : a.IsLocal root) (there : place < a.size) :
    b.behind root depth = some place ↔ a.behind root depth = some place := by
  have isLocalLater : b.IsLocal root :=
    ⟨Nat.lt_of_lt_of_le isLocal.1 grows.size, (grows.parent isLocal.1).trans isLocal.2⟩
  rw [built.behind_iff isLocal, builtLater.behind_iff isLocalLater, grows.root there,
    grows.chain there]
  simp only [there, Nat.lt_of_lt_of_le there grows.size]

/-- The way to a place and the places behind it make up its line. -/
theorem Built.mem_line_iff (built : arena.Built) (there : place < arena.size) :
    other ∈ arena.chain place ++ arena.descendants place ↔
      other < arena.size ∧ arena.root other = arena.root place := by
  rw [List.mem_append]
  constructor
  · rintro (above | below)
    · exact ⟨Nat.lt_of_le_of_lt (le_of_mem_chain above) there, built.root_of_mem_chain above⟩
    · obtain ⟨through, -⟩ := built.mem_descendants_iff.mp below
      exact ⟨built.lt_size_of_mem_descendants below, (built.root_of_mem_chain through).symm⟩
  · rintro ⟨-, same⟩
    rcases Nat.lt_or_ge place other with deeper | above
    · refine Or.inr (built.mem_descendants_iff.mpr ⟨?_, Nat.ne_of_lt deeper⟩)
      exact built.mem_chain_of_root_eq same.symm (Nat.le_of_lt deeper)
    · exact Or.inl (built.mem_chain_of_root_eq same above)

/-- Of two places of one binding, the one with the shorter way is on the way to the other. -/
theorem Built.mem_chain_iff_length (built : arena.Built)
    (same : arena.root other = arena.root place) :
    other ∈ arena.chain place ↔ (arena.chain other).length ≤ (arena.chain place).length := by
  refine ⟨fun above => (built.chain_prefix_iff.mpr above).length_le, fun shorter => ?_⟩
  rcases Nat.le_total other place with le | ge
  · exact built.mem_chain_of_root_eq same le
  · have goesOn := built.chain_prefix_iff.mpr (built.mem_chain_of_root_eq same.symm ge)
    have whole : arena.chain place = arena.chain other := goesOn.eq_of_length_le shorter
    rw [whole]
    exact arena.mem_chain_self other

/-- A place behind another one of the same binding has the longer way. -/
theorem Built.mem_descendants_iff_length (built : arena.Built)
    (same : arena.root other = arena.root place) :
    other ∈ arena.descendants place ↔
      (arena.chain place).length < (arena.chain other).length := by
  rw [built.mem_descendants_iff, built.mem_chain_iff_length same.symm]
  refine ⟨fun ⟨shorter, apart⟩ => Nat.lt_of_le_of_ne shorter fun even => apart ?_,
    fun shorter => ⟨Nat.le_of_lt shorter, fun here => ?_⟩⟩
  · have onTheWay := (built.mem_chain_iff_length same.symm).mpr (Nat.le_of_eq even)
    have back := (built.mem_chain_iff_length same).mpr (Nat.le_of_eq even.symm)
    exact Nat.le_antisymm (le_of_mem_chain onTheWay) (le_of_mem_chain back)
  · rw [here] at shorter
    exact Nat.lt_irrefl _ shorter

/-- The places on the way to a place are those of its binding with a shorter way. -/
theorem Built.mem_dropLast_chain_iff (built : arena.Built)
    (same : arena.root other = arena.root place) :
    other ∈ (arena.chain place).dropLast ↔
      (arena.chain other).length < (arena.chain place).length := by
  cases points : arena.parent? place with
  | none =>
      have := List.length_pos_of_mem (arena.mem_chain_self other)
      simp only [chain_of_slot points, List.dropLast_singleton, List.length_singleton,
        List.not_mem_nil, false_iff]
      omega
  | some parent =>
      have sameParent : arena.root other = arena.root parent := by
        rw [same, root_of_parent? points (built.parent_lt points)]
      rw [built.chain_of_target points, List.dropLast_concat,
        built.mem_chain_iff_length sameParent, List.length_append, List.length_singleton,
        Nat.lt_succ_iff]

/-! ### Types along the line -/

open Moves

/-- What is known of a binding from its slot. -/
def decl (arena : Arena) (name : String) (root : PlaceId) : Decl :=
  ⟨name, arena.isMut root, arena.ty? root⟩

theorem Laid.ty?_behind (laid : arena.Laid) (name : String)
    (found : arena.behind root depth = some place) :
    arena.ty? place = (arena.decl name root).tyAt depth := by
  induction depth generalizing place with
  | zero =>
      obtain rfl := Option.some.inj found
      rfl
  | succ depth ih =>
      obtain ⟨parent, isParent, leads⟩ := Option.bind_eq_some_iff.mp found
      obtain ⟨pointer, ty, known, points, childTy⟩ := laid.typed parent place leads
      rw [Decl.tyAt, ← ih isParent, known, Option.bind_some, points, childTy]

theorem Built.steps_behind (built : arena.Built) (laid : arena.Laid) (isLocal : arena.IsLocal root)
    (name : String) (found : arena.behind root depth = some place) :
    arena.steps place = (arena.decl name root).steps depth := by
  induction depth generalizing place with
  | zero =>
      obtain rfl := Option.some.inj found
      have noVia : arena.via? root = none := by
        cases there : arena.place? root with
        | none => rw [via?, there, Option.bind_none]
        | some here =>
            have isSlot := isLocal.2
            rw [parent?, there, Option.bind_some] at isSlot
            rw [via?, there, Option.bind_some]
            cases kind : here.kind with
            | «local» => simp [Place.via, kind]
            | target => simp [Place.parent, kind] at isSlot
      rw [steps, chain_of_slot isLocal.2]
      simp [noVia, Decl.steps]
  | succ depth ih =>
      obtain ⟨parent, isParent, leads⟩ := Option.bind_eq_some_iff.mp found
      obtain ⟨pointer, known, via⟩ := laid.via parent place leads
      have last : (arena.decl name root).tyAt depth = some pointer := by
        rw [← laid.ty?_behind name isParent, known]
      have before := ih isParent
      rw [steps] at before
      rw [steps, built.chain_of_target (built.child?_iff.mp leads), List.filterMap_append, before,
        Decl.steps, Decl.steps, List.range_succ, List.filterMap_append]
      simp [via, last]

end Arena

namespace Tracker

variable {t : Tracker} {arena : Arena} {root place : PlaceId} {depth : Nat}

/-- What is known of the line of places of a binding. -/
def line (t : Tracker) (arena : Arena) (root : PlaceId) (depth : Nat) : Option MoveState :=
  (arena.behind root depth).bind (t.states[·]?)

theorem line_of_behind (found : arena.behind root depth = some place) :
    t.line arena root depth = t.states[place]? := by
  rw [line, found, Option.bind_some]

/-- All of a line has some property of states exactly when its places have. -/
theorem forall_line_iff (built : arena.Built) (isLocal : arena.IsLocal root)
    (state : MoveState) : (∀ depth, t.line arena root depth ≠ some state) ↔
      ∀ place < arena.size, arena.root place = root → t.states[place]? ≠ some state := by
  constructor
  · rintro never place there rfl
    obtain ⟨depth, found⟩ := built.exists_behind isLocal there
    rw [← line_of_behind found]
    exact never depth
  · intro never depth
    cases found : arena.behind root depth with
    | none => simp [line, found]
    | some place =>
        obtain ⟨there, belongs, -⟩ := (built.behind_iff isLocal).mp found
        rw [line_of_behind found]
        exact never place there belongs

theorem available_iff (built : arena.Built) (isLocal : arena.IsLocal root)
    (found : arena.behind root depth = some place) :
    t.Available arena place ↔
      t.line arena root 0 ≠ some .uninit ∧ ∀ depth, t.line arena root depth ≠ some .moved := by
  obtain ⟨there, belongs, -⟩ := (built.behind_iff isLocal).mp found
  have unmoved : (∀ id ∈ arena.chain place ++ arena.descendants place,
      t.states[id]? ≠ some .moved) ↔ ∀ depth, t.line arena root depth ≠ some .moved := by
    simp only [forall_line_iff built isLocal, built.mem_line_iff there, belongs, and_imp]
  rw [← unmoved, line_of_behind (rfl : arena.behind root 0 = some root)]
  subst belongs
  exact ⟨fun available => ⟨available.initialized, available.unmoved⟩,
    fun ⟨initialized, unmoved⟩ => ⟨initialized, unmoved⟩⟩

/-! ### Owners on the way -/

theorem requireOwners_eq_ok {owners : List PlaceId} : t.requireOwners place owners = .ok () ↔
    ∀ owner ∈ owners, t.states[owner]? ≠ some .uninit ∧ t.states[owner]? ≠ some .moved := by
  induction owners with
  | nil => simp [requireOwners]
  | cons owner rest ih =>
      rw [requireOwners, List.forall_mem_cons, ← ih]
      split <;> simp_all

theorem requireOwners_chain (built : arena.Built) (isLocal : arena.IsLocal root)
    (found : arena.behind root depth = some place) :
    t.requireOwners place (arena.chain place).dropLast = .ok () ↔
      ∀ above < depth, t.line arena root above ≠ some .uninit ∧
        t.line arena root above ≠ some .moved := by
  obtain ⟨there, belongs, length⟩ := (built.behind_iff isLocal).mp found
  rw [requireOwners_eq_ok]
  constructor
  · intro owners above less
    cases isOwner : arena.behind root above with
    | none => simp [line, isOwner]
    | some owner =>
        obtain ⟨-, ownerRoot, ownerLength⟩ := (built.behind_iff isLocal).mp isOwner
        rw [line_of_behind isOwner]
        refine owners owner ?_
        rw [built.mem_dropLast_chain_iff (ownerRoot.trans belongs.symm)]
        omega
  · intro along owner member
    have onTheWay : owner ∈ arena.chain place := List.dropLast_subset _ member
    have ownerRoot : arena.root owner = root := (built.root_of_mem_chain onTheWay).trans belongs
    have ownerThere := Nat.lt_of_le_of_lt (Arena.le_of_mem_chain onTheWay) there
    rw [built.mem_dropLast_chain_iff (ownerRoot.trans belongs.symm)] at member
    subst ownerRoot
    obtain ⟨above, isOwner⟩ := built.exists_behind isLocal ownerThere
    obtain ⟨-, -, ownerLength⟩ := (built.behind_iff isLocal).mp isOwner
    rw [← line_of_behind isOwner]
    exact along above (by omega)

/-! ### Changes -/

theorem getElem?_foldl_erase (places : List PlaceId) (states : Std.TreeMap PlaceId MoveState)
    (id : PlaceId) :
    (places.foldl (·.erase ·) states)[id]? = if id ∈ places then none else states[id]? := by
  induction places generalizing states with
  | nil => simp
  | cons place rest ih =>
      rw [List.foldl_cons, ih, Std.TreeMap.getElem?_erase]
      by_cases here : place = id
      · simp [here]
      · have other : compare place id ≠ .eq := fun same => here (Std.LawfulEqCmp.eq_of_compare same)
        simp [other, Ne.symm here]

theorem getElem?_insert (states : Std.TreeMap PlaceId MoveState) (place id : PlaceId)
    (state : MoveState) :
    (states.insert place state)[id]? = if id = place then some state else states[id]? := by
  rw [Std.TreeMap.getElem?_insert]
  by_cases here : place = id
  · simp [here]
  · have other : compare place id ≠ .eq := fun same => here (Std.LawfulEqCmp.eq_of_compare same)
    simp [other, Ne.symm here]

section Lines

variable (built : arena.Built) (isLocal : arena.IsLocal root)
  (found : arena.behind root depth = some place)
  {other : PlaceId} (otherLocal : arena.IsLocal other)
include built isLocal found otherLocal

theorem line_markMoved (step : Nat) : (t.markMoved place).line arena other step =
    if other = root ∧ step = depth then some .moved else t.line arena other step := by
  cases there : arena.behind other step with
  | none =>
      rw [if_neg, line, line, there]
      · rfl
      · rintro ⟨rfl, rfl⟩
        cases found.symm.trans there
  | some id =>
      rw [line_of_behind there, line_of_behind there, markMoved, getElem?_insert]
      refine if_congr ⟨?_, ?_⟩ rfl rfl
      · rintro rfl
        exact built.behind_inj isLocal otherLocal found there
      · rintro ⟨rfl, rfl⟩
        exact Option.some.inj (there.symm.trans found)

theorem line_markLive (step : Nat) : (t.markLive arena place).line arena other step =
    if other = root ∧ depth ≤ step then if step = depth then some .live else none
    else t.line arena other step := by
  cases there : arena.behind other step with
  | none =>
      rw [line, line, there, Option.bind_none, Option.bind_none]
      split
      · rename_i here
        rw [if_neg]
        rintro rfl
        rw [here.1] at there
        cases found.symm.trans there
      · rfl
  | some id =>
      obtain ⟨-, belongs, length⟩ := (built.behind_iff isLocal).mp found
      obtain ⟨-, belongsOther, lengthOther⟩ := (built.behind_iff otherLocal).mp there
      rw [line_of_behind there, line_of_behind there, markLive, getElem?_foldl_erase,
        getElem?_insert]
      by_cases same : other = root
      · subst same
        have deeper : id ∈ arena.descendants place ↔ depth < step := by
          rw [built.mem_descendants_iff_length (belongsOther.trans belongs.symm)]
          omega
        rcases Nat.lt_trichotomy step depth with above | rfl | below
        · have apart : id ≠ place := by
            rintro rfl
            omega
          rw [if_neg (mt deeper.mp (Nat.lt_asymm above)), if_neg apart, if_neg (by omega)]
        · obtain rfl := Option.some.inj (there.symm.trans found)
          rw [if_neg (mt deeper.mp (Nat.lt_irrefl _)), if_pos rfl, if_pos ⟨rfl, Nat.le_refl _⟩,
            if_pos rfl]
        · rw [if_pos (deeper.mpr below), if_pos ⟨rfl, Nat.le_of_lt below⟩, if_neg (by omega)]
      · have outside : id ∉ arena.descendants place := fun member =>
          same (belongsOther.symm.trans
            ((built.root_of_mem_chain (built.mem_descendants_iff.mp member).1).symm.trans belongs))
        have apart : id ≠ place := fun here =>
          same (belongsOther.symm.trans ((congrArg arena.root here).trans belongs))
        rw [if_neg outside, if_neg apart, if_neg fun here => same here.1]

end Lines

theorem line_join (t u : Tracker) (arena : Arena) (root : PlaceId) (depth : Nat) :
    (t.join u).line arena root depth =
      MoveState.merge (t.line arena root depth) (u.line arena root depth) := by
  unfold line
  cases arena.behind root depth with
  | none => rfl
  | some place => exact getElem?_states_join t u place

/-- Naming more places does not change what is known of a line. -/
theorem line_grows {later : Arena} (built : arena.Built) (builtLater : later.Built)
    (grows : arena.Grows later) (isLocal : arena.IsLocal root)
    (known : ∀ id state, t.states[id]? = some state → id < arena.size) (depth : Nat) :
    t.line later root depth = t.line arena root depth := by
  refine Option.ext fun state => ?_
  simp only [line, Option.bind_eq_some_iff]
  refine exists_congr fun place => and_congr_left fun isState => ?_
  exact built.behind_grows builtLater grows isLocal (known place state isState)

end Tracker

end BorrowLang
