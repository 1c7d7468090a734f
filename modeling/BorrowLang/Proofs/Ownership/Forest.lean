import BorrowLang.Heap
import Mathlib.Data.List.Perm.Subperm
import Mathlib.Logic.Function.Basic

/-!
# Ownership through boxes

A cell that holds a box owns the cell that the box points at.  The roots are the cells that have an
owner elsewhere: a scope, or the value of a box that is held by no cell.  From every cell the owned
cells form a chain, and no two chains of roots meet.
-/

set_option autoImplicit false

namespace BorrowLang

def Value.box? : Value → Option Addr
  | .box addr => some addr
  | _ => none

theorem Value.box?_eq_some {value : Value} {addr : Addr} :
    value.box? = some addr ↔ value = .box addr := by
  cases value <;> simp [Value.box?]

def Cell.box? (cell : Cell) : Option Addr := cell.liveValue?.bind Value.box?

/-- The cells of a heap as a function. -/
abbrev Cells := Addr → Option Cell

namespace Ownership

variable {cells after : Cells} {a b root : Addr} {chain other roots : List Addr}

/-- The cell that the cell at an address owns. -/
def boxAt (cells : Cells) (addr : Addr) : Option Addr := (cells addr).bind Cell.box?

/-- The cells from one on, each the owner of the next; the last one owns none. -/
inductive Chain (cells : Cells) : Addr → List Addr → Prop
  | last {a : Addr} : (cells a).isSome → boxAt cells a = none → Chain cells a [a]
  | next {a b : Addr} {chain : List Addr} :
      boxAt cells a = some b → Chain cells b chain → Chain cells a (a :: chain)

theorem isSome_of_boxAt (owns : boxAt cells a = some b) : (cells a).isSome := by
  cases found : cells a with
  | none => simp [boxAt, found] at owns
  | some cell => rfl

namespace Chain

theorem head_mem (run : Chain cells a chain) : a ∈ chain := by
  cases run <;> simp

theorem present (run : Chain cells a chain) : ∀ x ∈ chain, (cells x).isSome := by
  induction run with
  | last here alone => simpa using here
  | next owns rest ih => simpa using ⟨isSome_of_boxAt owns, ih⟩

theorem unique (run : Chain cells a chain) (second : Chain cells a other) : chain = other := by
  induction run generalizing other with
  | last here alone =>
      cases second with
      | last _ _ => rfl
      | next owns _ => simp [alone] at owns
  | next owns rest ih =>
      cases second with
      | last _ alone => simp [alone] at owns
      | next owns' rest' =>
          obtain rfl := Option.some.inj (owns.symm.trans owns')
          rw [ih rest']

/-- The chain of a later cell is a part of the chain. -/
theorem suffix (run : Chain cells a chain) (member : b ∈ chain) :
    ∃ rest, Chain cells b rest ∧ rest <:+ chain := by
  induction run with
  | last here alone =>
      obtain rfl := List.mem_singleton.mp member
      exact ⟨_, .last here alone, List.suffix_refl _⟩
  | @next a c chain owns rest ih =>
      rcases List.mem_cons.mp member with rfl | later
      · exact ⟨_, .next owns rest, List.suffix_refl _⟩
      · obtain ⟨tail, tailRun, tailSuffix⟩ := ih later
        exact ⟨tail, tailRun, tailSuffix.trans (List.suffix_cons a chain)⟩

/-- A chain goes through no cell twice: it would not end. -/
theorem nodup (run : Chain cells a chain) : chain.Nodup := by
  induction run with
  | last here alone => simp
  | @next a b chain owns rest ih =>
      refine List.nodup_cons.mpr ⟨fun again => ?_, ih⟩
      obtain ⟨tail, tailRun, tailSuffix⟩ := rest.suffix again
      obtain rfl := tailRun.unique (.next owns rest)
      exact absurd tailSuffix.length_le (by simp)

/-- A chain is the same where its cells are the same. -/
theorem frame (run : Chain cells a chain) (same : ∀ x ∈ chain, after x = cells x) :
    Chain after a chain := by
  induction run with
  | last here alone =>
      have hereEq := same _ (List.mem_singleton_self _)
      exact .last (hereEq ▸ here) (by simpa only [boxAt, hereEq] using alone)
  | next owns rest ih =>
      have hereEq := same _ (List.mem_cons_self ..)
      exact .next (by simpa only [boxAt, hereEq] using owns)
        (ih fun x member => same x (List.mem_cons_of_mem _ member))

/-- Behind the first cell of a chain, every cell has its owner in the chain. -/
theorem owner_mem (run : Chain cells root chain) (member : b ∈ chain) (later : b ≠ root) :
    ∃ a ∈ chain, boxAt cells a = some b := by
  induction run with
  | last here alone => exact absurd (List.mem_singleton.mp member) later
  | @next a c chain owns rest ih =>
      rcases List.mem_cons.mp member with rfl | inRest
      · exact absurd rfl later
      · by_cases first : b = c
        · exact ⟨a, List.mem_cons_self .., first ▸ owns⟩
        · obtain ⟨x, inChain, ownsB⟩ := ih inRest first
          exact ⟨x, List.mem_cons_of_mem _ inChain, ownsB⟩

end Chain

/-- Chains from the roots: every root has no owner, every other cell at most one, and ownership
ends. -/
structure Forest (cells : Cells) (roots : List Addr) : Prop where
  nodup : roots.Nodup
  present : ∀ root ∈ roots, (cells root).isSome
  unowned : ∀ a b, boxAt cells a = some b → b ∉ roots
  target : ∀ a b, boxAt cells a = some b → (cells b).isSome
  owner : ∀ a a' b, boxAt cells a = some b → boxAt cells a' = some b → a = a'
  ends : ∀ a, (cells a).isSome → ∃ chain, Chain cells a chain

namespace Forest

/-- Roots may be forgotten, and their order does not matter. -/
theorem weaken (forest : Forest cells roots) {fewer : List Addr} (part : fewer.Subperm roots) :
    Forest cells fewer where
  nodup := by
    obtain ⟨kept, keptPerm, keptSub⟩ := part
    exact keptPerm.nodup_iff.mp (forest.nodup.sublist keptSub)
  present root member := forest.present root (part.subset member)
  unowned a b owns member := forest.unowned a b owns (part.subset member)
  target := forest.target
  owner := forest.owner
  ends := forest.ends

/-- The chain of a root has no way in: the owner of a cell in it is in it. -/
theorem owner_mem (forest : Forest cells roots) (member : root ∈ roots)
    (run : Chain cells root chain) (inChain : b ∈ chain) (owns : boxAt cells a = some b) :
    a ∈ chain := by
  have later : b ≠ root := fun same => forest.unowned a b owns (same ▸ member)
  obtain ⟨x, xMem, ownsB⟩ := run.owner_mem inChain later
  exact forest.owner a x b owns ownsB ▸ xMem

/-- So does a chain that ends up in the chain of a root start in it. -/
theorem start_mem (forest : Forest cells roots) (member : root ∈ roots)
    (run : Chain cells root chain) (second : Chain cells a other) (meets : b ∈ other)
    (inChain : b ∈ chain) : a ∈ chain := by
  induction second with
  | last here alone => exact List.mem_singleton.mp meets ▸ inChain
  | @next a c rest owns restRun ih =>
      rcases List.mem_cons.mp meets with rfl | later
      · exact inChain
      · exact forest.owner_mem member run (ih later) owns

theorem disjoint (forest : Forest cells roots) {root' : Addr} (member : root ∈ roots)
    (member' : root' ∈ roots) (run : Chain cells root chain) (run' : Chain cells root' other)
    (inChain : b ∈ chain) (inOther : b ∈ other) : root = root' := by
  have start := forest.start_mem member run run' inOther inChain
  by_contra different
  obtain ⟨x, -, owns⟩ := run.owner_mem start (Ne.symm different)
  exact forest.unowned x root' owns member'

end Forest

/-! ### What happens to the chains -/

section Updates

variable {l : Addr} {cell : Cell}

theorem boxAt_update (x : Addr) :
    boxAt (Function.update cells l (some cell)) x = if x = l then cell.box? else boxAt cells x := by
  by_cases same : x = l
  · subst same
    simp [boxAt]
  · simp [boxAt, same]

theorem isSome_update (x : Addr) :
    (Function.update cells l (some cell) x).isSome = (decide (x = l) || (cells x).isSome) := by
  by_cases same : x = l
  · subst same
    simp
  · simp [same]

/-- What a cell owns: no cells, or the chain from one. -/
def OwnedBy (cells : Cells) (l : Addr) (owned : List Addr) : Prop :=
  boxAt cells l = none ∧ owned = [] ∨ ∃ b, boxAt cells l = some b ∧ Chain cells b owned

/-- A chain that does not go through a cell does not see its change. -/
theorem Chain.update (run : Chain cells a chain) (outside : l ∉ chain) :
    Chain (Function.update cells l (some cell)) a chain :=
  run.frame fun x member => Function.update_of_ne (by rintro rfl; exact outside member) _ _

/-- The cells without those on a list. -/
def without (cells : Cells) (gone : List Addr) : Cells :=
  fun x => if x ∈ gone then none else cells x

theorem without_of_notMem {gone : List Addr} (outside : a ∉ gone) :
    without cells gone a = cells a := if_neg outside

theorem without_nil (cells : Cells) : without cells [] = cells := by
  funext x
  simp [without]

theorem isSome_without {gone : List Addr} (here : (without cells gone a).isSome) :
    a ∉ gone ∧ (cells a).isSome := by
  unfold without at here
  split at here
  · exact absurd here (by simp)
  · exact ⟨‹_›, here⟩

theorem boxAt_without {gone : List Addr} (owns : boxAt (without cells gone) a = some b) :
    a ∉ gone ∧ boxAt cells a = some b := by
  have outside := (isSome_without (isSome_of_boxAt owns)).1
  exact ⟨outside, by simpa only [boxAt, without_of_notMem outside] using owns⟩

end Updates

namespace Forest

variable {l : Addr} {v : Value}

/-- A new cell is a root, in the place of the root that moves into it. -/
theorem insert {new : Addr} {cell : Cell} (forest : Forest cells (cell.box?.toList ++ roots))
    (fresh : cells new = none) :
    Forest (Function.update cells new (some cell)) (new :: roots) := by
  have notNew : ∀ x, (cells x).isSome → x ≠ new := by
    rintro x here rfl
    simp [fresh] at here
  have boxMem : ∀ b, cell.box? = some b → b ∈ cell.box?.toList ++ roots := by
    intro b box
    simp [box]
  have outside : ∀ {x chain}, Chain cells x chain → new ∉ chain := fun run member =>
    notNew new (run.present new member) rfl
  have nodup := List.nodup_append.mp forest.nodup
  constructor
  · refine List.nodup_cons.mpr ⟨fun member => ?_, nodup.2.1⟩
    exact notNew new (forest.present new (List.mem_append_right _ member)) rfl
  · intro root member
    rw [isSome_update]
    rcases List.mem_cons.mp member with rfl | old
    · simp
    · simp [forest.present root (List.mem_append_right _ old)]
  · intro a b owns member
    rw [boxAt_update] at owns
    split at owns
    · rcases List.mem_cons.mp member with rfl | old
      · exact notNew b (forest.present b (boxMem b owns)) rfl
      · exact nodup.2.2 b (by simp [owns]) b old rfl
    · rcases List.mem_cons.mp member with rfl | old
      · exact notNew b (forest.target a b owns) rfl
      · exact forest.unowned a b owns (List.mem_append_right _ old)
  · intro a b owns
    rw [isSome_update]
    rw [boxAt_update] at owns
    split at owns
    · simp [forest.present b (boxMem b owns)]
    · simp [forest.target a b owns]
  · intro a a' b owns owns'
    rw [boxAt_update] at owns owns'
    split at owns <;> split at owns'
    · simp_all
    · exact absurd (boxMem b owns) (forest.unowned a' b owns')
    · exact absurd (boxMem b owns') (forest.unowned a b owns)
    · exact forest.owner a a' b owns owns'
  · intro a here
    by_cases same : a = new
    · subst same
      cases box : cell.box? with
      | none => exact ⟨_, .last (by simp) (by simp [boxAt_update, box])⟩
      | some b =>
          obtain ⟨chain, run⟩ := forest.ends b (forest.present b (boxMem b box))
          exact ⟨_, .next (by simp [boxAt_update, box]) (run.update (outside run))⟩
    · rw [Function.update_of_ne same] at here
      obtain ⟨chain, run⟩ := forest.ends a here
      exact ⟨chain, run.update (outside run)⟩

theorem take {cell : Cell} (forest : Forest cells roots) (owns : boxAt cells l = some b)
    (empty : cell.box? = none) :
    Forest (Function.update cells l (some cell)) (b :: roots) := by
  have old : ∀ {x y}, boxAt (Function.update cells l (some cell)) x = some y →
      x ≠ l ∧ boxAt cells x = some y := by
    intro x y owns
    rw [boxAt_update] at owns
    split at owns
    · simp [empty] at owns
    · exact ⟨‹_›, owns⟩
  have stays : ∀ x, (cells x).isSome → (Function.update cells l (some cell) x).isSome := by
    intro x here
    simp [isSome_update, here]
  constructor
  · exact List.nodup_cons.mpr ⟨forest.unowned l b owns, forest.nodup⟩
  · intro root member
    rcases List.mem_cons.mp member with rfl | old
    · exact stays root (forest.target l root owns)
    · exact stays root (forest.present root old)
  · intro x y owns' member
    rcases List.mem_cons.mp member with rfl | inRoots
    · exact (old owns').1 (forest.owner x l y (old owns').2 owns)
    · exact forest.unowned x y (old owns').2 inRoots
  · exact fun x y owns' => stays y (forest.target x y (old owns').2)
  · exact fun x x' y owns' owns'' => forest.owner x x' y (old owns').2 (old owns'').2
  · intro x here
    have before : (cells x).isSome := by
      rw [isSome_update] at here
      rcases (Bool.or_eq_true _ _).mp here with same | here
      · exact of_decide_eq_true same ▸ isSome_of_boxAt owns
      · exact here
    obtain ⟨chain, run⟩ := forest.ends x before
    clear here before
    induction run with
    | @last x here alone =>
        exact ⟨_, .last (stays x here) (by simp [boxAt_update, empty, alone])⟩
    | @next x y chain owns' rest ih =>
        by_cases same : x = l
        · exact ⟨_, .last (stays x (isSome_of_boxAt owns')) (by simp [boxAt_update, empty, same])⟩
        · obtain ⟨chain', run'⟩ := ih
          exact ⟨_, .next (by simpa [boxAt_update, same] using owns') run'⟩

/-- A cell may take over a root, unless it is in the chain of that root. -/
theorem store {cell : Cell} (forest : Forest cells (cell.box?.toList ++ roots))
    (here : (cells l).isSome)
    (outside : ∀ b chain, cell.box? = some b → Chain cells b chain → l ∉ chain) :
    Forest (Function.update cells l (some cell)) roots := by
  have boxMem : ∀ b, cell.box? = some b → b ∈ cell.box?.toList ++ roots := by
    intro b box
    simp [box]
  have stays : ∀ x, (cells x).isSome → (Function.update cells l (some cell) x).isSome := by
    intro x here
    simp [isSome_update, here]
  constructor
  · exact (List.nodup_append.mp forest.nodup).2.1
  · exact fun root member => stays root (forest.present root (List.mem_append_right _ member))
  · intro x y owns member
    rw [boxAt_update] at owns
    split at owns
    · exact (List.nodup_append.mp forest.nodup).2.2 y (by simp [owns]) y member rfl
    · exact forest.unowned x y owns (List.mem_append_right _ member)
  · intro x y owns
    rw [boxAt_update] at owns
    split at owns
    · exact stays y (forest.present y (boxMem y owns))
    · exact stays y (forest.target x y owns)
  · intro x x' y owns owns'
    rw [boxAt_update] at owns owns'
    split at owns <;> split at owns'
    · simp_all
    · exact absurd (boxMem y owns) (forest.unowned x' y owns')
    · exact absurd (boxMem y owns') (forest.unowned x y owns)
    · exact forest.owner x x' y owns owns'
  · intro x present
    have before : (cells x).isSome := by
      rw [isSome_update] at present
      rcases (Bool.or_eq_true _ _).mp present with same | present
      · exact of_decide_eq_true same ▸ here
      · exact present
    have fromHere : ∃ chain, Chain (Function.update cells l (some cell)) l chain := by
      cases box : cell.box? with
      | none => exact ⟨_, .last (by simp) (by simp [boxAt_update, box])⟩
      | some b =>
          obtain ⟨chain, run⟩ := forest.ends b (forest.present b (boxMem b box))
          exact ⟨_, .next (by simp [boxAt_update, box]) (run.update (outside b chain box run))⟩
    obtain ⟨chain, run⟩ := forest.ends x before
    clear before present
    induction run with
    | @last x present alone =>
        by_cases same : x = l
        · exact same ▸ fromHere
        · exact ⟨_, .last (stays x present) (by simpa [boxAt_update, same] using alone)⟩
    | @next x y chain owns rest ih =>
        by_cases same : x = l
        · exact same ▸ fromHere
        · obtain ⟨chain', run'⟩ := ih
          exact ⟨_, .next (by simpa [boxAt_update, same] using owns) run'⟩

theorem drop (forest : Forest cells (root :: roots)) (run : Chain cells root chain) :
    Forest (without cells chain) roots := by
  have rootMem : root ∈ root :: roots := List.mem_cons_self ..
  have nodup := List.nodup_cons.mp forest.nodup
  have later : ∀ other ∈ roots, other ∉ chain := by
    intro other member inChain
    obtain ⟨chain', run'⟩ := forest.ends other (forest.present other (List.mem_cons_of_mem _ member))
    obtain rfl := forest.disjoint rootMem (List.mem_cons_of_mem _ member) run run' inChain
      run'.head_mem
    exact nodup.1 member
  constructor
  · exact nodup.2
  · intro other member
    rw [without_of_notMem (later other member)]
    exact forest.present other (List.mem_cons_of_mem _ member)
  · intro x y owns member
    exact forest.unowned x y (boxAt_without owns).2 (List.mem_cons_of_mem _ member)
  · intro x y owns
    obtain ⟨outside, owns⟩ := boxAt_without owns
    have targetOutside : y ∉ chain := fun member =>
      outside (forest.owner_mem rootMem run member owns)
    rw [without_of_notMem targetOutside]
    exact forest.target x y owns
  · intro x x' y owns owns'
    exact forest.owner x x' y (boxAt_without owns).2 (boxAt_without owns').2
  · intro x here
    obtain ⟨outside, here⟩ := isSome_without here
    obtain ⟨chain', run'⟩ := forest.ends x here
    refine ⟨chain', run'.frame fun y member => without_of_notMem fun inChain => outside ?_⟩
    exact forest.start_mem rootMem run run' member inChain

/-- The chain of a root that does not go through a cell meets nothing that the cell owns. -/
theorem apart (forest : Forest cells roots) (member : root ∈ roots) (run : Chain cells root chain)
    (outside : l ∉ chain) {gone : List Addr} (owned : OwnedBy cells l gone) :
    ∀ x ∈ chain, x ∉ gone := by
  intro x inChain inGone
  rcases owned with ⟨-, rfl⟩ | ⟨b, owns, goneRun⟩
  · simp at inGone
  · exact outside (forest.start_mem member run (.next owns goneRun)
      (List.mem_cons_of_mem _ inGone) inChain)

/-- A cell may change its owned cells for a root, unless it is in the chain of that root. -/
theorem replace {cell : Cell} {gone : List Addr} (forest : Forest cells (cell.box?.toList ++ roots))
    (here : (cells l).isSome)
    (outside : ∀ b chain, cell.box? = some b → Chain cells b chain → l ∉ chain)
    (owned : OwnedBy cells l gone) :
    Forest (Function.update (without cells gone) l (some cell)) roots := by
  rcases owned with ⟨alone, rfl⟩ | ⟨b, owns, goneRun⟩
  · exact (without_nil cells).symm ▸ forest.store here outside
  · have notGone : l ∉ gone := (List.nodup_cons.mp (Chain.next owns goneRun).nodup).1
    -- First the cell gives up what it owns, which is a root then and can be dropped.
    let taken := Function.update cells l (some ⟨.unit, .moved⟩)
    have goneTaken : Chain taken b gone := goneRun.update notGone
    have dropped : Forest (without taken gone) (cell.box?.toList ++ roots) :=
      (forest.take owns rfl).drop goneTaken
    have sameCells : Function.update (without cells gone) l (some cell) =
        Function.update (without taken gone) l (some cell) := by
      funext x
      by_cases same : x = l
      · simp [same]
      · simp [same, without, taken]
    rw [sameCells]
    refine dropped.store (by simp [without_of_notMem notGone, taken]) ?_
    intro other chain box run
    have otherRoot : other ∈ cell.box?.toList ++ roots := by simp [box]
    obtain ⟨before, beforeRun⟩ := forest.ends other (forest.present other otherRoot)
    have outsideBefore := outside other before box beforeRun
    have apart := forest.apart otherRoot beforeRun outsideBefore (.inr ⟨b, owns, goneRun⟩)
    have stillRun : Chain (without taken gone) other before :=
      (beforeRun.update outsideBefore).frame fun x member => without_of_notMem (apart x member)
    exact run.unique stillRun ▸ outsideBefore

end Forest

end Ownership

end BorrowLang
