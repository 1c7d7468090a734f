import BorrowLang.Proofs.Ownership.Heap

/-!
# Cells with an owner

The roots cover the cells in use when every cell that is no root is owned by another cell.  Going
back from owner to owner then ends at a root, so each cell is on the chain of one; a cell that no
root leads to would have leaked.
-/

set_option autoImplicit false

namespace BorrowLang.Ownership

variable {cells : Cells} {a b l root : Addr} {chain gone roots : List Addr} {cell : Cell}

/-- Every cell in use is a root, or another cell owns it. -/
def Covers (cells : Cells) (roots : List Addr) : Prop :=
  ∀ b, (cells b).isSome → b ∈ roots ∨ ∃ a, boxAt cells a = some b

/-- A chain does not leave out what its cells own. -/
theorem Chain.mem_of_owns (run : Chain cells root chain) (inChain : a ∈ chain)
    (owns : boxAt cells a = some b) : b ∈ chain := by
  obtain ⟨rest, restRun, suffix⟩ := run.suffix inChain
  cases restRun with
  | last here alone => simp [alone] at owns
  | next owns' tail =>
      obtain rfl := Option.some.inj (owns'.symm.trans owns)
      exact suffix.subset (List.mem_cons_of_mem _ tail.head_mem)

namespace Covers

theorem more (covers : Covers cells roots) {others : List Addr}
    (part : ∀ root ∈ roots, root ∈ others) : Covers cells others :=
  fun b here => (covers b here).imp_left (part b)

/-- A new cell is a root, in the place of the root that moves into it. -/
theorem insert {new : Addr} (covers : Covers cells (cell.box?.toList ++ roots))
    (fresh : cells new = none) :
    Covers (Function.update cells new (some cell)) (new :: roots) := by
  intro b here
  rw [isSome_update] at here
  by_cases isNew : b = new
  · exact Or.inl (isNew ▸ List.mem_cons_self)
  · have before : (cells b).isSome := by simpa [isNew] using here
    rcases covers b before with member | ⟨a, owns⟩
    · rcases List.mem_append.mp member with moved | old
      · exact Or.inr ⟨new, by simpa [boxAt_update] using moved⟩
      · exact Or.inl (List.mem_cons_of_mem new old)
    · have different : a ≠ new := by
        rintro rfl
        simp [boxAt, fresh] at owns
      exact Or.inr ⟨a, by rw [boxAt_update, if_neg different, owns]⟩

/-- A box that is taken out of its cell is a root then. -/
theorem take (covers : Covers cells roots) (owns : boxAt cells l = some b) :
    Covers (Function.update cells l (some cell)) (b :: roots) := by
  have inUse := isSome_of_boxAt owns
  intro c here
  rw [isSome_update] at here
  have before : (cells c).isSome := by
    by_cases same : c = l
    · exact same ▸ inUse
    · simpa [same] using here
  rcases covers c before with member | ⟨a, ownsC⟩
  · exact Or.inl (List.mem_cons_of_mem b member)
  · by_cases same : a = l
    · subst same
      obtain rfl := Option.some.inj (owns.symm.trans ownsC)
      exact Or.inl List.mem_cons_self
    · exact Or.inr ⟨a, by rw [boxAt_update, if_neg same, ownsC]⟩

/-- A cell that owns nothing may take over a root. -/
theorem store (covers : Covers cells (cell.box?.toList ++ roots)) (here : (cells l).isSome)
    (alone : boxAt cells l = none) : Covers (Function.update cells l (some cell)) roots := by
  intro c present
  rw [isSome_update] at present
  have before : (cells c).isSome := by
    by_cases same : c = l
    · exact same ▸ here
    · simpa [same] using present
  rcases covers c before with member | ⟨a, owns⟩
  · rcases List.mem_append.mp member with moved | old
    · exact Or.inr ⟨l, by simpa [boxAt_update] using moved⟩
    · exact Or.inl old
  · have different : a ≠ l := by
      rintro rfl
      simp [alone] at owns
    exact Or.inr ⟨a, by rw [boxAt_update, if_neg different, owns]⟩

/-- A root that is dropped takes along what it owns. -/
theorem drop (covers : Covers cells (root :: roots)) (run : Chain cells root chain) :
    Covers (without cells chain) roots := by
  intro c present
  obtain ⟨outside, here⟩ := isSome_without present
  rcases covers c here with member | ⟨a, owns⟩
  · rcases List.mem_cons.mp member with rfl | old
    · exact absurd run.head_mem outside
    · exact Or.inl old
  · have ownerOutside : a ∉ chain := fun inChain => outside (run.mem_of_owns inChain owns)
    exact Or.inr ⟨a, by simpa only [boxAt, without_of_notMem ownerOutside] using owns⟩

/-- A cell may change what it owns for a root; what it owned is dropped. -/
theorem replace (covers : Covers cells (cell.box?.toList ++ roots)) (here : (cells l).isSome)
    (owned : OwnedBy cells l gone) :
    Covers (Function.update (without cells gone) l (some cell)) roots := by
  rcases owned with ⟨alone, rfl⟩ | ⟨b, owns, goneRun⟩
  · rw [without_nil]
    exact covers.store here alone
  · have notGone : l ∉ gone := (List.nodup_cons.mp (Chain.next owns goneRun).nodup).1
    let taken := Function.update cells l (some ⟨.unit, .moved⟩)
    have goneTaken : Chain taken b gone := goneRun.update notGone
    have dropped : Covers (without taken gone) (cell.box?.toList ++ roots) :=
      (covers.take owns).drop goneTaken
    have sameCells : Function.update (without cells gone) l (some cell) =
        Function.update (without taken gone) l (some cell) := by
      funext x
      by_cases same : x = l
      · simp [same]
      · simp [same, without, taken]
    rw [sameCells]
    refine dropped.store (by simp [without_of_notMem notGone, taken]) ?_
    simp [boxAt, without_of_notMem notGone, taken, Cell.box?, Cell.liveValue?]

end Covers

/-- Each cell is on the chain of a root: going back from owner to owner makes a chain longer, and no
chain is longer than the heap has cells. -/
theorem Covers.exists_root {heap : Heap} (covers : Covers heap.lookup roots)
    (ends : ∀ a, (heap.lookup a).isSome → ∃ chain, Chain heap.lookup a chain)
    (here : (heap.lookup b).isSome) :
    ∃ root ∈ roots, ∃ chain, Chain heap.lookup root chain ∧ b ∈ chain := by
  have back : ∀ n a chain, Chain heap.lookup a chain → heap.live - chain.length = n →
      ∃ root ∈ roots, ∃ whole, Chain heap.lookup root whole ∧ a ∈ whole := by
    intro n
    induction n using Nat.strongRecOn with
    | ind n ih =>
        intro a chain run length
        rcases covers a (run.present a run.head_mem) with member | ⟨owner, owns⟩
        · exact ⟨a, member, chain, run, run.head_mem⟩
        · have longer : Chain heap.lookup owner (owner :: chain) := .next owns run
          have bound := longer.length_le_live
          have fewer : heap.live - (owner :: chain).length < n := by
            simp only [List.length_cons] at bound ⊢
            omega
          obtain ⟨root, member, whole, wholeRun, inWhole⟩ := ih _ fewer owner _ longer rfl
          exact ⟨root, member, whole, wholeRun, wholeRun.mem_of_owns inWhole owns⟩
  obtain ⟨chain, run⟩ := ends b here
  exact back _ b chain run rfl

end BorrowLang.Ownership
