import BorrowLang.Proofs.Ownership.Forest

/-!
# Chains without a gap

A chain of boxes ends at a cell that holds a value and no box, or at a cell that holds nothing
because its value was moved out or has not been there yet.  Of a chain that is covered, the depths at
which something may be gone are known; one without such depths is intact.
-/

set_option autoImplicit false

namespace BorrowLang.Ownership

variable {cells after : Cells} {a b l : Addr} {chain path : List Addr} {gone : Nat → Prop}

/-- A cell holds a value. -/
def Live (cells : Cells) (a : Addr) : Prop := ∃ value, cells a = some ⟨value, .live⟩

theorem live_of_boxAt (owns : boxAt cells a = some b) : Live cells a := by
  obtain ⟨⟨value, state⟩, found, box⟩ := Option.bind_eq_some_iff.mp owns
  obtain ⟨held, isHeld, -⟩ := Option.bind_eq_some_iff.mp box
  cases state with
  | live => exact ⟨value, found⟩
  | _ => simp [Cell.liveValue?] at isHeld

/-- Something on the chain of a cell is gone, as is known, or each cell of it holds a value. -/
def Covered (cells : Cells) (gone : Nat → Prop) (a : Addr) : Prop :=
  ∀ chain, Chain cells a chain → (∃ depth < chain.length, gone depth) ∨ ∀ x ∈ chain, Live cells x

/-- Each cell of a chain holds a value. -/
def Intact (cells : Cells) (a : Addr) : Prop :=
  ∀ chain, Chain cells a chain → ∀ x ∈ chain, Live cells x

namespace Chain

/-- A path along boxes is a part of the chain from its first cell. -/
theorem isPrefix (run : Chain cells a chain)
    (steps : path.IsChain fun a b => boxAt cells a = some b) (head : path.head? = some a) :
    path <+: chain := by
  induction run generalizing path with
  | @last a here alone =>
      cases path with
      | nil => cases head
      | cons first rest =>
          obtain rfl := Option.some.inj head
          cases rest with
          | nil => exact List.prefix_rfl
          | cons second rest => simp [(List.isChain_cons_cons.mp steps).1] at alone
  | @next a b chain owns rest ih =>
      cases path with
      | nil => cases head
      | cons first others =>
          obtain rfl := Option.some.inj head
          cases others with
          | nil => exact List.cons_prefix_cons.mpr ⟨rfl, List.nil_prefix⟩
          | cons second others =>
              obtain ⟨owns', stepsRest⟩ := List.isChain_cons_cons.mp steps
              obtain rfl := Option.some.inj (owns.symm.trans owns')
              exact List.cons_prefix_cons.mpr ⟨rfl, ih stepsRest rfl⟩

/-- Each cell of a chain but the last holds a box that leads to the next. -/
theorem isChain (run : Chain cells a chain) :
    chain.IsChain fun a b => boxAt cells a = some b := by
  induction run with
  | last => exact .singleton _
  | next owns rest ih =>
      cases rest with
      | last => exact List.isChain_cons_cons.mpr ⟨owns, .singleton _⟩
      | next => exact List.isChain_cons_cons.mpr ⟨owns, ih⟩

/-- What the chain of a cell is where one of its cells has lost its box: a part of it. -/
theorem prefix_of_emptied {cell : Cell} (run : Chain (Function.update cells l (some cell)) a path)
    (empty : cell.box? = none) (before : Chain cells a chain) : path <+: chain := by
  refine before.isPrefix (run.isChain.imp fun x y owns => ?_) ?_
  · rw [boxAt_update] at owns
    by_cases here : x = l
    · rw [if_pos here, empty] at owns
      cases owns
    · rwa [if_neg here] at owns
  · cases run <;> rfl

/-- A cell of a chain with another one behind it holds a box. -/
theorem live_of_later (run : Chain cells a chain) {depth : Nat} {x : Addr}
    (found : chain[depth]? = some x) (later : depth + 1 < chain.length) : Live cells x := by
  induction run generalizing depth with
  | last here alone => simp at later
  | @next a b chain owns rest ih =>
      cases depth with
      | zero =>
          obtain rfl := Option.some.inj found
          exact live_of_boxAt owns
      | succ depth => exact ih found (Nat.lt_of_succ_lt_succ later)

/-- What leads to a cell of a part that nothing leads into is in that part. -/
theorem start_mem_of_closed {part : List Addr} (run : Chain cells a chain)
    (closed : ∀ x y, boxAt cells x = some y → y ∈ part → x ∈ part)
    (meets : b ∈ chain) (inPart : b ∈ part) : a ∈ part := by
  induction run with
  | last here alone => exact List.mem_singleton.mp meets ▸ inPart
  | @next a c chain owns rest ih =>
      rcases List.mem_cons.mp meets with rfl | later
      · exact inPart
      · exact closed a c owns (ih later)

end Chain

/-- A chain that is there without some cells is as it was. -/
theorem Chain.same_of_without {dropped : List Addr} (run : Chain (without cells dropped) a chain) :
    ∀ x ∈ chain, without cells dropped x = cells x := fun x member =>
  without_of_notMem (isSome_without (run.present x member)).1

namespace Covered

theorem mono {gone' : Nat → Prop} (covered : Covered cells gone a)
    (more : ∀ depth, gone depth → gone' depth) : Covered cells gone' a := by
  intro chain run
  refine (covered chain run).imp_left ?_
  rintro ⟨depth, inChain, isGone⟩
  exact ⟨depth, inChain, more depth isGone⟩

theorem frame (covered : Covered cells gone a)
    (same : ∀ chain, Chain after a chain → ∀ x ∈ chain, after x = cells x) :
    Covered after gone a := by
  intro chain run
  have here := same chain run
  refine (covered chain (run.frame fun x member => (here x member).symm)).imp_right ?_
  intro live x member
  exact (live x member).imp fun _ found => (here x member).trans found

theorem thin (covered : Covered cells gone a) (dropped : List Addr) :
    Covered (without cells dropped) gone a := covered.frame fun _ => Chain.same_of_without

/-- Nothing is gone up to some depth, so the cell there holds a value. -/
theorem live (covered : Covered cells gone a) (run : Chain cells a chain) {depth : Nat} {x : Addr}
    (found : chain[depth]? = some x) (held : ∀ above ≤ depth, ¬ gone above) : Live cells x := by
  rcases covered chain run with ⟨last, inChain, isGone⟩ | live
  · refine run.live_of_later found (Nat.lt_of_le_of_lt ?_ inChain)
    exact Nat.succ_le_of_lt (Nat.lt_of_not_le fun before => held last before isGone)
  · exact live x (List.mem_of_getElem? found)

theorem intact (covered : Covered cells gone a) (none : ∀ depth, ¬ gone depth) :
    Intact cells a := fun chain run =>
  (covered chain run).resolve_left fun some => some.elim fun depth here => none depth here.2

end Covered

namespace Intact

theorem covered (intact : Intact cells a) : Covered cells gone a :=
  fun chain run => Or.inr (intact chain run)

theorem frame (intact : Intact cells a)
    (same : ∀ chain, Chain after a chain → ∀ x ∈ chain, after x = cells x) : Intact after a :=
  (@Covered.frame cells after a (fun _ => False) intact.covered same).intact fun _ => id

theorem thin (intact : Intact cells a) (dropped : List Addr) : Intact (without cells dropped) a :=
  intact.frame fun _ => Chain.same_of_without

/-- What is behind a cell of an intact chain is intact. -/
theorem behind (intact : Intact cells a) (run : Chain cells a chain) (member : b ∈ chain) :
    Intact cells b := by
  intro rest runRest x inRest
  obtain ⟨tail, tailRun, isTail⟩ := run.suffix member
  obtain rfl := tailRun.unique runRest
  exact intact chain run x (isTail.mem inRest)

end Intact

/-! ### A cell that is changed -/

section Updates

variable {cell : Cell} {value : Value}

/-- A chain without the changed cell is as it was. -/
theorem same_of_notMem (cells : Cells) (cell : Cell) (outside : l ∉ chain) :
    ∀ x ∈ chain, Function.update cells l (some cell) x = cells x := fun _ member =>
  Function.update_of_ne (by rintro rfl; exact outside member) _ _

/-- What a value owns has no gap, and a cell is no part of it. -/
def Ready (cells : Cells) (l : Addr) (value : Value) : Prop :=
  ∀ b, value = .box b → ∃ chain, Chain cells b chain ∧ l ∉ chain ∧ ∀ x ∈ chain, Live cells x

/-- A new cell is on no chain from another one. -/
theorem notMem_of_fresh {new : Addr} (fresh : cells new = none)
    (target : ∀ x y, boxAt cells x = some y → (cells y).isSome)
    (run : Chain (Function.update cells new (some cell)) a chain) (other : a ≠ new) :
    new ∉ chain := by
  induction run with
  | last => exact fun member => other (List.mem_singleton.mp member).symm
  | @next a b chain owns rest ih =>
      rw [boxAt_update, if_neg other] at owns
      have isOld : b ≠ new := by
        rintro rfl
        have here := target _ _ owns
        rw [fresh] at here
        cases here
      exact fun member => (List.mem_cons.mp member).elim (fun same => other same.symm) (ih isOld)

theorem Covered.alloc {new : Addr} (covered : Covered cells gone a) (fresh : cells new = none)
    (target : ∀ x y, boxAt cells x = some y → (cells y).isSome) (other : a ≠ new) :
    Covered (Function.update cells new (some cell)) gone a :=
  covered.frame fun _ run => same_of_notMem cells cell (notMem_of_fresh fresh target run other)

theorem Intact.alloc {new : Addr} (intact : Intact cells a) (fresh : cells new = none)
    (target : ∀ x y, boxAt cells x = some y → (cells y).isSome) (other : a ≠ new) :
    Intact (Function.update cells new (some cell)) a :=
  intact.frame fun _ run => same_of_notMem cells cell (notMem_of_fresh fresh target run other)

/-- What a new cell leads to is intact when its value is there, and owns nothing with a gap. -/
theorem Intact.new {new : Addr} (fresh : cells new = none)
    (target : ∀ x y, boxAt cells x = some y → (cells y).isSome)
    (owned : ∀ b, value = .box b → (cells b).isSome ∧ Intact cells b) :
    Intact (Function.update cells new (some ⟨value, .live⟩)) new := by
  intro chain run
  have here : Live (Function.update cells new (some ⟨value, .live⟩)) new :=
    ⟨value, Function.update_self ..⟩
  cases run with
  | last => exact fun x member => List.mem_singleton.mp member ▸ here
  | @next _ b rest owns restRun =>
      rw [boxAt_update, if_pos rfl] at owns
      obtain ⟨present, intact⟩ := owned b (Value.box?_eq_some.mp owns)
      have different : b ≠ new := by
        rintro rfl
        rw [fresh] at present
        cases present
      exact List.forall_mem_cons.mpr
        ⟨here, intact.alloc fresh target different rest restRun⟩

/-- A value was moved out of a cell: what is gone on the chains through the cell is known. -/
theorem Covered.moved {gone' : Nat → Prop} (covered : Covered cells gone a)
    (before : Chain cells a chain) (empty : cell.box? = none)
    (known : l ∈ chain → ∃ depth, chain[depth]? = some l ∧ gone' depth)
    (more : ∀ depth, gone depth → gone' depth) :
    Covered (Function.update cells l (some cell)) gone' a := by
  intro after run
  have part := run.prefix_of_emptied empty before
  by_cases through : l ∈ after
  · obtain ⟨depth, isHere, isGone⟩ := known (part.subset through)
    obtain ⟨place, inside, found⟩ := List.getElem_of_mem through
    have there : chain[place]? = some l := by
      rw [List.prefix_iff_getElem?.mp part place inside, found]
    obtain rfl : depth = place := (List.getElem?_inj
      (List.getElem?_eq_some_iff.mp isHere).1 before.nodup).mp (isHere.trans there.symm)
    exact Or.inl ⟨depth, inside, isGone⟩
  · have same := same_of_notMem cells cell through
    refine (covered after (run.frame fun x member => (same x member).symm)).imp ?_ ?_
    · rintro ⟨depth, inChain, isGone⟩
      exact ⟨depth, inChain, more depth isGone⟩
    · exact fun live x member => (live x member).imp fun _ found => (same x member).trans found

theorem Intact.moved (intact : Intact cells a) (before : Chain cells a chain)
    (empty : cell.box? = none) (outside : l ∉ chain) :
    Intact (Function.update cells l (some cell)) a :=
  (@Covered.moved cells a l chain (fun _ => False) cell _ intact.covered before empty
    (fun inside => absurd inside outside) fun _ => id).intact fun _ => id

/-- A chain that goes through a cell where such a value was stored has no gap. -/
theorem Ready.live (ready : Ready cells l value)
    (run : Chain (Function.update cells l (some ⟨value, .live⟩)) a chain) (through : l ∈ chain) :
    ∀ x ∈ chain, Live (Function.update cells l (some ⟨value, .live⟩)) x := by
  have here : Live (Function.update cells l (some ⟨value, .live⟩)) l :=
    ⟨value, Function.update_self ..⟩
  induction run with
  | last =>
      obtain rfl := List.mem_singleton.mp through
      exact fun x member => List.mem_singleton.mp member ▸ here
  | @next a b chain owns rest ih =>
      refine List.forall_mem_cons.mpr ⟨live_of_boxAt owns, ?_⟩
      rcases List.mem_cons.mp through with rfl | later
      · -- The chain of the value does not come back to the cell that it was put into.
        have isBox : value = .box b := by
          rw [boxAt_update, if_pos rfl] at owns
          exact Value.box?_eq_some.mp owns
        obtain ⟨known, knownRun, apart, live⟩ := ready b isBox
        obtain rfl := (@Chain.update cells b known l ⟨value, .live⟩ knownRun apart).unique rest
        intro x member
        obtain ⟨held, found⟩ := live x member
        exact ⟨held, (same_of_notMem cells ⟨value, .live⟩ apart x member).trans found⟩
      · exact ih later

/-- A value was stored in a cell: on the chains that do not go through it, what is gone is known. -/
theorem Covered.store {gone' : Nat → Prop} (covered : Covered cells gone a)
    (ready : Ready cells l value)
    (still : ∀ chain, Chain cells a chain → l ∉ chain → ∀ depth < chain.length,
      gone depth → gone' depth) :
    Covered (Function.update cells l (some ⟨value, .live⟩)) gone' a := by
  intro chain run
  by_cases through : l ∈ chain
  · exact Or.inr (ready.live run through)
  · have same := same_of_notMem cells ⟨value, .live⟩ through
    have before := run.frame fun x member => (same x member).symm
    refine (covered chain before).imp ?_ ?_
    · rintro ⟨depth, inChain, isGone⟩
      exact ⟨depth, inChain, still chain before through depth inChain isGone⟩
    · exact fun live x member => (live x member).imp fun _ found => (same x member).trans found

theorem Intact.store (intact : Intact cells a) (ready : Ready cells l value) :
    Intact (Function.update cells l (some ⟨value, .live⟩)) a :=
  (@Covered.store cells a l (fun _ => False) value _ intact.covered ready
    fun _ _ _ _ _ => id).intact fun _ => id

/-- The box that was moved out of a cell of an intact chain leads to one. -/
theorem Intact.taken (intact : Intact cells a) (run : Chain cells a chain) (inside : l ∈ chain)
    (owns : boxAt cells l = some b) (present : ∃ chain, Chain cells b chain)
    (empty : cell.box? = none) : Intact (Function.update cells l (some cell)) b := by
  obtain ⟨behind, behindRun⟩ := present
  have fromCell := Chain.next owns behindRun
  obtain ⟨part, partRun, isPart⟩ := run.suffix inside
  obtain rfl := partRun.unique fromCell
  have there := intact.behind run (isPart.mem (List.mem_cons_of_mem _ behindRun.head_mem))
  exact there.moved behindRun empty (List.nodup_cons.mp fromCell.nodup).1

end Updates

end BorrowLang.Ownership
