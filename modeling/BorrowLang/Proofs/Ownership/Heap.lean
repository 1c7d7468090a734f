import BorrowLang.Proofs.Ownership.Forest
import Std.Data.TreeMap.Lemmas

/-!
# Ownership in a heap

The operations of a heap as changes of its cells, and the count of the cells that they keep.  The
chain from a box is never longer than the heap has cells, so that the search for it ends before its
fuel does.
-/

set_option autoImplicit false

namespace BorrowLang

namespace Heap

/-- The cell at an address, if it is in use. -/
def lookup (heap : Heap) : Cells := fun addr => heap.cells[addr]?

/-- Addresses are given out in order, and every cell that was allocated is in use or was freed. -/
structure Accounted (heap : Heap) : Prop where
  bounded : ∀ addr, (heap.lookup addr).isSome → addr ≤ heap.allocated
  total : heap.allocated = heap.freed + heap.live

theorem contains_eq (heap : Heap) (addr : Addr) :
    heap.contains addr = (heap.lookup addr).isSome :=
  Std.TreeMap.contains_eq_isSome_getElem?

theorem cell_eq_ok {heap : Heap} {addr : Addr} {cell : Cell}
    (found : heap.lookup addr = some cell) : heap.cell addr = .ok cell := by
  have foundHere : heap.cells[addr]? = some cell := found
  simp only [Heap.cell, foundHere]

theorem cell_eq_error {heap : Heap} {addr : Addr} (absent : heap.lookup addr = none) :
    heap.cell addr = .error (.freedAccess addr) := by
  have absentHere : heap.cells[addr]? = none := absent
  simp only [Heap.cell, absentHere]

theorem lookup_of_cell {heap : Heap} {addr : Addr} {cell : Cell}
    (found : heap.cell addr = .ok cell) : heap.lookup addr = some cell := by
  cases known : heap.lookup addr with
  | none => simp [cell_eq_error known] at found
  | some other =>
      rw [cell_eq_ok known] at found
      rw [Except.ok.inj found]

theorem store_eq_ok {heap : Heap} {addr : Addr} {cell : Cell} (value : Value)
    (found : heap.lookup addr = some cell) :
    heap.store addr value =
      .ok { heap with cells := heap.cells.insert addr ⟨value, .live⟩ } := by
  simp only [Heap.store, cell_eq_ok found, Except.map]

theorem take_eq_ok {heap : Heap} {addr : Addr} {cell : Cell}
    (found : heap.lookup addr = some cell) :
    heap.take addr =
      .ok ({ heap with cells := heap.cells.insert addr ⟨.unit, .moved⟩ }, cell.value) := by
  simp only [Heap.take, cell_eq_ok found, Except.map]

theorem lookup_insert (heap : Heap) (addr : Addr) (cell : Cell) (allocated freed : Nat) :
    Heap.lookup ⟨heap.cells.insert addr cell, allocated, freed⟩ =
      Function.update heap.lookup addr (some cell) := by
  funext other
  by_cases same : other = addr
  · subst same
    simp [lookup]
  · simp [lookup, Std.TreeMap.getElem?_insert, same, Ne.symm same]

theorem lookup_alloc (heap : Heap) (value : Value) (initialized : Bool) :
    (heap.alloc value initialized).1.lookup =
      Function.update heap.lookup (heap.allocated + 1)
        (some ⟨value, if initialized then .live else .uninit⟩) :=
  heap.lookup_insert _ _ _ _

namespace Accounted

variable {heap : Heap} (accounted : heap.Accounted)
include accounted

theorem fresh {addr : Addr} (above : heap.allocated < addr) : heap.lookup addr = none := by
  cases found : heap.lookup addr with
  | none => rfl
  | some cell => exact absurd (accounted.bounded addr (by simp [found])) (Nat.not_le.mpr above)

theorem alloc (value : Value) (initialized : Bool) :
    (heap.alloc value initialized).1.Accounted where
  bounded other here := by
    rw [lookup_alloc, Ownership.isSome_update] at here
    rcases (Bool.or_eq_true _ _).mp here with same | here
    · exact Nat.le_of_eq (of_decide_eq_true same)
    · exact Nat.le_succ_of_le (accounted.bounded other here)
  total := by
    have isNew : ¬ heap.allocated + 1 ∈ heap.cells := by
      rw [Std.TreeMap.mem_iff_isSome_getElem?]
      simp [show heap.cells[heap.allocated + 1]? = none from accounted.fresh (Nat.lt_succ_self _)]
    have sizeEq : (heap.alloc value initialized).1.live = heap.live + 1 := by
      simp [Heap.alloc, live, Std.TreeMap.size_insert, isNew]
    rw [sizeEq]
    have total := accounted.total
    simp only [Heap.alloc]
    omega

/-- New contents of a cell that is in use do not change the count. -/
theorem overwrite {addr : Addr} {cell : Cell} (here : (heap.lookup addr).isSome) :
    Heap.Accounted { heap with cells := heap.cells.insert addr cell } where
  bounded other present := by
    rw [heap.lookup_insert, Ownership.isSome_update] at present
    rcases (Bool.or_eq_true _ _).mp present with same | present
    · exact of_decide_eq_true same ▸ accounted.bounded addr here
    · exact accounted.bounded other present
  total := by
    have isOld : addr ∈ heap.cells := by
      rw [Std.TreeMap.mem_iff_isSome_getElem?]
      exact here
    simpa [live, Std.TreeMap.size_insert, isOld] using accounted.total

end Accounted

theorem free_eq_ok {heap : Heap} {addr : Addr} (here : (heap.lookup addr).isSome) :
    heap.free addr = .ok { heap with cells := heap.cells.erase addr, freed := heap.freed + 1 } := by
  simp [Heap.free, contains_eq, here]

theorem lookup_erase (heap : Heap) (addr : Addr) (allocated freed : Nat) :
    Heap.lookup ⟨heap.cells.erase addr, allocated, freed⟩ =
      Ownership.without heap.lookup [addr] := by
  funext other
  by_cases same : other = addr
  · subst same
    simp [lookup, Ownership.without]
  · simp [lookup, Ownership.without, Std.TreeMap.getElem?_erase, same, Ne.symm same]

theorem Accounted.erase {heap : Heap} (accounted : heap.Accounted) {addr : Addr}
    (here : (heap.lookup addr).isSome) :
    Heap.Accounted { heap with cells := heap.cells.erase addr, freed := heap.freed + 1 } where
  bounded other present := by
    rw [heap.lookup_erase] at present
    exact accounted.bounded other (Ownership.isSome_without present).2
  total := by
    have isOld : addr ∈ heap.cells := by
      rw [Std.TreeMap.mem_iff_isSome_getElem?]
      exact here
    have positive : 0 < heap.cells.size := by
      rw [← Std.TreeMap.length_keys]
      exact List.length_pos_of_mem (Std.TreeMap.mem_keys.mpr isOld)
    have total := accounted.total
    simp only [live] at total
    simp only [live, Std.TreeMap.size_erase, Std.TreeMap.mem_iff_contains.mp isOld, if_true]
    omega

end Heap

namespace Ownership

variable {heap : Heap} {a : Addr} {chain : List Addr}

theorem Chain.length_le_live (run : Chain heap.lookup a chain) : chain.length ≤ heap.live := by
  have inKeys : chain ⊆ heap.cells.keys := by
    intro x member
    rw [Std.TreeMap.mem_keys, Std.TreeMap.mem_iff_isSome_getElem?]
    exact run.present x member
  have bound := (run.nodup.subperm inKeys).length_le
  rwa [Std.TreeMap.length_keys] at bound

/-- The search for the cells that a box owns finds its chain. -/
theorem Chain.ownedFrom_eq (run : Chain heap.lookup a chain) :
    ∀ fuel, chain.length ≤ fuel → heap.ownedFrom fuel (.box a) = .ok chain := by
  induction run with
  | @last a here alone =>
      intro fuel enough
      obtain ⟨cell, found⟩ := Option.isSome_iff_exists.mp here
      obtain ⟨fuel, rfl⟩ : ∃ n, fuel = n + 1 := ⟨fuel - 1, by simp at enough; omega⟩
      simp only [Heap.ownedFrom, Heap.cell_eq_ok found]
      simp only [boxAt, found, Option.bind_some, Cell.box?] at alone
      cases value : cell.liveValue? with
      | none => simp [value, Bind.bind, Except.bind, Pure.pure, Except.pure]
      | some v =>
          rw [value] at alone
          cases v with
          | box b => simp [Value.box?] at alone
          | _ => simp [value, Bind.bind, Except.bind, Pure.pure, Except.pure, Heap.ownedFrom]
  | @next a b chain owns rest ih =>
      intro fuel enough
      obtain ⟨fuel, rfl⟩ : ∃ n, fuel = n + 1 := ⟨fuel - 1, by simp at enough; omega⟩
      obtain ⟨cell, found⟩ := Option.isSome_iff_exists.mp (isSome_of_boxAt owns)
      simp only [Heap.ownedFrom, Heap.cell_eq_ok found]
      simp only [boxAt, found, Option.bind_some, Cell.box?] at owns
      cases value : cell.liveValue? with
      | none => simp [value] at owns
      | some v =>
          rw [value] at owns
          cases v with
          | box c =>
              obtain rfl := Option.some.inj owns
              simp [value, Bind.bind, Except.bind, Pure.pure, Except.pure,
                ih fuel (Nat.le_of_succ_le_succ enough)]
          | _ => simp [Value.box?] at owns

theorem Chain.owned_eq (run : Chain heap.lookup a chain) : heap.owned (.box a) = .ok chain :=
  run.ownedFrom_eq _ (Nat.le_succ_of_le run.length_le_live)

theorem owned_eq_nil {value : Value} (plain : value.box? = none) : heap.owned value = .ok [] := by
  cases value with
  | box b => simp [Value.box?] at plain
  | _ => rfl

end Ownership

end BorrowLang
