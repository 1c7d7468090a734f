import BorrowLang.Proofs.Tracking.Forks
import Std.Data.TreeMap.Lemmas

/-!
# What two paths allow where they meet

After a join a place may be read, moved out of or borrowed exactly when both paths allowed it: the move
state of a place is the stricter one of both, and the borrows are those of both.
-/

set_option autoImplicit false

namespace BorrowLang

/-! ### Move states -/

namespace MoveState

variable {mine theirs : Option MoveState}

theorem merge_eq_moved :
    merge mine theirs = some .moved ↔ mine = some .moved ∨ theirs = some .moved := by
  rcases mine with - | - | - | - <;> rcases theirs with - | - | - | - <;> simp [merge]

theorem merge_eq_uninit (unmoved : mine ≠ some .moved) (alsoUnmoved : theirs ≠ some .moved) :
    merge mine theirs = some .uninit ↔ mine = some .uninit ∨ theirs = some .uninit := by
  rcases mine with - | - | - | - <;> rcases theirs with - | - | - | - <;> simp_all [merge]

end MoveState

theorem Arena.root_mem_chain (arena : Arena) (id : PlaceId) : arena.root id ∈ arena.chain id := by
  induction id using Nat.strongRecOn with
  | ind id ih =>
      rw [root, chain]
      cases arena.parent? id with
      | none => exact List.mem_singleton_self id
      | some parent =>
          by_cases down : parent < id
          · simp only [down, if_true]
            exact List.mem_append_left _ (ih parent down)
          · simp only [down, if_false]
            exact List.mem_singleton_self id

namespace Tracker

variable {t u : Tracker} {arena : Arena} {place : PlaceId}

/-- What is known of one place after the entries of another path have come in one after another. -/
theorem getElem?_foldl_merge {entries : List (PlaceId × MoveState)}
    {states : Std.TreeMap PlaceId MoveState} {theirs : Option MoveState}
    (distinct : entries.Pairwise fun a b => ¬compare a.1 b.1 = .eq)
    (known : ∀ state, (place, state) ∈ entries ↔ theirs = some state) :
    (entries.foldl (fun states entry =>
      match MoveState.merge states[entry.1]? (some entry.2) with
      | some merged => states.insert entry.1 merged
      | none => states) states)[place]? = MoveState.merge states[place]? theirs := by
  induction entries generalizing states theirs with
  | nil =>
      have nothing : theirs = none :=
        Option.eq_none_iff_forall_ne_some.mpr fun state isState => nomatch (known state).mpr isState
      rw [nothing, List.foldl_nil]
      cases states[place]? <;> rfl
  | cons entry rest ih =>
      obtain ⟨own, state⟩ := entry
      obtain ⟨apart, distinct⟩ := List.pairwise_cons.mp distinct
      have merges : ∃ merged, MoveState.merge states[own]? (some state) = some merged := by
        cases states[own]? with
        | none => exact ⟨_, rfl⟩
        | some mine => cases mine <;> cases state <;> exact ⟨_, rfl⟩
      obtain ⟨merged, isMerged⟩ := merges
      rw [List.foldl_cons, isMerged]
      by_cases here : own = place
      · subst here
        have isState : theirs = some state := (known state).mp List.mem_cons_self
        -- The other entries are about other places.
        have others : ∀ other, (own, other) ∈ rest ↔ (none : Option MoveState) = some other :=
          fun other =>
            ⟨fun member => absurd Std.ReflCmp.compare_self (apart (own, other) member), nofun⟩
        rw [ih distinct others, Std.TreeMap.getElem?_insert_self, isState, isMerged]
        rfl
      · have others : ∀ other, (place, other) ∈ rest ↔ theirs = some other := by
          intro other
          rw [← known other, List.mem_cons, Prod.mk.injEq]
          exact (or_iff_right fun same => here same.1.symm).symm
        rw [ih distinct others, Std.TreeMap.getElem?_insert, if_neg]
        exact fun same => here (Std.LawfulEqCmp.eq_of_compare same)

/-- After a join the state of a place is that of both paths. -/
theorem getElem?_states_join (t u : Tracker) (place : PlaceId) :
    (t.join u).states[place]? = MoveState.merge t.states[place]? u.states[place]? := by
  rw [join, Std.TreeMap.foldl_eq_foldl_toList]
  refine getElem?_foldl_merge Std.TreeMap.distinct_keys_toList fun state => ?_
  exact Std.TreeMap.mem_toList_iff_getElem?_eq_some

/-- A place is available after a join when it is so on both paths: where it was without a value on one
of them, it cannot become available by having been moved out of on the other. -/
theorem available_join :
    (t.join u).Available arena place ↔ t.Available arena place ∧ u.Available arena place := by
  have isOnTheWay : arena.root place ∈ arena.chain place ++ arena.descendants place :=
    List.mem_append_left _ (arena.root_mem_chain place)
  have unmoved : (∀ id ∈ arena.chain place ++ arena.descendants place,
        (t.join u).states[id]? ≠ some .moved) ↔
      ∀ id ∈ arena.chain place ++ arena.descendants place,
        t.states[id]? ≠ some .moved ∧ u.states[id]? ≠ some .moved := by
    simp only [getElem?_states_join, ne_eq, MoveState.merge_eq_moved, not_or]
  have initialized (mine : t.states[arena.root place]? ≠ some .moved)
      (theirs : u.states[arena.root place]? ≠ some .moved) :
      (t.join u).states[arena.root place]? ≠ some .uninit ↔
        t.states[arena.root place]? ≠ some .uninit ∧ u.states[arena.root place]? ≠ some .uninit := by
    rw [getElem?_states_join, ne_eq, MoveState.merge_eq_uninit mine theirs, not_or]
  constructor
  · intro available
    have both := unmoved.mp available.unmoved
    have values := (initialized (both _ isOnTheWay).1 (both _ isOnTheWay).2).mp available.initialized
    exact ⟨⟨values.1, fun id member => (both id member).1⟩,
      ⟨values.2, fun id member => (both id member).2⟩⟩
  · rintro ⟨mine, theirs⟩
    exact ⟨(initialized (mine.unmoved _ isOnTheWay) (theirs.unmoved _ isOnTheWay)).mpr
        ⟨mine.initialized, theirs.initialized⟩,
      unmoved.mpr fun id member => ⟨mine.unmoved id member, theirs.unmoved id member⟩⟩

/-- What borrows of a place there are is a matter of claims. -/
theorem borrowedAs_iff {allowed : BorrowKind → Prop} : t.BorrowedAs arena place allowed ↔
    ∀ claim ∈ t.borrows.map BorrowRecord.claim,
      arena.overlaps claim.2.1 place = true → allowed claim.2.2 := by
  rw [List.forall_mem_map]
  rfl

theorem borrowedAs_join {meaning : BorrowId → PlaceId × BorrowKind}
    (means : ∀ record ∈ t.borrows ++ u.borrows, meaning record.id = (record.place, record.kind))
    {allowed : BorrowKind → Prop} : (t.join u).BorrowedAs arena place allowed ↔
      t.BorrowedAs arena place allowed ∧ u.BorrowedAs arena place allowed := by
  simp only [borrowedAs_iff, mem_claims_join means, List.map_append, List.mem_append, or_imp,
    forall_and]

end Tracker

namespace Forks

/-- Where two trackers that were forked from one meet, each capability asked for any place is granted
exactly when both would have granted it. -/
theorem run_join (events : List Event) :
    ∀ t ∈ (run {} events).trackers, ∀ u ∈ (run {} events).trackers, ∀ place,
      let arena := (run {} events).arena
      ((t.join u).canRead arena place = .ok () ↔
        t.canRead arena place = .ok () ∧ u.canRead arena place = .ok ()) ∧
      ((t.join u).canMove arena place = .ok () ↔
        t.canMove arena place = .ok () ∧ u.canMove arena place = .ok ()) ∧
      ∀ kind, (t.join u).checkBorrow arena place kind = .ok () ↔
        t.checkBorrow arena place kind = .ok () ∧ u.checkBorrow arena place kind = .ok () := by
  intro t mine u theirs place arena
  obtain ⟨meaning, sound⟩ := (sound_start fun _ => (0, .shared)).run events
  have means : ∀ record ∈ t.borrows ++ u.borrows, meaning record.id = (record.place, record.kind) :=
    fun record member => (List.mem_append.mp member).elim
      (fun isMine => (sound.accords t mine record isMine).means)
      fun isTheirs => (sound.accords u theirs record isTheirs).means
  have borrowed (allowed : BorrowKind → Prop) : (t.join u).BorrowedAs arena place allowed ↔
      t.BorrowedAs arena place allowed ∧ u.BorrowedAs arena place allowed :=
    Tracker.borrowedAs_join means
  refine ⟨?_, ?_, fun kind => ?_⟩
  · rw [Tracker.canRead_eq_ok, Tracker.canRead_eq_ok, Tracker.canRead_eq_ok,
      Tracker.available_join, borrowed]
    exact and_and_and_comm
  · rw [Tracker.canMove_eq_ok, Tracker.canMove_eq_ok, Tracker.canMove_eq_ok,
      Tracker.available_join, borrowed]
    tauto
  · rw [Tracker.checkBorrow_eq_ok, Tracker.checkBorrow_eq_ok, Tracker.checkBorrow_eq_ok,
      Tracker.available_join, borrowed]
    exact and_and_and_comm

/-- On one path a binding is given a value and borrowed, on the other one it stays without a value; what
another binding points at is moved out of on that path. -/
def unlikePaths : List Event :=
  [.addLocal "x" none true false, .addLocal "y" none true false, .target 1 .box none,
    .act 0 (.declare 0 false), .act 0 (.declare 1 true), .fork 0, .act 0 (.markLive 0),
    .act 0 (.beginBorrow 0 .shared (some 1) true none), .act 1 (.markMoved 2)]

theorem unlikePaths_forked : 1 < (run {} unlikePaths).trackers.length := by decide +kernel

theorem run_join_unlikePaths :
    ∃ t ∈ (run {} unlikePaths).trackers, ∃ u ∈ (run {} unlikePaths).trackers,
      let arena := (run {} unlikePaths).arena
      (t.canRead arena 0).toBool = true ∧ (u.canRead arena 0).toBool = false ∧
      ((t.join u).canRead arena 0 = .ok () ↔
        t.canRead arena 0 = .ok () ∧ u.canRead arena 0 = .ok ()) ∧
      (t.checkBorrow arena 1 .exclusive).toBool = true ∧
      (u.checkBorrow arena 1 .exclusive).toBool = false ∧
      ((t.join u).checkBorrow arena 1 .exclusive = .ok () ↔
        t.checkBorrow arena 1 .exclusive = .ok () ∧ u.checkBorrow arena 1 .exclusive = .ok ()) :=
  have first := List.getElem_mem (Nat.lt_of_succ_lt unlikePaths_forked)
  have second := List.getElem_mem unlikePaths_forked
  ⟨_, first, _, second, by decide +kernel, by decide +kernel,
    (run_join unlikePaths _ first _ second 0).1, by decide +kernel, by decide +kernel,
    (run_join unlikePaths _ first _ second 1).2.2 .exclusive⟩

end Forks

end BorrowLang
