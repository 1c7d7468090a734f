import BorrowLang.Checker.Loans
import Mathlib.Data.Nat.Init

/-!
# Places without names

A binding's name is only shown.  What the tracker knows and answers about a place is the same in an
arena whose bindings have no names.
-/

set_option autoImplicit false

namespace BorrowLang

/-- A place without the name of its binding. -/
def Place.unnamed (place : Place) : Place :=
  match place.kind with
  | .local _ isMut isParam => { place with kind := .local "" isMut isParam }
  | .target _ _ => place

namespace Place

variable (place : Place)

@[simp] theorem unnamed_ty : place.unnamed.ty = place.ty := by
  unfold unnamed
  split <;> rfl

@[simp] theorem unnamed_child : place.unnamed.child = place.child := by
  unfold unnamed
  split <;> rfl

@[simp] theorem unnamed_parent : place.unnamed.parent = place.parent := by
  unfold unnamed
  split <;> simp_all [parent]

@[simp] theorem unnamed_via : place.unnamed.via = place.via := by
  unfold unnamed
  split <;> simp_all [via]

@[simp] theorem unnamed_isMut : place.unnamed.isMut = place.isMut := by
  unfold unnamed
  split <;> simp_all [isMut]

@[simp] theorem unnamed_isParam : place.unnamed.isParam = place.isParam := by
  unfold unnamed
  split <;> simp_all [isParam]

end Place

/-- An arena whose bindings have no names. -/
def Arena.unnamed (arena : Arena) : Arena := ⟨arena.places.map Place.unnamed⟩

namespace Arena

variable (arena : Arena) (id : PlaceId)

@[simp] theorem unnamed_size : arena.unnamed.size = arena.size := by simp [unnamed, size]

@[simp] theorem unnamed_place? :
    arena.unnamed.place? id = (arena.place? id).map Place.unnamed := by simp [unnamed, place?]

@[simp] theorem unnamed_ty? : arena.unnamed.ty? id = arena.ty? id := by
  simp [ty?, Option.bind_map, Function.comp_def]

@[simp] theorem unnamed_parent? : arena.unnamed.parent? id = arena.parent? id := by
  simp [parent?, Option.bind_map, Function.comp_def]

@[simp] theorem unnamed_via? : arena.unnamed.via? = arena.via? := by
  funext id
  simp [via?, Option.bind_map, Function.comp_def]

@[simp] theorem unnamed_child? : arena.unnamed.child? id = arena.child? id := by
  simp [child?, Option.bind_map, Function.comp_def]

@[simp] theorem unnamed_isMut : arena.unnamed.isMut id = arena.isMut id := by
  simp [isMut, Option.map_map, Function.comp_def]

@[simp] theorem unnamed_isParam : arena.unnamed.isParam id = arena.isParam id := by
  simp [isParam, Option.map_map, Function.comp_def]

@[simp] theorem unnamed_chain : arena.unnamed.chain id = arena.chain id := by
  induction id using Nat.strong_induction_on with
  | h id ih =>
      rw [chain, chain, unnamed_parent?]
      cases arena.parent? id with
      | none => rfl
      | some parent =>
          by_cases down : parent < id
          · simp [down, ih parent down]
          · simp [down]

@[simp] theorem unnamed_root : arena.unnamed.root id = arena.root id := by
  induction id using Nat.strong_induction_on with
  | h id ih =>
      rw [root, root, unnamed_parent?]
      cases arena.parent? id with
      | none => rfl
      | some parent =>
          by_cases down : parent < id
          · simp [down, ih parent down]
          · simp [down]

@[simp] theorem unnamed_descendants : arena.unnamed.descendants id = arena.descendants id := by
  induction above : arena.size - id using Nat.strong_induction_on generalizing id with
  | h count ih =>
      rw [descendants, descendants, unnamed_child?, unnamed_size]
      cases arena.child? id with
      | none => rfl
      | some child =>
          by_cases up : id < child ∧ child < arena.size
          · have fewer : arena.size - child < count :=
              above ▸ Nat.sub_lt_sub_left (Nat.lt_trans up.1 up.2) up.1
            simp [up, ih _ fewer child rfl]
          · simp [up]

@[simp] theorem unnamed_leadsTo (other : PlaceId) :
    arena.unnamed.leadsTo id other = arena.leadsTo id other := by simp [leadsTo]

@[simp] theorem unnamed_overlaps (other : PlaceId) :
    arena.unnamed.overlaps id other = arena.overlaps id other := by simp [overlaps]

@[simp] theorem unnamed_innermostRef : arena.unnamed.innermostRef id = arena.innermostRef id := by
  simp [innermostRef]

/-! ### Changes -/

theorem addLocal_unnamed (name : String) (ty : Option Ty) (isMut isParam : Bool) :
    (arena.addLocal name ty isMut isParam).1.unnamed =
      (arena.unnamed.addLocal "" ty isMut isParam).1 := by
  simp [addLocal, unnamed, Place.unnamed]

theorem map_modify {α β : Type} (f : α → β) (g : α → α) (h : β → β) (xs : Array α) (i : Nat)
    (commute : ∀ x, f (g x) = h (f x)) : (xs.modify i g).map f = (xs.map f).modify i h := by
  apply Array.ext_getElem?
  intro j
  simp only [Array.getElem?_map, Array.getElem?_modify]
  by_cases here : i = j
  · simp [here, commute, Function.comp_def]
  · simp [here]

theorem setTy_unnamed (ty : Option Ty) :
    (arena.setTy id ty).unnamed = arena.unnamed.setTy id ty := by
  unfold setTy unnamed
  rw [map_modify]
  intro place
  cases kind : place.kind <;> simp [Place.unnamed, kind]

theorem target_unnamed (via : Via) (ty : Option Ty) :
    arena.unnamed.target id via ty =
      ((arena.target id via ty).1.unnamed, (arena.target id via ty).2) := by
  unfold target
  rw [unnamed_child?]
  cases arena.child? id with
  | some child =>
      have same := map_modify Place.unnamed (fun place => { place with kind := .target id via, ty })
        (fun place => { place with kind := .target id via, ty }) arena.places child fun place => by
          rw [← Place.unnamed_child]
          rfl
      simp only [unnamed, same]
  | none =>
      have same := map_modify Place.unnamed (fun place => { place with child := some arena.size })
        (fun place => { place with child := some arena.size }) arena.places id fun place => by
          cases kind : place.kind <;> simp [Place.unnamed, kind]
      rw [unnamed_size]
      simp only [unnamed, Array.map_push, same]
      rfl

end Arena

/-! ### Trackers -/

namespace Tracker

variable (t : Tracker) (arena : Arena) (place : PlaceId)

@[simp] theorem movedOverlap_unnamed :
    t.movedOverlap arena.unnamed place = t.movedOverlap arena place := by simp [movedOverlap]

@[simp] theorem markLive_unnamed : t.markLive arena.unnamed place = t.markLive arena place := by
  simp [markLive]

@[simp] theorem borrowsOn_unnamed : t.borrowsOn arena.unnamed place = t.borrowsOn arena place := by
  simp [borrowsOn]

@[simp] theorem requireInitialized_unnamed :
    t.requireInitialized arena.unnamed place = t.requireInitialized arena place := by
  simp [requireInitialized]

@[simp] theorem requireUnmoved_unnamed (rule : Rule) :
    t.requireUnmoved arena.unnamed place rule = t.requireUnmoved arena place rule := by
  simp [requireUnmoved]

@[simp] theorem canRead_unnamed : t.canRead arena.unnamed place = t.canRead arena place := by
  simp [canRead]

@[simp] theorem canMove_unnamed : t.canMove arena.unnamed place = t.canMove arena place := by
  simp [canMove]

@[simp] theorem checkMutable_unnamed (toBorrow : Bool) :
    checkMutable arena.unnamed place toBorrow = checkMutable arena place toBorrow := by
  simp [checkMutable]

@[simp] theorem canWrite_unnamed : t.canWrite arena.unnamed place = t.canWrite arena place := by
  simp [canWrite]

@[simp] theorem checkBorrow_unnamed (kind : BorrowKind) :
    t.checkBorrow arena.unnamed place kind = t.checkBorrow arena place kind := by simp [checkBorrow]

@[simp] theorem beginBorrow_unnamed (id : BorrowId) (kind : BorrowKind) (holder : Option PlaceId)
    (pinned : Bool) (origin : Option Position) :
    t.beginBorrow arena.unnamed id place kind holder pinned origin =
      t.beginBorrow arena id place kind holder pinned origin := by simp [beginBorrow]

@[simp] theorem extendAlive_unnamed (alive : List PlaceId) :
    t.extendAlive arena.unnamed alive = t.extendAlive arena alive := by simp [extendAlive]

@[simp] theorem settleAlive_unnamed (rounds : Nat) (alive : List PlaceId) :
    t.settleAlive arena.unnamed rounds alive = t.settleAlive arena rounds alive := by
  induction rounds generalizing alive with
  | zero => rfl
  | succ rounds ih => simp [settleAlive, ih]

@[simp] theorem releaseDead_unnamed (isLive : PlaceId → Bool) :
    t.releaseDead arena.unnamed isLive = t.releaseDead arena isLive := by
  simp [releaseDead, aliveHolders]

@[simp] theorem danglingBorrow?_unnamed (dying : List PlaceId) :
    t.danglingBorrow? arena.unnamed dying = t.danglingBorrow? arena dying := by
  simp [danglingBorrow?]

@[simp] theorem popFrame_unnamed : t.popFrame arena.unnamed = t.popFrame arena := by
  simp [popFrame]

end Tracker

/-! ### Referents -/

theorem Arena.eq_of_unnamed {γ : Type} {f : Arena → γ} {a b : Arena}
    (blind : ∀ arena : Arena, f arena.unnamed = f arena) (same : a.unnamed = b.unnamed) :
    f a = f b := by
  rw [← blind a, same, blind b]

theorem Checker.referents_congr {s t : Checker.State} (tracker : t.tracker = s.tracker)
    (same : t.arena.unnamed = s.arena.unnamed) (fuel : Nat) (place : PlaceId) :
    referents t fuel place = referents s fuel place := by
  have innermost : ∀ id, t.arena.innermostRef id = s.arena.innermostRef id := fun id =>
    Arena.eq_of_unnamed (f := fun arena => arena.innermostRef id) (by simp) same
  have root : ∀ id, t.arena.root id = s.arena.root id := fun id =>
    Arena.eq_of_unnamed (f := fun arena => arena.root id) (by simp) same
  have isParam : ∀ id, t.arena.isParam id = s.arena.isParam id := fun id =>
    Arena.eq_of_unnamed (f := fun arena => arena.isParam id) (by simp) same
  have ty : ∀ id, t.arena.ty? id = s.arena.ty? id := fun id =>
    Arena.eq_of_unnamed (f := fun arena => arena.ty? id) (by simp) same
  have lead : ∀ id, t.lead id = s.lead id := fun id => by
    simp [State.lead, innermost, root, isParam, ty, tracker]
  induction fuel generalizing place with
  | zero => rw [referents, referents, lead]
  | succ fuel ih => rw [referents, referents, lead, funext ih]

end BorrowLang
