import BorrowLang.Proofs.Lifetimes.Trails
import BorrowLang.Proofs.Tracking.Operations

/-!
# Uses of places beside each other

What the strict check allows to be done with a place, the loose one allows too.  Borrows that a use
makes or passes on are made and passed on by both.
-/

set_option autoImplicit false

namespace BorrowLang.Checker

variable {gone : Released} {s t : State} {ctx ctx' : Context}

/-- No borrow of a value has been released. -/
def Free (gone : Released) (loans : List BorrowId) : Prop := ∀ id ∈ loans, gone.ids id = false

/-- A place that the strict check knows, of a binding that has not been released. -/
structure Reached (gone : Released) (t : State) (place : PlaceId) : Prop where
  there : place < t.arena.size
  kept : gone.holders (t.arena.root place) = false

/-- A binding that the strict check knows and that has not been released. -/
structure Present (gone : Released) (t : State) (holder : PlaceId) : Prop where
  there : holder < t.arena.size
  kept : gone.holders holder = false

theorem Reached.root {place : PlaceId} (reached : Reached gone t place) :
    Present gone t (t.arena.root place) :=
  ⟨Nat.lt_of_le_of_lt (Arena.root_le _ _) reached.there, reached.kept⟩

theorem Present.rooted {t' : State} {holder : PlaceId} (present : Present gone t holder)
    (rooted : t.arena.Rooted t'.arena) : Present gone t' holder :=
  ⟨Nat.lt_of_lt_of_le present.there rooted.size, present.kept⟩

theorem Reached.rooted {t' : State} {place : PlaceId} (reached : Reached gone t place)
    (rooted : t.arena.Rooted t'.arena) : Reached gone t' place where
  there := Nat.lt_of_lt_of_le reached.there rooted.size
  kept := by rw [rooted.root reached.there]; exact reached.kept

/-! ### What is allowed -/

namespace Trails

theorem movedOverlap (trails : Trails gone s t) (place : PlaceId) :
    s.tracker.movedOverlap s.arena place = t.tracker.movedOverlap t.arena place := by
  simp only [Tracker.movedOverlap, trails.arena, trails.states]

theorem requireInitialized (trails : Trails gone s t) (place : PlaceId) :
    s.tracker.requireInitialized s.arena place = t.tracker.requireInitialized t.arena place := by
  simp only [Tracker.requireInitialized, trails.arena, trails.states]

theorem requireUnmoved (trails : Trails gone s t) (place : PlaceId) (rule : Rule) :
    s.tracker.requireUnmoved s.arena place rule = t.tracker.requireUnmoved t.arena place rule := by
  simp only [Tracker.requireUnmoved, trails.movedOverlap]

theorem requireOwners (trails : Trails gone s t) (place : PlaceId) (owners : List PlaceId) :
    s.tracker.requireOwners place owners = t.tracker.requireOwners place owners := by
  induction owners with
  | nil => rfl
  | cons owner rest ih => simp only [Tracker.requireOwners, trails.states, ih]

/-- Where no borrow is in the way of the strict check, none is in the way of the loose one. -/
theorem requireNone (trails : Trails gone s t) {place : PlaceId} {rule? : BorrowRecord → Option Rule}
    (blind : ∀ record, rule? record.unpinned = rule? record)
    (allowed : Tracker.requireNone (t.tracker.borrowsOn t.arena place) place rule? = .ok ()) :
    Tracker.requireNone (s.tracker.borrowsOn s.arena place) place rule? = .ok () := by
  rw [Tracker.requireNone_eq_ok] at allowed ⊢
  intro record member
  have fewer := trails.borrows.filter (p := fun record => t.arena.overlaps record.place place)
    fun _ => rfl
  rw [trails.arena] at member
  obtain ⟨other, inTheirs, same⟩ := fewer.part record member
  rw [← blind record, ← same, blind other]
  exact allowed other inTheirs

theorem canRead (trails : Trails gone s t) {place : PlaceId}
    (allowed : t.tracker.canRead t.arena place = .ok ()) :
    s.tracker.canRead s.arena place = .ok () := by
  simp only [Tracker.canRead, bind_eq_ok] at allowed ⊢
  obtain ⟨_, initialized, _, unmoved, free⟩ := allowed
  exact ⟨(), trails.requireInitialized place ▸ initialized, (),
    trails.requireUnmoved place _ ▸ unmoved, trails.requireNone (fun _ => rfl) free⟩

theorem canMove (trails : Trails gone s t) {place : PlaceId}
    (allowed : t.tracker.canMove t.arena place = .ok ()) :
    s.tracker.canMove s.arena place = .ok () := by
  simp only [Tracker.canMove, bind_eq_ok] at allowed ⊢
  obtain ⟨_, initialized, _, unmoved, free⟩ := allowed
  refine ⟨(), trails.requireInitialized place ▸ initialized, (),
    trails.requireUnmoved place _ ▸ unmoved, ?_⟩
  rw [trails.arena]
  cases behind : t.arena.innermostRef place with
  | some via => simp [behind] at free
  | none =>
      rw [behind] at free
      exact trails.arena ▸ trails.requireNone (fun _ => rfl) free

theorem canWrite (trails : Trails gone s t) {place : PlaceId}
    (allowed : t.tracker.canWrite t.arena place = .ok ()) :
    s.tracker.canWrite s.arena place = .ok () := by
  simp only [Tracker.canWrite, bind_eq_ok] at allowed ⊢
  obtain ⟨_, owners, allowed⟩ := allowed
  refine ⟨(), by rw [trails.requireOwners, trails.arena]; exact owners, ?_⟩
  rw [trails.states, trails.arena]
  have free := @requireNone gone s t trails place (fun _ => some .assignBorrowed) fun _ => rfl
  rw [trails.arena] at free
  split at allowed
  · rename_i first
    rw [if_pos first]
    exact free allowed
  · rename_i later
    rw [if_neg later]
    obtain ⟨_, mutable, allowed⟩ := bind_eq_ok.mp allowed
    exact bind_eq_ok.mpr ⟨(), mutable, free allowed⟩

theorem checkBorrow (trails : Trails gone s t) {place : PlaceId} {kind : BorrowKind}
    (allowed : t.tracker.checkBorrow t.arena place kind = .ok ()) :
    s.tracker.checkBorrow s.arena place kind = .ok () := by
  simp only [Tracker.checkBorrow, bind_eq_ok] at allowed ⊢
  obtain ⟨_, initialized, _, unmoved, free⟩ := allowed
  exact ⟨(), trails.requireInitialized place ▸ initialized, (),
    trails.requireUnmoved place _ ▸ unmoved, trails.requireNone (fun _ => rfl) free⟩

/-- The borrows that a binding holds are the same, unless they have been released. -/
theorem heldBy (trails : Trails gone s t) (ledger : Ledger gone t) {holder : PlaceId}
    (kept : gone.holders holder = false) :
    (s.tracker.heldBy holder).map BorrowRecord.unpinned =
      (t.tracker.heldBy holder).map BorrowRecord.unpinned := by
  refine trails.borrows.filter_eq (fun _ => rfl) fun record member holds => ?_
  have isHolder : record.holder = some holder := by simpa using holds
  exact (ledger.records.each record member).kept (by simp [isHolder, kept])

theorem borrow? (trails : Trails gone s t) {id : BorrowId} (kept : gone.ids id = false) :
    (s.tracker.borrow? id).map BorrowRecord.unpinned =
      (t.tracker.borrow? id).map BorrowRecord.unpinned :=
  trails.borrows.find?_eq kept

end Trails

/-- Two checks go on side by side when they replace their borrows by others that correspond. -/
theorem Along.next {s' t' : State} (ledger : Ledger gone t) (trails : Trails gone s' t')
    (arena : t'.arena = t.arena) (scopes : t'.scopes = t.scopes) (live : t'.live = t.live)
    (more : t.nextBorrow ≤ t'.nextBorrow)
    (records : Registered gone t.arena t'.nextBorrow t'.tracker.borrows)
    (mine : Last s.tracker.borrows s'.tracker.borrows)
    (theirs : Last t.tracker.borrows t'.tracker.borrows) : Along gone s t s' t' where
  trails := trails
  ledger := by
    refine ⟨arena ▸ ledger.linked, ?_, arena ▸ records, ?_, fun id released =>
      Nat.lt_of_lt_of_le (ledger.ids id released) more⟩
    · rw [arena, scopes]
      exact ledger.bound
    · rw [arena]
      exact ledger.holders
  rooted := by rw [arena]; exact .refl _
  scopes := scopes
  live := live
  mine := mine
  theirs := theirs

/-! ### Reading and borrowing -/

theorem requireRead_follows (trails : Trails gone s t) (loc : Option Position) (place : PlaceId) :
    Follows (requireRead ctx' loc place) (requireRead ctx loc place) s t
      fun _ s' t' => s = s' ∧ t = t' :=
  guard_follows loc trails.canRead

/-- Both checks make a borrow of a place for a value. -/
theorem borrow_follows (trails : Trails gone s t) (ledger : Ledger gone t) {place : PlaceId}
    (reached : Reached gone t place) (loc : Option Position) (kind : BorrowKind) :
    Follows (borrow ctx' loc place kind) (borrow ctx loc place kind) s t
      fun loan s' t' => Along gone s t s' t' ∧ gone.ids loan = false := by
  unfold borrow
  refine follows_get _ ?_
  cases allowed : t.tracker.checkBorrow t.arena place kind with
  | error violation =>
      rw [Tracker.beginBorrow, Tracker.beginBorrow, allowed]
      trivial
  | ok _ =>
      rw [Tracker.beginBorrow, Tracker.beginBorrow, allowed, trails.checkBorrow allowed]
      have new := ledger.new (Nat.le_refl t.nextBorrow)
      refine ⟨_, by rw [← trails.next]; rfl, ?_, new⟩
      refine .next ledger { trails with next := by rw [trails.next], borrows := ?_ } rfl rfl rfl
        (Nat.le_succ _) ?_ (.append _ _) (.append _ _)
      · rw [trails.next]
        exact trails.borrows.append rfl
      · exact ledger.records.push rfl ⟨Nat.lt_succ_self _, reached.there,
          fun _ impossible => by simp at impossible, new, fun _ => reached.kept⟩

/-! ### Copying and moving -/

theorem renumbered_unpinned (next : BorrowId) (records : List BorrowRecord) :
    Tracker.renumbered next (records.map BorrowRecord.unpinned) = Tracker.renumbered next records := by
  induction records generalizing next with
  | nil => rfl
  | cons record rest ih =>
      rw [List.map_cons, Tracker.renumbered, Tracker.renumbered, ih]
      rfl

/-- Copies of borrows for a value are entered with the next numbers. -/
theorem Registered.renumbered {arena : Arena} {next : BorrowId} {records more : List BorrowRecord}
    (registered : Registered gone arena next records) (new : ∀ id, next ≤ id → gone.ids id = false)
    (reached : ∀ record ∈ more, record.place < arena.size ∧
      gone.holders (arena.root record.place) = false) :
    Registered gone arena (next + (Tracker.renumbered next more).length)
      (records ++ Tracker.renumbered next more) := by
  induction more generalizing next records with
  | nil => simpa [Tracker.renumbered] using registered
  | cons record rest ih =>
      obtain ⟨there, kept⟩ := reached record List.mem_cons_self
      have pushed := @Registered.push gone arena next records registered
        { record with id := next, holder := none, pinned := false } rfl
        ⟨Nat.lt_succ_self _, there, fun _ impossible => by simp at impossible,
          new next (Nat.le_refl _), fun _ => kept⟩
      have whole := ih pushed (fun id below => new id (Nat.le_of_succ_le below))
        fun other member => reached other (List.mem_cons_of_mem _ member)
      rw [Tracker.renumbered, List.length_cons, List.append_cons, Nat.add_comm _ 1, ← Nat.add_assoc]
      exact whole

/-- Copying a value copies the same shared borrows on both sides. -/
theorem cloneHeld_along (trails : Trails gone s t) (ledger : Ledger gone t) {holder : PlaceId}
    (kept : gone.holders holder = false) :
    let mine := s.tracker.cloneHeld s.nextBorrow holder
    let theirs := t.tracker.cloneHeld t.nextBorrow holder
    mine.2.2 = theirs.2.2 ∧ Free gone theirs.2.2 ∧
      Along gone s t { s with tracker := mine.1, nextBorrow := mine.2.1 }
        { t with tracker := theirs.1, nextBorrow := theirs.2.1 } := by
  have blind : ∀ record : BorrowRecord,
      decide (record.unpinned.kind = .shared) = decide (record.kind = .shared) := fun _ => rfl
  have copies : Tracker.renumbered s.nextBorrow
        ((s.tracker.heldBy holder).filter fun record => record.kind = .shared) =
      Tracker.renumbered t.nextBorrow
        ((t.tracker.heldBy holder).filter fun record => record.kind = .shared) := by
    rw [← renumbered_unpinned, Fewer.filter_map_unpinned blind, trails.heldBy ledger kept,
      ← Fewer.filter_map_unpinned blind, renumbered_unpinned, trails.next]
  intro mine theirs
  refine ⟨by simp only [mine, theirs, Tracker.cloneHeld, copies], ?_, ?_⟩
  · intro id member
    obtain ⟨record, isCopy, rfl⟩ := List.mem_map.mp member
    exact ledger.new (Tracker.mem_renumbered isCopy).1
  · refine .next ledger { trails with next := ?_, borrows := ?_ } rfl rfl rfl (Nat.le_add_right _ _)
      ?_ (.append _ _) (.append _ _)
    · simp only [mine, theirs, Tracker.cloneHeld, copies]
      rw [trails.next]
    · simp only [mine, theirs, Tracker.cloneHeld, copies]
      exact trails.borrows.append rfl
    · refine ledger.records.renumbered (fun id below => ledger.new below) fun record member => ?_
      have inHeld := List.mem_of_mem_filter member
      have entered := ledger.records.each record (List.mem_of_mem_filter inHeld)
      have isHolder : record.holder = some holder := by
        simpa [Tracker.heldBy] using (List.mem_filter.mp inHeld).2
      exact ⟨entered.there, entered.closed (entered.kept (by simp [isHolder, kept]))⟩

/-- Moving a binding's value takes the same borrows along on both sides. -/
theorem detach_along (trails : Trails gone s t) (ledger : Ledger gone t) {holder : PlaceId}
    (kept : gone.holders holder = false) :
    let mine := s.tracker.detach holder
    let theirs := t.tracker.detach holder
    mine.2 = theirs.2 ∧ Free gone theirs.2 ∧
      Along gone s t { s with tracker := mine.1 } { t with tracker := theirs.1 } := by
  have id : ∀ record : BorrowRecord,
      (if record.holder = some holder then { record with holder := none, pinned := false }
        else record).id = record.id := by
    intro record
    split <;> rfl
  have unpinned : ∀ record : BorrowRecord,
      (if record.holder = some holder then { record with holder := none, pinned := false }
        else record).unpinned =
      if record.unpinned.holder = some holder then
        { record.unpinned with holder := none, pinned := false } else record.unpinned :=
    fun _ => apply_ite BorrowRecord.unpinned _ _ _
  intro mine theirs
  refine ⟨?_, ?_, ?_⟩
  · have same := congrArg (List.map BorrowRecord.id) (trails.heldBy ledger kept)
    rw [List.map_map, List.map_map] at same
    exact same
  · intro loan member
    obtain ⟨record, inHeld, rfl⟩ := List.mem_map.mp member
    have isHolder : record.holder = some holder := by
      simpa [Tracker.heldBy] using (List.mem_filter.mp inHeld).2
    exact (ledger.records.each record (List.mem_of_mem_filter inHeld)).kept (by simp [isHolder, kept])
  · refine .next ledger { trails with borrows := trails.borrows.map unpinned unpinned id } rfl rfl rfl
      (Nat.le_refl _) (ledger.records.map id fun record member => ?_) (.map _ id) (.map _ id)
    have entered := ledger.records.each record member
    split
    · rename_i isHolder
      have stays := entered.kept (by simp [isHolder, kept])
      exact ⟨entered.fresh, entered.there, fun _ impossible => by simp at impossible, stays,
        entered.closed⟩
    · exact entered

/-! ### Places and their values -/

theorem lookup_follows (trails : Trails gone s t) (ledger : Ledger gone t) {name : String}
    (unreleased : Unreleased gone t.arena [name]) (loc : Option Position) :
    Follows (lookup ctx' loc name) (lookup ctx loc name) s t
      fun place s' t' => s = s' ∧ t = t' ∧ Reached gone t place := by
  unfold lookup
  refine follows_get _ ?_
  rw [trails.scopes]
  cases found : lookup? t.scopes name with
  | none => trivial
  | some place =>
      obtain ⟨scope, member, inScope⟩ := List.exists_of_findSome?_eq_some found
      obtain ⟨binding, isBinding, rfl⟩ := Option.map_eq_some_iff.mp inScope
      obtain ⟨there, isRoot, named⟩ :=
        ledger.bound scope member binding (List.mem_of_find?_eq_some isBinding)
      have isName : binding.1 = name := by simpa using List.find?_some isBinding
      refine ⟨s, rfl, rfl, rfl, there, ?_⟩
      rw [isRoot]
      cases released : gone.holders binding.2 with
      | false => rfl
      | true => exact absurd (by simp [named, isName]) (unreleased binding.2 released)

theorem typeOf_follows (trails : Trails gone s t) (loc : Option Position) (place : PlaceId) :
    Follows (typeOf ctx' loc place) (typeOf ctx loc place) s t
      fun ty s' t' => s = s' ∧ t = t' ∧ t.arena.ty? place = some ty := by
  unfold typeOf
  refine follows_get _ ?_
  rw [trails.arena]
  cases known : t.arena.ty? place with
  | some ty => exact ⟨s, rfl, rfl, rfl, rfl⟩
  | none =>
      refine (requireRead_follows trails loc place).bind fun _ s' t' _ => ?_
      exact follows_throw _ _ _

theorem target_follows (trails : Trails gone s t) (ledger : Ledger gone t) {place : PlaceId}
    (reached : Reached gone t place) (via : Via) (ty : Ty) :
    Follows (target place via ty) (target place via ty) s t
      fun id s' t' => Along gone s t s' t' ∧ Reached gone t' id := by
  unfold target
  refine follows_get _ ?_
  obtain ⟨linked, rooted, there, root⟩ :=
    Arena.target_rooted ledger.linked reached.there via (some ty)
  rw [trails.arena]
  generalize t.arena.target place via (some ty) = named at linked rooted there root ⊢
  refine follows_set _ ((follows_pure _ _).mpr ⟨⟨{ trails with arena := rfl }, ?_, rooted, rfl, rfl,
    .refl _, .refl _⟩, there, ?_⟩)
  · refine ⟨linked, fun scope member binding inScope => ?_, ledger.records.rooted rooted,
      fun holder released => Nat.lt_of_lt_of_le (ledger.holders holder released) rooted.size,
      ledger.ids⟩
    obtain ⟨bound, isRoot, named⟩ := ledger.bound scope member binding inScope
    exact ⟨Nat.lt_of_lt_of_le bound rooted.size, (rooted.root bound).trans isRoot,
      (rooted.name bound).trans named⟩
  · rw [root]
    exact reached.kept

theorem placeOf_follows (e : Expr) {s t : State} (trails : Trails gone s t) (ledger : Ledger gone t)
    (unreleased : Unreleased gone t.arena e.names) :
    Follows (placeOf ctx' e) (placeOf ctx e) s t
      fun place s' t' => Along gone s t s' t' ∧ Reached gone t' place := by
  induction e using placeOf.induct with
  | case1 loc ident =>
      rw [placeOf, placeOf]
      refine (lookup_follows trails ledger unreleased loc).mono ?_
      rintro place mine after ⟨rfl, rfl, reached⟩
      exact ⟨.refl trails ledger, reached⟩
  | case2 loc inner operand isMut ih =>
      rw [placeOf, placeOf]
      refine (ih (unreleased.subset fun name member => by simpa [Expr.names] using member)).bind ?_
      rintro place s' t' ⟨along, reached⟩
      refine follows_get _ ?_
      have allowed : Follows (do
            guard ctx' inner (s'.tracker.checkBorrow s'.arena place (.ofMut isMut))
            return place) (do
            guard ctx inner (t'.tracker.checkBorrow t'.arena place (.ofMut isMut))
            return place) s' t' fun place s'' t'' =>
          Along gone s t s'' t'' ∧ Reached gone t'' place := by
        refine (guard_follows inner along.trails.checkBorrow).bind ?_
        rintro _ _ _ ⟨rfl, rfl⟩
        exact (follows_pure _ _).mpr ⟨along, reached⟩
      cases isMut with
      | false => exact allowed
      | true =>
          refine (guard_follows inner fun ok => along.trails.arena ▸ ok).bind ?_
          rintro _ _ _ ⟨rfl, rfl⟩
          exact allowed
  | case3 loc operand notBorrow ih =>
      rw [placeOf, placeOf]
      · refine (ih (unreleased.subset fun name member => by simpa [Expr.names] using member)).bind ?_
        rintro base s' t' ⟨along, reached⟩
        refine (typeOf_follows along.trails operand.loc base).bind ?_
        rintro ty _ _ ⟨rfl, rfl, -⟩
        cases ty.pointee? with
        | none => exact follows_throw _ _ _
        | some inner =>
            refine (target_follows along.trails along.ledger reached _ inner).mono ?_
            rintro place s'' t'' ⟨next, reachedNext⟩
            exact ⟨along.trans next, reachedNext⟩
      all_goals exact notBorrow
  | case4 e notName notBorrow notDeref =>
      rw [placeOf.eq_4 ctx e notName notBorrow notDeref]
      exact follows_throw _ _ _

/-- The value of a place is copied or moved on both sides alike. -/
theorem usePlace_follows (trails : Trails gone s t) (ledger : Ledger gone t) {place : PlaceId}
    (reached : Reached gone t place) (loc : Option Position) :
    Follows (usePlace ctx' loc place) (usePlace ctx loc place) s t
      fun value s' t' => Along gone s t s' t' ∧ Free gone value.loans := by
  have free : Free gone [] := fun id impossible => by simp at impossible
  unfold usePlace
  refine (typeOf_follows trails loc place).bind ?_
  rintro ty _ _ ⟨rfl, rfl, -⟩
  split
  · refine (requireRead_follows trails loc place).bind ?_
    rintro _ _ _ ⟨rfl, rfl⟩
    split
    · refine follows_get _ ?_
      obtain ⟨same, freeCopies, along⟩ := cloneHeld_along trails ledger reached.kept
      rw [trails.arena] at along ⊢
      generalize Tracker.cloneHeld _ _ _ = mine at same along ⊢
      generalize Tracker.cloneHeld _ _ _ = theirs at same along freeCopies ⊢
      refine follows_set _ ?_
      rw [same]
      exact (follows_pure _ _).mpr ⟨along, freeCopies⟩
    · exact (follows_pure _ _).mpr ⟨.refl trails ledger, free⟩
  · refine follows_get _ ?_
    refine (guard_follows loc trails.canMove).bind ?_
    rintro _ _ _ ⟨rfl, rfl⟩
    rw [trails.arena]
    by_cases isLocal : (t.arena.parent? place).isNone
    · simp only [isLocal, if_true]
      have isRoot := Arena.root_of_parent?_none (Option.isNone_iff_eq_none.mp isLocal)
      obtain ⟨same, freeMoved, along⟩ := detach_along trails ledger (isRoot ▸ reached.kept)
      rw [trails.arena] at along
      generalize Tracker.detach _ _ = mine at same along ⊢
      generalize Tracker.detach _ _ = theirs at same along freeMoved ⊢
      refine follows_set _ ?_
      rw [same]
      refine (follows_pure _ _).mpr ⟨?_, freeMoved⟩
      refine { along with
        trails := { along.trails with states := ?_ }, ledger := { along.ledger with } }
      exact congrArg (Std.TreeMap.insert · place .moved) along.trails.states
    · simp only [isLocal, Bool.false_eq_true, if_false]
      refine follows_set _ ((follows_pure _ _).mpr ⟨?_, free⟩)
      refine .next ledger { trails with arena := rfl, states := ?_ } rfl rfl rfl (Nat.le_refl _) ledger.records
        (.refl _) (.refl _)
      exact congrArg (Std.TreeMap.insert · place .moved) trails.states

theorem reborrow?_follows (trails : Trails gone s t) (ledger : Ledger gone t) {arg : Expr}
    (unreleased : Unreleased gone t.arena arg.names) (param : Ty) :
    Follows (reborrow? ctx' arg param) (reborrow? ctx arg param) s t fun found s' t' =>
      Along gone s t s' t' ∧ ∀ value, found = some value → Free gone value.loans := by
  have plain : ∀ {s' t' : State}, Along gone s t s' t' →
      Follows (pure none : Check (Option Operand)) (pure none) s' t' fun found s' t' =>
        Along gone s t s' t' ∧ ∀ value, found = some value → Free gone value.loans :=
    fun along => (follows_pure _ _).mpr ⟨along, fun _ impossible => by simp at impossible⟩
  unfold reborrow?
  split
  · split
    · refine (placeOf_follows arg trails ledger unreleased).bind ?_
      rintro place s' t' ⟨along, reached⟩
      refine follows_get _ ?_
      rw [along.trails.arena]
      split
      · rename_i inner known
        refine (requireRead_follows along.trails arg.loc place).bind ?_
        rintro _ _ _ ⟨rfl, rfl⟩
        refine (target_follows along.trails along.ledger reached .mutRef inner).bind ?_
        rintro id _ _ ⟨named, reachedTarget⟩
        refine (borrow_follows named.trails named.ledger reachedTarget arg.loc .exclusive).bind ?_
        rintro loan _ _ ⟨borrowed, free⟩
        refine (follows_pure _ _).mpr ⟨along.trans (named.trans borrowed), ?_⟩
        rintro _ ⟨rfl⟩ id member
        rw [List.mem_singleton.mp member]
        exact free
      · exact plain along
    · exact plain (.refl trails ledger)
  · exact plain (.refl trails ledger)

end BorrowLang.Checker
