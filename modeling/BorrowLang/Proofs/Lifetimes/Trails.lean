import BorrowLang.Proofs.Lifetimes.Places
import BorrowLang.Proofs.Lifetimes.Records
import BorrowLang.Proofs.Typing.Passes

/-!
# Two checks of one program

A loose check goes beside a strict one.  Whatever the strict check answers, the loose one answers
too, and the loose one knows the same but for borrows that it has ended early.  A binding whose
borrows were ended early is not reached from any borrow that is still known.
-/

set_option autoImplicit false

namespace BorrowLang.Checker

variable {α β : Type} {gone : Released} {s t : State}

/-! ### What a check answers beside another -/

/-- What the second check answers, the first answers too, and the states after them are related. -/
def Follows (x y : Check α) (s t : State) (rel : α → State → State → Prop) : Prop :=
  Passes y t fun a after => ∃ mine, x s = (.ok a, mine) ∧ rel a mine after

theorem Follows.mono {x y : Check α} {rel rel' : α → State → State → Prop}
    (known : Follows x y s t rel) (weaker : ∀ a mine after, rel a mine after → rel' a mine after) :
    Follows x y s t rel' :=
  Passes.mono known fun a after ⟨mine, ended, related⟩ =>
    ⟨mine, ended, weaker a mine after related⟩

theorem Follows.bind {x y : Check β} {f g : β → Check α} {mid : β → State → State → Prop}
    {rel : α → State → State → Prop} (first : Follows x y s t mid)
    (next : ∀ b mine after, mid b mine after → Follows (f b) (g b) mine after rel) :
    Follows (x >>= f) (y >>= g) s t rel := by
  unfold Follows
  rw [Passes, meets_bind]
  refine Passes.mono first ?_
  rintro b after ⟨mine, ended, related⟩
  refine Passes.mono (next b mine after related) ?_
  rintro a last ⟨final, endedNext, relatedNext⟩
  refine ⟨final, ?_, relatedNext⟩
  rw [run_bind, ended]
  exact endedNext

section Rules

variable (rel : α → State → State → Prop)

theorem follows_pure (a : α) : Follows (pure a) (pure a) s t rel ↔ rel a s t :=
  ⟨fun ⟨_, ended, related⟩ => (Prod.mk.inj ended).2 ▸ related, fun related => ⟨s, rfl, related⟩⟩

theorem follows_throw (x : Check α) (fault : Fault) : Follows x (throw fault) s t rel := trivial

theorem follows_get {f g : State → Check α} (next : Follows (f s) (g t) s t rel) :
    Follows (get >>= f) (get >>= g) s t rel := next

theorem follows_set {s' t' : State} {f g : PUnit → Check α}
    (next : Follows (f ⟨⟩) (g ⟨⟩) s' t' rel) : Follows (set s' >>= f) (set t' >>= g) s t rel := next

theorem follows_modify {h k : State → State} {f g : PUnit → Check α}
    (next : Follows (f ⟨⟩) (g ⟨⟩) (h s) (k t) rel) :
    Follows (modify h >>= f) (modify k >>= g) s t rel := next

/-- A step that only the first check takes. -/
theorem follows_modify_left {h : State → State} {f : PUnit → Check α} {y : Check α}
    (next : Follows (f ⟨⟩) y (h s) t rel) : Follows (modify h >>= f) y s t rel := next

end Rules

/-- The check neither looks at the state nor changes it. -/
def Stateless (x : Check α) : Prop := ∃ result, ∀ s, x s = (result, s)

theorem stateless_pure (a : α) : Stateless (pure a : Check α) := ⟨.ok a, fun _ => rfl⟩

theorem stateless_throw (fault : Fault) : Stateless (throw fault : Check α) :=
  ⟨.error fault, fun _ => rfl⟩

theorem Stateless.bind {x : Check β} {f : β → Check α} (first : Stateless x)
    (next : ∀ b, Stateless (f b)) : Stateless (x >>= f) := by
  obtain ⟨result, known⟩ := first
  cases result with
  | error fault => exact ⟨.error fault, fun s => by rw [run_bind, known]⟩
  | ok b =>
      obtain ⟨last, knownNext⟩ := next b
      exact ⟨last, fun s => by rw [run_bind, known]; exact knownNext s⟩

theorem Stateless.follows {x : Check α} (stateless : Stateless x) :
    Follows x x s t fun _ mine after => s = mine ∧ t = after := by
  obtain ⟨result, known⟩ := stateless
  unfold Follows Passes Meets
  rw [known t]
  cases result with
  | error fault => trivial
  | ok a => exact ⟨s, known s, rfl, rfl⟩

/-- An answer of the tracker that is favourable on one side is favourable on the other. -/
theorem guard_follows {ctx ctx' : Context} (loc : Option Position)
    {mine theirs : Except Violation Unit} (allowed : theirs = .ok () → mine = .ok ()) :
    Follows (guard ctx' loc mine) (guard ctx loc theirs) s t
      fun _ s' t' => s = s' ∧ t = t' := by
  cases theirs with
  | ok _ =>
      rw [allowed rfl]
      exact ⟨s, rfl, rfl, rfl⟩
  | error violation => trivial

/-! ### States beside each other -/

/-- The first state knows what the second knows, but for borrows that are released. -/
structure Trails (gone : Released) (s t : State) : Prop where
  arena : s.arena = t.arena
  scopes : s.scopes = t.scopes
  live : s.live = t.live
  next : s.nextBorrow = t.nextBorrow
  states : s.tracker.states = t.tracker.states
  frames : s.tracker.frames = t.tracker.frames
  borrows : Fewer gone s.tracker.borrows t.tracker.borrows

/-- A borrow is released just when its holder is, and no other borrow is of the storage of a holder
that is released. -/
structure Entered (gone : Released) (arena : Arena) (next : BorrowId) (record : BorrowRecord) :
    Prop where
  fresh : record.id < next
  there : record.place < arena.size
  holder : ∀ holder ∈ record.holder, holder < arena.size
  held : gone.ids record.id = record.holder.any gone.holders
  closed : gone.ids record.id = false → gone.holders (arena.root record.place) = false

/-- Active borrows, in the order of their numbers. -/
structure Registered (gone : Released) (arena : Arena) (next : BorrowId)
    (records : List BorrowRecord) : Prop where
  ascending : (records.map (·.id)).Pairwise (· < ·)
  each : ∀ record ∈ records, Entered gone arena next record

/-- What holds of the strict check: bindings are where their names lead to, and whatever is released
was there. -/
structure Ledger (gone : Released) (t : State) : Prop where
  linked : t.arena.Linked
  bound : ∀ scope ∈ t.scopes, ∀ binding ∈ scope, binding.2 < t.arena.size ∧
    t.arena.root binding.2 = binding.2 ∧ t.arena.name binding.2 = binding.1
  records : Registered gone t.arena t.nextBorrow t.tracker.borrows
  holders : ∀ holder, gone.holders holder = true → holder < t.arena.size
  ids : ∀ id, gone.ids id = true → id < t.nextBorrow

/-- No binding with one of some names has been released. -/
def Unreleased (gone : Released) (arena : Arena) (names : List String) : Prop :=
  ∀ holder, gone.holders holder = true → arena.name holder ∉ names

/-- The numbers of borrows of the first list are in the second. -/
def Last (before after : List BorrowRecord) : Prop :=
  ∀ record ∈ before, ∃ other ∈ after, other.id = record.id

/-- Both checks have gone on side by side, and no borrow has ended. -/
structure Along (gone : Released) (s t s' t' : State) : Prop where
  trails : Trails gone s' t'
  ledger : Ledger gone t'
  rooted : t.arena.Rooted t'.arena
  scopes : t'.scopes = t.scopes
  live : t'.live = t.live
  mine : Last s.tracker.borrows s'.tracker.borrows
  theirs : Last t.tracker.borrows t'.tracker.borrows

theorem Last.refl (records : List BorrowRecord) : Last records records :=
  fun record member => ⟨record, member, rfl⟩

theorem Last.trans {a b c : List BorrowRecord} (first : Last a b) (second : Last b c) : Last a c := by
  intro record member
  obtain ⟨mid, inMid, same⟩ := first record member
  obtain ⟨other, inLast, sameNext⟩ := second mid inMid
  exact ⟨other, inLast, sameNext.trans same⟩

theorem Last.append (records more : List BorrowRecord) : Last records (records ++ more) :=
  fun record member => ⟨record, List.mem_append_left _ member, rfl⟩

theorem Last.map (records : List BorrowRecord) {f : BorrowRecord → BorrowRecord}
    (id : ∀ record, (f record).id = record.id) : Last records (records.map f) :=
  fun record member => ⟨f record, List.mem_map_of_mem member, id record⟩

theorem Last.repin {records others : List BorrowRecord}
    (same : others.map BorrowRecord.unpinned = records.map BorrowRecord.unpinned) :
    Last records others := by
  intro record member
  obtain ⟨other, isOther, unpinned⟩ := BorrowRecord.mem_of_unpinned same member
  exact ⟨other, isOther, (BorrowRecord.fields_of_unpinned unpinned).1⟩

theorem Along.refl (trails : Trails gone s t) (ledger : Ledger gone t) : Along gone s t s t :=
  ⟨trails, ledger, .refl _, rfl, rfl, .refl _, .refl _⟩

theorem Along.trans {s' t' s'' t'' : State} (first : Along gone s t s' t')
    (second : Along gone s' t' s'' t'') : Along gone s t s'' t'' where
  trails := second.trails
  ledger := second.ledger
  rooted := first.rooted.trans second.rooted
  scopes := second.scopes.trans first.scopes
  live := second.live.trans first.live
  mine := first.mine.trans second.mine
  theirs := first.theirs.trans second.theirs

theorem Unreleased.subset {arena : Arena} {names more : List String}
    (unreleased : Unreleased gone arena more) (part : ∀ name ∈ names, name ∈ more) :
    Unreleased gone arena names :=
  fun holder released member => unreleased holder released (part _ member)

/-- The names of the bindings that are released stay as they are. -/
theorem Unreleased.rooted {arena : Arena} {names : List String}
    (unreleased : Unreleased gone t.arena names) (ledger : Ledger gone t)
    (rooted : t.arena.Rooted arena) : Unreleased gone arena names := by
  intro holder released
  rw [rooted.name (ledger.holders holder released)]
  exact unreleased holder released

/-! ### Records of the strict check -/

theorem Entered.rooted {arena : Arena} {next : BorrowId} {record : BorrowRecord}
    (entered : Entered gone t.arena next record) (rooted : t.arena.Rooted arena) :
    Entered gone arena next record where
  fresh := entered.fresh
  there := Nat.lt_of_lt_of_le entered.there rooted.size
  holder binding isHolder := Nat.lt_of_lt_of_le (entered.holder binding isHolder) rooted.size
  held := entered.held
  closed keeps := by rw [rooted.root entered.there]; exact entered.closed keeps

/-- A borrow with a holder that is not released is not either. -/
theorem Entered.kept {arena : Arena} {next : BorrowId} {record : BorrowRecord}
    (entered : Entered gone arena next record) (kept : record.holder.any gone.holders = false) :
    gone.ids record.id = false := entered.held.trans kept

/-- The next number is not that of a borrow that was released. -/
theorem Ledger.new (ledger : Ledger gone t) {id : BorrowId} (new : t.nextBorrow ≤ id) :
    gone.ids id = false := by
  cases released : gone.ids id with
  | false => rfl
  | true => exact absurd (ledger.ids id released) (Nat.not_lt.mpr new)

namespace Registered

variable {arena : Arena} {next : BorrowId} {records : List BorrowRecord}

theorem rooted (registered : Registered gone t.arena next records)
    (rooted : t.arena.Rooted arena) : Registered gone arena next records :=
  ⟨registered.ascending, fun record member => (registered.each record member).rooted rooted⟩

theorem filter (registered : Registered gone arena next records) (p : BorrowRecord → Bool) :
    Registered gone arena next (records.filter p) where
  ascending := registered.ascending.sublist (List.filter_sublist.map _)
  each record member := registered.each record (List.mem_of_mem_filter member)

theorem map (registered : Registered gone arena next records) {f : BorrowRecord → BorrowRecord}
    (id : ∀ record, (f record).id = record.id)
    (each : ∀ record ∈ records, Entered gone arena next (f record)) :
    Registered gone arena next (records.map f) where
  ascending := by
    have same : (fun record : BorrowRecord => record.id) ∘ f = fun record => record.id := funext id
    rw [List.map_map, same]
    exact registered.ascending
  each record member := by
    obtain ⟨old, inRecords, rfl⟩ := List.mem_map.mp member
    exact each old inRecords

theorem repin {others : List BorrowRecord} (registered : Registered gone arena next records)
    (same : others.map BorrowRecord.unpinned = records.map BorrowRecord.unpinned) :
    Registered gone arena next others := by
  constructor
  · have ids := congrArg (List.map BorrowRecord.id) same
    rw [List.map_map, List.map_map] at ids
    have ids : others.map (·.id) = records.map (·.id) := ids
    rw [ids]
    exact registered.ascending
  · intro record member
    obtain ⟨old, inRecords, unpinned⟩ := BorrowRecord.mem_of_unpinned same.symm member
    obtain ⟨id, place, -, holder⟩ := BorrowRecord.fields_of_unpinned unpinned
    have entered := registered.each old inRecords
    exact ⟨id ▸ entered.fresh, place ▸ entered.there, holder ▸ entered.holder,
      id ▸ holder ▸ entered.held, id ▸ place ▸ entered.closed⟩

/-- A new borrow has the next number. -/
theorem push (registered : Registered gone arena next records) {record : BorrowRecord}
    (id : record.id = next) (entered : Entered gone arena (next + 1) record) :
    Registered gone arena (next + 1) (records ++ [record]) where
  ascending := by
    rw [List.map_append, List.pairwise_append]
    refine ⟨registered.ascending, List.pairwise_singleton _ _, ?_⟩
    intro old inOld new isNew
    obtain ⟨other, inRecords, rfl⟩ := List.mem_map.mp inOld
    obtain rfl : new = record.id := by simpa using isNew
    rw [id]
    exact (registered.each other inRecords).fresh
  each other member := by
    rcases List.mem_append.mp member with inRecords | isNew
    · have old := registered.each other inRecords
      exact ⟨Nat.lt_succ_of_lt old.fresh, old.there, old.holder, old.held, old.closed⟩
    · rw [List.mem_singleton.mp isNew]
      exact entered

end Registered

end BorrowLang.Checker
