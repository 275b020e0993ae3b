import Agentsfleet.Library.Run
import Agentsfleet.Library.SortedMap
import Agentsfleet.Nested.Registry
import Mathlib.Data.List.Nodup
import Mathlib.Data.List.Perm.Subperm
import Mathlib.Data.Prod.Lex

/-!
# The terminal sessions of one lease

The registry the calls of a run's loops share: a place is held before a process
starts, room is made at the cap from the session least recently used, and the
call that reads a session holds its process meanwhile.
-/

set_option autoImplicit false

namespace Agentsfleet.Terminal

open Agentsfleet.Library

def sessionsPerLeaseMax : Nat := 64
def sessionsProtected : Nat := 8

structure Session where
  used : Nat

structure Book where
  «open» : SortedMap Nat Session
  reserved : Nat
  uses : Nat

/-- A session as `pruned` sorts it. -/
structure Use where
  used : Nat
  id : Nat
  ended : Bool

namespace Use

def key (use : Use) : ℕ ×ₗ ℕ ×ₗ Bool := toLex (use.used, toLex (use.id, use.ended))

def le (left right : Use) : Bool := decide (left.key ≤ right.key)

end Use

namespace Book

def new : Book := ⟨SortedMap.empty, 0, 0⟩

/-- The sessions no call holds, least recently used first; `finished` tells whose
process ended. -/
def byUse (book : Book) (held finished : Nat → Bool) : List Use :=
  ((book.open.entries.filter fun entry => !held entry.1).map
    fun entry => Use.mk entry.2.used entry.1 (finished entry.1)).mergeSort Use.le

def pruned (book : Book) (held finished : Nat → Bool) : Option Nat :=
  let sorted := book.byUse held finished
  let candidates := sorted.take (sorted.length - sessionsProtected)
  ((candidates.find? Use.ended).or candidates.head?).map Use.id

def remove (book : Book) (id : Nat) : Book := { book with «open» := book.open.remove id }

def reserve (book : Book) : Book := { book with reserved := book.reserved + 1 }

/-- `make_room`: a place held, and the session it was made from at the cap. -/
def makeRoom (book : Book) (held finished : Nat → Bool) : Option Nat × Book :=
  let book := book.reserve
  if sessionsPerLeaseMax < book.open.size + book.reserved then
    match book.pruned held finished with
    | some id => (some id, book.remove id)
    | none => (none, book)
  else (none, book)

def release (book : Book) : Book := { book with reserved := book.reserved - 1 }

/-- `open`: the place becomes the session. -/
def openSession (book : Book) (id : Nat) : Book :=
  let uses := book.uses + 1
  let opened :=
    match book.open.get id with
    | some _ => book.open
    | none => book.open.insert id ⟨uses⟩
  { «open» := opened, reserved := book.reserved - 1, uses := uses }

/-- `get`: the session counts as used now. -/
def get (book : Book) (id : Nat) : Bool × Book :=
  let uses := book.uses + 1
  match book.open.get id with
  | some _ => (true, { book with «open» := book.open.insert id ⟨uses⟩, uses := uses })
  | none => (false, { book with uses := uses })

end Book

/-! ## The calls -/

inductive Phase where
  | idle
  /-- A place, from before its process starts. -/
  | placed
  /-- A place, and the process that started in it. -/
  | started (id : Nat)
  /-- A session it waits to read. -/
  | waiting (id : Nat)
  | reading (id : Nat)
deriving DecidableEq

namespace Phase

def holdsPlace : Phase → Bool
  | .placed => true
  | .started _ => true
  | _ => false

def session : Phase → Option Nat
  | .reading id => some id
  | _ => none

def reads (id : Nat) (phase : Phase) : Bool := decide (phase = .reading id)

end Phase

/-- The sessions and the calls on them.  `spawned` counts the executor's processes,
`opened` and `gone` tell which sessions came and which left. -/
structure Lease where
  book : Book
  loops : List Phase
  spawned : Nat
  opened : List Nat
  gone : List Nat

inductive CallEvent where
  /-- A loop's `exec_command` makes room; `finished` is what every process shows then. -/
  | makesRoom (loop : Nat) (finished : Nat → Bool)
  | spawns (loop : Nat)
  | opens (loop : Nat)
  /-- A loop's `write_stdin` asks for a session. -/
  | gets (loop : Nat) (id : Nat)
  | locks (loop : Nat)
  /-- A call replies; `ended` when the process had. -/
  | replies (loop : Nat) (ended : Bool)
  /-- A call fails, or its future is dropped. -/
  | dropped (loop : Nat)
  /-- Every session is ended (`close_all`). -/
  | closesAll

namespace Lease

def runLoops : Nat := 1 + Nested.childrenPerRunMax

def new (loops : Nat) : Lease := ⟨Book.new, List.replicate loops .idle, 0, [], []⟩

/-- Whether a call holds the process of session `id`. -/
def held (s : Lease) (id : Nat) : Bool := s.loops.any (Phase.reads id)

def close (s : Lease) (id : Nat) : Lease :=
  match s.book.open.get id with
  | some _ => { s with book := s.book.remove id, gone := s.gone ++ [id] }
  | none => s

def makesRoom (s : Lease) (loop : Nat) (finished : Nat → Bool) : Lease :=
  let (pruned, book) := s.book.makeRoom s.held finished
  { s with
    book := book
    loops := s.loops.set loop .placed
    gone := s.gone ++ pruned.toList }

def drops (s : Lease) (loop : Nat) (phase : Phase) : Lease :=
  { s with
    book := if phase.holdsPlace then s.book.release else s.book
    loops := s.loops.set loop .idle }

def opens (s : Lease) (loop id : Nat) : Lease :=
  { s with
    book := s.book.openSession id
    loops := s.loops.set loop (.waiting id)
    opened := s.opened ++ [id] }

def gets (s : Lease) (loop id : Nat) : Lease :=
  let (found, book) := s.book.get id
  { s with book := book, loops := if found then s.loops.set loop (.waiting id) else s.loops }

def closesAll (s : Lease) : Lease :=
  { s with
    book := { s.book with «open» := SortedMap.empty }
    gone := s.gone ++ s.book.open.keys }

def step (s : Lease) : CallEvent → Lease
  | .makesRoom loop finished =>
      match s.loops[loop]? with
      | some .idle => s.makesRoom loop finished
      | _ => s
  | .spawns loop =>
      match s.loops[loop]? with
      | some .placed =>
          { s with spawned := s.spawned + 1, loops := s.loops.set loop (.started s.spawned) }
      | _ => s
  | .opens loop =>
      match s.loops[loop]? with
      | some (.started id) => s.opens loop id
      | _ => s
  | .gets loop id =>
      match s.loops[loop]? with
      | some .idle => s.gets loop id
      | _ => s
  | .locks loop =>
      match s.loops[loop]? with
      | some (.waiting id) =>
          if s.held id then s else { s with loops := s.loops.set loop (.reading id) }
      | _ => s
  | .replies loop ended =>
      match s.loops[loop]? with
      | some (.reading id) =>
          let left := if ended then s.close id else s
          { left with loops := s.loops.set loop .idle }
      | _ => s
  | .dropped loop =>
      match s.loops[loop]? with
      | some phase => s.drops loop phase
      | none => s
  | .closesAll => s.closesAll

end Lease

/-! ## What room is made from -/

namespace Use

theorem le_trans (a b c : Use) (first : a.le b = true) (second : b.le c = true) :
    a.le c = true := by
  rw [le, decide_eq_true_eq] at first second ⊢
  exact Preorder.le_trans _ _ _ first second

theorem le_total (a b : Use) : (a.le b || b.le a) = true := by
  rw [le, le, Bool.or_eq_true, decide_eq_true_eq, decide_eq_true_eq]
  exact LinearOrder.le_total _ _

theorem used_le {a b : Use} (before : a.le b = true) : a.used ≤ b.used := by
  rw [le, decide_eq_true_eq, key, key, Prod.Lex.toLex_le_toLex] at before
  rcases before with less | same
  · exact less.le
  · exact same.1.le

end Use

namespace Book

def unheld (book : Book) (held finished : Nat → Bool) : List Use :=
  (book.open.entries.filter fun entry => !held entry.1).map
    fun entry => Use.mk entry.2.used entry.1 (finished entry.1)

theorem unheld_length (book : Book) (held finished : Nat → Bool) :
    (book.unheld held finished).length + book.open.keys.countP held = book.open.size := by
  rw [unheld, SortedMap.keys, SortedMap.size, List.length_map]
  induction book.open.entries with
  | nil => rfl
  | cons entry rest ih =>
      rw [List.filter_cons, List.map_cons, List.countP_cons, List.length_cons, ← ih]
      cases taken : held entry.1 with
      | true => rfl
      | false => exact Nat.succ_add _ _

theorem byUse_perm (book : Book) (held finished : Nat → Bool) :
    (book.byUse held finished).Perm (book.unheld held finished) :=
  List.mergeSort_perm _ _

theorem byUse_sorted (book : Book) (held finished : Nat → Bool) :
    (book.byUse held finished).Pairwise fun a b => a.le b = true :=
  List.pairwise_mergeSort Use.le_trans Use.le_total _

theorem pruned_isSome {book : Book} {held finished : Nat → Bool}
    (free : sessionsProtected < (book.unheld held finished).length) :
    (book.pruned held finished).isSome = true := by
  rw [← (book.byUse_perm held finished).length_eq] at free
  have some_left : 0 < ((book.byUse held finished).take
      ((book.byUse held finished).length - sessionsProtected)).length := by
    rw [List.length_take]
    omega
  have first := List.head?_eq_some_head (List.ne_nil_of_length_pos some_left)
  rw [pruned, Option.isSome_map, Option.isSome_or, first, Option.isSome_some, Bool.or_true]

structure Timed (book : Book) : Prop where
  past : ∀ id session, book.open.get id = some session → session.used ≤ book.uses
  apart : ∀ first second a b, book.open.get first = some a → book.open.get second = some b →
    a.used = b.used → first = second

/-- How many sessions were used after `instant`. -/
def usedAfter (book : Book) (instant : Nat) : Nat :=
  book.open.entries.countP fun entry => decide (instant < entry.2.used)

theorem pruned_spec {book : Book} (timed : book.Timed) {held finished : Nat → Bool} {id : Nat}
    (found : book.pruned held finished = some id) :
    ∃ session, book.open.get id = some session ∧ held id = false ∧
      sessionsProtected ≤ book.usedAfter session.used := by
  have sorted := book.byUse_sorted held finished
  have perm := book.byUse_perm held finished
  rw [pruned] at found
  generalize book.byUse held finished = uses at sorted perm found
  obtain ⟨use, picked, rfl⟩ := Option.map_eq_some_iff.mp found
  have candidate : use ∈ uses.take (uses.length - sessionsProtected) := by
    cases ended : (uses.take (uses.length - sessionsProtected)).find? Use.ended with
    | some other =>
        rw [ended, Option.some_or, Option.some.injEq] at picked
        exact picked ▸ List.mem_of_find?_eq_some ended
    | none =>
        rw [ended, Option.none_or] at picked
        exact List.mem_of_head? picked
  have listed : ∀ other ∈ uses, ∃ session, book.open.get other.id = some session ∧
      other.used = session.used ∧ held other.id = false := by
    intro other member
    obtain ⟨entry, inside, rfl⟩ := List.mem_map.mp (perm.subset member)
    obtain ⟨stands, free⟩ := List.mem_filter.mp inside
    exact ⟨entry.2, (book.open.mem_entries_iff _ _).mp stands, rfl, by simpa using free⟩
  obtain ⟨session, stands, used, free⟩ := listed use (List.mem_of_mem_take candidate)
  refine ⟨session, stands, free, ?_⟩
  have some_left := List.length_pos_of_mem candidate
  rw [List.length_take] at some_left
  rw [← List.take_append_drop (uses.length - sessionsProtected) uses] at sorted
  have apart : uses.Pairwise fun a b => a.id ≠ b.id := by
    refine (perm.pairwise_iff fun differ => Ne.symm differ).mpr (List.pairwise_map.mpr ?_)
    exact (book.open.ascending.filter _).imp fun below => ne_of_lt below
  rw [← List.take_append_drop (uses.length - sessionsProtected) uses] at apart
  have later : ∀ other ∈ uses.drop (uses.length - sessionsProtected),
      decide (session.used < other.used) = true := by
    intro other member
    have after := Use.used_le ((List.pairwise_append.mp sorted).2.2 use candidate other member)
    obtain ⟨its, standing, itsUse, _⟩ := listed other (List.mem_of_mem_drop member)
    rw [decide_eq_true_eq, ← used]
    refine Nat.lt_of_le_of_ne after fun same => ?_
    have one := timed.apart _ _ _ _ stands standing (used.symm.trans (same.trans itsUse))
    exact (List.pairwise_append.mp apart).2.2 use candidate other member one
  have kept : sessionsProtected = (uses.drop (uses.length - sessionsProtected)).length := by
    rw [List.length_drop]
    omega
  calc sessionsProtected
    _ = (uses.drop (uses.length - sessionsProtected)).countP
          fun other => decide (session.used < other.used) := by
        rw [List.countP_eq_length.mpr later, ← kept]
    _ ≤ uses.countP fun other => decide (session.used < other.used) :=
        (List.drop_sublist _ _).countP_le
    _ = (book.unheld held finished).countP fun other => decide (session.used < other.used) :=
        perm.countP_eq _
    _ ≤ book.usedAfter session.used := by
        rw [unheld, List.countP_map]
        exact List.filter_sublist.countP_le

namespace Timed

variable {book : Book}

theorem remove (timed : book.Timed) (id : Nat) : (book.remove id).Timed := by
  have before : ∀ other session, (book.remove id).open.get other = some session →
      book.open.get other = some session := by
    intro other session found
    rw [Book.remove, SortedMap.get_remove] at found
    split at found
    · nomatch found
    · exact found
  exact ⟨fun other session found => timed.past other session (before other session found),
    fun first second a b one two => timed.apart first second a b (before first a one)
      (before second b two)⟩

theorem use (timed : book.Timed) (id reserved : Nat) :
    (Book.mk (book.open.insert id ⟨book.uses + 1⟩) reserved (book.uses + 1)).Timed := by
  refine ⟨fun other session found => ?_, fun first second a b one two same => ?_⟩
  · rw [SortedMap.get_insert] at found
    split at found
    · cases found
      exact Nat.le_refl _
    · exact Nat.le_succ_of_le (timed.past other session found)
  · rw [SortedMap.get_insert] at one two
    split at one
    next here =>
      split at two
      next there => exact here.trans there.symm
      next =>
        cases one
        have earlier := timed.past second b two
        dsimp only at same
        omega
    next =>
      split at two
      next =>
        cases two
        have earlier := timed.past first a one
        dsimp only at same
        omega
      next => exact timed.apart first second a b one two same

theorem later (timed : book.Timed) (reserved : Nat) :
    (Book.mk book.open reserved (book.uses + 1)).Timed :=
  ⟨fun id session found => Nat.le_succ_of_le (timed.past id session found), timed.apart⟩

end Timed

theorem size_remove {book : Book} {id : Nat} {session : Session}
    (found : book.open.get id = some session) :
    (book.remove id).open.size + 1 = book.open.size := by
  have held : id ∈ book.open.keys :=
    (book.open.mem_keys_iff id).mpr (Option.isSome_iff_exists.mpr ⟨session, found⟩)
  have fewer := (book.open.keys_remove_perm held).length_eq
  rwa [List.length_cons, SortedMap.keys, SortedMap.keys, List.length_map, List.length_map] at fewer

end Book

/-! ## What holds of a lease -/

namespace Lease

theorem places_set {loops : List Phase} {loop : Nat} {old : Phase}
    (found : loops[loop]? = some old) (new : Phase) :
    (loops.set loop new).countP Phase.holdsPlace + (if old.holdsPlace then 1 else 0) =
      loops.countP Phase.holdsPlace + (if new.holdsPlace then 1 else 0) := by
  obtain ⟨inside, rfl⟩ := List.getElem?_eq_some_iff.mp found
  have counted := List.boole_getElem_le_countP (p := Phase.holdsPlace) inside
  rw [List.countP_set inside]
  omega

theorem holds_le (loops : List Phase) :
    (loops.filterMap Phase.session).length + loops.countP Phase.holdsPlace ≤ loops.length := by
  induction loops with
  | nil => exact Nat.le_refl _
  | cons phase rest ih =>
      rw [List.filterMap_cons, List.countP_cons, List.length_cons]
      -- Each phase adds to one of the two counts at most.
      cases phase with
      | idle => exact Nat.le_succ_of_le ih
      | placed => exact Nat.succ_le_succ ih
      | started id => exact Nat.succ_le_succ ih
      | waiting id => exact Nat.le_succ_of_le ih
      | reading id =>
          have one_more : (rest.filterMap Phase.session).length + 1 +
              (rest.countP Phase.holdsPlace + 0) ≤ rest.length + 1 := by
            omega
          exact one_more

theorem held_le (s : Lease) :
    s.book.open.keys.countP s.held + s.loops.countP Phase.holdsPlace ≤ s.loops.length := by
  have inside : s.book.open.keys.filter s.held ⊆ s.loops.filterMap Phase.session := by
    intro id member
    obtain ⟨phase, listed, reads⟩ := List.any_eq_true.mp (List.mem_filter.mp member).2
    rw [of_decide_eq_true reads] at listed
    exact List.mem_filterMap.mpr ⟨_, listed, rfl⟩
  have fewer := (List.subperm_of_subset (s.book.open.keys_nodup.filter _) inside).length_le
  have bound := holds_le s.loops
  rw [List.countP_eq_length_filter]
  omega

structure Kept (s : Lease) : Prop where
  counted : s.book.reserved = s.loops.countP Phase.holdsPlace
  bounded : s.book.open.size + s.book.reserved ≤ sessionsPerLeaseMax
  timed : s.book.Timed
  /-- Each session is open or has left, once. -/
  once : (s.gone ++ s.book.open.keys).Perm s.opened
  fresh : s.opened.Nodup
  named : ∀ id ∈ s.opened, id < s.spawned
  starting : ∀ (loop id : Nat), s.loops[loop]? = some (Phase.started id) →
    id < s.spawned ∧ id ∉ s.opened
  alone : ∀ (loop other id : Nat), s.loops[loop]? = some (Phase.started id) →
    s.loops[other]? = some (Phase.started id) → loop = other

theorem started_set {loops : List Phase} {loop other id : Nat} {phase : Phase}
    (found : (loops.set loop phase)[other]? = some (Phase.started id))
    (starts : ∀ id, phase = .started id → False) :
    loops[other]? = some (Phase.started id) := by
  rw [List.getElem?_set] at found
  split at found
  · split at found
    · exact (starts id (Option.some.inj found)).elim
    · nomatch found
  · exact found

namespace Kept

variable {s : Lease}

theorem phase (kept : s.Kept) {loop : Nat} (phase : Phase)
    (starts : ∀ id, phase = .started id → False) {book : Book} {gone : List Nat}
    (counted : book.reserved = (s.loops.set loop phase).countP Phase.holdsPlace)
    (bounded : book.open.size + book.reserved ≤ sessionsPerLeaseMax) (timed : book.Timed)
    (once : (gone ++ book.open.keys).Perm s.opened) :
    ({ s with book := book, loops := s.loops.set loop phase, gone := gone } : Lease).Kept := by
  refine ⟨counted, bounded, timed, once, kept.fresh, kept.named, ?_, ?_⟩
  · intro other id here
    exact kept.starting other id (started_set here starts)
  · intro first second id one two
    exact kept.alone first second id (started_set one starts) (started_set two starts)

theorem makesRoom (kept : s.Kept) (room : s.loops.length + sessionsProtected < sessionsPerLeaseMax)
    {loop : Nat} (found : s.loops[loop]? = some Phase.idle) (finished : Nat → Bool) :
    (s.makesRoom loop finished).Kept := by
  have places : (s.loops.set loop .placed).countP Phase.holdsPlace =
      s.loops.countP Phase.holdsPlace + 1 := by
    simpa [Phase.holdsPlace] using places_set found .placed
  have bounded := kept.bounded
  have counted := kept.counted
  have held := held_le s
  have timed : s.book.reserve.Timed := ⟨kept.timed.past, kept.timed.apart⟩
  have placed : s.book.reserve.reserved = s.book.reserved + 1 := rfl
  have same : s.book.reserve.open = s.book.open := rfl
  rw [Lease.makesRoom, Book.makeRoom]
  dsimp only
  split
  next full =>
    cases pruned : s.book.reserve.pruned s.held finished with
    | none =>
        -- The loops are too few to hold all but the protected.
        have all := s.book.reserve.unheld_length s.held finished
        rw [same] at all full
        have free : sessionsProtected < (s.book.reserve.unheld s.held finished).length := by
          omega
        have some_ := Book.pruned_isSome free
        rw [pruned] at some_
        nomatch some_
    | some id =>
        obtain ⟨session, stands, _⟩ := Book.pruned_spec timed pruned
        have smaller := Book.size_remove stands
        have left : (s.book.reserve.remove id).reserved = s.book.reserved + 1 := rfl
        rw [same] at stands smaller
        have was : id ∈ s.book.open.keys :=
          (s.book.open.mem_keys_iff id).mpr (Option.isSome_iff_exists.mpr ⟨session, stands⟩)
        dsimp only
        refine kept.phase .placed nofun ?_ ?_ (timed.remove id) ?_
        · omega
        · omega
        · rw [Option.toList_some, List.append_assoc]
          exact ((s.book.open.keys_remove_perm was).append_left _).trans kept.once
  next small =>
    dsimp only
    refine kept.phase .placed nofun ?_ (Nat.not_lt.mp small) timed ?_
    · omega
    · rw [Option.toList_none, List.append_nil]
      exact kept.once

theorem drops (kept : s.Kept) {loop : Nat} {phase : Phase} (found : s.loops[loop]? = some phase) :
    (s.drops loop phase).Kept := by
  have places := places_set found .idle
  have bounded := kept.bounded
  have counted := kept.counted
  rw [Lease.drops]
  cases holds : phase.holdsPlace with
  | true =>
      refine kept.phase .idle nofun ?_ ?_ ⟨kept.timed.past, kept.timed.apart⟩ kept.once
      · rw [holds] at places
        simp only [if_true, Book.release, Phase.holdsPlace, Bool.false_eq_true, if_false]
          at places ⊢
        omega
      · simp only [if_true, Book.release]
        omega
  | false =>
      refine kept.phase .idle nofun ?_ bounded kept.timed kept.once
      rw [holds] at places
      simp only [Phase.holdsPlace, Bool.false_eq_true, if_false] at places ⊢
      omega

theorem spawns (kept : s.Kept) {loop : Nat} (found : s.loops[loop]? = some Phase.placed) :
    ({ s with spawned := s.spawned + 1, loops := s.loops.set loop (.started s.spawned) } :
      Lease).Kept := by
  have places : (s.loops.set loop (.started s.spawned)).countP Phase.holdsPlace =
      s.loops.countP Phase.holdsPlace := by
    simpa [Phase.holdsPlace] using places_set found (.started s.spawned)
  have was : ∀ other id, (s.loops.set loop (.started s.spawned))[other]? =
      some (Phase.started id) → loop = other ∧ id = s.spawned ∨
        s.loops[other]? = some (Phase.started id) := by
    intro other id here
    rw [List.getElem?_set] at here
    split at here
    next same =>
      split at here
      · cases here
        exact .inl ⟨same, rfl⟩
      · nomatch here
    next => exact .inr here
  refine ⟨kept.counted.trans places.symm, kept.bounded, kept.timed, kept.once, kept.fresh, ?_,
    ?_, ?_⟩
  · exact fun id member => Nat.lt_succ_of_lt (kept.named id member)
  · intro other id here
    rcases was other id here with ⟨_, rfl⟩ | old
    · exact ⟨Nat.lt_succ_self _, fun member => Nat.lt_irrefl _ (kept.named _ member)⟩
    · obtain ⟨before, absent⟩ := kept.starting other id old
      exact ⟨Nat.lt_succ_of_lt before, absent⟩
  · intro first second id one two
    rcases was first id one with ⟨here, rfl⟩ | old
    · rcases was second _ two with ⟨there, _⟩ | other
      · exact here.symm.trans there
      · exact absurd (kept.starting second _ other).1 (Nat.lt_irrefl _)
    · rcases was second id two with ⟨_, rfl⟩ | other
      · exact absurd (kept.starting first _ old).1 (Nat.lt_irrefl _)
      · exact kept.alone first second id old other

theorem opens (kept : s.Kept) {loop id : Nat} (found : s.loops[loop]? = some (Phase.started id)) :
    (s.opens loop id).Kept := by
  have places : (s.loops.set loop (.waiting id)).countP Phase.holdsPlace + 1 =
      s.loops.countP Phase.holdsPlace := by
    simpa [Phase.holdsPlace] using places_set found (.waiting id)
  obtain ⟨before, absent⟩ := kept.starting loop id found
  have bounded := kept.bounded
  have counted := kept.counted
  have unopened : s.book.open.get id = none := by
    cases there : s.book.open.get id with
    | none => rfl
    | some session =>
        have key : id ∈ s.book.open.keys :=
          (s.book.open.mem_keys_iff id).mpr (Option.isSome_iff_exists.mpr ⟨session, there⟩)
        exact absurd (kept.once.subset (List.mem_append_right _ key)) absent
  have more := s.book.open.size_insert_le id ⟨s.book.uses + 1⟩
  rw [Lease.opens, Book.openSession, unopened]
  refine ⟨?_, ?_, kept.timed.use id _, ?_, ?_, ?_, ?_, ?_⟩
  · dsimp only
    omega
  · dsimp only
    omega
  · have added := s.book.open.keys_insert_perm ⟨s.book.uses + 1⟩ unopened
    exact ((added.append_left _).trans List.perm_middle).trans
      ((kept.once.cons id).trans (List.perm_append_singleton id s.opened).symm)
  · exact List.Nodup.append kept.fresh (List.nodup_singleton id)
      (List.disjoint_singleton.mpr absent)
  · intro other member
    rcases List.mem_append.mp member with old | new
    · exact kept.named other old
    · rw [List.mem_singleton.mp new]
      exact before
  · intro other process here
    have old := started_set here nofun
    obtain ⟨early, elsewhere⟩ := kept.starting other process old
    refine ⟨early, fun member => ?_⟩
    rcases List.mem_append.mp member with opened | new
    · exact elsewhere opened
    · rw [List.mem_singleton.mp new] at here old
      -- The loop that opened it starts nothing any more.
      have same := kept.alone loop other id found old
      obtain ⟨inside, _⟩ := List.getElem?_eq_some_iff.mp found
      rw [← same, List.getElem?_set_self inside] at here
      nomatch here
  · intro first second process one two
    exact kept.alone first second process (started_set one nofun) (started_set two nofun)

theorem gets (kept : s.Kept) {loop : Nat} (found : s.loops[loop]? = some Phase.idle) (id : Nat) :
    (s.gets loop id).Kept := by
  have places : (s.loops.set loop (.waiting id)).countP Phase.holdsPlace =
      s.loops.countP Phase.holdsPlace := by
    simpa [Phase.holdsPlace] using places_set found (.waiting id)
  have counted := kept.counted.trans places.symm
  rw [Lease.gets, Book.get]
  cases there : s.book.open.get id with
  | none =>
      exact ⟨kept.counted, kept.bounded, kept.timed.later _, kept.once, kept.fresh, kept.named,
        kept.starting, kept.alone⟩
  | some session =>
      have key : id ∈ s.book.open.keys :=
        (s.book.open.mem_keys_iff id).mpr (Option.isSome_iff_exists.mpr ⟨session, there⟩)
      have keys := s.book.open.keys_insert_of_mem ⟨s.book.uses + 1⟩ key
      refine kept.phase (.waiting id) nofun counted ?_ (kept.timed.use id _) ?_
      · have size := congrArg List.length keys
        rw [SortedMap.keys, SortedMap.keys, List.length_map, List.length_map] at size
        have bounded := kept.bounded
        dsimp only
        rw [SortedMap.size] at bounded ⊢
        omega
      · dsimp only
        rw [keys]
        exact kept.once

theorem replies (kept : s.Kept) {loop id : Nat} (found : s.loops[loop]? = some (Phase.reading id))
    (ended : Bool) : (s.step (.replies loop ended)).Kept := by
  have places : (s.loops.set loop .idle).countP Phase.holdsPlace =
      s.loops.countP Phase.holdsPlace := by
    simpa [Phase.holdsPlace] using places_set found .idle
  have counted := kept.counted.trans places.symm
  have alone : ({ s with loops := s.loops.set loop .idle } : Lease).Kept :=
    kept.phase .idle nofun counted kept.bounded kept.timed kept.once
  rw [Lease.step, found]
  dsimp only
  cases ended with
  | false => exact alone
  | true =>
      rw [if_pos rfl, Lease.close]
      cases there : s.book.open.get id with
      | none => exact alone
      | some session =>
          have key : id ∈ s.book.open.keys :=
            (s.book.open.mem_keys_iff id).mpr (Option.isSome_iff_exists.mpr ⟨session, there⟩)
          have smaller := Book.size_remove there
          have left : (s.book.remove id).reserved = s.book.reserved := rfl
          have bounded := kept.bounded
          dsimp only
          refine kept.phase .idle nofun counted ?_ (kept.timed.remove id) ?_
          · omega
          · rw [List.append_assoc]
            exact ((s.book.open.keys_remove_perm key).append_left _).trans kept.once

theorem closesAll (kept : s.Kept) : s.closesAll.Kept := by
  have bounded := kept.bounded
  refine ⟨kept.counted, ?_, ⟨nofun, nofun⟩, ?_, kept.fresh, kept.named, kept.starting, kept.alone⟩
  · have none_left : (SortedMap.empty : SortedMap Nat Session).size = 0 := rfl
    dsimp only [Lease.closesAll]
    omega
  · exact (List.append_nil _).symm ▸ kept.once

theorem step (kept : s.Kept) (room : s.loops.length + sessionsProtected < sessionsPerLeaseMax)
    (event : CallEvent) : (s.step event).Kept := by
  cases event with
  | makesRoom loop finished =>
      rw [Lease.step]
      split
      next found => exact kept.makesRoom room found finished
      next => exact kept
  | spawns loop =>
      rw [Lease.step]
      split
      next found => exact kept.spawns found
      next => exact kept
  | opens loop =>
      rw [Lease.step]
      split
      next found => exact kept.opens found
      next => exact kept
  | gets loop id =>
      rw [Lease.step]
      split
      next found => exact kept.gets found id
      next => exact kept
  | locks loop =>
      rw [Lease.step]
      split
      next id found =>
        split
        · exact kept
        · have places : (s.loops.set loop (.reading id)).countP Phase.holdsPlace =
              s.loops.countP Phase.holdsPlace := by
            simpa [Phase.holdsPlace] using places_set found (.reading id)
          exact kept.phase (.reading id) nofun (kept.counted.trans places.symm) kept.bounded
            kept.timed kept.once
      next => exact kept
  | replies loop ended =>
      cases found : s.loops[loop]? with
      | none =>
          rw [Lease.step, found]
          exact kept
      | some phase =>
          cases phase with
          | reading id => exact kept.replies found ended
          | _ =>
              rw [Lease.step, found]
              exact kept
  | dropped loop =>
      rw [Lease.step]
      split
      next found => exact kept.drops found
      next => exact kept
  | closesAll => exact kept.closesAll

end Kept

theorem loops_step (s : Lease) (event : CallEvent) :
    (s.step event).loops.length = s.loops.length := by
  cases event with
  | makesRoom loop finished =>
      rw [step]
      split
      · exact List.length_set
      · rfl
  | spawns loop =>
      rw [step]
      split
      · exact List.length_set
      · rfl
  | opens loop =>
      rw [step]
      split
      · exact List.length_set
      · rfl
  | gets loop id =>
      rw [step]
      split
      · dsimp only [gets]
        split
        · exact List.length_set
        · rfl
      · rfl
  | locks loop =>
      rw [step]
      split
      · split
        · rfl
        · exact List.length_set
      · rfl
  | replies loop ended =>
      rw [step]
      split
      · exact List.length_set
      · rfl
  | dropped loop =>
      rw [step]
      split
      · exact List.length_set
      · rfl
  | closesAll => rfl

theorem kept_new {loops : Nat} : (new loops).Kept := by
  have idle : ∀ (loop id : Nat), (List.replicate loops Phase.idle)[loop]? ≠
      some (Phase.started id) := by
    intro loop id found
    have member := List.eq_of_mem_replicate (List.mem_of_getElem? found)
    nomatch member
  have places : (List.replicate loops Phase.idle).countP Phase.holdsPlace = 0 := by
    rw [List.countP_replicate]
    rfl
  exact ⟨places.symm, Nat.zero_le _, ⟨nofun, nofun⟩, List.Perm.refl _, List.nodup_nil, nofun,
    fun loop id found => (idle loop id found).elim,
    fun loop _ id found => (idle loop id found).elim⟩

theorem run_kept {loops : Nat} (room : loops + sessionsProtected < sessionsPerLeaseMax)
    (events : List CallEvent) : ∀ s ∈ Run.states step (new loops) events, s.Kept := by
  have keeps : ∀ s event, s.Kept ∧ s.loops.length = loops →
      (step s event).Kept ∧ (step s event).loops.length = loops := by
    intro s event held
    exact ⟨held.1.step (by omega) event, (loops_step s event).trans held.2⟩
  have start : (new loops).Kept ∧ (new loops).loops.length = loops :=
    ⟨kept_new, List.length_replicate⟩
  intro s reached
  exact (Run.invariant_of_step (fun s => s.Kept ∧ s.loops.length = loops) keeps start events s
    reached).1

end Lease

end Agentsfleet.Terminal
