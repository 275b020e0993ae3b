import Agentsfleet.Edges.Account

/-!
# A process's events

The link feeds a process's output and its ending in, a caller reads them at its own pace:
one at a time, or all that is ready at once.  Dropping the feed finishes the events; a
reader that goes before that, with the ending unread, runs its abandon hook.
-/

set_option autoImplicit false

namespace Agentsfleet.Edges

open Agentsfleet.Library
open Agentsfleet.Library.Utf8

namespace Unread

/-! ## Reading all that is ready -/

/-- How many things are left to read, twice counted, and one more for the gap. -/
def ready (unread : Unread) : Nat :=
  2 * (unread.head.length + unread.tail.length) + if 0 < unread.gap then 1 else 0

theorem dropLoop_length (tail : List Chunk) (count tailLen gap : Nat) :
    (dropLoop tail count tailLen gap).1.length ≤ tail.length := by
  induction tail generalizing count tailLen gap with
  | nil => exact Nat.le_refl _
  | cons front behind ih =>
      unfold dropLoop
      split
      · dsimp only
        split
        · exact Nat.le_succ_of_le (ih _ _ _)
        · exact Nat.le_refl _
      · exact Nat.le_refl _

theorem cross_ready (unread : Unread) : unread.cross.2.ready ≤ 2 * unread.tail.length := by
  by_cases opened : 0 < unread.gap
  · rw [cross_opened unread opened, ready]
    have fewer := dropLoop_length unread.tail (remains (bytes unread.tail)).length unread.tailLen
      unread.gap
    have dropped : (unread.dropFront (remains (bytes unread.tail)).length).tail.length ≤
        unread.tail.length := fewer
    dsimp only
    rw [if_neg (Nat.lt_irrefl 0), List.length_nil]
    omega
  · rw [cross_even unread (by omega), ready]
    dsimp only
    rw [if_neg (Nat.lt_irrefl 0), List.length_nil]
    omega

theorem next_ready {unread : Unread} {chunk : Chunk} {behind : List Chunk}
    (head : unread.head = chunk :: behind) : unread.next.2.ready < unread.ready := by
  by_cases apart : behind = [] → unread.gap = 0
  · rw [next_whole head apart, ready, ready, head, List.length_cons]
    dsimp only
    omega
  · obtain ⟨rfl, even⟩ := Classical.not_imp.mp apart
    have opened := Nat.pos_of_ne_zero even
    obtain ⟨kept, data⟩ := unfinished_suffix chunk.data
    obtain ⟨ahead, eq, next⟩ := next_last head opened data.symm
    have size : unread.ready = 2 * (1 + unread.tail.length) + 1 := by
      rw [ready, head, if_pos opened]
      rfl
    have tail : ahead.tail = unread.tail := by rw [eq]
    rw [next]
    split
    · have crossed := ahead.cross_ready
      rw [tail] at crossed
      dsimp only
      omega
    · dsimp only
      rw [eq, ready]
      dsimp only [List.length_nil]
      split
      · omega
      · omega

theorem pop_ready {unread : Unread} (found : unread.pop.1 ≠ none) :
    unread.pop.2.ready < unread.ready := by
  cases head : unread.head with
  | cons chunk behind =>
      rw [pop_of_cons head]
      exact next_ready head
  | nil =>
      have crossed := unread.cross_ready
      by_cases even : unread.gap = 0
      · rw [pop_of_even head even] at found ⊢
        have size : unread.ready = 2 * unread.tail.length := by
          rw [ready, head, even]
          simp
        cases behind : unread.cross.2.head with
        | nil => exact absurd (congrArg Prod.fst (next_nil behind)) found
        | cons chunk rest =>
            have fewer := next_ready behind
            omega
      · rw [pop_of_read head (Nat.pos_of_ne_zero even)]
        have size : unread.ready = 2 * unread.tail.length + 1 := by
          rw [ready, head, if_pos (Nat.pos_of_ne_zero even)]
          simp
        dsimp only
        omega

def drain (unread : Unread) : List Next :=
  match _popped : unread.pop with
  | (none, _) => []
  | (some next, rest) => next :: drain rest
termination_by unread.ready
decreasing_by
  have found : unread.pop.1 ≠ none := by
    rw [_popped]
    exact Option.some_ne_none next
  have fewer := pop_ready found
  rwa [_popped] at fewer

def Nothing (unread : Unread) : Prop :=
  unread.head = [] ∧ unread.gap = 0 ∧ unread.tail = []

theorem nothing_new (edge : Nat) : (new edge).Nothing := ⟨rfl, rfl, rfl⟩

theorem Nothing.spells {unread : Unread} (nothing : unread.Nothing) {read : List Next}
    {text : List (Stream × UInt8)} :
    Spells (read ++ unread.left) text ↔ Spells read text := by
  obtain ⟨head, even, tail⟩ := nothing
  have left : ∀ back, Spells unread.left back ↔ back = [] := by
    intro back
    rw [spells_left, head, even, tail]
    constructor
    · rintro ⟨lost, length, rfl⟩
      rw [List.length_eq_zero_iff.mp length]
      rfl
    · rintro rfl
      exact ⟨[], rfl, rfl⟩
  rw [spells_append]
  constructor
  · rintro ⟨front, back, rfl, ahead, after⟩
    rw [(left back).mp after, List.append_nil]
    exact ahead
  · intro ahead
    exact ⟨text, [], (List.append_nil text).symm, ahead, (left []).mpr rfl⟩

theorem Nothing.pop {unread : Unread} (nothing : unread.Nothing) :
    unread.pop.1 = none ∧ unread.pop.2.Nothing := by
  obtain ⟨head, even, tail⟩ := nothing
  have behind : unread.cross.2.head = [] := by
    rw [cross_even unread even]
    exact tail
  rw [pop_of_even head even, next_nil behind, cross_even unread even]
  exact ⟨rfl, tail, rfl, rfl⟩

theorem Nothing.drain {unread : Unread} (nothing : unread.Nothing) : unread.drain = [] := by
  rw [drain.eq_def]
  split
  · rfl
  · rename_i next rest popped
    have none_ := nothing.pop.1
    rw [popped] at none_
    cases none_

theorem nothing_of_pop {unread : Unread} (none_ : unread.pop.1 = none) : unread.Nothing :=
  pop_none none_

theorem drain_spells {unread : Unread} (sound : unread.Sound) {read : List Next}
    {text : List (Stream × UInt8)} (spells : Spells (read ++ unread.left) text) :
    Spells (read ++ unread.drain) text := by
  induction unread using drain.induct generalizing read with
  | case1 unread rest popped =>
      rw [drain.eq_def]
      split
      · rw [List.append_nil]
        exact (nothing_of_pop (by rw [popped])).spells.mp spells
      · rename_i other
        rw [popped] at other
        cases other
  | case2 unread next rest popped ih =>
      rw [drain.eq_def]
      split
      · rename_i other
        rw [popped] at other
        cases other
      · rename_i next' rest' same
        rw [popped] at same
        cases same
        have handed := handed_pop sound
        rw [popped] at handed
        obtain ⟨front, back, rfl, ahead, after⟩ := spells_append.mp spells
        have passed : Spells ((read ++ [next]) ++ rest.left) (front ++ back) := by
          rw [List.append_assoc]
          exact spells_append.mpr ⟨front, back, rfl, ahead, handed.account back after⟩
        have later := ih handed.sound passed
        rwa [List.append_assoc] at later

end Unread

/-! ## The feed and its reader -/

/-- The most unread bytes kept of a process's head, and of its tail. -/
def edgeBytes : Nat := 512 * 1024

variable {Ending : Type}

inductive ProcessEvent (Ending : Type) where
  | output (chunk : Chunk)
  | omitted (count : Nat)
  | ended (ending : Ending) (outputAbandoned : Bool)

def ProcessEvent.of : Next → ProcessEvent Ending
  | .output chunk => .output chunk
  | .omitted count => .omitted count

structure Shared (Ending : Type) where
  unread : Unread
  /-- How the process ended, until the reader takes it. -/
  ending : Option Ending
  outputAbandoned : Bool
  /-- Whether nothing more can arrive: the feed went away. -/
  finished : Bool

/-- The feeding end: it can say more, said how the process ended and is about to go, or is
gone. -/
inductive Feed where
  | live
  | ended
  | gone
deriving DecidableEq

/-- The reading end: its hook, and the native link it can give up. -/
structure Reader where
  here : Bool
  abandon : Bool
  connection : Bool
deriving DecidableEq

structure Told (Ending : Type) where
  /-- All that was fed. -/
  pushed : List (Stream × UInt8)
  /-- What the feed ended with. -/
  ended : Option (Ending × Bool)
  /-- What the reader was told. -/
  seen : List (ProcessEvent Ending)
  /-- Whether the reader was told that nothing more arrives. -/
  readAll : Bool
  disconnected : Bool
  /-- How often the abandon hook ran. -/
  ran : Nat

structure Channel (Ending : Type) where
  shared : Shared Ending
  feed : Feed
  reader : Reader
  told : Told Ending

inductive FeedEvent (Ending : Type) where
  | output (chunk : Chunk)
  | finish (ending : Ending) (outputAbandoned : Bool)
  | dropFeed
  | tryRecv
  | takeReady
  | disconnect
  | leave

inductive Received (Ending : Type) where
  | event (event : ProcessEvent Ending)
  | empty
  | disconnected

namespace Channel

/-- The events of a process the client opened have a link and a hook; locally fed ones have
neither. -/
def new (native : Bool) : Channel Ending where
  shared := ⟨Unread.new edgeBytes, none, false, false⟩
  feed := .live
  reader := ⟨true, native, native⟩
  told := ⟨[], none, [], false, false, 0⟩

/-- `Feed::output`: an empty chunk is passed over. -/
def output (s : Channel Ending) (chunk : Chunk) : Channel Ending :=
  if s.feed = .live ∧ chunk.data ≠ [] then
    { s with
      shared := { s.shared with unread := s.shared.unread.push chunk }
      told := { s.told with pushed := s.told.pushed ++ chunk.marked } }
  else s

/-- `Feed::end`, up to the drop of the feed it took. -/
def finish (s : Channel Ending) (ending : Ending) (outputAbandoned : Bool) : Channel Ending :=
  if s.feed = .live then
    { s with
      shared := { s.shared with ending := some ending, outputAbandoned }
      feed := .ended
      told := { s.told with ended := some (ending, outputAbandoned) } }
  else s

/-- The feed goes, whether it said how the process ended or not. -/
def dropFeed (s : Channel Ending) : Channel Ending :=
  { s with shared := { s.shared with finished := true }, feed := .gone }

/-- `try_recv`. -/
def receive (s : Channel Ending) : Received Ending × Shared Ending × Reader :=
  match s.shared.unread.pop with
  | (some next, unread) => (.event (.of next), { s.shared with unread }, s.reader)
  | (none, unread) =>
      match s.shared.ending with
      | some ending =>
          (.event (.ended ending s.shared.outputAbandoned),
            { s.shared with unread, ending := none }, { s.reader with abandon := false })
      | none =>
          (if s.shared.finished then .disconnected else .empty, { s.shared with unread }, s.reader)

def tryRecv (s : Channel Ending) : Channel Ending :=
  if s.reader.here then
    match s.receive with
    | (.event event, shared, reader) =>
        { s with shared, reader, told := { s.told with seen := s.told.seen ++ [event] } }
    | (.empty, shared, reader) => { s with shared, reader }
    | (.disconnected, shared, reader) =>
        { s with shared, reader, told := { s.told with readAll := true } }
  else s

/-- `take_ready`, its snapshot read whole. -/
def takeReady (s : Channel Ending) : Channel Ending :=
  if s.reader.here then
    let ending := s.shared.ending.map fun ending =>
      ProcessEvent.ended ending s.shared.outputAbandoned
    { s with
      shared := { s.shared with unread := Unread.new edgeBytes, ending := none }
      reader := { s.reader with abandon := s.reader.abandon && s.shared.ending.isNone }
      told := { s.told with
        seen := s.told.seen ++ (s.shared.unread.drain.map .of ++ ending.toList)
        readAll := s.told.readAll || s.shared.finished } }
  else s

/-- `disconnect`: a locally fed channel has no link to give up. -/
def disconnect (s : Channel Ending) : Channel Ending :=
  if s.reader.here then
    { s with
      reader := if s.reader.connection then { s.reader with connection := false, abandon := false }
        else s.reader
      told := { s.told with disconnected := true } }
  else s

def leave (s : Channel Ending) : Channel Ending :=
  if s.reader.here then
    { s with
      reader := { s.reader with here := false, abandon := false }
      told := { s.told with
        ran := if s.reader.abandon && !s.shared.finished then s.told.ran + 1 else s.told.ran } }
  else s

def step (s : Channel Ending) : FeedEvent Ending → Channel Ending
  | .output chunk => s.output chunk
  | .finish ending outputAbandoned => s.finish ending outputAbandoned
  | .dropFeed => s.dropFeed
  | .tryRecv => s.tryRecv
  | .takeReady => s.takeReady
  | .disconnect => s.disconnect
  | .leave => s.leave

/-! ## What a read answers -/

section Receive

variable {s : Channel Ending} {unread : Unread}

theorem receive_next {next : Next} (popped : s.shared.unread.pop = (some next, unread)) :
    s.receive = (.event (.of next), { s.shared with unread }, s.reader) := by
  rw [receive, popped]

theorem receive_ended {ending : Ending} (popped : s.shared.unread.pop = (none, unread))
    (here : s.shared.ending = some ending) :
    s.receive = (.event (.ended ending s.shared.outputAbandoned),
      { s.shared with unread, ending := none }, { s.reader with abandon := false }) := by
  rw [receive, popped]
  dsimp only
  rw [here]

theorem receive_none (popped : s.shared.unread.pop = (none, unread))
    (taken : s.shared.ending = none) :
    s.receive =
      (if s.shared.finished then .disconnected else .empty,
        { s.shared with unread }, s.reader) := by
  rw [receive, popped]
  dsimp only
  rw [taken]

end Receive

/-! ## What holds between any two steps -/

/-- How far the channel is, with what the reader was told: nothing ended yet; an ending is
unread, behind all that was fed; or it was read, last, and nothing is left. -/
inductive Standing (s : Channel Ending) : Prop where
  | going (nexts : List Next) (seen : s.told.seen = nexts.map .of)
      (spells : Spells (nexts ++ s.shared.unread.left) s.told.pushed)
      (none_ended : s.told.ended = none) (ending : s.shared.ending = none)
      (feed : s.feed ≠ .ended)
  | ended (nexts : List Next) (ending : Ending) (seen : s.told.seen = nexts.map .of)
      (spells : Spells (nexts ++ s.shared.unread.left) s.told.pushed)
      (ended : s.told.ended = some (ending, s.shared.outputAbandoned))
      (unread : s.shared.ending = some ending) (feed : s.feed ≠ .live)
  | read (nexts : List Next) (ending : Ending) (outputAbandoned : Bool)
      (seen : s.told.seen = nexts.map .of ++ [.ended ending outputAbandoned])
      (spells : Spells nexts s.told.pushed)
      (ended : s.told.ended = some (ending, outputAbandoned)) (taken : s.shared.ending = none)
      (nothing : s.shared.unread.Nothing) (feed : s.feed ≠ .live)
      (hook : s.reader.abandon = false)

theorem Standing.same {s : Channel Ending} (standing : s.Standing) {reader : Reader}
    (readAll disconnected : Bool) (ran : Nat)
    (hook : s.reader.abandon = false → reader.abandon = false) :
    Standing { s with reader, told := { s.told with readAll, disconnected, ran } } := by
  cases standing with
  | going nexts seen spells none_ended ending feed =>
      exact .going nexts seen spells none_ended ending feed
  | ended nexts ending seen spells ended unread feed =>
      exact .ended nexts ending seen spells ended unread feed
  | read nexts ending outputAbandoned seen spells ended taken nothing feed unhooked =>
      exact .read nexts ending outputAbandoned seen spells ended taken nothing feed (hook unhooked)

structure Sound (s : Channel Ending) : Prop where
  unread : s.shared.unread.Sound
  finished : s.shared.finished = true ↔ s.feed = .gone
  standing : s.Standing
  readAll : s.told.readAll = true →
    s.shared.finished = true ∧ s.shared.ending = none ∧ s.shared.unread.Nothing
  hook : s.reader.abandon = true →
    s.reader.here = true ∧ s.told.disconnected = false ∧ s.reader.connection = true
  ran : s.told.ran ≤ 1 ∧ (s.reader.here = true → s.told.ran = 0)

theorem sound_new (native : Bool) : (new native : Channel Ending).Sound where
  unread := Unread.sound_new edgeBytes
  finished := ⟨nofun, nofun⟩
  standing := .going [] rfl (Unread.spells_left.mpr ⟨[], rfl, rfl⟩) rfl rfl nofun
  readAll := nofun
  hook := fun native => ⟨rfl, rfl, native⟩
  ran := ⟨Nat.zero_le 1, fun _ => rfl⟩

theorem Sound.output {s : Channel Ending} (sound : s.Sound) (chunk : Chunk) :
    (s.output chunk).Sound := by
  rw [Channel.output]
  split
  · rename_i live
    refine ⟨sound.unread.push, sound.finished, ?_, fun past => ?_, sound.hook, sound.ran⟩
    · cases sound.standing with
      | going nexts seen spells none_ended ending feed =>
          exact .going nexts seen (Unread.spells_push sound.unread spells) none_ended ending feed
      | ended nexts ending seen spells ended unread feed => exact absurd live.1 feed
      | read nexts ending outputAbandoned seen spells ended taken nothing feed hook =>
          exact absurd live.1 feed
    · have gone := sound.finished.mp (sound.readAll past).1
      rw [live.1] at gone
      cases gone
  · exact sound

theorem Sound.finish {s : Channel Ending} (sound : s.Sound) (ending : Ending)
    (outputAbandoned : Bool) : (s.finish ending outputAbandoned).Sound := by
  rw [Channel.finish]
  split
  · rename_i live
    have unfinished : s.shared.finished ≠ true := by
      intro finished
      have gone := sound.finished.mp finished
      rw [live] at gone
      cases gone
    refine ⟨sound.unread, ⟨fun finished => absurd finished unfinished, nofun⟩, ?_,
      fun past => absurd (sound.readAll past).1 unfinished, sound.hook, sound.ran⟩
    cases sound.standing with
    | going nexts seen spells none_ended unread feed =>
        exact .ended nexts ending seen spells rfl rfl nofun
    | ended nexts ending seen spells ended unread feed => exact absurd live feed
    | read nexts ending outputAbandoned seen spells ended taken nothing feed hook =>
        exact absurd live feed
  · exact sound

theorem Sound.dropFeed {s : Channel Ending} (sound : s.Sound) : s.dropFeed.Sound := by
  refine ⟨sound.unread, ⟨fun _ => rfl, fun _ => rfl⟩, ?_, fun past => ?_, sound.hook, sound.ran⟩
  · cases sound.standing with
    | going nexts seen spells none_ended ending feed =>
        exact .going nexts seen spells none_ended ending nofun
    | ended nexts ending seen spells ended unread feed =>
        exact .ended nexts ending seen spells ended unread nofun
    | read nexts ending outputAbandoned seen spells ended taken nothing feed hook =>
        exact .read nexts ending outputAbandoned seen spells ended taken nothing nofun hook
  · obtain ⟨-, taken, nothing⟩ := sound.readAll past
    exact ⟨rfl, taken, nothing⟩

theorem Sound.handed {s : Channel Ending} (sound : s.Sound) {next : Next} {unread : Unread}
    (popped : s.shared.unread.pop = (some next, unread)) :
    Sound { s with
      shared := { s.shared with unread }
      told := { s.told with seen := s.told.seen ++ [.of next] } } := by
  have handed := Unread.handed_pop sound.unread
  rw [popped] at handed
  have something (nothing : s.shared.unread.Nothing) : False := by
    have none_ := nothing.pop.1
    rw [popped] at none_
    cases none_
  have passed {nexts : List Next} (spells : Spells (nexts ++ s.shared.unread.left) s.told.pushed) :
      Spells ((nexts ++ [next]) ++ unread.left) s.told.pushed := by
    obtain ⟨front, back, whole, ahead, after⟩ := spells_append.mp spells
    rw [List.append_assoc]
    exact spells_append.mpr ⟨front, back, whole, ahead, handed.account back after⟩
  refine ⟨handed.sound, sound.finished, ?_, fun past => ?_, sound.hook, sound.ran⟩
  · cases sound.standing with
    | going nexts seen spells none_ended ending feed =>
        refine .going (nexts ++ [next]) ?_ (passed spells) none_ended ending feed
        rw [List.map_append]
        exact congrArg (· ++ _) seen
    | ended nexts ending seen spells ended left feed =>
        refine .ended (nexts ++ [next]) ending ?_ (passed spells) ended left feed
        rw [List.map_append]
        exact congrArg (· ++ _) seen
    | read nexts ending outputAbandoned seen spells ended taken nothing feed hook =>
        exact (something nothing).elim
  · exact (something (sound.readAll past).2.2).elim

theorem Sound.quiet {s : Channel Ending} (sound : s.Sound) {unread : Unread}
    (popped : s.shared.unread.pop = (none, unread)) :
    Sound { s with shared := { s.shared with unread } } ∧ unread.Nothing := by
  have handed := Unread.handed_pop sound.unread
  have before : s.shared.unread.Nothing := Unread.nothing_of_pop (by rw [popped])
  have nothing : unread.Nothing := by
    have after := before.pop.2
    rwa [popped] at after
  rw [popped] at handed
  have passed {nexts : List Next} (spells : Spells (nexts ++ s.shared.unread.left) s.told.pushed) :
      Spells (nexts ++ unread.left) s.told.pushed :=
    nothing.spells.mpr (before.spells.mp spells)
  refine ⟨⟨handed.sound, sound.finished, ?_, fun past => ?_, sound.hook, sound.ran⟩, nothing⟩
  · cases sound.standing with
    | going nexts seen spells none_ended ending feed =>
        exact .going nexts seen (passed spells) none_ended ending feed
    | ended nexts ending seen spells ended left feed =>
        exact .ended nexts ending seen (passed spells) ended left feed
    | read nexts ending outputAbandoned seen spells ended taken _ feed hook =>
        exact .read nexts ending outputAbandoned seen spells ended taken nothing feed hook
  · obtain ⟨finished, taken, -⟩ := sound.readAll past
    exact ⟨finished, taken, nothing⟩

theorem Sound.told {s : Channel Ending} (sound : s.Sound) (nothing : s.shared.unread.Nothing)
    {ending : Ending} (unread : s.shared.ending = some ending) :
    Sound { s with
      shared := { s.shared with ending := none }
      reader := { s.reader with abandon := false }
      told := { s.told with
        seen := s.told.seen ++ [.ended ending s.shared.outputAbandoned] } } := by
  refine ⟨sound.unread, sound.finished, ?_, fun past => ?_, nofun, sound.ran⟩
  · cases sound.standing with
    | going nexts seen spells none_ended none_ feed =>
        rw [unread] at none_
        cases none_
    | ended nexts held seen spells ended here feed =>
        rw [unread] at here
        obtain rfl := Option.some.inj here
        exact .read nexts ending s.shared.outputAbandoned (congrArg (· ++ _) seen)
          (nothing.spells.mp spells) ended rfl nothing feed rfl
    | read nexts ending outputAbandoned seen spells ended taken _ feed hook =>
        rw [unread] at taken
        cases taken
  · obtain ⟨finished, -, _⟩ := sound.readAll past
    exact ⟨finished, rfl, nothing⟩

theorem Sound.tryRecv {s : Channel Ending} (sound : s.Sound) : s.tryRecv.Sound := by
  rw [Channel.tryRecv]
  split
  · cases popped : s.shared.unread.pop with
    | mk next unread =>
        cases next with
        | some next =>
            rw [receive_next popped]
            exact sound.handed popped
        | none =>
            obtain ⟨quiet, nothing⟩ := sound.quiet popped
            by_cases taken : s.shared.ending = none
            · rw [receive_none popped taken]
              by_cases finished : s.shared.finished = true
              · rw [if_pos finished]
                exact ⟨quiet.unread, quiet.finished, quiet.standing.same true _ _ id,
                  fun _ => ⟨finished, taken, nothing⟩, quiet.hook, quiet.ran⟩
              · rw [if_neg finished]
                exact quiet
            · obtain ⟨ending, here⟩ := Option.ne_none_iff_exists'.mp taken
              rw [receive_ended popped here]
              exact quiet.told nothing here
  · exact sound

theorem Sound.takeReady {s : Channel Ending} (sound : s.Sound) : s.takeReady.Sound := by
  have nothing := Unread.nothing_new edgeBytes
  have drained {nexts : List Next} (spells : Spells (nexts ++ s.shared.unread.left) s.told.pushed) :
      Spells (nexts ++ s.shared.unread.drain) s.told.pushed :=
    Unread.drain_spells sound.unread spells
  rw [Channel.takeReady]
  split
  · refine ⟨Unread.sound_new edgeBytes, sound.finished, ?_, fun past => ⟨?_, rfl, nothing⟩,
      fun hook => sound.hook (Bool.and_eq_true_iff.mp hook).1, sound.ran⟩
    · cases sound.standing with
      | going nexts seen spells none_ended ending feed =>
          refine .going (nexts ++ s.shared.unread.drain) ?_ (nothing.spells.mpr (drained spells))
            none_ended rfl feed
          dsimp only
          rw [seen, ending, List.map_append]
          exact congrArg _ (List.append_nil _)
      | ended nexts ending seen spells ended unread feed =>
          refine .read (nexts ++ s.shared.unread.drain) ending s.shared.outputAbandoned ?_
            (drained spells) ended rfl nothing feed ?_
          · dsimp only
            rw [seen, unread, List.map_append, List.append_assoc]
            rfl
          · dsimp only
            rw [unread]
            exact Bool.and_false _
      | read nexts ending outputAbandoned seen spells ended taken before feed hook =>
          refine .read nexts ending outputAbandoned ?_ spells ended rfl nothing feed ?_
          · dsimp only
            rw [before.drain, taken]
            exact (List.append_nil _).trans seen
          · dsimp only
            rw [hook]
            rfl
    · rcases Bool.or_eq_true_iff.mp past with before | finished
      · exact (sound.readAll before).1
      · exact finished
  · exact sound

theorem Sound.disconnect {s : Channel Ending} (sound : s.Sound) : s.disconnect.Sound := by
  rw [Channel.disconnect]
  split
  · have unhooked : (if s.reader.connection then
        { s.reader with connection := false, abandon := false } else s.reader).abandon = false := by
      split
      · rfl
      · rename_i local_
        cases hook : s.reader.abandon with
        | false => rfl
        | true => exact absurd (sound.hook hook).2.2 local_
    have still : (if s.reader.connection then
        { s.reader with connection := false, abandon := false } else s.reader).here =
          s.reader.here := by
      split
      · rfl
      · rfl
    refine ⟨sound.unread, sound.finished, sound.standing.same _ true _ fun _ => unhooked,
      sound.readAll, fun hook => ?_, sound.ran.1, fun there => sound.ran.2 (still ▸ there)⟩
    rw [unhooked] at hook
    cases hook
  · exact sound

theorem Sound.leave {s : Channel Ending} (sound : s.Sound) : s.leave.Sound := by
  rw [Channel.leave]
  split
  · rename_i here
    refine ⟨sound.unread, sound.finished, sound.standing.same _ _ _ fun _ => rfl, sound.readAll,
      nofun, ?_, nofun⟩
    have none_ran := sound.ran.2 here
    dsimp only
    split
    · omega
    · omega
  · exact sound

theorem Sound.step {s : Channel Ending} (sound : s.Sound) (event : FeedEvent Ending) :
    (s.step event).Sound := by
  cases event with
  | output chunk => exact sound.output chunk
  | finish ending outputAbandoned => exact sound.finish ending outputAbandoned
  | dropFeed => exact sound.dropFeed
  | tryRecv => exact sound.tryRecv
  | takeReady => exact sound.takeReady
  | disconnect => exact sound.disconnect
  | leave => exact sound.leave

/-! ## Once and last -/

def Done (s : Channel Ending) : Prop :=
  s.shared.finished = true ∧ s.shared.ending = none ∧ s.shared.unread.Nothing

theorem receive_disconnected {s : Channel Ending} (answer : s.receive.1 = .disconnected) :
    s.Done := by
  cases popped : s.shared.unread.pop with
  | mk next unread =>
      cases next with
      | some next =>
          rw [receive_next popped] at answer
          cases answer
      | none =>
          by_cases taken : s.shared.ending = none
          · rw [receive_none popped taken] at answer
            refine ⟨?_, taken, Unread.nothing_of_pop (by rw [popped])⟩
            by_cases finished : s.shared.finished = true
            · exact finished
            · rw [if_neg finished] at answer
              cases answer
          · obtain ⟨ending, here⟩ := Option.ne_none_iff_exists'.mp taken
            rw [receive_ended popped here] at answer
            cases answer

theorem Done.step {s : Channel Ending} (sound : s.Sound) (done : s.Done)
    (event : FeedEvent Ending) :
    (s.step event).Done ∧ (s.step event).told.seen = s.told.seen := by
  obtain ⟨finished, taken, nothing⟩ := done
  have gone : s.feed ≠ .live := by
    rw [sound.finished.mp finished]
    exact nofun
  cases event with
  | output chunk =>
      rw [Channel.step, output, if_neg fun live => gone live.1]
      exact ⟨⟨finished, taken, nothing⟩, rfl⟩
  | finish ending outputAbandoned =>
      rw [Channel.step, finish, if_neg gone]
      exact ⟨⟨finished, taken, nothing⟩, rfl⟩
  | dropFeed => exact ⟨⟨rfl, taken, nothing⟩, rfl⟩
  | tryRecv =>
      rw [Channel.step, tryRecv]
      split
      · obtain ⟨none_, after⟩ := nothing.pop
        rw [receive_none (Prod.ext none_ rfl) taken, if_pos finished]
        exact ⟨⟨finished, taken, after⟩, rfl⟩
      · exact ⟨⟨finished, taken, nothing⟩, rfl⟩
  | takeReady =>
      rw [Channel.step, takeReady]
      split
      · refine ⟨⟨finished, rfl, Unread.nothing_new edgeBytes⟩, ?_⟩
        dsimp only
        rw [nothing.drain, taken]
        exact List.append_nil _
      · exact ⟨⟨finished, taken, nothing⟩, rfl⟩
  | disconnect =>
      rw [Channel.step, disconnect]
      split
      · exact ⟨⟨finished, taken, nothing⟩, rfl⟩
      · exact ⟨⟨finished, taken, nothing⟩, rfl⟩
  | leave =>
      rw [Channel.step, leave]
      split
      · exact ⟨⟨finished, taken, nothing⟩, rfl⟩
      · exact ⟨⟨finished, taken, nothing⟩, rfl⟩

theorem Done.run {s : Channel Ending} (sound : s.Sound) (done : s.Done)
    (events : List (FeedEvent Ending)) :
    (Run.final Channel.step s events).told.seen = s.told.seen := by
  induction events generalizing s with
  | nil => rfl
  | cons event rest ih =>
      obtain ⟨after, same⟩ := done.step sound event
      exact (ih (sound.step event) after).trans same

theorem ended_notMem (nexts : List Next) (ending : Ending) (outputAbandoned : Bool) :
    .ended ending outputAbandoned ∉ nexts.map ProcessEvent.of := by
  intro member
  obtain ⟨next, -, same⟩ := List.mem_map.mp member
  cases next with
  | output chunk => cases same
  | omitted count => cases same

theorem Sound.abandons {s : Channel Ending} (sound : s.Sound) {event : FeedEvent Ending}
    (runs : (s.step event).told.ran ≠ s.told.ran) :
    event = .leave ∧ s.reader.here = true ∧ s.told.disconnected = false ∧
      s.shared.finished = false ∧
        ∀ ending outputAbandoned, .ended ending outputAbandoned ∉ s.told.seen := by
  cases event with
  | output chunk =>
      rw [Channel.step, Channel.output] at runs
      split at runs
      · exact absurd rfl runs
      · exact absurd rfl runs
  | finish ending outputAbandoned =>
      rw [Channel.step, Channel.finish] at runs
      split at runs
      · exact absurd rfl runs
      · exact absurd rfl runs
  | dropFeed => exact absurd rfl runs
  | tryRecv =>
      rw [Channel.step, Channel.tryRecv] at runs
      split at runs
      · split at runs
        · exact absurd rfl runs
        · exact absurd rfl runs
        · exact absurd rfl runs
      · exact absurd rfl runs
  | takeReady =>
      rw [Channel.step, Channel.takeReady] at runs
      split at runs
      · exact absurd rfl runs
      · exact absurd rfl runs
  | disconnect =>
      rw [Channel.step, Channel.disconnect] at runs
      split at runs
      · exact absurd rfl runs
      · exact absurd rfl runs
  | leave =>
      rw [Channel.step, Channel.leave] at runs
      split at runs
      · rename_i here
        dsimp only at runs
        split at runs
        · rename_i hooked
          obtain ⟨hook, going⟩ := Bool.and_eq_true_iff.mp hooked
          refine ⟨rfl, here, (sound.hook hook).2.1, by simpa using going, ?_⟩
          cases sound.standing with
          | going nexts seen spells none_ended ending feed =>
              rw [seen]
              exact ended_notMem nexts
          | ended nexts ending seen spells ended unread feed =>
              rw [seen]
              exact ended_notMem nexts
          | read nexts ending outputAbandoned seen spells ended taken nothing feed unhooked =>
              rw [unhooked] at hook
              cases hook
        · exact absurd rfl runs
      · exact absurd rfl runs

/-- However a process's events are fed and read: at most one ending is told, last, after
all that was fed; exactly one where the feed ended and the reader read to the end; nothing
is told once a read says that nothing more arrives; and the hook runs at most once, for a
reader that goes unless it disconnected, read the ending or outlived the feed. -/
theorem ends_once_and_last (native : Bool) (events : List (FeedEvent Ending)) :
    let s := Run.final step (new native) events
    ((∃ nexts : List Next, s.told.seen = nexts.map .of) ∨
      ∃ (nexts : List Next) (ending : Ending) (outputAbandoned : Bool),
        s.told.seen = nexts.map .of ++ [.ended ending outputAbandoned] ∧
          s.told.ended = some (ending, outputAbandoned) ∧ Spells nexts s.told.pushed) ∧
    (s.told.readAll = true →
      (s.told.ended = none → ∃ nexts : List Next, s.told.seen = nexts.map .of ∧
        Spells nexts s.told.pushed) ∧
      ∀ ending outputAbandoned, s.told.ended = some (ending, outputAbandoned) →
        ∃ nexts : List Next, s.told.seen = nexts.map .of ++ [.ended ending outputAbandoned] ∧
          Spells nexts s.told.pushed) ∧
    (s.receive.1 = .disconnected →
      s.feed = .gone ∧ ∀ more, (Run.final step s more).told.seen = s.told.seen) ∧
    s.told.ran ≤ 1 ∧
    ∀ event, (s.step event).told.ran ≠ s.told.ran →
      event = .leave ∧ s.reader.here = true ∧ s.told.disconnected = false ∧
        s.shared.finished = false ∧
          ∀ ending outputAbandoned, .ended ending outputAbandoned ∉ s.told.seen := by
  intro s
  have sound : s.Sound :=
    Run.invariant_of_step Sound (fun _ event held => held.step event) (sound_new native) events s
      (Run.final_mem_states _ _ _)
  refine ⟨?_, fun past => ?_, fun answer => ?_, sound.ran.1, fun _ runs => sound.abandons runs⟩
  · cases sound.standing with
    | going nexts seen spells none_ended ending feed => exact .inl ⟨nexts, seen⟩
    | ended nexts ending seen spells ended unread feed => exact .inl ⟨nexts, seen⟩
    | read nexts ending outputAbandoned seen spells ended taken nothing feed unhooked =>
        exact .inr ⟨nexts, ending, outputAbandoned, seen, ended, spells⟩
  · obtain ⟨-, taken, nothing⟩ := sound.readAll past
    cases sound.standing with
    | going nexts seen spells none_ended ending feed =>
        refine ⟨fun _ => ⟨nexts, seen, nothing.spells.mp spells⟩, fun ending how ended => ?_⟩
        rw [none_ended] at ended
        cases ended
    | ended nexts ending seen spells ended unread feed =>
        rw [taken] at unread
        cases unread
    | read nexts ending outputAbandoned seen spells ended taken nothing feed unhooked =>
        refine ⟨fun none_ended => ?_, fun other how same => ?_⟩
        · rw [ended] at none_ended
          cases none_ended
        · rw [ended] at same
          obtain ⟨rfl, rfl⟩ := Prod.mk.inj (Option.some.inj same)
          exact ⟨nexts, seen, spells⟩
  · have done := receive_disconnected answer
    exact ⟨sound.finished.mp done.1, done.run sound⟩

end Channel

end Agentsfleet.Edges
