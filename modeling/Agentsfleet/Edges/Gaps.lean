import Agentsfleet.Edges.Unread
import Agentsfleet.Library.Run

/-!
# Text on both sides of a gap

What a reader has of a text between one reported gap and the next.
-/

set_option autoImplicit false

namespace Agentsfleet.Edges

open Agentsfleet.Library
open Agentsfleet.Library.Utf8

/-- A process's output and its reader: `text` is all that was written, `segment` what was read
since the last reported gap, `closed` what was read before each one. -/
structure Reading where
  unread : Unread
  text : List UInt8
  segment : List UInt8
  closed : List (List UInt8)
  deriving DecidableEq

inductive Event
  | push (chunk : Chunk)
  | pop
  deriving DecidableEq

namespace Reading

def start (edge : Nat) : Reading := ⟨Unread.new edge, [], [], []⟩

def read (reading : Reading) : Option Next × Unread → Reading
  | (none, unread) => { reading with unread }
  | (some (.output chunk), unread) =>
      { reading with unread, segment := reading.segment ++ chunk.data }
  | (some (.omitted _), unread) =>
      { reading with unread, segment := [], closed := reading.closed ++ [reading.segment] }

def step (reading : Reading) : Event → Reading
  | .push chunk =>
      { reading with unread := reading.unread.push chunk, text := reading.text ++ chunk.data }
  | .pop => reading.read reading.unread.pop

end Reading

def written : List Event → List UInt8
  | [] => []
  | .push chunk :: rest => chunk.data ++ written rest
  | .pop :: rest => written rest

def Ahead (reading : Reading) : Event → Prop
  | .push chunk => reading.unread.gap = 0 → 0 < (reading.unread.push chunk).gap →
      (reading.unread.push chunk).head = [] → reading.segment = []
  | .pop => True

/-- The character that the text ahead of a gap leaves unfinished begins in the chunk just
before the gap. -/
def Gathered (reading : Reading) : Prop :=
  ∀ chunk ∈ reading.unread.head, reading.unread.head = [chunk] →
    (unfinished (reading.segment ++ chunk.data)).length ≤ chunk.data.length

/-- The next pop reads nothing ahead of the gap. -/
def Crosses (unread : Unread) : Prop :=
  ∀ chunk ∈ unread.head, unread.head = [chunk] ∧ unfinished chunk.data = chunk.data

def Spent (reading : Reading) : Prop :=
  remains (bytes reading.unread.tail) = bytes reading.unread.tail → unfinished reading.text = []

def Seen (reading : Reading) : Event → Prop
  | .push _ => True
  | .pop => 0 < reading.unread.gap →
      Gathered reading ∧ (Crosses reading.unread → Spent reading)

instance (reading : Reading) : (event : Event) → Decidable (Ahead reading event)
  | .push chunk => inferInstanceAs (Decidable (reading.unread.gap = 0 →
      0 < (reading.unread.push chunk).gap → (reading.unread.push chunk).head = [] →
      reading.segment = []))
  | .pop => inferInstanceAs (Decidable True)

instance (reading : Reading) : Decidable (Gathered reading) :=
  inferInstanceAs (Decidable (∀ chunk ∈ reading.unread.head, reading.unread.head = [chunk] → _))

instance (unread : Unread) : Decidable (Crosses unread) :=
  inferInstanceAs (Decidable (∀ chunk ∈ unread.head, unread.head = [chunk] ∧ _))

instance (reading : Reading) : Decidable (Spent reading) :=
  inferInstanceAs (Decidable (_ → _))

instance (reading : Reading) : (event : Event) → Decidable (Seen reading event)
  | .push _ => inferInstanceAs (Decidable True)
  | .pop => inferInstanceAs (Decidable (0 < reading.unread.gap →
      Gathered reading ∧ (Crosses reading.unread → Spent reading)))

/-- What stays so in a run over `chars`. -/
structure Kept (chars : List Char) (reading : Reading) : Prop where
  text : ∃ past lost, Cut chars past ∧ lost.length = reading.unread.gap ∧
    reading.text = past ++ (reading.segment ++ (bytes reading.unread.head ++
      (lost ++ bytes reading.unread.tail)))
  closed : ∀ segment ∈ reading.closed, Valid segment
  filling : reading.unread.headLeft ≠ 0 → reading.unread.tail = [] ∧ reading.unread.gap = 0
  ended : reading.unread.head = [] → 0 < reading.unread.gap → Valid reading.segment

theorem valid_nil : Valid [] := ⟨[], rfl⟩

theorem cut_nil (chars : List Char) : Cut chars [] := ⟨[], chars, rfl, rfl⟩

theorem kept_start (chars : List Char) (edge : Nat) : Kept chars (Reading.start edge) where
  text := ⟨[], [], cut_nil chars, rfl, rfl⟩
  closed := fun _ member => absurd member List.not_mem_nil
  filling := fun _ => ⟨rfl, rfl⟩
  ended := fun _ opened => absurd opened (Nat.lt_irrefl 0)

theorem Kept.push {chars : List Char} {reading : Reading} (kept : Kept chars reading)
    (chunk : Chunk) (ahead : Ahead reading (.push chunk)) :
    Kept chars (reading.step (.push chunk)) := by
  obtain ⟨past, lost, start, counted, text⟩ := kept.text
  obtain ⟨added, rest, dropped, data, head, tail, gap, full, left⟩ :=
    Unread.push_bytes reading.unread chunk
  refine ⟨⟨past, lost ++ dropped, start, ?_, ?_⟩, kept.closed, ?_, ?_⟩
  · show (lost ++ dropped).length = (reading.unread.push chunk).gap
    rw [gap, List.length_append, counted]
  · show reading.text ++ chunk.data = past ++ (reading.segment ++
      (bytes (reading.unread.push chunk).head ++ (lost ++ dropped ++
        bytes (reading.unread.push chunk).tail)))
    rw [head, text, data, List.append_assoc lost, ← tail]
    by_cases room : reading.unread.headLeft = 0
    · rw [(full room).2]
      simp
    · obtain ⟨none, even⟩ := kept.filling room
      have nothing : lost = [] := List.length_eq_zero_iff.mp (counted.trans even)
      rw [none, nothing]
      simp
  · intro room
    obtain zero | ⟨before, nothing, same⟩ := left
    · exact absurd zero room
    · obtain ⟨none, even⟩ := kept.filling before
      refine ⟨same.trans none, ?_⟩
      show (reading.unread.push chunk).gap = 0
      rw [gap, even, nothing]
      rfl
  · intro none opened
    show Valid reading.segment
    by_cases even : reading.unread.gap = 0
    · rw [ahead even opened none]
      exact valid_nil
    · apply kept.ended _ (Nat.pos_of_ne_zero even)
      by_cases room : reading.unread.headLeft = 0
      · rw [← (full room).1]
        exact none
      · exact absurd (kept.filling room).2 even

theorem kept_crossed {chars : List Char} {reading : Reading} {unread : Unread}
    {before : List UInt8} (opened : 0 < unread.gap)
    (text : reading.text = before ++ bytes unread.tail) (within : reading.text <+: encode chars)
    (spent : remains (bytes unread.tail) = bytes unread.tail → unfinished reading.text = [])
    (closed : ∀ segment ∈ reading.closed, Valid segment) (ended : Valid reading.segment) :
    Kept chars (reading.read (some (.omitted unread.cross.1), unread.cross.2)) := by
  obtain ⟨tail, none, even⟩ := Unread.cross_bytes unread opened
  rw [text] at within spent
  refine ⟨⟨before ++ remains (bytes unread.tail), [], cut_remains within spent, even.symm, ?_⟩,
    ?_, fun _ => ⟨none, even⟩, ?_⟩
  · show reading.text = before ++ remains (bytes unread.tail) ++ ([] ++
      (bytes unread.cross.2.head ++ ([] ++ bytes unread.cross.2.tail)))
    rw [text, none, bytes_nil, List.append_nil, List.nil_append, List.append_nil,
      List.append_assoc, ← tail]
  · intro segment member
    rcases List.mem_append.mp member with earlier | last
    · exact closed segment earlier
    · rw [List.mem_singleton.mp last]
      exact ended
  · intro _ gap
    have : 0 < unread.cross.2.gap := gap
    omega

theorem Kept.output {chars : List Char} {reading : Reading} {past lost : List UInt8}
    {chunk : Chunk} {unread : Unread} (kept : Kept chars reading) (start : Cut chars past)
    (counted : lost.length = unread.gap)
    (text : reading.text = past ++ (reading.segment ++ chunk.data ++
      (bytes unread.head ++ (lost ++ bytes unread.tail))))
    (filling : unread.headLeft ≠ 0 → unread.tail = [] ∧ unread.gap = 0)
    (ended : unread.head = [] → 0 < unread.gap → Valid (reading.segment ++ chunk.data)) :
    Kept chars (reading.read (some (.output chunk), unread)) :=
  ⟨⟨past, lost, start, counted, text⟩, kept.closed, filling, ended⟩

theorem Kept.pop {chars : List Char} {reading : Reading} (kept : Kept chars reading)
    (within : reading.text <+: encode chars) (seen : Seen reading .pop) :
    Kept chars (reading.step .pop) := by
  obtain ⟨past, lost, start, counted, text⟩ := kept.text
  show Kept chars (reading.read reading.unread.pop)
  cases head : reading.unread.head with
  | nil =>
      rw [head, bytes_nil, List.nil_append] at text
      by_cases even : reading.unread.gap = 0
      · have nothing : lost = [] := List.length_eq_zero_iff.mp (counted.trans even)
        rw [nothing, List.nil_append] at text
        rw [Unread.pop_of_even head even, Unread.cross_even _ even]
        cases tail : reading.unread.tail with
        | nil =>
            rw [Unread.next_nil rfl]
            rw [tail] at text
            exact ⟨⟨past, [], start, rfl, text⟩, kept.closed, fun _ => ⟨rfl, rfl⟩,
              fun _ opened => absurd opened (Nat.lt_irrefl 0)⟩
        | cons chunk behind =>
            rw [Unread.next_whole rfl fun _ => rfl]
            have counted : ([] : List UInt8).length = 0 := rfl
            refine kept.output start counted ?_ (fun _ => ⟨rfl, rfl⟩)
              fun _ opened => absurd opened (Nat.lt_irrefl 0)
            rw [text, tail]
            simp
      · have opened := Nat.pos_of_ne_zero even
        rw [Unread.pop_of_read head opened]
        have split_ : reading.text =
            past ++ (reading.segment ++ lost) ++ bytes reading.unread.tail := by
          rw [text]
          simp
        refine kept_crossed opened split_ within ?_ kept.closed (kept.ended head opened)
        apply (seen opened).2
        intro chunk member
        rw [head] at member
        cases member
  | cons chunk behind =>
      rw [Unread.pop_of_cons head]
      rw [head, bytes_cons] at text
      by_cases apart : behind = [] → reading.unread.gap = 0
      · rw [Unread.next_whole head apart]
        refine kept.output start counted ?_ kept.filling ?_
        · rw [text]
          simp
        · intro none opened
          exact absurd (apart none) (Nat.pos_iff_ne_zero.mp opened)
      · obtain ⟨rfl, even⟩ := Classical.not_imp.mp apart
        have opened := Nat.pos_of_ne_zero even
        obtain ⟨gathered, spent⟩ := seen opened
        have ahead : past ++ (reading.segment ++ chunk.data) <+: encode chars := by
          refine List.IsPrefix.trans ?_ within
          rw [text]
          exact ⟨lost ++ bytes reading.unread.tail, by simp⟩
        obtain ⟨front, data, -, valid⟩ :=
          cut_piece start ahead (gathered chunk (by rw [head]; simp) head)
        obtain ⟨last, rfl, next⟩ := Unread.next_last head opened data
        rw [next]
        by_cases none : front.isEmpty = true
        · rw [if_pos none]
          rw [List.isEmpty_iff.mp none] at data valid
          have split_ : reading.text =
              past ++ (reading.segment ++ (chunk.data ++ lost)) ++ bytes reading.unread.tail := by
            rw [text]
            simp
          refine kept_crossed ?_ split_ within (spent ?_) kept.closed ?_
          · show 0 < reading.unread.gap + (unfinished chunk.data).length
            omega
          · intro other member
            rw [head, List.mem_singleton] at member
            rw [member]
            exact ⟨head, data.symm⟩
          · rw [List.append_nil] at valid
            exact valid
        · rw [if_neg none]
          have longer : (unfinished chunk.data ++ lost).length =
              reading.unread.gap + (unfinished chunk.data).length := by
            rw [List.length_append, counted, Nat.add_comm]
          refine kept.output start longer ?_ ?_ ?_
          · have joined : chunk.data ++ (lost ++ bytes reading.unread.tail) =
                front ++ (unfinished chunk.data ++ lost ++ bytes reading.unread.tail) := by
              rw [List.append_assoc (unfinished chunk.data), ← List.append_assoc front, ← data]
            rw [text, bytes_nil, List.append_nil, joined, List.append_assoc reading.segment]
            rfl
          · intro room
            have := (kept.filling room).2
            omega
          · exact fun _ _ => valid

theorem kept_run {chars : List Char} {reading : Reading} {events : List Event}
    (kept : Kept chars reading) (within : reading.text ++ written events <+: encode chars)
    (ahead : Run.Meets Reading.step Ahead reading events)
    (seen : Run.Meets Reading.step Seen reading events) :
    ∀ reached ∈ Run.states Reading.step reading events, Kept chars reached := by
  induction events generalizing reading with
  | nil =>
      intro reached member
      rw [Run.states, List.mem_singleton] at member
      exact member ▸ kept
  | cons event rest ih =>
      intro reached member
      rw [Run.states, List.mem_cons] at member
      rcases member with rfl | member
      · exact kept
      · cases event with
        | push chunk =>
            refine ih (kept.push chunk ahead.1) ?_ ahead.2 seen.2 reached member
            rw [written, ← List.append_assoc] at within
            exact within
        | pop =>
            have before := (List.prefix_append reading.text _).trans within
            have same : (reading.step .pop).text = reading.text := by
              show (reading.read reading.unread.pop).text = reading.text
              rcases reading.unread.pop with ⟨_ | ⟨_ | _⟩, _⟩ <;> rfl
            refine ih (kept.pop before seen.1) ?_ ahead.2 seen.2 reached member
            rw [same]
            exact within

/-- Text read up to a gap, from a gap or from the start, and after the last gap to the end. -/
theorem gaps_between_characters (edge : Nat) (chars : List Char) (events : List Event)
    (within : written events <+: encode chars)
    (ahead : Run.Meets Reading.step Ahead (Reading.start edge) events)
    (seen : Run.Meets Reading.step Seen (Reading.start edge) events) :
    ∀ reading ∈ Run.states Reading.step (Reading.start edge) events,
      (∀ segment ∈ reading.closed, Valid segment) ∧
        (reading.text = encode chars → reading.unread.pop.1 = none → Valid reading.segment) := by
  intro reading reached
  have kept := kept_run (kept_start chars edge) within ahead seen reading reached
  refine ⟨kept.closed, fun whole nothing => ?_⟩
  obtain ⟨past, lost, ⟨front, back, rfl, rfl⟩, counted, text⟩ := kept.text
  obtain ⟨head, even, tail⟩ := Unread.pop_none nothing
  have none : lost = [] := List.length_eq_zero_iff.mp (counted.trans even)
  rw [head, tail, none, bytes_nil, List.nil_append, List.append_nil, List.append_nil, whole,
    encode_append, List.append_cancel_left_eq] at text
  exact ⟨back, text.symm⟩

def said (data : List UInt8) : Event := .push ⟨.stdout, data⟩

/-- A character the head starts and a gap cuts off, its last byte dropped from the tail. -/
def euroAcross : List Event :=
  [said [0x61, 0x61, 0x61, 0x61], said [0x63, 0x63], said [0x62, 0xe2, 0x82], .pop, .pop,
    said [0xac], said [0x64, 0x64, 0x64, 0x64], .pop, .pop, .pop, .pop]

theorem gaps_between_characters_euro :
    (Run.final Reading.step (Reading.start 4) euroAcross).closed =
        [[0x61, 0x61, 0x61, 0x61], [0x63, 0x62]] ∧
      ∀ segment ∈ (Run.final Reading.step (Reading.start 4) euroAcross).closed,
        Valid segment :=
  ⟨by decide +kernel,
    (gaps_between_characters 4 "aaaaccb€dddd".toList euroAcross (by decide +kernel)
      (by decide +kernel) (by decide +kernel) _ (Run.final_mem_states _ _ _)).1⟩

theorem valid_finished {text : List UInt8} (valid : Valid text) : unfinished text = [] := by
  obtain ⟨chars, rfl⟩ := valid
  rw [← List.append_nil (encode chars), unfinished_encode]
  rfl

/-- A character spread over the head's last two chunks is cut at the gap behind them. -/
def euroSpread : List Event :=
  [said [0x61, 0x62], said [0xe2], said [0x82], said [0xac, 0x63, 0x63, 0x63, 0x63, 0x63],
    .pop, .pop, .pop, .pop]

theorem spread_character_cut :
    ∃ edge chars events, written events = encode chars ∧
      Run.Meets Reading.step Ahead (Reading.start edge) events ∧
      ∃ segment ∈ (Run.final Reading.step (Reading.start edge) events).closed,
        ¬ Valid segment := by
  refine ⟨4, "ab€ccccc".toList, euroSpread, by decide +kernel, by decide +kernel,
    [0x61, 0x62, 0xe2, 0x82], by decide +kernel, ?_⟩
  intro valid
  exact absurd (valid_finished valid) (by decide)

end Agentsfleet.Edges
