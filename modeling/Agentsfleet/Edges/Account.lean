import Agentsfleet.Edges.Gaps

/-!
# What becomes of every byte

Everything that was pushed is read, counted as omitted where it is missing, or still unread.
-/

set_option autoImplicit false

namespace Agentsfleet.Edges

open Agentsfleet.Library
open Agentsfleet.Library.Utf8

/-! ## The account some results give of a text -/

/-- `text` is what the results give in order, with as many bytes missing at each omission as
it counts. -/
def Spells : List Next → List (Stream × UInt8) → Prop
  | [], text => text = []
  | .output chunk :: rest, text => ∃ behind, text = chunk.marked ++ behind ∧ Spells rest behind
  | .omitted count :: rest, text =>
      ∃ missing behind, text = missing ++ behind ∧ missing.length = count ∧ Spells rest behind

def told : List Next → List (Stream × UInt8)
  | [] => []
  | .output chunk :: rest => chunk.marked ++ told rest
  | .omitted _ :: rest => told rest

def counted : List Next → Nat
  | [] => 0
  | .output _ :: rest => counted rest
  | .omitted count :: rest => count + counted rest

theorem spells_append {first second : List Next} {text : List (Stream × UInt8)} :
    Spells (first ++ second) text ↔
      ∃ front back, text = front ++ back ∧ Spells first front ∧ Spells second back := by
  induction first generalizing text with
  | nil =>
      constructor
      · exact fun h => ⟨[], text, rfl, rfl, h⟩
      · rintro ⟨_, back, rfl, rfl, h⟩
        exact h
  | cons next rest ih =>
      cases next with
      | output chunk =>
          constructor
          · rintro ⟨behind, rfl, h⟩
            obtain ⟨front, back, rfl, ahead, after⟩ := ih.mp h
            exact ⟨chunk.marked ++ front, back, by rw [List.append_assoc], ⟨front, rfl, ahead⟩,
              after⟩
          · rintro ⟨_, back, rfl, ⟨front, rfl, ahead⟩, after⟩
            exact ⟨front ++ back, by rw [List.append_assoc],
              ih.mpr ⟨front, back, rfl, ahead, after⟩⟩
      | omitted count =>
          constructor
          · rintro ⟨missing, behind, rfl, length, h⟩
            obtain ⟨front, back, rfl, ahead, after⟩ := ih.mp h
            exact ⟨missing ++ front, back, by rw [List.append_assoc],
              ⟨missing, front, rfl, length, ahead⟩, after⟩
          · rintro ⟨_, back, rfl, ⟨missing, front, rfl, length, ahead⟩, after⟩
            exact ⟨missing, front ++ back, by rw [List.append_assoc], length,
              ih.mpr ⟨front, back, rfl, ahead, after⟩⟩

theorem told_append (first second : List Next) :
    told (first ++ second) = told first ++ told second := by
  induction first with
  | nil => rfl
  | cons next rest ih =>
      cases next with
      | output chunk => exact (congrArg _ ih).trans (List.append_assoc _ _ _).symm
      | omitted count => exact ih

theorem counted_append (first second : List Next) :
    counted (first ++ second) = counted first + counted second := by
  induction first with
  | nil => exact (Nat.zero_add _).symm
  | cons next rest ih =>
      cases next with
      | output chunk => exact ih
      | omitted count => exact (congrArg _ ih).trans (Nat.add_assoc _ _ _).symm

theorem told_output (chunks : List Chunk) : told (chunks.map .output) = marked chunks := by
  induction chunks with
  | nil => rfl
  | cons chunk rest ih => rw [marked_cons, ← ih]; rfl

theorem counted_output (chunks : List Chunk) : counted (chunks.map .output) = 0 := by
  induction chunks with
  | nil => rfl
  | cons chunk rest ih => exact ih

theorem spells_output {chunks : List Chunk} {text : List (Stream × UInt8)} :
    Spells (chunks.map .output) text ↔ text = marked chunks := by
  induction chunks generalizing text with
  | nil => exact Iff.rfl
  | cons chunk rest ih =>
      constructor
      · rintro ⟨behind, rfl, h⟩
        rw [marked_cons, ih.mp h]
      · rintro rfl
        exact ⟨marked rest, marked_cons _ _, ih.mpr rfl⟩

theorem Spells.length {results : List Next} {text : List (Stream × UInt8)}
    (spells : Spells results text) : (told results).length + counted results = text.length := by
  induction results generalizing text with
  | nil =>
      cases spells
      rfl
  | cons next rest ih =>
      cases next with
      | output chunk =>
          obtain ⟨behind, rfl, h⟩ := spells
          have := ih h
          rw [told, counted, List.length_append, List.length_append]
          omega
      | omitted count =>
          obtain ⟨missing, behind, rfl, length, h⟩ := spells
          have := ih h
          rw [told, counted, List.length_append]
          omega

theorem Spells.told {results : List Next} {text : List (Stream × UInt8)}
    (spells : Spells results text) (whole : counted results = 0) : told results = text := by
  induction results generalizing text with
  | nil =>
      cases spells
      rfl
  | cons next rest ih =>
      cases next with
      | output chunk =>
          obtain ⟨behind, rfl, h⟩ := spells
          rw [Edges.told, ih h whole]
      | omitted count =>
          obtain ⟨missing, behind, rfl, length, h⟩ := spells
          rw [counted] at whole
          have none : missing = [] := List.length_eq_zero_iff.mp (by omega)
          rw [Edges.told, ih h (by omega), none, List.nil_append]

namespace Unread

/-- All a reader will be handed if nothing more is pushed and nothing more is cut. -/
def left (unread : Unread) : List Next :=
  unread.head.map .output ++ .omitted unread.gap :: unread.tail.map .output

theorem spells_left {unread : Unread} {text : List (Stream × UInt8)} :
    Spells unread.left text ↔ ∃ lost, lost.length = unread.gap ∧
      text = marked unread.head ++ (lost ++ marked unread.tail) := by
  constructor
  · intro h
    obtain ⟨_, _, rfl, head, lost, _, rfl, length, tail⟩ := spells_append.mp h
    rw [spells_output] at head tail
    exact ⟨lost, length, by rw [head, tail]⟩
  · rintro ⟨lost, length, rfl⟩
    exact spells_append.mpr ⟨_, _, rfl, spells_output.mpr rfl, lost, _, rfl, length,
      spells_output.mpr rfl⟩

theorem told_left (unread : Unread) :
    told unread.left = marked unread.head ++ marked unread.tail := by
  rw [left, told_append, told_output]
  exact congrArg _ (told_output _)

theorem counted_left (unread : Unread) : counted unread.left = unread.gap := by
  rw [left, counted_append, counted_output, Nat.zero_add]
  exact congrArg _ (counted_output _)

/-! ## Counters -/

/-- What stays so of the counters beside the chunks they count. -/
structure Sound (unread : Unread) : Prop where
  tailLen : unread.tailLen = (marked unread.tail).length
  tail : unread.tailLen ≤ unread.edge
  head : (marked unread.head).length + unread.headLeft ≤ unread.edge
  filling : unread.headLeft ≠ 0 → unread.tail = [] ∧ unread.gap = 0

theorem sound_new (edge : Nat) : Sound (new edge) where
  tailLen := rfl
  tail := Nat.zero_le _
  head := Nat.le_of_eq (Nat.zero_add _)
  filling := fun _ => ⟨rfl, rfl⟩

theorem Sound.held {unread : Unread} (sound : unread.Sound) :
    (marked unread.head ++ marked unread.tail).length ≤ 2 * unread.edge := by
  have := sound.tailLen
  have := sound.tail
  have := sound.head
  rw [List.length_append]
  omega

theorem Sound.keep {unread : Unread} {chunk : Chunk} (sound : unread.Sound)
    (full : unread.headLeft = 0) : (unread.keep chunk).Sound := by
  obtain ⟨dropped, eq, length, len, -⟩ := keep_spec unread chunk
  have counts := congrArg List.length eq
  rw [List.length_append, List.length_append, Chunk.length_marked] at counts
  have := sound.tailLen
  refine ⟨?_, ?_, sound.head, fun room => absurd full room⟩
  · omega
  · rw [keep_edge]
    omega

theorem boundary_le (data : List UInt8) (limit : Nat) : boundary data limit ≤ limit := by
  unfold boundary
  exact Nat.le_trans (Nat.sub_le _ _) (List.length_take_le limit data)

@[simp] theorem push_edge (unread : Unread) (chunk : Chunk) :
    (unread.push chunk).edge = unread.edge := by
  unfold Unread.push
  split
  · rfl
  · split
    · rfl
    · dsimp only
      split
      · rfl
      · rfl

theorem Sound.push {unread : Unread} {chunk : Chunk} (sound : unread.Sound) :
    (unread.push chunk).Sound := by
  unfold Unread.push
  by_cases full : unread.headLeft = 0
  · rw [if_pos full]
    exact sound.keep full
  · rw [if_neg full]
    by_cases fits : chunk.data.length < unread.headLeft
    · rw [if_pos fits]
      refine ⟨sound.tailLen, sound.tail, ?_, fun _ => sound.filling full⟩
      have := sound.head
      show (marked (unread.head ++ [chunk])).length + (unread.headLeft - chunk.data.length) ≤
        unread.edge
      rw [marked_append, marked_cons, marked_nil, List.append_nil, List.length_append,
        Chunk.length_marked]
      omega
    · rw [if_neg fits]
      dsimp only
      have mid : Sound { unread with
          headLeft := 0
          head := if (chunk.data.take (boundary chunk.data unread.headLeft)).isEmpty
            then unread.head
            else unread.head ++
              [{ chunk with data := chunk.data.take (boundary chunk.data unread.headLeft) }] } := by
        refine ⟨sound.tailLen, sound.tail, ?_, fun room => absurd rfl room⟩
        have := sound.head
        have := boundary_le chunk.data unread.headLeft
        show (marked (if (chunk.data.take (boundary chunk.data unread.headLeft)).isEmpty
          then unread.head else unread.head ++
            [{ chunk with data := chunk.data.take (boundary chunk.data unread.headLeft) }])).length
          + 0 ≤ unread.edge
        rw [marked_split, List.length_append, List.length_take]
        omega
      by_cases none : (chunk.data.drop (boundary chunk.data unread.headLeft)).isEmpty = true
      · rw [if_pos none]
        exact mid
      · rw [if_neg none]
        exact mid.keep rfl

theorem Sound.cross {unread : Unread} (sound : unread.Sound) : unread.cross.2.Sound := by
  have := sound.tailLen
  have := sound.tail
  by_cases even : unread.gap = 0
  · rw [cross_even unread even]
    refine ⟨rfl, Nat.zero_le _, ?_, fun _ => ⟨rfl, rfl⟩⟩
    show (marked unread.tail).length + (unread.edge - unread.tailLen) ≤ unread.edge
    omega
  · obtain ⟨dropped, -, tail, -, crossed⟩ := cross_gap unread (Nat.pos_of_ne_zero even)
    have counts := congrArg List.length tail
    rw [List.length_append] at counts
    have left : unread.cross.2.headLeft = unread.edge - (unread.tailLen - dropped.length) := by
      rw [crossed]
    have edge : unread.cross.2.edge = unread.edge := by rw [crossed]
    refine ⟨by rw [crossed]; rfl, by rw [crossed]; exact Nat.zero_le _, ?_,
      fun _ => by rw [crossed]; exact ⟨rfl, rfl⟩⟩
    omega

/-- A reader is handed something, or told there is nothing, and no byte is unaccounted for. -/
structure Handed (unread : Unread) (result : Option Next × Unread) : Prop where
  sound : result.2.Sound
  edge : result.2.edge = unread.edge
  account : ∀ text, Spells unread.left text → Spells (result.1.toList ++ result.2.left) text
  whole : unread.gap = 0 → counted result.1.toList = 0 ∧ result.2.gap = 0

theorem Handed.of {before unread : Unread} {result : Option Next × Unread}
    (handed : unread.Handed result) (edge : unread.edge = before.edge)
    (account : ∀ text, Spells before.left text → Spells unread.left text)
    (even : before.gap = 0 → unread.gap = 0) : before.Handed result :=
  ⟨handed.sound, handed.edge.trans edge,
    fun text spells => handed.account text (account text spells),
    fun none => handed.whole (even none)⟩

theorem handed_nothing {unread : Unread} (sound : unread.Sound) : unread.Handed (none, unread) :=
  ⟨sound, rfl, fun _ spells => spells, fun even => ⟨rfl, even⟩⟩

theorem handed_output {unread : Unread} {chunk : Chunk} {behind : List Chunk}
    (sound : unread.Sound) (head : unread.head = chunk :: behind) :
    unread.Handed (some (.output chunk), { unread with head := behind }) := by
  refine ⟨⟨sound.tailLen, sound.tail, ?_, sound.filling⟩, rfl, ?_, fun even => ⟨rfl, even⟩⟩
  · have := sound.head
    rw [head, marked_cons, List.length_append] at this
    show (marked behind).length + unread.headLeft ≤ unread.edge
    omega
  · intro text spells
    obtain ⟨lost, length, rfl⟩ := spells_left.mp spells
    refine ⟨marked behind ++ (lost ++ marked unread.tail), ?_, spells_left.mpr ⟨lost, length, rfl⟩⟩
    rw [head, marked_cons, List.append_assoc]

theorem handed_cross {unread : Unread} (sound : unread.Sound) (head : unread.head = [])
    (opened : 0 < unread.gap) :
    unread.Handed (some (.omitted unread.cross.1), unread.cross.2) := by
  obtain ⟨dropped, -, tail, count, crossed⟩ := cross_gap unread opened
  refine ⟨sound.cross, by rw [crossed], ?_, fun even => absurd even (by omega)⟩
  intro text spells
  obtain ⟨lost, length, rfl⟩ := spells_left.mp spells
  refine ⟨lost ++ dropped, marked unread.cross.2.head, ?_, ?_, ?_⟩
  · rw [head, tail, marked_nil, List.nil_append, List.append_assoc]
  · rw [List.length_append, length, count]
  · apply spells_left.mpr
    refine ⟨[], by rw [crossed]; rfl, ?_⟩
    have none : unread.cross.2.tail = [] := by rw [crossed]
    rw [none, marked_nil, List.append_nil, List.append_nil]

theorem handed_last {unread : Unread} {chunk : Chunk} (sound : unread.Sound)
    (head : unread.head = [chunk]) (opened : 0 < unread.gap) : unread.Handed unread.next := by
  obtain ⟨kept, data⟩ := unfinished_suffix chunk.data
  obtain ⟨ahead, eq, next⟩ := next_last head opened data.symm
  have room : unread.headLeft = 0 := by
    apply Classical.byContradiction
    intro room
    have := (sound.filling room).2
    omega
  have after : ahead.Sound := by
    rw [eq]
    refine ⟨sound.tailLen, sound.tail, ?_, fun left => absurd room left⟩
    rw [room]
    exact Nat.zero_le _
  -- The character's bytes join what the gap counts.
  have account : ∀ text, Spells unread.left text → ∃ behind,
      text = kept.map (chunk.stream, ·) ++ behind ∧ Spells ahead.left behind := by
    intro text spells
    obtain ⟨lost, length, rfl⟩ := spells_left.mp spells
    refine ⟨(unfinished chunk.data).map (chunk.stream, ·) ++ lost ++ marked unread.tail, ?_, ?_⟩
    · rw [head, marked_cons, marked_nil, List.append_nil, Chunk.marked, List.append_assoc,
        ← List.append_assoc (kept.map _), ← List.map_append, data]
    · rw [eq]
      apply spells_left.mpr
      refine ⟨(unfinished chunk.data).map (chunk.stream, ·) ++ lost, ?_, rfl⟩
      rw [List.length_append, List.length_map, length, Nat.add_comm]
  rw [next]
  by_cases none : kept.isEmpty = true
  · rw [if_pos none]
    refine (handed_cross after (by rw [eq]) ?_).of (by rw [eq]) ?_
      (fun even => absurd even (by omega))
    · rw [eq]
      exact Nat.lt_of_lt_of_le opened (Nat.le_add_right _ _)
    · intro text spells
      obtain ⟨behind, rfl, rest⟩ := account text spells
      rw [List.isEmpty_iff.mp none]
      exact rest
  · rw [if_neg none]
    exact ⟨after, by rw [eq], account, fun even => absurd even (by omega)⟩

theorem handed_next {unread : Unread} (sound : unread.Sound) : unread.Handed unread.next := by
  cases head : unread.head with
  | nil =>
      rw [next_nil head]
      exact handed_nothing sound
  | cons chunk behind =>
      by_cases apart : behind = [] → unread.gap = 0
      · rw [next_whole head apart]
        exact handed_output sound head
      · obtain ⟨rfl, even⟩ := Classical.not_imp.mp apart
        exact handed_last sound head (Nat.pos_of_ne_zero even)

theorem handed_pop {unread : Unread} (sound : unread.Sound) : unread.Handed unread.pop := by
  cases head : unread.head with
  | cons chunk behind =>
      rw [pop_of_cons head]
      exact handed_next sound
  | nil =>
      by_cases even : unread.gap = 0
      · rw [pop_of_even head even]
        refine (handed_next sound.cross).of (by rw [cross_even _ even]) ?_
          (fun _ => by rw [cross_even _ even])
        intro text spells
        obtain ⟨lost, length, rfl⟩ := spells_left.mp spells
        rw [cross_even _ even]
        apply spells_left.mpr
        have nothing : lost = [] := List.length_eq_zero_iff.mp (length.trans even)
        refine ⟨[], rfl, ?_⟩
        rw [head, nothing]
        exact (List.append_nil _).symm
      · rw [pop_of_read head (Nat.pos_of_ne_zero even)]
        exact handed_cross sound head (Nat.pos_of_ne_zero even)

/-- A push adds its bytes behind what was left, dropping some only into the gap. -/
theorem spells_push {unread : Unread} {chunk : Chunk} {popped : List Next}
    {text : List (Stream × UInt8)} (sound : unread.Sound)
    (spells : Spells (popped ++ unread.left) text) :
    Spells (popped ++ (unread.push chunk).left) (text ++ chunk.marked) := by
  obtain ⟨front, back, rfl, ahead, after⟩ := spells_append.mp spells
  obtain ⟨lost, length, rfl⟩ := spells_left.mp after
  obtain ⟨added, rest, dropped, data, head, tail, gap, full, -⟩ := push_spec unread chunk
  refine spells_append.mpr ⟨front, _, List.append_assoc _ _ _, ahead, spells_left.mpr
    ⟨lost ++ dropped, by rw [List.length_append, length, gap], ?_⟩⟩
  rw [head, data, List.append_assoc lost, ← tail]
  by_cases room : unread.headLeft = 0
  · rw [(full room).2]
    simp
  · obtain ⟨none, even⟩ := sound.filling room
    have nothing : lost = [] := List.length_eq_zero_iff.mp (length.trans even)
    rw [none, nothing]
    simp

theorem push_gap {unread : Unread} {chunk : Chunk} (sound : unread.Sound)
    (read : marked unread.tail = []) (short : chunk.data.length ≤ unread.edge) :
    (unread.push chunk).gap = unread.gap := by
  have empty : unread.tailLen = 0 := by rw [sound.tailLen, read]; rfl
  unfold push
  by_cases full : unread.headLeft = 0
  · rw [if_pos full]
    obtain ⟨dropped, -, length, -, gap⟩ := keep_spec unread chunk
    omega
  · rw [if_neg full]
    by_cases fits : chunk.data.length < unread.headLeft
    · rw [if_pos fits]
    · rw [if_neg fits]
      dsimp only
      generalize boundary chunk.data unread.headLeft = whole
      by_cases none : (chunk.data.drop whole).isEmpty = true
      · rw [if_pos none]
      · rw [if_neg none]
        obtain ⟨dropped, -, length, -, gap⟩ := keep_spec
          { unread with
            headLeft := 0
            head := if (chunk.data.take whole).isEmpty then unread.head
              else unread.head ++ [{ chunk with data := chunk.data.take whole }] }
          { chunk with data := chunk.data.drop whole }
        rw [List.length_drop] at length
        dsimp only at length gap
        omega

end Unread

/-! ## Subtractions as the counters make them -/

def lowered (count less : Nat) : Option Nat := if less ≤ count then some (count - less) else none

theorem lowered_of_le {count less : Nat} (enough : less ≤ count) :
    lowered count less = some (count - less) := if_pos enough

/-! The operations with each subtraction that is not a saturating one made so. -/

namespace Checked

def dropLoop : List Chunk → Nat → Nat → Nat → Option (List Chunk × Nat × Nat)
  | [], _, tailLen, gap => some ([], tailLen, gap)
  | front :: behind, count, tailLen, gap =>
      if 0 < count then
        let drop := min count front.data.length
        let data := front.data.drop drop
        (lowered tailLen drop).bind fun tailLen =>
          (lowered count drop).bind fun count =>
            if data.isEmpty then dropLoop behind count tailLen (gap + drop)
            else some ({ front with data } :: behind, tailLen, gap + drop)
      else some (front :: behind, tailLen, gap)

def dropFront (unread : Unread) (count : Nat) : Option Unread :=
  (dropLoop unread.tail count unread.tailLen unread.gap).map fun (tail, tailLen, gap) =>
    { unread with tail, tailLen, gap }

def keep (unread : Unread) (chunk : Chunk) : Option Unread :=
  let unread :=
    { unread with tailLen := unread.tailLen + chunk.data.length, tail := unread.tail ++ [chunk] }
  dropFront unread (unread.tailLen - unread.edge)

def push (unread : Unread) (chunk : Chunk) : Option Unread :=
  if unread.headLeft = 0 then keep unread chunk
  else if chunk.data.length < unread.headLeft then
    (lowered unread.headLeft chunk.data.length).map fun headLeft =>
      { unread with headLeft, head := unread.head ++ [chunk] }
  else
    let whole := boundary chunk.data unread.headLeft
    let data := chunk.data.take whole
    let rest := chunk.data.drop whole
    let unread := { unread with
      headLeft := 0
      head := if data.isEmpty then unread.head else unread.head ++ [{ chunk with data }] }
    if rest.isEmpty then some unread else keep unread { chunk with data := rest }

def cross (unread : Unread) : Option (Nat × Unread) :=
  (if 0 < unread.gap then
      let remains :=
        (((bytes unread.tail).take maxContinuation).takeWhile continuesACharacter).length
      dropFront unread remains
    else some unread).bind fun unread =>
      (lowered unread.edge unread.tailLen).map fun headLeft =>
        (unread.gap,
          { unread with head := unread.tail, tail := [], headLeft, tailLen := 0, gap := 0 })

def next (unread : Unread) : Option (Option Next × Unread) :=
  match unread.head with
  | [] => some (none, unread)
  | chunk :: behind =>
      let unread := { unread with head := behind }
      if behind.isEmpty && 0 < unread.gap then
        let whole := boundary chunk.data chunk.data.length
        (lowered chunk.data.length whole).bind fun cut =>
          let (chunk, unread) :=
            if 0 < cut then
              ({ chunk with data := chunk.data.take whole },
                { unread with gap := unread.gap + cut })
            else (chunk, unread)
          if chunk.data.isEmpty then
            (cross unread).map fun (gap, crossed) => (some (.omitted gap), crossed)
          else some (some (.output chunk), unread)
      else some (some (.output chunk), unread)

def pop (unread : Unread) : Option (Option Next × Unread) :=
  if unread.head.isEmpty then
    (cross unread).bind fun (gap, crossed) =>
      if 0 < gap then some (some (.omitted gap), crossed) else next crossed
  else next unread

theorem dropLoop_eq {tail : List Chunk} {count tailLen gap : Nat}
    (enough : (marked tail).length ≤ tailLen) :
    dropLoop tail count tailLen gap = some (Unread.dropLoop tail count tailLen gap) := by
  induction tail generalizing count tailLen gap with
  | nil => rfl
  | cons front behind ih =>
      rw [marked_cons, List.length_append, Chunk.length_marked] at enough
      unfold dropLoop Unread.dropLoop
      by_cases some : 0 < count
      · rw [if_pos some, if_pos some]
        dsimp only
        rw [lowered_of_le (by omega), Option.bind_some, lowered_of_le (by omega), Option.bind_some]
        by_cases all : (front.data.drop (min count front.data.length)).isEmpty = true
        · rw [if_pos all, if_pos all]
          exact ih (by omega)
        · rw [if_neg all, if_neg all]
      · rw [if_neg some, if_neg some]

theorem dropFront_eq {unread : Unread} {count : Nat}
    (enough : (marked unread.tail).length ≤ unread.tailLen) :
    dropFront unread count = some (unread.dropFront count) := by
  rw [dropFront, dropLoop_eq enough]
  rfl

theorem keep_eq {unread : Unread} {chunk : Chunk}
    (enough : (marked unread.tail).length ≤ unread.tailLen) :
    keep unread chunk = some (unread.keep chunk) := by
  apply dropFront_eq
  show (marked (unread.tail ++ [chunk])).length ≤ unread.tailLen + chunk.data.length
  rw [marked_append, marked_cons, marked_nil, List.append_nil, List.length_append,
    Chunk.length_marked]
  omega

theorem push_eq {unread : Unread} (sound : unread.Sound) (chunk : Chunk) :
    push unread chunk = some (unread.push chunk) := by
  have enough := Nat.le_of_eq sound.tailLen.symm
  unfold push Unread.push
  by_cases full : unread.headLeft = 0
  · rw [if_pos full, if_pos full, keep_eq enough]
  · rw [if_neg full, if_neg full]
    by_cases fits : chunk.data.length < unread.headLeft
    · rw [if_pos fits, if_pos fits, lowered_of_le (Nat.le_of_lt fits)]
      rfl
    · rw [if_neg fits, if_neg fits]
      dsimp only
      generalize boundary chunk.data unread.headLeft = whole
      by_cases none : (chunk.data.drop whole).isEmpty = true
      · rw [if_pos none, if_pos none]
      · rw [if_neg none, if_neg none]
        exact keep_eq enough

theorem cross_eq {unread : Unread} (tailLen : unread.tailLen = (marked unread.tail).length)
    (short : unread.tailLen ≤ unread.edge) : cross unread = some unread.cross := by
  unfold cross Unread.cross
  by_cases opened : 0 < unread.gap
  · rw [if_pos opened, if_pos opened]
    dsimp only
    rw [dropFront_eq (Nat.le_of_eq tailLen.symm), Option.bind_some, lowered_of_le]
    · rfl
    · obtain ⟨dropped, -, -, len, -⟩ := unread.dropFront_spec
        (((bytes unread.tail).take maxContinuation).takeWhile continuesACharacter).length
      show (unread.dropFront _).tailLen ≤ unread.edge
      omega
  · rw [if_neg opened, if_neg opened, Option.bind_some, lowered_of_le short]
    rfl

theorem omitted_eq {unread : Unread} (tailLen : unread.tailLen = (marked unread.tail).length)
    (short : unread.tailLen ≤ unread.edge) :
    ((cross unread).map fun (gap, crossed) => (some (Next.omitted gap), crossed)) =
      some (some (Next.omitted unread.cross.1), unread.cross.2) := by
  rw [cross_eq tailLen short]
  rfl

theorem next_eq {unread : Unread} (tailLen : unread.tailLen = (marked unread.tail).length)
    (short : unread.tailLen ≤ unread.edge) : next unread = some unread.next := by
  unfold next Unread.next
  cases unread.head with
  | nil => rfl
  | cons chunk behind =>
      dsimp only
      by_cases last : (behind.isEmpty && decide (0 < unread.gap)) = true
      · rw [if_pos last, if_pos last, lowered_of_le (Unread.boundary_le _ _), Option.bind_some]
        by_cases cut : 0 < chunk.data.length - boundary chunk.data chunk.data.length
        · rw [if_pos cut]
          dsimp only
          split
          · exact omitted_eq tailLen short
          · rfl
        · rw [if_neg cut]
          dsimp only
          split
          · exact omitted_eq tailLen short
          · rfl
      · rw [if_neg last, if_neg last]

theorem pop_eq {unread : Unread} (sound : unread.Sound) : pop unread = some unread.pop := by
  unfold pop Unread.pop
  by_cases read : unread.head.isEmpty = true
  · rw [if_pos read, if_pos read, cross_eq sound.tailLen sound.tail, Option.bind_some]
    dsimp only
    by_cases opened : 0 < unread.cross.1
    · rw [if_pos opened, if_pos opened]
    · rw [if_neg opened, if_neg opened]
      exact next_eq sound.cross.tailLen sound.cross.tail
  · rw [if_neg read, if_neg read]
    exact next_eq sound.tailLen sound.tail

end Checked

/-! ## Every order of reading and writing -/

structure Account where
  unread : Unread
  pushed : List (Stream × UInt8)
  popped : List Next
  deriving DecidableEq

namespace Account

def start (edge : Nat) : Account := ⟨Unread.new edge, [], []⟩

def step (account : Account) : Event → Account
  | .push chunk =>
      { account with
        unread := account.unread.push chunk, pushed := account.pushed ++ chunk.marked }
  | .pop =>
      let (result, unread) := account.unread.pop
      { account with unread, popped := account.popped ++ result.toList }

def held (account : Account) : List (Stream × UInt8) :=
  marked account.unread.head ++ marked account.unread.tail

/-- Each pushed byte is read, counted where it is missing, or unread; what is held is within
both edges, and no counter goes below nothing whatever comes next. -/
structure Exact (edge : Nat) (account : Account) : Prop where
  spells : Spells (account.popped ++ account.unread.left) account.pushed
  count : (told account.popped).length + counted account.popped +
    (account.held.length + account.unread.gap) = account.pushed.length
  held : account.held.length ≤ 2 * edge
  push : ∀ chunk, Checked.push account.unread chunk = some (account.unread.push chunk)
  pop : Checked.pop account.unread = some account.unread.pop

def CaughtUp (account : Account) : Event → Prop
  | .push chunk => account.held = [] ∧ account.unread.gap = 0 ∧
      chunk.data.length < account.unread.edge
  | .pop => True

instance (account : Account) : (event : Event) → Decidable (CaughtUp account event)
  | .push _ => inferInstanceAs (Decidable (_ ∧ _))
  | .pop => inferInstanceAs (Decidable True)

structure Inv (edge : Nat) (account : Account) : Prop where
  sound : account.unread.Sound
  edge : account.unread.edge = edge
  spells : Spells (account.popped ++ account.unread.left) account.pushed

theorem inv_start (edge : Nat) : Inv edge (start edge) :=
  ⟨Unread.sound_new edge, rfl, Unread.spells_left.mpr ⟨[], rfl, rfl⟩⟩

theorem inv_step {edge : Nat} (account : Account) (event : Event) (inv : Inv edge account) :
    Inv edge (account.step event) := by
  cases event with
  | push chunk =>
      refine ⟨inv.sound.push, ?_, Unread.spells_push inv.sound inv.spells⟩
      show (account.unread.push chunk).edge = edge
      rw [← inv.edge, Unread.push_edge]
  | pop =>
      have handed := Unread.handed_pop inv.sound
      refine ⟨handed.sound, handed.edge.trans inv.edge, ?_⟩
      obtain ⟨front, back, eq, ahead, after⟩ := spells_append.mp inv.spells
      show Spells (account.popped ++ _ ++ _) account.pushed
      rw [List.append_assoc, eq]
      exact spells_append.mpr ⟨front, back, rfl, ahead, handed.account back after⟩

theorem Inv.exact {edge : Nat} {account : Account} (inv : Inv edge account) :
    Exact edge account where
  spells := inv.spells
  count := by
    have := inv.spells.length
    rw [told_append, counted_append, Unread.told_left, Unread.counted_left,
      List.length_append] at this
    unfold held
    omega
  held := inv.edge ▸ inv.sound.held
  push := Checked.push_eq inv.sound
  pop := Checked.pop_eq inv.sound

structure Whole (edge : Nat) (account : Account) : Prop where
  inv : Inv edge account
  gap : account.unread.gap = 0
  omitted : counted account.popped = 0

theorem whole_step {edge : Nat} (account : Account) (event : Event) (whole : Whole edge account)
    (caughtUp : CaughtUp account event) : Whole edge (account.step event) := by
  cases event with
  | push chunk =>
      obtain ⟨read, -, short⟩ := caughtUp
      refine ⟨inv_step account _ whole.inv, ?_, whole.omitted⟩
      exact (Unread.push_gap whole.inv.sound (List.append_eq_nil_iff.mp read).2
        (Nat.le_of_lt short)).trans whole.gap
  | pop =>
      obtain ⟨none, even⟩ := (Unread.handed_pop whole.inv.sound).whole whole.gap
      refine ⟨inv_step account _ whole.inv, even, ?_⟩
      show counted (account.popped ++ account.unread.pop.1.toList) = 0
      rw [counted_append, whole.omitted, none]

theorem Whole.read {edge : Nat} {account : Account} (whole : Whole edge account) :
    told account.popped ++ account.held = account.pushed := by
  have even : counted (account.popped ++ account.unread.left) = 0 := by
    rw [counted_append, whole.omitted, Unread.counted_left, whole.gap]
  rw [← whole.inv.spells.told even, told_append, Unread.told_left]
  rfl

end Account

/-- In every order of pushes and pops each byte is accounted for, and a reader that has read
everything before each push loses none. -/
theorem every_byte_accounted (edge : Nat) (events : List Event) :
    (∀ account ∈ Run.states Account.step (Account.start edge) events,
      account.Exact edge) ∧
    (Run.Meets Account.step Account.CaughtUp (Account.start edge) events →
      ∀ account ∈ Run.states Account.step (Account.start edge) events,
        told account.popped ++ account.held = account.pushed) := by
  constructor
  · intro account reached
    exact (Run.invariant_of_step (Account.Inv edge) Account.inv_step (Account.inv_start edge)
      events account reached).exact
  · intro caughtUp account reached
    exact (Run.invariant_of_meets Account.whole_step
      ⟨Account.inv_start edge, rfl, rfl⟩ caughtUp account reached).read

/-- Two full edges pushed at once and read after, then two short ones read as they come. -/
def pushedThenRead : List Event :=
  [said [0x61, 0x62, 0x63, 0x64], said [0x65, 0x66, 0x67, 0x68, 0x69, 0x6a], .pop, .pop, .pop]

def readAsPushed : List Event :=
  [said [0x61, 0x62, 0x63], .pop, said [0x64, 0x65, 0x66], .pop, .pop]

theorem every_byte_accounted_four :
    (Run.final Account.step (Account.start 4) pushedThenRead).Exact 4 ∧
      counted (Run.final Account.step (Account.start 4) pushedThenRead).popped = 2 ∧
      told (Run.final Account.step (Account.start 4) readAsPushed).popped ++
          (Run.final Account.step (Account.start 4) readAsPushed).held =
        (Run.final Account.step (Account.start 4) readAsPushed).pushed :=
  ⟨(every_byte_accounted 4 pushedThenRead).1 _ (Run.final_mem_states _ _ _), by decide +kernel,
    (every_byte_accounted 4 readAsPushed).2 (by decide +kernel) _ (Run.final_mem_states _ _ _)⟩

end Agentsfleet.Edges
