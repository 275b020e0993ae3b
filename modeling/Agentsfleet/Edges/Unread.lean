import Agentsfleet.Library.Utf8
import Mathlib.Data.List.Basic

/-!
# Unread output

What a process said that its reader has not read yet: the oldest bytes and the newest, and
how many fell between.
-/

set_option autoImplicit false

namespace Agentsfleet.Edges

open Agentsfleet.Library.Utf8

/-- The most bytes before the tail's first character that can belong to one cut off ahead of
them. -/
def maxContinuation : Nat := 3

inductive Stream
  | stdout
  | stderr
  | terminal
  deriving DecidableEq, Repr

structure Chunk where
  stream : Stream
  data : List UInt8
  deriving DecidableEq, Repr

inductive Next
  | output (chunk : Chunk)
  | omitted (gap : Nat)
  deriving DecidableEq, Repr

structure Unread where
  edge : Nat
  head : List Chunk
  headLeft : Nat
  tail : List Chunk
  tailLen : Nat
  gap : Nat
  deriving DecidableEq, Repr

def bytes (chunks : List Chunk) : List UInt8 := chunks.flatMap (·.data)

@[simp] theorem bytes_nil : bytes [] = [] := rfl

@[simp] theorem bytes_cons (chunk : Chunk) (chunks : List Chunk) :
    bytes (chunk :: chunks) = chunk.data ++ bytes chunks := by
  simp [bytes]

def Chunk.marked (chunk : Chunk) : List (Stream × UInt8) := chunk.data.map (chunk.stream, ·)

def marked (chunks : List Chunk) : List (Stream × UInt8) := chunks.flatMap Chunk.marked

@[simp] theorem marked_nil : marked [] = [] := rfl

@[simp] theorem marked_cons (chunk : Chunk) (chunks : List Chunk) :
    marked (chunk :: chunks) = chunk.marked ++ marked chunks := by
  simp [marked]

@[simp] theorem marked_append (front back : List Chunk) :
    marked (front ++ back) = marked front ++ marked back := by
  simp [marked]

@[simp] theorem Chunk.length_marked (chunk : Chunk) : chunk.marked.length = chunk.data.length :=
  List.length_map _

@[simp] theorem Chunk.map_marked (chunk : Chunk) : chunk.marked.map Prod.snd = chunk.data := by
  rw [Chunk.marked, List.map_map]
  exact List.map_id _

theorem bytes_eq_map (chunks : List Chunk) : bytes chunks = (marked chunks).map Prod.snd := by
  induction chunks with
  | nil => rfl
  | cons chunk rest ih => rw [bytes_cons, marked_cons, List.map_append, ih, Chunk.map_marked]

theorem length_bytes (chunks : List Chunk) : (bytes chunks).length = (marked chunks).length := by
  rw [bytes_eq_map, List.length_map]

/-- The cut at or before `limit` that splits no character. -/
def boundary (data : List UInt8) (limit : Nat) : Nat :=
  let front := data.take limit
  front.length - (unfinished front).length

def continuesACharacter (byte : UInt8) : Bool := 0x80 ≤ byte && byte ≤ 0xbf

namespace Unread

def new (edge : Nat) : Unread :=
  { edge, head := [], headLeft := edge, tail := [], tailLen := 0, gap := 0 }

/-- Drops `count` bytes from the tail's oldest end, counting them. -/
def dropLoop : List Chunk → Nat → Nat → Nat → List Chunk × Nat × Nat
  | [], _, tailLen, gap => ([], tailLen, gap)
  | front :: behind, count, tailLen, gap =>
      if 0 < count then
        let drop := min count front.data.length
        let data := front.data.drop drop
        -- A front left with bytes took the whole count.
        if data.isEmpty then dropLoop behind (count - drop) (tailLen - drop) (gap + drop)
        else ({ front with data } :: behind, tailLen - drop, gap + drop)
      else (front :: behind, tailLen, gap)

def dropFront (unread : Unread) (count : Nat) : Unread :=
  let (tail, tailLen, gap) := dropLoop unread.tail count unread.tailLen unread.gap
  { unread with tail, tailLen, gap }

/-- Appends to the tail, dropping its oldest bytes past the edge. -/
def keep (unread : Unread) (chunk : Chunk) : Unread :=
  let unread :=
    { unread with tailLen := unread.tailLen + chunk.data.length, tail := unread.tail ++ [chunk] }
  unread.dropFront (unread.tailLen - unread.edge)

def push (unread : Unread) (chunk : Chunk) : Unread :=
  if unread.headLeft = 0 then unread.keep chunk
  else if chunk.data.length < unread.headLeft then
    { unread with
      headLeft := unread.headLeft - chunk.data.length, head := unread.head ++ [chunk] }
  else
    let whole := boundary chunk.data unread.headLeft
    let data := chunk.data.take whole
    let rest := chunk.data.drop whole
    let unread := { unread with
      headLeft := 0
      head := if data.isEmpty then unread.head else unread.head ++ [{ chunk with data }] }
    if rest.isEmpty then unread else unread.keep { chunk with data := rest }

/-- Makes the tail the head, once the head is read, and answers how many bytes fell between
them. -/
def cross (unread : Unread) : Nat × Unread :=
  let unread :=
    if 0 < unread.gap then
      let remains :=
        (((bytes unread.tail).take maxContinuation).takeWhile continuesACharacter).length
      unread.dropFront remains
    else unread
  (unread.gap, { unread with
    head := unread.tail, tail := [], headLeft := unread.edge - unread.tailLen, tailLen := 0,
    gap := 0 })

def next (unread : Unread) : Option Next × Unread :=
  match unread.head with
  | [] => (none, unread)
  | chunk :: behind =>
      let unread := { unread with head := behind }
      if behind.isEmpty && 0 < unread.gap then
        let whole := boundary chunk.data chunk.data.length
        let cut := chunk.data.length - whole
        let (chunk, unread) :=
          if 0 < cut then
            ({ chunk with data := chunk.data.take whole }, { unread with gap := unread.gap + cut })
          else (chunk, unread)
        if chunk.data.isEmpty then (some (.omitted unread.cross.1), unread.cross.2)
        else (some (.output chunk), unread)
      else (some (.output chunk), unread)

/-- The next thing to read: the head's chunks, then the count of what fell between, then the
tail's chunks. -/
def pop (unread : Unread) : Option Next × Unread :=
  if unread.head.isEmpty then
    let (gap, crossed) := unread.cross
    if 0 < gap then (some (.omitted gap), crossed) else crossed.next
  else unread.next

/-! ## What each operation does to the bytes -/

theorem dropLoop_spec (tail : List Chunk) (count tailLen gap : Nat) :
    ∃ dropped, marked tail = dropped ++ marked (dropLoop tail count tailLen gap).1 ∧
      dropped.length = min count (marked tail).length ∧
      (dropLoop tail count tailLen gap).2 = (tailLen - dropped.length, gap + dropped.length) := by
  induction tail generalizing count tailLen gap with
  | nil => exact ⟨[], rfl, by simp, rfl⟩
  | cons front behind ih =>
      unfold dropLoop
      by_cases some : 0 < count
      · rw [if_pos some]
        dsimp only
        by_cases all : (front.data.drop (min count front.data.length)).isEmpty = true
        · rw [if_pos all]
          have short : front.data.length ≤ count := by
            rw [List.isEmpty_iff, List.drop_eq_nil_iff] at all
            omega
          rw [Nat.min_eq_right short]
          obtain ⟨dropped, eq, length, rest⟩ :=
            ih (count - front.data.length) (tailLen - front.data.length)
              (gap + front.data.length)
          refine ⟨front.marked ++ dropped, ?_, ?_, ?_⟩
          · rw [marked_cons, eq, List.append_assoc]
          · rw [List.length_append, marked_cons, List.length_append, length, Chunk.length_marked]
            omega
          · rw [rest, List.length_append, Chunk.length_marked, Nat.sub_sub, Nat.add_assoc]
        · rw [if_neg all]
          have long : count < front.data.length := by
            rw [List.isEmpty_iff, List.drop_eq_nil_iff] at all
            omega
          rw [Nat.min_eq_left (by omega)]
          have cut : front.marked = front.marked.take count ++
              ({ front with data := front.data.drop count } : Chunk).marked := by
            unfold Chunk.marked
            dsimp only
            rw [List.map_drop, List.take_append_drop]
          refine ⟨front.marked.take count, ?_, ?_, ?_⟩
          · rw [marked_cons, marked_cons, ← List.append_assoc, ← cut]
          · rw [List.length_take, marked_cons, List.length_append, Chunk.length_marked]
            omega
          · rw [List.length_take, Chunk.length_marked, Nat.min_eq_left (by omega)]
      · rw [if_neg some]
        have none : count = 0 := by omega
        exact ⟨[], rfl, by simp [none], rfl⟩

theorem dropFront_spec (unread : Unread) (count : Nat) :
    ∃ dropped, marked unread.tail = dropped ++ marked (unread.dropFront count).tail ∧
      dropped.length = min count (marked unread.tail).length ∧
      (unread.dropFront count).tailLen = unread.tailLen - dropped.length ∧
      (unread.dropFront count).gap = unread.gap + dropped.length := by
  obtain ⟨dropped, eq, length, rest⟩ :=
    dropLoop_spec unread.tail count unread.tailLen unread.gap
  exact ⟨dropped, eq, length, congrArg Prod.fst rest, congrArg Prod.snd rest⟩

theorem keep_spec (unread : Unread) (chunk : Chunk) :
    ∃ dropped, marked unread.tail ++ chunk.marked = dropped ++ marked (unread.keep chunk).tail ∧
      dropped.length = min (unread.tailLen + chunk.data.length - unread.edge)
        ((marked unread.tail).length + chunk.data.length) ∧
      (unread.keep chunk).tailLen = unread.tailLen + chunk.data.length - dropped.length ∧
      (unread.keep chunk).gap = unread.gap + dropped.length := by
  obtain ⟨dropped, eq, length, rest⟩ := dropFront_spec
    { unread with tailLen := unread.tailLen + chunk.data.length, tail := unread.tail ++ [chunk] }
    (unread.tailLen + chunk.data.length - unread.edge)
  rw [marked_append, marked_cons, marked_nil, List.append_nil] at eq length
  rw [List.length_append, Chunk.length_marked] at length
  exact ⟨dropped, eq, length, rest⟩

@[simp] theorem keep_head (unread : Unread) (chunk : Chunk) :
    (unread.keep chunk).head = unread.head := rfl

@[simp] theorem keep_headLeft (unread : Unread) (chunk : Chunk) :
    (unread.keep chunk).headLeft = unread.headLeft := rfl

@[simp] theorem keep_edge (unread : Unread) (chunk : Chunk) :
    (unread.keep chunk).edge = unread.edge := rfl

theorem marked_split (head : List Chunk) (chunk : Chunk) (whole : Nat) :
    marked (if (chunk.data.take whole).isEmpty then head
        else head ++ [{ chunk with data := chunk.data.take whole }]) =
      marked head ++ chunk.marked.take whole := by
  have front : ({ chunk with data := chunk.data.take whole } : Chunk).marked =
      chunk.marked.take whole := List.map_take
  by_cases none : (chunk.data.take whole).isEmpty = true
  · rw [if_pos none, ← front]
    unfold Chunk.marked
    rw [List.isEmpty_iff.mp none, List.map_nil, List.append_nil]
  · rw [if_neg none, marked_append, marked_cons, marked_nil, List.append_nil, front]

theorem push_spec (unread : Unread) (chunk : Chunk) :
    ∃ added rest dropped, chunk.marked = added ++ rest ∧
      marked (unread.push chunk).head = marked unread.head ++ added ∧
      marked unread.tail ++ rest = dropped ++ marked (unread.push chunk).tail ∧
      (unread.push chunk).gap = unread.gap + dropped.length ∧
      (unread.headLeft = 0 → (unread.push chunk).head = unread.head ∧ added = []) ∧
      ((unread.push chunk).headLeft = 0 ∨ unread.headLeft ≠ 0 ∧ dropped = [] ∧
        (unread.push chunk).tail = unread.tail) := by
  unfold push
  by_cases full : unread.headLeft = 0
  · rw [if_pos full]
    obtain ⟨dropped, eq, -, -, gap⟩ := keep_spec unread chunk
    exact ⟨[], chunk.marked, dropped, rfl, by simp, eq, gap, fun _ => ⟨rfl, rfl⟩, Or.inl full⟩
  · rw [if_neg full]
    by_cases fits : chunk.data.length < unread.headLeft
    · rw [if_pos fits]
      exact ⟨chunk.marked, [], [], by simp, by simp, by simp, rfl, fun zero => absurd zero full,
        Or.inr ⟨full, rfl, rfl⟩⟩
    · rw [if_neg fits]
      dsimp only
      generalize boundary chunk.data unread.headLeft = whole
      have cut : chunk.marked = chunk.marked.take whole ++ chunk.marked.drop whole :=
        (List.take_append_drop whole chunk.marked).symm
      have behind : ({ chunk with data := chunk.data.drop whole } : Chunk).marked =
          chunk.marked.drop whole := List.map_drop
      by_cases none : (chunk.data.drop whole).isEmpty = true
      · rw [if_pos none]
        have nothing : chunk.marked.drop whole = [] := by
          rw [← behind, Chunk.marked, List.isEmpty_iff.mp none, List.map_nil]
        rw [nothing] at cut
        exact ⟨chunk.marked.take whole, [], [], cut, marked_split _ chunk whole, by simp, rfl,
          fun zero => absurd zero full, Or.inl rfl⟩
      · rw [if_neg none]
        obtain ⟨dropped, eq, -, -, gap⟩ := keep_spec
          { unread with
            headLeft := 0
            head := if (chunk.data.take whole).isEmpty then unread.head
              else unread.head ++ [{ chunk with data := chunk.data.take whole }] }
          { chunk with data := chunk.data.drop whole }
        rw [behind] at eq
        exact ⟨chunk.marked.take whole, chunk.marked.drop whole, dropped, cut,
          marked_split _ chunk whole, eq, gap, fun zero => absurd zero full, Or.inl rfl⟩

theorem push_bytes (unread : Unread) (chunk : Chunk) :
    ∃ added rest dropped, chunk.data = added ++ rest ∧
      bytes (unread.push chunk).head = bytes unread.head ++ added ∧
      bytes unread.tail ++ rest = dropped ++ bytes (unread.push chunk).tail ∧
      (unread.push chunk).gap = unread.gap + dropped.length ∧
      (unread.headLeft = 0 → (unread.push chunk).head = unread.head ∧ added = []) ∧
      ((unread.push chunk).headLeft = 0 ∨ unread.headLeft ≠ 0 ∧ dropped = [] ∧
        (unread.push chunk).tail = unread.tail) := by
  obtain ⟨added, rest, dropped, data, head, tail, gap, full, left⟩ := push_spec unread chunk
  refine ⟨added.map Prod.snd, rest.map Prod.snd, dropped.map Prod.snd, ?_, ?_, ?_, ?_, ?_, ?_⟩
  · rw [← Chunk.map_marked, data, List.map_append]
  · rw [bytes_eq_map, head, List.map_append, ← bytes_eq_map]
  · rw [bytes_eq_map, ← List.map_append, tail, List.map_append, ← bytes_eq_map]
  · rw [gap, List.length_map]
  · exact fun zero => ⟨(full zero).1, by rw [(full zero).2, List.map_nil]⟩
  · exact left.imp id fun ⟨room, nothing, same⟩ =>
      ⟨room, by rw [nothing, List.map_nil], same⟩

theorem remains_prefix (data : List UInt8) : remains data <+: data :=
  (List.takeWhile_prefix _).trans (List.take_prefix _ _)

theorem cross_opened (unread : Unread) (opened : 0 < unread.gap) :
    unread.cross =
      let dropped := unread.dropFront (remains (bytes unread.tail)).length
      (dropped.gap, { unread with
        head := dropped.tail, tail := [], headLeft := unread.edge - dropped.tailLen, tailLen := 0
        gap := 0 }) := by
  unfold cross
  rw [if_pos opened]
  rfl

theorem cross_gap (unread : Unread) (opened : 0 < unread.gap) :
    ∃ dropped, dropped.map Prod.snd = remains (bytes unread.tail) ∧
      marked unread.tail = dropped ++ marked unread.cross.2.head ∧
      unread.cross.1 = unread.gap + dropped.length ∧
      unread.cross.2 = { unread with
        head := (unread.dropFront dropped.length).tail, tail := []
        headLeft := unread.edge - (unread.tailLen - dropped.length), tailLen := 0, gap := 0 } := by
  obtain ⟨dropped, eq, length, len, gap⟩ :=
    dropFront_spec unread (remains (bytes unread.tail)).length
  have whole := remains_prefix (bytes unread.tail)
  have short : dropped.length = (remains (bytes unread.tail)).length := by
    rw [length, Nat.min_eq_left]
    rw [← length_bytes]
    exact whole.length_le
  have start : dropped.map Prod.snd <+: bytes unread.tail := by
    rw [bytes_eq_map, eq, List.map_append]
    exact List.prefix_append _ _
  have same : dropped.map Prod.snd = remains (bytes unread.tail) := by
    apply (List.prefix_of_prefix_length_le start whole _).eq_of_length
    · rw [List.length_map, short]
    · rw [List.length_map, short]
  refine ⟨dropped, same, ?_⟩
  rw [cross_opened unread opened, short]
  rw [short] at len gap
  exact ⟨eq, gap, by rw [← len]⟩

theorem cross_bytes (unread : Unread) (opened : 0 < unread.gap) :
    bytes unread.tail = remains (bytes unread.tail) ++ bytes unread.cross.2.head ∧
      unread.cross.2.tail = [] ∧ unread.cross.2.gap = 0 := by
  obtain ⟨dropped, same, tail, -, crossed⟩ := cross_gap unread opened
  refine ⟨?_, by rw [crossed], by rw [crossed]⟩
  rw [← same, bytes_eq_map, bytes_eq_map, tail, List.map_append]

theorem cross_pos (unread : Unread) (opened : 0 < unread.gap) : 0 < unread.cross.1 := by
  obtain ⟨dropped, -, -, count, -⟩ := cross_gap unread opened
  omega

theorem cross_even (unread : Unread) (even : unread.gap = 0) :
    unread.cross = (0, { unread with
      head := unread.tail, tail := [], headLeft := unread.edge - unread.tailLen, tailLen := 0,
      gap := 0 }) := by
  unfold cross
  rw [if_neg (by omega)]
  dsimp only
  rw [even]

/-! ## What a pop takes -/

theorem pop_of_read {unread : Unread} (read : unread.head = []) (opened : 0 < unread.gap) :
    unread.pop = (some (.omitted unread.cross.1), unread.cross.2) := by
  have gap := cross_pos unread opened
  unfold pop
  rw [if_pos (by rw [read]; rfl)]
  dsimp only
  rw [if_pos gap]

theorem pop_of_even {unread : Unread} (read : unread.head = []) (even : unread.gap = 0) :
    unread.pop = unread.cross.2.next := by
  unfold pop
  rw [if_pos (by rw [read]; rfl)]
  dsimp only
  rw [if_neg (by rw [cross_even unread even]; omega)]

theorem pop_of_cons {unread : Unread} {chunk : Chunk} {behind : List Chunk}
    (head : unread.head = chunk :: behind) : unread.pop = unread.next := by
  unfold pop
  rw [if_neg (by rw [head]; simp)]

theorem next_nil {unread : Unread} (head : unread.head = []) : unread.next = (none, unread) := by
  unfold next
  rw [head]

theorem next_isSome {unread : Unread} {chunk : Chunk} {behind : List Chunk}
    (head : unread.head = chunk :: behind) : unread.next.1 ≠ none := by
  unfold next
  rw [head]
  dsimp only
  split
  · split
    · dsimp only
      split <;> exact Option.some_ne_none _
    · dsimp only
      split <;> exact Option.some_ne_none _
  · exact Option.some_ne_none _

theorem next_whole {unread : Unread} {chunk : Chunk} {behind : List Chunk}
    (head : unread.head = chunk :: behind) (apart : behind = [] → unread.gap = 0) :
    unread.next = (some (.output chunk), { unread with head := behind }) := by
  have far : ¬(behind.isEmpty && decide (0 < unread.gap)) = true := by
    rw [Bool.and_eq_true, List.isEmpty_iff, decide_eq_true_iff]
    rintro ⟨last, opened⟩
    have := apart last
    omega
  unfold next
  rw [head]
  dsimp only
  rw [if_neg far]

theorem next_last {unread : Unread} {chunk : Chunk} {kept : List UInt8}
    (head : unread.head = [chunk]) (opened : 0 < unread.gap)
    (cut : chunk.data = kept ++ unfinished chunk.data) :
    ∃ ahead : Unread, ahead = { unread with
        head := [], gap := unread.gap + (unfinished chunk.data).length } ∧
      unread.next = if kept.isEmpty then (some (.omitted ahead.cross.1), ahead.cross.2)
        else (some (.output { chunk with data := kept }), ahead) := by
  refine ⟨_, rfl, ?_⟩
  have whole : boundary chunk.data chunk.data.length = kept.length := by
    have := congrArg List.length cut
    rw [List.length_append] at this
    rw [boundary, List.take_length]
    omega
  have short : chunk.data.length - kept.length = (unfinished chunk.data).length := by
    have := congrArg List.length cut
    rw [List.length_append] at this
    omega
  have front : chunk.data.take kept.length = kept := by
    rw [cut, List.take_left']
    rfl
  unfold next
  rw [head]
  dsimp only
  rw [if_pos (by simpa using opened), whole, short, front]
  by_cases some_ : 0 < (unfinished chunk.data).length
  · rw [if_pos some_]
  · rw [if_neg some_]
    have none : unfinished chunk.data = [] := List.length_eq_zero_iff.mp (by omega)
    have all : chunk.data = kept := by rw [none, List.append_nil] at cut; exact cut
    rw [none]
    cases chunk
    subst all
    rfl

theorem pop_none {unread : Unread} (nothing : unread.pop.1 = none) :
    unread.head = [] ∧ unread.gap = 0 ∧ unread.tail = [] := by
  cases head : unread.head with
  | cons chunk behind =>
      rw [pop_of_cons head] at nothing
      exact absurd nothing (next_isSome head)
  | nil =>
      by_cases even : unread.gap = 0
      · rw [pop_of_even head even, cross_even unread even] at nothing
        cases tail : unread.tail with
        | nil => exact ⟨rfl, even, rfl⟩
        | cons chunk behind =>
            have head : Unread.head { unread with
                head := unread.tail, tail := [], headLeft := unread.edge - unread.tailLen,
                tailLen := 0, gap := 0 } = chunk :: behind := tail
            exact absurd nothing (next_isSome head)
      · rw [pop_of_read head (Nat.pos_of_ne_zero even)] at nothing
        cases nothing

end Unread

end Agentsfleet.Edges
