import Agentsfleet.Retain.Server
import Mathlib.Data.List.MinMax

/-!
# Where an acknowledgement may cut a stream

The retention pass: four reads and one trim, each a command of its own, with
whatever producers and consumers do in between.  It reads what one group owes,
and the stream's oldest entries up to there.
-/

set_option autoImplicit false

namespace Agentsfleet.Retain

open Agentsfleet.Library

/-- How far past the history bound a stream grows before it is trimmed back. -/
def trimSlack : Nat := 100
def trimReadMax : Nat := 1000
def countMax : Nat := 18446744073709551615

/-! ## Positions as text -/

/-- `text` around its first `mark`. -/
def splitOnce (mark : Char) : List Char → Option (List Char × List Char)
  | [] => none
  | c :: rest =>
      if c = mark then some ([], rest)
      else (splitOnce mark rest).map fun halves => (c :: halves.1, halves.2)

/-- An unsigned 64-bit number in decimal, with or without a plus. -/
def parseU64 (text : List Char) : Option UInt64 :=
  let digits := if text.head? = some '+' then text.tail else text
  if digits ≠ [] ∧ digits.all Char.isDigit = true then
    let n := Nat.ofDigitChars 10 digits 0
    if n ≤ countMax then some (UInt64.ofNat n) else none
  else none

namespace Position

/-- Reads `{millis}-{sequence}`. -/
def parse (id : String) : Option Position := do
  let (millis, sequence) ← splitOnce '-' id.toList
  some ⟨← parseU64 millis, ← parseU64 sequence⟩

def render (p : Position) : String :=
  String.ofList (Nat.toDigits 10 p.millis.toNat ++ '-' :: Nat.toDigits 10 p.sequence.toNat)

end Position

theorem splitOnce_append {mark : Char} {head tail : List Char} (absent : mark ∉ head) :
    splitOnce mark (head ++ mark :: tail) = some (head, tail) := by
  induction head with
  | nil => simp [splitOnce]
  | cons c rest ih =>
      have other : c ≠ mark := fun same => absent (same ▸ List.mem_cons_self)
      rw [List.cons_append, splitOnce, if_neg other,
        ih fun member => absent (List.mem_cons_of_mem c member), Option.map_some]

theorem toDigits_isDigit {n : Nat} {c : Char} (member : c ∈ Nat.toDigits 10 n) :
    c.isDigit = true :=
  Nat.isDigit_of_mem_toDigits (by omega) (by omega) member

theorem parseU64_toDigits (n : UInt64) : parseU64 (Nat.toDigits 10 n.toNat) = some n := by
  have digits : (Nat.toDigits 10 n.toNat).all Char.isDigit = true :=
    List.all_eq_true.mpr fun c member => toDigits_isDigit member
  have plain : (Nat.toDigits 10 n.toNat).head? ≠ some '+' := by
    intro plus
    exact absurd (toDigits_isDigit (List.mem_of_head? plus)) (by decide)
  have small : n.toNat ≤ countMax := by
    have bound := n.toNat_lt
    rw [countMax]
    omega
  have some_ : Nat.toDigits 10 n.toNat ≠ [] := Nat.toDigits_ne_nil
  rw [parseU64, if_neg plain, if_pos ⟨some_, digits⟩,
    Nat.ofDigitChars_toDigits (by omega) (by omega), if_pos small, UInt64.ofNat_toNat]

@[simp] theorem Position.parse_render (p : Position) : parse p.render = some p := by
  have absent : '-' ∉ Nat.toDigits 10 p.millis.toNat := fun member =>
    absurd (toDigits_isDigit member) (by decide)
  rw [parse, render, String.toList_ofList, splitOnce_append absent]
  simp [parseU64_toDigits]

/-! ## The pass -/

/-- How far `length` is past `keep`, when it is past `keep` plus the slack. -/
def excessOf (length keep : Nat) : Option Nat :=
  if min (keep + trimSlack) countMax < length then some (length - keep) else none

/-- How many of the oldest entries the floor read asks for. -/
def windowSize (excess : Nat) : Nat := min excess trimReadMax + 1

/-- The named group's last delivered id; `some none` when there is no such group, and
`none`, here and below, a reply that cannot be read. -/
def groupOf (s : Stream) (group : String) : Option (Option Position) :=
  match s.groups group with
  | none => some none
  | some found => (Position.parse found.lastDelivered.render).map some

def oldestPending (s : Stream) (group : String) : Option (Option Position) :=
  match s.groups group with
  | none => none
  | some found =>
      match found.pending.length, found.pending.min?.map Position.render with
      | 0, _ => some none
      | _, some first => (Position.parse first).map some
      | _, none => none

def owed (last : Position) (pending : Option Position) : Position :=
  match pending with
  | none => last
  | some first => min first last

/-- `XRANGE - through COUNT count` -/
def oldestThrough (s : Stream) (through : Position) (count : Nat) : Option (List Position) :=
  (oldest through count s.entries).mapM fun id => Position.parse id.render

/-- Where the trim cuts, from the owed position and the oldest entries up to it. -/
def floorOf (owed : Position) (window : List Position) (wanted : Nat) : Option Position := do
  let floor ← if wanted ≤ window.length then window.getLast? else some owed
  let first ← window.head?
  if first < floor then some floor else none

inductive Command where
  | xlen
  | groups
  | pending
  | range
  | trim
deriving DecidableEq

/-- What else happens during one pass: others' commands before each of its own but the
first, which of its own is not answered, and whether a trim that is not was run. -/
structure Between where
  groups : List Event
  pending : List Event
  range : List Event
  trim : List Event
  lost : Option Command
  ran : Bool

structure Trimmed where
  removed : Nat
  retained : Nat
  read : Nat
deriving DecidableEq, Repr

namespace Between

variable (b : Between)

def answered {α : Type} (command : Command) (reply : Option α) : Option α :=
  if b.lost = some command then none else reply

/-- Others' commands during the pass, in order. -/
def events : List Event := b.groups ++ b.pending ++ b.range ++ b.trim

end Between

/-- What the reads of one pass decide: the floor, if any, and how much was read. -/
def decideFloor (s : Stream) (group : String) (keep : Nat) (b : Between) :
    Option (Option Position × Nat) := do
  let length ← b.answered .xlen (some s.entries.length)
  match excessOf length keep with
  | none => some (none, 0)
  | some excess =>
      let atGroups := s.after b.groups
      match ← b.answered .groups (groupOf atGroups group) with
      | none => some (none, 0)
      | some last =>
          let atPending := atGroups.after b.pending
          let pending ← b.answered .pending (oldestPending atPending group)
          let atRange := atPending.after b.range
          let wanted := windowSize excess
          let window ← b.answered .range (oldestThrough atRange (owed last pending) wanted)
          some (floorOf (owed last pending) window wanted, window.length)

structure Pass where
  before : Stream
  after : Stream
  outcome : Option Trimmed

def trimHistory (s : Stream) (group : String) (keep : Nat) (b : Between) : Pass :=
  let length := s.entries.length
  let before := s.after b.events
  match decideFloor s group keep b with
  | none => ⟨before, before, none⟩
  | some (none, read) => ⟨before, before, some ⟨0, length, read⟩⟩
  | some (some floor, read) =>
      let trimmed := before.trim floor
      let removed := before.entries.length - trimmed.entries.length
      if b.lost = some .trim then ⟨before, if b.ran then trimmed else before, none⟩
      else ⟨before, trimmed, some ⟨removed, length - removed, read⟩⟩

/-! ## What the reads say -/

theorem answered_eq_some {α : Type} {b : Between} {command : Command} {reply : Option α} {a : α}
    (read : b.answered command reply = some a) : reply = some a := by
  rw [Between.answered] at read
  split at read
  · cases read
  · exact read

theorem groupOf_eq_some {s : Stream} {group : String} {last : Position}
    (read : groupOf s group = some (some last)) :
    ∃ g, s.groups group = some g ∧ g.lastDelivered = last := by
  rw [groupOf] at read
  cases held : s.groups group with
  | none =>
      rw [held] at read
      cases read
  | some g =>
      rw [held] at read
      dsimp only at read
      rw [Position.parse_render, Option.map_some, Option.some.injEq, Option.some.injEq] at read
      exact ⟨g, rfl, read⟩

theorem oldestPending_le {s : Stream} {group : String} {g : Group} (held : s.groups group = some g)
    {last : Position} {pending : Option Position} (read : oldestPending s group = some pending)
    {id : Position} (low : id < owed last pending) : id ∉ g.pending := by
  rw [oldestPending, held] at read
  dsimp only at read
  intro member
  cases first : g.pending.min? with
  | none =>
      rw [List.min?_eq_none_iff] at first
      rw [first] at member
      exact absurd member List.not_mem_nil
  | some oldest =>
      have least := (List.min?_eq_some_iff.mp first).2 id member
      rw [first, Option.map_some] at read
      have some_ : g.pending.length ≠ 0 := fun none_ => by
        rw [List.length_eq_zero_iff.mp none_] at member
        exact absurd member List.not_mem_nil
      cases count : g.pending.length with
      | zero => exact some_ count
      | succ n =>
          rw [count] at read
          simp only [Position.parse_render, Option.map_some, Option.some.injEq] at read
          subst read
          exact absurd (lt_of_lt_of_le low (min_le_left oldest last)) (not_lt.mpr least)

theorem owed_le (last : Position) (pending : Option Position) : owed last pending ≤ last := by
  cases pending with
  | none => exact le_refl last
  | some first => exact min_le_right first last

theorem oldestThrough_eq (s : Stream) (through : Position) (count : Nat) :
    oldestThrough s through count = some (oldest through count s.entries) := by
  rw [oldestThrough]
  induction oldest through count s.entries with
  | nil => rfl
  | cons first rest ih =>
      rw [List.mapM_cons, ih, Position.parse_render]
      rfl

/-- The floor is at or under the owed position, and all but at most the history's excess
of the entries read lie at or over it. -/
theorem floorOf_spec {through floor : Position} {wanted : Nat} {entries : List Position}
    (ascending : Ascending entries)
    (found : floorOf through (oldest through wanted entries) wanted = some floor) :
    floor ≤ through ∧ under floor entries < wanted := by
  rw [floorOf] at found
  by_cases full : wanted ≤ (oldest through wanted entries).length
  · rw [if_pos full] at found
    cases last : (oldest through wanted entries).getLast? with
    | none =>
        rw [last] at found
        cases found
    | some end_ =>
        rw [last] at found
        cases head : (oldest through wanted entries).head? with
        | none =>
            rw [head] at found
            cases found
        | some first =>
            rw [head] at found
            simp only [Option.bind_eq_bind, Option.bind_some] at found
            split at found
            · cases found
              exact ⟨(mem_oldest (List.mem_of_getLast? last)).2, under_last ascending last⟩
            · cases found
  · rw [if_neg full] at found
    cases head : (oldest through wanted entries).head? with
    | none =>
        rw [head] at found
        cases found
    | some first =>
        rw [head] at found
        simp only [Option.bind_eq_bind, Option.bind_some] at found
        split at found
        · cases found
          exact ⟨le_refl _, under_short (Nat.lt_of_not_le full)⟩
        · cases found

theorem decideFloor_eq_some {s : Stream} {group : String} {keep : Nat} {b : Between}
    {floor : Position} {read : Nat}
    (decides : decideFloor s group keep b = some (some floor, read)) :
    ∃ last pending g g' wanted,
      (s.after b.groups).groups group = some g ∧ g.lastDelivered = last ∧
      ((s.after b.groups).after b.pending).groups group = some g' ∧
      g.lastDelivered ≤ g'.lastDelivered ∧ (∀ id < owed last pending, id ∉ g'.pending) ∧
      wanted ≤ s.entries.length - keep + 1 ∧ floor ≤ owed last pending ∧
      under floor (((s.after b.groups).after b.pending).after b.range).entries < wanted := by
  rw [decideFloor] at decides
  obtain ⟨length, sized, decides⟩ := Option.bind_eq_some_iff.mp decides
  have counted := Option.some.inj (answered_eq_some sized)
  cases over_ : excessOf length keep with
  | none =>
      rw [over_] at decides
      cases decides
  | some excess =>
      rw [over_] at decides
      obtain ⟨group?, grouped, decides⟩ := Option.bind_eq_some_iff.mp decides
      cases group? with
      | none => cases decides
      | some last =>
          obtain ⟨g, held, delivered⟩ := groupOf_eq_some (answered_eq_some grouped)
          obtain ⟨pending, owes, decides⟩ := Option.bind_eq_some_iff.mp decides
          obtain ⟨window, ranged, decides⟩ := Option.bind_eq_some_iff.mp decides
          have oldest_ := answered_eq_some ranged
          rw [oldestThrough_eq, Option.some.injEq] at oldest_
          obtain ⟨g', held', forward⟩ := Stream.delivered_after held b.pending
          simp only [Option.some.injEq, Prod.mk.injEq] at decides
          rw [← oldest_] at decides
          obtain ⟨low, few⟩ := floorOf_spec
            (((s.after b.groups).after b.pending).after b.range).ascending decides.1
          refine ⟨last, pending, g, g', windowSize excess, held, delivered, held', forward,
            fun id under_ => oldestPending_le held' (answered_eq_some owes) under_, ?_, low, few⟩
          rw [excessOf] at over_
          split at over_
          · cases over_
            rw [windowSize, ← counted]
            omega
          · cases over_

theorem after_events (s : Stream) (b : Between) :
    s.after b.events = (((s.after b.groups).after b.pending).after b.range).after b.trim := by
  simp only [Stream.after, Between.events, Run.final_append]

theorem trimHistory_cases (s : Stream) (group : String) (keep : Nat) (b : Between) :
    (trimHistory s group keep b).before = s.after b.events ∧
    ((trimHistory s group keep b).after = s.after b.events ∨
      ∃ floor read, decideFloor s group keep b = some (some floor, read) ∧
        (trimHistory s group keep b).after = (s.after b.events).trim floor) := by
  rw [trimHistory]
  cases decides : decideFloor s group keep b with
  | none => exact ⟨rfl, Or.inl rfl⟩
  | some decision =>
      obtain ⟨floor, read⟩ := decision
      cases floor with
      | none => exact ⟨rfl, Or.inl rfl⟩
      | some floor =>
          dsimp only
          by_cases lost : b.lost = some .trim
          · rw [if_pos lost]
            refine ⟨rfl, ?_⟩
            cases b.ran with
            | false => exact Or.inl rfl
            | true => exact Or.inr ⟨floor, read, rfl, rfl⟩
          · rw [if_neg lost]
            exact ⟨rfl, Or.inr ⟨floor, read, rfl, rfl⟩⟩

theorem decideFloor_done {s : Stream} {group : String} {keep : Nat} {b : Between}
    {floor id : Position} {read : Nat}
    (decides : decideFloor s group keep b = some (some floor, read)) (low : id < floor) :
    (s.after b.events).Done group id := by
  obtain ⟨last, pending, g, g', wanted, held, delivered, held', forward, clear_, _, bounded, _⟩ :=
    decideFloor_eq_some decides
  have owes : id < owed last pending := lt_of_lt_of_le low bounded
  have handed : id ≤ g'.lastDelivered := by
    refine le_trans (le_of_lt owes) (le_trans (owed_le last pending) ?_)
    rw [← delivered]
    exact forward
  rw [after_events]
  exact (Stream.Done.after ⟨g', held', handed, clear_ id owes⟩ b.range).after b.trim

theorem decideFloor_few {s : Stream} {group : String} {keep : Nat} {b : Between}
    {floor : Position} {read : Nat}
    (decides : decideFloor s group keep b = some (some floor, read))
    (alone : ∀ event ∈ b.events, event.keeps = true) :
    under floor (s.after b.events).entries ≤ (s.after b.events).entries.length - keep := by
  obtain ⟨last, pending, g, _, wanted, held, delivered, _, _, _, size, bounded, few⟩ :=
    decideFloor_eq_some decides
  have parts : (∀ event ∈ b.groups, event.keeps = true) ∧
      (∀ event ∈ b.pending, event.keeps = true) ∧ (∀ event ∈ b.range, event.keeps = true) ∧
      ∀ event ∈ b.trim, event.keeps = true := by
    simp only [Between.events, List.mem_append] at alone
    exact ⟨fun e m => alone e (by simp [m]), fun e m => alone e (by simp [m]),
      fun e m => alone e (by simp [m]), fun e m => alone e (by simp [m])⟩
  have first := s.extends_after parts.1
  have second := (s.after b.groups).extends_after parts.2.1
  have third := ((s.after b.groups).after b.pending).extends_after parts.2.2.1
  have fourth := (((s.after b.groups).after b.pending).after b.range).extends_after parts.2.2.2
  have longer := (first.trans (second.trans (third.trans fourth))).length_le
  obtain ⟨later, grown, above⟩ := fourth.entries
  have past : ∀ id ∈ later, floor ≤ id := by
    intro id member
    refine le_of_lt (lt_of_le_of_lt ?_ (above id member))
    have reached := (s.after b.groups).reached group g held
    rw [delivered] at reached
    exact le_trans (le_trans bounded (owed_le last pending))
      (le_trans reached (second.trans third).newest)
  rw [after_events]
  rw [grown, under_append, under_eq_zero past]
  rw [grown] at longer
  omega

/-- A pass removes only what its group has been handed and has acknowledged, whatever
else runs between its commands; and where nothing else trims, the newest `keep` entries
stay. -/
theorem trim_keeps_owed (s : Stream) (group : String) (keep : Nat) (b : Between) :
    (∀ id ∈ (trimHistory s group keep b).before.entries,
      id ∉ (trimHistory s group keep b).after.entries →
        (trimHistory s group keep b).before.Done group id) ∧
    ((∀ event ∈ b.events, event.keeps = true) →
      ∀ id ∈ (trimHistory s group keep b).before.entries.drop
        ((trimHistory s group keep b).before.entries.length - keep),
        id ∈ (trimHistory s group keep b).after.entries) := by
  obtain ⟨before, after⟩ := trimHistory_cases s group keep b
  rw [before]
  rcases after with same | ⟨floor, read, decides, trimmed⟩
  · rw [same]
    exact ⟨fun id member gone => absurd member gone, fun _ id member => List.mem_of_mem_drop member⟩
  · rw [trimmed]
    constructor
    · intro id member gone
      have low : id < floor := not_le.mp fun high => gone (mem_cut.mpr ⟨member, high⟩)
      exact decideFloor_done decides low
    · intro alone id member
      have few := decideFloor_few decides alone
      have shape := cut_eq_drop (s.after b.events).ascending floor
      change id ∈ cut floor (s.after b.events).entries
      rw [shape]
      have sublist := List.drop_sublist_drop_left (s.after b.events).entries few
      exact sublist.subset member

/-! ## More than one group -/

/-- The entries of a stream that has seen 102 appends, one a millisecond. -/
def numbered : List Position := (List.range 102).map fun n => ⟨UInt64.ofNat (n + 1), 0⟩

def settledGroup : Group := ⟨⟨102, 0⟩, [], fun _ member => absurd member List.not_mem_nil⟩

def freshGroup : Group := ⟨⟨0, 0⟩, [], fun _ member => absurd member List.not_mem_nil⟩

def twoGroups : Stream where
  entries := numbered
  newest := ⟨102, 0⟩
  groups name := if name = "reader" then some settledGroup
    else if name = "other" then some freshGroup else none
  ascending := by
    rw [Ascending]
    decide +kernel
  minted := by decide +kernel
  reached name g held := by
    split at held
    · cases held
      decide
    · split at held
      · cases held
        decide
      · cases held

def quiet : Between := ⟨[], [], [], [], none, true⟩

theorem twoGroups_decides :
    decideFloor twoGroups "reader" 0 quiet = some (some ⟨102, 0⟩, 102) := by
  have grouped : groupOf twoGroups "reader" = some (some ⟨102, 0⟩) := by
    rw [groupOf]
    exact congrArg (Option.map some) (Position.parse_render _)
  have owes : oldestPending twoGroups "reader" = some none := rfl
  have wanted : windowSize 102 = 103 := rfl
  have ranged : oldestThrough twoGroups ⟨102, 0⟩ 103 = some (oldest ⟨102, 0⟩ 103 numbered) :=
    oldestThrough_eq twoGroups ⟨102, 0⟩ 103
  have floored : floorOf ⟨102, 0⟩ (oldest ⟨102, 0⟩ 103 numbered) 103 = some ⟨102, 0⟩ := by
    decide +kernel
  have counted : (oldest (⟨102, 0⟩ : Position) 103 numbered).length = 102 := by decide +kernel
  have past : excessOf twoGroups.entries.length 0 = some 102 := by decide +kernel
  simp only [decideFloor, Between.answered, quiet, Stream.after, Run.final, reduceCtorEq, if_false,
    Option.bind_eq_bind, Option.bind_some, past, grouped, owes, owed, wanted, ranged, floored,
    counted]

/-- The pass reads one group: a stream's other groups may lose what they were never
handed. -/
theorem other_group_loses : ¬ ∀ (s : Stream) (group : String) (keep : Nat) (b : Between),
    ∀ id ∈ (trimHistory s group keep b).before.entries,
      id ∉ (trimHistory s group keep b).after.entries →
        ∀ name g, (trimHistory s group keep b).before.groups name = some g → g.Done id := by
  intro all
  have trimmed : (trimHistory twoGroups "reader" 0 quiet).after = twoGroups.trim ⟨102, 0⟩ := by
    rw [trimHistory, twoGroups_decides]
    rfl
  have before : (trimHistory twoGroups "reader" 0 quiet).before = twoGroups :=
    (trimHistory_cases twoGroups "reader" 0 quiet).1
  have lost := all twoGroups "reader" 0 quiet ⟨1, 0⟩ (by rw [before]; decide +kernel)
    (by rw [trimmed]; decide +kernel) "other" freshGroup (by rw [before]; rfl)
  exact absurd lost.1 (by decide)

end Agentsfleet.Retain
