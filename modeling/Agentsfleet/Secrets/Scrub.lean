import Mathlib.Data.List.Basic
import Mathlib.Data.String.Basic
import Agentsfleet.Library.Search
import Agentsfleet.Secrets.Statics

/-!
# The scrub over a stream

Secret values and NULs masked in streamed text.  Each stream holds back the tail that
could still be the start of a secret, cut where no secret found so far stretches across,
so what is sent does not depend on how the text came in chunks.
-/

set_option autoImplicit false

namespace Agentsfleet.Secrets

open Agentsfleet.Library

abbrev Bytes := List UInt8

def bytes (text : String) : Bytes := text.toList.flatMap String.utf8EncodeChar

/-- A byte no character has inside: the standard library's check of a boundary. -/
def startsChar (byte : UInt8) : Bool := byte < 128 || 192 ≤ byte

def isCharBoundary (text : Bytes) (index : Nat) : Bool :=
  if index = 0 then true
  else match text[index]? with
    | some byte => startsChar byte
    | none => index == text.length

/-- The last character boundary at or before `index`. -/
def floorCharBoundary (text : Bytes) : Nat → Nat
  | 0 => 0
  | index + 1 =>
      if text.length ≤ index + 1 then text.length
      else if isCharBoundary text (index + 1) then index + 1
      else floorCharBoundary text index

/-- The character no stored trace or record may hold. -/
def nul : String := "\x00"

def nulStandIn : String := "\ufffd"

/-- A matcher built over the patterns.  What it finds is taken to be leftmost-longest,
as it is built to be. -/
structure AhoCorasick (patterns : List Bytes) where
  findIter : Bytes → List Search.Found
  leftmostLongest : ∀ text, findIter text = Search.find patterns text

def AhoCorasick.isMatch {patterns : List Bytes} (matcher : AhoCorasick patterns)
    (text : Bytes) : Bool := !(matcher.findIter text).isEmpty

def AhoCorasick.replaceAll {patterns : List Bytes} (matcher : AhoCorasick patterns)
    (text : Bytes) (replacements : List String) : Bytes :=
  Search.splice (replacements.map bytes) text 0 (matcher.findIter text)

def patterns (secrets : List String) : List Bytes := secrets.map bytes ++ [bytes nul]

structure Scrub where
  secrets : List String
  some_char : ∀ secret ∈ secrets, secret ≠ ""
  /-- One replacement per matcher pattern: each secret's mask, then the NUL's. -/
  replacements : List String
  one_each : replacements.length = (patterns secrets).length
  matcher : AhoCorasick (patterns secrets)

def maskable (named : List (String × String)) : List (String × String) :=
  named.filter fun entry => !entry.2.isEmpty

theorem maskable_some_char (named : List (String × String)) :
    ∀ secret ∈ (maskable named).map Prod.snd, secret ≠ "" := by
  intro secret member
  obtain ⟨entry, kept, same⟩ := List.mem_map.mp member
  have full := (List.mem_filter.mp kept).2
  subst same
  intro empty
  rw [empty] at full
  exact absurd full (by decide)

/-- A scrub masking each `(name, value)`; an empty value masks nothing.  `build` is the
matcher's builder, which can fail. -/
def Scrub.of (build : (patterns : List Bytes) → Option (AhoCorasick patterns))
    (named : List (String × String)) : Option Scrub :=
  (build (patterns ((maskable named).map Prod.snd))).map fun matcher =>
    { secrets := (maskable named).map Prod.snd
      some_char := maskable_some_char named
      replacements :=
        (maskable named).map (fun entry => "«secret:" ++ entry.1 ++ "»") ++ [nulStandIn]
      one_each := by simp [patterns]
      matcher }

def apiKeyName : String := "llm.api_key"

def Scrub.new (build : (patterns : List Bytes) → Option (AhoCorasick patterns))
    (apiKey : String) (statics : StaticSecrets) : Option Scrub :=
  Scrub.of build ((apiKeyName, apiKey) :: statics.values)

theorem Scrub.of_secrets {build : (patterns : List Bytes) → Option (AhoCorasick patterns)}
    {named : List (String × String)} {scrub : Scrub} (built : Scrub.of build named = some scrub)
    {name value : String} (member : (name, value) ∈ named) (full : value ≠ "") :
    value ∈ scrub.secrets := by
  obtain ⟨matcher, _, rfl⟩ := Option.map_eq_some_iff.mp built
  refine List.mem_map.mpr ⟨(name, value), List.mem_filter.mpr ⟨member, ?_⟩, rfl⟩
  rw [Bool.not_eq_true', Bool.eq_false_iff, ne_eq, String.isEmpty_iff]
  exact full

theorem Scrub.new_secrets {build : (patterns : List Bytes) → Option (AhoCorasick patterns)}
    {apiKey : String} {statics : StaticSecrets} {scrub : Scrub}
    (built : Scrub.new build apiKey statics = some scrub) :
    (apiKey ≠ "" → apiKey ∈ scrub.secrets) ∧
      ∀ name field value, statics.field name field = some value → field ≠ fieldHost →
        value ≠ "" → value ∈ scrub.secrets :=
  ⟨Scrub.of_secrets built List.mem_cons_self, fun _ _ _ held secret =>
    Scrub.of_secrets built (List.mem_cons_of_mem _ (StaticSecrets.mem_values held secret))⟩

inductive Cow where
  | owned (text : Bytes)
  | borrowed (text : Bytes)

def Cow.intoOwned : Cow → Bytes
  | .owned text => text
  | .borrowed text => text

namespace Scrub

/-- `text` with every secret value and NUL masked. -/
def text (scrub : Scrub) (text : Bytes) : Cow :=
  if scrub.matcher.isMatch text then .owned (scrub.matcher.replaceAll text scrub.replacements)
  else .borrowed text

def masked (scrub : Scrub) (text : Bytes) : Option Bytes :=
  match scrub.text text with
  | .owned masked => some masked
  | .borrowed _ => none

end Scrub

/-- The longest proper prefix of `secret`, no longer than `most`, that `text` ends with. -/
def partialHeadUpTo (text secret : Bytes) : Nat → Nat
  | 0 => 0
  | most + 1 =>
      if secret.take (most + 1) <:+ text then most + 1 else partialHeadUpTo text secret most

/-- The longest proper prefix of `secret` that `text` ends with; a one-byte secret has
none. -/
def partialHead (text secret : Bytes) : Nat := partialHeadUpTo text secret (secret.length - 1)

namespace Scrub

/-- The longest tail of `text` that is the start of a secret. -/
def held (scrub : Scrub) (text : Bytes) : Nat :=
  ((scrub.secrets.map fun secret => partialHead text (bytes secret)).max?).getD 0

/-- How many trailing bytes of `text` could still be the start of a secret a later chunk
completes, rounded out to a character boundary. -/
def pending (scrub : Scrub) (text : Bytes) : Nat :=
  text.length - floorCharBoundary text (text.length - scrub.held text)

/-- Where `text` may be cut: before any tail that could start a secret, and never inside
a secret `text` holds whole. -/
def safeCut (scrub : Scrub) (text : Bytes) : Nat :=
  Search.retreat (text.length - scrub.pending text) (scrub.matcher.findIter text)

end Scrub

structure Carry where
  held : Bytes
deriving DecidableEq

namespace Carry

def default : Carry := ⟨[]⟩

/-- Appends `chunk`; what is safe to send now, masked, and what is held. -/
def push (scrub : Scrub) (carry : Carry) (chunk : String) : Bytes × Carry :=
  let held := carry.held ++ bytes chunk
  let cut := scrub.safeCut held
  let ready := held.take cut
  ((scrub.masked ready).getD ready, ⟨held.drop cut⟩)

def pushAll (scrub : Scrub) : Carry → List String → List Bytes × Carry
  | carry, [] => ([], carry)
  | carry, chunk :: rest =>
      let (ready, next) := push scrub carry chunk
      let (outs, last) := pushAll scrub next rest
      (ready :: outs, last)

end Carry

/-! ## Texts and boundaries -/

theorem startsChar_of_first {byte : UInt8} (first : byte.IsUTF8FirstByte) :
    startsChar byte = true := by
  have every : ∀ n < 256, (UInt8.ofNat n).IsUTF8FirstByte →
      startsChar (UInt8.ofNat n) = true := by decide +kernel
  have here := every byte.toNat byte.toNat_lt
  rw [UInt8.ofNat_toNat] at here
  exact here first

theorem bytes_first {text : String} (full : text ≠ "") :
    ∃ first rest, bytes text = first :: rest ∧ startsChar first = true := by
  cases chars : text.toList with
  | nil => exact absurd (String.toList_eq_nil_iff.mp chars) full
  | cons c others =>
      have sized : 0 < (String.utf8EncodeChar c).length := by
        rw [String.length_utf8EncodeChar]
        exact c.utf8Size_pos
      have firstByte : (String.utf8EncodeChar c)[0].IsUTF8FirstByte :=
        UInt8.isUTF8FirstByte_getElem_utf8EncodeChar.mpr rfl
      have leads := startsChar_of_first firstByte
      rw [bytes, chars, List.flatMap_cons]
      cases encoded : String.utf8EncodeChar c with
      | nil => simp [encoded] at sized
      | cons first tail =>
          simp only [encoded, List.getElem_cons_zero] at leads
          exact ⟨first, tail ++ others.flatMap String.utf8EncodeChar, rfl, leads⟩

theorem boundary_of_first {text rest : Bytes} {index : Nat} {first : UInt8}
    (here : text.drop index = first :: rest) (leads : startsChar first = true) :
    isCharBoundary text index = true := by
  have read : text[index]? = some first := by
    rw [← List.head?_drop, here, List.head?_cons]
  rw [isCharBoundary, read]
  by_cases none_ : index = 0
  · rw [if_pos none_]
  · rw [if_neg none_]
    exact leads

theorem length_boundary (text : Bytes) : isCharBoundary text text.length = true := by
  rw [isCharBoundary, List.getElem?_eq_none (Nat.le_refl _)]
  by_cases none_ : text.length = 0
  · rw [if_pos none_]
  · rw [if_neg none_]
    exact beq_self_eq_true _

theorem floorCharBoundary_boundary (text : Bytes) (index : Nat) :
    isCharBoundary text (floorCharBoundary text index) = true := by
  induction index with
  | zero => rw [floorCharBoundary, isCharBoundary, if_pos rfl]
  | succ index ih =>
      rw [floorCharBoundary]
      by_cases past : text.length ≤ index + 1
      · rw [if_pos past]
        exact length_boundary text
      · rw [if_neg past]
        by_cases here : isCharBoundary text (index + 1) = true
        · rw [if_pos here]
          exact here
        · rw [if_neg here]
          exact ih

theorem floorCharBoundary_le (text : Bytes) (index : Nat) :
    floorCharBoundary text index ≤ text.length := by
  induction index with
  | zero => exact Nat.zero_le _
  | succ index ih =>
      rw [floorCharBoundary]
      split
      · exact Nat.le_refl _
      · split
        · omega
        · exact ih

theorem floorCharBoundary_eq {text : Bytes} {index : Nat} (within : index ≤ text.length)
    (here : isCharBoundary text index = true) : floorCharBoundary text index = index := by
  cases index with
  | zero => rw [floorCharBoundary]
  | succ index =>
      rw [floorCharBoundary]
      by_cases past : text.length ≤ index + 1
      · rw [if_pos past]
        omega
      · rw [if_neg past, if_pos here]

/-! ## The tail that could start a secret -/

theorem partialHeadUpTo_le (text secret : Bytes) (most : Nat) :
    partialHeadUpTo text secret most ≤ most := by
  induction most with
  | zero => exact Nat.le_refl 0
  | succ most ih =>
      rw [partialHeadUpTo]
      split <;> omega

theorem partialHeadUpTo_suffix (text secret : Bytes) (most : Nat) :
    secret.take (partialHeadUpTo text secret most) <:+ text := by
  induction most with
  | zero =>
      rw [partialHeadUpTo, List.take_zero]
      exact List.nil_suffix
  | succ most ih =>
      rw [partialHeadUpTo]
      by_cases ends : secret.take (most + 1) <:+ text
      · rw [if_pos ends]
        exact ends
      · rw [if_neg ends]
        exact ih

theorem le_partialHeadUpTo {text secret : Bytes} {most size : Nat} (within : size ≤ most)
    (ends : secret.take size <:+ text) : size ≤ partialHeadUpTo text secret most := by
  induction most with
  | zero => exact within
  | succ most ih =>
      rw [partialHeadUpTo]
      by_cases longer : secret.take (most + 1) <:+ text
      · rw [if_pos longer]
        exact within
      · rw [if_neg longer]
        have shorter : size ≠ most + 1 := fun same => longer (same ▸ ends)
        exact ih (by omega)

theorem partialHead_spec (text : Bytes) {secret : Bytes} (full : 0 < secret.length) :
    partialHead text secret < secret.length ∧ secret.take (partialHead text secret) <:+ text ∧
      ∀ size < secret.length, secret.take size <:+ text → size ≤ partialHead text secret := by
  have below := partialHeadUpTo_le text secret (secret.length - 1)
  rw [← partialHead] at below
  refine ⟨by omega, partialHeadUpTo_suffix text secret _, ?_⟩
  intro size shorter ends
  exact le_partialHeadUpTo (by omega) ends

theorem partialHead_congr {text text' secret : Bytes} (full : 0 < secret.length)
    (agree : ∀ size < secret.length, secret.take size <:+ text ↔ secret.take size <:+ text') :
    partialHead text secret = partialHead text' secret := by
  obtain ⟨below, ends, most⟩ := partialHead_spec text full
  obtain ⟨below', ends', most'⟩ := partialHead_spec text' full
  apply Nat.le_antisymm
  · exact most' _ below ((agree _ below).mp ends)
  · exact most _ below' ((agree _ below').mpr ends')

namespace Scrub

theorem partialHead_le_held {scrub : Scrub} {secret : String} (member : secret ∈ scrub.secrets)
    (text : Bytes) : partialHead text (bytes secret) ≤ scrub.held text := by
  have listed : partialHead text (bytes secret) ∈
      scrub.secrets.map fun secret => partialHead text (bytes secret) :=
    List.mem_map_of_mem member
  cases most : (scrub.secrets.map fun secret => partialHead text (bytes secret)).max? with
  | none =>
      rw [List.max?_eq_none_iff.mp most] at listed
      exact absurd listed List.not_mem_nil
  | some size =>
      rw [held, most]
      exact (List.max?_eq_some_iff.mp most).2 _ listed

theorem held_cases (scrub : Scrub) (text : Bytes) :
    scrub.held text = 0 ∨
      ∃ secret ∈ scrub.secrets, scrub.held text = partialHead text (bytes secret) := by
  cases most : (scrub.secrets.map fun secret => partialHead text (bytes secret)).max? with
  | none =>
      rw [held, most]
      exact Or.inl rfl
  | some size =>
      obtain ⟨secret, member, same⟩ := List.mem_map.mp (List.max?_mem most)
      refine Or.inr ⟨secret, member, ?_⟩
      rw [held, most, same]
      rfl

theorem pending_eq (scrub : Scrub) (text : Bytes) : scrub.pending text = scrub.held text ∧
    scrub.held text ≤ text.length := by
  rcases held_cases scrub text with none_ | ⟨secret, member, same⟩
  · rw [pending, none_, Nat.sub_zero,
      floorCharBoundary_eq (Nat.le_refl _) (length_boundary text), Nat.sub_self]
    exact ⟨rfl, Nat.zero_le _⟩
  · obtain ⟨first, rest, spelled, leads⟩ := bytes_first (scrub.some_char secret member)
    have full : 0 < (bytes secret).length := by
      rw [spelled, List.length_cons]
      omega
    obtain ⟨below, ends, _⟩ := partialHead_spec text full
    rw [← same] at below ends
    have sized : ((bytes secret).take (scrub.held text)).length = scrub.held text :=
      List.length_take_of_le (Nat.le_of_lt below)
    have fits : scrub.held text ≤ text.length := sized ▸ ends.length_le
    refine ⟨?_, fits⟩
    by_cases none_ : scrub.held text = 0
    · rw [pending, none_, Nat.sub_zero,
        floorCharBoundary_eq (Nat.le_refl _) (length_boundary text), Nat.sub_self]
    · have tail := List.suffix_iff_eq_drop.mp ends
      rw [sized, spelled] at tail
      obtain ⟨count, grown⟩ := Nat.exists_eq_succ_of_ne_zero none_
      have here : text.drop (text.length - scrub.held text) = first :: rest.take count := by
        rw [← tail, grown, List.take_succ_cons]
      rw [pending, floorCharBoundary_eq (Nat.sub_le _ _) (boundary_of_first here leads)]
      omega

end Scrub

/-! ## The cut -/

theorem bytes_nul : bytes nul = [0] := by decide

theorem pattern_first {scrub : Scrub} {p : Bytes} (member : p ∈ patterns scrub.secrets) :
    ∃ first rest, p = first :: rest ∧ startsChar first = true := by
  rcases List.mem_append.mp member with secret | nul_
  · obtain ⟨value, listed, same⟩ := List.mem_map.mp secret
    subst same
    exact bytes_first (scrub.some_char value listed)
  · rw [List.mem_singleton.mp nul_, bytes_nul]
    exact ⟨0, [], rfl, by decide⟩

theorem pattern_some_char (scrub : Scrub) : ∀ p ∈ patterns scrub.secrets, p ≠ [] := by
  intro p member
  obtain ⟨first, rest, spelled, _⟩ := pattern_first member
  rw [spelled]
  exact List.cons_ne_nil first rest

namespace Scrub

theorem settled (scrub : Scrub) (text : Bytes) :
    ∀ place < text.length - scrub.held text, ∀ p ∈ patterns scrub.secrets,
      text.drop place <+: p → p.length ≤ (text.drop place).length := by
  intro place before p member begun
  rcases List.mem_append.mp member with secret | nul_
  · obtain ⟨value, listed, same⟩ := List.mem_map.mp secret
    subst same
    by_contra longer
    have head : (bytes value).take (text.drop place).length = text.drop place :=
      (List.prefix_iff_eq_take.mp begun).symm
    have ends : (bytes value).take (text.drop place).length <:+ text := by
      rw [head]
      exact List.drop_suffix place text
    have most := (partialHead_spec text (by omega)).2.2 _ (Nat.lt_of_not_le longer) ends
    have held := partialHead_le_held listed text
    rw [List.length_drop] at most
    omega
  · rw [List.mem_singleton.mp nul_, bytes_nul, List.length_singleton, List.length_drop]
    omega

theorem safeCut_clear (scrub : Scrub) (text later : Bytes) :
    scrub.safeCut text ≤ text.length - scrub.held text ∧
      Search.carried (patterns scrub.secrets) 0 (scrub.safeCut text) (text ++ later) = 0 := by
  have some_char := pattern_some_char scrub
  have unpending : text.length - scrub.pending text ≤ text.length := Nat.sub_le _ _
  obtain ⟨back, most, same, clear⟩ :=
    Search.retreat_scan some_char 0 (Nat.zero_le _) unpending
  rw [Nat.zero_add, Nat.zero_add] at same
  have here : scrub.safeCut text = back := by
    rw [safeCut, scrub.matcher.leftmostLongest, Search.find, same]
  have before : back ≤ text.length - scrub.held text := (pending_eq scrub text).1 ▸ most
  rw [here]
  refine ⟨before, ?_⟩
  rw [Search.carried_append (by omega), clear]
  intro place early
  exact settled scrub text place (by omega)

theorem safeCut_le (scrub : Scrub) (text : Bytes) : scrub.safeCut text ≤ text.length :=
  Nat.le_trans (safeCut_clear scrub text []).1 (Nat.sub_le _ _)

theorem safeCut_boundary (scrub : Scrub) (text : Bytes) :
    isCharBoundary text (scrub.safeCut text) = true := by
  rcases Search.retreat_cases (text.length - scrub.pending text) (scrub.matcher.findIter text)
    with kept | ⟨found, member, moved⟩
  · rw [safeCut, kept, pending]
    have floored := floorCharBoundary_le text (text.length - scrub.held text)
    have back : text.length - (text.length - floorCharBoundary text (text.length - scrub.held text))
        = floorCharBoundary text (text.length - scrub.held text) := by omega
    rw [back]
    exact floorCharBoundary_boundary text _
  · rw [safeCut, moved]
    rw [scrub.matcher.leftmostLongest] at member
    obtain ⟨p, listed, heads⟩ := Search.scan_occurs (pattern_some_char scrub) member
    obtain ⟨first, rest, spelled, leads⟩ := pattern_first listed
    obtain ⟨others, joined⟩ := heads
    rw [spelled, List.cons_append, Nat.sub_zero] at joined
    exact boundary_of_first joined.symm leads

/-- `text` with every secret value and NUL masked, changed or not. -/
def masking (scrub : Scrub) (text : Bytes) : Bytes := (scrub.text text).intoOwned

theorem masking_eq (scrub : Scrub) (text : Bytes) : scrub.masking text
    = Search.masked (patterns scrub.secrets) (scrub.replacements.map bytes) text := by
  have found := scrub.matcher.leftmostLongest text
  rw [masking, Scrub.text, Search.masked, AhoCorasick.isMatch, AhoCorasick.replaceAll, found]
  cases matches_ : Search.find (patterns scrub.secrets) text with
  | nil => rfl
  | cons first rest => rfl

theorem masked_getD (scrub : Scrub) (text : Bytes) :
    (scrub.masked text).getD text = scrub.masking text := by
  rw [masked, masking, Scrub.text]
  by_cases changed : scrub.matcher.isMatch text = true
  · rw [if_pos changed]
    rfl
  · rw [if_neg changed]
    rfl

theorem masking_append (scrub : Scrub) (text later : Bytes) :
    scrub.masking (text ++ later) = scrub.masking (text.take (scrub.safeCut text))
      ++ scrub.masking (text.drop (scrub.safeCut text) ++ later) := by
  have within := safeCut_le scrub text
  have within' : scrub.safeCut text ≤ (text ++ later).length := by
    rw [List.length_append]
    omega
  have split := Search.masked_split (pattern_some_char scrub) (scrub.replacements.map bytes)
    within' (safeCut_clear scrub text later).2
  rw [List.take_append_of_le_length within, List.drop_append_of_le_length within] at split
  rw [masking_eq, masking_eq, masking_eq, split]

end Scrub

/-! ## Chunks -/

namespace Carry

theorem push_eq (scrub : Scrub) (carry : Carry) (chunk : String) :
    push scrub carry chunk =
      (scrub.masking ((carry.held ++ bytes chunk).take
          (scrub.safeCut (carry.held ++ bytes chunk))),
        ⟨(carry.held ++ bytes chunk).drop (scrub.safeCut (carry.held ++ bytes chunk))⟩) := by
  rw [push, Scrub.masked_getD]

def whole (chunks : List String) : Bytes := chunks.flatMap bytes

theorem whole_cons (chunk : String) (rest : List String) :
    whole (chunk :: rest) = bytes chunk ++ whole rest := List.flatMap_cons

theorem pushAll_masking (scrub : Scrub) (carry : Carry) (chunks : List String) (later : Bytes) :
    (pushAll scrub carry chunks).1.flatten
        ++ scrub.masking ((pushAll scrub carry chunks).2.held ++ later)
      = scrub.masking (carry.held ++ whole chunks ++ later) := by
  induction chunks generalizing carry with
  | nil => simp only [pushAll, whole, List.flatten_nil, List.flatMap_nil, List.append_nil,
      List.nil_append]
  | cons chunk rest ih =>
      have next := ih ⟨(carry.held ++ bytes chunk).drop (scrub.safeCut (carry.held ++ bytes chunk))⟩
      have split := Scrub.masking_append scrub (carry.held ++ bytes chunk) (whole rest ++ later)
      rw [pushAll, push_eq]
      simp only [List.flatten_cons, List.append_assoc] at next split ⊢
      rw [next, ← split, whole_cons, List.append_assoc]

/-! ## The held tail -/

theorem held_drop (scrub : Scrub) (text more : Bytes) :
    scrub.held (text ++ more) = scrub.held (text.drop (scrub.safeCut text) ++ more) := by
  have before := (Scrub.safeCut_clear scrub text []).1
  have within := Scrub.safeCut_le scrub text
  have joined : text ++ more = text.take (scrub.safeCut text) ++
      (text.drop (scrub.safeCut text) ++ more) := by
    rw [← List.append_assoc, List.take_append_drop]
  have each : ∀ secret ∈ scrub.secrets, partialHead (text ++ more) (bytes secret)
      = partialHead (text.drop (scrub.safeCut text) ++ more) (bytes secret) := by
    intro secret member
    have full : 0 < (bytes secret).length := by
      obtain ⟨first, rest, spelled, _⟩ := bytes_first (scrub.some_char secret member)
      rw [spelled, List.length_cons]
      omega
    have listed : bytes secret ∈ patterns scrub.secrets :=
      List.mem_append_left _ (List.mem_map_of_mem member)
    apply partialHead_congr full
    intro size shorter
    constructor
    · intro ends
      have sized : ((bytes secret).take size).length = size :=
        List.length_take_of_le (Nat.le_of_lt shorter)
      by_cases fits : size ≤ (text.drop (scrub.safeCut text) ++ more).length
      · exact List.suffix_of_suffix_length_le ends (joined ▸ List.suffix_append _ _)
          (by rw [sized]; exact fits)
      · -- a head that starts before the cut would still be pending there
        have total := ends.length_le
        rw [List.length_append, List.length_drop] at fits
        rw [sized, List.length_append] at total
        have start : (text ++ more).length - size < scrub.safeCut text := by
          rw [List.length_append]
          omega
        have tail := List.suffix_iff_eq_drop.mp ends
        rw [sized, List.drop_append_of_le_length (by omega)] at tail
        have begun : text.drop ((text ++ more).length - size) <+: bytes secret :=
          (tail ▸ List.prefix_append _ more : _ <+: (bytes secret).take size).trans
            (List.take_prefix _ _)
        have known := Scrub.settled scrub text _ (by omega) _ listed begun
        rw [List.length_drop, List.length_append] at known
        omega
    · intro ends
      rw [joined]
      exact List.suffix_append_of_suffix ends
  rw [Scrub.held, Scrub.held, List.map_congr_left each]

theorem safeCut_append (scrub : Scrub) (text more : Bytes) :
    scrub.safeCut (text ++ more) = scrub.safeCut text
      + scrub.safeCut (text.drop (scrub.safeCut text) ++ more) := by
  have within := Scrub.safeCut_le scrub text
  obtain ⟨before, clear⟩ := Scrub.safeCut_clear scrub text more
  have length : (text.take (scrub.safeCut text)).length = scrub.safeCut text :=
    List.length_take_of_le within
  have split := Search.find_split clear
  rw [List.take_append_of_le_length within, List.drop_append_of_le_length within] at split
  have held := held_drop scrub text more
  have fits := (Scrub.pending_eq scrub (text.drop (scrub.safeCut text) ++ more)).2
  have sized : (text ++ more).length = scrub.safeCut text
      + (text.drop (scrub.safeCut text) ++ more).length := by
    rw [List.length_append, List.length_append, List.length_drop]
    omega
  have start : (text ++ more).length - scrub.pending (text ++ more) = scrub.safeCut text
      + ((text.drop (scrub.safeCut text) ++ more).length
        - scrub.pending (text.drop (scrub.safeCut text) ++ more)) := by
    rw [(Scrub.pending_eq scrub _).1, (Scrub.pending_eq scrub _).1, held, sized]
    omega
  have untouched : ∀ way, Search.retreat (scrub.safeCut text + way)
      (Search.find (patterns scrub.secrets) (text.take (scrub.safeCut text)))
        = scrub.safeCut text + way := by
    intro way
    apply Search.retreat_of_outside
    intro found member
    obtain ⟨_, _, stop⟩ := Search.scan_bounds (pattern_some_char scrub) member
    exact Or.inl (by omega)
  rw [Scrub.safeCut, scrub.matcher.leftmostLongest, split, start, Search.retreat_append,
    untouched, Search.retreat_shift, ← scrub.matcher.leftmostLongest, ← Scrub.safeCut]

theorem pushAll_held (scrub : Scrub) (text : Bytes) (chunks : List String) :
    (pushAll scrub ⟨text.drop (scrub.safeCut text)⟩ chunks).2.held
      = (text ++ whole chunks).drop (scrub.safeCut (text ++ whole chunks)) := by
  induction chunks generalizing text with
  | nil => rw [pushAll, whole, List.flatMap_nil, List.append_nil]
  | cons chunk rest ih =>
      have next := ih (text ++ bytes chunk)
      rw [safeCut_append, ← List.drop_drop,
        List.drop_append_of_le_length (Scrub.safeCut_le scrub text)] at next
      rw [pushAll, push_eq]
      dsimp only
      rw [next, whole_cons, List.append_assoc]

theorem pushAll_default_held (scrub : Scrub) (chunks : List String) :
    (pushAll scrub .default chunks).2.held
      = (whole chunks).drop (scrub.safeCut (whole chunks)) := by
  have nothing : scrub.safeCut [] = 0 := Nat.le_zero.mp (Scrub.safeCut_le scrub [])
  have from_start := pushAll_held scrub [] chunks
  rw [nothing, List.drop_zero, List.nil_append] at from_start
  exact from_start

theorem find_before (scrub : Scrub) (text : Bytes) :
    (scrub.matcher.findIter text).filter (fun found => found.stop ≤ scrub.safeCut text)
      = Search.find (patterns scrub.secrets) (text.take (scrub.safeCut text)) := by
  have clear := (Scrub.safeCut_clear scrub text []).2
  rw [List.append_nil] at clear
  have length : (text.take (scrub.safeCut text)).length = scrub.safeCut text :=
    List.length_take_of_le (Scrub.safeCut_le scrub text)
  have some_char := pattern_some_char scrub
  rw [scrub.matcher.leftmostLongest, Search.find_split clear, List.filter_append]
  have kept : ∀ found ∈ Search.find (patterns scrub.secrets) (text.take (scrub.safeCut text)),
      decide (found.stop ≤ scrub.safeCut text) = true := by
    intro found member
    obtain ⟨_, _, stop⟩ := Search.scan_bounds some_char member
    exact decide_eq_true (by omega)
  have dropped : ∀ found ∈ (Search.find (patterns scrub.secrets)
      (text.drop (scrub.safeCut text))).map (Search.Found.shift (scrub.safeCut text)),
      ¬ decide (found.stop ≤ scrub.safeCut text) = true := by
    intro found member
    obtain ⟨base, listed, same⟩ := List.mem_map.mp member
    obtain ⟨_, proper, _⟩ := Search.scan_bounds some_char listed
    subst same
    intro ends
    have early := of_decide_eq_true ends
    dsimp only [Search.Found.shift] at early
    omega
  rw [List.filter_eq_self.mpr kept, List.filter_eq_nil_iff.mpr dropped, List.append_nil]

/-- However a text comes in chunks, what was sent and the masked held tail are the text
masked at once; two ways to cut it send the same; and what was sent is the text up to a
cut with each match before it replaced, no match stretching across. -/
theorem pushAll_independent (scrub : Scrub) (chunks : List String) :
    (pushAll scrub .default chunks).1.flatten
        ++ scrub.masking (pushAll scrub .default chunks).2.held = scrub.masking (whole chunks) ∧
      (∀ others : List String, whole others = whole chunks →
        (pushAll scrub .default others).1.flatten = (pushAll scrub .default chunks).1.flatten ∧
          (pushAll scrub .default others).2 = (pushAll scrub .default chunks).2) ∧
      ∃ cut ≤ (whole chunks).length, isCharBoundary (whole chunks) cut = true ∧
        (pushAll scrub .default chunks).2.held = (whole chunks).drop cut ∧
        (∀ found ∈ scrub.matcher.findIter (whole chunks), found.stop ≤ cut ∨ cut ≤ found.start) ∧
        (pushAll scrub .default chunks).1.flatten
          = Search.splice (scrub.replacements.map bytes) ((whole chunks).take cut) 0
              ((scrub.matcher.findIter (whole chunks)).filter fun found => found.stop ≤ cut) := by
  have masks : ∀ chunks, (pushAll scrub .default chunks).1.flatten
      ++ scrub.masking (pushAll scrub .default chunks).2.held = scrub.masking (whole chunks) := by
    intro chunks
    have every := pushAll_masking scrub .default chunks []
    simp only [List.append_nil] at every
    exact every
  have kept := pushAll_default_held scrub chunks
  have within := Scrub.safeCut_le scrub (whole chunks)
  refine ⟨masks chunks, ?_, scrub.safeCut (whole chunks), within,
    Scrub.safeCut_boundary scrub _, kept, ?_, ?_⟩
  · intro others same
    have held : (pushAll scrub .default others).2.held
        = (pushAll scrub .default chunks).2.held := by
      rw [kept, pushAll_default_held, same]
    have sent := masks others
    rw [same, ← masks chunks, held] at sent
    exact ⟨List.append_cancel_right sent, by rw [Carry.mk.injEq, held]⟩
  · intro found member
    have clear := (Scrub.safeCut_clear scrub (whole chunks) []).2
    rw [List.append_nil] at clear
    rw [scrub.matcher.leftmostLongest] at member
    exact Search.clear_outside (pattern_some_char scrub) within clear found member
  · have split := Scrub.masking_append scrub (whole chunks) []
    rw [List.append_nil, List.append_nil, ← masks chunks, kept] at split
    rw [List.append_cancel_right split, find_before, Scrub.masking_eq, Search.masked]

def scanning (patterns : List Bytes) : AhoCorasick patterns :=
  ⟨Search.find patterns, fun _ => rfl⟩

example : (Scrub.of (fun patterns => some (scanning patterns)) [("a", "key"), ("b", "keyed")]).map
    (fun scrub => (pushAll scrub .default ["my k", "ey", "e", "s k"]).1.map fun out => out.length)
      = some [3, 0, 0, 15] := by decide +kernel

end Carry

end Agentsfleet.Secrets
