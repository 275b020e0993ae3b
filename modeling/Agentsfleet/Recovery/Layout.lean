import Agentsfleet.Recovery.Restore
import Mathlib.Data.List.Chain
import Mathlib.Data.List.Forall2

/-!
# The layout of a manifest's pages

The pages of a catalog are the same before its objects are registered and after: an identifier
takes as many bytes as the placeholder it replaces.
-/

set_option autoImplicit false

namespace Agentsfleet.Recovery

open Agentsfleet.Core
open Agentsfleet.Library

/-! ## The bytes of a page -/

theorem commas_bytes_append (items : List String) (item : String) :
    (JsonText.commas (items ++ [item])).utf8ByteSize =
      (JsonText.commas items).utf8ByteSize + (if items.isEmpty then 0 else 1) +
        item.utf8ByteSize := by
  have comma : ",".utf8ByteSize = 1 := by decide
  induction items with
  | nil => simp [JsonText.commas]
  | cons first rest ih =>
      cases rest with
      | nil => simp [JsonText.commas, String.utf8ByteSize_append, comma]
      | cons second others =>
          have tail : (JsonText.commas (second :: others ++ [item])).utf8ByteSize = _ := ih
          simp only [List.cons_append, JsonText.commas, String.utf8ByteSize_append,
            List.isEmpty_cons, Bool.false_eq_true, if_false] at tail ⊢
          omega

theorem commas_bytes_congr {items others : List String}
    (same : List.Forall₂ (fun a b => a.utf8ByteSize = b.utf8ByteSize) items others) :
    (JsonText.commas items).utf8ByteSize = (JsonText.commas others).utf8ByteSize := by
  induction same with
  | nil => rfl
  | cons head tail ih =>
      cases tail with
      | nil => exact head
      | cons next rest =>
          simp only [JsonText.commas, String.utf8ByteSize_append, head]
          rw [ih]

theorem array_bytes (items : List String) :
    (JsonText.array items).utf8ByteSize = (JsonText.commas items).utf8ByteSize + 2 := by
  unfold JsonText.array
  rw [String.utf8ByteSize_append, String.utf8ByteSize_append]
  have opened : "[".utf8ByteSize = 1 := by decide
  have closed : "]".utf8ByteSize = 1 := by decide
  omega

theorem page_bytes (page : CheckpointPage) :
    page.bytes = (CheckpointPage.mk page.pageNumber [] []).bytes +
      (JsonText.commas (page.entries.map CheckpointEntry.json)).utf8ByteSize +
      (JsonText.commas (page.historyObjects.map JsonText.string)).utf8ByteSize := by
  have empty : "".utf8ByteSize = 0 := by decide
  unfold CheckpointPage.bytes CheckpointPage.json JsonText.object
  simp only [List.map_cons, List.map_nil, JsonText.commas, String.utf8ByteSize_append, array_bytes]
  omega

theorem push_bytes (page : CheckpointPage) (entry : CheckpointEntry) :
    { page with entries := page.entries ++ [entry] }.bytes =
      page.bytes + (if page.entries.isEmpty then 0 else 1) + entry.bytes := by
  rw [page_bytes, page_bytes page, List.map_append, List.map_singleton, commas_bytes_append,
    List.isEmpty_map]
  unfold CheckpointEntry.bytes
  dsimp only
  omega

/-! ## The bytes of an identifier -/

theorem escape_digit {c : Char} (plain : c = '-' ∨ Uuid7.isDigit c = true) :
    JsonText.escape c = [c] := by
  unfold JsonText.escape
  split
  all_goals first
    | exact absurd plain (by decide)
    | skip
  rw [if_neg]
  rcases plain with rfl | digit
  · decide
  · intro low
    unfold Uuid7.isDigit at digit
    simp only [Bool.or_eq_true, Bool.and_eq_true, decide_eq_true_eq] at digit
    rcases digit with ⟨above, -⟩ | ⟨above, -⟩
    · exact absurd (Nat.lt_of_le_of_lt (Char.le_def.mp above) low) (by decide)
    · exact absurd (Nat.lt_of_le_of_lt (Char.le_def.mp above) low) (by decide)

theorem plain_of_placed {offset : Nat} {chars : List Char}
    (placed : Uuid7.misplaced offset chars = false) :
    ∀ c ∈ chars, c = '-' ∨ Uuid7.isDigit c = true := by
  induction chars generalizing offset with
  | nil => exact fun c member => absurd member List.not_mem_nil
  | cons first rest ih =>
      rw [Uuid7.misplaced, Bool.or_eq_false_iff] at placed
      refine List.forall_mem_cons.mpr ⟨?_, ih placed.2⟩
      by_cases dash : Uuid7.dashOffsets.contains offset = true
      · rw [if_pos dash] at placed
        exact .inl (by simpa using placed.1)
      · rw [if_neg dash] at placed
        exact .inr (by simpa using placed.1)

theorem objectId_bytes {id : String} (valid : objectId id = true) :
    (JsonText.string id).utf8ByteSize = (JsonText.string placeholder).utf8ByteSize := by
  have whole : (JsonText.string placeholder).utf8ByteSize = 38 := by decide
  unfold objectId Uuid7.firstViolation at valid
  rw [whole]
  by_cases long : id.utf8ByteSize ≠ Uuid7.textLen
  · rw [if_pos long] at valid
    cases valid
  · rw [if_neg long] at valid
    by_cases misplaced : Uuid7.misplaced 0 id.toList = true
    · rw [if_pos misplaced] at valid
      cases valid
    · have plain := plain_of_placed (Bool.eq_false_iff.mpr misplaced)
      have same : id.toList.flatMap JsonText.escape = id.toList := by
        have each : id.toList.flatMap JsonText.escape = id.toList.flatMap fun c => [c] :=
          List.flatMap_congr fun c member => escape_digit (plain c member)
        rw [each]
        simp
      have quote : "\"".utf8ByteSize = 1 := by decide
      have size : id.utf8ByteSize = 36 := Classical.not_not.mp long
      unfold JsonText.string
      rw [same, String.ofList_toList, String.utf8ByteSize_append, String.utf8ByteSize_append,
        quote, size]

/-! ## An entry before its objects are registered and after -/

def CheckpointEntry.objects : CheckpointEntry → List String
  | .file content => content.objects
  | _ => []

structure Twin (original entry : CheckpointEntry) : Prop where
  path : entry.path = original.path
  bytes : entry.bytes = original.bytes
  valid : original.valid = true → entry.valid = true

structure TwinObject (original object : String) : Prop where
  bytes : (JsonText.string object).utf8ByteSize = (JsonText.string original).utf8ByteSize
  valid : objectId original = true → objectId object = true

structure TwinPage (original page : CheckpointPage) : Prop where
  number : page.pageNumber = original.pageNumber
  entries : List.Forall₂ Twin original.entries page.entries
  history : List.Forall₂ TwinObject original.historyObjects page.historyObjects

structure TwinLayout (original layout : Layout) : Prop where
  closed : List.Forall₂ TwinPage original.closed layout.closed
  page : TwinPage original.page layout.page
  pageBytes : layout.pageBytes = original.pageBytes

theorem Twin.refl (entry : CheckpointEntry) : Twin entry entry := ⟨rfl, rfl, id⟩

theorem forall₂_map_bytes {A : Type} {text : A → String} {first second : List A}
    (same : List.Forall₂ (fun a b => (text b).utf8ByteSize = (text a).utf8ByteSize) first second) :
    (JsonText.commas (second.map text)).utf8ByteSize =
      (JsonText.commas (first.map text)).utf8ByteSize := by
  apply commas_bytes_congr
  rw [List.forall₂_map_left_iff, List.forall₂_map_right_iff]
  exact same.flip

theorem TwinPage.bytes {original page : CheckpointPage} (twin : TwinPage original page) :
    page.bytes = original.bytes := by
  rw [page_bytes, page_bytes original, twin.number,
    forall₂_map_bytes (twin.entries.imp fun _ _ same => same.bytes),
    forall₂_map_bytes (twin.history.imp fun _ _ same => same.bytes)]

theorem TwinPage.valid {original page : CheckpointPage} (twin : TwinPage original page)
    (valid : original.valid = true) : page.valid = true := by
  unfold CheckpointPage.valid at valid ⊢
  simp only [Bool.and_eq_true] at valid ⊢
  obtain ⟨⟨⟨⟨number, few⟩, entries⟩, short⟩, history⟩ := valid
  rw [twin.number, ← twin.entries.length_eq, ← twin.history.length_eq]
  exact ⟨⟨⟨⟨number, few⟩, Paired.all_right (fun _ _ same => same.valid) twin.entries entries⟩,
    short⟩, Paired.all_right (fun _ _ same => same.valid) twin.history history⟩

theorem TwinLayout.start : TwinLayout Layout.start Layout.start :=
  ⟨.nil, ⟨rfl, .nil, .nil⟩, rfl⟩

theorem TwinLayout.push {original layout : Layout} {first second : CheckpointEntry}
    (twins : TwinLayout original layout) (twin : Twin first second) :
    TwinLayout (original.push first) (layout.push second) := by
  refine ⟨twins.closed, ⟨twins.page.number, Paired.snoc twins.page.entries twin,
    twins.page.history⟩, ?_⟩
  unfold Layout.push
  dsimp only
  rw [twins.pageBytes, Paired.isEmpty_eq twins.page.entries, twin.bytes]

theorem TwinLayout.place {original layout next : Layout} {first second : CheckpointEntry}
    (twins : TwinLayout original layout) (twin : Twin first second)
    (placed : original.place first = .ok next) :
    ∃ after, layout.place second = .ok after ∧ TwinLayout next after := by
  unfold Layout.place at placed ⊢
  dsimp only at placed ⊢
  rw [twins.pageBytes, Paired.isEmpty_eq twins.page.entries, twin.bytes,
    ← twins.page.entries.length_eq, ← twins.closed.length_eq]
  by_cases full : original.page.entries.length = maxPageEntries ∨ exceeds checkpointPageBytes
      (original.pageBytes + (if original.page.entries.isEmpty then 0 else 1) + first.bytes) = true
  · rw [if_pos full] at placed ⊢
    by_cases last : original.page.entries.isEmpty ∨
        original.closed.length + 1 = checkpointPages
    · rw [if_pos last] at placed
      cases placed
    · rw [if_neg last] at placed ⊢
      cases placed
      refine ⟨_, rfl, TwinLayout.push ⟨Paired.snoc twins.closed twins.page, ?_, rfl⟩ twin⟩
      exact ⟨rfl, .nil, .nil⟩
  · rw [if_neg full] at placed ⊢
    cases placed
    exact ⟨_, rfl, twins.push twin⟩

theorem TwinLayout.finish {original layout : Layout} {first second : List String}
    (twins : TwinLayout original layout) (history : List.Forall₂ TwinObject first second) :
    List.Forall₂ TwinPage (original.finish first) (layout.finish second) := by
  have page : TwinPage { original.page with historyObjects := first }
      { layout.page with historyObjects := second } :=
    ⟨twins.page.number, twins.page.entries, history⟩
  unfold Layout.finish
  dsimp only
  rw [page.bytes]
  by_cases long : exceeds checkpointPageBytes
      { original.page with historyObjects := first }.bytes = true
  · rw [if_pos long, if_pos long]
    refine List.rel_append twins.closed (.cons twins.page (.cons ⟨?_, .nil, history⟩ .nil))
    rw [twins.closed.length_eq]
  · rw [if_neg long, if_neg long]
    exact Paired.snoc twins.closed page

/-! ## The pages of a catalog -/

def Layout.placeAll : List CheckpointEntry → Layout → Except CatalogError Layout
  | [], layout => .ok layout
  | entry :: rest, layout =>
      match layout.place entry with
      | .error refused => .error refused
      | .ok layout => Layout.placeAll rest layout

theorem TwinLayout.placeAll {entries others : List CheckpointEntry}
    (twins : List.Forall₂ Twin entries others) {original layout next : Layout}
    (alike : TwinLayout original layout) (placed : Layout.placeAll entries original = .ok next) :
    ∃ after, Layout.placeAll others layout = .ok after ∧ TwinLayout next after := by
  induction twins generalizing original layout with
  | nil =>
      cases placed
      exact ⟨layout, rfl, alike⟩
  | @cons first second rest others twin tail ih =>
      unfold Layout.placeAll at placed
      cases put : original.place first with
      | error refused =>
          rw [put] at placed
          cases placed
      | ok between =>
          rw [put] at placed
          obtain ⟨middle, goes, same⟩ := alike.place twin put
          obtain ⟨after, done, whole⟩ := ih same placed
          refine ⟨after, ?_, whole⟩
          unfold Layout.placeAll
          rw [goes]
          exact done

def Catalog.Registered (catalog : Catalog) (ids : Option (SortedMap String String))
    (entries : List CheckpointEntry) : Prop :=
  List.Forall₂ (fun original entry => catalog.registered ids original.1 original.2 = .ok entry)
    catalog.entries.entries entries

theorem layEntries_iff {catalog : Catalog} {ids : Option (SortedMap String String)}
    {held : List (String × CheckpointEntry)} {layout next : Layout} :
    catalog.layEntries ids held layout = .ok next ↔
      ∃ entries, List.Forall₂ (fun original entry =>
          catalog.registered ids original.1 original.2 = .ok entry) held entries ∧
        Layout.placeAll entries layout = .ok next := by
  induction held generalizing layout with
  | nil =>
      constructor
      · exact fun laid => ⟨[], .nil, laid⟩
      · rintro ⟨_, ⟨⟩, placed⟩
        exact placed
  | cons first rest ih =>
      obtain ⟨path, original⟩ := first
      unfold Catalog.layEntries
      constructor
      · intro laid
        cases named : catalog.registered ids path original with
        | error refused =>
            rw [named] at laid
            cases laid
        | ok entry =>
            rw [named] at laid
            dsimp only at laid
            cases put : layout.place entry with
            | error refused =>
                rw [put] at laid
                cases laid
            | ok between =>
                rw [put] at laid
                obtain ⟨entries, matched, placed⟩ := ih.mp laid
                refine ⟨entry :: entries, .cons named matched, ?_⟩
                unfold Layout.placeAll
                rw [put]
                exact placed
      · rintro ⟨_, registered, placed⟩
        cases registered with
        | @cons _ entry _ entries named matched =>
            unfold Layout.placeAll at placed
            rw [named]
            dsimp only
            cases put : layout.place entry with
            | error refused =>
                rw [put] at placed
                cases placed
            | ok between =>
                rw [put] at placed
                exact ih.mpr ⟨entries, matched, placed⟩

theorem checkPages_iff {pages : List CheckpointPage} :
    checkPages pages = .ok () ↔
      ∀ page ∈ pages, page.valid = true ∧ exceeds checkpointPageBytes page.bytes = false := by
  induction pages with
  | nil => simp [checkPages]
  | cons page rest ih =>
      rw [List.forall_mem_cons, ← ih]
      conv_lhs => unfold checkPages
      cases valid : page.valid with
      | false => simp
      | true =>
          cases long : exceeds checkpointPageBytes page.bytes with
          | true => simp
          | false => simp

theorem pages_iff {catalog : Catalog} {ids : Option (SortedMap String String)}
    {pages : List CheckpointPage} :
    catalog.pages ids = .ok pages ↔
      ∃ entries layout history, catalog.Registered ids entries ∧
        Layout.placeAll entries Layout.start = .ok layout ∧
        catalog.historyObjects ids = .ok history ∧ pages = layout.finish history ∧
        exceeds checkpointPages pages.length = false ∧
        ∀ page ∈ pages, page.valid = true ∧ exceeds checkpointPageBytes page.bytes = false := by
  unfold Catalog.pages
  constructor
  · intro laid
    obtain ⟨layout, placed, rest⟩ := bind_eq_ok.mp laid
    obtain ⟨history, filled, rest⟩ := bind_eq_ok.mp rest
    obtain ⟨entries, matched, put⟩ := layEntries_iff.mp placed
    by_cases many : exceeds checkpointPages (layout.finish history).length = true
    · rw [if_pos many] at rest
      cases rest
    · rw [if_neg many] at rest
      obtain ⟨_, checked, done⟩ := bind_eq_ok.mp rest
      cases done
      exact ⟨entries, layout, history, matched, put, filled, rfl, Bool.eq_false_iff.mpr many,
        checkPages_iff.mp checked⟩
  · rintro ⟨entries, layout, history, matched, put, filled, rfl, few, passed⟩
    rw [layEntries_iff.mpr ⟨entries, matched, put⟩]
    change (catalog.historyObjects ids >>= _) = _
    rw [filled]
    change (if exceeds checkpointPages (layout.finish history).length = true then _ else _) = _
    rw [if_neg (by rw [few]; exact Bool.false_ne_true), checkPages_iff.mpr passed]
    rfl

/-! ## Where a page ends -/

def Ends (page next : CheckpointPage) : Prop :=
  ∀ entry ∈ next.entries.head?, page.entries.length = maxPageEntries ∨
    exceeds checkpointPageBytes { page with entries := page.entries ++ [entry] }.bytes = true

structure Layout.Sound (layout : Layout) : Prop where
  numbers : (layout.closed ++ [layout.page]).map CheckpointPage.pageNumber =
    List.range (layout.closed.length + 1)
  plain : ∀ page ∈ layout.closed ++ [layout.page], page.historyObjects = []
  counted : layout.pageBytes = layout.page.bytes
  opened : layout.page.entries = [] → layout.closed = []
  tight : (layout.closed ++ [layout.page]).IsChain Ends

theorem Layout.sound_start : Layout.start.Sound where
  numbers := rfl
  plain := by simp [Layout.start]
  counted := rfl
  opened := fun _ => rfl
  tight := List.isChain_singleton _

theorem Layout.Sound.push {layout : Layout} (sound : layout.Sound) (entry : CheckpointEntry) :
    (layout.push entry).Sound := by
  refine ⟨?_, ?_, ?_, ?_, ?_⟩
  · have numbers := sound.numbers
    rw [List.map_append] at numbers ⊢
    exact numbers
  · intro page member
    rcases List.mem_append.mp member with before | last
    · exact sound.plain page (List.mem_append_left _ before)
    · rw [List.mem_singleton.mp last]
      exact sound.plain layout.page (List.mem_append_right _ (List.mem_singleton_self _))
  · unfold Layout.push
    dsimp only
    rw [push_bytes, sound.counted]
  · intro none
    exact absurd none (by simp [Layout.push])
  · obtain ⟨before, -, across⟩ := List.isChain_append.mp sound.tight
    refine List.isChain_append.mpr ⟨before, List.isChain_singleton _, ?_⟩
    intro page last next head
    cases head
    cases held : layout.page.entries with
    | nil =>
        have none : layout.closed = [] := sound.opened held
        rw [show (layout.push entry).closed = [] from none] at last
        cases last
    | cons first rest =>
        have ends := across page last layout.page rfl
        intro other member
        apply ends other
        rw [held]
        unfold Layout.push at member
        dsimp only at member
        rw [held] at member
        exact member

theorem Layout.Sound.place {layout next : Layout} {entry : CheckpointEntry}
    (sound : layout.Sound) (placed : layout.place entry = .ok next) : next.Sound := by
  unfold Layout.place at placed
  dsimp only at placed
  by_cases full : layout.page.entries.length = maxPageEntries ∨ exceeds checkpointPageBytes
      (layout.pageBytes + (if layout.page.entries.isEmpty then 0 else 1) + entry.bytes) = true
  · rw [if_pos full] at placed
    by_cases last : layout.page.entries.isEmpty ∨ layout.closed.length + 1 = checkpointPages
    · rw [if_pos last] at placed
      cases placed
    · rw [if_neg last] at placed
      cases placed
      refine ⟨?_, ?_, ?_, ?_, ?_⟩
      · show ((layout.closed ++ [layout.page]) ++ [_]).map _ = _
        rw [List.map_append, sound.numbers]
        show List.range (layout.closed.length + 1) ++ [layout.closed.length + 1] =
          List.range ((layout.closed ++ [layout.page]).length + 1)
        rw [List.length_append, List.length_singleton, List.range_succ (n := _ + 1)]
      · intro page member
        rcases List.mem_append.mp member with before | open_
        · exact sound.plain page before
        · rw [List.mem_singleton.mp open_]
          rfl
      · exact (push_bytes ⟨layout.closed.length + 1, [], []⟩ entry).symm
      · intro none
        exact absurd none (by simp [Layout.push])
      · refine List.isChain_append.mpr ⟨sound.tight, List.isChain_singleton _, ?_⟩
        intro page ends fresh head other first
        change (layout.closed ++ [layout.page]).getLast? = some page at ends
        rw [List.getLast?_append, List.getLast?_singleton] at ends
        cases ends
        cases head
        cases first
        rw [sound.counted] at full
        rw [push_bytes]
        exact full
  · rw [if_neg full] at placed
    cases placed
    exact sound.push entry

theorem Layout.Sound.placeAll {entries : List CheckpointEntry} {layout next : Layout}
    (sound : layout.Sound) (placed : Layout.placeAll entries layout = .ok next) :
    next.Sound := by
  induction entries generalizing layout with
  | nil =>
      cases placed
      exact sound
  | cons entry rest ih =>
      unfold Layout.placeAll at placed
      cases put : layout.place entry with
      | error refused =>
          rw [put] at placed
          cases placed
      | ok between =>
          rw [put] at placed
          exact ih (sound.place put) placed

structure Finished (history : List String) (pages : List CheckpointPage) : Prop where
  numbers : pages.map CheckpointPage.pageNumber = List.range pages.length
  tight : pages.IsChain Ends
  history : ∃ front last, pages = front ++ [last] ∧ last.historyObjects = history ∧
    ∀ page ∈ front, page.historyObjects = []

theorem Layout.Sound.finish {layout : Layout} (sound : layout.Sound) (history : List String) :
    Finished history (layout.finish history) := by
  unfold Layout.finish
  dsimp only
  by_cases long : exceeds checkpointPageBytes
      { layout.page with historyObjects := history }.bytes = true
  · rw [if_pos long]
    have whole : layout.closed ++ [layout.page, ⟨layout.closed.length + 1, [], history⟩] =
        (layout.closed ++ [layout.page]) ++ [⟨layout.closed.length + 1, [], history⟩] := by simp
    rw [whole]
    refine ⟨?_, ?_, layout.closed ++ [layout.page], _, rfl, rfl, sound.plain⟩
    · rw [List.map_append, sound.numbers, List.length_append, List.length_append,
        List.length_singleton, List.length_singleton, List.range_succ (n := _ + 1)]
      rfl
    · refine List.isChain_append.mpr ⟨sound.tight, List.isChain_singleton _, ?_⟩
      intro page _ own head other first
      cases head
      cases first
  · rw [if_neg long]
    refine ⟨?_, ?_, layout.closed, _, rfl, rfl,
      fun page member => sound.plain page (List.mem_append_left _ member)⟩
    · have numbers := sound.numbers
      rw [List.map_append] at numbers ⊢
      rw [List.length_append]
      exact numbers
    · obtain ⟨before, -, across⟩ := List.isChain_append.mp sound.tight
      refine List.isChain_append.mpr ⟨before, List.isChain_singleton _, ?_⟩
      intro page last next head
      cases head
      exact across page last layout.page rfl

/-! ## A catalog's entries before and after registration -/

structure Catalog.Coherent (catalog : Catalog) : Prop where
  keyed : ∀ held ∈ catalog.entries.entries, held.2.path = held.1
  mapped : ∀ path content, catalog.entries.get path = some (.file content) →
    ∃ keys, catalog.fileChunks.get path = some keys ∧
      content.objects = List.replicate keys.length placeholder

structure Catalog.Registers (catalog : Catalog) (ids : SortedMap String String) : Prop where
  files : ∀ path keys, catalog.fileChunks.get path = some keys →
    ∀ key ∈ keys, ∃ id, ids.get key = some id ∧ objectId id = true
  history : ∀ key ∈ catalog.historyChunks, ∃ id, ids.get key = some id ∧ objectId id = true

theorem Catalog.build_coherent {w : Workspace} {root : Option (SortedMap String Entry)}
    {history : Bytes} {basePaths : List String} {catalog : Catalog}
    (built : Catalog.build w root history basePaths = .ok catalog) : catalog.Coherent := by
  obtain ⟨holds, gone⟩ := Catalog.build_spec built
  constructor
  · intro held member
    have found := (SortedMap.mem_entries_iff _ _ _).mp member
    cases inside : (root.getD SortedMap.empty).get held.1 with
    | some entry =>
        have kept := holds held.1 entry inside
        cases entry with
        | directory =>
            rw [show catalog.entries.get held.1 = _ from kept] at found
            rw [← Option.some.inj found]
            rfl
        | symlink target =>
            rw [show catalog.entries.get held.1 = _ from kept] at found
            rw [← Option.some.inj found]
            rfl
        | file identity executable =>
            obtain ⟨keys, -, -, same⟩ := kept
            rw [same] at found
            rw [← Option.some.inj found]
            rfl
    | none =>
        have removed := gone held.1 inside
        rw [found] at removed
        by_cases base : held.1 ∈ basePaths
        · rw [if_pos base] at removed
          rw [Option.some.inj removed]
          rfl
        · rw [if_neg base] at removed
          cases removed
  · intro path content found
    cases inside : (root.getD SortedMap.empty).get path with
    | some entry =>
        have kept := holds path entry inside
        cases entry with
        | directory =>
            rw [show catalog.entries.get path = _ from kept] at found
            cases found
        | symlink target =>
            rw [show catalog.entries.get path = _ from kept] at found
            cases found
        | file identity executable =>
            obtain ⟨keys, -, mapped, same⟩ := kept
            rw [same] at found
            cases found
            exact ⟨keys, mapped, rfl⟩
    | none =>
        have removed := gone path inside
        rw [found] at removed
        by_cases base : path ∈ basePaths
        · rw [if_pos base] at removed
          cases removed
        · rw [if_neg base] at removed
          cases removed

theorem Catalog.build_pages {w : Workspace} {root : Option (SortedMap String Entry)}
    {history : Bytes} {basePaths : List String} {catalog : Catalog}
    (built : Catalog.build w root history basePaths = .ok catalog) :
    ∃ pages, catalog.pages none = .ok pages := by
  unfold Catalog.build at built
  by_cases long : exceeds maxHistory history.length = true
  · rw [if_pos long] at built
    cases built
  · rw [if_neg long] at built
    dsimp only at built
    by_cases many : exceeds maxEntryCount (root.getD SortedMap.empty).size = true
    · rw [if_pos many] at built
      cases built
    · rw [if_neg many] at built
      obtain ⟨first, -, rest⟩ := bind_eq_ok.mp built
      obtain ⟨pages, laid, done⟩ := bind_eq_ok.mp rest
      cases done
      exact ⟨pages, laid⟩

theorem twinObject {id : String} (valid : objectId id = true) : TwinObject placeholder id :=
  ⟨objectId_bytes valid, fun _ => valid⟩

theorem twin_file {content : CheckpointFile} {objects : List String}
    (held : content.objects = List.replicate objects.length placeholder)
    (valid : ∀ id ∈ objects, objectId id = true) :
    Twin (.file content) (.file { content with objects := objects }) := by
  refine ⟨rfl, ?_, ?_⟩
  · unfold CheckpointEntry.bytes CheckpointEntry.json JsonText.object
    have same : (JsonText.commas (objects.map JsonText.string)).utf8ByteSize =
        (JsonText.commas (content.objects.map JsonText.string)).utf8ByteSize := by
      apply forall₂_map_bytes
      rw [held]
      exact Paired.replicate fun id member => objectId_bytes (valid id member)
    simp only [List.map_cons, List.map_nil, JsonText.commas, String.utf8ByteSize_append,
      array_bytes, same]
  · intro passes
    simp only [CheckpointEntry.valid, CheckpointFile.valid, Bool.and_eq_true] at passes ⊢
    obtain ⟨⟨passes, few⟩, -⟩ := passes
    rw [held, List.length_replicate] at few
    exact ⟨⟨passes, few⟩, List.all_eq_true.mpr valid⟩

theorem mapM_get_forall {ids : SortedMap String String} {keys objects : List String}
    (found : keys.mapM ids.get = some objects) :
    List.Forall₂ (fun key id => ids.get key = some id) keys objects := by
  induction keys generalizing objects with
  | nil =>
      cases found
      exact .nil
  | cons key rest ih =>
      rw [List.mapM_cons] at found
      cases first : ids.get key with
      | none => simp [first] at found
      | some id =>
          cases others : rest.mapM ids.get with
          | none => simp [first, others] at found
          | some later =>
              simp only [first, others, Option.bind_eq_bind, Option.bind_some, Option.pure_def,
                Option.some.injEq] at found
              rw [← found]
              exact .cons first (ih others)

theorem mapM_get_total {ids : SortedMap String String} {keys : List String}
    (held : ∀ key ∈ keys, ∃ id, ids.get key = some id ∧ objectId id = true) :
    ∃ objects, keys.mapM ids.get = some objects ∧ ∀ id ∈ objects, objectId id = true := by
  induction keys with
  | nil => exact ⟨[], rfl, by simp⟩
  | cons key rest ih =>
      obtain ⟨⟨id, found, valid⟩, others⟩ := List.forall_mem_cons.mp held
      obtain ⟨objects, rested, all⟩ := ih others
      refine ⟨id :: objects, ?_, List.forall_mem_cons.mpr ⟨valid, all⟩⟩
      rw [List.mapM_cons, found, rested]
      rfl

theorem Catalog.Coherent.twin {catalog : Catalog} (coherent : catalog.Coherent)
    {ids : Option (SortedMap String String)} {path : String} {original entry : CheckpointEntry}
    (held : catalog.entries.get path = some original)
    (named : catalog.registered ids path original = .ok entry)
    (valid : ∀ id ∈ entry.objects, objectId id = true) : Twin original entry := by
  cases original with
  | directory path =>
      cases named
      exact .refl _
  | symlink path target =>
      cases named
      exact .refl _
  | remove path =>
      cases named
      exact .refl _
  | file content =>
      cases ids with
      | none =>
          cases named
          exact .refl _
      | some ids =>
          obtain ⟨keys, mapped, placed⟩ := coherent.mapped path content held
          unfold Catalog.registered at named
          dsimp only at named
          rw [mapped] at named
          dsimp only at named
          cases found : keys.mapM ids.get with
          | none =>
              rw [found] at named
              cases named
          | some objects =>
              rw [found] at named
              cases named
              rw [(mapM_get_forall found).length_eq] at placed
              exact twin_file placed valid

theorem Catalog.Coherent.registered {catalog : Catalog} (coherent : catalog.Coherent)
    {ids : SortedMap String String} (registers : catalog.Registers ids) {path : String}
    {original : CheckpointEntry} (held : catalog.entries.get path = some original) :
    ∃ entry, catalog.registered (some ids) path original = .ok entry ∧ Twin original entry := by
  cases original with
  | directory path => exact ⟨_, rfl, .refl _⟩
  | symlink path target => exact ⟨_, rfl, .refl _⟩
  | remove path => exact ⟨_, rfl, .refl _⟩
  | file content =>
      obtain ⟨keys, mapped, placed⟩ := coherent.mapped path content held
      obtain ⟨objects, found, valid⟩ := mapM_get_total (registers.files path keys mapped)
      refine ⟨.file { content with objects := objects }, ?_, ?_⟩
      · unfold Catalog.registered
        dsimp only
        rw [mapped]
        dsimp only
        rw [found]
      · rw [(mapM_get_forall found).length_eq] at placed
        exact twin_file placed valid

/-! ## The whole layout -/

def CheckpointPage.shape (page : CheckpointPage) : Nat × List String × Nat :=
  (page.pageNumber, page.entries.map CheckpointEntry.path, page.historyObjects.length)

structure LaidOut (catalog : Catalog) (ids : Option (SortedMap String String))
    (pages : List CheckpointPage) : Prop where
  few : pages.length ≤ checkpointPages
  within : ∀ page ∈ pages,
    page.entries.length ≤ maxPageEntries ∧ page.bytes ≤ checkpointPageBytes
  entries : catalog.Registered ids (manifest pages)
  ascending : (manifest pages).Pairwise fun first second => first.path < second.path
  finished : ∃ history, catalog.historyObjects ids = .ok history ∧ Finished history pages

theorem registered_path {catalog : Catalog} {ids : Option (SortedMap String String)}
    {path : String} {original entry : CheckpointEntry}
    (named : catalog.registered ids path original = .ok entry) : entry.path = original.path := by
  cases original with
  | directory path => cases named; rfl
  | symlink path target => cases named; rfl
  | remove path => cases named; rfl
  | file content =>
      cases ids with
      | none => cases named; rfl
      | some ids =>
          unfold Catalog.registered at named
          dsimp only at named
          split at named
          · cases named
          · split at named
            · cases named
            · cases named
              rfl

theorem page_valid_entries {page : CheckpointPage} (valid : page.valid = true) :
    page.entries.length ≤ maxPageEntries ∧
      (∀ entry ∈ page.entries, entry.valid = true) ∧
      ∀ id ∈ page.historyObjects, objectId id = true := by
  simp only [CheckpointPage.valid, Bool.and_eq_true, decide_eq_true_eq] at valid
  obtain ⟨⟨⟨⟨-, few⟩, entries⟩, -⟩, history⟩ := valid
  exact ⟨few, List.all_eq_true.mp entries, List.all_eq_true.mp history⟩

theorem entry_valid_objects {entry : CheckpointEntry} (valid : entry.valid = true) :
    ∀ id ∈ entry.objects, objectId id = true := by
  cases entry with
  | file content =>
      simp only [CheckpointEntry.valid, CheckpointFile.valid, Bool.and_eq_true] at valid
      exact List.all_eq_true.mp valid.2
  | directory path => exact fun id member => absurd member List.not_mem_nil
  | symlink path target => exact fun id member => absurd member List.not_mem_nil
  | remove path => exact fun id member => absurd member List.not_mem_nil

theorem placeAll_laid {entries : List CheckpointEntry} {layout next : Layout}
    (placed : Layout.placeAll entries layout = .ok next) :
    next.laid = layout.laid ++ entries := by
  induction entries generalizing layout with
  | nil =>
      cases placed
      exact (List.append_nil _).symm
  | cons entry rest ih =>
      unfold Layout.placeAll at placed
      cases put : layout.place entry with
      | error refused =>
          rw [put] at placed
          cases placed
      | ok between =>
          rw [put] at placed
          rw [ih placed, Layout.place_laid put, List.append_assoc]
          rfl

theorem laid_manifest {entries : List CheckpointEntry} {layout : Layout}
    (placed : Layout.placeAll entries Layout.start = .ok layout) (history : List String) :
    manifest (layout.finish history) = entries := by
  rw [Layout.finish_manifest, placeAll_laid placed]
  rfl

theorem Catalog.Coherent.laidOut {catalog : Catalog} (coherent : catalog.Coherent)
    {ids : Option (SortedMap String String)} {pages : List CheckpointPage}
    (laid : catalog.pages ids = .ok pages) : LaidOut catalog ids pages := by
  obtain ⟨entries, layout, history, matched, placed, filled, rfl, few, passed⟩ := pages_iff.mp laid
  have whole := laid_manifest placed history
  refine ⟨exceeds_eq_false_iff.mp few, ?_, whole ▸ matched, ?_,
    history, filled, (Layout.sound_start.placeAll placed).finish history⟩
  · intro page member
    obtain ⟨valid, short⟩ := passed page member
    exact ⟨(page_valid_entries valid).1, exceeds_eq_false_iff.mp short⟩
  · rw [whole]
    have sorted := List.pairwise_map.mpr catalog.entries.ascending
    have paths : entries.map CheckpointEntry.path = catalog.entries.entries.map Prod.fst := by
      refine Paired.map_eq (fun one inside entry named => ?_) matched
      exact (registered_path named).trans (coherent.keyed one inside)
    rw [← paths] at sorted
    exact List.pairwise_map.mp sorted

theorem plain_entries {catalog : Catalog} {held : List (String × CheckpointEntry)}
    {plain : List CheckpointEntry} (unnamed : List.Forall₂ (fun original entry =>
      catalog.registered none original.1 original.2 = .ok entry) held plain) :
    plain = held.map Prod.snd := by
  induction unnamed with
  | nil => rfl
  | @cons one entry rest others head tail ih =>
      obtain ⟨path, original⟩ := one
      rw [List.map_cons, ih]
      cases original <;> cases head <;> rfl

theorem registered_all {catalog : Catalog} (coherent : catalog.Coherent)
    {ids : SortedMap String String} (registers : catalog.Registers ids)
    {held : List (String × CheckpointEntry)}
    (inside : ∀ one ∈ held, catalog.entries.get one.1 = some one.2) :
    ∃ named, List.Forall₂ (fun original entry =>
        catalog.registered (some ids) original.1 original.2 = .ok entry) held named ∧
      List.Forall₂ Twin (held.map Prod.snd) named := by
  induction held with
  | nil => exact ⟨[], .nil, .nil⟩
  | cons one rest ih =>
      obtain ⟨first, tail⟩ := List.forall_mem_cons.mp inside
      obtain ⟨entry, named, twin⟩ := coherent.registered registers first
      obtain ⟨others, matches_, twins⟩ := ih tail
      exact ⟨entry :: others, .cons named matches_, .cons twin twins⟩

theorem twins_of {catalog : Catalog} (coherent : catalog.Coherent)
    {ids : Option (SortedMap String String)} {held : List (String × CheckpointEntry)}
    {entries : List CheckpointEntry}
    (inside : ∀ one ∈ held, catalog.entries.get one.1 = some one.2)
    (named : List.Forall₂ (fun original entry =>
      catalog.registered ids original.1 original.2 = .ok entry) held entries)
    (valid : ∀ entry ∈ entries, ∀ id ∈ entry.objects, objectId id = true) :
    List.Forall₂ Twin (held.map Prod.snd) entries := by
  induction named with
  | nil => exact .nil
  | cons registered later ih =>
      obtain ⟨first, tail⟩ := List.forall_mem_cons.mp inside
      obtain ⟨good, goods⟩ := List.forall_mem_cons.mp valid
      exact .cons (coherent.twin first registered good) (ih tail goods)

theorem twins_shape {first second : List CheckpointPage}
    (twins : List.Forall₂ TwinPage first second) :
    second.map CheckpointPage.shape = first.map CheckpointPage.shape := by
  have paths : ∀ {before after : List CheckpointEntry}, List.Forall₂ Twin before after →
      after.map CheckpointEntry.path = before.map CheckpointEntry.path := by
    intro before after same
    induction same with
    | nil => rfl
    | cons head tail ih => rw [List.map_cons, List.map_cons, head.path, ih]
  induction twins with
  | nil => rfl
  | cons head tail ih =>
      rw [List.map_cons, List.map_cons, ih]
      unfold CheckpointPage.shape
      rw [head.number, paths head.entries, head.history.length_eq]

theorem history_twins {catalog : Catalog} {ids : Option (SortedMap String String)}
    {plain history : List String} (unnamed : catalog.historyObjects none = .ok plain)
    (named : catalog.historyObjects ids = .ok history)
    (valid : ∀ id ∈ history, objectId id = true) : List.Forall₂ TwinObject plain history := by
  cases unnamed
  rw [List.map_const']
  have many : history.length = catalog.historyChunks.length := by
    cases ids with
    | none =>
        cases named
        rw [List.length_map]
    | some ids =>
        unfold Catalog.historyObjects at named
        dsimp only at named
        cases found : catalog.historyChunks.mapM ids.get with
        | none =>
            rw [found] at named
            cases named
        | some objects =>
            rw [found] at named
            cases named
            exact (mapM_get_forall found).length_eq.symm
  rw [← many]
  exact Paired.replicate fun id member => twinObject (valid id member)

/-- The pages of a catalog hold its entries once in path order and its history behind them, and
registration moves none of their boundaries. -/
theorem pages_keep_layout {w : Workspace} {root : Option (SortedMap String Entry)}
    {history : Bytes} {basePaths : List String} {catalog : Catalog}
    (built : Catalog.build w root history basePaths = .ok catalog) :
    (∀ ids pages, catalog.pages ids = .ok pages → LaidOut catalog ids pages) ∧
    ∃ plain, catalog.pages none = .ok plain ∧
      (∀ ids registered, catalog.pages (some ids) = .ok registered →
        registered.map CheckpointPage.shape = plain.map CheckpointPage.shape) ∧
      ∀ ids, catalog.Registers ids → ∃ registered, catalog.pages (some ids) = .ok registered := by
  have coherent := Catalog.build_coherent built
  obtain ⟨plain, laid⟩ := Catalog.build_pages built
  obtain ⟨entries, layout, placeholders, matched, placed, unnamed, pages, few, passed⟩ :=
    pages_iff.mp laid
  rw [plain_entries matched] at placed
  have inside : ∀ one ∈ catalog.entries.entries, catalog.entries.get one.1 = some one.2 :=
    fun one member => (SortedMap.mem_entries_iff _ _ _).mp member
  refine ⟨fun ids others => coherent.laidOut, plain, laid, ?_, ?_⟩
  · intro ids registered done
    obtain ⟨named, after, objects, matches_, put, filled, same, -, valid⟩ := pages_iff.mp done
    obtain ⟨front, last, whole, behind, -⟩ :=
      ((Layout.sound_start.placeAll put).finish objects).history
    have valid_entries : ∀ entry ∈ named, ∀ id ∈ entry.objects, objectId id = true := by
      intro entry member
      rw [← laid_manifest put objects, ← same] at member
      obtain ⟨page, holds, listed⟩ := List.mem_flatMap.mp member
      exact entry_valid_objects ((page_valid_entries (valid page holds).1).2.1 entry listed)
    have valid_history : ∀ id ∈ objects, objectId id = true := by
      rw [← behind]
      apply (page_valid_entries (valid last _).1).2.2
      rw [same, whole]
      exact List.mem_append_right _ (List.mem_singleton_self _)
    obtain ⟨reached, goes, twins⟩ := TwinLayout.placeAll
      (twins_of coherent inside matches_ valid_entries) TwinLayout.start placed
    rw [put] at goes
    cases goes
    rw [same, pages]
    exact twins_shape (twins.finish (history_twins unnamed filled valid_history))
  · intro ids registers
    obtain ⟨named, matches_, twins⟩ := registered_all coherent registers inside
    obtain ⟨after, put, alike⟩ := TwinLayout.placeAll twins TwinLayout.start placed
    obtain ⟨objects, found, valid⟩ := mapM_get_total registers.history
    have filled : catalog.historyObjects (some ids) = .ok objects := by
      unfold Catalog.historyObjects
      dsimp only
      rw [found]
    have finished := alike.finish (history_twins unnamed filled valid)
    rw [← pages] at finished
    refine ⟨_, pages_iff.mpr ⟨named, after, objects, matches_, put, filled, rfl, ?_, ?_⟩⟩
    · rw [← finished.length_eq]
      exact few
    · intro page member
      obtain ⟨original, held, twin⟩ := Paired.exists_left finished member
      obtain ⟨good, short⟩ := passed original held
      exact ⟨twin.valid good, by rw [twin.bytes]; exact short⟩

theorem pages_keep_layout_abc : ∃ catalog plain,
    Catalog.build abcWorkspace (some abcInventory) [104, 105] ["old"] = .ok catalog ∧
    catalog.pages none = .ok plain ∧ LaidOut catalog none plain ∧
    ∀ ids registered, catalog.pages (some ids) = .ok registered →
      registered.map CheckpointPage.shape = plain.map CheckpointPage.shape := by
  have runs : (Catalog.build abcWorkspace (some abcInventory) [104, 105] ["old"]).isOk = true := by
    decide +kernel
  cases built : Catalog.build abcWorkspace (some abcInventory) [104, 105] ["old"] with
  | error refused =>
      rw [built] at runs
      cases runs
  | ok catalog =>
      obtain ⟨each, plain, laid, same, -⟩ := pages_keep_layout built
      exact ⟨catalog, plain, rfl, laid, each none plain laid, same⟩

end Agentsfleet.Recovery
