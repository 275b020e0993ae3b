import Agentsfleet.Core.Bounds
import Agentsfleet.Library.SortedMap
import Agentsfleet.Recovery.Manifest

/-!
# The capture's catalog

One inventory, read chunk by chunk, and the retained base's paths become the
entries of a manifest, and these its pages.  What a capture meets of the world
(cancellation, the bytes of a file, the digest) is the workspace's.
-/

set_option autoImplicit false

namespace Agentsfleet.Recovery

open Agentsfleet.Core
open Agentsfleet.Library

structure Identity where
  device : UInt64
  inode : UInt64
  size : UInt64
  modified : Int × Int
  changed : Int × Int
deriving DecidableEq

inductive Entry where
  | file (identity : Identity) (executable : Bool)
  | directory
  | symlink (target : String)
deriving DecidableEq

/-- `files::size`. -/
def Entry.size : Entry → UInt64
  | .file identity _ => identity.size
  | _ => 0

abbrev Bytes := List UInt8

structure Workspace where
  cancelledAt : String → Bool
  cancelledIn : String → Nat → Bool
  chunk : String → Identity → Nat → Option Bytes
  sha256Hex : Bytes → String

structure Descriptor where
  sha256 : String
  size : Nat
  kind : String
deriving DecidableEq

/-- Where a chunk is read again for its upload. -/
inductive Source where
  | file (path : String) (identity : Identity) (offset : Nat)
  | history (start stop : Nat)
deriving DecidableEq

structure Chunk where
  descriptor : Descriptor
  source : Source
deriving DecidableEq

structure Catalog where
  chunks : SortedMap String Chunk
  entries : SortedMap String CheckpointEntry
  fileChunks : SortedMap String (List String)
  historyChunks : List String
  logicalBytes : UInt64
  entryCount : Nat

inductive CatalogError where
  | historyBound
  | entryCountOverflow
  | cancelled
  | sizeOverflow
  | noWorkspace
  | unreadable
  | fileMappingAbsent
  | fileRegistrationIncomplete
  | historyRegistrationIncomplete
  | pageBound
  | invalidPage
  | entryExceedsPage
deriving DecidableEq

def placeholder : String := "00000000-0000-7000-8000-000000000000"
def maxHistory : Nat := 64 * 1024 * 1024
def chunkBytes : Nat := 8 * 1024 * 1024

/-- `u32::MAX`. -/
def maxEntryCount : Nat := 4294967295

/-- `MAX_ENTRIES`, which an inventory refuses to pass. -/
def maxEntries : Nat := 200000

def descriptor (w : Workspace) (bytes : Bytes) (kind : String) : Descriptor :=
  ⟨w.sha256Hex bytes, bytes.length, kind⟩

def Descriptor.key (descriptor : Descriptor) : String :=
  descriptor.kind ++ ":" ++ descriptor.sha256 ++ ":" ++ toString descriptor.size

/-- `(0..size).step_by(CHUNK)`. -/
def offsets (size : Nat) : List Nat :=
  let whole := size / chunkBytes
  (List.range (if size % chunkBytes = 0 then whole else whole + 1)).map (· * chunkBytes)

/-- `chunks.entry(key).or_insert_with`. -/
def keep (chunks : SortedMap String Chunk) (key : String) (chunk : Chunk) :
    SortedMap String Chunk :=
  if (chunks.get key).isSome then chunks else chunks.insert key chunk

/-! ## Building -/

/-- The loop of `Catalog::file`. -/
def fileKeys (w : Workspace) (path : String) (identity : Identity) :
    List Nat → SortedMap String Chunk →
      Except CatalogError (List String × SortedMap String Chunk)
  | [], chunks => .ok ([], chunks)
  | offset :: rest, chunks =>
      if w.cancelledIn path offset then .error .cancelled
      else
        match w.chunk path identity offset with
        | none => .error .unreadable
        | some bytes =>
            let descriptor := descriptor w bytes "file"
            match fileKeys w path identity rest
                (keep chunks descriptor.key ⟨descriptor, .file path identity offset⟩) with
            | .error refused => .error refused
            | .ok (keys, chunks) => .ok (descriptor.key :: keys, chunks)

def Catalog.add (w : Workspace) (rooted : Bool) (catalog : Catalog) (path : String)
    (entry : Entry) : Except CatalogError Catalog :=
  if w.cancelledAt path then .error .cancelled
  else
    match checkedAdd catalog.logicalBytes entry.size with
    | none => .error .sizeOverflow
    | some logicalBytes =>
        let catalog := { catalog with logicalBytes := logicalBytes }
        match entry with
        | .directory =>
            .ok { catalog with entries := catalog.entries.insert path (.directory path) }
        | .symlink target =>
            .ok { catalog with entries := catalog.entries.insert path (.symlink path target) }
        | .file identity executable =>
            if rooted = false then .error .noWorkspace
            else
              match fileKeys w path identity (offsets identity.size.toNat) catalog.chunks with
              | .error refused => .error refused
              | .ok (keys, chunks) =>
                  .ok { catalog with
                    chunks := chunks
                    entries := catalog.entries.insert path
                      (.file ⟨path, executable, identity.size,
                        List.replicate keys.length placeholder⟩)
                    fileChunks := catalog.fileChunks.insert path keys }

def Catalog.addAll (w : Workspace) (rooted : Bool) :
    List (String × Entry) → Catalog → Except CatalogError Catalog
  | [], catalog => .ok catalog
  | (path, entry) :: rest, catalog =>
      match catalog.add w rooted path entry with
      | .error refused => .error refused
      | .ok catalog => Catalog.addAll w rooted rest catalog

def removals (inventory : SortedMap String Entry) (basePaths : List String)
    (entries : SortedMap String CheckpointEntry) : SortedMap String CheckpointEntry :=
  basePaths.foldl (fun entries path =>
    if (inventory.get path).isSome then entries else entries.insert path (.remove path)) entries

def Catalog.addHistory (w : Workspace) (history : Bytes) (catalog : Catalog) : Catalog :=
  (offsets history.length).foldl (fun catalog start =>
    let bytes := (history.drop start).take chunkBytes
    let descriptor := descriptor w bytes "history"
    { catalog with
      chunks := keep catalog.chunks descriptor.key
        ⟨descriptor, .history start (start + bytes.length)⟩
      historyChunks := catalog.historyChunks ++ [descriptor.key] }) catalog

/-! ## Pages -/

def Catalog.registered (catalog : Catalog) (ids : Option (SortedMap String String))
    (path : String) : CheckpointEntry → Except CatalogError CheckpointEntry
  | .file content =>
      match ids with
      | none => .ok (.file content)
      | some ids =>
          match catalog.fileChunks.get path with
          | none => .error .fileMappingAbsent
          | some keys =>
              match keys.mapM ids.get with
              | none => .error .fileRegistrationIncomplete
              | some objects => .ok (.file { content with objects := objects })
  | entry => .ok entry

structure Layout where
  closed : List CheckpointPage
  page : CheckpointPage
  pageBytes : Nat

def Layout.start : Layout := ⟨[], ⟨0, [], []⟩, (CheckpointPage.mk 0 [] []).bytes⟩

def Layout.push (layout : Layout) (entry : CheckpointEntry) : Layout :=
  { layout with
    page := { layout.page with entries := layout.page.entries ++ [entry] }
    pageBytes :=
      layout.pageBytes + (if layout.page.entries.isEmpty then 0 else 1) + entry.bytes }

def Layout.place (layout : Layout) (entry : CheckpointEntry) : Except CatalogError Layout :=
  let separator := if layout.page.entries.isEmpty then 0 else 1
  if layout.page.entries.length = maxPageEntries ∨
      exceeds checkpointPageBytes (layout.pageBytes + separator + entry.bytes) then
    if layout.page.entries.isEmpty ∨ layout.closed.length + 1 = checkpointPages then
      .error .pageBound
    else
      let page : CheckpointPage := ⟨layout.closed.length + 1, [], []⟩
      .ok (Layout.push ⟨layout.closed ++ [layout.page], page, page.bytes⟩ entry)
  else .ok (layout.push entry)

def Catalog.layEntries (catalog : Catalog) (ids : Option (SortedMap String String)) :
    List (String × CheckpointEntry) → Layout → Except CatalogError Layout
  | [], layout => .ok layout
  | (path, original) :: rest, layout =>
      match catalog.registered ids path original with
      | .error refused => .error refused
      | .ok entry =>
          match layout.place entry with
          | .error refused => .error refused
          | .ok layout => catalog.layEntries ids rest layout

def Catalog.historyObjects (catalog : Catalog) (ids : Option (SortedMap String String)) :
    Except CatalogError (List String) :=
  match ids with
  | none => .ok (catalog.historyChunks.map fun _ => placeholder)
  | some ids =>
      match catalog.historyChunks.mapM ids.get with
      | none => .error .historyRegistrationIncomplete
      | some objects => .ok objects

def Layout.finish (layout : Layout) (history : List String) : List CheckpointPage :=
  let page : CheckpointPage := { layout.page with historyObjects := history }
  if exceeds checkpointPageBytes page.bytes then
    layout.closed ++ [layout.page, ⟨layout.closed.length + 1, [], history⟩]
  else layout.closed ++ [page]

def checkPages : List CheckpointPage → Except CatalogError Unit
  | [] => .ok ()
  | page :: rest =>
      if page.valid = false then .error .invalidPage
      else if exceeds checkpointPageBytes page.bytes then .error .entryExceedsPage
      else checkPages rest

/-- `Catalog::pages`. -/
def Catalog.pages (catalog : Catalog) (ids : Option (SortedMap String String)) :
    Except CatalogError (List CheckpointPage) := do
  let layout ← catalog.layEntries ids catalog.entries.entries Layout.start
  let history ← catalog.historyObjects ids
  let pages := layout.finish history
  if exceeds checkpointPages pages.length then .error .pageBound
  else do
    checkPages pages
    .ok pages

/-- `Catalog::build`, of the inventory its root gave, if it has one. -/
def Catalog.build (w : Workspace) (root : Option (SortedMap String Entry)) (history : Bytes)
    (basePaths : List String) : Except CatalogError Catalog :=
  if exceeds maxHistory history.length then .error .historyBound
  else
    let inventory := root.getD SortedMap.empty
    if exceeds maxEntryCount inventory.size then .error .entryCountOverflow
    else do
      let catalog ← Catalog.addAll w root.isSome inventory.entries
        ⟨SortedMap.empty, SortedMap.empty, SortedMap.empty, [], 0, inventory.size⟩
      let catalog := { catalog with entries := removals inventory basePaths catalog.entries }
      let catalog := catalog.addHistory w history
      let _ ← catalog.pages none
      .ok catalog

/-! ## What a build holds -/

def Workspace.keys (w : Workspace) (path : String) (identity : Identity) (chunks : List Nat) :
    Option (List String) :=
  chunks.mapM fun offset =>
    (w.chunk path identity offset).map fun bytes => (descriptor w bytes "file").key

def Catalog.Holds (w : Workspace) (catalog : Catalog) (path : String) : Entry → Prop
  | .directory => catalog.entries.get path = some (.directory path)
  | .symlink target => catalog.entries.get path = some (.symlink path target)
  | .file identity executable =>
      ∃ keys, w.keys path identity (offsets identity.size.toNat) = some keys ∧
        catalog.fileChunks.get path = some keys ∧
        catalog.entries.get path = some
          (.file ⟨path, executable, identity.size, List.replicate keys.length placeholder⟩)

def Catalog.SameAt (before after : Catalog) (path : String) : Prop :=
  after.entries.get path = before.entries.get path ∧
    after.fileChunks.get path = before.fileChunks.get path

section Build

variable {w : Workspace} {rooted : Bool} {catalog next : Catalog} {path : String}

theorem Catalog.Holds.same {entry : Entry} (holds : catalog.Holds w path entry)
    (same : catalog.SameAt next path) : next.Holds w path entry := by
  cases entry with
  | directory => exact same.1.trans holds
  | symlink target => exact same.1.trans holds
  | file identity executable =>
      obtain ⟨keys, read, mapped, held⟩ := holds
      exact ⟨keys, read, same.2.trans mapped, same.1.trans held⟩

theorem fileKeys_spec {identity : Identity} {chunks : List Nat}
    {before after : SortedMap String Chunk} {keys : List String}
    (read : fileKeys w path identity chunks before = .ok (keys, after)) :
    w.keys path identity chunks = some keys := by
  induction chunks generalizing before keys after with
  | nil =>
      simp only [fileKeys, Except.ok.injEq, Prod.mk.injEq] at read
      rw [← read.1]
      rfl
  | cons offset rest ih =>
      unfold fileKeys at read
      by_cases cancelled : w.cancelledIn path offset = true
      · simp [cancelled] at read
      · rw [if_neg cancelled] at read
        cases taken : w.chunk path identity offset with
        | none => simp [taken] at read
        | some bytes =>
            simp only [taken] at read
            cases others : fileKeys w path identity rest
                (keep before (descriptor w bytes "file").key
                  ⟨descriptor w bytes "file", .file path identity offset⟩) with
            | error refused => simp [others] at read
            | ok found =>
                obtain ⟨later, chunks⟩ := found
                simp only [others, Except.ok.injEq, Prod.mk.injEq] at read
                have tail := ih others
                rw [Workspace.keys] at tail ⊢
                rw [List.mapM_cons, taken, tail, ← read.1]
                rfl

theorem Catalog.add_spec {entry : Entry} (added : catalog.add w rooted path entry = .ok next) :
    next.Holds w path entry ∧ ∀ other, other ≠ path → catalog.SameAt next other := by
  unfold Catalog.add at added
  by_cases cancelled : w.cancelledAt path = true
  · rw [if_pos cancelled] at added
    exact nomatch added
  · rw [if_neg cancelled] at added
    cases summed : checkedAdd catalog.logicalBytes entry.size with
    | none => simp [summed] at added
    | some logicalBytes =>
      simp only [summed] at added
      cases entry with
      | directory =>
          simp only [Except.ok.injEq] at added
          subst added
          exact ⟨by simp [Catalog.Holds], fun other apart => by simp [Catalog.SameAt, apart]⟩
      | symlink target =>
          simp only [Except.ok.injEq] at added
          subst added
          exact ⟨by simp [Catalog.Holds], fun other apart => by simp [Catalog.SameAt, apart]⟩
      | file identity executable =>
          simp only at added
          by_cases loose : rooted = false
          · rw [if_pos loose] at added
            exact nomatch added
          · rw [if_neg loose] at added
            cases read : fileKeys w path identity (offsets identity.size.toNat)
                catalog.chunks with
            | error refused => simp [read] at added
            | ok found =>
                obtain ⟨keys, chunks⟩ := found
                simp only [read, Except.ok.injEq] at added
                subst added
                refine ⟨⟨keys, fileKeys_spec read, by simp, by simp⟩, ?_⟩
                intro other apart
                simp [Catalog.SameAt, apart]

theorem Catalog.addAll_spec {entries : List (String × Entry)}
    (apart : (entries.map Prod.fst).Nodup)
    (added : Catalog.addAll w rooted entries catalog = .ok next) :
    (∀ held ∈ entries, next.Holds w held.1 held.2) ∧
      ∀ other ∉ entries.map Prod.fst, catalog.SameAt next other := by
  induction entries generalizing catalog with
  | nil =>
      simp only [Catalog.addAll, Except.ok.injEq] at added
      subst added
      exact ⟨by simp, fun _ _ => ⟨rfl, rfl⟩⟩
  | cons held rest ih =>
      obtain ⟨path, entry⟩ := held
      rw [List.map_cons, List.nodup_cons] at apart
      unfold Catalog.addAll at added
      cases first : catalog.add w rooted path entry with
      | error refused => simp [first] at added
      | ok between =>
          simp only [first] at added
          obtain ⟨holds, others⟩ := Catalog.add_spec first
          obtain ⟨later, same⟩ := ih apart.2 added
          constructor
          · intro member inside
            rcases List.mem_cons.mp inside with rfl | after
            · exact holds.same (same path apart.1)
            · exact later member after
          · intro other outside
            rw [List.map_cons, List.mem_cons, not_or] at outside
            obtain ⟨kept, mapped⟩ := others other outside.1
            obtain ⟨kept_after, mapped_after⟩ := same other outside.2
            exact ⟨kept_after.trans kept, mapped_after.trans mapped⟩

theorem removals_get (inventory : SortedMap String Entry) (basePaths : List String)
    (entries : SortedMap String CheckpointEntry) (path : String) :
    (removals inventory basePaths entries).get path =
      if inventory.get path = none ∧ path ∈ basePaths then some (.remove path)
      else entries.get path := by
  unfold removals
  induction basePaths generalizing entries with
  | nil => simp
  | cons base rest ih =>
      rw [List.foldl_cons, ih]
      by_cases gone : inventory.get path = none
      · by_cases same : path = base
        · subst same
          simp [gone]
        · by_cases later : path ∈ rest
          · simp [gone, later]
          · cases held : inventory.get base with
            | none => simp [gone, later, same]
            | some entry => simp [gone, later, same]
      · cases held : inventory.get base with
        | some entry => simp [gone]
        | none =>
            have apart : path ≠ base := fun same => gone (same ▸ held)
            simp [gone, apart]

theorem Catalog.addHistory_same (w : Workspace) (catalog : Catalog) (history : Bytes)
    (path : String) : catalog.SameAt (catalog.addHistory w history) path := by
  unfold Catalog.addHistory
  generalize offsets history.length = starts
  induction starts generalizing catalog with
  | nil => exact ⟨rfl, rfl⟩
  | cons start rest ih =>
      rw [List.foldl_cons]
      exact ih _

theorem Catalog.build_spec {root : Option (SortedMap String Entry)} {history : Bytes}
    {basePaths : List String} (built : Catalog.build w root history basePaths = .ok catalog) :
    (∀ path entry, (root.getD SortedMap.empty).get path = some entry →
      catalog.Holds w path entry) ∧
    ∀ path, (root.getD SortedMap.empty).get path = none →
      catalog.entries.get path = if path ∈ basePaths then some (.remove path) else none := by
  unfold Catalog.build at built
  by_cases long : exceeds maxHistory history.length = true
  · rw [if_pos long] at built
    exact nomatch built
  · rw [if_neg long] at built
    by_cases many : exceeds maxEntryCount (root.getD SortedMap.empty).size = true
    · rw [if_pos many] at built
      exact nomatch built
    · rw [if_neg many] at built
      generalize root.getD SortedMap.empty = inventory at *
      obtain ⟨first, added, rest⟩ := bind_eq_ok.mp built
      obtain ⟨pages, _, done⟩ := bind_eq_ok.mp rest
      rw [Except.ok.injEq] at done
      obtain ⟨held, same⟩ := Catalog.addAll_spec inventory.keys_nodup added
      have kept := fun path => Catalog.addHistory_same w
        { first with entries := removals inventory basePaths first.entries } history path
      rw [done] at kept
      constructor
      · intro path entry found
        have listed := (SortedMap.mem_entries_iff _ _ _).mpr found
        apply ((held _ listed).same ?_).same (kept path)
        exact ⟨by rw [removals_get]; simp [found], rfl⟩
      · intro path missing
        have outside : path ∉ inventory.entries.map Prod.fst := by
          intro inside
          have found := (inventory.mem_keys_iff path).mp inside
          rw [missing] at found
          simp at found
        rw [(kept path).1, removals_get, (same path outside).1]
        simp [missing]

end Build

/-! ## What the pages hold -/

def Layout.laid (layout : Layout) : List CheckpointEntry :=
  manifest layout.closed ++ layout.page.entries

theorem Layout.place_laid {layout next : Layout} {entry : CheckpointEntry}
    (placed : layout.place entry = .ok next) : next.laid = layout.laid ++ [entry] := by
  unfold Layout.place at placed
  by_cases full : layout.page.entries.length = maxPageEntries ∨ exceeds checkpointPageBytes
      (layout.pageBytes + (if layout.page.entries.isEmpty then 0 else 1) + entry.bytes) = true
  · rw [if_pos full] at placed
    by_cases last : layout.page.entries.isEmpty ∨ layout.closed.length + 1 = checkpointPages
    · rw [if_pos last] at placed
      exact nomatch placed
    · rw [if_neg last, Except.ok.injEq] at placed
      subst placed
      simp [Layout.laid, Layout.push, manifest]
  · rw [if_neg full, Except.ok.injEq] at placed
    subst placed
    simp [Layout.laid, Layout.push]

theorem Catalog.layEntries_laid {catalog : Catalog} {ids : Option (SortedMap String String)}
    {held : List (String × CheckpointEntry)} {layout next : Layout}
    (laid : catalog.layEntries ids held layout = .ok next) :
    ∃ entries, List.Forall₂ (fun original entry =>
        catalog.registered ids original.1 original.2 = .ok entry) held entries ∧
      next.laid = layout.laid ++ entries := by
  induction held generalizing layout with
  | nil =>
      simp only [Catalog.layEntries, Except.ok.injEq] at laid
      subst laid
      exact ⟨[], .nil, by simp⟩
  | cons first rest ih =>
      obtain ⟨path, original⟩ := first
      unfold Catalog.layEntries at laid
      cases named : catalog.registered ids path original with
      | error refused => simp [named] at laid
      | ok entry =>
          cases placed : layout.place entry with
          | error refused => simp [named, placed] at laid
          | ok between =>
              simp only [named, placed] at laid
              obtain ⟨entries, matched, whole⟩ := ih laid
              refine ⟨entry :: entries, .cons named matched, ?_⟩
              rw [whole, Layout.place_laid placed, List.append_assoc]
              rfl

theorem Layout.finish_manifest (layout : Layout) (history : List String) :
    manifest (layout.finish history) = layout.laid := by
  unfold Layout.finish
  simp only
  split
  · simp [manifest, Layout.laid]
  · simp [manifest, Layout.laid]

theorem Catalog.pages_manifest {catalog : Catalog} {ids : Option (SortedMap String String)}
    {pages : List CheckpointPage} (laid : catalog.pages ids = .ok pages) :
    List.Forall₂ (fun original entry => catalog.registered ids original.1 original.2 = .ok entry)
      catalog.entries.entries (manifest pages) := by
  unfold Catalog.pages at laid
  obtain ⟨layout, placed, rest⟩ := bind_eq_ok.mp laid
  obtain ⟨history, _, rest⟩ := bind_eq_ok.mp rest
  by_cases many : exceeds checkpointPages (layout.finish history).length = true
  · rw [if_pos many] at rest
    exact nomatch rest
  · rw [if_neg many] at rest
    obtain ⟨_, _, done⟩ := bind_eq_ok.mp rest
    rw [Except.ok.injEq] at done
    obtain ⟨entries, matched, whole⟩ := Catalog.layEntries_laid placed
    rw [← done, Layout.finish_manifest, whole]
    simpa [Layout.laid, Layout.start, manifest] using matched

end Agentsfleet.Recovery
