import Agentsfleet.Library.Paired
import Agentsfleet.Recovery.Catalog
import Agentsfleet.Recovery.Tree

/-!
# Capture, then restore

A restore folds manifest pages over the retained base as the daemon does; both
end at the inventory the catalog was built from.
-/

set_option autoImplicit false

namespace Agentsfleet.Recovery

open Agentsfleet.Core
open Agentsfleet.Library

inductive RestoreError where
  | unordered
  | overlayBound
deriving DecidableEq

/-- `overlay`: the entry applied to those restored so far. -/
def overlay (entries : SortedMap String CheckpointEntry) (entry : CheckpointEntry) :
    Except RestoreError (SortedMap String CheckpointEntry) :=
  let entries :=
    match entry with
    | .remove path => Tree.prune entries path
    | entry => entries.insert entry.path entry
  if exceeds maxNodes entries.size then .error .overlayBound else .ok entries

def follows (previous : Option String) (path : String) : Bool :=
  match previous with
  | none => true
  | some last => last < path

def restoreEntries : List CheckpointEntry → Option String → SortedMap String CheckpointEntry →
    Except RestoreError (SortedMap String CheckpointEntry)
  | [], _, entries => .ok entries
  | entry :: rest, previous, entries =>
      if follows previous entry.path = false then .error .unordered
      else
        match overlay entries entry with
        | .error refused => .error refused
        | .ok entries => restoreEntries rest (some entry.path) entries

def Tree.applyEntries : List CheckpointEntry → Option String → Tree → Except TaskRefusal Tree
  | [], _, tree => .ok tree
  | entry :: rest, previous, tree =>
      if follows previous entry.path = false then .error .checkpointIncompatible
      else
        match tree.apply entry with
        | .error refused => .error refused
        | .ok tree => Tree.applyEntries rest (some entry.path) tree

/-! ## One entry -/

def CheckpointEntry.node : CheckpointEntry → Node
  | .file content => ⟨false, content.size, none⟩
  | .directory _ => ⟨true, 0, none⟩
  | .symlink _ target => ⟨false, 0, some target⟩
  -- Never held: a removal leaves no entry behind.
  | .remove _ => ⟨false, 0, none⟩

def treeOf (entries : SortedMap String CheckpointEntry) : Tree := ⟨entries.map CheckpointEntry.node⟩

section Prune

variable {V W : Type} (nodes : SortedMap String V)

theorem Tree.get_prune (path other : String) :
    (Tree.prune nodes path).get other =
      if other = path ∨ isBelow path other = true then none else nodes.get other := by
  unfold Tree.prune Tree.below
  rw [SortedMap.get_foldl_remove]
  have found := SortedMap.mem_takeWhile_keysFrom (nodes.remove path) (path ++ "/")
    (isBelow_least path) (isBelow_closed path) other
  simp only [found, SortedMap.get_remove, SortedMap.mem_keys_iff]
  by_cases same : other = path
  · simp [same]
  · by_cases inside : isBelow path other = true
    · cases held : nodes.get other with
      | none => simp [same, inside]
      | some value => simp [same, inside]
    · simp [same, inside]

theorem Tree.size_prune_le (path : String) : (Tree.prune nodes path).size ≤ nodes.size :=
  (SortedMap.size_foldl_remove_le _ _).trans (SortedMap.size_retain_le _ _)

theorem Tree.map_prune (change : V → W) (path : String) :
    (Tree.prune nodes path).map change = Tree.prune (nodes.map change) path := by
  apply SortedMap.ext_get
  intro other
  rw [SortedMap.get_map, Tree.get_prune, Tree.get_prune, SortedMap.get_map]
  split
  · rfl
  · rfl

end Prune

theorem apply_treeOf {entries next : SortedMap String CheckpointEntry} {entry : CheckpointEntry}
    (overlaid : overlay entries entry = .ok next) :
    (treeOf entries).apply entry = .ok (treeOf next) := by
  have put : ∀ (node : Node), entry.node = node →
      overlay entries entry =
        (if exceeds maxNodes (entries.insert entry.path entry).size then .error .overlayBound
        else .ok (entries.insert entry.path entry)) →
      (treeOf entries).put entry.path node = .ok (treeOf next) := by
    intro node same step
    rw [step] at overlaid
    unfold Tree.put
    have inserted : (treeOf entries).nodes.insert entry.path node =
        (entries.insert entry.path entry).map CheckpointEntry.node := by
      rw [SortedMap.map_insert, same]
      rfl
    simp only [inserted, SortedMap.size_map]
    split at overlaid
    · exact nomatch overlaid
    · rename_i room
      rw [Except.ok.injEq] at overlaid
      rw [if_neg room, ← overlaid]
      rfl
  cases entry with
  | file content => exact put _ rfl rfl
  | directory path => exact put _ rfl rfl
  | symlink path target => exact put _ rfl rfl
  | remove path =>
      simp only [overlay] at overlaid
      split at overlaid
      · exact nomatch overlaid
      · rw [Except.ok.injEq] at overlaid
        rw [← overlaid, Tree.apply, treeOf, treeOf, Tree.map_prune]

theorem applyEntries_treeOf {manifest : List CheckpointEntry} {previous : Option String}
    {entries next : SortedMap String CheckpointEntry}
    (restored : restoreEntries manifest previous entries = .ok next) :
    Tree.applyEntries manifest previous (treeOf entries) = .ok (treeOf next) := by
  induction manifest generalizing previous entries with
  | nil =>
      simp only [restoreEntries, Except.ok.injEq] at restored
      rw [Tree.applyEntries, restored]
  | cons entry rest ih =>
      unfold restoreEntries at restored
      unfold Tree.applyEntries
      by_cases order : follows previous entry.path = false
      · rw [if_pos order] at restored
        exact nomatch restored
      · rw [if_neg order] at restored ⊢
        cases overlaid : overlay entries entry with
        | error refused => simp [overlaid] at restored
        | ok after =>
            simp only [overlaid] at restored
            simp only [apply_treeOf overlaid]
            exact ih restored

/-! ## A whole manifest -/

/-- An entry says of its path, and a removal of everything below it, what
`wanted` holds there. -/
def Agrees (wanted : SortedMap String CheckpointEntry) : CheckpointEntry → Prop
  | .remove path => ∀ other, other = path ∨ isBelow path other = true → wanted.get other = none
  | entry => wanted.get entry.path = some entry

def CheckpointEntry.isPut : CheckpointEntry → Bool
  | .remove _ => false
  | _ => true

theorem overlay_step {wanted entries : SortedMap String CheckpointEntry} {entry : CheckpointEntry}
    {rest : List CheckpointEntry} (agrees : Agrees wanted entry)
    (covered : ∀ path, entries.get path = wanted.get path ∨
      ∃ later ∈ entry :: rest, later.path = path)
    (room : entries.size + (entry :: rest).countP CheckpointEntry.isPut ≤ maxNodes) :
    ∃ next, overlay entries entry = .ok next ∧
      (∀ path, next.get path = wanted.get path ∨ ∃ later ∈ rest, later.path = path) ∧
        next.size + rest.countP CheckpointEntry.isPut ≤ maxNodes := by
  have later : ∀ path, path ≠ entry.path → entries.get path = wanted.get path ∨
      ∃ later ∈ rest, later.path = path := by
    intro path apart
    rcases covered path with same | ⟨other, member, named⟩
    · exact .inl same
    · rcases List.mem_cons.mp member with rfl | after
      · exact absurd named (Ne.symm apart)
      · exact .inr ⟨other, after, named⟩
  have put : entry.isPut = true → wanted.get entry.path = some entry →
      overlay entries entry =
        (if exceeds maxNodes (entries.insert entry.path entry).size then .error .overlayBound
        else .ok (entries.insert entry.path entry)) →
      ∃ next, overlay entries entry = .ok next ∧
        (∀ path, next.get path = wanted.get path ∨ ∃ later ∈ rest, later.path = path) ∧
          next.size + rest.countP CheckpointEntry.isPut ≤ maxNodes := by
    intro puts held step
    have grown := entries.size_insert_le entry.path entry
    rw [List.countP_cons_of_pos puts] at room
    refine ⟨entries.insert entry.path entry, ?_, ?_, by omega⟩
    · rw [step, if_neg]
      rw [exceeds_iff]
      omega
    · intro path
      rw [SortedMap.get_insert]
      by_cases same : path = entry.path
      · rw [if_pos same, same]
        exact .inl held.symm
      · rw [if_neg same]
        exact later path same
  cases entry with
  | file content => exact put rfl agrees rfl
  | directory path => exact put rfl agrees rfl
  | symlink path target => exact put rfl agrees rfl
  | remove path =>
      rw [List.countP_cons_of_neg (by simp [CheckpointEntry.isPut])] at room
      have fewer := Tree.size_prune_le entries path
      refine ⟨Tree.prune entries path, ?_, ?_, by omega⟩
      · simp only [overlay]
        rw [if_neg]
        rw [exceeds_iff]
        omega
      · intro other
        rw [Tree.get_prune]
        by_cases removed : other = path ∨ isBelow path other = true
        · rw [if_pos removed]
          exact .inl (agrees other removed).symm
        · rw [if_neg removed]
          exact later other fun same => removed (.inl same)

/-- A manifest that agrees with `wanted` everywhere, and names every path that
differs, ends there. -/
theorem restoreEntries_wanted {wanted : SortedMap String CheckpointEntry}
    {manifest : List CheckpointEntry} {previous : Option String}
    {entries : SortedMap String CheckpointEntry}
    (sorted : (manifest.map CheckpointEntry.path).Pairwise (· < ·))
    (after : ∀ entry ∈ manifest, follows previous entry.path = true)
    (agrees : ∀ entry ∈ manifest, Agrees wanted entry)
    (covered : ∀ path, entries.get path = wanted.get path ∨
      ∃ later ∈ manifest, later.path = path)
    (room : entries.size + manifest.countP CheckpointEntry.isPut ≤ maxNodes) :
    restoreEntries manifest previous entries = .ok wanted := by
  induction manifest generalizing previous entries with
  | nil =>
      have same : entries = wanted := by
        apply SortedMap.ext_get
        intro path
        rcases covered path with same | ⟨later, member, _⟩
        · exact same
        · simp at member
      rw [restoreEntries, same]
  | cons entry rest ih =>
      rw [List.map_cons, List.pairwise_cons] at sorted
      obtain ⟨next, overlaid, covered_next, room_next⟩ :=
        overlay_step (agrees entry (by simp)) covered room
      unfold restoreEntries
      rw [after entry (by simp), overlaid]
      simp only [Bool.true_eq_false, if_false]
      apply ih sorted.2
      · intro later member
        simpa [follows] using sorted.1 _ (List.mem_map_of_mem member)
      · exact fun later member => agrees later (by simp [member])
      · exact covered_next
      · exact room_next

/-! ## What a capture records -/

/-- The entry a capture makes of the inventory's, once its chunks are registered. -/
def Workspace.recorded (w : Workspace) (ids : SortedMap String String) (path : String) :
    Entry → Option CheckpointEntry
  | .directory => some (.directory path)
  | .symlink target => some (.symlink path target)
  | .file identity executable =>
      match w.keys path identity (offsets identity.size.toNat) with
      | none => none
      | some keys =>
          (keys.mapM ids.get).map fun objects =>
            .file ⟨path, executable, identity.size, objects⟩

def Entry.node : Entry → Node
  | .directory => ⟨true, 0, none⟩
  | .symlink target => ⟨false, 0, some target⟩
  | .file identity _ => ⟨false, identity.size, none⟩

theorem Workspace.recorded_spec {w : Workspace} {ids : SortedMap String String} {path : String}
    {entry : Entry} {made : CheckpointEntry} (recorded : w.recorded ids path entry = some made) :
    made.path = path ∧ made.isPut = true ∧ made.node = entry.node := by
  cases entry with
  | directory =>
      cases recorded
      exact ⟨rfl, rfl, rfl⟩
  | symlink target =>
      cases recorded
      exact ⟨rfl, rfl, rfl⟩
  | file identity executable =>
      unfold Workspace.recorded at recorded
      cases keyed : w.keys path identity (offsets identity.size.toNat) with
      | none => simp [keyed] at recorded
      | some keys =>
          simp only [keyed] at recorded
          obtain ⟨objects, _, rfl⟩ := Option.map_eq_some_iff.mp recorded
          exact ⟨rfl, rfl, rfl⟩

theorem Catalog.Holds.registered {w : Workspace} {catalog : Catalog}
    {ids : SortedMap String String} {path : String} {entry : Entry}
    (holds : catalog.Holds w path entry) {original made : CheckpointEntry}
    (held : catalog.entries.get path = some original)
    (registered : catalog.registered (some ids) path original = .ok made) :
    w.recorded ids path entry = some made := by
  cases entry with
  | directory =>
      rw [Catalog.Holds, held, Option.some.injEq] at holds
      subst holds
      simpa [Catalog.registered, Workspace.recorded] using registered
  | symlink target =>
      rw [Catalog.Holds, held, Option.some.injEq] at holds
      subst holds
      simpa [Catalog.registered, Workspace.recorded] using registered
  | file identity executable =>
      obtain ⟨keys, read, mapped, found⟩ := holds
      rw [held, Option.some.injEq] at found
      subst found
      simp only [Catalog.registered, mapped] at registered
      unfold Workspace.recorded
      simp only [read]
      cases named : keys.mapM ids.get with
      | none => simp [named] at registered
      | some objects =>
          simp only [named, Except.ok.injEq] at registered
          simp [← registered]

theorem CheckpointEntry.agrees_of_put {wanted : SortedMap String CheckpointEntry}
    {entry : CheckpointEntry} (puts : entry.isPut = true)
    (held : wanted.get entry.path = some entry) : Agrees wanted entry := by
  cases entry with
  | file content => exact held
  | directory path => exact held
  | symlink path target => exact held
  | remove path => simp [CheckpointEntry.isPut] at puts

def Parents (inventory : SortedMap String Entry) : Prop :=
  ∀ path entry, inventory.get path = some entry → ∀ top ∈ ancestors path,
    inventory.get top = some .directory

/-! ## What a catalog's pages hold -/

section Pages

variable {w : Workspace} {root : Option (SortedMap String Entry)} {history : Bytes}
  {base : SortedMap String CheckpointEntry} {ids : SortedMap String String} {catalog : Catalog}
  {pages : List CheckpointPage}

/-- One entry of the pages: the recorded one of an inventory's path, or the
removal of a base path the inventory does not hold. -/
theorem Catalog.laid_spec (built : Catalog.build w root history base.keys = .ok catalog)
    {path : String} {original made : CheckpointEntry}
    (held : catalog.entries.get path = some original)
    (registered : catalog.registered (some ids) path original = .ok made) :
    (∃ entry, (root.getD SortedMap.empty).get path = some entry ∧
      w.recorded ids path entry = some made) ∨
    (root.getD SortedMap.empty).get path = none ∧ path ∈ base.keys ∧ made = .remove path := by
  obtain ⟨holds, others⟩ := Catalog.build_spec built
  cases found : (root.getD SortedMap.empty).get path with
  | some entry => exact .inl ⟨entry, rfl, (holds path entry found).registered held registered⟩
  | none =>
      rw [others path found] at held
      by_cases based : path ∈ base.keys
      · rw [if_pos based, Option.some.injEq] at held
        subst held
        cases registered
        exact .inr ⟨rfl, based, rfl⟩
      · rw [if_neg based] at held
        exact nomatch held

theorem Catalog.build_covers (built : Catalog.build w root history base.keys = .ok catalog)
    {path : String} (known : (root.getD SortedMap.empty).get path ≠ none ∨ path ∈ base.keys) :
    ∃ original, catalog.entries.get path = some original := by
  obtain ⟨holds, others⟩ := Catalog.build_spec built
  cases found : (root.getD SortedMap.empty).get path with
  | some entry =>
      have here := holds path entry found
      cases entry with
      | directory => exact ⟨_, here⟩
      | symlink target => exact ⟨_, here⟩
      | file identity executable =>
          obtain ⟨_, _, _, held⟩ := here
          exact ⟨_, held⟩
  | none =>
      have based : path ∈ base.keys := by
        rcases known with held | based
        · exact absurd found held
        · exact based
      exact ⟨_, (others path found).trans (if_pos based)⟩

theorem Catalog.laid_paths (built : Catalog.build w root history base.keys = .ok catalog)
    (laid : catalog.pages (some ids) = .ok pages) :
    (manifest pages).map CheckpointEntry.path = catalog.entries.keys := by
  have matched := Catalog.pages_manifest laid
  have each : ∀ held ∈ catalog.entries.entries, ∀ made,
      catalog.registered (some ids) held.1 held.2 = .ok made → made.path = held.1 := by
    intro held member made registered
    have found := (SortedMap.mem_entries_iff _ _ _).mp member
    rcases Catalog.laid_spec built found registered with ⟨entry, _, recorded⟩ | ⟨_, _, rfl⟩
    · exact (Workspace.recorded_spec recorded).1
    · rfl
  exact Paired.map_eq each matched

theorem Catalog.countP_isPut_le (built : Catalog.build w root history base.keys = .ok catalog)
    (laid : catalog.pages (some ids) = .ok pages) :
    (manifest pages).countP CheckpointEntry.isPut ≤ (root.getD SortedMap.empty).size := by
  have matched := Catalog.pages_manifest laid
  have apart : ((manifest pages).map CheckpointEntry.path).Nodup := by
    rw [Catalog.laid_paths built laid]
    exact catalog.entries.keys_nodup
  rw [List.countP_eq_length_filter, SortedMap.size,
    ← List.length_map CheckpointEntry.path, ← List.length_map Prod.fst]
  apply List.Subperm.length_le
  apply List.Nodup.subperm
  · exact apart.sublist (List.filter_sublist.map _)
  · intro path member
    obtain ⟨made, kept, rfl⟩ := List.mem_map.mp member
    obtain ⟨inside, puts⟩ := List.mem_filter.mp kept
    obtain ⟨held, listed, registered⟩ := Paired.exists_left matched inside
    have found := (SortedMap.mem_entries_iff _ _ _).mp listed
    rcases Catalog.laid_spec built found registered with ⟨entry, there, recorded⟩ | ⟨_, _, rfl⟩
    · rw [(Workspace.recorded_spec recorded).1]
      exact ((SortedMap.mem_keys_iff _ _).mpr (by rw [there]; rfl))
    · simp [CheckpointEntry.isPut] at puts

end Pages

/-- Capture, then restore: the pages of a catalog, folded over the retained base
by the restore and by the daemon, end at the inventory's own entries. -/
theorem capture_restore (w : Workspace) (root : Option (SortedMap String Entry)) (history : Bytes)
    (baseManifest : List CheckpointEntry) (base : SortedMap String CheckpointEntry)
    (ids : SortedMap String String) (catalog : Catalog) (pages : List CheckpointPage)
    (parents : Parents (root.getD SortedMap.empty))
    (bounded : (root.getD SortedMap.empty).size ≤ maxEntries)
    (retained : restoreEntries baseManifest none SortedMap.empty = .ok base)
    (base_bounded : base.size ≤ maxEntries)
    (built : Catalog.build w root history base.keys = .ok catalog)
    (laid : catalog.pages (some ids) = .ok pages) :
    ∃ restored baseTree tree,
      restoreEntries (manifest pages) none base = .ok restored ∧
      (∀ path, restored.get path =
        ((root.getD SortedMap.empty).get path).bind (w.recorded ids path)) ∧
      (∀ path, (restored.get path).isSome = ((root.getD SortedMap.empty).get path).isSome) ∧
      Tree.applyEntries baseManifest none ⟨SortedMap.empty⟩ = .ok baseTree ∧
      Tree.applyEntries (manifest pages) none baseTree = .ok tree ∧
      ∀ path, tree.nodes.get path = ((root.getD SortedMap.empty).get path).map Entry.node := by
  have matched := Catalog.pages_manifest laid
  let wanted := (root.getD SortedMap.empty).filterMap (w.recorded ids)
  have wanted_get : ∀ path, wanted.get path =
      ((root.getD SortedMap.empty).get path).bind (w.recorded ids path) := by
    intro path
    exact SortedMap.get_filterMap _ _ path
  have sorted : ((manifest pages).map CheckpointEntry.path).Pairwise (· < ·) := by
    rw [Catalog.laid_paths built laid]
    exact catalog.entries.keys_ascending
  have agrees : ∀ entry ∈ manifest pages, Agrees wanted entry := by
    intro made member
    obtain ⟨held, listed, registered⟩ := Paired.exists_left matched member
    have found := (SortedMap.mem_entries_iff _ _ _).mp listed
    rcases Catalog.laid_spec built found registered with ⟨entry, there, recorded⟩ | ⟨gone, _, rfl⟩
    · obtain ⟨named, puts, _⟩ := Workspace.recorded_spec recorded
      apply CheckpointEntry.agrees_of_put puts
      rw [named, wanted_get, there]
      exact recorded
    · intro other removed
      rw [wanted_get]
      rcases removed with rfl | below
      · rw [gone, Option.bind_none]
      · cases there : (root.getD SortedMap.empty).get other with
        | none => rfl
        | some entry =>
            have parent := parents other entry there held.1 (mem_ancestors_iff.mpr below)
            rw [gone] at parent
            exact nomatch parent
  have covered : ∀ path, base.get path = wanted.get path ∨
      ∃ later ∈ manifest pages, later.path = path := by
    intro path
    by_cases known : (root.getD SortedMap.empty).get path ≠ none ∨ path ∈ base.keys
    · obtain ⟨original, held⟩ := Catalog.build_covers built known
      have named : path ∈ (manifest pages).map CheckpointEntry.path := by
        rw [Catalog.laid_paths built laid, SortedMap.mem_keys_iff, held]
        rfl
      obtain ⟨later, inside, same⟩ := List.mem_map.mp named
      exact .inr ⟨later, inside, same⟩
    · rw [not_or, not_not, SortedMap.mem_keys_iff] at known
      rw [wanted_get, known.1]
      exact .inl (by simpa using known.2)
  have room : base.size + (manifest pages).countP CheckpointEntry.isPut ≤ maxNodes := by
    have few := Catalog.countP_isPut_le built laid
    have limits : maxEntries + maxEntries = maxNodes := rfl
    omega
  have restored : restoreEntries (manifest pages) none base = .ok wanted :=
    restoreEntries_wanted sorted (fun _ _ => rfl) agrees covered room
  have recorded_all : ∀ path entry, (root.getD SortedMap.empty).get path = some entry →
      ∃ made, w.recorded ids path entry = some made := by
    intro path entry there
    obtain ⟨original, held⟩ := Catalog.build_covers built
      (.inl (by rw [there]; exact Option.some_ne_none entry))
    obtain ⟨made, _, registered⟩ :=
      Paired.exists_right matched ((SortedMap.mem_entries_iff _ _ _).mpr held)
    rcases Catalog.laid_spec built held registered with ⟨other, again, recorded⟩ | ⟨gone, _, _⟩
    · rw [there, Option.some.injEq] at again
      subst again
      exact ⟨made, recorded⟩
    · rw [there] at gone
      exact nomatch gone
  refine ⟨wanted, treeOf base, treeOf wanted, restored, wanted_get, ?_, ?_,
    applyEntries_treeOf restored, ?_⟩
  · intro path
    rw [wanted_get]
    cases there : (root.getD SortedMap.empty).get path with
    | none => rfl
    | some entry =>
        obtain ⟨made, recorded⟩ := recorded_all path entry there
        rw [Option.bind_some, recorded]
        rfl
  · exact applyEntries_treeOf retained
  · intro path
    rw [treeOf, SortedMap.get_map, wanted_get]
    cases there : (root.getD SortedMap.empty).get path with
    | none => rfl
    | some entry =>
        obtain ⟨made, recorded⟩ := recorded_all path entry there
        rw [Option.bind_some, recorded, Option.map_some, Option.map_some,
          (Workspace.recorded_spec recorded).2.2]

/-- A workspace whose every chunk is the three bytes `abc`. -/
def abcWorkspace : Workspace where
  cancelledAt := fun _ => false
  cancelledIn := fun _ _ => false
  chunk := fun _ _ _ => some [97, 98, 99]
  sha256Hex := fun _ => "ba7816bf8f01cfea414140de5dae2223b00361a396177a9cb410ff61f20015ad"

def abcInventory : SortedMap String Entry :=
  SortedMap.ofList [("a", .directory), ("a/b", .file ⟨1, 2, 3, (0, 0), (0, 0)⟩ false)]

def abcBase : List CheckpointEntry := [.symlink "a" "old", .directory "old", .directory "old/c"]

def abcIds : SortedMap String String :=
  SortedMap.ofList
    [("file:ba7816bf8f01cfea414140de5dae2223b00361a396177a9cb410ff61f20015ad:3",
      "019f0000-0000-7000-8000-000000000001")]

theorem abcInventory_parents : Parents abcInventory := by
  intro path entry held top member
  have listed := (SortedMap.mem_entries_iff _ _ _).mpr held
  have entries : abcInventory.entries =
      [("a", .directory), ("a/b", .file ⟨1, 2, 3, (0, 0), (0, 0)⟩ false)] := by decide +kernel
  rw [entries] at listed
  have paths : path = "a" ∨ path = "a/b" := by
    simp at listed
    tauto
  rcases paths with rfl | rfl
  · have none_above : ancestors "a" = [] := by decide +kernel
    simp [none_above] at member
  · have one_above : ancestors "a/b" = ["a"] := by decide +kernel
    rw [one_above, List.mem_singleton] at member
    rw [member]
    decide +kernel

theorem abc_restored : ∃ base catalog pages restored tree,
    restoreEntries abcBase none SortedMap.empty = .ok base ∧
    Catalog.build abcWorkspace (some abcInventory) [] base.keys = .ok catalog ∧
    catalog.pages (some abcIds) = .ok pages ∧
    restoreEntries (manifest pages) none base = .ok restored ∧
    Tree.applyEntries (manifest pages) none (treeOf base) = .ok tree ∧
    ∀ path, tree.nodes.get path = (abcInventory.get path).map Entry.node := by
  have runs : ((restoreEntries abcBase none SortedMap.empty).toOption.bind fun base =>
      (Catalog.build abcWorkspace (some abcInventory) [] base.keys).toOption.map fun catalog =>
        (catalog.pages (some abcIds)).isOk && decide (base.size ≤ 3)) = some true := by
    decide +kernel
  cases retained : restoreEntries abcBase none SortedMap.empty with
  | error refused => simp [retained, Except.toOption] at runs
  | ok base =>
      simp only [retained, Except.toOption, Option.bind_some] at runs
      cases built : Catalog.build abcWorkspace (some abcInventory) [] base.keys with
      | error refused => simp [built] at runs
      | ok catalog =>
          simp only [built, Option.map_some, Option.some.injEq] at runs
          cases laid : catalog.pages (some abcIds) with
          | error refused => simp [laid, Except.isOk, Except.toBool] at runs
          | ok pages =>
              have small : base.size ≤ maxEntries := by
                simp only [Bool.and_eq_true, decide_eq_true_eq] at runs
                exact runs.2.trans (by decide)
              obtain ⟨restored, baseTree, tree, folded, _, _, tree_base, applied, same⟩ :=
                capture_restore abcWorkspace (some abcInventory) [] abcBase base abcIds catalog
                  pages abcInventory_parents (by decide +kernel) retained small built laid
              have known : Tree.applyEntries abcBase none ⟨SortedMap.empty⟩ = .ok (treeOf base) :=
                applyEntries_treeOf retained
              rw [tree_base, Except.ok.injEq] at known
              rw [known] at applied
              exact ⟨base, catalog, pages, restored, tree, rfl, built, laid, folded, applied, same⟩

end Agentsfleet.Recovery
