import Agentsfleet.Library.Run
import Mathlib.Data.List.Nodup
import Mathlib.Logic.Function.Basic

/-!
# Which toolbox images a host keeps

The newest releases, and any image a sandbox still holds.  An image is held by the
clones of its `Arc` outside the registry.  What the kernel and the file system answer
is part of the event: each call of an admission or a retention fails or not as the
event has it, for each image a pass tries on its own.
-/

set_option autoImplicit false

namespace Agentsfleet.Sandbox

open Agentsfleet.Library

/-- How many of the newest releases stay mounted whether held or not. -/
def toolboxKeepReleases : Nat := 2

inductive ToolboxRefusal where
  | signature
  | manifest
  | architecture
  | runnerVersion
  | features
  | length
  | digest
  | notAFile
  | unstaged
deriving DecidableEq

def refusalsOfTheFile : List ToolboxRefusal := [.length, .digest, .notAFile]

inductive Mounting where
  | mounted
  | refused (refusal : Option ToolboxRefusal) (left : Bool)
deriving DecidableEq

/-- How staging an image ends; a failure may come after the file was published. -/
inductive Staging where
  | staged
  | failed (published : Bool)
deriving DecidableEq

/-- How an unmount ends: the kernel refuses it, the mount is gone and its mount point will
not go, or nothing is left. -/
inductive Unmounting where
  | refused
  | mountPointStays
  | unmounted
deriving DecidableEq

/-- How letting one image go ends: whether its published file goes, and the unmount. -/
structure Release where
  fileGoes : Bool
  unmount : Unmounting
deriving DecidableEq

/-- An admitted image: its digest, and which allocation its `Arc` is. -/
structure Toolbox (Digest : Type) where
  digest : Digest
  arc : Nat
deriving DecidableEq

/-- What the calls of one admission answer: the mount, and where the published file is not
the manifest's, its removal, its second staging and its second mount. -/
structure Answers where
  first : Mounting
  fileGoes : Bool
  again : Staging
  second : Mounting

variable {Digest : Type} [DecidableEq Digest]

structure Toolboxes (Digest : Type) where
  /-- The images admitted, oldest first. -/
  admitted : List (Toolbox Digest)
  /-- Every `Arc` outside the registry. -/
  clones : List (Toolbox Digest)
  mounted : Digest → Bool
  published : Digest → Bool
  /-- Admissions with their image published, waiting for the registry: the digest, and
  whether it was staged for them. -/
  waiting : List (Digest × Bool)
  /-- How many `Arc`s were allocated. -/
  minted : Nat

namespace Toolboxes

def new (mounted published : Digest → Bool) : Toolboxes Digest :=
  ⟨[], [], mounted, published, [], 0⟩

def publish (s : Toolboxes Digest) (digest : Digest) (there : Bool) : Toolboxes Digest :=
  { s with published := Function.update s.published digest there }

def setMounted (s : Toolboxes Digest) (digest : Digest) (there : Bool) : Toolboxes Digest :=
  { s with mounted := Function.update s.mounted digest there }

/-- How many `Arc`s of `toolbox` there are. -/
def strongCount (s : Toolboxes Digest) (toolbox : Toolbox Digest) : Nat :=
  s.admitted.count toolbox + s.clones.count toolbox

/-! ## Retention -/

def unmount (s : Toolboxes Digest) (digest : Digest) : Unmounting → Toolboxes Digest × Bool
  | .refused => (s, false)
  | .mountPointStays => (s.setMounted digest false, false)
  | .unmounted => (s.setMounted digest false, true)

def release (s : Toolboxes Digest) (digest : Digest) (ends : Release) :
    Toolboxes Digest × Bool :=
  if ends.fileGoes then (s.publish digest false).unmount digest ends.unmount else (s, false)

/-- `retain_in` from an index on: the images before it stay, `rest` starts there.  The
answer is how many went, unless one would not. -/
def retainFrom (outcome : Digest → Release) (released : Nat) :
    Toolboxes Digest → List (Toolbox Digest) → List (Toolbox Digest) → Toolboxes Digest × Option Nat
  | s, kept, [] => ({ s with admitted := kept }, some released)
  | s, kept, toolbox :: rest =>
      let s := { s with admitted := kept ++ toolbox :: rest }
      if (toolbox :: rest).length ≤ toolboxKeepReleases then (s, some released)
      else if 1 < s.strongCount toolbox then
        retainFrom outcome released s (kept ++ [toolbox]) rest
      else
        match s.release toolbox.digest (outcome toolbox.digest) with
        | (s, true) => retainFrom outcome (released + 1) s kept rest
        | (s, false) => (s, none)

/-- Lets go of every image past the newest that no sandbox holds; how many went. -/
def retain (s : Toolboxes Digest) (outcome : Digest → Release) : Toolboxes Digest × Option Nat :=
  retainFrom outcome 0 s [] s.admitted

/-- Removes the published images no admitted release names, as far as it gets. -/
def prune (s : Toolboxes Digest) (goes : Digest → Bool) : Toolboxes Digest :=
  { s with
    published := fun digest =>
      s.published digest && (decide (digest ∈ s.admitted.map Toolbox.digest) || !goes digest) }

/-! ## Admission -/

/-- The part of `admit` before the registry's lock: an image not yet published is staged. -/
def stage (s : Toolboxes Digest) (digest : Digest) (outcome : Staging) : Toolboxes Digest :=
  if s.published digest then { s with waiting := s.waiting ++ [(digest, false)] }
  else
    match outcome with
    | .staged => { s.publish digest true with waiting := s.waiting ++ [(digest, true)] }
    | .failed published => s.publish digest published

def mountOnce (s : Toolboxes Digest) (digest : Digest) : Mounting → Toolboxes Digest × Bool
  | .mounted => (s.setMounted digest true, true)
  | .refused _ left => (s.setMounted digest left, false)

def mount (s : Toolboxes Digest) (digest : Digest) (fresh : Bool) (answers : Answers) :
    Toolboxes Digest × Bool :=
  match answers.first with
  | .mounted => s.mountOnce digest .mounted
  | .refused refusal left =>
      let s := s.setMounted digest left
      if fresh = false ∧ refusal.any (refusalsOfTheFile.contains ·) = true then
        if answers.fileGoes then
          match answers.again with
          | .staged => (s.publish digest true).mountOnce digest answers.second
          | .failed published => (s.publish digest published, false)
        else (s, false)
      else (s, false)

/-- The registry with `toolbox` at its newest end, and the caller's clone of it. -/
def enlist (s : Toolboxes Digest) (others : List (Toolbox Digest)) (toolbox : Toolbox Digest) :
    Toolboxes Digest :=
  { s with admitted := others ++ [toolbox], clones := toolbox :: s.clones }

/-- The image at the newest end: where the digest is admitted already it moves there, else
it is mounted. -/
def current (s : Toolboxes Digest) (digest : Digest) (fresh : Bool) (answers : Answers) :
    Toolboxes Digest × Bool :=
  match s.admitted.find? (·.digest = digest) with
  | some toolbox => (s.enlist (s.admitted.eraseP (·.digest = digest)) toolbox, true)
  | none =>
      match s.mount digest fresh answers with
      | (s, true) =>
          ({ s with minted := s.minted + 1 }.enlist s.admitted ⟨digest, s.minted⟩, true)
      | (s, false) => (s, false)

/-- `admit` under the registry's lock, and whether it admits: a retention that fails is
logged, and nothing is pruned then. -/
def admission (s : Toolboxes Digest) (digest : Digest) (fresh : Bool) (answers : Answers)
    (outcome : Digest → Release) (goes : Digest → Bool) : Toolboxes Digest × Bool :=
  match s.current digest fresh answers with
  | (s, true) =>
      match s.retain outcome with
      | (s, some _) => (s.prune goes, true)
      | (s, none) => (s, true)
  | (s, false) => (s, false)

/-- Unmounts the images from the newest on, until one will not go. -/
def closeFrom (outcome : Digest → Unmounting) :
    Toolboxes Digest → List (Toolbox Digest) → Toolboxes Digest
  | s, [] => { s with admitted := [] }
  | s, toolbox :: older =>
      match s.unmount toolbox.digest (outcome toolbox.digest) with
      | (s, true) => closeFrom outcome s older
      | (s, false) => { s with admitted := (toolbox :: older).reverse }

/-- `close`: every published file stays. -/
def close (s : Toolboxes Digest) (outcome : Digest → Unmounting) : Toolboxes Digest :=
  closeFrom outcome s s.admitted.reverse

end Toolboxes

/-- What happens on a host: an admission stages its image, or takes the lock at its place
among those waiting; the host asks for a retention; a sandbox takes a clone of one held
already, or drops one. -/
inductive ToolboxEvent (Digest : Type) where
  | stage (digest : Digest) (outcome : Staging)
  | admission (place : Nat) (answers : Answers) (outcome : Digest → Release) (goes : Digest → Bool)
  | retain (outcome : Digest → Release)
  | take (which : Nat)
  | drop (which : Nat)

def ToolboxEvent.Whole : ToolboxEvent Digest → Prop
  | .admission _ _ outcome _ | .retain outcome =>
      ∀ digest, (outcome digest).unmount ≠ .mountPointStays
  | .stage .. | .take _ | .drop _ => True

namespace Toolboxes

def step (s : Toolboxes Digest) : ToolboxEvent Digest → Toolboxes Digest
  | .stage digest outcome => s.stage digest outcome
  | .admission place answers outcome goes =>
      match s.waiting[place]? with
      | none => s
      | some (digest, fresh) =>
          ({ s with waiting := s.waiting.eraseIdx place }.admission digest fresh answers
            outcome goes).1
  | .retain outcome => (s.retain outcome).1
  | .take which =>
      match s.clones[which]? with
      | none => s
      | some toolbox => { s with clones := toolbox :: s.clones }
  | .drop which => { s with clones := s.clones.eraseIdx which }

end Toolboxes

/-! ## What a pass keeps -/

def newest (images : List (Toolbox Digest)) : List (Toolbox Digest) :=
  images.drop (images.length - toolboxKeepReleases)

def older (images : List (Toolbox Digest)) : List (Toolbox Digest) :=
  images.take (images.length - toolboxKeepReleases)

omit [DecidableEq Digest] in
theorem older_append_newest (images : List (Toolbox Digest)) :
    older images ++ newest images = images :=
  List.take_append_drop _ images

omit [DecidableEq Digest] in
theorem newest_of_few {images : List (Toolbox Digest)}
    (few : images.length ≤ toolboxKeepReleases) : newest images = images ∧ older images = [] := by
  rw [newest, older, Nat.sub_eq_zero_of_le few]
  exact ⟨rfl, rfl⟩

omit [DecidableEq Digest] in
theorem newest_cons {toolbox : Toolbox Digest} {rest : List (Toolbox Digest)}
    (many : ¬ (toolbox :: rest).length ≤ toolboxKeepReleases) :
    newest (toolbox :: rest) = newest rest ∧ older (toolbox :: rest) = toolbox :: older rest := by
  have past : (toolbox :: rest).length - toolboxKeepReleases =
      (rest.length - toolboxKeepReleases) + 1 := by
    rw [List.length_cons] at many ⊢
    omega
  rw [newest, older, past]
  exact ⟨rfl, rfl⟩

omit [DecidableEq Digest] in
theorem others_of_distinct {kept rest : List (Toolbox Digest)} {toolbox : Toolbox Digest}
    (distinct : ((kept ++ toolbox :: rest).map Toolbox.digest).Nodup) :
    ((kept ++ rest).map Toolbox.digest).Nodup ∧
      ∀ image ∈ kept ++ rest, image.digest ≠ toolbox.digest := by
  have middle : (kept ++ toolbox :: rest).Perm (toolbox :: (kept ++ rest)) := List.perm_middle
  have moved := middle.map Toolbox.digest
  obtain ⟨absent, rest_distinct⟩ := List.nodup_cons.mp (moved.nodup_iff.mp distinct)
  exact ⟨rest_distinct, fun image member same => absent (same ▸ List.mem_map_of_mem member)⟩

namespace Toolboxes

theorem strongCount_iff {s : Toolboxes Digest} {toolbox : Toolbox Digest}
    (distinct : s.admitted.Nodup) (listed : toolbox ∈ s.admitted) :
    1 < s.strongCount toolbox ↔ toolbox ∈ s.clones := by
  rw [strongCount, List.count_eq_one_of_mem distinct listed, ← List.count_pos_iff]
  omega

/-- What an unmount leaves as it was: the rest of the registry, the other mounts, and,
refused whole, its own. -/
structure Frame (s after : Toolboxes Digest) (digest : Digest) : Prop where
  admitted : after.admitted = s.admitted
  clones : after.clones = s.clones
  others : ∀ other, other ≠ digest → after.mounted other = s.mounted other

omit [DecidableEq Digest] in
theorem Frame.trans {s next after : Toolboxes Digest} {digest : Digest}
    (first : Frame s next digest) (second : Frame next after digest) : Frame s after digest :=
  ⟨second.admitted.trans first.admitted, second.clones.trans first.clones,
    fun other different => (second.others other different).trans (first.others other different)⟩

theorem setMounted_frame (s : Toolboxes Digest) (digest : Digest) (there : Bool) :
    Frame s (s.setMounted digest there) digest :=
  ⟨rfl, rfl, fun _ different => Function.update_of_ne different _ _⟩

theorem publish_frame (s : Toolboxes Digest) (digest : Digest) (there : Bool) :
    Frame s (s.publish digest there) digest :=
  ⟨rfl, rfl, fun _ _ => rfl⟩

theorem unmount_frame (s : Toolboxes Digest) (digest : Digest) (ends : Unmounting) :
    Frame s (s.unmount digest ends).1 digest ∧
      ((s.unmount digest ends).2 = false → ends ≠ .mountPointStays →
        (s.unmount digest ends).1.mounted = s.mounted) := by
  cases ends with
  | refused => exact ⟨⟨rfl, rfl, fun _ _ => rfl⟩, fun _ _ => rfl⟩
  | mountPointStays => exact ⟨s.setMounted_frame digest false, fun _ whole => absurd rfl whole⟩
  | unmounted =>
      refine ⟨s.setMounted_frame digest false, fun failed => ?_⟩
      cases failed

theorem release_frame (s : Toolboxes Digest) (digest : Digest) (ends : Release) :
    Frame s (s.release digest ends).1 digest ∧
      ((s.release digest ends).2 = false → ends.unmount ≠ .mountPointStays →
        (s.release digest ends).1.mounted = s.mounted) := by
  rw [release]
  split
  · obtain ⟨frame, whole⟩ := (s.publish digest false).unmount_frame digest ends.unmount
    exact ⟨(s.publish_frame digest false).trans frame, whole⟩
  · exact ⟨⟨rfl, rfl, fun _ _ => rfl⟩, fun _ _ => rfl⟩

/-- What a pass over `rest` does, past the images it has seen. -/
structure Passed (outcome : Digest → Release) (s : Toolboxes Digest)
    (kept rest : List (Toolbox Digest)) (after : Toolboxes Digest × Option Nat) : Prop where
  clones : after.1.clones = s.clones
  left : ∃ left, after.1.admitted = kept ++ left ∧ left.Sublist rest ∧
    ∀ toolbox ∈ rest, toolbox ∈ s.clones ∨ toolbox ∈ newest rest → toolbox ∈ left
  untouched : ∀ digest, (∀ toolbox ∈ older rest, toolbox ∉ s.clones → toolbox.digest ≠ digest) →
    after.1.mounted digest = s.mounted digest
  clean : after.2.isSome = true → after.1.admitted =
    kept ++ ((older rest).filter (· ∈ s.clones) ++ newest rest)
  mounted : (∀ digest, (outcome digest).unmount ≠ .mountPointStays) →
    (∀ toolbox ∈ kept ++ rest, s.mounted toolbox.digest = true) →
    ∀ toolbox ∈ after.1.admitted, after.1.mounted toolbox.digest = true

theorem Passed.relist {outcome : Digest → Release} {s : Toolboxes Digest}
    (listed : List (Toolbox Digest)) {kept rest : List (Toolbox Digest)}
    {after : Toolboxes Digest × Option Nat}
    (passed : Passed outcome { s with admitted := listed } kept rest after) :
    Passed outcome s kept rest after :=
  ⟨passed.clones, passed.left, passed.untouched, passed.clean, passed.mounted⟩

theorem Passed.stop {outcome : Digest → Release} {s : Toolboxes Digest}
    {kept rest : List (Toolbox Digest)} (few : rest.length ≤ toolboxKeepReleases)
    (released : Nat) :
    Passed outcome s kept rest ({ s with admitted := kept ++ rest }, some released) := by
  obtain ⟨all, none_⟩ := newest_of_few few
  refine ⟨rfl, ⟨rest, rfl, List.Sublist.refl rest, fun _ listed _ => listed⟩, fun _ _ => rfl,
    fun _ => ?_, fun _ mounted => mounted⟩
  rw [all, none_, List.filter_nil, List.nil_append]

theorem Passed.held {outcome : Digest → Release} {s : Toolboxes Digest}
    {kept rest : List (Toolbox Digest)} {toolbox : Toolbox Digest}
    {after : Toolboxes Digest × Option Nat}
    (many : ¬ (toolbox :: rest).length ≤ toolboxKeepReleases) (clone : toolbox ∈ s.clones)
    (later : Passed outcome s (kept ++ [toolbox]) rest after) :
    Passed outcome s kept (toolbox :: rest) after := by
  obtain ⟨same, past⟩ := newest_cons many
  obtain ⟨left, listed, inside, spared⟩ := later.left
  refine ⟨later.clones, ⟨toolbox :: left, ?_, inside.cons_cons toolbox, ?_⟩, ?_, ?_, ?_⟩
  · rw [listed, List.append_assoc, List.singleton_append]
  · intro image member why
    rcases List.mem_cons.mp member with rfl | member
    · exact List.mem_cons_self
    · exact List.mem_cons_of_mem _ (spared image member (same ▸ why))
  · intro digest others
    rw [past] at others
    exact later.untouched digest fun image member => others image (List.mem_cons_of_mem _ member)
  · intro went
    rw [later.clean went, past, same, List.filter_cons_of_pos (by simpa using clone),
      List.append_assoc, List.singleton_append, List.cons_append]
  · intro whole mounted
    refine later.mounted whole fun image member => mounted image ?_
    rwa [List.append_assoc, List.singleton_append] at member

theorem Passed.went {outcome : Digest → Release} {s next : Toolboxes Digest}
    {kept rest : List (Toolbox Digest)} {toolbox : Toolbox Digest}
    {after : Toolboxes Digest × Option Nat}
    (many : ¬ (toolbox :: rest).length ≤ toolboxKeepReleases) (free : toolbox ∉ s.clones)
    (distinct : ((kept ++ toolbox :: rest).map Toolbox.digest).Nodup)
    (frame : Frame s next toolbox.digest) (later : Passed outcome next kept rest after) :
    Passed outcome s kept (toolbox :: rest) after := by
  obtain ⟨same, past⟩ := newest_cons many
  obtain ⟨left, listed, inside, spared⟩ := later.left
  obtain ⟨_, others⟩ := others_of_distinct distinct
  rw [frame.clones] at spared
  refine ⟨later.clones.trans frame.clones, ⟨left, listed, inside.cons toolbox, ?_⟩, ?_, ?_, ?_⟩
  · intro image member why
    rcases List.mem_cons.mp member with rfl | member
    · rcases why with clone | new
      · exact absurd clone free
      · rw [same] at new
        have later_on := List.mem_append_right kept (List.mem_of_mem_drop new)
        exact absurd rfl (others image later_on)
    · exact spared image member (same ▸ why)
  · intro digest others
    rw [past] at others
    have other := others toolbox List.mem_cons_self free
    rw [later.untouched digest fun image member clone =>
      others image (List.mem_cons_of_mem _ member) (frame.clones ▸ clone)]
    exact frame.others digest (Ne.symm other)
  · intro went
    rw [later.clean went, past, same, frame.clones,
      List.filter_cons_of_neg (by simpa using free)]
  · intro whole mounted
    refine later.mounted whole fun image member => ?_
    rw [frame.others image.digest (others image member)]
    rcases List.mem_append.mp member with before | behind
    · exact mounted image (List.mem_append_left _ before)
    · exact mounted image (List.mem_append_right _ (List.mem_cons_of_mem _ behind))

theorem Passed.stuck {outcome : Digest → Release} {s next : Toolboxes Digest}
    {kept rest : List (Toolbox Digest)} {toolbox : Toolbox Digest}
    (many : ¬ (toolbox :: rest).length ≤ toolboxKeepReleases) (free : toolbox ∉ s.clones)
    (frame : Frame s next toolbox.digest) (listed : s.admitted = kept ++ toolbox :: rest)
    (whole : (outcome toolbox.digest).unmount ≠ .mountPointStays → next.mounted = s.mounted) :
    Passed outcome s kept (toolbox :: rest) (next, none) := by
  obtain ⟨same, past⟩ := newest_cons many
  refine ⟨frame.clones, ⟨toolbox :: rest, frame.admitted.trans listed, List.Sublist.refl _,
    fun _ member _ => member⟩, fun digest others => ?_, fun went => ?_, fun clean mounted => ?_⟩
  · rw [past] at others
    exact frame.others digest (Ne.symm (others toolbox List.mem_cons_self free))
  · cases went
  · intro image member
    rw [whole (clean toolbox.digest)]
    exact mounted image (by rwa [frame.admitted, listed] at member)

theorem retainFrom_passed (outcome : Digest → Release) (released : Nat) (s : Toolboxes Digest)
    (kept rest : List (Toolbox Digest))
    (distinct : ((kept ++ rest).map Toolbox.digest).Nodup) :
    Passed outcome s kept rest (retainFrom outcome released s kept rest) := by
  induction rest generalizing released s kept with
  | nil =>
      have stop : Passed outcome s kept [] ({ s with admitted := kept ++ [] }, some released) :=
        Passed.stop (Nat.zero_le _) released
      rwa [List.append_nil] at stop
  | cons toolbox rest ih =>
      rw [retainFrom]
      have listed : toolbox ∈ kept ++ toolbox :: rest :=
        List.mem_append_right kept List.mem_cons_self
      have alike := strongCount_iff (s := { s with admitted := kept ++ toolbox :: rest })
        distinct.of_map listed
      by_cases few : (toolbox :: rest).length ≤ toolboxKeepReleases
      · rw [if_pos few]
        exact Passed.stop few released
      · rw [if_neg few]
        refine Passed.relist (kept ++ toolbox :: rest) ?_
        split
        · rename_i held
          have moved : ((kept ++ [toolbox] ++ rest).map Toolbox.digest).Nodup := by
            rwa [List.append_assoc, List.singleton_append]
          exact Passed.held few (alike.mp held) (ih released _ _ moved)
        · rename_i held
          have free := mt alike.mpr held
          obtain ⟨frame, whole⟩ :=
            release_frame { s with admitted := kept ++ toolbox :: rest } toolbox.digest
              (outcome toolbox.digest)
          split
          · rename_i next answered
            rw [answered] at frame
            exact Passed.went few free distinct frame
              (ih (released + 1) next kept (others_of_distinct distinct).1)
          · rename_i next answered
            rw [answered] at frame whole
            exact Passed.stuck few free frame rfl (whole rfl)

/-! ## The registry between two events -/

structure Sound (s : Toolboxes Digest) : Prop where
  distinct : (s.admitted.map Toolbox.digest).Nodup
  held : ∀ toolbox ∈ s.clones, toolbox ∈ s.admitted

def Mounted (s : Toolboxes Digest) : Prop :=
  ∀ toolbox ∈ s.admitted, s.mounted toolbox.digest = true

/-- The held images and the newest of `images` are admitted after, their mounts as they were. -/
def Spares (s after : Toolboxes Digest) (images : List (Toolbox Digest)) : Prop :=
  ∀ toolbox ∈ s.admitted, toolbox ∈ s.clones ∨ toolbox ∈ newest images →
    toolbox ∈ after.admitted ∧ after.mounted toolbox.digest = s.mounted toolbox.digest

theorem retain_passed {s : Toolboxes Digest} (distinct : (s.admitted.map Toolbox.digest).Nodup)
    (outcome : Digest → Release) : Passed outcome s [] s.admitted (s.retain outcome) :=
  retainFrom_passed outcome 0 s [] s.admitted distinct

/-- A retention lets go of no image in use. -/
theorem retain_spares {s : Toolboxes Digest} (distinct : (s.admitted.map Toolbox.digest).Nodup)
    (outcome : Digest → Release) : Spares s (s.retain outcome).1 s.admitted := by
  intro toolbox listed why
  have passed := retain_passed distinct outcome
  obtain ⟨left, whole, _, spared⟩ := passed.left
  refine ⟨?_, passed.untouched toolbox.digest fun other old free same => ?_⟩
  · rw [whole, List.nil_append]
    exact spared toolbox listed why
  · obtain rfl : other = toolbox :=
      List.inj_on_of_nodup_map distinct (List.mem_of_mem_take old) listed same
    rcases why with clone | new
    · exact free clone
    · have apart := distinct.of_map
      rw [← older_append_newest s.admitted] at apart
      exact List.disjoint_of_nodup_append apart old new

theorem Sound.retain {s : Toolboxes Digest} (sound : s.Sound) (outcome : Digest → Release) :
    (s.retain outcome).1.Sound := by
  have passed := retain_passed sound.distinct outcome
  obtain ⟨left, whole, inside, spared⟩ := passed.left
  rw [List.nil_append] at whole
  constructor
  · rw [whole]
    exact (inside.map Toolbox.digest).nodup sound.distinct
  · intro toolbox clone
    rw [passed.clones] at clone
    rw [whole]
    exact spared toolbox (sound.held toolbox clone) (.inl clone)

theorem Mounted.retain {s : Toolboxes Digest} (sound : s.Sound) (mounted : s.Mounted)
    {outcome : Digest → Release} (whole : ∀ digest, (outcome digest).unmount ≠ .mountPointStays) :
    (s.retain outcome).1.Mounted :=
  (retain_passed sound.distinct outcome).mounted whole mounted

theorem mountOnce_frame (s : Toolboxes Digest) (digest : Digest) (mounting : Mounting) :
    Frame s (s.mountOnce digest mounting).1 digest ∧
      ((s.mountOnce digest mounting).2 = true →
        (s.mountOnce digest mounting).1.mounted digest = true) := by
  cases mounting with
  | mounted => exact ⟨s.setMounted_frame digest true, fun _ => Function.update_self _ _ _⟩
  | refused refusal left =>
      refine ⟨s.setMounted_frame digest left, fun failed => ?_⟩
      cases failed

theorem mount_frame (s : Toolboxes Digest) (digest : Digest) (fresh : Bool) (answers : Answers) :
    Frame s (s.mount digest fresh answers).1 digest ∧
      ((s.mount digest fresh answers).2 = true →
        (s.mount digest fresh answers).1.mounted digest = true) := by
  rw [mount]
  split
  · exact s.mountOnce_frame digest .mounted
  · rename_i refusal left _
    have unmounted := s.setMounted_frame digest left
    dsimp only
    split
    · split
      · split
        · obtain ⟨frame, mounted⟩ :=
            ((s.setMounted digest left).publish digest true).mountOnce_frame digest answers.second
          exact ⟨(unmounted.trans (publish_frame _ digest true)).trans frame, mounted⟩
        · rename_i published _
          exact ⟨unmounted.trans (publish_frame _ digest published), nofun⟩
      · exact ⟨unmounted, nofun⟩
    · exact ⟨unmounted, nofun⟩

/-- What an admission does up to its retention: `toolbox` stands at the newest end of the
registry, its digest no longer anywhere else, and no other mount moved. -/
structure Enlisted (s : Toolboxes Digest) (digest : Digest) (after : Toolboxes Digest)
    (toolbox : Toolbox Digest) : Prop where
  digest_eq : toolbox.digest = digest
  admitted : after.admitted = s.admitted.eraseP (·.digest = digest) ++ [toolbox]
  clones : after.clones = toolbox :: s.clones
  listed : ∀ image ∈ s.admitted, image ∈ after.admitted
  distinct : (after.admitted.map Toolbox.digest).Nodup
  mounts : ∀ image ∈ s.admitted, after.mounted image.digest = s.mounted image.digest
  mounted : s.Mounted → after.mounted digest = true

theorem current_enlisted {s : Toolboxes Digest}
    (distinct : (s.admitted.map Toolbox.digest).Nodup) (digest : Digest) (fresh : Bool)
    (answers : Answers) :
    ((s.current digest fresh answers).2 = true →
      ∃ toolbox, Enlisted s digest (s.current digest fresh answers).1 toolbox) ∧
    ((s.current digest fresh answers).2 = false →
      (s.current digest fresh answers).1.admitted = s.admitted ∧
        (s.current digest fresh answers).1.clones = s.clones ∧
        ∀ image ∈ s.admitted,
          (s.current digest fresh answers).1.mounted image.digest = s.mounted image.digest) := by
  rw [current]
  split
  · rename_i toolbox found
    have same : toolbox.digest = digest := by simpa using List.find?_some found
    have member := List.mem_of_find?_eq_some found
    obtain ⟨first, before, behind, -, is, whole, erased⟩ :=
      List.exists_of_eraseP (p := fun image => decide (image.digest = digest)) member
        (decide_eq_true same)
    obtain rfl : first = toolbox := by
      have inside : first ∈ s.admitted := whole ▸ List.mem_append_right _ List.mem_cons_self
      exact List.inj_on_of_nodup_map distinct inside member
        ((of_decide_eq_true is).trans same.symm)
    have moved : (s.admitted.eraseP (·.digest = digest) ++ [first]).Perm s.admitted := by
      rw [erased, whole, List.append_assoc]
      have last : (behind ++ [first]).Perm ([first] ++ behind) := List.perm_append_comm
      exact last.append_left before
    refine ⟨fun _ => ⟨first, same, rfl, rfl, fun image listed => moved.mem_iff.mpr listed, ?_,
      fun _ _ => rfl, fun mounted => same ▸ mounted first member⟩, nofun⟩
    exact (moved.map Toolbox.digest).nodup_iff.mpr distinct
  · rename_i absent
    have other (image : Toolbox Digest) (member : image ∈ s.admitted) : image.digest ≠ digest := by
      simpa using List.find?_eq_none.mp absent image member
    obtain ⟨frame, mounted⟩ := s.mount_frame digest fresh answers
    have mounts (image : Toolbox Digest) (member : image ∈ s.admitted) :=
      frame.others image.digest (other image member)
    split
    · rename_i next mount
      rw [mount] at frame mounted mounts
      have none_erased : s.admitted.eraseP (·.digest = digest) = s.admitted :=
        List.eraseP_of_forall_not fun image member => by simpa using other image member
      refine ⟨fun _ => ⟨⟨digest, next.minted⟩, rfl, ?_, ?_, ?_, ?_, mounts, fun _ => mounted rfl⟩,
        nofun⟩
      · rw [none_erased, ← frame.admitted]
        rfl
      · rw [← frame.clones]
        rfl
      · intro image member
        exact List.mem_append_left _ (frame.admitted ▸ member)
      · have apart : digest ∉ next.admitted.map Toolbox.digest := by
          rw [frame.admitted]
          intro inside
          obtain ⟨image, member, same⟩ := List.mem_map.mp inside
          exact other image member same
        have before : (next.admitted.map Toolbox.digest).Nodup := frame.admitted ▸ distinct
        change ((next.admitted ++ [(⟨digest, next.minted⟩ : Toolbox Digest)]).map _).Nodup
        rw [List.map_append]
        have first : (digest :: next.admitted.map Toolbox.digest).Nodup :=
          List.nodup_cons.mpr ⟨apart, before⟩
        have last : (next.admitted.map Toolbox.digest ++ [digest]).Perm
            ([digest] ++ next.admitted.map Toolbox.digest) := List.perm_append_comm
        exact last.nodup_iff.mpr first
    · rename_i next mount
      rw [mount] at frame mounts
      exact ⟨nofun, fun _ => ⟨frame.admitted, frame.clones, mounts⟩⟩

theorem Enlisted.sound {s after : Toolboxes Digest} {digest : Digest} {toolbox : Toolbox Digest}
    (enlisted : Enlisted s digest after toolbox) (sound : s.Sound) : after.Sound := by
  refine ⟨enlisted.distinct, fun image clone => ?_⟩
  rw [enlisted.clones] at clone
  rcases List.mem_cons.mp clone with rfl | before
  · rw [enlisted.admitted]
    exact List.mem_append_right _ List.mem_cons_self
  · exact enlisted.listed image (sound.held image before)

theorem Enlisted.keepsMounted {s after : Toolboxes Digest} {digest : Digest}
    {toolbox : Toolbox Digest} (enlisted : Enlisted s digest after toolbox) (mounted : s.Mounted) :
    after.Mounted := by
  intro image member
  rw [enlisted.admitted] at member
  rcases List.mem_append.mp member with before | last
  · have listed := List.mem_of_mem_eraseP before
    rw [enlisted.mounts image listed]
    exact mounted image listed
  · rw [List.mem_singleton.mp last, enlisted.digest_eq]
    exact enlisted.mounted mounted

/-- What an admission ends in: refused, the registry and its mounts as they were; else the
registry with the image at its newest end, after a pass, whatever was pruned. -/
theorem admission_cases {s : Toolboxes Digest} (distinct : (s.admitted.map Toolbox.digest).Nodup)
    (digest : Digest) (fresh : Bool) (answers : Answers) (outcome : Digest → Release)
    (goes : Digest → Bool) :
    ((s.admission digest fresh answers outcome goes).2 = false ∧
      (s.admission digest fresh answers outcome goes).1.admitted = s.admitted ∧
      (s.admission digest fresh answers outcome goes).1.clones = s.clones ∧
      ∀ image ∈ s.admitted, (s.admission digest fresh answers outcome goes).1.mounted image.digest =
        s.mounted image.digest) ∨
    ((s.admission digest fresh answers outcome goes).2 = true ∧
      ∃ listed toolbox, Enlisted s digest listed toolbox ∧
        (s.admission digest fresh answers outcome goes).1.admitted =
          (listed.retain outcome).1.admitted ∧
        (s.admission digest fresh answers outcome goes).1.clones =
          (listed.retain outcome).1.clones ∧
        (s.admission digest fresh answers outcome goes).1.mounted =
          (listed.retain outcome).1.mounted) := by
  obtain ⟨enlists, refuses⟩ := current_enlisted distinct digest fresh answers
  rw [admission]
  split
  · rename_i listed current
    rw [current] at enlists
    obtain ⟨toolbox, enlisted⟩ := enlists rfl
    right
    split
    · rename_i after released retained
      exact ⟨rfl, listed, toolbox, enlisted, by rw [retained]; rfl, by rw [retained]; rfl,
        by rw [retained]; rfl⟩
    · rename_i after retained
      exact ⟨rfl, listed, toolbox, enlisted, by rw [retained], by rw [retained], by rw [retained]⟩
  · rename_i next current
    rw [current] at refuses
    exact .inl ⟨rfl, refuses rfl⟩

theorem admission_sound {s : Toolboxes Digest} (sound : s.Sound) (digest : Digest) (fresh : Bool)
    (answers : Answers) (outcome : Digest → Release) (goes : Digest → Bool) :
    (s.admission digest fresh answers outcome goes).1.Sound := by
  rcases admission_cases sound.distinct digest fresh answers outcome goes with
    ⟨-, admitted, clones, -⟩ | ⟨-, listed, toolbox, enlisted, admitted, clones, -⟩
  · constructor
    · rw [admitted]
      exact sound.distinct
    · rw [admitted, clones]
      exact sound.held
  · obtain ⟨distinct, held⟩ := (enlisted.sound sound).retain outcome
    constructor
    · rw [admitted]
      exact distinct
    · rw [admitted, clones]
      exact held

theorem admission_mounted {s : Toolboxes Digest} (sound : s.Sound) (mounted : s.Mounted)
    (digest : Digest) (fresh : Bool) (answers : Answers) {outcome : Digest → Release}
    (goes : Digest → Bool) (whole : ∀ digest, (outcome digest).unmount ≠ .mountPointStays) :
    (s.admission digest fresh answers outcome goes).1.Mounted := by
  rcases admission_cases sound.distinct digest fresh answers outcome goes with
    ⟨-, admitted, -, mounts⟩ | ⟨-, listed, toolbox, enlisted, admitted, -, mounts⟩
  · intro image member
    rw [admitted] at member
    rw [mounts image member]
    exact mounted image member
  · have after := (enlisted.keepsMounted mounted).retain (enlisted.sound sound) whole
    intro image member
    rw [admitted] at member
    rw [mounts]
    exact after image member

omit [DecidableEq Digest] in
theorem sound_new (mounted published : Digest → Bool) : (new mounted published).Sound :=
  ⟨List.nodup_nil, fun _ clone => nomatch clone⟩

theorem stage_frame (s : Toolboxes Digest) (digest : Digest) (outcome : Staging) :
    (s.stage digest outcome).admitted = s.admitted ∧
      (s.stage digest outcome).clones = s.clones ∧
      (s.stage digest outcome).mounted = s.mounted := by
  unfold stage
  split
  · exact ⟨rfl, rfl, rfl⟩
  · split
    · exact ⟨rfl, rfl, rfl⟩
    · exact ⟨rfl, rfl, rfl⟩

/-- Only admissions and retentions change the registry; a sandbox takes what is held. -/
theorem Sound.step {s : Toolboxes Digest} (sound : s.Sound) (event : ToolboxEvent Digest) :
    (s.step event).Sound := by
  cases event with
  | stage digest outcome =>
      obtain ⟨admitted, clones, -⟩ := s.stage_frame digest outcome
      constructor
      · rw [Toolboxes.step, admitted]
        exact sound.distinct
      · rw [Toolboxes.step, admitted, clones]
        exact sound.held
  | admission place answers outcome goes =>
      rw [Toolboxes.step]
      split
      · exact sound
      · have taken : Sound { s with waiting := s.waiting.eraseIdx place } :=
          ⟨sound.distinct, sound.held⟩
        exact admission_sound taken _ _ answers outcome goes
  | retain outcome => exact sound.retain outcome
  | take which =>
      rw [Toolboxes.step]
      split
      · exact sound
      · rename_i toolbox found
        refine ⟨sound.distinct, fun image clone => ?_⟩
        rcases List.mem_cons.mp clone with rfl | before
        · exact sound.held image (List.mem_of_getElem? found)
        · exact sound.held image before
  | drop which =>
      exact ⟨sound.distinct, fun image clone => sound.held image (List.mem_of_mem_eraseIdx clone)⟩

theorem Mounted.step {s : Toolboxes Digest} (sound : s.Sound) (mounted : s.Mounted)
    {event : ToolboxEvent Digest} (whole : event.Whole) : (s.step event).Mounted := by
  cases event with
  | stage digest outcome =>
      obtain ⟨admitted, -, mounts⟩ := s.stage_frame digest outcome
      intro image member
      rw [Toolboxes.step, admitted] at member
      rw [Toolboxes.step, mounts]
      exact mounted image member
  | admission place answers outcome goes =>
      rw [Toolboxes.step]
      split
      · exact mounted
      · have taken : Sound { s with waiting := s.waiting.eraseIdx place } :=
          ⟨sound.distinct, sound.held⟩
        exact admission_mounted taken mounted _ _ answers goes whole
  | retain outcome => exact mounted.retain sound whole
  | take which =>
      rw [Toolboxes.step]
      split
      · exact mounted
      · exact mounted
  | drop which => exact mounted

theorem closeFrom_kept {outcome : Digest → Unmounting}
    (whole : ∀ digest, outcome digest ≠ .mountPointStays) (s : Toolboxes Digest)
    (images : List (Toolbox Digest)) (distinct : (images.map Toolbox.digest).Nodup)
    (mounted : ∀ image ∈ images, s.mounted image.digest = true) :
    (closeFrom outcome s images).admitted.reverse <:+ images ∧
      (closeFrom outcome s images).Mounted := by
  induction images generalizing s with
  | nil => exact ⟨List.suffix_rfl, fun _ listed => nomatch listed⟩
  | cons toolbox before ih =>
      obtain ⟨absent, distinct⟩ := List.nodup_cons.mp distinct
      obtain ⟨frame, kept⟩ := s.unmount_frame toolbox.digest (outcome toolbox.digest)
      rw [closeFrom]
      split
      · rename_i next unmounted
        rw [unmounted] at frame
        obtain ⟨suffix, still⟩ := ih next distinct fun image member => by
          rw [frame.others image.digest fun same => absent (same ▸ List.mem_map_of_mem member)]
          exact mounted image (List.mem_cons_of_mem _ member)
        exact ⟨suffix.trans (List.suffix_cons toolbox before), still⟩
      · rename_i next unmounted
        rw [unmounted] at kept
        refine ⟨(List.reverse_reverse (toolbox :: before)).symm ▸ List.suffix_rfl,
          fun image member => ?_⟩
        have same : next.mounted = s.mounted := kept rfl (whole toolbox.digest)
        change next.mounted image.digest = true
        rw [same]
        exact mounted image (List.mem_reverse.mp member)

theorem close_kept {s : Toolboxes Digest} (sound : s.Sound) (mounted : s.Mounted)
    {outcome : Digest → Unmounting} (whole : ∀ digest, outcome digest ≠ .mountPointStays) :
    (s.close outcome).admitted <+: s.admitted ∧ (s.close outcome).Mounted := by
  have distinct : (s.admitted.reverse.map Toolbox.digest).Nodup := by
    rw [List.map_reverse]
    exact List.nodup_reverse.mpr sound.distinct
  obtain ⟨suffix, still⟩ := closeFrom_kept whole s s.admitted.reverse distinct
    fun image member => mounted image (List.mem_reverse.mp member)
  exact ⟨List.reverse_suffix.mp suffix, still⟩

theorem retain_clean {s : Toolboxes Digest} (outcome : Digest → Release)
    (goes : ∀ digest, outcome digest = ⟨true, .unmounted⟩) :
    (s.retain outcome).2.isSome = true := by
  have loop (released : Nat) (t : Toolboxes Digest) (kept rest : List (Toolbox Digest)) :
      (retainFrom outcome released t kept rest).2.isSome = true := by
    induction rest generalizing released t kept with
    | nil => rfl
    | cons toolbox rest ih =>
        rw [retainFrom]
        split
        · rfl
        · split
          · exact ih _ _ _
          · rw [goes]
            exact ih _ _ _
  exact loop 0 s [] s.admitted

/-- Whatever fails: the digests are distinct, no admission and no retention unmounts an
image a sandbox holds or one of the newest, a refused admission leaves the earlier
releases, and a retention nothing of which fails leaves the newest and the held.  Every
admitted image is mounted in a run in which no unmount leaves its mount point behind. -/
theorem images_kept (mounted published : Digest → Bool) (events : List (ToolboxEvent Digest)) :
    let s := Run.final step (.new mounted published) events
    (s.admitted.map Toolbox.digest).Nodup ∧
    (Run.Meets step (fun _ event => event.Whole) (.new mounted published) events →
      ∀ image ∈ s.admitted, s.mounted image.digest = true) ∧
    (∀ outcome,
      let after := s.retain outcome
      (∀ image ∈ s.admitted, image ∈ s.clones ∨ image ∈ newest s.admitted →
        image ∈ after.1.admitted ∧ after.1.mounted image.digest = s.mounted image.digest) ∧
      (after.2.isSome = true →
        after.1.admitted = (older s.admitted).filter (· ∈ s.clones) ++ newest s.admitted)) ∧
    (∀ digest fresh answers outcome goes,
      let after := s.admission digest fresh answers outcome goes
      (after.2 = true → ∃ toolbox, toolbox.digest = digest ∧ toolbox ∈ after.1.admitted ∧
        toolbox ∈ after.1.clones ∧
        let listed := s.admitted.eraseP (·.digest = digest) ++ [toolbox]
        (∀ image ∈ s.admitted, image ∈ s.clones ∨ image ∈ newest listed →
          image ∈ after.1.admitted ∧ after.1.mounted image.digest = s.mounted image.digest) ∧
        ((∀ digest, outcome digest = ⟨true, .unmounted⟩) →
          after.1.admitted =
            (older listed).filter (· ∈ after.1.clones) ++ newest listed)) ∧
      (after.2 = false → after.1.admitted = s.admitted ∧ after.1.clones = s.clones ∧
        ∀ image ∈ s.admitted, after.1.mounted image.digest = s.mounted image.digest)) ∧
    ∀ digest outcome,
      (s.stage digest outcome).admitted = s.admitted ∧
        (s.stage digest outcome).clones = s.clones ∧
        (s.stage digest outcome).mounted = s.mounted := by
  intro s
  have sound : s.Sound :=
    Run.invariant_of_step Sound (fun _ event held => held.step event) (sound_new mounted published)
      events s (Run.final_mem_states _ _ _)
  refine ⟨sound.distinct, fun whole => ?_, fun outcome => ⟨retain_spares sound.distinct outcome,
    (retain_passed sound.distinct outcome).clean⟩,
    fun digest fresh answers outcome goes => ⟨fun admits => ?_, fun refused => ?_⟩, s.stage_frame⟩
  · have kept (s : Toolboxes Digest) (event : ToolboxEvent Digest) (held : s.Sound ∧ s.Mounted)
        (clean : event.Whole) : (s.step event).Sound ∧ (s.step event).Mounted :=
      ⟨held.1.step event, held.2.step held.1 clean⟩
    exact (Run.invariant_of_meets kept ⟨sound_new mounted published, fun _ listed => nomatch listed⟩
      whole s (Run.final_mem_states _ _ _)).2
  · rcases admission_cases sound.distinct digest fresh answers outcome goes with
      ⟨refused, -⟩ | ⟨-, listed, toolbox, enlisted, admitted, clones, mounts⟩
    · rw [admits] at refused
      cases refused
    have passed := retain_passed enlisted.distinct outcome
    have spares := retain_spares enlisted.distinct outcome
    have clone : toolbox ∈ listed.clones := enlisted.clones ▸ List.mem_cons_self
    have inside : toolbox ∈ listed.admitted :=
      enlisted.admitted ▸ List.mem_append_right _ List.mem_cons_self
    rw [admitted, clones, mounts, passed.clones]
    refine ⟨toolbox, enlisted.digest_eq, (spares toolbox inside (.inl clone)).1, clone,
      fun image member why => ?_, fun gone => ?_⟩
    · have kept : image ∈ listed.clones ∨ image ∈ newest listed.admitted := by
        rw [enlisted.clones, enlisted.admitted]
        exact why.imp_left (List.mem_cons_of_mem _)
      obtain ⟨there, mount⟩ := spares image (enlisted.listed image member) kept
      exact ⟨there, mount.trans (enlisted.mounts image member)⟩
    · have clean := passed.clean (retain_clean outcome gone)
      rwa [List.nil_append, enlisted.admitted] at clean
  · rcases admission_cases sound.distinct digest fresh answers outcome goes with
      ⟨-, admitted, clones, mounts⟩ | ⟨admits, -⟩
    · exact ⟨admitted, clones, mounts⟩
    · rw [admits] at refused
      cases refused

/-! ## A mount point that stays -/

def mountsAtOnce : Answers := ⟨.mounted, true, .staged, .mounted⟩

/-- Three releases, of which no sandbox keeps any; the third admission lets the first go,
and its mount point is not empty. -/
def strayFile : List (ToolboxEvent Nat) :=
  [.stage 0 .staged, .admission 0 mountsAtOnce (fun _ => ⟨true, .unmounted⟩) (fun _ => true),
    .drop 0, .stage 1 .staged,
    .admission 0 mountsAtOnce (fun _ => ⟨true, .unmounted⟩) (fun _ => true), .drop 0,
    .stage 2 .staged, .admission 0 mountsAtOnce (fun _ => ⟨true, .mountPointStays⟩) (fun _ => true)]

/-- The first release is back on the list, and not mounted. -/
theorem stray_file_unmounted :
    ¬ ∀ image ∈ (Run.final step (.new (fun _ => false) (fun _ => false)) strayFile).admitted,
      (Run.final step (.new (fun _ => false) (fun _ => false)) strayFile).mounted image.digest =
        true := by
  decide

end Toolboxes

end Agentsfleet.Sandbox
