import Mathlib.Logic.Function.Basic
import Agentsfleet.Core.Bounds
import Agentsfleet.Patch.Apply

/-!
# What a patch leaves

The hunks of a patch applied one after another to a tree of files, and the landing of a
planned patch as that.
-/

set_option autoImplicit false

namespace Agentsfleet.Patch

open Agentsfleet.Core

/-! ## One hunk after another -/

abbrev Tree := List String → Option ByteArray

section Landing

variable {Chunk : Type} (lib : Libraries Chunk)

inductive Applies : Tree → Hunk Chunk → Tree → Prop
  | add {tree : Tree} {path relative contents : String} (gate : inside path = .ok relative) :
      Applies tree (.addFile path contents)
        (Function.update tree (key relative) (some contents.toUTF8))
  | delete {tree : Tree} {path relative text : String} (gate : inside path = .ok relative)
      (held : tree (key relative) = some text.toUTF8) :
      Applies tree (.deleteFile path) (Function.update tree (key relative) none)
  | update {tree : Tree} {path relative text : String} {movePath : Option String}
      {chunks : List Chunk} {updated : Updated} (gate : inside path = .ok relative)
      (held : tree (key relative) = some text.toUTF8)
      (applied : lib.updated relative text chunks = .ok updated)
      (stays : ∀ named ∈ movePath, ∃ target, inside named = .ok target ∧
        key target = key relative) :
      Applies tree (.updateFile path movePath chunks)
        (Function.update tree (key relative) (some updated.contents.toUTF8))
  | move {tree : Tree} {path relative text named target : String} {chunks : List Chunk}
      {updated : Updated} (gate : inside path = .ok relative)
      (held : tree (key relative) = some text.toUTF8)
      (applied : lib.updated relative text chunks = .ok updated) (gate' : inside named = .ok target)
      (leaves : key target ≠ key relative) :
      Applies tree (.updateFile path (some named) chunks)
        (Function.update (Function.update tree (key relative) none) (key target)
          (some updated.contents.toUTF8))

inductive OneByOne : Tree → List (Hunk Chunk) → Tree → Prop
  | nil (tree : Tree) : OneByOne tree [] tree
  | cons {tree mid out : Tree} {hunk : Hunk Chunk} {hunks : List (Hunk Chunk)}
      (first : Applies lib tree hunk mid) (rest : OneByOne mid hunks out) :
      OneByOne tree (hunk :: hunks) out

def Hunk.paths : Hunk Chunk → List String
  | .addFile path _ => [path]
  | .deleteFile path => [path]
  | .updateFile path movePath _ => path :: movePath.toList

def Hunk.Names (hunk : Hunk Chunk) (place : List String) : Prop :=
  ∃ path ∈ hunk.paths, ∃ relative, inside path = .ok relative ∧ key relative = place

variable {lib}

theorem Applies.unnamed {tree out : Tree} {hunk : Hunk Chunk} {place : List String}
    (applies : Applies lib tree hunk out) (other : ¬ hunk.Names place) :
    out place = tree place := by
  have apart : ∀ {path relative : String}, path ∈ hunk.paths → inside path = .ok relative →
      place ≠ key relative := by
    intro path relative member gate same
    exact other ⟨path, member, relative, gate, same.symm⟩
  cases applies with
  | add gate => exact Function.update_of_ne (apart (by simp [Hunk.paths]) gate) _ _
  | delete gate held => exact Function.update_of_ne (apart (by simp [Hunk.paths]) gate) _ _
  | update gate held applied stays =>
      exact Function.update_of_ne (apart (by simp [Hunk.paths]) gate) _ _
  | move gate held applied gate' leaves =>
      rw [Function.update_of_ne (apart (by simp [Hunk.paths]) gate'),
        Function.update_of_ne (apart (by simp [Hunk.paths]) gate)]

theorem OneByOne.unnamed {tree out : Tree} {hunks : List (Hunk Chunk)} {place : List String}
    (applied : OneByOne lib tree hunks out) (others : ∀ hunk ∈ hunks, ¬ hunk.Names place) :
    out place = tree place := by
  induction applied with
  | nil tree => rfl
  | cons first rest ih =>
      rw [List.forall_mem_cons] at others
      exact (ih others.2).trans (first.unnamed others.1)

/-! ## The file calls -/

namespace Workspace

/-- The executor writes no file at `path`: a directory stands there, or a file above. -/
def refusesWrite (w : Workspace) (path : String) : Bool :=
  slashed path || w.directories (key path) || w.under (key path)

theorem write_ok {w : Workspace} {path : String} (gated : Gated path)
    (free : w.refusesWrite path = false) (content : ByteArray) :
    (w.write path content).1 = .ok () ∧
      (w.write path content).2.files = Function.update w.files (key path) (some content) := by
  simp only [refusesWrite, Bool.or_eq_false_iff] at free
  obtain ⟨⟨plain, vacant⟩, free⟩ := free
  unfold key at vacant free
  have open_ : ¬ (slashed path = true ∨ w.directories (components path) = true) := by
    rw [plain, vacant]
    simp
  unfold write
  rw [gated.inside]
  dsimp only
  rw [dif_pos free, dif_neg open_]
  refine ⟨rfl, ?_⟩
  funext place
  rw [Function.update_apply]
  rfl

theorem delete_ok {w : Workspace} {path : String} {content : ByteArray} (gated : Gated path)
    (plain : slashed path = false) (held : w.files (key path) = some content) :
    (w.delete path).1 = .ok () ∧
      (w.delete path).2.files = Function.update w.files (key path) none := by
  have found : w.files (components path) = some content := held
  unfold delete
  rw [gated.inside]
  simp only [found, plain, Bool.false_eq_true, if_false]
  refine ⟨trivial, ?_⟩
  funext place
  rw [Function.update_apply]
  rfl

end Workspace

theorem fromUTF8?_eq_some {content : ByteArray} {text : String} :
    String.fromUTF8? content = some text ↔ content = text.toUTF8 := by
  unfold String.fromUTF8?
  constructor
  · intro read
    split at read
    · cases read
      rfl
    · cases read
  · rintro rfl
    exact dif_pos text.isValidUTF8

theorem extract_whole {content : ByteArray} {limit : Nat} (short : content.size ≤ limit) :
    content.extract 0 limit = content := by
  have longer := ByteArray.extract_zero_max_size (a := content) (i := limit)
  rwa [Nat.max_eq_left short] at longer

theorem whole_ok {w : Workspace} {path text : String} (gated : Gated path) :
    whole lib w path = .ok text ↔ slashed path = false ∧
      w.files (key path) = some text.toUTF8 ∧ text.utf8ByteSize ≤ maxReadBytes := by
  unfold whole Workspace.read key
  rw [gated.inside]
  dsimp only
  rw [Nat.min_self]
  cases found : w.files (components path) with
  | none =>
      simp only [reduceCtorEq, false_and, and_false, iff_false]
      split
      · nofun
      · rename_i fetched
        split at fetched
        · cases fetched
        · split at fetched
          · cases fetched
          · cases fetched
  | some content =>
      cases plain : slashed path with
      | true => simp
      | false =>
          by_cases long : maxReadBytes < content.size
          · simp only [Bool.false_eq_true, if_false, decide_eq_true long, if_true, reduceCtorEq,
              true_and, Option.some.injEq, false_iff, not_and, Nat.not_le]
            rintro rfl
            exact long
          · have short : content.size ≤ maxReadBytes := Nat.le_of_not_lt long
            simp only [Bool.false_eq_true, if_false, decide_eq_false long, extract_whole short,
              true_and, Option.some.injEq]
            constructor
            · intro read
              split at read
              · rename_i text' decoded
                cases read
                obtain rfl := fromUTF8?_eq_some.mp decoded
                exact ⟨rfl, short⟩
              · cases read
            · rintro ⟨same, -⟩
              rw [fromUTF8?_eq_some.mpr same]

/-! ## The overlay over the files -/

namespace Overlay

def over_ (overlay : Overlay) (tree : Tree) : Tree := fun place =>
  match overlay place with
  | some text => text.map String.toUTF8
  | none => tree place

def Fits (overlay : Overlay) : Prop :=
  ∀ place text, overlay place = some (some text) → text.utf8ByteSize ≤ maxReadBytes

theorem over_leave (overlay : Overlay) (tree : Tree) (path : String) (text : Option String) :
    (overlay.leave path text).over_ tree =
      Function.update (overlay.over_ tree) (key path) (text.map String.toUTF8) := by
  funext place
  rw [Function.update_apply]
  unfold over_ leave
  by_cases here : place = key path
  · rw [if_pos here, if_pos here]
  · rw [if_neg here, if_neg here]

theorem Fits.leave {overlay : Overlay} (fit : overlay.Fits) {path : String} {text : Option String}
    (short : ∀ kept ∈ text, kept.utf8ByteSize ≤ maxReadBytes) : (overlay.leave path text).Fits := by
  intro place kept held
  unfold Overlay.leave at held
  split at held
  · exact short kept (Option.some.inj held)
  · exact fit place kept held

end Overlay

theorem fits_ok {path text : String} (fit : fits path text = .ok ()) :
    text.utf8ByteSize ≤ maxReadBytes := by
  unfold fits at fit
  split at fit
  · cases fit
  · omega

theorem text_held {w : Workspace} {overlay : Overlay} {path text : String} (gated : Gated path)
    (fit : overlay.Fits) (read : overlay.text lib w path = .ok text) :
    overlay.over_ w.files (key path) = some text.toUTF8 ∧ text.utf8ByteSize ≤ maxReadBytes := by
  unfold Overlay.text at read
  unfold Overlay.over_
  split at read
  · rename_i kept held
    cases read
    rw [held]
    exact ⟨rfl, fit _ _ held⟩
  · cases read
  · rename_i absent
    rw [absent]
    exact ((whole_ok gated).mp read).2

/-! ## Landing -/

/-- The executor makes no file at a path a step names, for what stands at it or above. -/
def Planned.hindered (w : Workspace) : Planned Chunk → Bool
  | .add path _ => w.refusesWrite path
  | .delete path _ => slashed path
  | .update path movedTo _ _ _ => slashed path || w.refusesWrite (movedTo.getD path)

theorem write_lands (lib : Libraries Chunk) {w : Workspace} {path : String} (gated : Gated path)
    (free : w.refusesWrite path = false) (text : String) :
    (write lib w path text).1 = .ok () ∧
      (write lib w path text).2.files = Function.update w.files (key path) (some text.toUTF8) := by
  obtain ⟨done, files⟩ := Workspace.write_ok gated free text.toUTF8
  refine ⟨?_, files⟩
  unfold write answer
  rw [done]
  rfl

theorem delete_lands (lib : Libraries Chunk) {w : Workspace} {path : String}
    {content : ByteArray} (gated : Gated path)
    (plain : slashed path = false) (held : w.files (key path) = some content) :
    (delete lib w path).1 = .ok () ∧
      (delete lib w path).2.files = Function.update w.files (key path) none := by
  obtain ⟨done, files⟩ := Workspace.delete_ok gated plain held
  refine ⟨?_, files⟩
  unfold delete answer
  rw [done]
  rfl

inductive PlannedOn (lib : Libraries Chunk) (w : Workspace) (overlay : Overlay) :
    Hunk Chunk → Planned Chunk → Overlay → Prop
  | add {path relative contents : String} (gate : inside path = .ok relative)
      (fit : fits relative contents = .ok ()) :
      PlannedOn lib w overlay (.addFile path contents) (.add relative contents)
        (overlay.leave relative (some contents))
  | delete {path relative text : String} (gate : inside path = .ok relative)
      (read : overlay.text lib w relative = .ok text) :
      PlannedOn lib w overlay (.deleteFile path) (.delete relative (lineCount text))
        (overlay.leave relative none)
  | update {path relative text : String} {movePath movedTo : Option String} {chunks : List Chunk}
      {updated : Updated} (gate : inside path = .ok relative)
      (gates : movePath.mapM inside = .ok movedTo) (read : overlay.text lib w relative = .ok text)
      (applied : lib.updated relative text chunks = .ok updated)
      (fit : fits ((movedTo.filter (key · ≠ key relative)).getD relative) updated.contents =
        .ok ()) :
      PlannedOn lib w overlay (.updateFile path movePath chunks)
        (.update relative (movedTo.filter (key · ≠ key relative)) chunks updated.added
          updated.removed)
        (overlay.update relative (movedTo.filter (key · ≠ key relative)) updated.contents)

theorem mapError_ok {Error Other A : Type} {result : Except Error A} {change : Error → Other}
    {answer : A} (held : result.mapError change = .ok answer) : result = .ok answer := by
  cases result with
  | error refused => cases held
  | ok found =>
      cases held
      rfl

theorem plan_ok {w : Workspace} {overlay overlay' : Overlay} {hunk : Hunk Chunk}
    {planned : Planned Chunk} (done : plan lib w overlay hunk = .ok (planned, overlay')) :
    PlannedOn lib w overlay hunk planned overlay' := by
  cases hunk with
  | addFile path contents =>
      obtain ⟨relative, gate, rest⟩ := bind_eq_ok.mp done
      obtain ⟨_, fit, rest⟩ := bind_eq_ok.mp rest
      cases rest
      exact .add gate fit
  | deleteFile path =>
      obtain ⟨relative, gate, rest⟩ := bind_eq_ok.mp done
      obtain ⟨text, read, rest⟩ := bind_eq_ok.mp rest
      cases rest
      exact .delete gate read
  | updateFile path movePath chunks =>
      obtain ⟨relative, gate, rest⟩ := bind_eq_ok.mp done
      obtain ⟨movedTo, gates, rest⟩ := bind_eq_ok.mp rest
      obtain ⟨text, read, rest⟩ := bind_eq_ok.mp rest
      obtain ⟨updated, applied, rest⟩ := bind_eq_ok.mp rest
      obtain ⟨_, fit, rest⟩ := bind_eq_ok.mp rest
      cases rest
      exact .update gate gates read (mapError_ok applied) fit

theorem mapM_inside {movePath movedTo : Option String}
    (gates : movePath.mapM inside = .ok movedTo) :
    (movePath = none ∧ movedTo = none) ∨
      ∃ named target, movePath = some named ∧ movedTo = some target ∧
        inside named = .ok target := by
  cases movePath with
  | none =>
      cases gates
      exact .inl ⟨rfl, rfl⟩
  | some named =>
      obtain ⟨target, gate, rest⟩ := bind_eq_ok.mp gates
      cases rest
      exact .inr ⟨named, target, rfl, rfl, gate⟩

theorem land_update {w : Workspace} {path text : String} {movedTo : Option String}
    {chunks : List Chunk} {updated : Updated} {added removed : Nat}
    (read : whole lib w path = .ok text) (applied : lib.updated path text chunks = .ok updated)
    (fit : fits (movedTo.getD path) updated.contents = .ok ())
    (lands : (write lib w (movedTo.getD path) updated.contents).1 = .ok ()) :
    land lib w (.update path movedTo chunks added removed) =
      if movedTo.isSome then delete lib (write lib w (movedTo.getD path) updated.contents).2 path
      else (.ok (), (write lib w (movedTo.getD path) updated.contents).2) := by
  have again : (do
      let now ← whole lib w path
      let updated ← (lib.updated path now chunks).mapError invalid
      fits (movedTo.getD path) updated.contents
      return updated) = Except.ok updated := by
    refine bind_eq_ok.mpr ⟨text, read, bind_eq_ok.mpr ⟨updated, ?_, ?_⟩⟩
    · rw [applied]
      rfl
    · exact bind_eq_ok.mpr ⟨(), fit, rfl⟩
  unfold land
  dsimp only
  rw [again]
  dsimp only
  split
  · rename_i refused
    rw [refused] at lands
    cases lands
  · rename_i landed
    rw [landed]

theorem land_step {w cur : Workspace} {overlay overlay' : Overlay} {hunk : Hunk Chunk}
    {planned : Planned Chunk} (fit : overlay.Fits) (agree : cur.files = overlay.over_ w.files)
    (done : PlannedOn lib w overlay hunk planned overlay') (free : planned.hindered cur = false) :
    (land lib cur planned).1 = .ok () ∧
      (land lib cur planned).2.files = overlay'.over_ w.files ∧ overlay'.Fits ∧
        Applies lib cur.files hunk (land lib cur planned).2.files := by
  cases done with
  | @add path relative contents gate short =>
      have gated := gated_of_inside gate
      obtain ⟨landed, files⟩ := write_lands lib gated free contents
      refine ⟨landed, ?_, fit.leave ?_, ?_⟩
      · rw [Overlay.over_leave, ← agree]
        exact files
      · intro kept same
        cases same
        exact fits_ok short
      · rw [show (land lib cur (.add relative contents)).2.files = _ from files]
        exact .add gate
  | @delete path relative text gate read =>
      have gated := gated_of_inside gate
      obtain ⟨held, -⟩ := text_held gated fit read
      rw [← agree] at held
      obtain ⟨landed, files⟩ := delete_lands lib gated free held
      refine ⟨landed, ?_, fit.leave nofun, ?_⟩
      · rw [Overlay.over_leave, ← agree]
        exact files
      · rw [show (land lib cur (.delete relative (lineCount text))).2.files = _ from files]
        exact .delete gate held
  | @update path relative text movePath movedTo chunks updated gate gates read applied short =>
      have gated := gated_of_inside gate
      obtain ⟨held, small⟩ := text_held gated fit read
      rw [← agree] at held
      rw [Planned.hindered, Bool.or_eq_false_iff] at free
      have now : whole lib cur relative = .ok text := (whole_ok gated).mpr ⟨free.1, held, small⟩
      cases moved : movedTo.filter (key · ≠ key relative) with
      | none =>
          rw [moved] at short free
          obtain ⟨written, files⟩ := write_lands lib gated free.2 updated.contents
          rw [land_update now applied short written]
          refine ⟨rfl, ?_, fit.leave ?_, ?_⟩
          · refine Eq.trans files ?_
            rw [agree]
            exact (overlay.over_leave w.files relative (some updated.contents)).symm
          · intro kept same
            cases same
            exact fits_ok short
          · refine files ▸ .update gate held applied ?_
            intro named member
            rcases mapM_inside gates with ⟨rfl, -⟩ | ⟨again, target, rfl, rfl, gate'⟩
            · cases member
            · cases member
              refine ⟨target, gate', ?_⟩
              simpa using moved
      | some target =>
          rw [moved] at short free
          obtain ⟨rfl, leaves⟩ : movedTo = some target ∧ key target ≠ key relative := by
            simpa using Option.filter_eq_some_iff.mp moved
          rcases mapM_inside gates with ⟨-, absent⟩ | ⟨named, again, rfl, same, gate'⟩
          · cases absent
          · cases same
            obtain ⟨written, files⟩ :=
              write_lands lib (gated_of_inside gate') free.2 updated.contents
            have still : (write lib cur target updated.contents).2.files (key relative) =
                some text.toUTF8 := by
              rw [files, Function.update_of_ne (Ne.symm leaves), held]
            obtain ⟨deleted, files'⟩ := delete_lands lib gated free.1 still
            rw [files, Function.update_comm leaves] at files'
            rw [land_update now applied short written]
            have gone : (overlay.leave relative none).Fits := fit.leave nofun
            refine ⟨deleted, ?_, gone.leave ?_, ?_⟩
            · have described := (overlay.leave relative none).over_leave w.files target
                (some updated.contents)
              rw [overlay.over_leave w.files relative none, ← agree] at described
              exact files'.trans described.symm
            · intro kept same
              cases same
              exact fits_ok short
            · exact files' ▸ .move gate held applied gate' leaves

/-- Some step of the landing meets a place the executor makes no file at. -/
def hindered (lib : Libraries Chunk) : Workspace → List (Planned Chunk) → Bool
  | _, [] => false
  | w, step :: rest => step.hindered w || hindered lib (land lib w step).2 rest

theorem land_all {w cur : Workspace} {overlay overlay' : Overlay} {hunks : List (Hunk Chunk)}
    {planned : List (Planned Chunk)} (fit : overlay.Fits)
    (agree : cur.files = overlay.over_ w.files)
    (done : planAll lib w overlay hunks = .ok (planned, overlay'))
    (free : hindered lib cur planned = false) :
    (landAll lib cur planned).1 = .ok () ∧
      (landAll lib cur planned).2.files = overlay'.over_ w.files ∧
        OneByOne lib cur.files hunks (landAll lib cur planned).2.files := by
  induction hunks generalizing cur overlay planned with
  | nil =>
      cases done
      exact ⟨rfl, agree, .nil _⟩
  | cons hunk hunks ih =>
      obtain ⟨⟨step, mid⟩, here, rest⟩ := bind_eq_ok.mp done
      obtain ⟨⟨steps, last⟩, there, rest⟩ := bind_eq_ok.mp rest
      cases rest
      rw [hindered, Bool.or_eq_false_iff] at free
      obtain ⟨landed, files, fit', applies⟩ := land_step fit agree (plan_ok here) free.1
      obtain ⟨all_landed, all_files, one_by_one⟩ := ih fit' files there free.2
      have taken : landAll lib cur (step :: steps) = landAll lib (land lib cur step).2 steps := by
        rw [landAll]
        split
        · rename_i refused
          rw [refused] at landed
          cases landed
        · rename_i next
          rw [next]
      rw [taken]
      exact ⟨all_landed, all_files, .cons applies one_by_one⟩

structure TwoPhase (lib : Libraries Chunk) (w : Workspace) (patch : String)
    (hunks : List (Hunk Chunk)) : Prop where
  refused : ∀ output, planAll lib w (fun _ => none) hunks = .error output →
    apply lib w patch = (.error output, w)
  landed : ∀ planned overlay, planAll lib w (fun _ => none) hunks = .ok (planned, overlay) →
    hindered lib w planned = false →
      (apply lib w patch).1 = .ok (.succeeded (summary planned)) ∧
        (apply lib w patch).2.files = overlay.over_ w.files ∧
          OneByOne lib w.files hunks (apply lib w patch).2.files ∧
            ∀ place, (∀ hunk ∈ hunks, ¬ hunk.Names place) →
              (apply lib w patch).2.files place = w.files place

theorem apply_eq {w : Workspace} {patch : String} {hunks : List (Hunk Chunk)}
    (parsed : lib.parsePatch patch = .ok hunks) (some_hunk : hunks ≠ []) :
    apply lib w patch =
      match planAll lib w (fun _ => none) hunks with
      | .error output => (.error output, w)
      | .ok (planned, _) =>
          ((landAll lib w planned).1.map fun _ => .succeeded (summary planned),
            (landAll lib w planned).2) := by
  have some_hunk' : ¬ hunks.isEmpty = true := by
    rw [List.isEmpty_iff]
    exact some_hunk
  unfold apply
  rw [parsed]
  exact if_neg some_hunk'

/-- A patch whose plan fails changes nothing; one that is planned lands, unless the executor
makes no file where it names one, and leaves what the overlay describes. -/
theorem two_phase (lib : Libraries Chunk) (w : Workspace) (patch : String) :
    (∀ why, lib.parsePatch patch = .error why → (apply lib w patch).2 = w) ∧
      ∀ hunks, lib.parsePatch patch = .ok hunks → hunks ≠ [] → TwoPhase lib w patch hunks := by
  constructor
  · intro why refused
    unfold apply
    rw [refused]
    rfl
  · intro hunks parsed some_hunk
    have whole_patch := apply_eq (w := w) parsed some_hunk
    refine ⟨fun output refused => ?_, fun planned overlay done free => ?_⟩
    · rw [whole_patch, refused]
    · have start : Overlay.Fits fun _ => none := nofun
      obtain ⟨landed, files, one_by_one⟩ := land_all start rfl done free
      rw [whole_patch, done]
      dsimp only
      refine ⟨?_, files, one_by_one, fun place others => one_by_one.unnamed others⟩
      rw [landed]
      rfl

end Landing

end Agentsfleet.Patch
