import Agentsfleet.Custody.Runs

/-!
# What a checkpoint promises

A checkpoint that is ready can be restored, for as long as it stands: its manifest is whole and
everything the manifest names is in the bucket.  A restore that was handed its objects keeps
them for as long as its pin stands, whatever is deleted meanwhile.
-/

set_option autoImplicit false

namespace Agentsfleet.Custody

open Agentsfleet.Library
open Agentsfleet.Recovery (CheckpointPage)

def Tables.Reads (t : Tables) (plan : Plan) (owner : Owner) (ids : List String) : Prop :=
  (∃ base ∈ t.bases, plan.base = some base.id ∧ owner = .base base.id ∧ ids = base.pageIds) ∨
    plan.mode = .incremental ∧ owner = .checkpoint plan.id ∧ ids = plan.pageIds

/-- Everything a restore of `plan` reads is there, and opens. -/
structure Store.Restorable (s : Store) (plan : Plan) : Prop where
  base : ∀ id, plan.base = some id → ∃ base ∈ s.tables.bases, base.id = id ∧
    base.workspace = plan.workspace ∧ base.ready = true
  pages : ∀ owner ids, s.tables.Reads plan owner ids → ∀ id ∈ ids, ∃ page ∈ s.tables.pages,
    page.id = id ∧ page.owner = owner ∧ ∃ digest contents, page.body = some (digest, contents) ∧
      ∀ object ∈ namedObjects contents, ∃ row ∈ s.tables.objects, row.id = object ∧
        row.workspace = plan.workspace ∧ row.verified = true ∧ row.tombstoned = false ∧
          ∃ descriptor, row.ciphertext = some descriptor ∧ s.Readable object descriptor

/-! ## A run -/

def lettered (n : Nat) : String := String.ofList (List.replicate n 'u')

theorem lettered_injective : Function.Injective lettered := by
  intro m n same
  have lengths := congrArg (fun text => text.toList.length) same
  simpa [lettered] using lengths

def plainDigests : Digests :=
  ⟨fun _ => "sha", fun _ => "root", fun _ => "history", fun _ _ _ => "content",
    fun _ _ => "request"⟩

def saver : Execution := ⟨"lease", 1, "fleet", lettered 0, "task", 1, 0, 0, 0⟩

def saving : List (Nat × Event) :=
  [(0, .found),
    (0, .open_ ⟨"task", "fleet", lettered 0, .apiOnly, 1, 0, true, none, 100000000, none, 0⟩),
    (1, .create saver ⟨"operation", .incremental, none, none, "toolbox", 1, 1000, 0, 0⟩),
    (1, .register saver (lettered 3) (lettered 4) [⟨"sha", 5, "history"⟩]),
    (1, .uploads saver (lettered 3) (lettered 4) [(lettered 6, ⟨"cipher", 21⟩)]),
    (1, .issue 0 0), (1, .put 0 true),
    (1, .authorize saver (lettered 3) (some (lettered 4)) .upload [lettered 6]),
    (1, .issue 1 0), (1, .record 1),
    (1, .write saver (lettered 3) (lettered 4) (lettered 1) "sha" ⟨0, [], [lettered 6]⟩),
    (1, .publish saver (lettered 3) (lettered 4) ⟨"root", "history", 0, 0⟩)]

/-! ## Restores -/

section Restores

variable (digests : Digests) {uuid7 : Nat → String} {inFlight : Nat} {s : Store}

theorem readable_of_verified (safe : s.Safe uuid7) {owner : Owner} {workspace : String}
    (only : ∀ other, s.tables.Owns other owner → other = workspace)
    (verified : s.tables.Verified owner) {ids : List String} (paged : s.tables.Paged owner ids) :
    ∀ id ∈ ids, ∃ page ∈ s.tables.pages, page.id = id ∧ page.owner = owner ∧
      ∃ digest contents, page.body = some (digest, contents) ∧
        ∀ object ∈ namedObjects contents, ∃ row ∈ s.tables.objects, row.id = object ∧
          row.workspace = workspace ∧ row.verified = true ∧ row.tombstoned = false ∧
            ∃ descriptor, row.ciphertext = some descriptor ∧ s.Readable object descriptor := by
  intro id member
  obtain ⟨page, held, same, ofOwner, body⟩ := paged id member
  obtain ⟨⟨digest, contents⟩, body⟩ := Option.isSome_iff_exists.mp body
  refine ⟨page, held, same, ofOwner, digest, contents, body, fun object named => ?_⟩
  obtain ⟨ref, among, refers, refOwner⟩ :=
    safe.sound.manifests.named page held digest contents body object named
  obtain ⟨row, inside, isObject, ofWorkspace⟩ := safe.sound.manifests.refsHeld ref among
  have isVerified := verified ref among (refOwner.trans ofOwner) row inside isObject
  have its : ref.workspace = workspace := by
    have owns := safe.sound.manifests.refsOwned ref among
    rw [refOwner, ofOwner] at owns
    exact only _ owns
  obtain ⟨descriptor, frozen, reads⟩ := safe.holds.verified row inside isVerified
  have isRow : row.id = object := isObject.trans refers
  exact ⟨row, inside, isRow, ofWorkspace.trans its, isVerified,
    safe.sound.ledger.standing row inside, descriptor, frozen, isRow ▸ reads⟩

theorem restorable_of_safe (safe : s.Safe uuid7) {plan : Plan} (held : plan ∈ s.tables.plans)
    (ready : plan.ready = true) : s.Restorable plan := by
  have sound := safe.sound.manifests
  have under : ∀ id, plan.base = some id → ∃ base ∈ s.tables.bases, base.id = id ∧
      base.workspace = plan.workspace ∧ base.ready = true := by
    intro id isBase
    obtain ⟨base, inside, same, ofWorkspace, isOver⟩ := sound.rests plan held id isBase
    refine ⟨base, inside, same, ofWorkspace, ?_⟩
    cases mode : plan.mode with
    | incremental => exact isOver.incremental mode
    | retainBase => exact isOver.ready mode ready
  refine ⟨under, ?_⟩
  rintro owner ids (⟨base, inside, isBase, rfl, rfl⟩ | ⟨mode, rfl, rfl⟩)
  · obtain ⟨other, among, same, ofWorkspace, made⟩ := under base.id isBase
    rw [base_unique sound among inside same] at ofWorkspace made
    apply readable_of_verified safe _ (sound.verifiedBases base inside made)
      (sound.pagedBases base inside made)
    rintro workspace ⟨row, within, same, its⟩
    rw [← its, base_unique sound within inside same, ofWorkspace]
  · apply readable_of_verified safe _ (sound.verifiedPlans plan held ready mode)
      (sound.pagedPlans plan held ready mode)
    rintro workspace ⟨row, within, same, its⟩
    rw [← its, plan_unique sound within held same]

/-- In every state of every run, a checkpoint that is ready can be restored, and what a task
points at is a ready checkpoint of its own. -/
theorem ready_is_restorable (injective : Function.Injective uuid7)
    (late : (inFlight : Int) ≤ protectMs) (events : List (Nat × Event)) :
    ∀ s ∈ Run.states (Store.step digests uuid7 inFlight) Store.start events,
      (∀ plan ∈ s.tables.plans, plan.ready = true → s.Restorable plan) ∧
        ∀ task ∈ s.tables.tasks, ∀ id, task.checkpoint = some id →
          ∃ plan ∈ s.tables.plans, plan.id = id ∧ plan.task = task.id ∧ plan.ready = true ∧
            s.Restorable plan := by
  intro s reached
  have safe := safe_run injective late events s reached
  refine ⟨fun plan held ready => restorable_of_safe safe held ready, ?_⟩
  intro task member id pointer
  obtain ⟨plan, held, same, ofTask, ready, -⟩ :=
    safe.sound.manifests.pointers task member id pointer
  exact ⟨plan, held, same, ofTask, ready, restorable_of_safe safe held ready⟩

theorem ready_is_restorable_saved :
    let s := Run.final (Store.step plainDigests lettered 1000) Store.start saving
    (∃ plan ∈ s.tables.plans, plan.ready = true ∧ s.Restorable plan) ∧
      s.tables.pages.map Page.id = [lettered 1] ∧ s.bucket.map Stored.object = [lettered 6] := by
  have late : ((1000 : Nat) : Int) ≤ protectMs := by decide
  have stands := ready_is_restorable plainDigests lettered_injective late saving _
    (Run.final_mem_states (Store.step plainDigests lettered 1000) Store.start saving)
  have some_ready : (Run.final (Store.step plainDigests lettered 1000) Store.start
      saving).tables.plans.any Plan.ready = true := by decide +kernel
  obtain ⟨plan, held, ready⟩ := List.any_eq_true.mp some_ready
  refine ⟨⟨plan, held, ready, stands.1 plan held ready⟩, ?_, ?_⟩
  all_goals decide +kernel

/-- What a restore was handed is in the bucket for as long as its pin stands, and longer. -/
theorem handed_is_readable (injective : Function.Injective uuid7)
    (late : (inFlight : Int) ≤ protectMs) (events : List (Nat × Event)) :
    ∀ s ∈ Run.states (Store.step digests uuid7 inFlight) Store.start events,
      ∀ batch ∈ s.batches, batch.purpose = .restore →
        s.clock < batch.pin.expiresAt + protectMs → ∀ row ∈ batch.objects,
          ∃ descriptor, row.ciphertext = some descriptor ∧ s.Readable row.id descriptor := by
  intro s reached batch member purpose before row inside
  obtain ⟨descriptor, frozen, reads⟩ :=
    (safe_run injective late events s reached).served batch member purpose row inside
  exact ⟨descriptor, frozen, reads before⟩

/-- A restore of the run's checkpoint, whose workspace is deleted meanwhile. -/
def restoring : List (Nat × Event) :=
  saving ++
    [(1, .authorize saver (lettered 3) none .restore []),
      (1, .authorize saver (lettered 3) (some (lettered 8)) .restore [lettered 6]),
      (1, .dropWorkspace (lettered 0))]

theorem handed_is_readable_dropped :
    let s := Run.final (Store.step plainDigests lettered 1000) Store.start restoring
    s.tables.objects.length = 0 ∧ ∃ batch ∈ s.batches, batch.purpose = .restore ∧
      ∃ row ∈ batch.objects, row.id = lettered 6 ∧
        ∃ descriptor, row.ciphertext = some descriptor ∧ s.Readable row.id descriptor := by
  have late : ((1000 : Nat) : Int) ≤ protectMs := by decide
  have stands := handed_is_readable plainDigests lettered_injective late restoring _
    (Run.final_mem_states (Store.step plainDigests lettered 1000) Store.start restoring)
  have handed : (Run.final (Store.step plainDigests lettered 1000) Store.start
      restoring).batches.any (fun batch => batch.purpose == .restore &&
        decide ((Run.final (Store.step plainDigests lettered 1000) Store.start restoring).clock <
          batch.pin.expiresAt + protectMs) &&
            batch.objects.any fun row => row.id == lettered 6) = true := by decide +kernel
  obtain ⟨batch, member, picked⟩ := List.any_eq_true.mp handed
  simp only [Bool.and_eq_true, beq_iff_eq, decide_eq_true_eq] at picked
  obtain ⟨⟨purpose, before⟩, named⟩ := picked
  obtain ⟨row, inside, same⟩ := List.any_eq_true.mp named
  refine ⟨by decide +kernel, batch, member, purpose, row, inside, beq_iff_eq.mp same, ?_⟩
  exact stands batch member purpose before row inside

end Restores

end Agentsfleet.Custody
