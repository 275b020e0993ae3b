import Agentsfleet.Custody.Manifests

/-!
# Transactions as their statements

Each transaction, with what it proves before it writes, is a chain of the statements whose
effect is known.
-/

set_option autoImplicit false

namespace Agentsfleet.Custody

open Agentsfleet.Core
open Agentsfleet.Library
open Agentsfleet.Recovery (CheckpointEntry CheckpointPage)

variable {drawn : String → Prop} {stored : String → Descriptor → Prop}
  {gone drops : String → Prop}
  {t after : Tables}

@[simp] theorem require_eq_ok {holds : Prop} [Decidable holds] {refusal : TaskRefusal} {done : Unit} :
    require holds refusal = .ok done ↔ holds := by
  unfold require
  split <;> simp_all

@[simp] theorem found_eq_ok {A : Type} {value : Option A} {refusal : TaskRefusal} {held : A} :
    found value refusal = .ok held ↔ value = some held := by
  cases value <;> simp [found]

theorem any_congr_of_mem {Row : Type} {rows : List Row} {picks other : Row → Bool}
    (same : ∀ row ∈ rows, picks row = other row) : rows.any picks = rows.any other := by
  induction rows with
  | nil => rfl
  | cons row rest ih =>
      rw [List.any_cons, List.any_cons, same row List.mem_cons_self,
        ih fun other member => same other (List.mem_cons_of_mem _ member)]

/-! ## Quota -/

@[simp] theorem quota_workspaces (workspace : String) :
    (t.quota workspace).workspaces = t.workspaces := by
  unfold Tables.quota
  split <;> rfl

@[simp] theorem quota_plans (workspace : String) : (t.quota workspace).plans = t.plans := by
  unfold Tables.quota
  split <;> rfl

@[simp] theorem quota_bases (workspace : String) : (t.quota workspace).bases = t.bases := by
  unfold Tables.quota
  split <;> rfl

@[simp] theorem quota_objects (workspace : String) : (t.quota workspace).objects = t.objects := by
  unfold Tables.quota
  split <;> rfl

@[simp] theorem quota_purges (workspace : String) : (t.quota workspace).purges = t.purges := by
  unfold Tables.quota
  split <;> rfl

/-! ## What every transaction keeps -/

structure Sound (drawn : String → Prop) (t : Tables) : Prop where
  ledger : Ledger drawn t
  manifests : Manifests drawn t

theorem Sound.mono {further : String → Prop} (more : ∀ id, drawn id → further id)
    (sound : Sound drawn t) : Sound further t :=
  ⟨sound.ledger.mono more, sound.manifests.mono more⟩

theorem sound_written (sound : Sound drawn t) (written : Written drawn stored gone drops t after) :
    Sound drawn after := by
  apply written.keeps (Sound drawn) _ sound
  intro t after sound writes
  exact ⟨ledger_writes sound.ledger writes, manifests_writes sound.manifests sound.ledger writes⟩

/-! ## Maintenance -/

theorem retainOne_written (task : String) (held : List (String × Int)) (now : Int)
    (allowed : ∀ row, (t.tasks.find? fun row => row.id == task) = some row →
      ∀ plan ∈ (t.retentionAbandon row held now).plans,
        (t.retentionAbandon row held now).obsolete row now plan = true → drops plan.id) :
    Written drawn stored gone drops t (t.retainOne task held now) := by
  unfold Tables.retainOne
  split
  · exact .refl
  · rename_i row looked
    refine (Written.one (.abandon _ ?_)).then (.dropPlans _ (allowed row looked))
    intro plan picked
    simp only [Bool.and_eq_true, Bool.not_eq_true'] at picked
    exact picked.1.1.2

theorem releaseBase_written (workspace base : String) (now : Int) :
    Written drawn stored gone drops t (t.releaseBase workspace base now) := by
  unfold Tables.releaseBase
  split
  · rename_i known
    refine (Written.one (.quota workspace (List.contains_iff_mem.mp known))).then (.dropBases _ ?_)
    intro row _ picked plan member same
    simp only [Bool.and_eq_true, Tables.baseOrphan, Bool.not_eq_true', List.any_eq_false] at picked
    rw [quota_plans] at member
    exact picked.2.2 plan member (beq_iff_eq.mpr same)
  · exact .refl

theorem collected (ledger : Ledger drawn t) (workspace : String) (ids : List String) (now : Int) :
    (t.orphanTombstone workspace ids now).1.orphanDelete workspace
        (t.orphanTombstone workspace ids now).2 =
      t.dropObjects fun row => row.workspace == workspace && ids.contains row.id &&
        !row.tombstoned && decide (row.reclaimAfter ≤ now) && t.unheld row := by
  let fresh := fun row : Object =>
    row.workspace == workspace && ids.contains row.id && !row.tombstoned &&
      decide (row.reclaimAfter ≤ now) && t.unheld row
  let mark := fun row : Object =>
    if fresh row then { row with tombstoned := true, updatedAt := now } else row
  let picks := fun row : Object => row.workspace == workspace &&
    ((t.objects.filter fresh).map Object.id).contains row.id && row.tombstoned
  have marked : ∀ row ∈ t.objects, picks (mark row) = fresh row := by
    intro row member
    cases isFresh : fresh row with
    | true =>
        have ofWorkspace : (row.workspace == workspace) = true := by
          simp only [fresh, Bool.and_eq_true] at isFresh
          exact isFresh.1.1.1.1
        have listed : ((t.objects.filter fresh).map Object.id).contains row.id = true :=
          List.contains_iff_mem.mpr
            (List.mem_map_of_mem (List.mem_filter.mpr ⟨member, isFresh⟩))
        simp only [picks, mark, isFresh, if_true]
        rw [ofWorkspace, listed]
        rfl
    | false => simp [picks, mark, isFresh, ledger.standing row member]
  have purge_mark : ∀ row : Object, (mark row).purge = row.purge := by
    intro row
    simp only [mark]
    split <;> rfl
  have id_mark : ∀ row : Object, (mark row).id = row.id := by
    intro row
    simp only [mark]
    split <;> rfl
  have objects : ((t.objects.map mark).filter fun row => !picks row) =
      t.objects.filter fun row => !fresh row := by
    rw [List.filter_map, List.filter_congr fun row member => by
      rw [Function.comp_apply, marked row member]]
    refine (List.map_congr_left ?_).trans (List.map_id _)
    intro row member
    have unpicked := (List.mem_filter.mp member).2
    simp only [Bool.not_eq_true'] at unpicked
    simp [mark, unpicked]
  have refs : (t.refs.filter fun ref => !((t.objects.map mark).any fun row =>
      picks row && row.id == ref.object)) =
        t.refs.filter fun ref => !(t.objects.any fun row => fresh row && row.id == ref.object) := by
    apply List.filter_congr
    intro ref _
    rw [List.any_map, any_congr_of_mem]
    intro row member
    rw [Function.comp_apply, marked row member, id_mark]
  have purges : ((t.objects.map mark).filter picks).map Object.purge =
      (t.objects.filter fresh).map Object.purge := by
    rw [List.filter_map, List.map_map, List.filter_congr fun row member => by
      rw [Function.comp_apply, marked row member]]
    apply List.map_congr_left
    exact fun row _ => purge_mark row
  change ({ t with
      objects := (t.objects.map mark).filter fun row => !picks row
      refs := t.refs.filter fun ref => !((t.objects.map mark).any fun row =>
        picks row && row.id == ref.object)
      purges := t.purges ++ (((t.objects.map mark).filter picks).map Object.purge).filter
        fun purge => !(t.purges.any fun row => row.object == purge.object) } : Tables) = _
  rw [objects, refs, purges]
  rfl

theorem collect_written (ledger : Ledger drawn t) (workspace : String) (ids : List String)
    (now : Int) : Written drawn stored gone drops t (t.collect workspace ids now) := by
  unfold Tables.collect
  split
  · rename_i known
    have known := List.contains_iff_mem.mp known
    rw [collected (ledger_quota ledger known)]
    refine (Written.one (.quota workspace known)).then (.dropObjects _ ?_)
    intro row _ picked
    simp only [Bool.and_eq_true] at picked
    exact picked.2
  · exact .refl

theorem acknowledge_written {object workspace : String} (deleted : gone object) :
    Written drawn stored gone drops t (t.acknowledge object workspace) := by
  unfold Tables.acknowledge
  split
  · rename_i known
    exact (Written.one (.quota workspace (List.contains_iff_mem.mp known))).then
      (.complete object workspace deleted)
  · exact .one (.complete object workspace deleted)

theorem purgeClaim_written (distinct : (t.purges.map Purge.object).Nodup) (busy : List String)
    (limit : Nat) (now : Int) : Written drawn stored gone drops t (t.purgeClaim busy limit now) := by
  refine .one (.claim _ _ ?_)
  intro purge member picked
  obtain ⟨due, among, same⟩ := List.mem_map.mp (List.contains_iff_mem.mp picked)
  obtain ⟨held, isDue⟩ := Table.mem_of_mem_select among
  simp only [Bool.and_eq_true, decide_eq_true_eq] at isDue
  have soon := isDue.1.2
  rw [List.inj_on_of_nodup_map distinct held member same] at soon
  have later : 0 < recheckMs := by decide
  omega

theorem record_written {workspace : String} {receipts : List (String × Descriptor)} (now : Int)
    (read : ∀ row ∈ t.objects, ∀ descriptor, described receipts row.id = some descriptor →
      stored row.id descriptor) :
    Written drawn stored gone drops t (t.record workspace receipts now) := by
  unfold Tables.record
  split
  · rename_i known
    refine (Written.one (.quota workspace (List.contains_iff_mem.mp known.2))).then (.verify _ _ _ ?_)
    rw [quota_objects]
    exact read
  · exact .refl

/-! ## Tasks and workspaces -/

theorem dropTask_written (task : String)
    (allowed : ∀ plan ∈ t.plans, plan.task = task → drops plan.id) :
    Written drawn stored gone drops t (t.dropTask task) :=
  (Written.one (.dropPlans _ fun plan member picked => allowed plan member (beq_iff_eq.mp picked))
    ).then (.dropTasks fun row => row.id == task)

theorem dropWorkspace_written (sound : Manifests drawn t) (ledger : Ledger drawn t)
    (workspace : String) (allowed : ∀ plan ∈ t.plans, plan.workspace = workspace → drops plan.id) :
    Written drawn stored gone drops t (t.dropWorkspace workspace) := by
  let planless := t.dropPlans fun plan => plan.workspace == workspace
  let baseless := planless.dropBases fun base => base.workspace == workspace
  let bare := baseless.dropObjects fun row => row.workspace == workspace
  have planless_plans : ∀ plan ∈ planless.plans, plan ∈ t.plans ∧ plan.workspace ≠ workspace := by
    intro plan member
    obtain ⟨held, other⟩ := List.mem_filter.mp member
    exact ⟨held, by simpa using other⟩
  have baseless_bases : ∀ base ∈ baseless.bases, base.workspace ≠ workspace := by
    intro base member
    have other := (List.mem_filter.mp member).2
    simpa using other
  have free : ∀ base ∈ planless.bases, (base.workspace == workspace) = true →
      ∀ plan ∈ planless.plans, plan.base ≠ some base.id := by
    intro base member here plan inside isOver
    obtain ⟨held, elsewhere⟩ := planless_plans plan inside
    obtain ⟨under, among, same, ofWorkspace, -⟩ := sound.rests plan held base.id isOver
    rw [base_unique sound among member same] at ofWorkspace
    exact elsewhere (ofWorkspace.symm.trans (beq_iff_eq.mp here))
  have clean : Manifests drawn baseless :=
    manifests_dropBases (manifests_dropPlans sound _) free
  have unheld : ∀ row ∈ baseless.objects, (row.workspace == workspace) = true →
      baseless.unheld row = true := by
    intro row member here
    rw [Tables.unheld, Bool.not_eq_true', List.any_eq_false]
    intro ref among same
    obtain ⟨held, inside, id, within⟩ := clean.refsHeld ref among
    have row_eq : held = row := List.inj_on_of_nodup_map ledger.objects inside member
      (id.trans (beq_iff_eq.mp same))
    have ofWorkspace : ref.workspace = workspace :=
      within.symm.trans (row_eq ▸ beq_iff_eq.mp here)
    have owns := clean.refsOwned ref among
    rw [ofWorkspace] at owns
    cases owner : ref.owner with
    | checkpoint id =>
        rw [owner] at owns
        obtain ⟨plan, standing, -, its⟩ := owns
        exact (planless_plans plan standing).2 its
    | base id =>
        rw [owner] at owns
        obtain ⟨base, standing, -, its⟩ := owns
        exact baseless_bases base standing its
  have emptied : Written drawn stored gone drops t bare :=
    ((Written.one (.dropPlans _ fun plan member picked =>
      allowed plan member (beq_iff_eq.mp picked))).then (.dropBases _ free)).then
        (.dropObjects _ unheld)
  have cleared := (emptied.then
    (.identities (bare.identities.filter fun row => row.workspace != workspace))).then
      (.dropTasks fun row => row.workspace == workspace)
  refine cleared.then (.leave workspace ?_ ?_ ?_)
  · intro task member
    have other := (List.mem_filter.mp member).2
    simpa using other
  · exact fun plan member => (planless_plans plan member).2
  · intro row member
    have other := (List.mem_filter.mp member).2
    simpa using other

end Agentsfleet.Custody
