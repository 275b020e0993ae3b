import Agentsfleet.Custody.Transactions

/-!
# Requests as their statements

A runner's request proves its execution, its pin and what it names before it writes, and that
is what makes each statement of it one the tables keep their shape under.
-/

set_option autoImplicit false

namespace Agentsfleet.Custody

open Agentsfleet.Core
open Agentsfleet.Library
open Agentsfleet.Recovery (CheckpointEntry CheckpointPage)

variable {before drawn : String → Prop} {stored : String → Descriptor → Prop}
  {gone drops : String → Prop}
  {digests : Digests} {t after : Tables} {e : Execution} {checkpoint pin : String} {now : Int}

structure Draws (before drawn : String → Prop) (ids : Nat → String) (count : Nat) : Prop where
  injective : ∀ i j, ids i = ids j → i = j
  fresh : ∀ k, ¬before (ids k)
  gives : ∀ k < count, drawn (ids k)
  more : ∀ id, before id → drawn id

/-! ## What is proved first -/

theorem attached_spec {task : Task} (proved : t.attached e now = .ok task) :
    task ∈ t.tasks ∧ task.id = e.task ∧ task.workspace = e.workspace := by
  simp only [Tables.attached, bind_eq_ok, found_eq_ok, require_eq_ok, pure, Except.pure,
    Except.ok.injEq] at proved
  obtain ⟨row, looked, _, -, rfl⟩ := proved
  have picked := List.find?_some looked
  simp only [Bool.and_eq_true, beq_iff_eq] at picked
  exact ⟨List.mem_of_find?_eq_some looked, picked.1.1, picked.2⟩

theorem planOf_spec {task : String} {plan : Plan} (looked : t.planOf checkpoint task = some plan) :
    plan ∈ t.plans ∧ plan.id = checkpoint ∧ plan.task = task := by
  have picked := List.find?_some looked
  simp only [Bool.and_eq_true, beq_iff_eq] at picked
  exact ⟨List.mem_of_find?_eq_some looked, picked⟩

theorem owned_spec {purpose : Purpose} {plan : Plan} {held : Pin}
    (proved : t.owned e checkpoint pin purpose now = .ok (plan, held)) :
    plan ∈ t.plans ∧ plan.id = checkpoint ∧ plan.task = e.task ∧ plan.compatible e purpose ∧
      held ∈ t.pins ∧ held.Held e now := by
  simp only [Tables.owned, bind_eq_ok, found_eq_ok, require_eq_ok, pure, Except.pure,
    Except.ok.injEq, Prod.mk.injEq] at proved
  obtain ⟨_, -, row, looked, found, pinned, _, ⟨live, -⟩, _, compatible, _, -, rfl, rfl⟩ := proved
  obtain ⟨member, id, task⟩ := planOf_spec looked
  exact ⟨member, id, task, compatible, List.mem_of_find?_eq_some pinned, live⟩

theorem uploadable {plan : Plan} (compatible : plan.compatible e .upload) :
    plan.ready = false ∧ plan.abandoned = false :=
  ⟨compatible.2.2.2.1, compatible.1⟩

theorem holder_open (sound : Manifests drawn t) {plan : Plan} {holder : Owner}
    (held : plan ∈ t.plans) (unready : plan.ready = false) (stands : plan.abandoned = false)
    (holds : plan.holder = .ok holder) : t.Open plan.workspace holder := by
  cases mode : plan.mode with
  | incremental =>
      simp only [Plan.holder, mode, Except.ok.injEq] at holds
      subst holds
      exact ⟨plan, held, rfl, mode, rfl, unready⟩
  | retainBase =>
      obtain ⟨id, isBase⟩ := Option.ne_none_iff_exists'.mp (sound.retains plan held mode)
      simp only [Plan.holder, mode, isBase, Except.ok.injEq] at holds
      subst holds
      obtain ⟨base, under, same, ofWorkspace, isOver⟩ := sound.rests plan held id isBase
      exact ⟨base, under, same, ofWorkspace, (isOver.unready mode unready stands).1⟩

theorem Tables.Open.updated {workspace : String} {owner : Owner} (open_ : t.Open workspace owner)
    {picks : Plan → Bool} {change : Plan → Plan}
    (kept : ∀ row, (change row).id = row.id ∧ (change row).mode = row.mode ∧
      (change row).workspace = row.workspace ∧ (change row).ready = row.ready)
    (plans : after.plans = Table.update picks change t.plans) (bases : after.bases = t.bases) :
    after.Open workspace owner := by
  cases owner with
  | checkpoint id =>
      obtain ⟨plan, held, same, mode, ofWorkspace, unready⟩ := open_
      obtain ⟨id', mode', workspace', ready'⟩ := kept plan
      refine ⟨if picks plan then change plan else plan, ?_, ?_⟩
      · rw [plans]
        exact Table.mem_update.mpr ⟨plan, held, rfl⟩
      · split
        · exact ⟨id'.trans same, mode'.trans mode, workspace'.trans ofWorkspace,
            ready'.trans unready⟩
        · exact ⟨same, mode, ofWorkspace, unready⟩
  | base id =>
      obtain ⟨base, held, rest⟩ := open_
      exact ⟨base, bases ▸ held, rest⟩

theorem Tables.Open.same {workspace : String} {owner : Owner} (open_ : t.Open workspace owner)
    (plans : after.plans = t.plans) (bases : after.bases = t.bases) : after.Open workspace owner := by
  cases owner with
  | checkpoint id =>
      rw [Tables.Open, plans]
      exact open_
  | base id =>
      rw [Tables.Open, bases]
      exact open_

theorem scoped_spec {plan : Plan} {ids : List String} {rows : List Object}
    (distinct : (t.objects.map Object.id).Nodup) (given : t.scoped plan ids = .ok rows) :
    (∀ row ∈ rows, row ∈ t.objects ∧ row.id ∈ ids ∧ row.workspace = plan.workspace ∧
      row.tombstoned = false) ∧ ∀ id ∈ ids, ∃ row ∈ rows, row.id = id := by
  let picks := fun row : Object =>
    ids.contains row.id && row.workspace == plan.workspace && !row.tombstoned &&
      (t.identities.any fun key => key.id == row.identityKey && key.workspace == row.workspace &&
        key.repository == plan.repository) && t.inScope plan row
  simp only [Tables.scoped, bind_eq_ok, require_eq_ok, pure, Except.pure, Except.ok.injEq] at given
  obtain ⟨_, length, rfl⟩ := given
  have each : ∀ row ∈ t.objects.filter picks, row ∈ t.objects ∧ row.id ∈ ids ∧
      row.workspace = plan.workspace ∧ row.tombstoned = false := by
    intro row member
    obtain ⟨held, picked⟩ := List.mem_filter.mp member
    simp only [picks, Bool.and_eq_true, List.contains_iff_mem, beq_iff_eq, Bool.not_eq_true']
      at picked
    exact ⟨held, picked.1.1.1.1, picked.1.1.1.2, picked.1.1.2⟩
  refine ⟨each, ?_⟩
  -- As many rows as identities, each of one of them: none is left out.
  have found : ((t.objects.filter picks).map Object.id).Nodup :=
    distinct.sublist (List.filter_sublist.map Object.id)
  have inside : (t.objects.filter picks).map Object.id ⊆ ids := by
    intro id member
    obtain ⟨row, among, rfl⟩ := List.mem_map.mp member
    exact (each row among).2.1
  have full := (List.subperm_of_subset found inside).perm_of_length_le
    (by rw [List.length_map]; exact length.ge)
  intro id member
  exact List.mem_map.mp (full.mem_iff.mpr member)

/-! ## Plans -/

theorem pinInsert_written {plan : Plan} {task : Task} {kind : PinKind} {id : String} {held : Pin}
    (inserts : t.pinInsert plan task e kind id now = .ok (after, held)) :
    Written drawn stored gone drops t after := by
  unfold Tables.pinInsert at inserts
  dsimp only at inserts
  split at inserts
  · simp only [bind_eq_ok, require_eq_ok, pure, Except.pure, Except.ok.injEq, Prod.mk.injEq]
      at inserts
    obtain ⟨_, -, rfl, -⟩ := inserts
    exact .one (.pins _)
  · simp only [Except.ok.injEq, Prod.mk.injEq] at inserts
    obtain ⟨rfl, -⟩ := inserts
    exact .one (.pins _)

structure Base.Under (base : Base) (t : Tables) (input : PlanInput) (ids : Nat → String)
    (workspace : String) (pages : List String) : Prop where
  held : base ∈ t.bases
  workspace : base.workspace = workspace
  incremental : input.mode = .incremental → base.ready = true
  stands : base.retired = false
  pages : input.mode = .retainBase → pages = base.pageIds
  rooted : base.ready = true → base.manifestRoot.isSome = true
  unready : base.ready = false → base.id = ids input.pageCount

theorem planBase_spec {ids : Nat → String} {count : Nat} {input : PlanInput}
    {workspace repository : String} {commit : Option String} {pages pageIds : List String}
    {based : Tables} {base : Option Base} (sound : Manifests before t)
    (draws : Draws before drawn ids count) (enough : input.pageCount < count)
    (given : t.planBase ids input workspace repository commit pages now =
      .ok (based, base, pageIds)) :
    Written drawn stored gone drops t based ∧ based.plans = t.plans ∧ based.workspaces = t.workspaces ∧
      (input.mode = .retainBase → base ≠ none) ∧
        ∀ under, base = some under → under.Under based input ids workspace pageIds := by
  unfold Tables.planBase at given
  split at given
  · simp only [bind_eq_ok, require_eq_ok, found_eq_ok, pure, Except.pure, Except.ok.injEq,
      Prod.mk.injEq] at given
    obtain ⟨under, looked, _, ⟨mode, ready⟩, rfl, rfl, rfl⟩ := given
    have picked := List.find?_some looked
    have member := List.mem_of_find?_eq_some looked
    simp only [Bool.and_eq_true, beq_iff_eq, Bool.not_eq_true'] at picked
    refine ⟨.refl, rfl, rfl, fun _ => Option.some_ne_none _, ?_⟩
    rintro _ ⟨rfl⟩
    refine ⟨member, picked.1.1.1.1.2, fun _ => ready, picked.2, ?_, sound.rooted under member, ?_⟩
    · intro retains
      rw [mode] at retains
      cases retains
    · intro unready
      rw [ready] at unready
      cases unready
  · simp only [bind_eq_ok, require_eq_ok, pure, Except.pure, Except.ok.injEq, Prod.mk.injEq]
      at given
    obtain ⟨_, mode, rfl, rfl, rfl⟩ := given
    refine ⟨.refl, rfl, rfl, ?_, fun under same => by cases same⟩
    intro retains
    rw [mode] at retains
    cases retains
  · simp only [bind_eq_ok, require_eq_ok] at given
    obtain ⟨_, mode, given⟩ := given
    have not_incremental : input.mode ≠ .incremental := by
      rw [mode]
      exact fun same => by cases same
    split at given
    · rename_i under looked
      simp only [bind_eq_ok, require_eq_ok, pure, Except.pure, Except.ok.injEq, Prod.mk.injEq]
        at given
      obtain ⟨_, ready, rfl, rfl, rfl⟩ := given
      have picked := List.find?_some looked
      have member := List.mem_of_find?_eq_some looked
      simp only [Bool.and_eq_true, beq_iff_eq, Bool.not_eq_true'] at picked
      refine ⟨.refl, rfl, rfl, fun _ => Option.some_ne_none _, ?_⟩
      rintro _ ⟨rfl⟩
      refine ⟨member, picked.1.1.1.1.1, fun _ => ready, picked.2, fun _ => rfl,
        sound.rooted under member, ?_⟩
      intro unready
      rw [ready] at unready
      cases unready
    · simp only [pure, Except.pure, Except.ok.injEq, Prod.mk.injEq] at given
      obtain ⟨rfl, rfl, rfl⟩ := given
      refine ⟨.one (.newBase _ (draws.gives _ enough) ?_ rfl rfl), rfl, rfl,
        fun _ => Option.some_ne_none _, ?_⟩
      · intro taken
        obtain ⟨old, held, same⟩ := List.mem_map.mp taken
        exact draws.fresh _ (same ▸ sound.basesDrawn old held)
      · rintro _ ⟨rfl⟩
        exact ⟨List.mem_append_right _ List.mem_cons_self, rfl,
          fun mode => absurd mode not_incremental, rfl, fun _ => rfl, (fun ready => by cases ready),
          fun _ => rfl⟩

theorem plan_allocated {ids : Nat → String} {count : Nat} {input : PlanInput} {pageIds : List String}
    {based : Tables} {base : Option Base} {plan : Plan} (sound : Manifests before t)
    (draws : Draws before drawn ids count) (plans : based.plans = t.plans)
    (retains : input.mode = .retainBase → base ≠ none)
    (under : ∀ row, base = some row → row.Under based input ids plan.workspace pageIds)
    (id : plan.id = ids (input.pageCount + 1)) (mode : plan.mode = input.mode)
    (isBase : plan.base = base.map Base.id) (pages : plan.pageIds = pageIds)
    (stands : plan.abandoned = false) (known : plan.workspace ∈ based.workspaces)
    (ready : plan.ready = ((if input.mode = .retainBase then base.filter Base.ready else none).bind
      Base.manifestRoot).isSome) : plan.Allocated based := by
  -- A plan that retains a base is as ready as the base is.
  have asReady {row : Base} (mode : input.mode = .retainBase) (same : base = some row) :
      plan.ready = row.ready := by
    rw [ready, if_pos mode, same]
    cases made : row.ready with
    | true => simp [Option.filter, made, (under row same).rooted made]
    | false => simp [Option.filter, made]
  constructor
  · rw [id, plans]
    intro taken
    obtain ⟨old, held, same⟩ := List.mem_map.mp taken
    exact draws.fresh _ (same ▸ sound.plansDrawn old held)
  · exact known
  · exact stands
  · intro retained
    rw [isBase]
    simpa using retains (mode.symm.trans retained)
  · intro incremental
    rw [ready, if_neg]
    · rfl
    · intro retained
      exact nomatch incremental.symm.trans (mode.trans retained)
  · intro id onBase
    rw [isBase] at onBase
    obtain ⟨row, same, rfl⟩ := Option.map_eq_some_iff.mp onBase
    have isUnder := under row same
    refine ⟨row, isUnder.held, rfl, isUnder.workspace,
      fun incremental => isUnder.incremental (mode.symm.trans incremental), fun retained => ?_⟩
    have retained := mode.symm.trans retained
    exact ⟨isUnder.stands, asReady retained same, pages.trans (isUnder.pages retained)⟩
  · intro retained unready other member same _
    obtain ⟨row, isSome⟩ := Option.ne_none_iff_exists'.mp (retains (mode.symm.trans retained))
    have made := (under row isSome).unready
      ((asReady (mode.symm.trans retained) isSome).symm.trans unready)
    rw [plans] at member
    rw [isBase, isSome, Option.map_some] at same
    obtain ⟨old, held, id, -⟩ := sound.rests other member row.id same
    exact draws.fresh _ (made ▸ id ▸ sound.basesDrawn old held)

theorem create_written {ids : Nat → String} {input : PlanInput} (sound : Sound before t)
    (draws : Draws before drawn ids (input.pageCount + 3))
    (committed : t.create digests ids e input now = .ok after) :
    Written drawn stored gone drops t after := by
  unfold Tables.create at committed
  split at committed
  · simp only [bind_eq_ok, require_eq_ok, found_eq_ok, pure, Except.pure, Except.ok.injEq]
      at committed
    obtain ⟨_, -, _, -, _, -, rfl⟩ := committed
    exact .refl
  · simp only [bind_eq_ok, require_eq_ok, pure, Except.pure, Except.ok.injEq] at committed
    obtain ⟨task, attached, ⟨repository, commit⟩, target, _, -, ⟨based, base, pageIds⟩, given, _, -,
      ⟨_, held⟩, pinned, rfl⟩ := committed
    obtain ⟨member, -, ofWorkspace⟩ := attached_spec attached
    have known : e.workspace ∈ t.workspaces := ofWorkspace ▸ sound.manifests.tasksKnown task member
    let cleared := ((t.quota e.workspace).abandonCapture e.task e.lease e.fence now
      ).retireUnfinishedBase e.workspace repository now
    have clears (some_ : String → Prop) : Written some_ stored gone drops t cleared := by
      refine ((Written.one (.quota e.workspace known)).then (.abandon _ ?_)).then (.retire _ _ _)
      intro plan picked
      simp only [Bool.and_eq_true, Bool.not_eq_true'] at picked
      exact picked.1.1.2
    have soundCleared : Sound before cleared := sound_written sound (clears before)
    obtain ⟨bases, plans, workspaces, retains, under⟩ :=
      planBase_spec soundCleared.manifests draws (by omega) given
    refine ((clears drawn).trans (bases.trans ?_)).trans (pinInsert_written pinned)
    refine .one (.newPlan _ _ _ (draws.gives _ (by omega)) ?_ ?_ _)
    · apply plan_allocated soundCleared.manifests draws plans retains under rfl rfl rfl rfl rfl _ rfl
      rw [workspaces]
      exact quota_workspaces (t := t) e.workspace ▸ known
    · intro task
      dsimp only
      split <;> exact ⟨rfl, rfl, rfl⟩

/-! ## Objects -/

theorem protect_written {ids : List String} {held : Pin} (kept : t.protect ids held now = .ok after) :
    Written drawn stored gone drops t after := by
  simp only [Tables.protect, bind_eq_ok, require_eq_ok, pure, Except.pure, Except.ok.injEq] at kept
  obtain ⟨_, -, rfl⟩ := kept
  exact .one (.protect ids held.expiresAt now)

theorem identity_eq (id workspace repository : String) :
    (t.identity id workspace repository).1 =
      { t with identities := (t.identity id workspace repository).1.identities } := by
  unfold Tables.identity
  split <;> rfl

theorem quotaReserve_eq {workspace : String} {bytes : Int}
    (admitted : t.quotaReserve workspace bytes = some after) :
    after = { t with quotas := after.quotas } := by
  simp only [Tables.quotaReserve] at admitted
  split at admitted
  · rw [Option.some.injEq] at admitted
    rw [← admitted]
  · exact nomatch admitted

theorem reserve_written {ids : Nat → String} {count : Nat} {plan : Plan}
    {identity : String} {items : List ((Plaintext × String))} (ledger : Ledger before t)
    (draws : Draws before drawn ids count) (few : items.length < count)
    (reserves : t.reserve plan (items.zipIdx.map fun item =>
      prepare plan identity (ids (item.2 + 1)) item.1.2 item.1.1 now) = .ok after) :
    Written drawn stored gone drops t after ∧
      ∀ workspace owner, t.Open workspace owner → after.Open workspace owner := by
  set new := items.zipIdx.map fun item =>
    prepare plan identity (ids (item.2 + 1)) item.1.2 item.1.1 now with isNew
  simp only [Tables.reserve, bind_eq_ok, require_eq_ok, found_eq_ok, pure, Except.pure,
    Except.ok.injEq] at reserves
  obtain ⟨_, -, reserved, admitted, rfl⟩ := reserves
  have each : ∀ row ∈ new, ∃ k < items.length, row.id = ids (k + 1) ∧ row.Born plan.workspace := by
    intro row member
    rw [isNew] at member
    obtain ⟨item, among, rfl⟩ := List.mem_map.mp member
    have below := List.snd_lt_of_mem_zipIdx among
    refine ⟨item.2, by simpa using below, rfl, rfl, rfl, rfl, rfl, ?_⟩
    change (0 : Int) ≤ (item.1.1.size : Int) + (tagLen : Int)
    omega
  have distinct : (new.map Object.id).Nodup := by
    have names : new.map Object.id = (items.zipIdx.map Prod.snd).map fun k => ids (k + 1) := by
      rw [isNew, List.map_map, List.map_map]
      rfl
    rw [names, List.zipIdx_map_snd]
    refine List.Nodup.map ?_ List.nodup_range'
    intro i j same
    have equal := draws.injective _ _ same
    omega
  have fresh : ∀ row ∈ new, drawn row.id ∧ row.id ∉ t.objects.map Object.id ∧
      row.id ∉ t.purges.map Purge.object := by
    intro row member
    obtain ⟨k, below, same, -⟩ := each row member
    rw [same]
    refine ⟨draws.gives _ (by omega), ?_, ?_⟩
    · intro taken
      obtain ⟨old, held, equal⟩ := List.mem_map.mp taken
      exact draws.fresh _ (equal ▸ ledger.objectsDrawn old held)
    · intro taken
      obtain ⟨old, held, equal⟩ := List.mem_map.mp taken
      exact draws.fresh _ (equal ▸ (ledger.purgesDrawn old held).1)
  have inserted : Written drawn stored gone drops t (reserved.objectsInsert new) :=
    .one (.reserve plan.workspace new reserved admitted distinct fresh fun row member =>
      (each row member).choose_spec.2.2)
  have shape := quotaReserve_eq admitted
  split
  · rename_i nothing
    rw [nothing] at inserted
    have same : reserved.objectsInsert [] = reserved := by simp [Tables.objectsInsert]
    refine ⟨same ▸ inserted, fun workspace owner open_ => ?_⟩
    exact open_.same (by rw [shape]) (by rw [shape])
  · refine ⟨inserted.then (.planBytes plan.id _), fun workspace owner open_ => ?_⟩
    have reservedOpen : (reserved.objectsInsert new).Open workspace owner := by
      rw [shape]
      exact open_.same rfl rfl
    refine reservedOpen.updated ?_ rfl rfl
    exact fun _ => ⟨rfl, rfl, rfl, rfl⟩

theorem register_written {ids : Nat → String} {input : List Plaintext} (sound : Manifests before t)
    (ledger : Ledger before t) (draws : Draws before drawn ids (input.length + 1))
    (committed : t.register digests ids e checkpoint pin input now = .ok after) :
    Written drawn stored gone drops t after := by
  simp only [Tables.register, bind_eq_ok, require_eq_ok] at committed
  obtain ⟨⟨plan, held⟩, owned, _, -, reserved, reserves, holder, holds, protects⟩ := committed
  obtain ⟨member, -, -, compatible, -, -⟩ := owned_spec owned
  obtain ⟨unready, stands⟩ := uploadable compatible
  have known := sound.plansKnown plan member
  let quoted := t.quota plan.workspace
  let keyed := (quoted.identity (ids 0) plan.workspace plan.repository).1
  have shape : keyed = { quoted with identities := keyed.identities } := identity_eq ..
  have prepared : Written drawn stored gone drops t keyed := by
    rw [shape]
    exact (Written.one (.quota plan.workspace known)).then (.identities _)
  have ledgerKeyed : Ledger before keyed := by
    rw [shape]
    exact (ledger_quota ledger known).same rfl rfl rfl rfl
  have openKeyed : keyed.Open plan.workspace holder := by
    apply (holder_open sound member unready stands holds).same
    · exact (congrArg Tables.plans shape).trans (quota_plans _)
    · exact (congrArg Tables.bases shape).trans (quota_bases _)
  obtain ⟨inserted, opens⟩ := reserve_written ledgerKeyed draws
    (Nat.lt_succ_of_le ((List.length_filter_le _ _).trans (by simp))) reserves
  exact ((prepared.trans inserted).then
    (.attach _ plan.workspace holder (opens _ _ openKeyed))).trans (protect_written protects)

theorem attach_holds {ids : List String} {workspace : String} (owner : Owner) {row : Object}
    (held : row ∈ t.objects) (named : row.id ∈ ids) (ofWorkspace : row.workspace = workspace)
    (stands : row.tombstoned = false) :
    ∃ ref ∈ (t.objectsAttach ids workspace owner).refs, ref.object = row.id ∧ ref.owner = owner := by
  by_cases already : (t.refs.any fun ref => ref.object == row.id && ref.owner == owner) = true
  · obtain ⟨ref, member, same⟩ := List.any_eq_true.mp already
    simp only [Bool.and_eq_true, beq_iff_eq] at same
    exact ⟨ref, List.mem_append_left _ member, same⟩
  · refine ⟨⟨row.id, row.workspace, owner⟩, List.mem_append_right _ ?_, rfl, rfl⟩
    refine List.mem_map.mpr ⟨row, List.mem_filter.mpr ⟨held, ?_⟩, rfl⟩
    rw [Bool.not_eq_true] at already
    rw [List.contains_iff_mem.mpr named, ofWorkspace, stands, already]
    simp

/-! ## Pages -/

theorem validate_spec {plan : Plan} {page : CheckpointPage} {ids : List String}
    (distinct : (t.objects.map Object.id).Nodup)
    (valid : t.validate plan page = .ok (after, ids)) :
    ∃ holder, plan.holder = .ok holder ∧ after = t.objectsAttach ids plan.workspace holder ∧
      ∀ id ∈ namedObjects page, ∃ ref ∈ after.refs, ref.object = id ∧ ref.owner = holder := by
  simp only [Tables.validate, bind_eq_ok, require_eq_ok, pure, Except.pure, Except.ok.injEq,
    Prod.mk.injEq] at valid
  obtain ⟨_, -, rows, given, holder, holds, _, -, rfl, rfl⟩ := valid
  refine ⟨holder, holds, rfl, fun id member => ?_⟩
  obtain ⟨each, all⟩ := scoped_spec distinct given
  obtain ⟨row, among, rfl⟩ := all id (List.mem_dedup.mpr member)
  obtain ⟨held, named, ofWorkspace, stands⟩ := each row among
  exact attach_holds holder held named ofWorkspace stands

theorem write_written {page digest : String} {contents : CheckpointPage} (sound : Manifests drawn t)
    (distinct : (t.objects.map Object.id).Nodup)
    (committed : t.write digests e checkpoint pin page digest contents now = .ok after) :
    Written drawn stored gone drops t after := by
  simp only [Tables.write, bind_eq_ok, require_eq_ok, found_eq_ok] at committed
  obtain ⟨_, -, ⟨plan, held⟩, owned, _, -, ⟨attached, ids⟩, valid, kept, protects, existing, -,
    saves⟩ := committed
  obtain ⟨member, -, -, compatible, -, -⟩ := owned_spec owned
  obtain ⟨unready, stands⟩ := uploadable compatible
  obtain ⟨holder, holds, rfl, named⟩ := validate_spec distinct valid
  have protected_ : Written drawn stored gone drops t kept :=
    (Written.one (.attach ids plan.workspace holder
      (holder_open sound member unready stands holds))).trans (protect_written protects)
  cases body : existing.body with
  | some saved =>
      simp only [body, bind_eq_ok, require_eq_ok, pure, Except.pure, Except.ok.injEq] at saves
      obtain ⟨_, -, rfl⟩ := saves
      exact protected_
  | none =>
      simp only [body, bind_eq_ok, pure, Except.pure, Except.ok.injEq] at saves
      obtain ⟨other, again, rfl⟩ := saves
      rw [holds, Except.ok.injEq] at again
      subst again
      refine protected_.then (.pageWrite page holder digest contents ?_)
      simp only [Tables.protect, bind_eq_ok, require_eq_ok, pure, Except.pure, Except.ok.injEq]
        at protects
      obtain ⟨_, -, rfl⟩ := protects
      exact named

/-! ## Transfers -/

theorem described_mem {rows : List (String × Descriptor)} {id : String} {descriptor : Descriptor}
    (said : described rows id = some descriptor) : (id, descriptor) ∈ rows := by
  obtain ⟨row, looked, rfl⟩ := Option.map_eq_some_iff.mp said
  have picked := List.find?_some looked
  obtain rfl : row.1 = id := by simpa using picked
  exact List.mem_of_find?_eq_some looked

theorem uploads_written {input : List (String × Descriptor)} {batch : Batch}
    (distinct : (t.objects.map Object.id).Nodup)
    (committed : t.uploads e checkpoint pin input now = .ok (after, batch)) :
    Written drawn stored gone drops t after := by
  simp only [Tables.uploads, bind_eq_ok, require_eq_ok, pure, Except.pure, Except.ok.injEq,
    Prod.mk.injEq] at committed
  obtain ⟨_, -, ⟨plan, held⟩, -, rows, given, _, admits, _, -, kept, protects, rfl, -⟩ := committed
  obtain ⟨each, all⟩ := scoped_spec distinct given
  refine (Written.one (.describe input plan.workspace now ?_)).trans (protect_written protects)
  intro row member _ _ descriptor said
  have listed := described_mem said
  obtain ⟨found, among, same⟩ := all row.id (List.mem_map_of_mem listed)
  have found_eq : found = row := List.inj_on_of_nodup_map distinct (each found among).1 member same
  exact (admits _ listed row (found_eq ▸ among) rfl).length

theorem authorize_written {ids : Nat → String} {pin : Option String} {purpose : Purpose}
    {objectIds : List String} {batch : Batch}
    (committed : t.authorize ids e checkpoint pin purpose objectIds now = .ok (after, batch)) :
    Written drawn stored gone drops t after := by
  simp only [Tables.authorize, bind_eq_ok, require_eq_ok] at committed
  obtain ⟨_, -, committed⟩ := committed
  cases pin with
  | some pin =>
      simp only [bind_eq_ok, require_eq_ok, pure, Except.pure, Except.ok.injEq, Prod.mk.injEq]
        at committed
      obtain ⟨_, -, _, -, _, -, kept, protects, rfl, -⟩ := committed
      exact protect_written protects
  | none =>
      simp only [bind_eq_ok, require_eq_ok, found_eq_ok, pure, Except.pure, Except.ok.injEq,
        Prod.mk.injEq] at committed
      obtain ⟨_, -, _, -, _, -, _, -, _, inserts, kept, protects, rfl, -⟩ := committed
      exact (pinInsert_written inserts).trans (protect_written protects)

theorem list_written {last : Option String} {batch : Batch}
    (committed : t.list e checkpoint pin last now = .ok (after, batch)) :
    Written drawn stored gone drops t after := by
  simp only [Tables.list, bind_eq_ok, require_eq_ok, pure, Except.pure, Except.ok.injEq,
    Prod.mk.injEq] at committed
  obtain ⟨_, -, _, -, _, -, kept, protects, rfl, -⟩ := committed
  exact protect_written protects

theorem renew_written {version : Nat}
    (committed : t.renew e checkpoint pin version now = .ok after) :
    Written drawn stored gone drops t after := by
  simp only [Tables.renew, bind_eq_ok, require_eq_ok, found_eq_ok, pure, Except.pure,
    Except.ok.injEq] at committed
  obtain ⟨_, -, _, -, _, -, _, -, _, -, rfl⟩ := committed
  exact .one (.pins _)

/-- What a transaction hands out: objects kept for as long as its pin, and what was read under
a restore verified. -/
structure Batch.Given (batch : Batch) (t after : Tables) : Prop where
  kept : ∀ row ∈ batch.objects, ∃ new ∈ after.objects, new.id = row.id ∧
    new.ciphertext = row.ciphertext ∧ batch.pin.expiresAt + protectMs ≤ new.reclaimAfter
  restores : batch.purpose = .restore → ∀ row ∈ batch.objects, row ∈ t.objects ∧
    row.verified = true
  unread : batch.receipts = []

theorem protect_spec {ids : List String} {held : Pin} (kept : t.protect ids held now = .ok after)
    {row : Object} (member : row ∈ t.objects) (named : row.id ∈ ids) :
    ∃ new ∈ after.objects, new.id = row.id ∧ new.ciphertext = row.ciphertext ∧
      held.expiresAt + protectMs ≤ new.reclaimAfter := by
  simp only [Tables.protect, bind_eq_ok, require_eq_ok, pure, Except.pure, Except.ok.injEq] at kept
  obtain ⟨_, -, rfl⟩ := kept
  refine ⟨_, Table.mem_update.mpr ⟨row, member, rfl⟩, ?_⟩
  rw [if_pos (List.contains_iff_mem.mpr named)]
  exact ⟨rfl, rfl, le_max_right _ _⟩

theorem uploads_given {input : List (String × Descriptor)} {batch : Batch}
    (distinct : (t.objects.map Object.id).Nodup)
    (committed : t.uploads e checkpoint pin input now = .ok (after, batch)) :
    batch.Given t after := by
  simp only [Tables.uploads, bind_eq_ok, require_eq_ok, pure, Except.pure, Except.ok.injEq,
    Prod.mk.injEq] at committed
  obtain ⟨_, -, ⟨plan, held⟩, -, _, -, _, -, rows, given, kept, protects, rfl, rfl⟩ := committed
  have still : ((t.describe input plan.workspace now).objects.map Object.id).Nodup := by
    rw [Tables.describe, Table.column_update Object.id _ _ fun _ => by rfl]
    exact distinct
  refine ⟨fun row member => ?_, (fun purpose => by cases purpose), rfl⟩
  obtain ⟨inside, named, -⟩ := (scoped_spec still given).1 row member
  exact protect_spec protects inside named

theorem authorize_given {ids : Nat → String} {pin : Option String} {purpose : Purpose}
    {objectIds : List String} {batch : Batch} (distinct : (t.objects.map Object.id).Nodup)
    (committed : t.authorize ids e checkpoint pin purpose objectIds now = .ok (after, batch)) :
    batch.Given t after := by
  simp only [Tables.authorize, bind_eq_ok, require_eq_ok] at committed
  obtain ⟨_, -, committed⟩ := committed
  cases pin with
  | some pin =>
      simp only [bind_eq_ok, require_eq_ok, pure, Except.pure, Except.ok.injEq, Prod.mk.injEq]
        at committed
      obtain ⟨⟨plan, held⟩, -, rows, given, _, verified, kept, protects, rfl, rfl⟩ := committed
      have each := (scoped_spec distinct given).1
      refine ⟨fun row member => ?_, fun restore row member => ?_, rfl⟩
      · exact protect_spec protects (each row member).1 (each row member).2.1
      · exact ⟨(each row member).1, verified restore row member⟩
  | none =>
      simp only [bind_eq_ok, require_eq_ok, found_eq_ok, pure, Except.pure, Except.ok.injEq,
        Prod.mk.injEq] at committed
      obtain ⟨_, -, _, -, _, -, _, -, _, -, kept, -, rfl, rfl⟩ := committed
      exact ⟨fun row member => absurd member List.not_mem_nil,
        fun _ row member => absurd member List.not_mem_nil, rfl⟩

theorem list_given {last : Option String} {batch : Batch} (distinct : (t.objects.map Object.id).Nodup)
    (committed : t.list e checkpoint pin last now = .ok (after, batch)) : batch.Given t after := by
  simp only [Tables.list, bind_eq_ok, require_eq_ok, pure, Except.pure, Except.ok.injEq,
    Prod.mk.injEq] at committed
  obtain ⟨⟨plan, held⟩, -, rows, given, _, verified, kept, protects, rfl, rfl⟩ := committed
  have each := (scoped_spec distinct given).1
  refine ⟨fun row member => ?_, fun _ row member => ?_, rfl⟩
  · exact protect_spec protects (each row member).1 (each row member).2.1
  · exact ⟨(each row member).1, verified row member⟩

/-! ## Commits -/

theorem scanPages_spec {ids : List String} {rows : List Page} {position bytes : Nat}
    {result : List (String × String × CheckpointPage) × Nat}
    (scanned : scanPages digests ids rows position bytes = .ok result) :
    ∀ id ∈ ids, ∃ page ∈ rows, page.id = id ∧ page.body.isSome = true := by
  induction rows generalizing ids position bytes result with
  | nil =>
      cases ids with
      | nil => exact fun id member => absurd member List.not_mem_nil
      | cons id rest => exact nomatch scanned
  | cons page rest ih =>
      simp only [scanPages, bind_eq_ok, require_eq_ok, found_eq_ok] at scanned
      obtain ⟨_, ⟨first, -⟩, contents, body, _, -, _, -, others, scanned, -⟩ := scanned
      obtain ⟨tail, rfl⟩ := List.head?_eq_some_iff.mp first
      intro id member
      rcases List.mem_cons.mp member with rfl | later
      · exact ⟨page, List.mem_cons_self, rfl, by rw [body]; rfl⟩
      · obtain ⟨other, inside, rest⟩ := ih scanned id later
        exact ⟨other, List.mem_cons_of_mem _ inside, rest⟩

theorem scan_paged {plan : Plan} {holder : Owner} {pages : List (String × String × CheckpointPage)}
    (scanned : t.scan digests plan holder = .ok pages) : t.Paged holder plan.pageIds := by
  obtain ⟨bytes, result, read⟩ : ∃ bytes result,
      scanPages digests plan.pageIds (t.pagesComplete holder) 0 bytes = .ok result := by
    unfold Tables.scan at scanned
    split at scanned
    · simp only [bind_eq_ok] at scanned
      obtain ⟨_, -, _, -, _, -, _, -, _, -, _, read, -⟩ := scanned
      exact ⟨_, _, read⟩
    · simp only [bind_eq_ok] at scanned
      obtain ⟨_, -, _, read, -⟩ := scanned
      exact ⟨_, _, read⟩
  intro id member
  obtain ⟨page, inside, same, body⟩ := scanPages_spec read id member
  rw [Tables.pagesComplete, List.mem_insertionSort, List.mem_filter] at inside
  exact ⟨page, inside.1, same, beq_iff_eq.mp inside.2, body⟩

theorem publish_written {commit : Commit}
    (committed : t.publish digests e checkpoint pin commit now = .ok after) :
    Written drawn stored gone drops t after := by
  simp only [Tables.publish, bind_eq_ok, found_eq_ok] at committed
  obtain ⟨previous, -, committed⟩ := committed
  split at committed
  · simp only [bind_eq_ok, require_eq_ok, found_eq_ok, pure, Except.pure, Except.ok.injEq]
      at committed
    obtain ⟨_, -, _, -, rfl⟩ := committed
    exact .refl
  · simp only [bind_eq_ok, require_eq_ok, pure, Except.pure, Except.ok.injEq] at committed
    obtain ⟨⟨plan, held⟩, owned, _, -, holder, holds, _, verified, rfl⟩ := committed
    obtain ⟨member, -, -, compatible, -, -⟩ := owned_spec owned
    obtain ⟨unready, stands⟩ := uploadable compatible
    simp only [Tables.verifyManifest, bind_eq_ok, require_eq_ok] at verified
    obtain ⟨pages, scanned, _, -, _, -, _, -, _, -, complete⟩ := verified
    have published : Written drawn stored gone drops t (t.published plan holder commit now) :=
      .one (.publish plan holder commit now member unready stands holds complete
        (scan_paged scanned))
    cases holder <;> exact published.then (.pins _)

end Agentsfleet.Custody
