import Agentsfleet.Custody.Ledger

/-!
# Plans, bases and what they hold

A checkpoint is ready when every page of its manifest is written and every object those pages
name is held and verified.  From then on nothing is added to it, and nothing it holds goes
while it stands.
-/

set_option autoImplicit false

namespace Agentsfleet.Custody

open Agentsfleet.Library
open Agentsfleet.Recovery (CheckpointPage)

/-! ## What holds -/

def Tables.Owns (t : Tables) (workspace : String) : Owner → Prop
  | .checkpoint id => ∃ plan ∈ t.plans, plan.id = id ∧ plan.workspace = workspace
  | .base id => ∃ base ∈ t.bases, base.id = id ∧ base.workspace = workspace

def Tables.Verified (t : Tables) (owner : Owner) : Prop :=
  ∀ ref ∈ t.refs, ref.owner = owner → ∀ row ∈ t.objects, row.id = ref.object →
    row.verified = true

structure Plan.Over (plan : Plan) (base : Base) : Prop where
  incremental : plan.mode = .incremental → base.ready = true
  ready : plan.mode = .retainBase → plan.ready = true → base.ready = true
  unready : plan.mode = .retainBase → plan.ready = false → plan.abandoned = false →
    base.ready = false ∧ base.retired = false
  pages : plan.mode = .retainBase → plan.pageIds = base.pageIds

structure Manifests (drawn : String → Prop) (t : Tables) : Prop where
  refsHeld : ∀ ref ∈ t.refs, ∃ row ∈ t.objects, row.id = ref.object ∧
    row.workspace = ref.workspace
  refsOwned : ∀ ref ∈ t.refs, t.Owns ref.workspace ref.owner
  plans : (t.plans.map Plan.id).Nodup
  bases : (t.bases.map Base.id).Nodup
  plansDrawn : ∀ plan ∈ t.plans, drawn plan.id
  basesDrawn : ∀ base ∈ t.bases, drawn base.id
  plansKnown : ∀ plan ∈ t.plans, plan.workspace ∈ t.workspaces
  tasksKnown : ∀ task ∈ t.tasks, task.workspace ∈ t.workspaces
  retains : ∀ plan ∈ t.plans, plan.mode = .retainBase → plan.base ≠ none
  settled : ∀ plan ∈ t.plans, plan.ready = true → plan.abandoned = false
  rests : ∀ plan ∈ t.plans, ∀ id, plan.base = some id →
    ∃ base ∈ t.bases, base.id = id ∧ base.workspace = plan.workspace ∧ plan.Over base
  sole : ∀ plan ∈ t.plans, ∀ other ∈ t.plans, plan.mode = .retainBase → plan.ready = false →
    plan.abandoned = false → other.mode = .retainBase → other.ready = false →
      other.abandoned = false → other.base = plan.base → other.id = plan.id
  rooted : ∀ base ∈ t.bases, base.ready = true → base.manifestRoot.isSome = true
  verifiedPlans : ∀ plan ∈ t.plans, plan.ready = true → plan.mode = .incremental →
    t.Verified (.checkpoint plan.id)
  verifiedBases : ∀ base ∈ t.bases, base.ready = true → t.Verified (.base base.id)
  pagedPlans : ∀ plan ∈ t.plans, plan.ready = true → plan.mode = .incremental →
    t.Paged (.checkpoint plan.id) plan.pageIds
  pagedBases : ∀ base ∈ t.bases, base.ready = true → t.Paged (.base base.id) base.pageIds
  named : ∀ page ∈ t.pages, ∀ digest contents, page.body = some (digest, contents) →
    ∀ id ∈ namedObjects contents, ∃ ref ∈ t.refs, ref.object = id ∧ ref.owner = page.owner
  pointers : ∀ task ∈ t.tasks, ∀ id, task.checkpoint = some id →
    ∃ plan ∈ t.plans, plan.id = id ∧ plan.task = task.id ∧ plan.ready = true ∧
      plan.mode = .incremental

variable {drawn : String → Prop} {t after : Tables}

theorem Manifests.mono {further : String → Prop} (more : ∀ id, drawn id → further id)
    (sound : Manifests drawn t) : Manifests further t :=
  { sound with
    plansDrawn := fun plan member => more _ (sound.plansDrawn plan member)
    basesDrawn := fun base member => more _ (sound.basesDrawn base member) }

theorem plan_unique (sound : Manifests drawn t) {plan other : Plan} (held : plan ∈ t.plans)
    (inside : other ∈ t.plans) (same : plan.id = other.id) : plan = other :=
  List.inj_on_of_nodup_map sound.plans held inside same

theorem base_unique (sound : Manifests drawn t) {base other : Base} (held : base ∈ t.bases)
    (inside : other ∈ t.bases) (same : base.id = other.id) : base = other :=
  List.inj_on_of_nodup_map sound.bases held inside same

theorem Manifests.same (sound : Manifests drawn t) (workspaces : after.workspaces = t.workspaces)
    (tasks : after.tasks = t.tasks) (plans : after.plans = t.plans) (bases : after.bases = t.bases)
    (pages : after.pages = t.pages) (objects : after.objects = t.objects)
    (refs : after.refs = t.refs) : Manifests drawn after := by
  have owns (workspace : String) (owner : Owner) :
      after.Owns workspace owner ↔ t.Owns workspace owner := by
    cases owner with
    | checkpoint id => rw [Tables.Owns, Tables.Owns, plans]
    | base id => rw [Tables.Owns, Tables.Owns, bases]
  have verified (owner : Owner) : after.Verified owner ↔ t.Verified owner := by
    rw [Tables.Verified, Tables.Verified, refs, objects]
  have paged (owner : Owner) (ids : List String) : after.Paged owner ids ↔ t.Paged owner ids := by
    rw [Tables.Paged, Tables.Paged, pages]
  constructor
  all_goals simp only [workspaces, tasks, plans, bases, pages, objects, refs, owns, verified, paged]
  exacts [sound.refsHeld, sound.refsOwned, sound.plans, sound.bases, sound.plansDrawn,
    sound.basesDrawn, sound.plansKnown, sound.tasksKnown, sound.retains, sound.settled, sound.rests,
    sound.sole, sound.rooted, sound.verifiedPlans, sound.verifiedBases, sound.pagedPlans, sound.pagedBases,
    sound.named, sound.pointers]

/-! ## Objects -/

theorem manifests_objects (sound : Manifests drawn t) (here : Object → Bool)
    (change : Object → Object)
    (kept : ∀ row, (change row).id = row.id ∧ (change row).workspace = row.workspace ∧
      (row.verified = true → (change row).verified = true))
    (objects : after.objects = Table.update here change t.objects)
    (others : after = { t with objects := after.objects, quotas := after.quotas }) :
    Manifests drawn after := by
  have was {row : Object} (member : row ∈ Table.update here change t.objects) :
      ∃ old ∈ t.objects, row.id = old.id ∧ (old.verified = true → row.verified = true) := by
    obtain ⟨old, held, rfl⟩ := Table.mem_update.mp member
    refine ⟨old, held, ?_⟩
    split
    · exact ⟨(kept old).1, (kept old).2.2⟩
    · exact ⟨rfl, id⟩
  have verified {owner : Owner} (before : t.Verified owner) : after.Verified owner := by
    intro ref member owned row inside same
    rw [others] at member
    rw [objects] at inside
    obtain ⟨old, held, id, stays⟩ := was inside
    exact stays (before ref member owned old held (id.symm.trans same))
  have refsHeld : ∀ ref ∈ t.refs, ∃ row ∈ after.objects, row.id = ref.object ∧
      row.workspace = ref.workspace := by
    intro ref member
    obtain ⟨row, held, id, workspace⟩ := sound.refsHeld ref member
    rw [objects]
    refine ⟨_, Table.mem_update.mpr ⟨row, held, rfl⟩, ?_⟩
    split
    · exact ⟨(kept row).1.trans id, (kept row).2.1.trans workspace⟩
    · exact ⟨id, workspace⟩
  rw [others] at verified ⊢
  exact { sound with
    refsHeld := refsHeld
    verifiedPlans := fun plan member ready mode => verified (sound.verifiedPlans plan member ready mode)
    verifiedBases := fun base member ready => verified (sound.verifiedBases base member ready) }

theorem manifests_reserve (sound : Manifests drawn t) {workspace : String} {bytes : Int}
    {new : List Object} {reserved : Tables}
    (admitted : t.quotaReserve workspace bytes = some reserved)
    (fresh : ∀ row ∈ new, row.id ∉ t.objects.map Object.id) :
    Manifests drawn (reserved.objectsInsert new) := by
  unfold Tables.quotaReserve at admitted
  dsimp only at admitted
  split at admitted
  · rw [Option.some.injEq] at admitted
    subst admitted
    have verified {owner : Owner} (before : t.Verified owner) :
        ∀ ref ∈ t.refs, ref.owner = owner → ∀ row ∈ t.objects ++ new, row.id = ref.object →
          row.verified = true := by
      intro ref member owned row inside same
      rcases List.mem_append.mp inside with old | added
      · exact before ref member owned row old same
      · obtain ⟨held, among, id, -⟩ := sound.refsHeld ref member
        exact absurd (List.mem_map.mpr ⟨held, among, id.trans same.symm⟩) (fresh row added)
    refine { sound with refsHeld := ?_, verifiedPlans := ?_, verifiedBases := ?_ }
    · intro ref member
      obtain ⟨row, held, same⟩ := sound.refsHeld ref member
      exact ⟨row, List.mem_append_left _ held, same⟩
    · exact fun plan member ready mode => verified (sound.verifiedPlans plan member ready mode)
    · exact fun base member ready => verified (sound.verifiedBases base member ready)
  · exact nomatch admitted

theorem attaches_spec {ids : List String} {workspace : String} {owner : Owner} {ref : Ref}
    (member : ref ∈ t.attaches ids workspace owner) :
    ref.owner = owner ∧ ref.workspace = workspace ∧ ref.object ∈ ids ∧
      ∃ row ∈ t.objects, row.id = ref.object ∧ row.workspace = ref.workspace := by
  obtain ⟨row, inside, rfl⟩ := List.mem_map.mp member
  obtain ⟨held, picked⟩ := List.mem_filter.mp inside
  simp only [Bool.and_eq_true, List.contains_iff_mem, beq_iff_eq] at picked
  exact ⟨rfl, picked.1.1.2, picked.1.1.1, row, held, rfl, rfl⟩

theorem open_owns {workspace : String} {owner : Owner} (open_ : t.Open workspace owner) :
    t.Owns workspace owner := by
  cases owner with
  | checkpoint id =>
      obtain ⟨plan, held, same, -, ofWorkspace, -⟩ := open_
      exact ⟨plan, held, same, ofWorkspace⟩
  | base id =>
      obtain ⟨base, held, same, ofWorkspace, -⟩ := open_
      exact ⟨base, held, same, ofWorkspace⟩

theorem manifests_attach (sound : Manifests drawn t) {ids : List String} {workspace : String}
    {owner : Owner} (open_ : t.Open workspace owner) :
    Manifests drawn (t.objectsAttach ids workspace owner) := by
  -- What is ready is not what is attached to.
  have verified {held : Owner} (before : t.Verified held) (apart : held ≠ owner) :
      (t.objectsAttach ids workspace owner).Verified held := by
    intro ref member owned
    rcases List.mem_append.mp member with old | new
    · exact before ref old owned
    · exact absurd (owned.symm.trans (attaches_spec new).1) apart
  refine { sound with refsHeld := ?_, refsOwned := ?_, verifiedPlans := ?_, verifiedBases := ?_,
                      named := ?_ }
  · intro ref member
    rcases List.mem_append.mp member with old | new
    · exact sound.refsHeld ref old
    · exact (attaches_spec new).2.2.2
  · intro ref member
    rcases List.mem_append.mp member with old | new
    · exact sound.refsOwned ref old
    · obtain ⟨ofOwner, ofWorkspace, -⟩ := attaches_spec new
      rw [ofOwner, ofWorkspace]
      exact open_owns open_
  · intro plan member ready mode
    refine verified (sound.verifiedPlans plan member ready mode) ?_
    rintro rfl
    obtain ⟨other, held, same, -, -, unready⟩ := open_
    rw [plan_unique sound held member same, ready] at unready
    exact nomatch unready
  · intro base member ready
    refine verified (sound.verifiedBases base member ready) ?_
    rintro rfl
    obtain ⟨other, held, same, -, unready⟩ := open_
    rw [base_unique sound held member same, ready] at unready
    exact nomatch unready
  · intro page member digest contents body id inside
    obtain ⟨ref, held, same⟩ := sound.named page member digest contents body id inside
    exact ⟨ref, List.mem_append_left _ held, same⟩

theorem manifests_dropObjects (sound : Manifests drawn t) {picks : Object → Bool}
    (unheld : ∀ row ∈ t.objects, picks row = true → t.unheld row = true) :
    Manifests drawn (t.dropObjects picks) := by
  have free : ∀ ref ∈ t.refs, ∀ row ∈ t.objects, row.id = ref.object → picks row = false := by
    intro ref member row inside same
    by_contra picked
    have alone := unheld row inside (by simpa using picked)
    rw [Tables.unheld, Bool.not_eq_true', List.any_eq_false] at alone
    exact alone ref member (beq_iff_eq.mpr same.symm)
  have refs : (t.dropObjects picks).refs = t.refs := by
    apply List.filter_eq_self.mpr
    intro ref member
    rw [Bool.not_eq_true', List.any_eq_false]
    intro row inside picked
    simp only [Bool.and_eq_true, beq_iff_eq] at picked
    rw [free ref member row inside picked.2] at picked
    exact nomatch picked.1
  have verified {owner : Owner} (before : t.Verified owner) :
      (t.dropObjects picks).Verified owner := by
    intro ref member owned row inside
    rw [refs] at member
    exact before ref member owned row (List.mem_of_mem_filter inside)
  have same : t.dropObjects picks =
      { t with objects := (t.dropObjects picks).objects, purges := (t.dropObjects picks).purges } :=
    calc t.dropObjects picks
      _ = { t.dropObjects picks with refs := (t.dropObjects picks).refs } := rfl
      _ = { t.dropObjects picks with refs := t.refs } := by rw [refs]
      _ = _ := rfl
  have refsHeld : ∀ ref ∈ t.refs, ∃ row ∈ (t.dropObjects picks).objects, row.id = ref.object ∧
      row.workspace = ref.workspace := by
    intro ref member
    obtain ⟨row, held, id, workspace⟩ := sound.refsHeld ref member
    refine ⟨row, List.mem_filter.mpr ⟨held, ?_⟩, id, workspace⟩
    rw [free ref member row held id]
    rfl
  rw [same] at verified ⊢
  exact { sound with
    refsHeld := refsHeld
    verifiedPlans := fun plan member ready mode => verified (sound.verifiedPlans plan member ready mode)
    verifiedBases := fun base member ready => verified (sound.verifiedBases base member ready) }

/-! ## Owners -/

theorem Tables.Verified.fewer {owner : Owner} (before : t.Verified owner)
    (refs : ∀ ref ∈ after.refs, ref ∈ t.refs) (objects : after.objects = t.objects) :
    after.Verified owner := by
  intro ref member owned row inside
  rw [objects] at inside
  exact before ref (refs ref member) owned row inside

theorem Tables.Paged.filter {owner : Owner} {ids : List String} (before : t.Paged owner ids)
    {owned : Owner → Bool} (stays : owned owner = false)
    (pages : after.pages = t.pages.filter fun row => !owned row.owner) : after.Paged owner ids := by
  intro id among
  obtain ⟨page, held, same, ofOwner, body⟩ := before id among
  refine ⟨page, ?_, same, ofOwner, body⟩
  rw [pages, List.mem_filter]
  exact ⟨held, by rw [ofOwner, stays]; rfl⟩

theorem named_filter (sound : Manifests drawn t) {owned : Owner → Bool} {page : Page}
    (member : page ∈ t.pages.filter fun row => !owned row.owner) {digest : String}
    {contents : CheckpointPage} (body : page.body = some (digest, contents)) :
    ∀ id ∈ namedObjects contents, ∃ ref ∈ t.refs.filter fun row => !owned row.owner,
      ref.object = id ∧ ref.owner = page.owner := by
  intro id inside
  obtain ⟨held, stays⟩ := List.mem_filter.mp member
  obtain ⟨ref, among, same, ofOwner⟩ := sound.named page held digest contents body id inside
  exact ⟨ref, List.mem_filter.mpr ⟨among, ofOwner ▸ stays⟩, same, ofOwner⟩

theorem manifests_dropPlans (sound : Manifests drawn t) (picks : Plan → Bool) :
    Manifests drawn (t.dropPlans picks) := by
  have kept {plan : Plan} (member : plan ∈ (t.dropPlans picks).plans) :
      plan ∈ t.plans ∧ picks plan = false := by
    obtain ⟨held, unpicked⟩ := List.mem_filter.mp member
    exact ⟨held, by simpa using unpicked⟩
  have stays {plan : Plan} (member : plan ∈ (t.dropPlans picks).plans) :
      (t.plans.any fun row => picks row && row.id == plan.id) = false := by
    obtain ⟨held, unpicked⟩ := kept member
    rw [List.any_eq_false]
    intro other inside picked
    simp only [Bool.and_eq_true, beq_iff_eq] at picked
    rw [plan_unique sound inside held picked.2, unpicked] at picked
    exact nomatch picked.1
  have standing {plan : Plan} (held : plan ∈ t.plans)
      (ungone : (t.plans.any fun row => picks row && row.id == plan.id) = false) :
      plan ∈ (t.dropPlans picks).plans := by
    refine List.mem_filter.mpr ⟨held, ?_⟩
    have unpicked := List.any_eq_false.mp ungone plan held
    simpa using unpicked
  have fewer : ∀ ref ∈ (t.dropPlans picks).refs, ref ∈ t.refs := fun _ member =>
    List.mem_of_mem_filter member
  constructor
  · exact fun ref member => sound.refsHeld ref (fewer ref member)
  · intro ref member
    obtain ⟨held, ungone⟩ := List.mem_filter.mp member
    have owns := sound.refsOwned ref held
    cases same : ref.owner with
    | base id => rwa [same] at owns
    | checkpoint id =>
        rw [same] at owns ungone
        obtain ⟨plan, inside, rfl, workspace⟩ := owns
        exact ⟨plan, standing inside (by simpa [Owner.among] using ungone), rfl, workspace⟩
  · exact sound.plans.sublist (List.filter_sublist.map Plan.id)
  · exact sound.bases
  · exact fun plan member => sound.plansDrawn plan (kept member).1
  · exact sound.basesDrawn
  · exact fun plan member => sound.plansKnown plan (kept member).1
  · intro task member
    obtain ⟨old, held, rfl⟩ := Table.mem_update.mp member
    have known := sound.tasksKnown old held
    split <;> exact known
  · exact fun plan member => sound.retains plan (kept member).1
  · exact fun plan member => sound.settled plan (kept member).1
  · exact fun plan member => sound.rests plan (kept member).1
  · exact fun plan member other inside => sound.sole plan (kept member).1 other (kept inside).1
  · exact sound.rooted
  · intro plan member ready mode
    exact (sound.verifiedPlans plan (kept member).1 ready mode).fewer fewer rfl
  · exact fun base member ready => (sound.verifiedBases base member ready).fewer fewer rfl
  · intro plan member ready mode
    exact (sound.pagedPlans plan (kept member).1 ready mode).filter (stays member) rfl
  · exact fun base member ready => (sound.pagedBases base member ready).filter rfl rfl
  · exact fun page member digest contents body => named_filter sound member body
  · intro task member id pointer
    obtain ⟨old, held, rfl⟩ := Table.mem_update.mp member
    split at pointer
    · exact nomatch pointer
    · rename_i ungone
      rw [if_neg ungone]
      obtain ⟨plan, inside, rfl, ofTask⟩ := sound.pointers old held id pointer
      rw [pointer, Option.any_some, Bool.not_eq_true] at ungone
      exact ⟨plan, standing inside ungone, rfl, ofTask⟩

theorem manifests_dropBases (sound : Manifests drawn t) {picks : Base → Bool}
    (free : ∀ base ∈ t.bases, picks base = true → ∀ plan ∈ t.plans, plan.base ≠ some base.id) :
    Manifests drawn (t.dropBases picks) := by
  have kept {base : Base} (member : base ∈ (t.dropBases picks).bases) :
      base ∈ t.bases ∧ picks base = false := by
    obtain ⟨held, unpicked⟩ := List.mem_filter.mp member
    exact ⟨held, by simpa using unpicked⟩
  have stays {base : Base} (member : base ∈ (t.dropBases picks).bases) :
      (t.bases.any fun row => picks row && row.id == base.id) = false := by
    obtain ⟨held, unpicked⟩ := kept member
    rw [List.any_eq_false]
    intro other inside picked
    simp only [Bool.and_eq_true, beq_iff_eq] at picked
    rw [base_unique sound inside held picked.2, unpicked] at picked
    exact nomatch picked.1
  have fewer : ∀ ref ∈ (t.dropBases picks).refs, ref ∈ t.refs := fun _ member =>
    List.mem_of_mem_filter member
  refine { sound with
    refsHeld := ?_, refsOwned := ?_, bases := ?_, basesDrawn := ?_, rests := ?_, rooted := ?_,
    verifiedPlans := ?_, verifiedBases := ?_, pagedPlans := ?_, pagedBases := ?_, named := ?_ }
  · exact fun ref member => sound.refsHeld ref (fewer ref member)
  · intro ref member
    obtain ⟨held, ungone⟩ := List.mem_filter.mp member
    have owns := sound.refsOwned ref held
    cases same : ref.owner with
    | checkpoint id => rwa [same] at owns
    | base id =>
        rw [same] at owns ungone
        obtain ⟨base, inside, rfl, workspace⟩ := owns
        refine ⟨base, List.mem_filter.mpr ⟨inside, ?_⟩, rfl, workspace⟩
        have unpicked := List.any_eq_false.mp (Bool.not_eq_true' _ ▸ ungone) base inside
        simpa using unpicked
  · exact sound.bases.sublist (List.filter_sublist.map Base.id)
  · exact fun base member => sound.basesDrawn base (kept member).1
  · intro plan member id onBase
    obtain ⟨base, held, rfl, rest⟩ := sound.rests plan member id onBase
    refine ⟨base, List.mem_filter.mpr ⟨held, ?_⟩, rfl, rest⟩
    by_contra picked
    exact free base held (by simpa using picked) plan member onBase
  · exact fun base member => sound.rooted base (kept member).1
  · intro plan member ready mode
    exact (sound.verifiedPlans plan member ready mode).fewer fewer rfl
  · exact fun base member ready => (sound.verifiedBases base (kept member).1 ready).fewer fewer rfl
  · exact fun plan member ready mode => (sound.pagedPlans plan member ready mode).filter rfl rfl
  · intro base member ready
    exact (sound.pagedBases base (kept member).1 ready).filter (stays member) rfl
  · exact fun page member digest contents body => named_filter sound member body

/-! ## Plans and bases -/

theorem Tables.Paged.more {owner : Owner} {ids : List String} (before : t.Paged owner ids)
    (pages : ∀ page ∈ t.pages, page ∈ after.pages) : after.Paged owner ids := by
  intro id among
  obtain ⟨page, held, rest⟩ := before id among
  exact ⟨page, pages page held, rest⟩

theorem named_allocated (sound : Manifests drawn t) {owner : Owner} {ids : List String}
    {page : Page} (member : page ∈ t.pages ++ allocated owner ids) {digest : String}
    {contents : CheckpointPage} (body : page.body = some (digest, contents)) :
    ∀ id ∈ namedObjects contents, ∃ ref ∈ t.refs, ref.object = id ∧ ref.owner = page.owner := by
  rcases List.mem_append.mp member with old | new
  · exact sound.named page old digest contents body
  · obtain ⟨row, -, rfl⟩ := List.mem_map.mp new
    exact nomatch body

theorem manifests_newBase (sound : Manifests drawn t) {base : Base} (id : drawn base.id)
    (fresh : base.id ∉ t.bases.map Base.id) (unready : base.ready = false) :
    Manifests drawn { t with bases := t.bases ++ [base]
                             pages := t.pages ++ allocated (.base base.id) base.pageIds } := by
  have more : ∀ page ∈ t.pages, page ∈ t.pages ++ allocated (.base base.id) base.pageIds :=
    fun _ => List.mem_append_left _
  refine { sound with
    refsOwned := ?_, bases := ?_, basesDrawn := ?_, rests := ?_, rooted := ?_, verifiedBases := ?_,
    pagedPlans := ?_, pagedBases := ?_, named := ?_ }
  · intro ref member
    have owns := sound.refsOwned ref member
    cases same : ref.owner with
    | checkpoint id => rwa [same] at owns
    | base id =>
        rw [same] at owns
        obtain ⟨other, held, rest⟩ := owns
        exact ⟨other, List.mem_append_left _ held, rest⟩
  · rw [List.map_append]
    exact sound.bases.append (List.nodup_singleton _) (by simpa using fresh)
  · intro other member
    rcases List.mem_append.mp member with old | new
    · exact sound.basesDrawn other old
    · exact List.mem_singleton.mp new ▸ id
  · intro plan member id onBase
    obtain ⟨other, held, rest⟩ := sound.rests plan member id onBase
    exact ⟨other, List.mem_append_left _ held, rest⟩
  · intro other member ready
    rcases List.mem_append.mp member with old | new
    · exact sound.rooted other old ready
    · rw [List.mem_singleton.mp new, unready] at ready
      exact nomatch ready
  · intro other member ready
    rcases List.mem_append.mp member with old | new
    · exact sound.verifiedBases other old ready
    · rw [List.mem_singleton.mp new, unready] at ready
      exact nomatch ready
  · exact fun plan member ready mode => (sound.pagedPlans plan member ready mode).more more
  · intro other member ready
    rcases List.mem_append.mp member with old | new
    · exact (sound.pagedBases other old ready).more more
    · rw [List.mem_singleton.mp new, unready] at ready
      exact nomatch ready
  · exact fun page member digest contents body => named_allocated sound member body

theorem manifests_newPlan (sound : Manifests drawn t) {plan : Plan} {operation : Operation}
    {sequence : Task → Task} (id : drawn plan.id) (allocates : plan.Allocated t)
    (counts : ∀ task, (sequence task).id = task.id ∧ (sequence task).workspace = task.workspace ∧
      (sequence task).checkpoint = task.checkpoint) (pages : List String) :
    Manifests drawn { t with plans := t.plans ++ [plan]
                             operations := t.operations ++ [operation]
                             tasks := t.tasks.map sequence
                             pages := t.pages ++ allocated (.checkpoint plan.id) pages } := by
  have more : ∀ page ∈ t.pages, page ∈ t.pages ++ allocated (.checkpoint plan.id) pages :=
    fun _ => List.mem_append_left _
  refine { sound with
    refsOwned := ?_, plans := ?_, plansDrawn := ?_, plansKnown := ?_, tasksKnown := ?_,
    retains := ?_, settled := ?_, rests := ?_, sole := ?_, verifiedPlans := ?_, pagedPlans := ?_,
    pagedBases := ?_, named := ?_, pointers := ?_ }
  · intro ref member
    have owns := sound.refsOwned ref member
    cases same : ref.owner with
    | base id => rwa [same] at owns
    | checkpoint id =>
        rw [same] at owns
        obtain ⟨other, held, rest⟩ := owns
        exact ⟨other, List.mem_append_left _ held, rest⟩
  · rw [List.map_append]
    exact sound.plans.append (List.nodup_singleton _) (by simpa using allocates.fresh)
  · intro other member
    rcases List.mem_append.mp member with old | new
    · exact sound.plansDrawn other old
    · exact List.mem_singleton.mp new ▸ id
  · intro other member
    rcases List.mem_append.mp member with old | new
    · exact sound.plansKnown other old
    · exact List.mem_singleton.mp new ▸ allocates.known
  · intro task member
    obtain ⟨old, held, rfl⟩ := List.mem_map.mp member
    rw [(counts old).2.1]
    exact sound.tasksKnown old held
  · intro other member
    rcases List.mem_append.mp member with old | new
    · exact sound.retains other old
    · exact List.mem_singleton.mp new ▸ allocates.retains
  · intro other member ready
    rcases List.mem_append.mp member with old | new
    · exact sound.settled other old ready
    · exact List.mem_singleton.mp new ▸ allocates.abandoned
  · intro other member base onBase
    rcases List.mem_append.mp member with old | new
    · exact sound.rests other old base onBase
    · rw [List.mem_singleton.mp new] at onBase ⊢
      obtain ⟨held, inside, same, workspace, incremental, retains⟩ := allocates.rests base onBase
      refine ⟨held, inside, same, workspace, incremental, ?_, ?_, ?_⟩
      · exact fun mode ready => (retains mode).2.1 ▸ ready
      · exact fun mode unready _ => ⟨(retains mode).2.1 ▸ unready, (retains mode).1⟩
      · exact fun mode => (retains mode).2.2
  · -- A base being made is made by one plan: a new one finds no other over it.
    intro one oneHeld other otherHeld oneMode oneUnready oneStands otherMode otherUnready
      otherStands same
    rcases List.mem_append.mp oneHeld with oneOld | oneNew <;>
      rcases List.mem_append.mp otherHeld with otherOld | otherNew
    · exact sound.sole one oneOld other otherOld oneMode oneUnready oneStands otherMode
        otherUnready otherStands same
    · rw [List.mem_singleton.mp otherNew] at otherMode otherUnready same
      exact absurd oneMode (allocates.sole otherMode otherUnready one oneOld same.symm)
    · rw [List.mem_singleton.mp oneNew] at oneMode oneUnready same
      exact absurd otherMode (allocates.sole oneMode oneUnready other otherOld same)
    · rw [List.mem_singleton.mp oneNew, List.mem_singleton.mp otherNew]
  · intro other member ready mode
    rcases List.mem_append.mp member with old | new
    · exact sound.verifiedPlans other old ready mode
    · rw [List.mem_singleton.mp new] at ready mode
      rw [allocates.incremental mode] at ready
      exact nomatch ready
  · intro other member ready mode
    rcases List.mem_append.mp member with old | new
    · exact (sound.pagedPlans other old ready mode).more more
    · rw [List.mem_singleton.mp new] at ready mode
      rw [allocates.incremental mode] at ready
      exact nomatch ready
  · exact fun base member ready => (sound.pagedBases base member ready).more more
  · exact fun page member digest contents body => named_allocated sound member body
  · intro task member pointed pointer
    obtain ⟨old, held, rfl⟩ := List.mem_map.mp member
    rw [(counts old).2.2] at pointer
    rw [(counts old).1]
    obtain ⟨other, inside, rest⟩ := sound.pointers old held pointed pointer
    exact ⟨other, List.mem_append_left _ inside, rest⟩

theorem Tables.Paged.written {owner holder : Owner} {ids : List String} {page digest : String}
    {contents : CheckpointPage} (before : t.Paged owner ids) :
    (t.pageWrite page holder digest contents).Paged owner ids := by
  intro id among
  obtain ⟨old, held, same, ofOwner, body⟩ := before id among
  refine ⟨_, Table.mem_update.mpr ⟨old, held, rfl⟩, ?_⟩
  split
  · exact ⟨same, ofOwner, rfl⟩
  · exact ⟨same, ofOwner, body⟩

theorem manifests_pageWrite (sound : Manifests drawn t) {page digest : String} {owner : Owner}
    {contents : CheckpointPage}
    (named : ∀ id ∈ namedObjects contents, ∃ ref ∈ t.refs, ref.object = id ∧ ref.owner = owner) :
    Manifests drawn (t.pageWrite page owner digest contents) := by
  refine { sound with pagedPlans := ?_, pagedBases := ?_, named := ?_ }
  · exact fun plan member ready mode => (sound.pagedPlans plan member ready mode).written
  · exact fun base member ready => (sound.pagedBases base member ready).written
  · intro row member saved body has
    obtain ⟨old, held, rfl⟩ := Table.mem_update.mp member
    split at has
    · rename_i picked
      rw [if_pos picked]
      simp only [Bool.and_eq_true, beq_iff_eq] at picked
      rw [Option.some.injEq, Prod.mk.injEq] at has
      rw [← has.2]
      change ∀ id ∈ namedObjects contents, ∃ ref ∈ t.refs, ref.object = id ∧ ref.owner = old.owner
      rw [picked.1.2]
      exact named
    · rename_i unpicked
      rw [if_neg unpicked]
      exact sound.named old held saved body has

theorem manifests_plans (sound : Manifests drawn t) {picks : Plan → Bool} {change : Plan → Plan}
    (kept : ∀ row, (change row).id = row.id ∧ (change row).workspace = row.workspace ∧
      (change row).task = row.task ∧ (change row).mode = row.mode ∧ (change row).base = row.base ∧
        (change row).pageIds = row.pageIds ∧ (change row).ready = row.ready)
    (abandons : ∀ row, (change row).abandoned = false → row.abandoned = false)
    (settled : ∀ row, picks row = true → row.ready = true → row.abandoned = false →
      (change row).abandoned = false) :
    Manifests drawn { t with plans := Table.update picks change t.plans } := by
  have was {row : Plan} (member : row ∈ Table.update picks change t.plans) :
      ∃ old ∈ t.plans, row.id = old.id ∧ row.workspace = old.workspace ∧ row.task = old.task ∧
        row.mode = old.mode ∧ row.base = old.base ∧ row.pageIds = old.pageIds ∧
          row.ready = old.ready ∧ (row.abandoned = false → old.abandoned = false) := by
    obtain ⟨old, held, rfl⟩ := Table.mem_update.mp member
    obtain ⟨id, workspace, task, mode, base, pageIds, ready⟩ := kept old
    refine ⟨old, held, ?_⟩
    split
    · exact ⟨id, workspace, task, mode, base, pageIds, ready, abandons old⟩
    · exact ⟨rfl, rfl, rfl, rfl, rfl, rfl, rfl, fun stands => stands⟩
  have still {old : Plan} (held : old ∈ t.plans) : ∃ row ∈ Table.update picks change t.plans,
      row.id = old.id ∧ row.workspace = old.workspace ∧ row.task = old.task ∧
        row.mode = old.mode ∧ row.ready = old.ready := by
    obtain ⟨id, workspace, task, mode, -, -, ready⟩ := kept old
    refine ⟨_, Table.mem_update.mpr ⟨old, held, rfl⟩, ?_⟩
    split
    · exact ⟨id, workspace, task, mode, ready⟩
    · exact ⟨rfl, rfl, rfl, rfl, rfl⟩
  refine { sound with
    refsOwned := ?_, plans := ?_, plansDrawn := ?_, plansKnown := ?_, retains := ?_, settled := ?_,
    rests := ?_, sole := ?_, verifiedPlans := ?_, pagedPlans := ?_, pointers := ?_ }
  · intro ref member
    have owns := sound.refsOwned ref member
    cases same : ref.owner with
    | base id => rwa [same] at owns
    | checkpoint id =>
        rw [same] at owns
        obtain ⟨old, held, rfl, workspace⟩ := owns
        obtain ⟨row, inside, id, ofWorkspace, -⟩ := still held
        exact ⟨row, inside, id, ofWorkspace.trans workspace⟩
  · rw [Table.column_update Plan.id _ _ fun row => (kept row).1]
    exact sound.plans
  · intro plan member
    obtain ⟨old, held, id, -⟩ := was member
    exact id ▸ sound.plansDrawn old held
  · intro plan member
    obtain ⟨old, held, -, workspace, -⟩ := was member
    exact workspace ▸ sound.plansKnown old held
  · intro plan member
    obtain ⟨old, held, -, -, -, mode, base, -⟩ := was member
    rw [mode, base]
    exact sound.retains old held
  · intro plan member ready
    obtain ⟨old, held, rfl⟩ := Table.mem_update.mp member
    split at ready
    · rename_i picked
      rw [if_pos picked]
      have wasReady := (kept old).2.2.2.2.2.2.symm.trans ready
      exact settled old picked wasReady (sound.settled old held wasReady)
    · rename_i unpicked
      rw [if_neg unpicked]
      exact sound.settled old held ready
  · intro plan member id onBase
    obtain ⟨old, held, -, workspace, -, mode, base, pageIds, ready, stands⟩ := was member
    rw [base] at onBase
    obtain ⟨under, inside, same, ofWorkspace, isOver⟩ := sound.rests old held id onBase
    refine ⟨under, inside, same, ofWorkspace.trans workspace.symm, ?_, ?_, ?_, ?_⟩
    · exact fun is => isOver.incremental (mode.symm.trans is)
    · exact fun is wasReady => isOver.ready (mode.symm.trans is) (ready.symm.trans wasReady)
    · exact fun is unready open_ =>
        isOver.unready (mode.symm.trans is) (ready.symm.trans unready) (stands open_)
    · exact fun is => pageIds.trans (isOver.pages (mode.symm.trans is))
  · intro one oneMember other otherMember oneMode oneUnready oneStands otherMode otherUnready
      otherStands same
    obtain ⟨first, oneHeld, oneId, -, -, mode, base, -, ready, stands⟩ := was oneMember
    obtain ⟨second, otherHeld, otherId, -, -, mode', base', -, ready', stands'⟩ := was otherMember
    rw [mode] at oneMode
    rw [ready] at oneUnready
    rw [mode'] at otherMode
    rw [ready'] at otherUnready
    rw [base, base'] at same
    rw [oneId, otherId]
    exact sound.sole first oneHeld second otherHeld oneMode oneUnready (stands oneStands)
      otherMode otherUnready (stands' otherStands) same
  · intro plan member isReady isMode
    obtain ⟨old, held, id, -, -, mode, -, -, ready, -⟩ := was member
    rw [id]
    exact sound.verifiedPlans old held (ready.symm.trans isReady) (mode.symm.trans isMode)
  · intro plan member isReady isMode
    obtain ⟨old, held, id, -, -, mode, -, pageIds, ready, -⟩ := was member
    rw [id, pageIds]
    exact sound.pagedPlans old held (ready.symm.trans isReady) (mode.symm.trans isMode)
  · intro task member id pointer
    obtain ⟨old, held, rfl, ofTask, isReady, isMode⟩ := sound.pointers task member id pointer
    obtain ⟨row, inside, same, -, task', mode, ready⟩ := still held
    exact ⟨row, inside, same, task'.trans ofTask, ready.trans isReady, mode.trans isMode⟩

theorem manifests_retire (sound : Manifests drawn t) (workspace repository : String) (now : Int) :
    Manifests drawn (t.retireUnfinishedBase workspace repository now) := by
  have was {row : Base} (member : row ∈ (t.retireUnfinishedBase workspace repository now).bases) :
      ∃ old ∈ t.bases, row.id = old.id ∧ row.ready = old.ready ∧ row.pageIds = old.pageIds ∧
        row.manifestRoot = old.manifestRoot := by
    obtain ⟨old, held, rfl⟩ := Table.mem_update.mp member
    refine ⟨old, held, ?_⟩
    split <;> exact ⟨rfl, rfl, rfl, rfl⟩
  refine { sound with
    refsOwned := ?_, bases := ?_, basesDrawn := ?_, rests := ?_, rooted := ?_, verifiedBases := ?_,
    pagedBases := ?_ }
  · intro ref member
    have owns := sound.refsOwned ref member
    cases same : ref.owner with
    | checkpoint id => rwa [same] at owns
    | base id =>
        rw [same] at owns
        obtain ⟨old, held, rfl, ofWorkspace⟩ := owns
        refine ⟨_, Table.mem_update.mpr ⟨old, held, rfl⟩, ?_⟩
        split <;> exact ⟨rfl, ofWorkspace⟩
  · rw [Tables.retireUnfinishedBase, Table.column_update Base.id _ _ fun _ => by rfl]
    exact sound.bases
  · intro base member
    obtain ⟨old, held, id, -⟩ := was member
    exact id ▸ sound.basesDrawn old held
  · intro plan member id onBase
    obtain ⟨base, held, same, ofWorkspace, isOver⟩ := sound.rests plan member id onBase
    refine ⟨_, Table.mem_update.mpr ⟨base, held, rfl⟩, ?_⟩
    split
    · rename_i picked
      refine ⟨same, ofWorkspace, isOver.incremental, isOver.ready, ?_, isOver.pages⟩
      intro mode unready stands
      simp only [Bool.and_eq_true, Bool.not_eq_true', List.any_eq_false, beq_iff_eq] at picked
      exact absurd ⟨onBase.trans (congrArg some same.symm), stands⟩ (picked.2 plan member)
    · exact ⟨same, ofWorkspace, isOver⟩
  · intro base member isReady
    obtain ⟨old, held, -, ready, -, root⟩ := was member
    rw [root]
    exact sound.rooted old held (ready.symm.trans isReady)
  · intro base member isReady
    obtain ⟨old, held, id, ready, -⟩ := was member
    rw [id]
    exact sound.verifiedBases old held (ready.symm.trans isReady)
  · intro base member isReady
    obtain ⟨old, held, id, ready, pageIds, -⟩ := was member
    rw [id, pageIds]
    exact sound.pagedBases old held (ready.symm.trans isReady)

/-! ## Commits -/

theorem verified_of_complete (sound : Manifests drawn t) (distinct : (t.objects.map Object.id).Nodup)
    {owner : Owner} {workspace : String} (only : ∀ other, t.Owns other owner → other = workspace)
    (complete : t.objectsComplete owner workspace = true) : t.Verified owner := by
  intro ref member owned row inside same
  have ofWorkspace : ref.workspace = workspace := by
    have owns := sound.refsOwned ref member
    rw [owned] at owns
    exact only ref.workspace owns
  obtain ⟨held, among, id, within⟩ := sound.refsHeld ref member
  have row_eq : row = held := List.inj_on_of_nodup_map distinct inside among (same.trans id.symm)
  rw [Tables.objectsComplete, Bool.not_eq_true', List.any_eq_false] at complete
  have settled := complete ref member
  simp only [owned, ofWorkspace, beq_self_eq_true, Bool.true_and, List.any_eq_true, not_exists,
    not_and, Bool.and_eq_true, beq_iff_eq, Bool.or_eq_true, Bool.not_eq_true', not_or,
    Bool.not_eq_false, Bool.not_eq_true] at settled
  exact (settled row inside ⟨same, row_eq ▸ within.trans ofWorkspace⟩).1

/-- A row of the plans, once the plan `saved` is ready. -/
structure Plan.Saves (row old : Plan) (saved : String) : Prop where
  id : row.id = old.id
  workspace : row.workspace = old.workspace
  task : row.task = old.task
  mode : row.mode = old.mode
  base : row.base = old.base
  pageIds : row.pageIds = old.pageIds
  abandoned : row.abandoned = old.abandoned
  ready : row.ready = true → old.ready = true ∨ old.id = saved
  unready : row.ready = false → old.ready = false ∧ old.id ≠ saved

section Commits

variable {plan : Plan} (commit : Commit)

theorem saves_of_mem (sound : Manifests drawn t) (held : plan ∈ t.plans)
    (unready : plan.ready = false) (stands : plan.abandoned = false) {row : Plan}
    (member : row ∈ (t.planReady plan.id commit).plans) :
    ∃ old ∈ t.plans, row.Saves old plan.id := by
  obtain ⟨old, inside, rfl⟩ := Table.mem_update.mp member
  refine ⟨old, inside, ?_⟩
  split
  · rename_i picked
    simp only [Bool.and_eq_true, beq_iff_eq] at picked
    exact ⟨rfl, rfl, rfl, rfl, rfl, rfl, rfl, fun _ => .inr picked.1.1, fun no => nomatch no⟩
  · rename_i unpicked
    refine ⟨rfl, rfl, rfl, rfl, rfl, rfl, rfl, .inl, fun no => ⟨no, fun same => unpicked ?_⟩⟩
    rw [plan_unique sound inside held same, unready, stands]
    simp

theorem mem_of_saves (sound : Manifests drawn t) (held : plan ∈ t.plans)
    (unready : plan.ready = false) (stands : plan.abandoned = false) {old : Plan}
    (inside : old ∈ t.plans) :
    ∃ row ∈ (t.planReady plan.id commit).plans, row.Saves old plan.id := by
  let row := if old.id == plan.id && !old.ready && !old.abandoned then
      { old with
        manifestRoot := some commit.manifestRoot, historyDigest := some commit.historyDigest,
        coveredInput := commit.coveredInput, effectWatermark := commit.effectWatermark,
        ready := true }
    else old
  have member : row ∈ (t.planReady plan.id commit).plans :=
    Table.mem_update.mpr ⟨old, inside, rfl⟩
  obtain ⟨other, among, saves⟩ := saves_of_mem commit sound held unready stands member
  have id : row.id = old.id := by
    dsimp only [row]
    split <;> rfl
  have same : other = old := plan_unique sound among inside (saves.id.symm.trans id)
  exact ⟨row, member, same ▸ saves⟩

theorem saves_refsOwned (sound : Manifests drawn t) (held : plan ∈ t.plans)
    (unready : plan.ready = false) (stands : plan.abandoned = false) :
    ∀ ref ∈ t.refs, (t.planReady plan.id commit).Owns ref.workspace ref.owner := by
  intro ref member
  have owns := sound.refsOwned ref member
  cases same : ref.owner with
  | base id => rwa [same] at owns
  | checkpoint id =>
      rw [same] at owns
      obtain ⟨old, inside, rfl, workspace⟩ := owns
      obtain ⟨row, among, saves⟩ := mem_of_saves commit sound held unready stands inside
      exact ⟨row, among, saves.id, saves.workspace.trans workspace⟩

theorem saves_sole (sound : Manifests drawn t) (held : plan ∈ t.plans)
    (unready : plan.ready = false) (stands : plan.abandoned = false) :
    ∀ one ∈ (t.planReady plan.id commit).plans, ∀ other ∈ (t.planReady plan.id commit).plans,
      one.mode = .retainBase → one.ready = false → one.abandoned = false →
        other.mode = .retainBase → other.ready = false → other.abandoned = false →
          other.base = one.base → other.id = one.id := by
  intro one oneMember other otherMember oneMode oneUnready oneStands otherMode otherUnready
    otherStands same
  obtain ⟨first, oneHeld, saves⟩ := saves_of_mem commit sound held unready stands oneMember
  obtain ⟨second, otherHeld, saves'⟩ := saves_of_mem commit sound held unready stands otherMember
  rw [saves.mode] at oneMode
  rw [saves.abandoned] at oneStands
  rw [saves'.mode] at otherMode
  rw [saves'.abandoned] at otherStands
  rw [saves.base, saves'.base] at same
  rw [saves.id, saves'.id]
  exact sound.sole first oneHeld second otherHeld oneMode (saves.unready oneUnready).1 oneStands
    otherMode (saves'.unready otherUnready).1 otherStands same

theorem manifests_saved (sound : Manifests drawn t) (held : plan ∈ t.plans)
    (unready : plan.ready = false) (stands : plan.abandoned = false)
    (mode : plan.mode = .incremental) (verified : t.Verified (.checkpoint plan.id))
    (paged : t.Paged (.checkpoint plan.id) plan.pageIds) :
    Manifests drawn ((t.planReady plan.id commit).taskCheckpoint plan.task plan.id) := by
  have was {row : Plan} (member : row ∈ (t.planReady plan.id commit).plans) :=
    saves_of_mem commit sound held unready stands member
  refine { sound with
    refsOwned := ?_, plans := ?_, plansDrawn := ?_, plansKnown := ?_, tasksKnown := ?_,
    retains := ?_, settled := ?_, rests := ?_, sole := ?_, verifiedPlans := ?_, pagedPlans := ?_,
    pointers := ?_ }
  · exact saves_refsOwned commit sound held unready stands
  · change ((t.planReady plan.id commit).plans.map Plan.id).Nodup
    rw [Tables.planReady, Table.column_update Plan.id _ _ fun _ => by rfl]
    exact sound.plans
  · intro row member
    obtain ⟨old, inside, saves⟩ := was member
    exact saves.id ▸ sound.plansDrawn old inside
  · intro row member
    obtain ⟨old, inside, saves⟩ := was member
    exact saves.workspace ▸ sound.plansKnown old inside
  · intro task member
    obtain ⟨old, inside, rfl⟩ := Table.mem_update.mp member
    have known := sound.tasksKnown old inside
    split <;> exact known
  · intro row member
    obtain ⟨old, inside, saves⟩ := was member
    rw [saves.mode, saves.base]
    exact sound.retains old inside
  · intro row member ready
    obtain ⟨old, inside, saves⟩ := was member
    rw [saves.abandoned]
    rcases saves.ready ready with before | same
    · exact sound.settled old inside before
    · exact plan_unique sound inside held same ▸ stands
  · intro row member id onBase
    obtain ⟨old, inside, saves⟩ := was member
    rw [saves.base] at onBase
    obtain ⟨base, among, same, ofWorkspace, isOver⟩ := sound.rests old inside id onBase
    refine ⟨base, among, same, ofWorkspace.trans saves.workspace.symm, ?_, ?_, ?_, ?_⟩
    · exact fun is => isOver.incremental (saves.mode.symm.trans is)
    · intro is ready
      rcases saves.ready ready with before | this
      · exact isOver.ready (saves.mode.symm.trans is) before
      · rw [saves.mode, plan_unique sound inside held this, mode] at is
        exact nomatch is
    · intro is no open_
      exact isOver.unready (saves.mode.symm.trans is) (saves.unready no).1
        (saves.abandoned.symm.trans open_)
    · exact fun is => saves.pageIds.trans (isOver.pages (saves.mode.symm.trans is))
  · exact saves_sole commit sound held unready stands
  · intro row member ready is
    obtain ⟨old, inside, saves⟩ := was member
    rw [saves.id]
    rcases saves.ready ready with before | same
    · exact sound.verifiedPlans old inside before (saves.mode.symm.trans is)
    · exact same ▸ verified
  · intro row member ready is
    obtain ⟨old, inside, saves⟩ := was member
    rw [saves.id, saves.pageIds]
    rcases saves.ready ready with before | same
    · exact sound.pagedPlans old inside before (saves.mode.symm.trans is)
    · rw [plan_unique sound inside held same]
      exact paged
  · intro task member id pointer
    obtain ⟨old, inside, rfl⟩ := Table.mem_update.mp member
    have pointed {saved : String} {from_ : Plan} (among : from_ ∈ t.plans)
        (same : from_.id = saved) (ofTask : from_.task = old.id)
        (ready : from_.ready = true ∨ saved = plan.id) (is : from_.mode = .incremental) :
        ∃ row ∈ (t.planReady plan.id commit).plans, row.id = saved ∧ row.task = old.id ∧
          row.ready = true ∧ row.mode = .incremental := by
      obtain ⟨row, there, saves⟩ := mem_of_saves commit sound held unready stands among
      refine ⟨row, there, saves.id.trans same, saves.task.trans ofTask, ?_, saves.mode.trans is⟩
      by_contra no
      obtain ⟨wasUnready, apart⟩ := saves.unready (Bool.not_eq_true _ ▸ no)
      rcases ready with before | this
      · exact nomatch wasUnready.symm.trans before
      · exact apart (same.trans this)
    split at pointer
    · rename_i here
      rw [if_pos here]
      rw [Option.some.injEq] at pointer
      exact pointed held pointer (beq_iff_eq.mp here).symm (.inr pointer.symm) mode
    · rename_i elsewhere
      rw [if_neg elsewhere]
      obtain ⟨from_, among, same, ofTask, ready, is⟩ := sound.pointers old inside id pointer
      exact pointed among same ofTask (.inl ready) is

theorem manifests_based (sound : Manifests drawn t) {base : Base} {now : Int} (held : plan ∈ t.plans)
    (unready : plan.ready = false) (stands : plan.abandoned = false)
    (mode : plan.mode = .retainBase) (under : base ∈ t.bases) (isBase : plan.base = some base.id)
    (verified : t.Verified (.base base.id)) (paged : t.Paged (.base base.id) plan.pageIds) :
    Manifests drawn ((t.planReady plan.id commit).baseReady base.id commit.manifestRoot now) := by
  have was {row : Plan} (member : row ∈ (t.planReady plan.id commit).plans) :=
    saves_of_mem commit sound held unready stands member
  have overBase : plan.Over base := by
    obtain ⟨other, among, same, -, isOver⟩ := sound.rests plan held base.id isBase
    exact base_unique sound among under same ▸ isOver
  obtain ⟨unmade, unretired⟩ := overBase.unready mode unready stands
  -- Only this base is made ready.
  have baseWas {row : Base} (member : row ∈ ((t.planReady plan.id commit).baseReady base.id
      commit.manifestRoot now).bases) : ∃ old ∈ t.bases, row.id = old.id ∧
        row.pageIds = old.pageIds ∧ (row.ready = true → old.ready = true ∨ old = base) := by
    obtain ⟨old, inside, rfl⟩ := Table.mem_update.mp member
    refine ⟨old, inside, ?_⟩
    split
    · rename_i picked
      simp only [Bool.and_eq_true, beq_iff_eq] at picked
      exact ⟨rfl, rfl, fun _ => .inr (base_unique sound inside under picked.1.1)⟩
    · exact ⟨rfl, rfl, .inl⟩
  refine { sound with
    refsOwned := ?_, plans := ?_, bases := ?_, plansDrawn := ?_, basesDrawn := ?_, plansKnown := ?_,
    retains := ?_, settled := ?_, rests := ?_, sole := ?_, rooted := ?_, verifiedPlans := ?_,
    verifiedBases := ?_, pagedPlans := ?_, pagedBases := ?_, pointers := ?_ }
  · intro ref member
    have owns := saves_refsOwned commit sound held unready stands ref member
    cases same : ref.owner with
    | checkpoint id => rwa [same] at owns
    | base id =>
        rw [same] at owns
        obtain ⟨old, inside, rfl, ofWorkspace⟩ := owns
        refine ⟨_, Table.mem_update.mpr ⟨old, inside, rfl⟩, ?_⟩
        split <;> exact ⟨rfl, ofWorkspace⟩
  · change ((t.planReady plan.id commit).plans.map Plan.id).Nodup
    rw [Tables.planReady, Table.column_update Plan.id _ _ fun _ => by rfl]
    exact sound.plans
  · rw [Tables.baseReady, Table.column_update Base.id _ _ fun _ => by rfl]
    exact sound.bases
  · intro row member
    obtain ⟨old, inside, saves⟩ := was member
    exact saves.id ▸ sound.plansDrawn old inside
  · intro row member
    obtain ⟨old, inside, id, -⟩ := baseWas member
    exact id ▸ sound.basesDrawn old inside
  · intro row member
    obtain ⟨old, inside, saves⟩ := was member
    exact saves.workspace ▸ sound.plansKnown old inside
  · intro row member
    obtain ⟨old, inside, saves⟩ := was member
    rw [saves.mode, saves.base]
    exact sound.retains old inside
  · intro row member ready
    obtain ⟨old, inside, saves⟩ := was member
    rw [saves.abandoned]
    rcases saves.ready ready with before | same
    · exact sound.settled old inside before
    · exact plan_unique sound inside held same ▸ stands
  · intro row member id onBase
    obtain ⟨old, inside, saves⟩ := was member
    rw [saves.base] at onBase
    obtain ⟨below, among, same, ofWorkspace, isOver⟩ := sound.rests old inside id onBase
    refine ⟨_, Table.mem_update.mpr ⟨below, among, rfl⟩, ?_⟩
    split
    · rename_i picked
      refine ⟨same, ofWorkspace.trans saves.workspace.symm, fun _ => rfl, fun _ _ => rfl, ?_, ?_⟩
      · -- The plan that made it is ready, and it was the only one.
        intro is no open_
        simp only [Bool.and_eq_true, beq_iff_eq] at picked
        obtain ⟨wasUnready, apart⟩ := saves.unready no
        refine absurd ?_ apart
        exact sound.sole plan held old inside mode unready stands (saves.mode.symm.trans is)
          wasUnready (saves.abandoned.symm.trans open_)
          (onBase.trans (same ▸ picked.1.1 ▸ isBase.symm))
      · exact fun is => saves.pageIds.trans (isOver.pages (saves.mode.symm.trans is))
    · rename_i unpicked
      refine ⟨same, ofWorkspace.trans saves.workspace.symm, ?_, ?_, ?_, ?_⟩
      · exact fun is => isOver.incremental (saves.mode.symm.trans is)
      · intro is ready
        rcases saves.ready ready with before | this
        · exact isOver.ready (saves.mode.symm.trans is) before
        · -- The plan made ready is over the base made ready.
          rw [plan_unique sound inside held this, isBase, Option.some.injEq] at onBase
          rw [base_unique sound among under (same.trans onBase.symm), unmade, unretired] at unpicked
          simp at unpicked
      · intro is no open_
        exact isOver.unready (saves.mode.symm.trans is) (saves.unready no).1
          (saves.abandoned.symm.trans open_)
      · exact fun is => saves.pageIds.trans (isOver.pages (saves.mode.symm.trans is))
  · exact saves_sole commit sound held unready stands
  · intro row member ready
    obtain ⟨old, inside, rfl⟩ := Table.mem_update.mp member
    split at ready
    · rename_i picked
      rw [if_pos picked]
      rfl
    · rename_i unpicked
      rw [if_neg unpicked]
      exact sound.rooted old inside ready
  · intro row member ready is
    obtain ⟨old, inside, saves⟩ := was member
    rw [saves.id]
    rcases saves.ready ready with before | same
    · exact sound.verifiedPlans old inside before (saves.mode.symm.trans is)
    · rw [saves.mode, plan_unique sound inside held same, mode] at is
      exact nomatch is
  · intro row member ready
    obtain ⟨old, inside, id, -, made⟩ := baseWas member
    rw [id]
    rcases made ready with before | rfl
    · exact sound.verifiedBases old inside before
    · exact verified
  · intro row member ready is
    obtain ⟨old, inside, saves⟩ := was member
    rw [saves.id, saves.pageIds]
    rcases saves.ready ready with before | same
    · exact sound.pagedPlans old inside before (saves.mode.symm.trans is)
    · rw [saves.mode, plan_unique sound inside held same, mode] at is
      exact nomatch is
  · intro row member ready
    obtain ⟨old, inside, id, pageIds, made⟩ := baseWas member
    rw [id, pageIds]
    rcases made ready with before | rfl
    · exact sound.pagedBases old inside before
    · exact overBase.pages mode ▸ paged
  · intro task member id pointer
    obtain ⟨from_, among, same, ofTask, ready, is⟩ := sound.pointers task member id pointer
    obtain ⟨row, there, saves⟩ := mem_of_saves commit sound held unready stands among
    refine ⟨row, there, saves.id.trans same, saves.task.trans ofTask, ?_, saves.mode.trans is⟩
    by_contra no
    exact nomatch ((saves.unready (Bool.not_eq_true _ ▸ no)).1.symm.trans ready)

theorem manifests_publish (sound : Manifests drawn t) (distinct : (t.objects.map Object.id).Nodup)
    {holder : Owner} {now : Int} (held : plan ∈ t.plans) (unready : plan.ready = false)
    (stands : plan.abandoned = false) (holds : plan.holder = .ok holder)
    (complete : t.objectsComplete holder plan.workspace = true)
    (paged : t.Paged holder plan.pageIds) :
    Manifests drawn (t.published plan holder commit now) := by
  cases mode : plan.mode with
  | incremental =>
      simp only [Plan.holder, mode, Except.ok.injEq] at holds
      subst holds
      refine manifests_saved commit sound held unready stands mode ?_ paged
      refine verified_of_complete sound distinct ?_ complete
      rintro other ⟨row, inside, same, ofWorkspace⟩
      rw [← ofWorkspace, plan_unique sound inside held same]
  | retainBase =>
      obtain ⟨id, isBase⟩ := Option.ne_none_iff_exists'.mp (sound.retains plan held mode)
      simp only [Plan.holder, mode, isBase, Except.ok.injEq] at holds
      subst holds
      obtain ⟨base, under, rfl, ofWorkspace, -⟩ := sound.rests plan held id isBase
      refine manifests_based commit sound held unready stands mode under isBase ?_ paged
      refine verified_of_complete sound distinct ?_ complete
      rintro other ⟨row, inside, same, within⟩
      rw [← within, base_unique sound inside under same, ofWorkspace]

end Commits

/-! ## Tasks and workspaces -/

theorem manifests_openTask (sound : Manifests drawn t) {task : Task}
    (known : task.workspace ∈ t.workspaces) : Manifests drawn (t.openTask task) := by
  unfold Tables.openTask
  split
  · exact sound
  · refine { sound with tasksKnown := ?_, pointers := ?_ }
    · intro row member
      rcases List.mem_append.mp member with old | new
      · exact sound.tasksKnown row old
      · rw [List.mem_singleton.mp new]
        exact known
    · intro row member id pointer
      rcases List.mem_append.mp member with old | new
      · exact sound.pointers row old id pointer
      · rw [List.mem_singleton.mp new] at pointer
        exact nomatch pointer

theorem manifests_moveTask (sound : Manifests drawn t) (task : String)
    (generation stopGeneration : Nat) (running : Bool) (terminalAt : Option Int) :
    Manifests drawn (t.moveTask task generation stopGeneration running terminalAt) := by
  refine { sound with tasksKnown := ?_, pointers := ?_ }
  · intro row member
    obtain ⟨old, inside, rfl⟩ := Table.mem_update.mp member
    have known := sound.tasksKnown old inside
    split <;> exact known
  · intro row member
    obtain ⟨old, inside, rfl⟩ := Table.mem_update.mp member
    have pointers := sound.pointers old inside
    split <;> exact pointers

variable {stored : String → Descriptor → Prop} {gone drops : String → Prop}

theorem manifests_writes (sound : Manifests drawn t) (ledger : Ledger drawn t)
    (writes : Writes drawn stored gone drops t after) : Manifests drawn after := by
  cases writes with
  | quota workspace known =>
      unfold Tables.quota
      split
      · exact sound
      · exact sound.same rfl rfl rfl rfl rfl rfl rfl
  | reserve workspace new reserved admitted distinct fresh born =>
      exact manifests_reserve sound admitted fun row member => (fresh row member).2.1
  | planBytes checkpoint bytes =>
      exact manifests_plans sound (fun _ => ⟨rfl, rfl, rfl, rfl, rfl, rfl, rfl⟩)
        (fun _ stands => stands) fun _ _ _ stands => stands
  | attach ids workspace owner open_ => exact manifests_attach sound open_
  | protect ids expiresAt now =>
      refine manifests_objects sound _ _ ?_ rfl rfl
      exact fun _ => ⟨rfl, rfl, id⟩
  | describe rows workspace now _ =>
      refine manifests_objects sound _ _ ?_ rfl rfl
      exact fun _ => ⟨rfl, rfl, id⟩
  | verify receipts workspace now _ =>
      refine manifests_objects sound _ _ ?_ rfl rfl
      exact fun _ => ⟨rfl, rfl, fun _ => rfl⟩
  | dropObjects picks unheld => exact manifests_dropObjects sound unheld
  | dropPlans picks _ => exact manifests_dropPlans sound picks
  | dropBases picks free => exact manifests_dropBases sound free
  | newBase base id fresh unready _ => exact manifests_newBase sound id fresh unready
  | newPlan plan operation sequence id allocates counts pages =>
      exact manifests_newPlan sound id allocates counts pages
  | pageWrite page owner digest contents named => exact manifests_pageWrite sound named
  | publish plan holder commit now held unready stands holds complete paged =>
      exact manifests_publish commit sound ledger.objects held unready stands holds complete paged
  | abandon picks unready =>
      refine manifests_plans sound (fun _ => ⟨rfl, rfl, rfl, rfl, rfl, rfl, rfl⟩) ?_ ?_
      · exact fun _ no => nomatch no
      · intro row picked ready
        rw [unready row picked] at ready
        exact nomatch ready
  | retire workspace repository now => exact manifests_retire sound workspace repository now
  | pins | identities | claim | complete => exact sound.same rfl rfl rfl rfl rfl rfl rfl
  | openTask task known => exact manifests_openTask sound known
  | moveTask task generation stopGeneration running terminalAt =>
      exact manifests_moveTask sound task generation stopGeneration running terminalAt
  | dropTasks picks =>
      exact { sound with
        tasksKnown := fun task member => sound.tasksKnown task (List.mem_of_mem_filter member)
        pointers := fun task member => sound.pointers task (List.mem_of_mem_filter member) }
  | found workspace _ _ _ =>
      exact { sound with
        plansKnown := fun plan member => List.mem_append_left _ (sound.plansKnown plan member)
        tasksKnown := fun task member => List.mem_append_left _ (sound.tasksKnown task member) }
  | leave workspace tasks plans _ =>
      exact { sound with
        plansKnown := fun plan member =>
          List.mem_filter.mpr ⟨sound.plansKnown plan member, bne_iff_ne.mpr (plans plan member)⟩
        tasksKnown := fun task member =>
          List.mem_filter.mpr ⟨sound.tasksKnown task member, bne_iff_ne.mpr (tasks task member)⟩ }

end Agentsfleet.Custody
