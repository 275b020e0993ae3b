import Agentsfleet.Custody.Restores

/-!
# What upkeep may take

The quota counts every byte the bucket may hold, what was purged is gone for good, and a
checkpoint that is ready goes only with its task or its workspace, or when nothing transfers
under it and its task needs it no longer.
-/

set_option autoImplicit false

namespace Agentsfleet.Custody

open Agentsfleet.Library

variable {digests : Digests} {uuid7 : Nat → String} {inFlight : Nat} {s : Store}

/-! ## Quota -/

def Store.ofWorkspace (s : Store) (workspace : String) (held : Stored) : Bool :=
  (s.tables.objects.any fun row => row.id == held.object && row.workspace == workspace) ||
    s.tables.purges.any fun row => row.object == held.object && row.workspace == workspace

def Store.bucketBytes (s : Store) (workspace : String) : Int :=
  Table.total (s.ofWorkspace workspace) (fun held => held.descriptor.length) s.bucket

theorem owed_both (t : Tables) (workspace : String) :
    t.owed workspace false + t.owed workspace true =
      Table.total (fun row => row.workspace == workspace) Object.accounted t.objects +
        Table.total (fun row => row.workspace == workspace && !row.completed) Purge.accounted
          t.purges := by
  have objects := Table.total_split (fun row : Object => row.workspace == workspace)
    Object.accounted Object.verified t.objects
  have purges := Table.total_split
    (fun row : Purge => row.workspace == workspace && !row.completed) Purge.accounted
    Purge.stored t.purges
  have rows (stored : Bool) : Table.total (fun row : Purge => row.workspace == workspace &&
      row.stored == stored && !row.completed) Purge.accounted t.purges =
        Table.total (fun row => row.workspace == workspace && !row.completed &&
          row.stored == stored) Purge.accounted t.purges := by
    apply Table.total_congr
    intro row _
    rw [Bool.and_right_comm]
  rw [Tables.owed, Tables.owed, rows, rows]
  simp only [beq_true, beq_false]
  omega

def Store.rowed (s : Store) (held : Stored) : Bool :=
  s.tables.objects.any fun row => row.id == held.object

theorem object_unique (safe : s.Safe uuid7) {row other : Object} (held : row ∈ s.tables.objects)
    (inside : other ∈ s.tables.objects) (same : row.id = other.id) : row = other :=
  List.inj_on_of_nodup_map safe.sound.ledger.objects held inside same

theorem purge_unique (safe : s.Safe uuid7) {row other : Purge} (held : row ∈ s.tables.purges)
    (inside : other ∈ s.tables.purges) (same : row.object = other.object) : row = other :=
  List.inj_on_of_nodup_map safe.sound.ledger.purges held inside same

theorem rowed_apart (safe : s.Safe uuid7) {row : Object} {purge : Purge}
    (held : row ∈ s.tables.objects) (inside : purge ∈ s.tables.purges)
    (same : purge.object = row.id) : False :=
  safe.sound.ledger.apart row held (List.mem_map.mpr ⟨purge, inside, same⟩)

theorem rowed_spec (safe : s.Safe uuid7) {workspace : String} {held : Stored}
    (inside : held ∈ s.bucket) (its : s.ofWorkspace workspace held = true)
    (rowed : s.rowed held = true) :
    ∃ row ∈ s.tables.objects, (row.workspace == workspace) = true ∧ row.id = held.object ∧
      (held.descriptor.length : Int) ≤ row.accounted := by
  obtain ⟨row, among, same⟩ := List.any_eq_true.mp rowed
  have same := beq_iff_eq.mp same
  refine ⟨row, among, ?_, same, ?_⟩
  · rcases (Bool.or_eq_true _ _).mp its with ofRow | ofPurge
    · obtain ⟨other, within, is⟩ := List.any_eq_true.mp ofRow
      simp only [Bool.and_eq_true, beq_iff_eq] at is
      rw [object_unique safe among within (same.trans is.1.symm)]
      exact beq_iff_eq.mpr is.2
    · obtain ⟨purge, within, is⟩ := List.any_eq_true.mp ofPurge
      simp only [Bool.and_eq_true, beq_iff_eq] at is
      exact (rowed_apart safe among within (is.1.trans same.symm)).elim
  · rcases safe.holds.backed held inside with ⟨other, within, is, frozen⟩ |
      ⟨purge, within, is, -⟩
    · rw [object_unique safe among within (same.trans is.symm)]
      exact (safe.holds.lengths other within _ frozen).le
    · exact (rowed_apart safe among within (is.trans same.symm)).elim

theorem rowless_spec (safe : s.Safe uuid7) {workspace : String} {held : Stored}
    (inside : held ∈ s.bucket) (its : s.ofWorkspace workspace held = true)
    (rowless : s.rowed held = false) :
    ∃ purge ∈ s.tables.purges, (purge.workspace == workspace && !purge.completed) = true ∧
      purge.object = held.object ∧ (held.descriptor.length : Int) ≤ purge.accounted := by
  have rowless := List.any_eq_false.mp rowless
  rcases safe.holds.backed held inside with ⟨row, within, is, -⟩ |
    ⟨purge, within, is, length, waits⟩
  · exact absurd (beq_iff_eq.mpr is) (rowless row within)
  · refine ⟨purge, within, ?_, is, length.ge⟩
    rcases (Bool.or_eq_true _ _).mp its with ofRow | ofPurge
    · obtain ⟨row, among, same⟩ := List.any_eq_true.mp ofRow
      exact absurd ((Bool.and_eq_true _ _).mp same).1 (rowless row among)
    · obtain ⟨other, among, same⟩ := List.any_eq_true.mp ofPurge
      simp only [Bool.and_eq_true, beq_iff_eq] at same
      rw [waits, purge_unique safe within among (is.trans same.1.symm), beq_iff_eq.mpr same.2]
      rfl

theorem bucketBytes_le (safe : s.Safe uuid7) (workspace : String) :
    s.bucketBytes workspace ≤
      s.tables.owed workspace false + s.tables.owed workspace true := by
  have rows : Table.total (fun held => s.ofWorkspace workspace held && s.rowed held)
      (fun held => held.descriptor.length) s.bucket ≤
        Table.total (fun row => row.workspace == workspace) Object.accounted s.tables.objects := by
    rw [Table.total]
    apply Table.sum_le_total Stored.object Object.id
    · exact safe.single.sublist (List.filter_sublist.map Stored.object)
    · exact safe.sound.ledger.accounted
    · intro held member
      obtain ⟨inside, picked⟩ := List.mem_filter.mp member
      obtain ⟨its, rowed⟩ := (Bool.and_eq_true _ _).mp picked
      exact rowed_spec safe inside its rowed
  have purges : Table.total (fun held => s.ofWorkspace workspace held && !s.rowed held)
      (fun held => held.descriptor.length) s.bucket ≤
        Table.total (fun row => row.workspace == workspace && !row.completed) Purge.accounted
          s.tables.purges := by
    rw [Table.total]
    apply Table.sum_le_total Stored.object Purge.object
    · exact safe.single.sublist (List.filter_sublist.map Stored.object)
    · exact safe.sound.ledger.purgesAccounted
    · intro held member
      obtain ⟨inside, picked⟩ := List.mem_filter.mp member
      obtain ⟨its, rowless⟩ := (Bool.and_eq_true _ _).mp picked
      exact rowless_spec safe inside its ((Bool.not_eq_true' _).mp rowless)
  rw [owed_both, Store.bucketBytes, Table.total_split _ _ s.rowed]
  exact add_le_add rows purges

variable (digests) in
/-- In every state of every run a quota is exactly what its objects and its purges owe, the
bucket holds no more of a workspace than that, and nothing passes the ceiling. -/
theorem storage_accounted (injective : Function.Injective uuid7)
    (late : (inFlight : Int) ≤ protectMs) (events : List (Nat × Event)) :
    ∀ s ∈ Run.states (Store.step digests uuid7 inFlight) Store.start events,
      (∀ held ∈ s.bucket, s.tables.Backs held.object held.descriptor) ∧
        ∀ quota ∈ s.tables.quotas,
          quota.reserved = s.tables.owed quota.workspace false ∧
            quota.stored = s.tables.owed quota.workspace true ∧
              s.bucketBytes quota.workspace ≤ quota.reserved + quota.stored ∧
                quota.reserved + quota.stored ≤ workspaceBytes := by
  intro s reached
  have safe := safe_run injective late events s reached
  refine ⟨safe.holds.backed, fun quota member => ?_⟩
  obtain ⟨reserved, stored⟩ := safe.sound.ledger.exact quota member
  refine ⟨reserved, stored, ?_, safe.sound.ledger.ceiling quota member⟩
  rw [reserved, stored]
  exact bucketBytes_le safe quota.workspace

theorem storage_accounted_saved :
    let s := Run.final (Store.step plainDigests lettered 1000) Store.start saving
    ∃ quota ∈ s.tables.quotas, quota.stored = 21 ∧ s.bucketBytes quota.workspace = 21 ∧
      s.bucketBytes quota.workspace ≤ quota.reserved + quota.stored ∧
        quota.reserved + quota.stored ≤ workspaceBytes := by
  have late : ((1000 : Nat) : Int) ≤ protectMs := by decide
  have stands := storage_accounted plainDigests lettered_injective late saving _
    (Run.final_mem_states (Store.step plainDigests lettered 1000) Store.start saving)
  have counted : (Run.final (Store.step plainDigests lettered 1000) Store.start
      saving).tables.quotas.any (fun quota => decide (quota.stored = 21 ∧
        (Run.final (Store.step plainDigests lettered 1000) Store.start saving).bucketBytes
          quota.workspace = 21)) = true := by decide +kernel
  obtain ⟨quota, member, picked⟩ := List.any_eq_true.mp counted
  obtain ⟨stored, bytes⟩ := of_decide_eq_true picked
  exact ⟨quota, member, stored, bytes, (stands.2 quota member).2.2⟩

/-! ## Purges -/

theorem gone_act {id : String} (gone : s.Gone id) (event : Event) :
    (s.act digests uuid7 inFlight event).Gone id := by
  obtain ⟨workspace, deleted⟩ := gone
  refine ⟨workspace, ?_⟩
  cases event <;> simp only [Store.act, Store.commit, Store.transfer, Store.issue, Store.put] <;>
    (repeat' split) <;> simp [deleted]

/-- What the bucket deleted has no row, nothing refers to it, and nothing signed for it may
still land. -/
theorem gone_spec (safe : s.Safe uuid7) {id : String} (gone : s.Gone id) :
    (∀ held ∈ s.bucket, held.object ≠ id) ∧ (∀ row ∈ s.tables.objects, row.id ≠ id) ∧
      (∀ ref ∈ s.tables.refs, ref.object ≠ id) ∧
        ∀ upload ∈ s.uploads, upload.object = id → upload.expiresAt + protectMs ≤ s.clock := by
  have gone' := gone
  obtain ⟨workspace, deleted⟩ := gone
  have taken := safe.deleted _ deleted
  have rowless := claimed_rowless safe taken
  refine ⟨?_, rowless, ?_, ?_⟩
  · rintro held member rfl
    exact safe.absent held member gone'
  · intro ref member same
    obtain ⟨row, inside, is, -⟩ := safe.sound.manifests.refsHeld ref member
    exact rowless row inside (is.trans same)
  · intro upload signed same
    by_contra before
    exact unclaimed_of_keeps safe (safe.holds.promised _ _ _ (.upload signed)) (by omega) _ taken
      same.symm

variable (digests) in
/-- What was purged stays gone, whatever happens next. -/
theorem purged_for_good (injective : Function.Injective uuid7)
    (late : (inFlight : Int) ≤ protectMs) (events later : List (Nat × Event)) :
    ∀ purge ∈ (Run.final (Store.step digests uuid7 inFlight) Store.start events).tables.purges,
      purge.completed = true →
        let s := Run.final (Store.step digests uuid7 inFlight) Store.start (events ++ later)
        (∀ held ∈ s.bucket, held.object ≠ purge.object) ∧
          (∀ row ∈ s.tables.objects, row.id ≠ purge.object) ∧
            (∀ ref ∈ s.tables.refs, ref.object ≠ purge.object) ∧
              ∀ upload ∈ s.uploads, upload.object = purge.object →
                upload.expiresAt + protectMs ≤ s.clock := by
  intro purge member completed
  have safe := safe_run injective late events _
    (Run.final_mem_states (Store.step digests uuid7 inFlight) Store.start events)
  have gone := safe.holds.completed purge member completed
  have after := safe_run injective late (events ++ later) _
    (Run.final_mem_states (Store.step digests uuid7 inFlight) Store.start (events ++ later))
  have stays : ∀ (later : List (Nat × Event)) (s : Store), s.Gone purge.object →
      (Run.final (Store.step digests uuid7 inFlight) s later).Gone purge.object := by
    intro later
    induction later with
    | nil => exact fun s gone => gone
    | cons event rest ih =>
        intro s gone
        have passed : ({ s with clock := s.clock + event.1 } : Store).Gone purge.object := gone
        exact ih _ (gone_act passed event.2)
  refine gone_spec after ?_
  rw [Run.final_append]
  exact stays later _ gone

/-- The run's workspace deleted, and its object purged once nobody may reach it. -/
def purging : List (Nat × Event) :=
  saving ++ [(1, .dropWorkspace (lettered 0)), (20000000, .claim [] 4), (1, .delete 0),
    (1, .acknowledge 0)]

theorem purged_for_good_dropped :
    let s := Run.final (Store.step plainDigests lettered 1000) Store.start
      (purging ++ [(1, .put 0 true)])
    s.uploads.map Upload.object = [lettered 6] ∧ ∀ held ∈ s.bucket, held.object ≠ lettered 6 := by
  have late : ((1000 : Nat) : Int) ≤ protectMs := by decide
  have stands := purged_for_good plainDigests lettered_injective late purging [(1, .put 0 true)]
  have completed : (Run.final (Store.step plainDigests lettered 1000) Store.start
      purging).tables.purges.any (fun purge => purge.completed && purge.object == lettered 6) =
        true := by decide +kernel
  obtain ⟨purge, member, picked⟩ := List.any_eq_true.mp completed
  simp only [Bool.and_eq_true, beq_iff_eq] at picked
  refine ⟨by decide +kernel, ?_⟩
  exact picked.2 ▸ (stands purge member picked.1).1

/-! ## Retention -/

variable {drawn drops : String → Prop} {stored : String → Descriptor → Prop} {gone : String → Prop}
  {t after : Tables}

theorem writes_plan (plan : Plan) (ready : plan.ready = true) (stays : ¬drops plan.id)
    (held : plan ∈ t.plans) (writes : Writes drawn stored gone drops t after) :
    ∃ bytes, { plan with uploaded := bytes } ∈ after.plans := by
  cases writes with
  | quota workspace _ => exact ⟨plan.uploaded, (quota_plans (t := t) workspace).symm ▸ held⟩
  | reserve workspace new reserved admitted =>
      refine ⟨plan.uploaded, ?_⟩
      rw [quotaReserve_eq admitted]
      exact held
  | planBytes checkpoint bytes =>
      refine ⟨if plan.id == checkpoint then plan.uploaded + bytes else plan.uploaded,
        Table.mem_update.mpr ⟨plan, held, ?_⟩⟩
      split <;> rfl
  | newPlan => exact ⟨plan.uploaded, List.mem_append_left _ held⟩
  | publish other holder commit now =>
      have unpicked : plan ∈ (t.planReady other.id commit).plans := by
        refine Table.mem_update.mpr ⟨plan, held, ?_⟩
        rw [if_neg]
        simp [ready]
      cases holder <;> exact ⟨plan.uploaded, unpicked⟩
  | abandon picks unready =>
      refine ⟨plan.uploaded, Table.mem_update.mpr ⟨plan, held, ?_⟩⟩
      rw [if_neg]
      intro picked
      rw [unready plan picked] at ready
      cases ready
  | dropPlans picks allowed =>
      refine ⟨plan.uploaded, List.mem_filter.mpr ⟨held, ?_⟩⟩
      by_contra picked
      exact stays (allowed plan held (by simpa using picked))
  | openTask task _ =>
      unfold Tables.openTask
      split <;> exact ⟨plan.uploaded, held⟩
  | _ => exact ⟨plan.uploaded, held⟩

theorem written_plan {plan : Plan} (ready : plan.ready = true) (stays : ¬drops plan.id)
    (held : plan ∈ t.plans) (written : Written drawn stored gone drops t after) :
    ∃ bytes, { plan with uploaded := bytes } ∈ after.plans := by
  apply written.keeps (fun t => ∃ bytes, { plan with uploaded := bytes } ∈ t.plans) _
    ⟨plan.uploaded, held⟩
  rintro t after ⟨bytes, member⟩ writes
  exact writes_plan { plan with uploaded := bytes } ready stays member writes

/-- As many ready checkpoints of a task as it keeps, none of them older than `plan`. -/
def Tables.Newer (t : Tables) (plan : Plan) : Prop :=
  ∃ newer : List Plan, newer.length = liveGenerations ∧ (newer.map Plan.id).Nodup ∧
    ∀ other ∈ newer, other ∈ t.plans ∧ other.task = plan.task ∧ other.ready = true ∧
      other.id ≠ plan.id ∧ plan.generation ≤ other.generation

theorem newer_of_superseded (distinct : (t.plans.map Plan.id).Nodup) {plan : Plan}
    (held : plan ∈ t.plans) (superseded : plan.id ∈ t.superseded plan.task) : t.Newer plan := by
  let older := fun left right : Plan => right.generation ≤ left.generation
  let sorted := (t.plans.filter fun row => row.task == plan.task && row.ready).insertionSort older
  have total : Std.Total older := ⟨fun left right => le_total right.generation left.generation⟩
  have transitive : IsTrans Plan older := ⟨fun _ _ _ first second => second.trans first⟩
  have order : sorted.Pairwise older := List.pairwise_insertionSort older _
  have names : (sorted.map Plan.id).Nodup :=
    (((List.perm_insertionSort older _).map Plan.id).nodup_iff).mpr
      (distinct.sublist (List.filter_sublist.map Plan.id))
  obtain ⟨same, member, id⟩ := List.mem_map.mp superseded
  have among : ∀ row ∈ sorted, row ∈ t.plans ∧ row.task = plan.task ∧ row.ready = true := by
    intro row inside
    obtain ⟨standing, picked⟩ := List.mem_filter.mp ((List.mem_insertionSort older).mp inside)
    simp only [Bool.and_eq_true, beq_iff_eq] at picked
    exact ⟨standing, picked⟩
  have isPlan : same = plan :=
    List.inj_on_of_nodup_map distinct (among same (List.mem_of_mem_drop member)).1 held id
  subst isPlan
  rw [← List.take_append_drop liveGenerations sorted] at order names
  rw [List.map_append, List.nodup_append] at names
  refine ⟨sorted.take liveGenerations, ?_, names.1, fun other inside => ?_⟩
  · have long : 0 < (sorted.drop liveGenerations).length := List.length_pos_of_mem member
    rw [List.length_drop] at long
    rw [List.length_take]
    omega
  · obtain ⟨standing, ofTask, ready⟩ := among other (List.mem_of_mem_take inside)
    refine ⟨standing, ofTask, ready, ?_, (List.pairwise_append.mp order).2.2 other inside _ member⟩
    exact names.2.2 _ (List.mem_map_of_mem inside) _ (List.mem_map_of_mem member)

inductive Store.Lets (s : Store) (plan : Plan) : Event → Prop where
  | task : s.Lets plan (.dropTask plan.task)
  | workspace : s.Lets plan (.dropWorkspace plan.workspace)
  /-- Nothing transfers under it, and its task is long over or has newer ones. -/
  | retained {task : Task} (held : List (String × Int)) (member : task ∈ s.tables.tasks)
      (owner : task.id = plan.task)
      (unpinned : ∀ pin ∈ s.tables.pins, pin.checkpoint = plan.id → pin.released = false →
        pin.expiresAt ≤ s.clock)
      (done : (∃ at_, task.terminalAt = some at_ ∧ at_ + terminalMs ≤ s.clock) ∨
        task.checkpoint ≠ some plan.id ∧ s.tables.Newer plan) :
      s.Lets plan (.retain plan.task held)

theorem mem_abandoned (task : Task) (leases : List (String × Int)) (now : Int) {plan : Plan}
    (ready : plan.ready = true) :
    plan ∈ (t.retentionAbandon task leases now).plans ↔ plan ∈ t.plans := by
  constructor
  · intro inside
    obtain ⟨old, among, rfl⟩ := Table.mem_update.mp inside
    split at ready
    · rename_i picked
      simp only [Bool.and_eq_true, Bool.not_eq_true'] at picked
      cases picked.1.1.2.symm.trans ready
    · rename_i unpicked
      rw [if_neg unpicked]
      exact among
  · intro held
    refine Table.mem_update.mpr ⟨plan, held, ?_⟩
    rw [if_neg]
    simp [ready]

theorem column_abandoned (task : Task) (leases : List (String × Int)) (now : Int) :
    (t.retentionAbandon task leases now).plans.map Plan.id = t.plans.map Plan.id := by
  rw [Tables.retentionAbandon, Table.column_update Plan.id _ _ fun _ => by rfl]

theorem lets_of_drops (safe : s.Safe uuid7) {plan : Plan} (held : plan ∈ s.tables.plans)
    (ready : plan.ready = true) {event : Event} (drops : s.Drops event plan.id) :
    s.Lets plan event := by
  have sound := safe.sound.manifests
  cases event with
  | dropTask task =>
      obtain ⟨other, inside, same, rfl⟩ := drops
      rw [plan_unique sound inside held same]
      exact .task
  | dropWorkspace workspace =>
      obtain ⟨other, inside, same, rfl⟩ := drops
      rw [plan_unique sound inside held same]
      exact .workspace
  | retain id leases =>
      obtain ⟨task, looked, other, member, same, obsolete⟩ := drops
      have still := (mem_abandoned task leases s.clock ready).mpr held
      have names : ((s.tables.retentionAbandon task leases s.clock).plans.map Plan.id).Nodup := by
        rw [column_abandoned]
        exact sound.plans
      obtain rfl : other = plan := List.inj_on_of_nodup_map names member still same
      simp only [Tables.obsolete, Bool.and_eq_true, Bool.or_eq_true, beq_iff_eq,
        Bool.not_eq_true'] at obsolete
      obtain ⟨⟨ofTask, unpinned⟩, reasons⟩ := obsolete
      have isTask : task.id = id := by simpa using List.find?_some looked
      rw [← isTask, ← ofTask]
      refine .retained leases (List.mem_of_find?_eq_some looked) ofTask.symm ?_ ?_
      · intro pin among its open_
        have lapsed := List.any_eq_false.mp unpinned pin among
        simpa [its, open_] using lapsed
      · rcases reasons with (abandoned | ended) | ⟨⟨-, other⟩, superseded⟩
        · rw [sound.settled _ held ready] at abandoned
          cases abandoned
        · obtain ⟨at_, terminal, past⟩ := (Option.any_eq_true _ _).mp ended
          refine .inl ⟨at_, terminal, ?_⟩
          have due := of_decide_eq_true past
          omega
        · refine .inr ⟨bne_iff_ne.mp other, ?_⟩
          obtain ⟨newer, length, distinct, each⟩ := newer_of_superseded names still
            (ofTask.symm ▸ List.contains_iff_mem.mp superseded)
          refine ⟨newer, length, distinct, fun row inside => ?_⟩
          obtain ⟨standing, rest⟩ := each row inside
          exact ⟨(mem_abandoned task leases s.clock rest.2.1).mp standing, rest⟩
  | _ => exact drops.elim

variable (digests) in
/-- A step takes a ready checkpoint only with its task or its workspace, or by retention: when
nothing transfers under it, and its task ended long ago or has newer ones to go back to. -/
theorem ready_plan_stays (injective : Function.Injective uuid7)
    (late : (inFlight : Int) ≤ protectMs) (events : List (Nat × Event)) :
    ∀ step ∈ Run.taken (Store.step digests uuid7 inFlight) Store.start events,
      ∀ plan ∈ step.before.tables.plans, plan.ready = true →
        (∃ bytes, { plan with uploaded := bytes } ∈ step.after.tables.plans) ∨
          ({ step.before with clock := step.before.clock + step.event.1 } : Store).Lets plan
            step.event.2 := by
  intro step member plan held ready
  obtain ⟨before, steps⟩ := Run.taken_step
    (fun s event (safe : s.Safe uuid7) => safe_step injective late safe event) safe_start step
      member
  have safe := safe_clock before step.event.1
  by_cases drops : ({ step.before with clock := step.before.clock + step.event.1 } :
      Store).Drops step.event.2 plan.id
  · exact .inr (lets_of_drops safe held ready drops)
  · rw [steps]
    exact .inl (written_plan ready drops held (act_written injective safe step.event.2))

/-- The run's checkpoint, met by retention while its task goes on and long after it ended. -/
def retaining : List (Nat × Event) :=
  saving ++ [(1, .retain "task" []), (1, .move "task" 1 0 false (some 12)),
    (terminalMs.toNat, .retain "task" [])]

theorem ready_plan_stays_retained :
    (∃ step ∈ Run.taken (Store.step plainDigests lettered 1000) Store.start retaining,
      step.before.tables.plans.map Plan.ready = [true] ∧
        step.after.tables.plans.map Plan.ready = [true] ∧
          ∃ plan ∈ step.before.tables.plans,
            (∃ bytes, { plan with uploaded := bytes } ∈ step.after.tables.plans) ∨
              ({ step.before with clock := step.before.clock + step.event.1 } : Store).Lets plan
                step.event.2) ∧
    ∃ step ∈ Run.taken (Store.step plainDigests lettered 1000) Store.start retaining,
      step.before.tables.plans.map Plan.ready = [true] ∧ step.after.tables.plans = [] ∧
        ∃ plan ∈ step.before.tables.plans,
          ({ step.before with clock := step.before.clock + step.event.1 } : Store).Lets plan
            step.event.2 := by
  have late : ((1000 : Nat) : Int) ≤ protectMs := by decide
  have stands := ready_plan_stays plainDigests lettered_injective late retaining
  have alone {step : Run.Taken Store (Nat × Event)}
      (before : step.before.tables.plans.map Plan.ready = [true]) :
      ∃ plan ∈ step.before.tables.plans, plan.ready = true := by
    apply List.mem_map.mp
    rw [before]
    exact List.mem_cons_self
  constructor
  · have meets : (Run.taken (Store.step plainDigests lettered 1000) Store.start retaining).any
        (fun step => decide (step.before.tables.plans.map Plan.ready = [true] ∧
          step.after.tables.plans.map Plan.ready = [true])) = true := by decide +kernel
    obtain ⟨step, member, picked⟩ := List.any_eq_true.mp meets
    obtain ⟨before, after⟩ := of_decide_eq_true picked
    obtain ⟨plan, held, ready⟩ := alone before
    exact ⟨step, member, before, after, plan, held, stands step member plan held ready⟩
  · have meets : (Run.taken (Store.step plainDigests lettered 1000) Store.start retaining).any
        (fun step => decide (step.before.tables.plans.map Plan.ready = [true] ∧
          step.after.tables.plans = [])) = true := by decide +kernel
    obtain ⟨step, member, picked⟩ := List.any_eq_true.mp meets
    obtain ⟨before, gone⟩ := of_decide_eq_true picked
    obtain ⟨plan, held, ready⟩ := alone before
    refine ⟨step, member, before, gone, plan, held, ?_⟩
    rcases stands step member plan held ready with ⟨_, stays⟩ | lets
    · rw [gone] at stays
      exact absurd stays List.not_mem_nil
    · exact lets

end Agentsfleet.Custody
