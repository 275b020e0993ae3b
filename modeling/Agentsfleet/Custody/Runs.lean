import Agentsfleet.Custody.Bucket
import Agentsfleet.Library.Run

/-!
# Every run of the store

What holds between steps, of the tables, of the bucket and of what was handed out, kept by
every step that may be taken.
-/

set_option autoImplicit false

namespace Agentsfleet.Custody

open Agentsfleet.Core
open Agentsfleet.Library

section Runs

variable {digests : Digests} {uuid7 : Nat → String} {inFlight : Nat} {s : Store} {after : Tables}
  {drops : String → Prop}

def Drawn (uuid7 : Nat → String) (count : Nat) (id : String) : Prop :=
  ∃ k < count, id = uuid7 k

structure Store.Safe (uuid7 : Nat → String) (s : Store) : Prop where
  sound : Sound (Drawn uuid7 s.drawn) s.tables
  holds : s.Holds s.tables
  deleted : ∀ purge ∈ s.deleted, purge ∈ s.claimed
  absent : ∀ held ∈ s.bucket, ¬s.Gone held.object
  single : (s.bucket.map Stored.object).Nodup
  receipts : ∀ batch ∈ s.batches, ∀ receipt ∈ batch.receipts,
    s.Readable receipt.1 receipt.2 ∨ ∃ purge ∈ s.claimed, purge.1 = receipt.1
  served : ∀ batch ∈ s.batches, batch.purpose = .restore → ∀ row ∈ batch.objects,
    ∃ descriptor, row.ciphertext = some descriptor ∧
      (s.clock < batch.pin.expiresAt + protectMs → s.Readable row.id descriptor)

/-! ## Purges that are due -/

theorem claimed_rowless (safe : s.Safe uuid7) {purge : String × String} (taken : purge ∈ s.claimed) :
    ∀ row ∈ s.tables.objects, row.id ≠ purge.1 := by
  intro row member same
  obtain ⟨held, inside, object, -⟩ := safe.holds.claimed purge taken
  exact safe.sound.ledger.apart row member
    (List.mem_map.mpr ⟨held, inside, object.trans same.symm⟩)

theorem unclaimed_of_keeps (safe : s.Safe uuid7) {id : String} {descriptor : Descriptor}
    {until_ : Int} (keeps : s.tables.Keeps id descriptor until_)
    (before : s.clock < until_ + protectMs) : ∀ purge ∈ s.claimed, purge.1 ≠ id := by
  rintro purge taken rfl
  rcases keeps with ⟨row, member, same, -⟩ | ⟨held, inside, object, -, late⟩
  · exact claimed_rowless safe taken row member same
  · obtain ⟨due, among, object', -, past⟩ := safe.holds.claimed purge taken
    have same : due = held := List.inj_on_of_nodup_map safe.sound.ledger.purges among inside
      (object'.trans object.symm)
    rw [same] at past
    omega

/-! ## Steps of the tables -/

theorem promises_of {other : Store} {id : String} {descriptor : Descriptor} {until_ : Int}
    (promise : other.Promises id descriptor until_) (uploads : other.uploads = s.uploads)
    (batches : other.batches = s.batches) : s.Promises id descriptor until_ := by
  cases promise with
  | upload signed => exact .upload (uploads ▸ signed)
  | batch read inside frozen => exact .batch (batches ▸ read) inside frozen

theorem holds_outside {other : Store} {t : Tables} (holds : s.Holds t)
    (readable : ∀ row ∈ t.objects, ∀ descriptor, s.Readable row.id descriptor →
      other.Readable row.id descriptor)
    (gone : ∀ id, s.Gone id → other.Gone id)
    (claimed : ∀ purge ∈ other.claimed, ∃ row ∈ t.purges, row.object = purge.1 ∧
      row.workspace = purge.2 ∧ row.deleteAfter ≤ other.clock)
    (promised : ∀ id descriptor until_, other.Promises id descriptor until_ →
      t.Keeps id descriptor until_)
    (backed : ∀ held ∈ other.bucket, t.Backs held.object held.descriptor) : other.Holds t where
  lengths := holds.lengths
  verified row member is := by
    obtain ⟨descriptor, frozen, reads⟩ := holds.verified row member is
    exact ⟨descriptor, frozen, readable row member descriptor reads⟩
  paces := holds.paces
  completed purge member is := gone _ (holds.completed purge member is)
  claimed
  promised
  backed

theorem safe_written {count : Nat} (safe : s.Safe uuid7) (more : s.drawn ≤ count)
    (written : Written (Drawn uuid7 count) s.Readable s.Gone drops s.tables after) :
    ({ s with tables := after, drawn := count } : Store).Safe uuid7 := by
  have further : ∀ id, Drawn uuid7 s.drawn id → Drawn uuid7 count id :=
    fun id ⟨k, below, same⟩ => ⟨k, below.trans_le more, same⟩
  have kept : Sound (Drawn uuid7 count) after ∧ s.Holds after := by
    apply written.keeps (fun t => Sound (Drawn uuid7 count) t ∧ s.Holds t) _
      ⟨safe.sound.mono further, safe.holds⟩
    rintro t after ⟨sound, holds⟩ writes
    exact ⟨sound_written sound (.one writes),
      holds_writes holds sound.ledger safe.absent writes⟩
  refine ⟨kept.1, ?_, safe.deleted, safe.absent, safe.single, safe.receipts, safe.served⟩
  exact holds_outside kept.2 (fun _ _ _ reads => reads) (fun _ gone => gone) kept.2.claimed
    (fun id descriptor until_ promise =>
      kept.2.promised id descriptor until_ (promises_of promise rfl rfl)) kept.2.backed

theorem safe_clock (safe : s.Safe uuid7) (elapsed : Nat) :
    ({ s with clock := s.clock + elapsed } : Store).Safe uuid7 := by
  refine ⟨safe.sound, ?_, safe.deleted, safe.absent, safe.single, safe.receipts, ?_⟩
  · refine holds_outside safe.holds (fun _ _ _ reads => reads) (fun _ gone => gone) ?_ ?_
      safe.holds.backed
    · intro purge member
      obtain ⟨row, held, object, workspace, due⟩ := safe.holds.claimed purge member
      exact ⟨row, held, object, workspace, due.trans (by dsimp only; omega)⟩
    · exact fun id descriptor until_ promise =>
        safe.holds.promised id descriptor until_ (promises_of promise rfl rfl)
  · intro batch member purpose row inside
    obtain ⟨descriptor, frozen, reads⟩ := safe.served batch member purpose row inside
    exact ⟨descriptor, frozen, fun before => reads (by dsimp only at before; omega)⟩

theorem draws_of (injective : Function.Injective uuid7) (count : Nat) :
    Draws (Drawn uuid7 s.drawn) (Drawn uuid7 (s.drawn + count)) (fun k => uuid7 (s.drawn + k))
      count where
  injective i j same := Nat.add_left_cancel (injective same)
  fresh k := by
    rintro ⟨drawn, below, same⟩
    have equal := injective same
    omega
  gives k below := ⟨s.drawn + k, Nat.add_lt_add_left below _, rfl⟩
  more id := fun ⟨k, below, same⟩ => ⟨k, Nat.lt_add_right count below, same⟩

/-! ## Transfers -/

theorem safe_handed {next : Store} (safe : next.Safe uuid7) {t : Tables} {batch : Batch}
    (handed : batch.Given t next.tables)
    (reads : ∀ row ∈ t.objects, row.verified = true →
      ∃ descriptor, row.ciphertext = some descriptor ∧ next.Readable row.id descriptor) :
    ({ next with batches := next.batches ++ [batch] } : Store).Safe uuid7 := by
  refine ⟨safe.sound, ?_, safe.deleted, safe.absent, safe.single, ?_, ?_⟩
  · refine holds_outside safe.holds (fun _ _ _ reads => reads) (fun _ gone => gone)
      safe.holds.claimed ?_ safe.holds.backed
    intro id descriptor until_ promise
    cases promise with
    | upload signed => exact safe.holds.promised _ _ _ (.upload signed)
    | batch read inside frozen =>
        rcases List.mem_append.mp read with old | new
        · exact safe.holds.promised _ _ _ (.batch old inside frozen)
        · rw [List.mem_singleton.mp new] at inside ⊢
          obtain ⟨row, member, same, ciphertext, late⟩ := handed.kept _ inside
          exact .inl ⟨row, member, same, ciphertext.trans frozen, late⟩
  · intro other member receipt inside
    rcases List.mem_append.mp member with old | new
    · exact safe.receipts other old receipt inside
    · rw [List.mem_singleton.mp new, handed.unread] at inside
      exact absurd inside List.not_mem_nil
  · intro other member purpose row inside
    rcases List.mem_append.mp member with old | new
    · exact safe.served other old purpose row inside
    · rw [List.mem_singleton.mp new] at purpose inside
      obtain ⟨held, verified⟩ := handed.restores purpose row inside
      obtain ⟨descriptor, frozen, stored⟩ := reads row held verified
      exact ⟨descriptor, frozen, fun _ => stored⟩

theorem issueOne_spec {bucket : List Stored} {batch : Batch} {row : Object} {now : Int}
    {receipt : Option (String × Descriptor)} {upload : Option Upload}
    (issued : issueOne bucket batch row now = some (receipt, upload)) :
    (∀ pair, receipt = some pair → pair.1 = row.id ∧ (⟨row.id, pair.2, true⟩ : Stored) ∈ bucket) ∧
      ∀ signed, upload = some signed → signed.object = row.id ∧
        row.ciphertext = some signed.descriptor ∧ signed.expiresAt ≤ batch.pin.expiresAt := by
  unfold issueOne at issued
  cases purpose : batch.purpose with
  | restore =>
      simp only [purpose, Option.bind_eq_bind, Option.bind_eq_some_iff, pure, Option.some.injEq,
        Prod.mk.injEq] at issued
      obtain ⟨_, -, _, -, rfl, rfl⟩ := issued
      exact ⟨fun pair same => (nomatch same), fun signed same => (nomatch same)⟩
  | upload =>
      simp only [purpose, Option.bind_eq_bind, Option.bind_eq_some_iff, pure] at issued
      obtain ⟨_, -, issued⟩ := issued
      split at issued
      · simp only [Option.bind_eq_some_iff, Option.some.injEq, Prod.mk.injEq] at issued
        obtain ⟨_, -, rfl, rfl⟩ := issued
        exact ⟨fun pair same => (nomatch same), fun signed same => (nomatch same)⟩
      · simp only [Option.bind_eq_some_iff] at issued
        obtain ⟨descriptor, frozen, issued⟩ := issued
        split at issued
        · rename_i held looked
          simp only [Option.bind_eq_some_iff, Option.some.injEq, Prod.mk.injEq] at issued
          obtain ⟨_, guarded, rfl, rfl⟩ := issued
          refine ⟨?_, fun signed same => (nomatch same)⟩
          rintro _ ⟨rfl⟩
          have read : bucket.find? (fun held => held.object == row.id) = some held := by
            split at looked
            · exact looked
            · exact nomatch looked
          obtain ⟨frozen', opens, -⟩ := (Option.guard_eq_some' _).mp guarded
          have named := List.find?_some read
          have inside := List.mem_of_find?_eq_some read
          have shape : held = ⟨row.id, descriptor, true⟩ := by
            rw [← beq_iff_eq.mp named, ← frozen', ← opens]
          exact ⟨rfl, shape ▸ inside⟩
        · simp only [Option.bind_eq_some_iff, Option.some.injEq, Prod.mk.injEq] at issued
          obtain ⟨_, -, rfl, rfl⟩ := issued
          refine ⟨fun pair same => (nomatch same), ?_⟩
          rintro _ ⟨rfl⟩
          exact ⟨rfl, frozen, (min_le_right _ _).trans (min_le_left _ _)⟩

theorem safe_issue (safe : s.Safe uuid7) (slot index : Nat) : (s.issue slot index).Safe uuid7 := by
  unfold Store.issue
  split
  · exact safe
  · rename_i batch listed
    split
    · exact safe
    · rename_i receipt upload issued
      obtain ⟨row, at_, issued⟩ := Option.bind_eq_some_iff.mp issued
      obtain ⟨reads, signs⟩ := issueOne_spec issued
      have read : batch ∈ s.batches := List.mem_of_getElem? listed
      have inside : row ∈ batch.objects := List.mem_of_getElem? at_
      have batches {other : Batch} (member : other ∈ s.batches.set slot
          { batch with receipts := batch.receipts ++ receipt.toList }) : ∃ old ∈ s.batches,
            other.objects = old.objects ∧ other.pin = old.pin ∧ other.purpose = old.purpose ∧
              ∀ pair ∈ other.receipts, pair ∈ old.receipts ∨ receipt = some pair := by
        rcases List.mem_or_eq_of_mem_set member with old | rfl
        · exact ⟨other, old, rfl, rfl, rfl, fun pair => .inl⟩
        · refine ⟨batch, read, rfl, rfl, rfl, fun pair among => ?_⟩
          rcases List.mem_append.mp among with before | new
          · exact .inl before
          · exact .inr (Option.mem_toList.mp new)
      refine ⟨safe.sound, ?_, safe.deleted, safe.absent, safe.single, ?_, ?_⟩
      · refine holds_outside safe.holds (fun _ _ _ reads => reads) (fun _ gone => gone)
          safe.holds.claimed ?_ safe.holds.backed
        intro id descriptor until_ promise
        cases promise with
        | upload signed =>
            rcases List.mem_append.mp signed with old | new
            · exact safe.holds.promised _ _ _ (.upload old)
            · obtain ⟨object, frozen, soon⟩ := signs _ (Option.mem_toList.mp new)
              rw [object]
              rcases safe.holds.promised _ _ _ (.batch read inside frozen) with
                ⟨held, member, same, is, late⟩ | ⟨purge, member, same, length, late⟩
              · exact .inl ⟨held, member, same, is, by omega⟩
              · exact .inr ⟨purge, member, same, length, by omega⟩
        | batch listed among frozen =>
            obtain ⟨old, member, objects, pin, -⟩ := batches listed
            rw [pin]
            exact safe.holds.promised _ _ _ (.batch member (objects ▸ among) frozen)
      · intro other member pair among
        obtain ⟨old, held, -, -, -, receipts⟩ := batches member
        rcases receipts pair among with before | new
        · exact safe.receipts old held pair before
        · obtain ⟨named, stored⟩ := reads pair new
          rw [Store.Readable, named]
          exact .inl stored
      · intro other member purpose old_row among
        obtain ⟨old, held, objects, pin, same, -⟩ := batches member
        rw [pin]
        exact safe.served old held (same ▸ purpose) old_row (objects ▸ among)

/-! ## The bucket -/

theorem safe_put (late : (inFlight : Int) ≤ protectMs) (safe : s.Safe uuid7) (slot : Nat)
    (opens : Bool) : (s.put inFlight slot opens).Safe uuid7 := by
  unfold Store.put
  split
  · exact safe
  · rename_i upload listed
    split
    · rename_i lands
      obtain ⟨before, free⟩ := lands
      have keeps := safe.holds.promised _ _ _ (.upload (List.mem_of_getElem? listed))
      have unclaimed := unclaimed_of_keeps safe keeps (by omega)
      have grows {id : String} {descriptor : Descriptor} (reads : s.Readable id descriptor) :
          ({ s with bucket := s.bucket ++ [⟨upload.object, upload.descriptor, opens⟩] } :
            Store).Readable id descriptor := List.mem_append_left _ reads
      refine ⟨safe.sound, ?_, safe.deleted, ?_, ?_, ?_, ?_⟩
      · refine holds_outside safe.holds (fun _ _ _ => grows) (fun _ gone => gone)
          safe.holds.claimed ?_ ?_
        · exact fun id descriptor until_ promise =>
            safe.holds.promised id descriptor until_ (promises_of promise rfl rfl)
        · intro held member
          rcases List.mem_append.mp member with old | new
          · exact safe.holds.backed held old
          · rw [List.mem_singleton.mp new]
            rcases keeps with ⟨row, inside, same, is, -⟩ | ⟨purge, inside, same, length, -⟩
            · exact .inl ⟨row, inside, same, is⟩
            · refine .inr ⟨purge, inside, same, length, ?_⟩
              by_contra completed
              obtain ⟨workspace, gone⟩ := safe.holds.completed purge inside (by simpa using completed)
              exact unclaimed _ (safe.deleted _ gone) same
      · intro held member gone
        rcases List.mem_append.mp member with old | new
        · exact safe.absent held old gone
        · rw [List.mem_singleton.mp new] at gone
          obtain ⟨workspace, gone⟩ := gone
          exact unclaimed _ (safe.deleted _ gone) rfl
      · rw [List.map_append]
        refine safe.single.append (List.nodup_singleton _) ?_
        rw [List.any_eq_false] at free
        intro id old new
        obtain ⟨held, member, rfl⟩ := List.mem_map.mp old
        exact free held member (beq_iff_eq.mpr (List.mem_singleton.mp new))
      · intro batch member receipt inside
        exact (safe.receipts batch member receipt inside).imp_left grows
      · intro batch member purpose row inside
        obtain ⟨descriptor, frozen, reads⟩ := safe.served batch member purpose row inside
        exact ⟨descriptor, frozen, fun soon => grows (reads soon)⟩
    · exact safe

theorem safe_claimed {next : Store} (safe : next.Safe uuid7) {due : List (String × String)}
    (past : ∀ purge ∈ due, ∃ row ∈ next.tables.purges, row.object = purge.1 ∧
      row.workspace = purge.2 ∧ row.deleteAfter ≤ next.clock) :
    ({ next with claimed := next.claimed ++ due } : Store).Safe uuid7 := by
  refine ⟨safe.sound, ?_, ?_, safe.absent, safe.single, ?_, safe.served⟩
  · refine holds_outside safe.holds (fun _ _ _ reads => reads) (fun _ gone => gone) ?_ ?_
      safe.holds.backed
    · intro purge member
      rcases List.mem_append.mp member with old | new
      · exact safe.holds.claimed purge old
      · exact past purge new
    · exact fun id descriptor until_ promise =>
        safe.holds.promised id descriptor until_ (promises_of promise rfl rfl)
  · exact fun purge member => List.mem_append_left _ (safe.deleted purge member)
  · intro batch member receipt inside
    refine (safe.receipts batch member receipt inside).imp_right ?_
    rintro ⟨purge, taken, same⟩
    exact ⟨purge, List.mem_append_left _ taken, same⟩

theorem safe_delete (safe : s.Safe uuid7) {purge : String × String} (taken : purge ∈ s.claimed) :
    ({ s with
      bucket := s.bucket.filter fun held => held.object != purge.1
      deleted := s.deleted ++ [purge] } : Store).Safe uuid7 := by
  have stays {id : String} {descriptor : Descriptor} (apart : id ≠ purge.1)
      (reads : s.Readable id descriptor) :
      ({ s with
        bucket := s.bucket.filter fun held => held.object != purge.1
        deleted := s.deleted ++ [purge] } : Store).Readable id descriptor :=
    List.mem_filter.mpr ⟨reads, bne_iff_ne.mpr apart⟩
  refine ⟨safe.sound, ?_, ?_, ?_, ?_, ?_, ?_⟩
  · refine holds_outside safe.holds ?_ ?_ safe.holds.claimed ?_ ?_
    · exact fun row member descriptor => stays (claimed_rowless safe taken row member)
    · exact fun id ⟨workspace, gone⟩ => ⟨workspace, List.mem_append_left _ gone⟩
    · exact fun id descriptor until_ promise =>
        safe.holds.promised id descriptor until_ (promises_of promise rfl rfl)
    · exact fun held member => safe.holds.backed held (List.mem_of_mem_filter member)
  · intro other member
    rcases List.mem_append.mp member with old | new
    · exact safe.deleted other old
    · exact List.mem_singleton.mp new ▸ taken
  · rintro held member ⟨workspace, gone⟩
    obtain ⟨old, apart⟩ := List.mem_filter.mp member
    rcases List.mem_append.mp gone with before | new
    · exact safe.absent held old ⟨workspace, before⟩
    · rw [bne_iff_ne, ← List.mem_singleton.mp new] at apart
      exact apart rfl
  · exact safe.single.sublist (List.filter_sublist.map Stored.object)
  · intro batch member receipt inside
    by_cases apart : receipt.1 = purge.1
    · exact .inr ⟨purge, taken, apart.symm⟩
    · exact (safe.receipts batch member receipt inside).imp_left (stays apart)
  · intro batch member purpose row inside
    obtain ⟨descriptor, frozen, reads⟩ := safe.served batch member purpose row inside
    refine ⟨descriptor, frozen, fun soon => stays ?_ (reads soon)⟩
    exact (unclaimed_of_keeps safe (safe.holds.promised _ _ _ (.batch member inside frozen)) soon
      purge taken).symm

/-! ## What an event writes -/

def Store.Drops (s : Store) : Event → String → Prop
  | .retain task held, id => ∃ row, (s.tables.tasks.find? fun row => row.id == task) = some row ∧
      ∃ plan ∈ (s.tables.retentionAbandon row held s.clock).plans, plan.id = id ∧
        (s.tables.retentionAbandon row held s.clock).obsolete row s.clock plan = true
  | .dropTask task, id => ∃ plan ∈ s.tables.plans, plan.id = id ∧ plan.task = task
  | .dropWorkspace workspace, id => ∃ plan ∈ s.tables.plans, plan.id = id ∧
      plan.workspace = workspace
  | _, _ => False

theorem commit_written {count : Nat} {result : Except TaskRefusal Tables}
    (written : ∀ after, result = .ok after →
      Written (Drawn uuid7 (s.drawn + count)) s.Readable s.Gone drops s.tables after) :
    Written (Drawn uuid7 (s.commit count result).drawn) s.Readable s.Gone drops s.tables
      (s.commit count result).tables := by
  cases result with
  | error refusal => exact .refl
  | ok tables => exact written tables rfl

theorem transfer_written {count : Nat} {result : Except TaskRefusal (Tables × Batch)}
    (written : ∀ after batch, result = .ok (after, batch) →
      Written (Drawn uuid7 (s.drawn + count)) s.Readable s.Gone drops s.tables after) :
    Written (Drawn uuid7 (s.transfer count result).drawn) s.Readable s.Gone drops s.tables
      (s.transfer count result).tables := by
  cases result with
  | error refusal => exact .refl
  | ok result => exact written result.1 result.2 rfl

theorem act_written (injective : Function.Injective uuid7) (safe : s.Safe uuid7) (event : Event) :
    Written (Drawn uuid7 (s.act digests uuid7 inFlight event).drawn) s.Readable s.Gone
      (s.Drops event) s.tables (s.act digests uuid7 inFlight event).tables := by
  have sound := safe.sound.manifests
  have ledger := safe.sound.ledger
  cases event with
  | create e input =>
      exact commit_written fun after committed =>
        create_written safe.sound (draws_of injective _) committed
  | register e checkpoint pin input =>
      exact commit_written fun after committed =>
        register_written sound ledger (draws_of injective _) committed
  | write e checkpoint pin page digest contents =>
      exact commit_written fun after committed => write_written sound ledger.objects committed
  | uploads e checkpoint pin input =>
      exact transfer_written fun after batch committed => uploads_written ledger.objects committed
  | authorize e checkpoint pin purpose ids =>
      exact transfer_written fun after batch committed => authorize_written committed
  | list e checkpoint pin last =>
      exact transfer_written fun after batch committed => list_written committed
  | renew e checkpoint pin version =>
      exact commit_written fun after committed => renew_written committed
  | publish e checkpoint pin commit =>
      exact commit_written fun after committed => publish_written committed
  | issue slot index =>
      simp only [Store.act, Store.issue]
      split
      · exact .refl
      · split <;> exact .refl
  | record slot =>
      simp only [Store.act]
      split
      · exact .refl
      · rename_i batch listed
        apply record_written
        intro row member descriptor said
        rcases safe.receipts batch (List.mem_of_getElem? listed) _ (described_mem said) with
          reads | ⟨purge, taken, same⟩
        · exact reads
        · exact absurd same.symm (claimed_rowless safe taken row member)
  | put slot opens =>
      simp only [Store.act, Store.put]
      split
      · exact .refl
      · split <;> exact .refl
  | retain task held =>
      exact retainOne_written task held s.clock fun row looked plan member gone =>
        ⟨row, looked, plan, member, rfl, gone⟩
  | findBases | findOrphans => exact .refl
  | releaseBase slot =>
      simp only [Store.act]
      split
      · exact .refl
      · exact releaseBase_written _ _ s.clock
  | collect workspace => exact collect_written ledger workspace _ s.clock
  | claim busy limit => exact purgeClaim_written ledger.purges busy (min limit 4) s.clock
  | delete slot =>
      simp only [Store.act]
      split <;> exact .refl
  | acknowledge slot =>
      simp only [Store.act]
      split
      · exact .refl
      · rename_i object workspace listed
        exact acknowledge_written ⟨workspace, List.mem_of_getElem? listed⟩
  | found =>
      have draws := draws_of (s := s) injective 1
      refine .one (.found (uuid7 s.drawn) (draws.gives 0 Nat.one_pos) ?_ ?_)
      · exact fun known => draws.fresh 0 (ledger.workspacesDrawn _ known)
      · intro purge member same
        exact draws.fresh 0 (same ▸ (ledger.purgesDrawn purge member).2)
  | dropWorkspace workspace =>
      exact dropWorkspace_written sound ledger workspace fun plan member here =>
        ⟨plan, member, rfl, here⟩
  | open_ task =>
      simp only [Store.act]
      split
      · rename_i known
        exact .one (.openTask task (List.contains_iff_mem.mp known))
      · exact .refl
  | move task generation stopGeneration running terminalAt =>
      exact .one (.moveTask task generation stopGeneration running terminalAt)
  | dropTask task =>
      exact dropTask_written task fun plan member here => ⟨plan, member, rfl, here⟩

/-! ## Steps -/

theorem act_drawn (event : Event) : s.drawn ≤ (s.act digests uuid7 inFlight event).drawn := by
  cases event <;> simp only [Store.act, Store.commit, Store.transfer, Store.issue, Store.put] <;>
    (repeat' split) <;> simp

theorem safe_transfer {count : Nat} {result : Except TaskRefusal (Tables × Batch)}
    (safe : s.Safe uuid7)
    (next : ({ s with
      tables := (s.transfer count result).tables
      drawn := (s.transfer count result).drawn } : Store).Safe uuid7)
    (given : ∀ after batch, result = .ok (after, batch) → batch.Given s.tables after) :
    (s.transfer count result).Safe uuid7 := by
  cases result with
  | error refusal => exact next
  | ok result => exact safe_handed next (given result.1 result.2 rfl) safe.holds.verified

theorem safe_act (injective : Function.Injective uuid7) (late : (inFlight : Int) ≤ protectMs)
    (safe : s.Safe uuid7) (event : Event) : (s.act digests uuid7 inFlight event).Safe uuid7 := by
  have objects := safe.sound.ledger.objects
  have more : s.drawn ≤ (s.act digests uuid7 inFlight event).drawn := act_drawn event
  have next := safe_written safe more (act_written injective safe event)
  cases event with
  | create | register | write | renew | publish =>
      simp only [Store.act, Store.commit] at next ⊢
      split at next <;> exact next
  | uploads e checkpoint pin input =>
      exact safe_transfer safe next fun after batch committed => uploads_given objects committed
  | authorize e checkpoint pin purpose ids =>
      exact safe_transfer safe next fun after batch committed => authorize_given objects committed
  | list e checkpoint pin last =>
      exact safe_transfer safe next fun after batch committed => list_given objects committed
  | issue slot index => exact safe_issue safe slot index
  | put slot opens => exact safe_put late safe slot opens
  | claim busy limit =>
      refine safe_claimed next fun purge member => ?_
      obtain ⟨row, due, rfl⟩ := List.mem_map.mp member
      obtain ⟨held, isDue⟩ := Table.mem_of_mem_select due
      simp only [Bool.and_eq_true, decide_eq_true_eq] at isDue
      refine ⟨_, Table.mem_update.mpr ⟨row, held, rfl⟩, ?_⟩
      have past := (safe.holds.paces row held).trans isDue.1.2
      split <;> exact ⟨rfl, rfl, past⟩
  | delete slot =>
      simp only [Store.act]
      split
      · exact safe
      · rename_i purge listed
        exact safe_delete safe (List.mem_of_getElem? listed)
  | findBases | findOrphans =>
      refine ⟨safe.sound, ?_, safe.deleted, safe.absent, safe.single, safe.receipts, safe.served⟩
      exact holds_outside safe.holds (fun _ _ _ reads => reads) (fun _ gone => gone)
        safe.holds.claimed (fun id descriptor until_ promise =>
          safe.holds.promised id descriptor until_ (promises_of promise rfl rfl)) safe.holds.backed
  | record slot | releaseBase slot | acknowledge slot =>
      simp only [Store.act] at next ⊢
      split at next <;> exact next
  | open_ task =>
      simp only [Store.act] at next ⊢
      split_ifs at next ⊢ <;> exact next
  | retain | collect | found | dropWorkspace | move | dropTask => exact next

theorem safe_step (injective : Function.Injective uuid7) (late : (inFlight : Int) ≤ protectMs)
    (safe : s.Safe uuid7) (event : Nat × Event) : (s.step digests uuid7 inFlight event).Safe uuid7 :=
  safe_act injective late (safe_clock safe event.1) event.2

theorem safe_start : Store.start.Safe uuid7 := by
  constructor
  · constructor <;> constructor <;> simp [Store.start, Tables.empty]
  · constructor <;> simp [Store.start, Tables.empty]
    intro id descriptor until_ promise
    cases promise with
    | upload signed => exact absurd signed List.not_mem_nil
    | batch read => exact absurd read List.not_mem_nil
  all_goals simp [Store.start, Tables.empty]

theorem safe_run (injective : Function.Injective uuid7) (late : (inFlight : Int) ≤ protectMs)
    (events : List (Nat × Event)) :
    ∀ s ∈ Run.states (Store.step digests uuid7 inFlight) Store.start events, s.Safe uuid7 :=
  Run.invariant_of_step (Store.Safe uuid7)
    (fun _ event safe => safe_step injective late safe event) safe_start events

end Runs

end Agentsfleet.Custody
