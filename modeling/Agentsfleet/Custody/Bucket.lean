import Agentsfleet.Custody.Requests

/-!
# The tables and the bucket

An object's row freezes its ciphertext and says until when it is kept; where the row goes, its
purge says so.  What is verified was read back, what was handed out is kept for as long as it
may be used, and everything the bucket holds is still accounted for.
-/

set_option autoImplicit false

namespace Agentsfleet.Custody

open Agentsfleet.Library

def Store.Readable (s : Store) (id : String) (descriptor : Descriptor) : Prop :=
  ⟨id, descriptor, true⟩ ∈ s.bucket

def Store.Gone (s : Store) (id : String) : Prop := ∃ workspace, (id, workspace) ∈ s.deleted

/-- A ciphertext kept for what was handed out to `until_`, by its row or by its purge. -/
def Tables.Keeps (t : Tables) (id : String) (descriptor : Descriptor) (until_ : Int) : Prop :=
  (∃ row ∈ t.objects, row.id = id ∧ row.ciphertext = some descriptor ∧
    until_ + protectMs ≤ row.reclaimAfter) ∨
  ∃ purge ∈ t.purges, purge.object = id ∧ purge.accounted = descriptor.length ∧
    until_ + protectMs ≤ purge.deleteAfter

def Tables.Backs (t : Tables) (id : String) (descriptor : Descriptor) : Prop :=
  (∃ row ∈ t.objects, row.id = id ∧ row.ciphertext = some descriptor) ∨
  ∃ purge ∈ t.purges, purge.object = id ∧ purge.accounted = descriptor.length ∧
    purge.completed = false

inductive Store.Promises (s : Store) : String → Descriptor → Int → Prop where
  | upload {upload : Upload} (signed : upload ∈ s.uploads) :
      s.Promises upload.object upload.descriptor upload.expiresAt
  | batch {batch : Batch} {row : Object} {descriptor : Descriptor} (read : batch ∈ s.batches)
      (inside : row ∈ batch.objects) (frozen : row.ciphertext = some descriptor) :
      s.Promises row.id descriptor batch.pin.expiresAt

structure Store.Holds (s : Store) (t : Tables) : Prop where
  lengths : ∀ row ∈ t.objects, ∀ descriptor, row.ciphertext = some descriptor →
    descriptor.length = row.accounted
  verified : ∀ row ∈ t.objects, row.verified = true →
    ∃ descriptor, row.ciphertext = some descriptor ∧ s.Readable row.id descriptor
  paces : ∀ purge ∈ t.purges, purge.deleteAfter ≤ purge.nextAttempt
  completed : ∀ purge ∈ t.purges, purge.completed = true → s.Gone purge.object
  claimed : ∀ purge ∈ s.claimed, ∃ row ∈ t.purges, row.object = purge.1 ∧
    row.workspace = purge.2 ∧ row.deleteAfter ≤ s.clock
  promised : ∀ id descriptor until_, s.Promises id descriptor until_ →
    t.Keeps id descriptor until_
  backed : ∀ held ∈ s.bucket, t.Backs held.object held.descriptor

variable {drawn drops : String → Prop} {s : Store} {t after : Tables}

theorem Store.Holds.same (holds : s.Holds t) (objects : after.objects = t.objects)
    (purges : after.purges = t.purges) : s.Holds after := by
  have keeps (id : String) (descriptor : Descriptor) (until_ : Int) :
      after.Keeps id descriptor until_ ↔ t.Keeps id descriptor until_ := by
    rw [Tables.Keeps, Tables.Keeps, objects, purges]
  have backs (id : String) (descriptor : Descriptor) :
      after.Backs id descriptor ↔ t.Backs id descriptor := by
    rw [Tables.Backs, Tables.Backs, objects, purges]
  constructor
  all_goals simp only [objects, purges, keeps, backs]
  exacts [holds.lengths, holds.verified, holds.paces, holds.completed, holds.claimed,
    holds.promised, holds.backed]

theorem holds_objects (holds : s.Holds t) {here : Object → Bool} {change : Object → Object}
    (kept : ∀ row, (change row).id = row.id ∧ (change row).accounted = row.accounted ∧
      row.reclaimAfter ≤ (change row).reclaimAfter)
    (frozen : ∀ row descriptor, here row = true → row.ciphertext = some descriptor →
      (change row).ciphertext = some descriptor)
    (lengths : ∀ row ∈ t.objects, here row = true → ∀ descriptor,
      (change row).ciphertext = some descriptor → descriptor.length = row.accounted)
    (verified : ∀ row ∈ t.objects, here row = true → (change row).verified = true →
      ∃ descriptor, (change row).ciphertext = some descriptor ∧ s.Readable row.id descriptor)
    (objects : after.objects = Table.update here change t.objects)
    (purges : after.purges = t.purges) : s.Holds after := by
  have still {row : Object} (held : row ∈ t.objects) {descriptor : Descriptor}
      (is : row.ciphertext = some descriptor) : ∃ new ∈ after.objects, new.id = row.id ∧
        new.ciphertext = some descriptor ∧ row.reclaimAfter ≤ new.reclaimAfter := by
    refine ⟨if here row then change row else row, ?_, ?_⟩
    · rw [objects]
      exact Table.mem_update.mpr ⟨row, held, rfl⟩
    · split
      · rename_i picked
        exact ⟨(kept row).1, frozen row descriptor picked is, (kept row).2.2⟩
      · exact ⟨rfl, is, le_refl _⟩
  constructor
  · intro row member descriptor is
    rw [objects] at member
    obtain ⟨old, held, rfl⟩ := Table.mem_update.mp member
    split at is
    · rename_i picked
      rw [if_pos picked, (kept old).2.1]
      exact lengths old held picked descriptor is
    · rename_i unpicked
      rw [if_neg unpicked]
      exact holds.lengths old held descriptor is
  · intro row member is
    rw [objects] at member
    obtain ⟨old, held, rfl⟩ := Table.mem_update.mp member
    split at is
    · rename_i picked
      rw [if_pos picked, (kept old).1]
      exact verified old held picked is
    · rename_i unpicked
      rw [if_neg unpicked]
      exact holds.verified old held is
  · exact purges ▸ holds.paces
  · exact purges ▸ holds.completed
  · exact purges ▸ holds.claimed
  · intro id descriptor until_ promise
    rcases holds.promised id descriptor until_ promise with ⟨row, held, same, is, late⟩ | purged
    · obtain ⟨new, inside, new_id, freezes, later⟩ := still held is
      exact .inl ⟨new, inside, new_id.trans same, freezes, late.trans later⟩
    · exact .inr (purges ▸ purged)
  · intro stored member
    rcases holds.backed stored member with ⟨row, held, same, is⟩ | purged
    · obtain ⟨new, inside, new_id, freezes, -⟩ := still held is
      exact .inl ⟨new, inside, new_id.trans same, freezes⟩
    · exact .inr (purges ▸ purged)

theorem holds_reserve (holds : s.Holds t) {workspace : String} {new : List Object}
    {reserved : Tables} (admitted : t.quotaReserve workspace (accountedBytes new) = some reserved)
    (born : ∀ row ∈ new, row.Born workspace) : s.Holds (reserved.objectsInsert new) := by
  have objects : (reserved.objectsInsert new).objects = t.objects ++ new := by
    rw [quotaReserve_eq admitted]
    rfl
  have purges : (reserved.objectsInsert new).purges = t.purges := by
    rw [quotaReserve_eq admitted]
    rfl
  constructor
  · intro row member descriptor is
    rw [objects] at member
    rcases List.mem_append.mp member with old | fresh
    · exact holds.lengths row old descriptor is
    · rw [(born row fresh).ciphertext] at is
      exact nomatch is
  · intro row member is
    rw [objects] at member
    rcases List.mem_append.mp member with old | fresh
    · exact holds.verified row old is
    · rw [(born row fresh).verified] at is
      exact nomatch is
  · exact purges ▸ holds.paces
  · exact purges ▸ holds.completed
  · exact purges ▸ holds.claimed
  · intro id descriptor until_ promise
    rcases holds.promised id descriptor until_ promise with ⟨row, held, rest⟩ | purged
    · exact .inl ⟨row, objects ▸ List.mem_append_left _ held, rest⟩
    · exact .inr (purges ▸ purged)
  · intro stored member
    rcases holds.backed stored member with ⟨row, held, rest⟩ | purged
    · exact .inl ⟨row, objects ▸ List.mem_append_left _ held, rest⟩
    · exact .inr (purges ▸ purged)

theorem holds_dropObjects (holds : s.Holds t) (ledger : Ledger drawn t) (picks : Object → Bool) :
    s.Holds (t.dropObjects picks) := by
  have purges := dropObjects_purges ledger picks
  have stays {purge : Purge} (member : purge ∈ t.purges) : purge ∈ (t.dropObjects picks).purges := by
    rw [purges]
    exact List.mem_append_left _ member
  have purged {purge : Purge} (member : purge ∈ (t.dropObjects picks).purges) :
      purge ∈ t.purges ∨ ∃ row : Object, purge = row.purge := by
    rw [purges] at member
    rcases List.mem_append.mp member with old | new
    · exact .inl old
    · obtain ⟨row, -, rfl⟩ := List.mem_map.mp new
      exact .inr ⟨row, rfl⟩
  have moves {row : Object} (held : row ∈ t.objects) :
      row ∈ (t.dropObjects picks).objects ∨ row.purge ∈ (t.dropObjects picks).purges := by
    by_cases picked : picks row = true
    · refine .inr ?_
      rw [purges]
      exact List.mem_append_right _ (List.mem_map_of_mem (List.mem_filter.mpr ⟨held, picked⟩))
    · exact .inl (List.mem_filter.mpr ⟨held, by simpa using picked⟩)
  constructor
  · exact fun row member => holds.lengths row (List.mem_of_mem_filter member)
  · exact fun row member => holds.verified row (List.mem_of_mem_filter member)
  · intro purge member
    rcases purged member with old | ⟨row, rfl⟩
    · exact holds.paces purge old
    · exact le_refl _
  · intro purge member is
    rcases purged member with old | ⟨row, rfl⟩
    · exact holds.completed purge old is
    · exact nomatch is
  · intro purge member
    obtain ⟨row, held, rest⟩ := holds.claimed purge member
    exact ⟨row, stays held, rest⟩
  · intro id descriptor until_ promise
    rcases holds.promised id descriptor until_ promise with ⟨row, held, same, is, late⟩ |
      ⟨purge, held, rest⟩
    · rcases moves held with standing | gone
      · exact .inl ⟨row, standing, same, is, late⟩
      · exact .inr ⟨row.purge, gone, same, (holds.lengths row held descriptor is).symm, late⟩
    · exact .inr ⟨purge, stays held, rest⟩
  · intro stored member
    rcases holds.backed stored member with ⟨row, held, same, is⟩ | ⟨purge, held, rest⟩
    · rcases moves held with standing | gone
      · exact .inl ⟨row, standing, same, is⟩
      · exact .inr ⟨row.purge, gone, same, (holds.lengths row held _ is).symm, rfl⟩
    · exact .inr ⟨purge, stays held, rest⟩

theorem holds_purges (holds : s.Holds t) {here : Purge → Bool} {change : Purge → Purge}
    (kept : ∀ row, (change row).object = row.object ∧ (change row).workspace = row.workspace ∧
      (change row).accounted = row.accounted ∧ (change row).deleteAfter = row.deleteAfter)
    (paces : ∀ row ∈ t.purges, here row = true → row.nextAttempt ≤ (change row).nextAttempt)
    (completed : ∀ row ∈ t.purges, here row = true → (change row).completed = true →
      row.completed = true ∨ s.Gone row.object)
    (backed : ∀ held ∈ s.bucket, ∀ row ∈ t.purges, here row = true → row.object = held.object →
      row.completed = false → (change row).completed = false)
    (objects : after.objects = t.objects) (purges : after.purges = Table.update here change t.purges) :
    s.Holds after := by
  have still {row : Purge} (held : row ∈ t.purges) : ∃ new ∈ after.purges,
      new.object = row.object ∧ new.workspace = row.workspace ∧ new.accounted = row.accounted ∧
        new.deleteAfter = row.deleteAfter := by
    refine ⟨if here row then change row else row, ?_, ?_⟩
    · rw [purges]
      exact Table.mem_update.mpr ⟨row, held, rfl⟩
    · split
      · exact kept row
      · exact ⟨rfl, rfl, rfl, rfl⟩
  constructor
  · exact objects ▸ holds.lengths
  · exact objects ▸ holds.verified
  · intro purge member
    rw [purges] at member
    obtain ⟨old, held, rfl⟩ := Table.mem_update.mp member
    have soon := holds.paces old held
    split
    · rename_i picked
      rw [(kept old).2.2.2]
      exact soon.trans (paces old held picked)
    · exact soon
  · intro purge member is
    rw [purges] at member
    obtain ⟨old, held, rfl⟩ := Table.mem_update.mp member
    split at is
    · rename_i picked
      rw [if_pos picked, (kept old).1]
      rcases completed old held picked is with before | gone
      · exact holds.completed old held before
      · exact gone
    · rename_i unpicked
      rw [if_neg unpicked]
      exact holds.completed old held is
  · intro purge member
    obtain ⟨row, held, object, workspace, due⟩ := holds.claimed purge member
    obtain ⟨new, inside, object', workspace', -, due'⟩ := still held
    exact ⟨new, inside, object'.trans object, workspace'.trans workspace, due' ▸ due⟩
  · intro id descriptor until_ promise
    rcases holds.promised id descriptor until_ promise with row | ⟨purge, held, same, length, late⟩
    · exact .inl (objects ▸ row)
    · obtain ⟨new, inside, object, -, accounted, due⟩ := still held
      exact .inr ⟨new, inside, object.trans same, accounted.trans length, due ▸ late⟩
  · intro stored member
    rcases holds.backed stored member with row | ⟨purge, held, same, length, waits⟩
    · exact .inl (objects ▸ row)
    · refine .inr ⟨if here purge then change purge else purge, ?_, ?_⟩
      · rw [purges]
        exact Table.mem_update.mpr ⟨purge, held, rfl⟩
      · split
        · rename_i picked
          exact ⟨(kept purge).1.trans same, (kept purge).2.2.1.trans length,
            backed stored member purge held picked same waits⟩
        · exact ⟨same, length, waits⟩

theorem holds_writes (holds : s.Holds t) (ledger : Ledger drawn t)
    (absent : ∀ held ∈ s.bucket, ¬s.Gone held.object)
    (writes : Writes drawn s.Readable s.Gone drops t after) : s.Holds after := by
  cases writes with
  | quota workspace _ => exact holds.same (quota_objects workspace) (quota_purges workspace)
  | reserve workspace new reserved admitted _ _ born => exact holds_reserve holds admitted born
  | planBytes | attach | dropPlans | dropBases | newBase | newPlan | pageWrite | abandon | retire
  | pins | identities | moveTask | dropTasks | found | leave => exact holds.same rfl rfl
  | protect ids expiresAt now =>
      refine holds_objects holds ?_ ?_ ?_ ?_ rfl rfl
      · exact fun row => ⟨rfl, rfl, le_max_left _ _⟩
      · exact fun row descriptor _ is => is
      · exact fun row member _ => holds.lengths row member
      · exact fun row member _ => holds.verified row member
  | describe rows workspace now lengths =>
      refine holds_objects holds ?_ ?_ ?_ ?_ rfl rfl
      · exact fun row => ⟨rfl, rfl, le_refl _⟩
      · intro row descriptor picked is
        simp only [Bool.and_eq_true, Option.isNone_iff_eq_none] at picked
        rw [picked.1.2] at is
        exact nomatch is
      · intro row member picked descriptor is
        simp only [Bool.and_eq_true, beq_iff_eq, Option.isNone_iff_eq_none] at picked
        exact lengths row member picked.1.1 picked.1.2 descriptor is
      · intro row member picked is
        obtain ⟨descriptor, was, -⟩ := holds.verified row member is
        simp only [Bool.and_eq_true, Option.isNone_iff_eq_none] at picked
        rw [picked.1.2] at was
        exact nomatch was
  | verify receipts workspace now read =>
      refine holds_objects holds ?_ ?_ ?_ ?_ rfl rfl
      · exact fun row => ⟨rfl, rfl, le_refl _⟩
      · exact fun row descriptor _ is => is
      · exact fun row member _ => holds.lengths row member
      · intro row member picked _
        obtain ⟨-, -, -, descriptor, is, said⟩ := verifies_spec picked
        exact ⟨descriptor, is, read row member descriptor said⟩
  | dropObjects picks _ => exact holds_dropObjects holds ledger picks
  | publish plan holder commit now => cases holder <;> exact holds.same rfl rfl
  | claim picks at_ later =>
      refine holds_purges holds ?_ later ?_ ?_ rfl rfl
      · exact fun _ => ⟨rfl, rfl, rfl, rfl⟩
      · exact fun row _ _ is => .inl is
      · exact fun _ _ row _ _ _ waits => waits
  | complete object workspace deleted =>
      refine holds_purges holds ?_ ?_ ?_ ?_ rfl rfl
      · exact fun _ => ⟨rfl, rfl, rfl, rfl⟩
      · exact fun row _ _ => le_refl _
      · intro row member picked _
        simp only [Bool.and_eq_true, beq_iff_eq] at picked
        exact .inr (picked.1.1 ▸ deleted)
      · intro held member row _ picked same _
        simp only [Bool.and_eq_true, beq_iff_eq] at picked
        exact absurd (same ▸ picked.1.1 ▸ deleted) (absent held member)
  | openTask task _ =>
      unfold Tables.openTask
      split <;> exact holds.same rfl rfl

end Agentsfleet.Custody
