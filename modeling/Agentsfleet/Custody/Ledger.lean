import Agentsfleet.Custody.Writes
import Agentsfleet.Library.Totals

/-!
# The storage ledger

Each byte a workspace owes is counted once, where its object is: in an object's row, reserved
until it is verified and stored from then on, or in a purge that is not complete.  The quota
row holds those two sums and never passes the ceiling.
-/

set_option autoImplicit false

namespace Agentsfleet.Custody

open Agentsfleet.Library

def Tables.owed (t : Tables) (workspace : String) (stored : Bool) : Int :=
  Table.total (fun row => row.workspace == workspace && row.verified == stored) Object.accounted
      t.objects +
    Table.total (fun row => row.workspace == workspace && row.stored == stored && !row.completed)
      Purge.accounted t.purges

structure Ledger (drawn : String → Prop) (t : Tables) : Prop where
  objects : (t.objects.map Object.id).Nodup
  purges : (t.purges.map Purge.object).Nodup
  apart : ∀ row ∈ t.objects, row.id ∉ t.purges.map Purge.object
  objectsDrawn : ∀ row ∈ t.objects, drawn row.id
  purgesDrawn : ∀ purge ∈ t.purges, drawn purge.object ∧ drawn purge.workspace
  workspacesDrawn : ∀ workspace ∈ t.workspaces, drawn workspace
  standing : ∀ row ∈ t.objects, row.tombstoned = false
  accounted : ∀ row ∈ t.objects, 0 ≤ row.accounted
  purgesAccounted : ∀ purge ∈ t.purges, 0 ≤ purge.accounted
  quotas : (t.quotas.map Quota.workspace).Nodup
  quotasKnown : ∀ quota ∈ t.quotas, quota.workspace ∈ t.workspaces
  owes : ∀ row ∈ t.objects, row.workspace ∈ t.quotas.map Quota.workspace
  purgesOwe : ∀ purge ∈ t.purges, purge.workspace ∈ t.workspaces →
    purge.workspace ∈ t.quotas.map Quota.workspace
  exact : ∀ quota ∈ t.quotas, quota.reserved = t.owed quota.workspace false ∧
    quota.stored = t.owed quota.workspace true
  ceiling : ∀ quota ∈ t.quotas, quota.reserved + quota.stored ≤ workspaceBytes

variable {drawn : String → Prop} {t after : Tables}

theorem Ledger.mono {further : String → Prop} (more : ∀ id, drawn id → further id)
    (ledger : Ledger drawn t) : Ledger further t :=
  { ledger with
    objectsDrawn := fun row member => more _ (ledger.objectsDrawn row member)
    purgesDrawn := fun purge member =>
      ⟨more _ (ledger.purgesDrawn purge member).1, more _ (ledger.purgesDrawn purge member).2⟩
    workspacesDrawn := fun workspace member => more _ (ledger.workspacesDrawn workspace member) }

theorem Ledger.same (ledger : Ledger drawn t) (workspaces : after.workspaces = t.workspaces)
    (objects : after.objects = t.objects) (purges : after.purges = t.purges)
    (quotas : after.quotas = t.quotas) : Ledger drawn after := by
  have owed (workspace : String) (stored : Bool) :
      after.owed workspace stored = t.owed workspace stored := by
    rw [Tables.owed, Tables.owed, objects, purges]
  constructor
  all_goals simp only [workspaces, objects, purges, quotas, owed]
  exacts [ledger.objects, ledger.purges, ledger.apart, ledger.objectsDrawn, ledger.purgesDrawn,
    ledger.workspacesDrawn, ledger.standing, ledger.accounted, ledger.purgesAccounted,
    ledger.quotas, ledger.quotasKnown, ledger.owes, ledger.purgesOwe, ledger.exact, ledger.ceiling]

theorem owed_eq_zero (ledger : Ledger drawn t) {workspace : String} (known : workspace ∈ t.workspaces)
    (missing : workspace ∉ t.quotas.map Quota.workspace) (stored : Bool) :
    t.owed workspace stored = 0 := by
  have no_object : ∀ row ∈ t.objects, (row.workspace == workspace) = false := by
    intro row member
    rw [beq_eq_false_iff_ne]
    rintro rfl
    exact missing (ledger.owes row member)
  have no_purge : ∀ purge ∈ t.purges, (purge.workspace == workspace) = false := by
    intro purge member
    rw [beq_eq_false_iff_ne]
    rintro rfl
    exact missing (ledger.purgesOwe purge member known)
  rw [Tables.owed, Table.total_eq_zero, Table.total_eq_zero]
  · rfl
  · intro purge member
    rw [no_purge purge member]
    rfl
  · intro row member
    rw [no_object row member]
    rfl

theorem ledger_quota (ledger : Ledger drawn t) {workspace : String}
    (known : workspace ∈ t.workspaces) : Ledger drawn (t.quota workspace) := by
  unfold Tables.quota
  split
  · exact ledger
  · rename_i absent
    have missing : workspace ∉ t.quotas.map Quota.workspace := by
      intro held
      obtain ⟨row, member, same⟩ := List.mem_map.mp held
      exact absent (List.any_eq_true.mpr ⟨row, member, beq_iff_eq.mpr same⟩)
    have zero := owed_eq_zero ledger known missing
    have grown {other : String} (held : other ∈ t.quotas.map Quota.workspace) :
        other ∈ (t.quotas ++ [(⟨workspace, 0, 0⟩ : Quota)]).map Quota.workspace := by
      rw [List.map_append]
      exact List.mem_append_left _ held
    refine { ledger with quotas := ?_, quotasKnown := ?_, owes := ?_, purgesOwe := ?_, exact := ?_,
                         ceiling := ?_ }
    · rw [List.map_append]
      exact ledger.quotas.append (List.nodup_singleton _) (by simpa using missing)
    · intro quota member
      rcases List.mem_append.mp member with old | new
      · exact ledger.quotasKnown quota old
      · rw [List.mem_singleton.mp new]
        exact known
    · exact fun row member => grown (ledger.owes row member)
    · exact fun purge member inside => grown (ledger.purgesOwe purge member inside)
    · intro quota member
      rcases List.mem_append.mp member with old | new
      · exact ledger.exact quota old
      · rw [List.mem_singleton.mp new]
        exact ⟨(zero false).symm, (zero true).symm⟩
    · intro quota member
      rcases List.mem_append.mp member with old | new
      · exact ledger.ceiling quota old
      · rw [List.mem_singleton.mp new]
        change (0 : Int) + 0 ≤ workspaceBytes
        decide

theorem quota_unique (ledger : Ledger drawn t) {row other : Quota} (held : row ∈ t.quotas)
    (inside : other ∈ t.quotas) (same : row.workspace = other.workspace) : row = other :=
  List.inj_on_of_nodup_map ledger.quotas held inside same

theorem ledger_reserve (ledger : Ledger drawn t) {workspace : String} {new : List Object}
    {reserved : Tables} (admitted : t.quotaReserve workspace (accountedBytes new) = some reserved)
    (distinct : (new.map Object.id).Nodup)
    (fresh : ∀ row ∈ new, drawn row.id ∧ row.id ∉ t.objects.map Object.id ∧
      row.id ∉ t.purges.map Purge.object)
    (born : ∀ row ∈ new, row.Born workspace) : Ledger drawn (reserved.objectsInsert new) := by
  unfold Tables.quotaReserve at admitted
  dsimp only at admitted
  split at admitted
  · rename_i room
    obtain ⟨held, inside, admits⟩ := List.any_eq_true.mp room
    simp only [Bool.and_eq_true, beq_iff_eq, decide_eq_true_eq] at admits
    obtain ⟨ofWorkspace, below⟩ := admits
    rw [Option.some.injEq] at admitted
    subst admitted
    -- The row of the workspace is the one that has room.
    have reserves : ∀ quota ∈ t.quotas, (quota.workspace == workspace &&
        decide (quota.reserved + quota.stored ≤ workspaceBytes - accountedBytes new)) =
          decide (quota.workspace = workspace) := by
      intro quota member
      by_cases same : quota.workspace = workspace
      · rw [quota_unique ledger member inside (same.trans ofWorkspace.symm)]
        simp [ofWorkspace, below]
      · simp [same]
    have workspaces : (Table.update (fun quota => quota.workspace == workspace &&
        decide (quota.reserved + quota.stored ≤ workspaceBytes - accountedBytes new))
          (fun quota => { quota with reserved := quota.reserved + accountedBytes new })
          t.quotas).map Quota.workspace = t.quotas.map Quota.workspace :=
      Table.column_update _ _ _ (fun _ => by rfl) _
    have owed (other : String) (stored : Bool) :
        Table.total (fun row => row.workspace == other && row.verified == stored)
            Object.accounted new =
          if stored = false ∧ workspace = other then accountedBytes new else 0 := by
      split
      · rename_i here
        apply Table.total_of_all
        intro row member
        rw [(born row member).workspace, (born row member).verified, here.1, here.2]
        simp
      · rename_i elsewhere
        apply Table.total_eq_zero
        intro row member
        rw [(born row member).workspace, (born row member).verified]
        by_cases same : workspace = other
        · cases stored with
          | false => exact absurd ⟨rfl, same⟩ elsewhere
          | true => simp
        · simp [same]
    refine { ledger with objects := ?_, apart := ?_, objectsDrawn := ?_, standing := ?_, accounted := ?_,
                         quotas := ?_, quotasKnown := ?_, owes := ?_, purgesOwe := ?_, exact := ?_,
                         ceiling := ?_ }
    · rw [Tables.objectsInsert, List.map_append]
      refine ledger.objects.append distinct fun id old new => ?_
      obtain ⟨row, member, rfl⟩ := List.mem_map.mp new
      exact (fresh row member).2.1 old
    · intro row member
      rcases List.mem_append.mp member with old | new
      · exact ledger.apart row old
      · exact (fresh row new).2.2
    · intro row member
      rcases List.mem_append.mp member with old | new
      · exact ledger.objectsDrawn row old
      · exact (fresh row new).1
    · intro row member
      rcases List.mem_append.mp member with old | new
      · exact ledger.standing row old
      · exact (born row new).tombstoned
    · intro row member
      rcases List.mem_append.mp member with old | new
      · exact ledger.accounted row old
      · exact (born row new).accounted
    · exact workspaces ▸ ledger.quotas
    · intro quota member
      obtain ⟨old, before, rfl⟩ := Table.mem_update.mp member
      have stays := ledger.quotasKnown old before
      split <;> exact stays
    · intro row member
      refine workspaces.symm ▸ ?_
      rcases List.mem_append.mp member with old | new
      · exact ledger.owes row old
      · rw [(born row new).workspace]
        exact List.mem_map.mpr ⟨held, inside, ofWorkspace⟩
    · exact fun purge member known => workspaces.symm ▸ ledger.purgesOwe purge member known
    · intro quota member
      obtain ⟨old, before, rfl⟩ := Table.mem_update.mp member
      have exact_ := ledger.exact old before
      rw [reserves old before]
      simp only [Tables.owed, Tables.objectsInsert, Table.total_append, owed] at exact_ ⊢
      by_cases same : old.workspace = workspace
      · simp only [same, decide_true, if_true, true_and] at exact_ ⊢
        simp only [Bool.true_eq_false, false_and, if_false]
        constructor <;> omega
      · have other : workspace ≠ old.workspace := fun alike => same alike.symm
        simp only [same, decide_false, Bool.false_eq_true, if_false, other, and_false]
        constructor <;> omega
    · intro quota member
      obtain ⟨old, before, rfl⟩ := Table.mem_update.mp member
      have full := ledger.ceiling old before
      rw [reserves old before]
      by_cases same : old.workspace = workspace
      · rw [quota_unique ledger before inside (same.trans ofWorkspace.symm)]
        simp only [ofWorkspace, decide_true, if_true]
        omega
      · simp only [same, decide_false, Bool.false_eq_true, if_false]
        exact full
  · exact nomatch admitted

theorem ledger_objects (ledger : Ledger drawn t) (here : Object → Bool) (change : Object → Object)
    (kept : ∀ row, (change row).id = row.id ∧ (change row).workspace = row.workspace ∧
      (change row).accounted = row.accounted ∧ (change row).verified = row.verified ∧
        (change row).tombstoned = row.tombstoned) :
    Ledger drawn { t with objects := Table.update here change t.objects } := by
  have was {row : Object} (member : row ∈ Table.update here change t.objects) :
      ∃ old ∈ t.objects, row.id = old.id ∧ row.workspace = old.workspace ∧
        row.accounted = old.accounted ∧ row.tombstoned = old.tombstoned := by
    obtain ⟨old, held, rfl⟩ := Table.mem_update.mp member
    obtain ⟨id, workspace, accounted, -, tombstoned⟩ := kept old
    refine ⟨old, held, ?_⟩
    split
    · exact ⟨id, workspace, accounted, tombstoned⟩
    · exact ⟨rfl, rfl, rfl, rfl⟩
  refine { ledger with objects := ?_, apart := ?_, objectsDrawn := ?_, standing := ?_, accounted := ?_,
                       owes := ?_, exact := ?_ }
  · rw [Table.column_update Object.id _ _ fun row => (kept row).1]
    exact ledger.objects
  · intro row member
    obtain ⟨old, held, id, -⟩ := was member
    exact id ▸ ledger.apart old held
  · intro row member
    obtain ⟨old, held, id, -⟩ := was member
    exact id ▸ ledger.objectsDrawn old held
  · intro row member
    obtain ⟨old, held, -, -, -, tombstoned⟩ := was member
    exact tombstoned ▸ ledger.standing old held
  · intro row member
    obtain ⟨old, held, -, -, accounted, -⟩ := was member
    exact accounted ▸ ledger.accounted old held
  · intro row member
    obtain ⟨old, held, -, workspace, -⟩ := was member
    exact workspace ▸ ledger.owes old held
  · intro quota member
    have exact_ := ledger.exact quota member
    simp only [Tables.owed] at exact_ ⊢
    rw [Table.total_update_same (fun row => (kept row).2.2.1) fun row => by
        rw [(kept row).2.1, (kept row).2.2.2.1],
      Table.total_update_same (fun row => (kept row).2.2.1) fun row => by
        rw [(kept row).2.1, (kept row).2.2.2.1]]
    exact exact_

/-- What `verify` marks is unverified, and of one workspace. -/
theorem verifies_spec {receipts : List (String × Descriptor)} {workspace : String} {row : Object}
    (picked : verifies receipts workspace row = true) :
    row.workspace = workspace ∧ row.verified = false ∧ row.tombstoned = false ∧
      ∃ descriptor, row.ciphertext = some descriptor ∧
        described receipts row.id = some descriptor := by
  simp only [verifies, Bool.and_eq_true, beq_iff_eq, Bool.not_eq_true', Option.isSome_iff_exists]
    at picked
  obtain ⟨⟨⟨⟨ofWorkspace, unverified⟩, stands⟩, descriptor, frozen⟩, same⟩ := picked
  exact ⟨ofWorkspace, unverified, stands, descriptor, frozen, same.trans frozen⟩

theorem owed_verify (receipts : List (String × Descriptor)) (workspace : String) (now : Int)
    (other : String) :
    let bytes := if other = workspace then
      accountedBytes (t.objects.filter (verifies receipts workspace)) else 0
    (t.verify receipts workspace now).owed other false = t.owed other false - bytes ∧
      (t.verify receipts workspace now).owed other true = t.owed other true + bytes := by
  have moved : Table.total (fun row => verifies receipts workspace row && row.workspace == other)
      Object.accounted t.objects =
        if other = workspace then
          accountedBytes (t.objects.filter (verifies receipts workspace)) else 0 :=
    Table.total_and_key Object.accounted (fun _ picked => (verifies_spec picked).1) other t.objects
  have none_moved {stays : Object → Bool} (refused : ∀ row, verifies receipts workspace row = true →
      stays row = false) : Table.total (fun row => verifies receipts workspace row && stays row)
        Object.accounted t.objects = 0 := by
    apply Table.total_eq_zero
    intro row _
    cases picked : verifies receipts workspace row with
    | true => rw [refused row picked]; rfl
    | false => rfl
  have moved_of {goes : Object → Bool} (admitted : ∀ row, verifies receipts workspace row = true →
      goes row = (row.workspace == other)) :
      Table.total (fun row => verifies receipts workspace row && goes row) Object.accounted
        t.objects =
          Table.total (fun row => verifies receipts workspace row && row.workspace == other)
            Object.accounted t.objects := by
    apply Table.total_congr
    intro row _
    cases picked : verifies receipts workspace row with
    | true => rw [admitted row picked]
    | false => rfl
  simp only [Tables.owed, Tables.verify]
  rw [Table.total_update_moved (fun _ => by rfl), Table.total_update_moved (fun _ => by rfl)]
  constructor
  · rw [moved_of fun row picked => by simp [(verifies_spec picked).2.1], moved,
      none_moved fun row _ => by simp]
    omega
  · rw [none_moved fun row picked => by simp [(verifies_spec picked).2.1],
      moved_of fun row _ => by simp, moved]
    omega

theorem ledger_verify (ledger : Ledger drawn t) (receipts : List (String × Descriptor))
    (workspace : String) (now : Int) : Ledger drawn (t.verify receipts workspace now) := by
  have was {row : Object} (member : row ∈ (t.verify receipts workspace now).objects) :
      ∃ old ∈ t.objects, row.id = old.id ∧ row.workspace = old.workspace ∧
        row.accounted = old.accounted ∧ row.tombstoned = old.tombstoned := by
    obtain ⟨old, held, rfl⟩ := Table.mem_update.mp member
    refine ⟨old, held, ?_⟩
    split <;> exact ⟨rfl, rfl, rfl, rfl⟩
  have quotas : (t.verify receipts workspace now).quotas.map Quota.workspace =
      t.quotas.map Quota.workspace := Table.column_update _ _ _ (fun _ => by rfl) _
  refine { ledger with objects := ?_, apart := ?_, objectsDrawn := ?_, standing := ?_,
                       accounted := ?_, quotas := ?_, quotasKnown := ?_, owes := ?_,
                       purgesOwe := ?_, exact := ?_, ceiling := ?_ }
  · rw [Tables.verify, Table.column_update Object.id _ _ fun _ => by rfl]
    exact ledger.objects
  · intro row member
    obtain ⟨old, held, id, -⟩ := was member
    exact id ▸ ledger.apart old held
  · intro row member
    obtain ⟨old, held, id, -⟩ := was member
    exact id ▸ ledger.objectsDrawn old held
  · intro row member
    obtain ⟨old, held, -, -, -, tombstoned⟩ := was member
    exact tombstoned ▸ ledger.standing old held
  · intro row member
    obtain ⟨old, held, -, -, accounted, -⟩ := was member
    exact accounted ▸ ledger.accounted old held
  · exact quotas ▸ ledger.quotas
  · intro quota member
    obtain ⟨old, held, rfl⟩ := Table.mem_update.mp member
    have stays := ledger.quotasKnown old held
    split <;> exact stays
  · intro row member
    obtain ⟨old, held, -, ofWorkspace, -⟩ := was member
    rw [quotas, ofWorkspace]
    exact ledger.owes old held
  · exact fun purge member known => quotas.symm ▸ ledger.purgesOwe purge member known
  · intro quota member
    obtain ⟨old, held, rfl⟩ := Table.mem_update.mp member
    obtain ⟨reserved, stored⟩ := ledger.exact old held
    obtain ⟨less, more⟩ := owed_verify (t := t) receipts workspace now old.workspace
    by_cases same : old.workspace = workspace
    · rw [if_pos same] at less more
      rw [if_pos (beq_iff_eq.mpr same)]
      exact ⟨by rw [less, ← reserved], by rw [more, ← stored]⟩
    · rw [if_neg same] at less more
      rw [if_neg fun alike => same (beq_iff_eq.mp alike)]
      exact ⟨by rw [less, ← reserved]; omega, by rw [more, ← stored]; omega⟩
  · intro quota member
    obtain ⟨old, held, rfl⟩ := Table.mem_update.mp member
    have full := ledger.ceiling old held
    split
    · dsimp only
      omega
    · exact full

theorem dropObjects_purges (ledger : Ledger drawn t) (picks : Object → Bool) :
    (t.dropObjects picks).purges = t.purges ++ (t.objects.filter picks).map Object.purge := by
  simp only [Tables.dropObjects]
  congr 1
  apply List.filter_eq_self.mpr
  intro purge member
  obtain ⟨row, inside, rfl⟩ := List.mem_map.mp member
  rw [Bool.not_eq_true', List.any_eq_false]
  intro other held same
  exact ledger.apart row (List.mem_of_mem_filter inside)
    (List.mem_map.mpr ⟨other, held, beq_iff_eq.mp same⟩)

theorem owed_dropObjects (ledger : Ledger drawn t) (picks : Object → Bool) (workspace : String)
    (stored : Bool) : (t.dropObjects picks).owed workspace stored = t.owed workspace stored := by
  rw [Tables.owed, Tables.owed, dropObjects_purges ledger, Table.total_append]
  simp only [Tables.dropObjects]
  rw [Table.total_filter, Table.total_map, Table.total_filter,
    Table.total_split (fun row : Object => row.workspace == workspace && row.verified == stored)
      Object.accounted picks t.objects]
  have purged : Table.total (fun row : Object => (row.purge.workspace == workspace &&
      row.purge.stored == stored && !row.purge.completed) && picks row)
        (fun row => row.purge.accounted) t.objects =
      Table.total (fun row => (row.workspace == workspace && row.verified == stored) && picks row)
        Object.accounted t.objects := by
    apply Table.total_congr
    intro row _
    simp [Object.purge]
  omega

theorem ledger_dropObjects (ledger : Ledger drawn t) (picks : Object → Bool) :
    Ledger drawn (t.dropObjects picks) := by
  have purges := dropObjects_purges ledger picks
  have kept {row : Object} (member : row ∈ (t.dropObjects picks).objects) :
      row ∈ t.objects ∧ picks row = false := by
    obtain ⟨held, unpicked⟩ := List.mem_filter.mp member
    exact ⟨held, by simpa using unpicked⟩
  have purged {purge : Purge} (member : purge ∈ (t.dropObjects picks).purges) :
      purge ∈ t.purges ∨ ∃ row ∈ t.objects, picks row = true ∧ purge = row.purge := by
    rw [purges] at member
    rcases List.mem_append.mp member with old | new
    · exact .inl old
    · obtain ⟨row, inside, rfl⟩ := List.mem_map.mp new
      obtain ⟨held, picked⟩ := List.mem_filter.mp inside
      exact .inr ⟨row, held, picked, rfl⟩
  have ids {row other : Object} (held : row ∈ t.objects) (inside : other ∈ t.objects)
      (same : row.id = other.id) : row = other :=
    List.inj_on_of_nodup_map ledger.objects held inside same
  have names : (t.dropObjects picks).purges.map Purge.object =
      t.purges.map Purge.object ++ (t.objects.filter picks).map Object.id := by
    rw [purges, List.map_append, List.map_map]
    rfl
  have filtered : ((t.objects.filter picks).map Object.id).Nodup :=
    ledger.objects.sublist (List.filter_sublist.map Object.id)
  constructor
  · exact ledger.objects.sublist (List.filter_sublist.map Object.id)
  · rw [names]
    refine ledger.purges.append filtered fun id old new => ?_
    obtain ⟨row, inside, rfl⟩ := List.mem_map.mp new
    exact ledger.apart row (List.mem_of_mem_filter inside) old
  · intro row member
    obtain ⟨held, unpicked⟩ := kept member
    rw [names, List.mem_append, not_or]
    refine ⟨ledger.apart row held, fun taken => ?_⟩
    obtain ⟨other, inside, same⟩ := List.mem_map.mp taken
    obtain ⟨among, picked⟩ := List.mem_filter.mp inside
    rw [ids among held same, unpicked] at picked
    exact nomatch picked
  · exact fun row member => ledger.objectsDrawn row (kept member).1
  · intro purge member
    rcases purged member with old | ⟨row, held, -, rfl⟩
    · exact ledger.purgesDrawn purge old
    · obtain ⟨quota, inside, same⟩ := List.mem_map.mp (ledger.owes row held)
      refine ⟨ledger.objectsDrawn row held, ?_⟩
      have known := ledger.workspacesDrawn _ (ledger.quotasKnown quota inside)
      rw [same] at known
      exact known
  · exact ledger.workspacesDrawn
  · exact fun row member => ledger.standing row (kept member).1
  · exact fun row member => ledger.accounted row (kept member).1
  · intro purge member
    rcases purged member with old | ⟨row, held, -, rfl⟩
    · exact ledger.purgesAccounted purge old
    · exact ledger.accounted row held
  · exact ledger.quotas
  · exact ledger.quotasKnown
  · exact fun row member => ledger.owes row (kept member).1
  · intro purge member known
    rcases purged member with old | ⟨row, held, -, rfl⟩
    · exact ledger.purgesOwe purge old known
    · exact ledger.owes row held
  · intro quota member
    rw [owed_dropObjects ledger, owed_dropObjects ledger]
    exact ledger.exact quota member
  · exact ledger.ceiling

theorem ledger_claim (ledger : Ledger drawn t) (picks : Purge → Bool) (at_ : Int) :
    Ledger drawn { t with
      purges := Table.update picks (fun row => { row with nextAttempt := at_ }) t.purges } := by
  have names : (Table.update picks (fun row => { row with nextAttempt := at_ })
      t.purges).map Purge.object = t.purges.map Purge.object :=
    Table.column_update _ _ _ (fun _ => by rfl) _
  have was {purge : Purge} (member : purge ∈ Table.update picks
      (fun row => { row with nextAttempt := at_ }) t.purges) : ∃ old ∈ t.purges,
        purge.object = old.object ∧ purge.workspace = old.workspace ∧
          purge.accounted = old.accounted := by
    obtain ⟨old, held, rfl⟩ := Table.mem_update.mp member
    refine ⟨old, held, ?_⟩
    split <;> exact ⟨rfl, rfl, rfl⟩
  refine { ledger with purges := ?_, apart := ?_, purgesDrawn := ?_, purgesAccounted := ?_,
                       purgesOwe := ?_, exact := ?_ }
  · exact names ▸ ledger.purges
  · exact fun row member => names.symm ▸ ledger.apart row member
  · intro purge member
    obtain ⟨old, held, object, workspace, -⟩ := was member
    rw [object, workspace]
    exact ledger.purgesDrawn old held
  · intro purge member
    obtain ⟨old, held, -, -, accounted⟩ := was member
    exact accounted ▸ ledger.purgesAccounted old held
  · intro purge member known
    obtain ⟨old, held, -, workspace, -⟩ := was member
    rw [workspace] at known ⊢
    exact ledger.purgesOwe old held known
  · intro quota member
    have exact_ := ledger.exact quota member
    simp only [Tables.owed] at exact_ ⊢
    rw [Table.total_update_same (fun _ => by rfl) fun _ => by rfl,
      Table.total_update_same (fun _ => by rfl) fun _ => by rfl]
    exact exact_

theorem ledger_complete (ledger : Ledger drawn t) (object workspace : String) :
    Ledger drawn (t.purgeComplete object workspace) := by
  let here := fun row : Purge =>
    row.object == object && row.workspace == workspace && !row.completed
  have names : (t.purgeComplete object workspace).purges.map Purge.object =
      t.purges.map Purge.object := Table.column_update _ _ _ (fun _ => by rfl) _
  have quotas : (t.purgeComplete object workspace).quotas.map Quota.workspace =
      t.quotas.map Quota.workspace := Table.column_update _ _ _ (fun _ => by rfl) _
  have was {purge : Purge} (member : purge ∈ (t.purgeComplete object workspace).purges) :
      ∃ old ∈ t.purges, purge.object = old.object ∧ purge.workspace = old.workspace ∧
        purge.accounted = old.accounted := by
    obtain ⟨old, held, rfl⟩ := Table.mem_update.mp member
    refine ⟨old, held, ?_⟩
    split <;> exact ⟨rfl, rfl, rfl⟩
  -- The bytes that leave the quota are those of the purge, in the column that holds them.
  have ofWorkspace : ∀ row, here row = true → row.workspace = workspace := by
    intro row picked
    simp only [here, Bool.and_eq_true, beq_iff_eq] at picked
    exact picked.1.2
  have bytes (stored : Bool) : (((t.purges.filter here).filter fun row =>
      row.stored == stored).map Purge.accounted).sum =
        Table.total (fun row => row.stored == stored && here row) Purge.accounted t.purges := by
    rw [Table.total, List.filter_filter]
  have owed (other : String) (stored : Bool) :
      (t.purgeComplete object workspace).owed other stored = t.owed other stored -
        (if other = workspace then
          (((t.purges.filter here).filter fun row => row.stored == stored).map
            Purge.accounted).sum else 0) := by
    have gone : Table.total (fun row => here row && (row.workspace == other &&
        row.stored == stored && !row.completed)) Purge.accounted t.purges =
          if other = workspace then
            Table.total (fun row => row.stored == stored && here row) Purge.accounted t.purges
          else 0 := by
      rw [← Table.total_and_key Purge.accounted
        (fun row picked => ofWorkspace row ((Bool.and_eq_true _ _).mp picked).2) other t.purges]
      apply Table.total_congr
      intro row _
      cases picked : here row with
      | false => simp
      | true =>
          have waits : row.completed = false := by
            simp only [here, Bool.and_eq_true, Bool.not_eq_true'] at picked
            exact picked.2
          simp [waits, Bool.and_comm]
    have moved : Table.total (fun row => row.workspace == other && row.stored == stored &&
        !row.completed) Purge.accounted
          (Table.update here (fun row => { row with completed := true }) t.purges) = _ :=
      Table.total_update_moved (fun _ => by rfl) t.purges
    have none_back : Table.total (fun row => here row &&
        (({ row with completed := true } : Purge).workspace == other &&
          ({ row with completed := true } : Purge).stored == stored &&
            !({ row with completed := true } : Purge).completed)) Purge.accounted t.purges = 0 :=
      Table.total_eq_zero _ (by simp)
    rw [gone, none_back] at moved
    rw [bytes, Tables.owed, Tables.owed]
    simp only [Tables.purgeComplete]
    rw [moved]
    omega
  refine { ledger with purges := ?_, apart := ?_, purgesDrawn := ?_, purgesAccounted := ?_,
                       quotas := ?_, quotasKnown := ?_, owes := ?_, purgesOwe := ?_, exact := ?_,
                       ceiling := ?_ }
  · exact names ▸ ledger.purges
  · exact fun row member => names.symm ▸ ledger.apart row member
  · intro purge member
    obtain ⟨old, held, object, workspace, -⟩ := was member
    rw [object, workspace]
    exact ledger.purgesDrawn old held
  · intro purge member
    obtain ⟨old, held, -, -, accounted⟩ := was member
    exact accounted ▸ ledger.purgesAccounted old held
  · exact quotas ▸ ledger.quotas
  · intro quota member
    obtain ⟨old, held, rfl⟩ := Table.mem_update.mp member
    have stays := ledger.quotasKnown old held
    split <;> exact stays
  · exact fun row member => quotas.symm ▸ ledger.owes row member
  · intro purge member known
    obtain ⟨old, held, -, same, -⟩ := was member
    rw [same] at known ⊢
    exact quotas.symm ▸ ledger.purgesOwe old held known
  · intro quota member
    obtain ⟨old, held, rfl⟩ := Table.mem_update.mp member
    obtain ⟨reserved, stored⟩ := ledger.exact old held
    by_cases same : old.workspace = workspace
    · rw [if_pos (beq_iff_eq.mpr same)]
      dsimp only
      rw [owed, owed, if_pos same, if_pos same, ← reserved, ← stored]
      exact ⟨rfl, rfl⟩
    · rw [if_neg fun alike => same (beq_iff_eq.mp alike), owed, owed, if_neg same, if_neg same,
        ← reserved, ← stored]
      constructor <;> omega
  · intro quota member
    obtain ⟨old, held, rfl⟩ := Table.mem_update.mp member
    have full := ledger.ceiling old held
    have nonneg (stored : Bool) : 0 ≤ (((t.purges.filter here).filter fun row =>
        row.stored == stored).map Purge.accounted).sum := by
      rw [bytes]
      exact Table.total_nonneg ledger.purgesAccounted
    have reserved := nonneg false
    have stored := nonneg true
    split
    · dsimp only [here] at reserved stored ⊢
      omega
    · exact full

theorem ledger_found (ledger : Ledger drawn t) {workspace : String} (id : drawn workspace)
    (unowed : ∀ purge ∈ t.purges, purge.workspace ≠ workspace) :
    Ledger drawn { t with workspaces := t.workspaces ++ [workspace] } := by
  refine { ledger with workspacesDrawn := ?_, quotasKnown := ?_, purgesOwe := ?_ }
  · intro other member
    rcases List.mem_append.mp member with old | new
    · exact ledger.workspacesDrawn other old
    · exact List.mem_singleton.mp new ▸ id
  · exact fun quota member => List.mem_append_left _ (ledger.quotasKnown quota member)
  · intro purge member known
    rcases List.mem_append.mp known with old | new
    · exact ledger.purgesOwe purge member old
    · exact absurd (List.mem_singleton.mp new) (unowed purge member)

theorem ledger_leave (ledger : Ledger drawn t) {workspace : String}
    (objects : ∀ row ∈ t.objects, row.workspace ≠ workspace) :
    Ledger drawn { t with
      workspaces := t.workspaces.filter fun row => row != workspace
      quotas := t.quotas.filter fun row => row.workspace != workspace } := by
  have stays {other : String} (held : other ∈ t.quotas.map Quota.workspace)
      (apart : other ≠ workspace) :
      other ∈ (t.quotas.filter fun row => row.workspace != workspace).map Quota.workspace := by
    obtain ⟨row, member, rfl⟩ := List.mem_map.mp held
    exact List.mem_map.mpr ⟨row, List.mem_filter.mpr ⟨member, bne_iff_ne.mpr apart⟩, rfl⟩
  refine { ledger with workspacesDrawn := ?_, quotas := ?_, quotasKnown := ?_, owes := ?_,
                       purgesOwe := ?_, exact := ?_, ceiling := ?_ }
  · exact fun other member => ledger.workspacesDrawn other (List.mem_of_mem_filter member)
  · exact ledger.quotas.sublist (List.filter_sublist.map Quota.workspace)
  · intro quota member
    obtain ⟨held, apart⟩ := List.mem_filter.mp member
    exact List.mem_filter.mpr ⟨ledger.quotasKnown quota held, apart⟩
  · exact fun row member => stays (ledger.owes row member) (objects row member)
  · intro purge member known
    obtain ⟨held, apart⟩ := List.mem_filter.mp known
    exact stays (ledger.purgesOwe purge member held) (bne_iff_ne.mp apart)
  · exact fun quota member => ledger.exact quota (List.mem_of_mem_filter member)
  · exact fun quota member => ledger.ceiling quota (List.mem_of_mem_filter member)

variable {stored : String → Descriptor → Prop} {gone drops : String → Prop}

theorem ledger_writes (ledger : Ledger drawn t) (writes : Writes drawn stored gone drops t after) :
    Ledger drawn after := by
  cases writes with
  | quota workspace known => exact ledger_quota ledger known
  | reserve workspace new reserved admitted distinct fresh born =>
      exact ledger_reserve ledger admitted distinct fresh born
  | planBytes | attach | dropPlans | dropBases | newBase | newPlan | pageWrite | abandon | retire
  | pins | identities | moveTask | dropTasks => exact ledger.same rfl rfl rfl rfl
  | protect ids expiresAt now =>
      exact ledger_objects ledger _ _ fun _ => ⟨rfl, rfl, rfl, rfl, rfl⟩
  | describe rows workspace now _ =>
      exact ledger_objects ledger _ _ fun _ => ⟨rfl, rfl, rfl, rfl, rfl⟩
  | verify receipts workspace now _ => exact ledger_verify ledger receipts workspace now
  | dropObjects picks _ => exact ledger_dropObjects ledger picks
  | publish plan holder commit now =>
      cases holder <;> exact ledger.same rfl rfl rfl rfl
  | claim picks at_ _ => exact ledger_claim ledger picks at_
  | complete object workspace _ => exact ledger_complete ledger object workspace
  | openTask task _ =>
      unfold Tables.openTask
      split <;> exact ledger.same rfl rfl rfl rfl
  | found workspace id _ unowed => exact ledger_found ledger id unowed
  | leave workspace _ _ objects => exact ledger_leave ledger objects

end Agentsfleet.Custody
