import Mathlib.Data.List.Basic
import Mathlib.Order.Lattice

/-!
# Finite maps in key order

A finite map is its list of entries, keys strictly ascending, so two maps with
the same lookups are equal and a fold over the entries visits them in key order.
-/

set_option autoImplicit false

namespace Agentsfleet.Library

structure SortedMap (K V : Type) [LinearOrder K] where
  entries : List (K × V)
  ascending : entries.Pairwise fun a b => a.1 < b.1

namespace SortedMap

variable {K V : Type} [LinearOrder K]

/-! ## Raw entry lists -/

def lookup (key : K) : List (K × V) → Option V
  | [] => none
  | (k, v) :: rest => if k = key then some v else lookup key rest

def place (key : K) (value : V) : List (K × V) → List (K × V)
  | [] => [(key, value)]
  | (k, v) :: rest =>
      if key < k then (key, value) :: (k, v) :: rest
      else if k = key then (key, value) :: rest
      else (k, v) :: place key value rest

theorem lookup_eq_none {key : K} {entries : List (K × V)}
    (absent : ∀ entry ∈ entries, entry.1 ≠ key) : lookup key entries = none := by
  induction entries with
  | nil => rfl
  | cons entry rest ih =>
      obtain ⟨k, v⟩ := entry
      have head : k ≠ key := absent (k, v) (List.mem_cons_self ..)
      rw [lookup, if_neg head]
      exact ih fun other member => absent other (List.mem_cons_of_mem _ member)

theorem lookup_place (key other : K) (value : V) (entries : List (K × V)) :
    lookup other (place key value entries) =
      if other = key then some value else lookup other entries := by
  induction entries with
  | nil => simp [place, lookup, eq_comm]
  | cons entry rest ih =>
      obtain ⟨k, v⟩ := entry
      by_cases before : key < k
      · simp [place, before, lookup, eq_comm]
      · by_cases same : k = key
        · subst same
          by_cases hit : other = k
          · simp [place, lookup, hit]
          · simp [place, lookup, hit, Ne.symm hit]
        · by_cases hit : other = k
          · subst hit
            simp [place, before, same, lookup]
          · simp [place, before, same, lookup, Ne.symm hit, ih]

theorem mem_place {key : K} {value : V} {entry : K × V} {entries : List (K × V)}
    (member : entry ∈ place key value entries) : entry = (key, value) ∨ entry ∈ entries := by
  induction entries with
  | nil => exact Or.inl (by simpa [place] using member)
  | cons head rest ih =>
      obtain ⟨k, v⟩ := head
      rw [place] at member
      split_ifs at member with before same
      · rcases List.mem_cons.mp member with rfl | inside
        · exact Or.inl rfl
        · exact Or.inr inside
      · rcases List.mem_cons.mp member with rfl | inside
        · exact Or.inl rfl
        · exact Or.inr (List.mem_cons_of_mem _ inside)
      · rcases List.mem_cons.mp member with rfl | inside
        · exact Or.inr (List.mem_cons_self ..)
        · exact (ih inside).imp id (List.mem_cons_of_mem _)

theorem place_ascending (key : K) (value : V) {entries : List (K × V)}
    (sorted : entries.Pairwise fun a b => a.1 < b.1) :
    (place key value entries).Pairwise fun a b => a.1 < b.1 := by
  induction entries with
  | nil => simp [place]
  | cons head rest ih =>
      obtain ⟨k, v⟩ := head
      obtain ⟨below, tail⟩ := List.pairwise_cons.mp sorted
      rw [place]
      split_ifs with before same
      · refine List.pairwise_cons.mpr ⟨?_, sorted⟩
        intro entry member
        rcases List.mem_cons.mp member with rfl | inside
        · exact before
        · exact lt_trans before (below entry inside)
      · subst same
        exact List.pairwise_cons.mpr ⟨below, tail⟩
      · refine List.pairwise_cons.mpr ⟨?_, ih tail⟩
        intro entry member
        rcases mem_place member with rfl | inside
        · exact lt_of_le_of_ne (not_lt.mp before) same
        · exact below entry inside

theorem length_place_le (key : K) (value : V) (entries : List (K × V)) :
    (place key value entries).length ≤ entries.length + 1 := by
  induction entries with
  | nil => simp [place]
  | cons head rest ih =>
      rw [place]
      split_ifs
      · simp
      · simp
      · simpa using ih

theorem lookup_filter (keep : K → Bool) (key : K) (entries : List (K × V)) :
    lookup key (entries.filter fun entry => keep entry.1) =
      if keep key then lookup key entries else none := by
  induction entries with
  | nil => simp [lookup]
  | cons head rest ih =>
      obtain ⟨k, v⟩ := head
      by_cases same : k = key
      · subst same
        cases kept : keep k <;> simp [lookup, kept, ih]
      · cases kept : keep k <;> simp [lookup, kept, same, ih]

theorem lookup_eq_some_iff {key : K} {value : V} {entries : List (K × V)}
    (sorted : entries.Pairwise fun a b => a.1 < b.1) :
    lookup key entries = some value ↔ (key, value) ∈ entries := by
  induction entries with
  | nil => simp [lookup]
  | cons head rest ih =>
      obtain ⟨k, v⟩ := head
      obtain ⟨below, tail⟩ := List.pairwise_cons.mp sorted
      by_cases same : k = key
      · subst same
        have outside : (k, value) ∉ rest := fun member => lt_irrefl k (below (k, value) member)
        simp [lookup, outside, eq_comm]
      · have head_ne : (key, value) ≠ (k, v) := fun e => same (congrArg Prod.fst e).symm
        simp [lookup, same, ih tail, head_ne]

/-! ## The map -/

def empty : SortedMap K V := ⟨[], List.Pairwise.nil⟩

def get (map : SortedMap K V) (key : K) : Option V := lookup key map.entries

def insert (map : SortedMap K V) (key : K) (value : V) : SortedMap K V :=
  ⟨place key value map.entries, place_ascending key value map.ascending⟩

/-- The map without the keys `keep` refuses. -/
def retain (map : SortedMap K V) (keep : K → Bool) : SortedMap K V :=
  ⟨map.entries.filter fun entry => keep entry.1, map.ascending.sublist List.filter_sublist⟩

def remove (map : SortedMap K V) (key : K) : SortedMap K V := map.retain fun k => k ≠ key

def keys (map : SortedMap K V) : List K := map.entries.map Prod.fst

def size (map : SortedMap K V) : Nat := map.entries.length

/-- The keys from `first` on, in order. -/
def keysFrom (map : SortedMap K V) (first : K) : List K := map.keys.dropWhile fun key => key < first

/-- Collected left to right, a later value replacing an earlier one. -/
def ofList (pairs : List (K × V)) : SortedMap K V :=
  pairs.foldl (fun map pair => map.insert pair.1 pair.2) empty

@[simp]
theorem get_empty (key : K) : (empty : SortedMap K V).get key = none := rfl

@[simp]
theorem get_insert (map : SortedMap K V) (key other : K) (value : V) :
    (map.insert key value).get other = if other = key then some value else map.get other :=
  lookup_place key other value map.entries

@[simp]
theorem get_retain (map : SortedMap K V) (keep : K → Bool) (key : K) :
    (map.retain keep).get key = if keep key then map.get key else none :=
  lookup_filter keep key map.entries

@[simp]
theorem get_remove (map : SortedMap K V) (key other : K) :
    (map.remove key).get other = if other = key then none else map.get other := by
  by_cases same : other = key <;> simp [remove, same]

theorem mem_entries_iff (map : SortedMap K V) (key : K) (value : V) :
    (key, value) ∈ map.entries ↔ map.get key = some value :=
  (lookup_eq_some_iff map.ascending).symm

theorem mem_keys_iff (map : SortedMap K V) (key : K) :
    key ∈ map.keys ↔ (map.get key).isSome := by
  rw [Option.isSome_iff_exists, keys]
  constructor
  · intro member
    obtain ⟨⟨k, v⟩, inside, rfl⟩ := List.mem_map.mp member
    exact ⟨v, (map.mem_entries_iff k v).mp inside⟩
  · rintro ⟨v, found⟩
    exact List.mem_map.mpr ⟨(key, v), (map.mem_entries_iff key v).mpr found, rfl⟩

theorem keys_ascending (map : SortedMap K V) : map.keys.Pairwise (· < ·) :=
  List.pairwise_map.mpr map.ascending

theorem keys_nodup (map : SortedMap K V) : map.keys.Nodup :=
  map.keys_ascending.imp fun below => ne_of_lt below

theorem mem_takeWhile_ascending {keys : List K} (sorted : keys.Pairwise (· < ·)) (first : K)
    {inside : K → Bool} (closed : ∀ a b, first ≤ a → a ≤ b → inside b = true → inside a = true)
    (after : ∀ key ∈ keys, first ≤ key) (key : K) :
    key ∈ keys.takeWhile inside ↔ key ∈ keys ∧ inside key = true := by
  induction keys with
  | nil => simp
  | cons head rest ih =>
      obtain ⟨below, tail⟩ := List.pairwise_cons.mp sorted
      have others := ih tail fun other member => after other (List.mem_cons_of_mem _ member)
      by_cases held : inside head = true
      · rw [List.takeWhile_cons_of_pos held, List.mem_cons, List.mem_cons, others]
        constructor
        · rintro (rfl | ⟨member, within⟩)
          · exact ⟨.inl rfl, held⟩
          · exact ⟨.inr member, within⟩
        · rintro ⟨rfl | member, within⟩
          · exact .inl rfl
          · exact .inr ⟨member, within⟩
      · rw [List.takeWhile_cons_of_neg held]
        constructor
        · intro member
          exact absurd member (by simp)
        · rintro ⟨member, within⟩
          have later : head ≤ key := by
            rcases List.mem_cons.mp member with rfl | inside_rest
            · exact le_refl _
            · exact (below key inside_rest).le
          exact absurd (closed head key (after head (List.mem_cons_self ..)) later within) held

/-- Keys of a kind that starts at `first` and has no gaps are found by walking
from `first` on while the kind holds. -/
theorem mem_takeWhile_keysFrom (map : SortedMap K V) (first : K) {inside : K → Bool}
    (least : ∀ key, inside key = true → first ≤ key)
    (closed : ∀ a b, first ≤ a → a ≤ b → inside b = true → inside a = true) (key : K) :
    key ∈ (map.keysFrom first).takeWhile inside ↔ key ∈ map.keys ∧ inside key = true := by
  unfold keysFrom
  generalize map.keys = keys, map.keys_ascending = sorted
  induction keys with
  | nil => simp
  | cons head rest ih =>
      obtain ⟨below, tail⟩ := List.pairwise_cons.mp sorted
      by_cases early : head < first
      · rw [List.dropWhile_cons_of_pos (by simpa using early), ih tail, List.mem_cons]
        constructor
        · rintro ⟨member, within⟩
          exact ⟨.inr member, within⟩
        · rintro ⟨rfl | member, within⟩
          · exact absurd early (not_lt.mpr (least _ within))
          · exact ⟨member, within⟩
      · rw [List.dropWhile_cons_of_neg (by simpa using early)]
        apply mem_takeWhile_ascending sorted first closed
        intro other member
        rcases List.mem_cons.mp member with rfl | inside_rest
        · exact not_lt.mp early
        · exact (not_lt.mp early).trans (below other inside_rest).le

theorem get_foldl_remove (keys : List K) (map : SortedMap K V) (key : K) :
    (keys.foldl remove map).get key = if key ∈ keys then none else map.get key := by
  induction keys generalizing map with
  | nil => simp
  | cons head rest ih =>
      rw [List.foldl_cons, ih, get_remove]
      by_cases same : key = head
      · simp [same]
      · simp [same]

theorem size_foldl_remove_le (keys : List K) (map : SortedMap K V) :
    (keys.foldl remove map).size ≤ map.size := by
  induction keys generalizing map with
  | nil => exact Nat.le_refl _
  | cons head rest ih => exact (ih _).trans (map.entries.filter_sublist.length_le)

theorem size_insert_le (map : SortedMap K V) (key : K) (value : V) :
    (map.insert key value).size ≤ map.size + 1 :=
  length_place_le key value map.entries

theorem size_retain_le (map : SortedMap K V) (keep : K → Bool) :
    (map.retain keep).size ≤ map.size :=
  List.filter_sublist.length_le

/-- What `take` makes of the map's values, where it makes one. -/
def filterMap {W : Type} (map : SortedMap K V) (take : K → V → Option W) : SortedMap K W where
  entries := map.entries.filterMap fun entry => (take entry.1 entry.2).map (entry.1, ·)
  ascending := by
    refine map.ascending.filterMap _ ?_
    intro first second below left made right again
    obtain ⟨_, _, rfl⟩ := Option.map_eq_some_iff.mp made
    obtain ⟨_, _, rfl⟩ := Option.map_eq_some_iff.mp again
    exact below

theorem lookup_filterMap {W : Type} (take : K → V → Option W) (key : K) {entries : List (K × V)}
    (sorted : entries.Pairwise fun a b => a.1 < b.1) :
    lookup key (entries.filterMap fun entry => (take entry.1 entry.2).map (entry.1, ·)) =
      (lookup key entries).bind (take key) := by
  induction entries with
  | nil => rfl
  | cons head rest ih =>
      obtain ⟨k, v⟩ := head
      obtain ⟨below, tail⟩ := List.pairwise_cons.mp sorted
      have others := ih tail
      by_cases same : k = key
      · subst same
        have absent : lookup k rest = none :=
          lookup_eq_none fun entry member => (ne_of_lt (below entry member)).symm
        cases taken : take k v with
        | none => simp [taken, lookup, others, absent]
        | some made => simp [taken, lookup]
      · cases taken : take k v with
        | none => simp [taken, lookup, others, same]
        | some made => simp [taken, lookup, others, same]

@[simp]
theorem get_filterMap {W : Type} (map : SortedMap K V) (take : K → V → Option W) (key : K) :
    (map.filterMap take).get key = (map.get key).bind (take key) :=
  lookup_filterMap take key map.ascending

/-- The map with `change` made to every value. -/
def map {W : Type} (map : SortedMap K V) (change : V → W) : SortedMap K W where
  entries := map.entries.map fun entry => (entry.1, change entry.2)
  ascending := List.pairwise_map.mpr map.ascending

@[simp]
theorem get_map {W : Type} (map : SortedMap K V) (change : V → W) (key : K) :
    (map.map change).get key = (map.get key).map change := by
  unfold get SortedMap.map
  simp only
  induction map.entries with
  | nil => rfl
  | cons head rest ih =>
      obtain ⟨k, v⟩ := head
      by_cases same : k = key
      · simp [lookup, same]
      · simp [lookup, same, ih]

@[simp]
theorem size_map {W : Type} (map : SortedMap K V) (change : V → W) :
    (map.map change).size = map.size :=
  List.length_map _

theorem ext_get {left right : SortedMap K V} (same : ∀ key, left.get key = right.get key) :
    left = right := by
  have members : ∀ entry, entry ∈ left.entries ↔ entry ∈ right.entries := by
    rintro ⟨key, value⟩
    rw [mem_entries_iff, mem_entries_iff, same key]
  have nodup : ∀ map : SortedMap K V, map.entries.Nodup := fun map =>
    map.ascending.imp fun below same => ne_of_lt below (congrArg Prod.fst same)
  have perm : left.entries.Perm right.entries :=
    (List.perm_ext_iff_of_nodup (nodup left) (nodup right)).mpr members
  have equal : left.entries = right.entries :=
    perm.eq_of_pairwise (fun _ _ _ _ ab ba => absurd ab (not_lt.mpr ba.le))
      left.ascending right.ascending
  cases left
  cases right
  cases equal
  rfl

theorem map_insert {W : Type} (map : SortedMap K V) (change : V → W) (key : K) (value : V) :
    (map.insert key value).map change = (map.map change).insert key (change value) := by
  apply ext_get
  intro other
  by_cases same : other = key
  · simp [same]
  · simp [same]

theorem insert_get (map : SortedMap K V) {key : K} {value : V}
    (found : map.get key = some value) : map.insert key value = map := by
  apply ext_get
  intro other
  by_cases same : other = key
  · simp [same, found]
  · simp [same]

theorem get_collected {pairs : List (K × V)} (apart : pairs.Pairwise fun a b => a.1 ≠ b.1)
    (map : SortedMap K V) (key : K) :
    (pairs.foldl (fun map pair => map.insert pair.1 pair.2) map).get key =
      (lookup key pairs).or (map.get key) := by
  induction pairs generalizing map with
  | nil => rfl
  | cons head rest ih =>
      obtain ⟨k, v⟩ := head
      obtain ⟨others, tail⟩ := List.pairwise_cons.mp apart
      rw [List.foldl_cons, ih tail, get_insert, lookup]
      by_cases same : key = k
      · subst same
        have absent : lookup key rest = none :=
          lookup_eq_none fun entry member => (others entry member).symm
        simp [absent]
      · simp [same, Ne.symm same]

theorem get_ofList {pairs : List (K × V)} (apart : pairs.Pairwise fun a b => a.1 ≠ b.1)
    (key : K) : (ofList pairs).get key = lookup key pairs := by
  rw [ofList, get_collected apart, get_empty, Option.or_none]

theorem ofList_entries (map : SortedMap K V) : ofList map.entries = map := by
  apply ext_get
  intro key
  exact get_ofList (map.ascending.imp fun below => ne_of_lt below) key

/-! ## Values -/

def values (map : SortedMap K V) : List V := map.entries.map Prod.snd

theorem values_map {W : Type} (map : SortedMap K V) (change : V → W) :
    (map.map change).values = map.values.map change := by
  simp only [values, SortedMap.map, List.map_map]
  rfl

theorem countP_place (matching : V → Bool) (key : K) (value : V) {entries : List (K × V)}
    (sorted : entries.Pairwise fun a b => a.1 < b.1) :
    ((place key value entries).map Prod.snd).countP matching +
        ((lookup key entries).filter matching).toList.length =
      (entries.map Prod.snd).countP matching + (if matching value then 1 else 0) := by
  induction entries with
  | nil => simp [place, lookup]
  | cons entry rest ih =>
      obtain ⟨k, v⟩ := entry
      obtain ⟨below, tail⟩ := List.pairwise_cons.mp sorted
      by_cases before : key < k
      · have absent : lookup key ((k, v) :: rest) = none := by
          apply lookup_eq_none
          intro other member
          rcases List.mem_cons.mp member with rfl | inside
          · exact (ne_of_lt before).symm
          · exact (ne_of_lt (lt_trans before (below other inside))).symm
        rw [absent, place, if_pos before]
        simp [List.countP_cons]
      · by_cases same : k = key
        · subst same
          rw [place, if_neg before, if_pos rfl, lookup, if_pos rfl]
          simp only [List.map_cons, List.countP_cons, Option.filter_some]
          by_cases counted : matching v = true
          · simp [counted]
            omega
          · simp [counted]
        · rw [place, if_neg before, if_neg same, lookup, if_neg same]
          simp only [List.map_cons, List.countP_cons]
          have rest_counts := ih tail
          omega

theorem countP_insert (matching : V → Bool) (map : SortedMap K V) (key : K) (value : V) :
    (map.insert key value).values.countP matching +
        ((map.get key).filter matching).toList.length =
      map.values.countP matching + (if matching value then 1 else 0) :=
  countP_place matching key value map.ascending

theorem values_place_perm (key : K) (value : V) {entries : List (K × V)}
    (sorted : entries.Pairwise fun a b => a.1 < b.1) :
    ((lookup key entries).toList ++ (place key value entries).map Prod.snd).Perm
      (value :: entries.map Prod.snd) := by
  induction entries with
  | nil => exact List.Perm.refl _
  | cons entry rest ih =>
      obtain ⟨k, v⟩ := entry
      obtain ⟨below, tail⟩ := List.pairwise_cons.mp sorted
      by_cases before : key < k
      · have absent : lookup key ((k, v) :: rest) = none := by
          apply lookup_eq_none
          intro other member
          rcases List.mem_cons.mp member with rfl | inside
          · exact (ne_of_lt before).symm
          · exact (ne_of_lt (lt_trans before (below other inside))).symm
        rw [absent, place, if_pos before]
        exact List.Perm.refl _
      · by_cases same : k = key
        · subst same
          rw [place, if_neg before, if_pos rfl, lookup, if_pos rfl]
          exact List.Perm.swap _ _ _
        · rw [place, if_neg before, if_neg same, lookup, if_neg same]
          exact (List.perm_middle.trans ((ih tail).cons v)).trans (List.Perm.swap _ _ _)

theorem values_insert_perm (map : SortedMap K V) (key : K) (value : V) :
    ((map.get key).toList ++ (map.insert key value).values).Perm (value :: map.values) :=
  values_place_perm key value map.ascending

theorem place_perm (key : K) (value : V) {entries : List (K × V)}
    (absent : lookup key entries = none) :
    (place key value entries).Perm ((key, value) :: entries) := by
  induction entries with
  | nil => exact List.Perm.refl _
  | cons entry rest ih =>
      obtain ⟨k, v⟩ := entry
      rw [lookup] at absent
      split at absent
      · nomatch absent
      next differ =>
        rw [place, if_neg differ]
        split
        · exact List.Perm.refl _
        · exact ((ih absent).cons _).trans (List.Perm.swap _ _ _)

theorem keys_insert_perm (map : SortedMap K V) {key : K} (value : V)
    (absent : map.get key = none) : (map.insert key value).keys.Perm (key :: map.keys) :=
  (place_perm key value absent).map Prod.fst

theorem keys_remove (map : SortedMap K V) (key : K) :
    (map.remove key).keys = map.keys.filter fun other => decide (other ≠ key) := by
  rw [keys, keys, List.filter_map]
  rfl

theorem keys_remove_perm (map : SortedMap K V) {key : K} (held : key ∈ map.keys) :
    (key :: (map.remove key).keys).Perm map.keys := by
  have same : (map.remove key).keys = map.keys.erase key := by
    rw [keys_remove, map.keys_nodup.erase_eq_filter]
    refine List.filter_congr fun other _ => ?_
    rw [Bool.eq_iff_iff, decide_eq_true_iff, bne_iff_ne]
  rw [same]
  exact (List.perm_cons_erase held).symm

theorem place_last {key : K} (value : V) {entries : List (K × V)}
    (above : ∀ entry ∈ entries, entry.1 < key) :
    place key value entries = entries ++ [(key, value)] := by
  induction entries with
  | nil => rfl
  | cons entry rest ih =>
      obtain ⟨k, v⟩ := entry
      have head : k < key := above (k, v) (List.mem_cons_self ..)
      rw [place, if_neg (lt_asymm head), if_neg (ne_of_lt head),
        ih fun other member => above other (List.mem_cons_of_mem _ member), List.cons_append]

theorem keys_insert_last (map : SortedMap K V) {key : K} (value : V)
    (above : ∀ other ∈ map.keys, other < key) :
    (map.insert key value).keys = map.keys ++ [key] := by
  have entries : (map.insert key value).entries = map.entries ++ [(key, value)] :=
    place_last value fun entry member => above entry.1 (List.mem_map_of_mem member)
  rw [keys, entries, List.map_append]
  rfl

theorem keys_map {W : Type} (map : SortedMap K V) (change : V → W) :
    (map.map change).keys = map.keys := by
  simp only [keys, SortedMap.map, List.map_map]
  rfl

theorem keys_insert_of_mem (map : SortedMap K V) {key : K} (value : V) (held : key ∈ map.keys) :
    (map.insert key value).keys = map.keys := by
  have same : (map.insert key value).map (fun _ => ()) = map.map fun _ => () := by
    rw [map_insert]
    apply insert_get
    obtain ⟨known, found⟩ := Option.isSome_iff_exists.mp ((map.mem_keys_iff key).mp held)
    simp [found]
  rw [← keys_map _ fun _ => (), same, keys_map]

end SortedMap

end Agentsfleet.Library
