import Mathlib.Data.Finmap
import SimpleCDatabase.Command.Runs
import SimpleCDatabase.Command.Procedures

/-!
# The database as a finite map

What the database is for: a finite map from keys to byte strings, together with a number of
buckets, and what each command answers and does to it. The buckets matter to a client in one
respect only: a new key is refused when eight keys share its bucket. A table represents such a
state when its entries are, as a multiset, the entries of the map.

## Main definitions

* `MapCommand`, `MapCommand.Valid`, `MapCommand.toRequest`: the commands of a client.
* `MapState`, `MapStep`: the abstract database.
* `Hashtable.Stores`: the keys that a table stores.
* `Represents`: the tables that represent an abstract state.

## Main results

* `Represents.lookup_of_found`, `Represents.missing_iff`, `Represents.full_iff`: what the searches
  in a bucket find, in terms of the map.
-/

namespace SimpleCDatabase

open Buckets CString Hashtable

/-! ### The abstract database -/

/-- The commands of a client; a size is given as a numeral. -/
inductive MapCommand where
  | set (key value : List UInt8)
  | add (key value : List UInt8)
  | replace (key value : List UInt8)
  | get (key : List UInt8)
  | del (key : List UInt8)
  | exist (key : List UInt8)
  | clear
  | resize (numeral : List UInt8)

/-- The keys that `table_set` admits, without a `NUL`. -/
structure KeyAdmitted (key : List UInt8) : Prop where
  nul : 0 ∉ key
  pos : key ≠ []
  short : key.length < KEY_MAX_LEN

/-- A decimal numeral from 1 to `2 ^ 63`. -/
structure SizeNumeral (numeral : List UInt8) : Prop where
  ne_nil : numeral ≠ []
  digits : ∀ c ∈ numeral, isdigit c = true
  pos : 0 < digitsValue numeral
  le : digitsValue numeral ≤ 2 ^ 63

namespace MapCommand

/-- The keys are admitted, the sizes are numerals in range; values are arbitrary. -/
def Valid : MapCommand → Prop
  | set key _ | add key _ | replace key _ | get key | del key | exist key => KeyAdmitted key
  | clear => True
  | resize numeral => SizeNumeral numeral

/-- A command as it reaches the dispatcher. -/
def toRequest : MapCommand → Request
  | set key value => ⟨bytes "SET", 2, [key, value], [key.length, value.length]⟩
  | add key value => ⟨bytes "ADD", 2, [key, value], [key.length, value.length]⟩
  | replace key value => ⟨bytes "REPLACE", 2, [key, value], [key.length, value.length]⟩
  | get key => ⟨bytes "GET", 1, [key], [key.length]⟩
  | del key => ⟨bytes "DEL", 1, [key], [key.length]⟩
  | exist key => ⟨bytes "EXIST", 1, [key], [key.length]⟩
  | clear => ⟨bytes "CLEAR", 0, [], []⟩
  | resize numeral => ⟨bytes "RESIZE", 1, [numeral], [numeral.length]⟩

end MapCommand

/-- A finite map from keys to values. -/
abbrev KeyMap : Type := Finmap fun _ : List UInt8 => List UInt8

/-- An abstract state: a finite map and a number of buckets. -/
structure MapState where
  map : KeyMap
  bucketsCount : UInt64

namespace MapState

variable (s : MapState) (key : List UInt8)

/-- The number of stored keys that share the bucket of `key`. -/
def crowd : ℕ :=
  (s.map.keys.filter fun k =>
    hash k &&& (s.bucketsCount - 1) = hash key &&& (s.bucketsCount - 1)).card

/-- The state with a value for `key`. -/
def insert (value : List UInt8) : MapState := { s with map := s.map.insert key value }

/-- The state without `key`. -/
def erase : MapState := { s with map := s.map.erase key }

end MapState

/-- A command that should be accepted succeeds and leaves the state `next`; another one fails and
leaves the state `s`. -/
def Answers (accepted succeeds : Prop) (s next s' : MapState) : Prop :=
  (accepted → succeeds ∧ s' = next) ∧ (¬accepted → ¬succeeds ∧ s' = s)

/-- A resize for `N` buckets leaves the map as it is; when it succeeds, the number of buckets is
the least power of two from `N` on. -/
def Resized (N : ℕ) (s : MapState) (succeeds : Prop) (s' : MapState) : Prop :=
  s'.map = s.map ∧
    ((succeeds ∧ s'.bucketsCount.toNat.isPowerOfTwo ∧ N ≤ s'.bucketsCount.toNat ∧
        s'.bucketsCount.toNat < 2 * N) ∨
      (¬succeeds ∧ s'.bucketsCount = s.bucketsCount))

/-- **The abstract database.** What a command answers, and the state it leaves. -/
def MapStep (s : MapState) : MapCommand → ExecuteResult → MapState → Prop
  | .get key, r, s' => s' = s ∧
      match s.map.lookup key with
      | some value => r.statusCode = 200 ∧ r.answer = some value
      | none => r.statusCode = 404
  | .exist key, r, s' => s' = s ∧ r.statusCode = 200 ∧
      r.answer = some (if key ∈ s.map then bytes "1" else bytes "0")
  | .set key value, r, s' => Answers (¬(key ∉ s.map ∧ s.crowd key = 8)) (r.statusCode = 200)
      s (s.insert key value) s'
  | .add key value, r, s' => Answers (¬(key ∈ s.map ∨ s.crowd key = 8)) (r.statusCode = 200)
      s (s.insert key value) s'
  | .replace key value, r, s' => Answers (key ∈ s.map) (r.statusCode = 200)
      s (s.insert key value) s'
  | .del key, r, s' => Answers (key ∈ s.map) (r.statusCode = 200) s (s.erase key) s'
  | .clear, r, s' => r.statusCode = 200 ∧ s' = { s with map := ∅ }
  | .resize numeral, r, s' => Resized (digitsValue numeral) s (r.statusCode = 200) s'

/-! ### Representation -/

/-- The key of a stored entry. -/
def Slot.keyString {α : Type} (slot : Slot α) : List UInt8 := cstr slot.key.1

/-- An entry of a table, as a key with a value. -/
def Slot.pair (slot : Slot DataEntry) : List UInt8 × Option (List UInt8) :=
  (slot.keyString, slot.value.map fun b => b.val.data)

/-- The entries of a map, as keys with values. -/
def mapPairs (m : KeyMap) : Multiset (List UInt8 × Option (List UInt8)) :=
  m.entries.map fun e => (e.1, some e.2)

/-- **Representation.** The entries of the table are those of the map, each stored under the hash
of its key. -/
structure Represents (t : Hashtable DataEntry) (s : MapState) : Prop where
  wellFormed : t.WellFormed
  bucketsCount : t.bucketsCount = s.bucketsCount
  hashes : ∀ slot ∈ t.entries, slot.hash = hash slot.keyString
  pairs : t.entries.map Slot.pair = mapPairs s.map

theorem KeyAdmitted.cstr_eq {key : List UInt8} (h : KeyAdmitted key) : cstr key = key :=
  cstr_of_zero_notMem h.nul

theorem KeyAdmitted.valid {key : List UInt8} (h : KeyAdmitted key) : isKeyValid key = true := by
  rw [isKeyValid_iff, h.cstr_eq]
  exact h.pos

theorem KeyAdmitted.ustrlen_lt {key : List UInt8} (h : KeyAdmitted key) :
    ustrlen key < KEY_MAX_LEN := by
  rw [ustrlen_eq, h.cstr_eq]
  exact h.short

/-- The copy of an admitted key is the key. -/
theorem KeyAdmitted.cstr_copy {key : List UInt8} (h : KeyAdmitted key) (dest : KeyArray) :
    cstr (dest.copy key).1 = key := by
  have hcopy := cstr_ustrncpy (n := KEY_MAX_LEN) (by decide) dest.2.ge key
  rw [h.cstr_eq, List.take_of_length_le (Nat.le_sub_one_of_lt h.short)] at hcopy
  exact hcopy

/-! ### Stored keys -/

/-- An entry of the table is stored under `key`. An entry of a longer key that `ADD` has cut to
`key` has another hash in general, and does not count. -/
def Hashtable.Stores {α : Type} (t : Hashtable α) (key : List UInt8) : Prop :=
  ∃ slot ∈ t.entries, slot.hash = hash key ∧ slot.keyString = key

/-- A search of an admitted key fails exactly when the key is not stored. -/
theorem Hashtable.WellFormed.stores_iff {α : Type} {t : Hashtable α} (ht : t.WellFormed)
    {key : List UInt8} (hkey : KeyAdmitted key) : t.Stores key ↔ ¬t.Missing key := by
  constructor
  · rintro ⟨slot, hslot, hhash, hstring⟩ hmiss
    obtain ⟨i, hi, hheld⟩ := mem_contents.mp hslot
    have hhome : t.home slot = i := ht.placed i hi slot hheld
    obtain ⟨j, hj, hused⟩ := mem_held.mp hheld
    have hslotAt : t.slotAt key j = slot := by
      have hbucket : t.keyBucket key = i := by
        rw [keyBucket, ← hhash]
        exact hhome
      rw [slotAt, hbucket, hj]
    refine hmiss j (ht.found_iff.mpr ?_)
    rw [hslotAt, hkey.cstr_eq]
    exact ⟨hused, hhash, hstring⟩
  · intro hfound
    obtain ⟨j, hj⟩ := not_forall_not.mp hfound
    obtain ⟨hused, hhash, hstring⟩ := ht.found_iff.mp hj
    exact ⟨_, slotAt_mem_entries (ht.keyBucket_lt key) hused, hhash,
      hstring.trans hkey.cstr_eq⟩

/-! ### Entries of maps -/

section Entries

variable {m : KeyMap} {key value old : List UInt8}

theorem mem_mapPairs {v : Option (List UInt8)} :
    (key, v) ∈ mapPairs m ↔ ∃ x, v = some x ∧ m.lookup key = some x := by
  simp only [mapPairs, Multiset.mem_map, Prod.mk.injEq]
  constructor
  · rintro ⟨⟨k, x⟩, he, rfl, rfl⟩
    exact ⟨x, rfl, Finmap.mem_lookup_iff.mpr he⟩
  · rintro ⟨x, rfl, hx⟩
    exact ⟨⟨key, x⟩, Finmap.mem_lookup_iff.mp hx, rfl, rfl⟩

theorem keys_val_eq (m : KeyMap) : m.keys.val = (mapPairs m).map Prod.fst := by
  rw [mapPairs, Multiset.map_map]
  rfl

theorem mapPairs_insert (h : key ∉ m) :
    mapPairs (m.insert key value) = mapPairs m + {(key, some value)} := by
  rw [mapPairs, Finmap.entries_insert_of_notMem h, Multiset.map_cons, add_comm,
    Multiset.singleton_add]
  rfl

theorem mapPairs_erase (h : m.lookup key = some value) :
    mapPairs (m.erase key) + {(key, some value)} = mapPairs m := by
  have hm : (m.erase key).insert key value = m := by
    refine Finmap.ext_lookup fun k => ?_
    by_cases hk : k = key
    · rw [hk, Finmap.lookup_insert, h]
    · rw [Finmap.lookup_insert_of_ne _ hk, Finmap.lookup_erase_ne hk]
  rw [← mapPairs_insert Finmap.notMem_erase_self, hm]

theorem mapPairs_replace (h : m.lookup key = some old) :
    mapPairs (m.insert key value) + {(key, some old)} = mapPairs m + {(key, some value)} := by
  have hm : m.insert key value = (m.erase key).insert key value := by
    refine Finmap.ext_lookup fun k => ?_
    by_cases hk : k = key
    · rw [hk, Finmap.lookup_insert, Finmap.lookup_insert]
    · rw [Finmap.lookup_insert_of_ne _ hk, Finmap.lookup_insert_of_ne _ hk,
        Finmap.lookup_erase_ne hk]
  rw [hm, mapPairs_insert Finmap.notMem_erase_self, add_right_comm, mapPairs_erase h]

end Entries

/-! ### Searches in terms of the map -/

namespace Represents

variable {t : Hashtable DataEntry} {s : MapState} {key : List UInt8} {j : Fin BUCKET_CAPACITY}

/-- An entry of the table under `key` carries the value of the map. -/
theorem lookup_of_mem (h : Represents t s) {slot : Slot DataEntry} (hslot : slot ∈ t.entries)
    (hkey : slot.keyString = key) :
    ∃ b, slot.value = some b ∧ s.map.lookup key = some b.val.data := by
  have hpair : slot.pair ∈ mapPairs s.map := h.pairs ▸ Multiset.mem_map_of_mem _ hslot
  obtain ⟨x, hx, hlookup⟩ := mem_mapPairs.mp hpair
  obtain ⟨b, hb, rfl⟩ := Option.map_eq_some_iff.mp hx
  exact ⟨b, hb, hkey ▸ hlookup⟩

/-- A key of the map is the key of an entry of the table. -/
theorem exists_of_mem (h : Represents t s) (hkey : key ∈ s.map) :
    ∃ slot ∈ t.entries, slot.keyString = key := by
  obtain ⟨value, hvalue⟩ := Finmap.mem_iff.mp hkey
  have hpair : (key, some value) ∈ mapPairs s.map := mem_mapPairs.mpr ⟨value, rfl, hvalue⟩
  rw [← h.pairs] at hpair
  obtain ⟨slot, hslot, heq⟩ := Multiset.mem_map.mp hpair
  exact ⟨slot, hslot, congrArg Prod.fst heq⟩

/-- The test of the searches on a slot in use compares the keys. -/
theorem found_iff (h : Represents t s) (hkey : KeyAdmitted key) :
    t.Found key j ↔ (t.slotAt key j).inUse = true ∧ (t.slotAt key j).keyString = key := by
  rw [h.wellFormed.found_iff, hkey.cstr_eq]
  refine and_congr_right fun hused => and_iff_right_of_imp fun hstring => ?_
  have hmem := slotAt_mem_entries (h.wellFormed.keyBucket_lt key) hused
  exact (h.hashes _ hmem).trans (congrArg hash hstring)

/-- The slot that a search finds carries the value of the map. -/
theorem lookup_of_found (h : Represents t s) (hkey : KeyAdmitted key) (hfound : t.Found key j) :
    ∃ b, (t.slotAt key j).value = some b ∧ s.map.lookup key = some b.val.data :=
  h.lookup_of_mem (slotAt_mem_entries (h.wellFormed.keyBucket_lt key) hfound.inUse)
    ((h.found_iff hkey).mp hfound).2

theorem mem_of_found (h : Represents t s) (hkey : KeyAdmitted key) (hfound : t.Found key j) :
    key ∈ s.map := by
  obtain ⟨b, -, hlookup⟩ := h.lookup_of_found hkey hfound
  exact Finmap.mem_of_lookup_eq_some hlookup

/-- A search fails exactly on the keys outside the map. -/
theorem missing_iff (h : Represents t s) (hkey : KeyAdmitted key) :
    t.Missing key ↔ key ∉ s.map := by
  rw [← not_iff_not, ← h.wellFormed.stores_iff hkey, not_not]
  constructor
  · rintro ⟨slot, hslot, -, hstring⟩
    obtain ⟨b, -, hlookup⟩ := h.lookup_of_mem hslot hstring
    exact Finmap.mem_of_lookup_eq_some hlookup
  · intro hmem
    obtain ⟨slot, hslot, hstring⟩ := h.exists_of_mem hmem
    exact ⟨slot, hslot, (h.hashes slot hslot).trans (congrArg hash hstring), hstring⟩

/-- The keys that share a bucket are the entries of the bucket. -/
theorem crowd_eq (h : Represents t s) (key : List UInt8) :
    s.crowd key = (held Slot.inUse (t.buckets (t.keyBucket key))).card := by
  have hkeys : s.map.keys.val = t.entries.map Slot.keyString := by
    rw [keys_val_eq, ← h.pairs, Multiset.map_map]
    rfl
  rw [← filter_contents h.wellFormed.placed (h.wellFormed.keyBucket_lt key), MapState.crowd,
    Finset.card, Finset.filter_val, hkeys, Multiset.filter_map, Multiset.card_map]
  refine congrArg Multiset.card (Multiset.filter_congr fun slot hslot => ?_)
  rw [Function.comp_apply, ← h.hashes slot hslot, ← h.bucketsCount, ← UInt64.toNat_inj]
  rfl

/-- The bucket of a key is full exactly when eight keys share it. -/
theorem full_iff (h : Represents t s) (key : List UInt8) :
    t.Full key ↔ s.crowd key = 8 := by
  rw [h.crowd_eq]
  exact (card_held_eq_iff _).symm

end Represents

end SimpleCDatabase
