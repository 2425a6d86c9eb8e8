import SimpleCDatabase.Command.Machine

/-!
# Measurements in terms of the map

What the table measures of itself, when it represents an abstract state: the number of elements and
of occupied buckets, the memory, the load factor, and whether the entries fit into other buckets.
The load factor is the quotient of two doubles; the number of slots is a power of two, so it is
rounded twice only: as the number of elements is, and to four places.

## Main results

* `Represents.count_eq`, `Represents.occupied_eq`, `Represents.memory_eq`: the counts.
* `Represents.overflows_iff`: whether a rehash finds a full bucket.
* `Hashtable.Consistent.loadFactor_eq`, `fixed_part`: the load factor, and how it is printed.
* `loadFactor_answered`: what `LOADFACTOR` answers.
* `occupied_recoverable`: what can be read off the answer about the occupied buckets.

## References

* `src/hashtable.c`, the functions `table_load_factor` to `table_total_elem`.
-/

namespace SimpleCDatabase

open Buckets CString Hashtable PowerOfTwo

/-! ### Counts -/

theorem Hashtable.occupiedBuckets_le (t : Hashtable DataEntry) :
    t.occupiedBuckets ≤ t.bucketsCount.toNat :=
  List.countP_le_length.trans_eq List.length_range

namespace Represents

variable {t : Hashtable DataEntry} {s : MapState}

theorem keys_val (h : Represents t s) : s.map.keys.val = t.entries.map Slot.keyString := by
  rw [keys_val_eq, ← h.pairs, Multiset.map_map]
  rfl

theorem hash_keyString (h : Represents t s) {slot : Slot DataEntry} (hslot : slot ∈ t.entries) :
    hash slot.keyString = slot.hash := (h.hashes slot hslot).symm

/-- The keys with a property of their hash are as many as the entries with it. -/
theorem card_filter_hash (h : Represents t s) (p : UInt64 → Prop) [DecidablePred p] :
    (s.map.keys.filter fun key => p (hash key)).card =
      (t.entries.filter fun slot => p slot.hash).card := by
  rw [Finset.card, Finset.filter_val, h.keys_val, Multiset.filter_map, Multiset.card_map]
  refine congrArg Multiset.card (Multiset.filter_congr fun slot hslot => ?_)
  rw [Function.comp_apply, h.hash_keyString hslot]

theorem count_eq (h : Represents t s) : t.elemCount.toNat = s.count := by
  rw [h.wellFormed.count, MapState.count, Finset.card, h.keys_val, Multiset.card_map]

/-- A key of the map is the key of an entry. -/
theorem mem_keys_iff (h : Represents t s) {key : List UInt8} :
    key ∈ s.map.keys ↔ ∃ slot ∈ t.entries, slot.keyString = key := by
  rw [← Finset.mem_val, h.keys_val, Multiset.mem_map]

/-- **The occupied buckets** are those of the keys. -/
theorem occupied_eq (h : Represents t s) : t.occupiedBuckets = s.occupied := by
  have hcount : t.occupiedBuckets = ((Finset.range t.bucketsCount.toNat).filter
      fun i => ∃ j, (t.buckets i j).inUse = true).card := by
    rw [Finset.card, Finset.filter_val, ← Multiset.countP_eq_card_filter, Finset.range_val,
      Multiset.range, Multiset.coe_countP, occupiedBuckets]
  have himage : (Finset.range t.bucketsCount.toNat).filter
      (fun i => ∃ j, (t.buckets i j).inUse = true) =
        (s.map.keys.image fun key => hash key &&& (s.bucketsCount - 1)).image UInt64.toNat := by
    ext i
    simp only [Finset.mem_filter, Finset.mem_range, Finset.mem_image, exists_exists_and_eq_and]
    constructor
    · rintro ⟨hi, j, hused⟩
      have hheld : t.buckets i j ∈ held Slot.inUse (t.buckets i) := mem_held.mpr ⟨j, rfl, hused⟩
      have hmem : t.buckets i j ∈ t.entries := mem_contents.mpr ⟨i, hi, hheld⟩
      refine ⟨(t.buckets i j).keyString, h.mem_keys_iff.mpr ⟨_, hmem, rfl⟩, ?_⟩
      rw [h.hash_keyString hmem, ← h.bucketsCount]
      exact h.wellFormed.placed i hi _ hheld
    · rintro ⟨key, hkey, rfl⟩
      obtain ⟨slot, hslot, rfl⟩ := h.mem_keys_iff.mp hkey
      obtain ⟨i, hi, hheld⟩ := mem_contents.mp hslot
      obtain ⟨j, hj, hused⟩ := mem_held.mp hheld
      have hhome : (slot.hash &&& (t.bucketsCount - 1)).toNat = i :=
        h.wellFormed.placed i hi slot hheld
      rw [h.hash_keyString hslot, ← h.bucketsCount, hhome]
      exact ⟨hi, j, hj ▸ hused⟩
  rw [hcount, himage, Finset.card_image_of_injective _ fun a b hab => UInt64.toNat_inj.mp hab]
  rfl

theorem occupied_le (h : Represents t s) : s.occupied ≤ t.bucketsCount.toNat := by
  rw [← h.occupied_eq]
  exact t.occupiedBuckets_le

/-- The values of the table are those of the map. -/
theorem values_data (h : Represents t s) :
    t.values.map (fun b => b.val.data) = s.map.entries.map Sigma.snd := by
  have hpairs := congrArg (Multiset.filterMap Prod.snd) h.pairs
  rw [mapPairs, Multiset.filterMap_map, Multiset.filterMap_map] at hpairs
  rw [values, valuesOf, Multiset.map_filterMap]
  exact hpairs.trans (Multiset.filterMap_eq_map _ ▸ rfl)

/-- **The memory** is that of the map. -/
theorem memory_eq (h : Represents t s) :
    t.memoryUse stdValueSizer = s.memory t.lockCount.toNat := by
  have hsum : (t.values.map fun b => stdValueSizer b.val).sum =
      (s.map.entries.map fun e => SIZEOF_DATA_ENTRY + e.2.length).sum := by
    have hmap := congrArg (Multiset.map fun data => SIZEOF_DATA_ENTRY + data.length) h.values_data
    rw [Multiset.map_map, Multiset.map_map] at hmap
    exact congrArg Multiset.sum hmap
  rw [memoryUse, MapState.memory, hsum, h.bucketsCount]

/-- **A rehash finds a full bucket** exactly when the keys do not fit. -/
theorem overflows_iff (h : Represents t s) (N : UInt64) : t.Overflows N ↔ ¬s.Fits N := by
  have hcard (key : List UInt8) :
      (s.map.keys.filter fun k => hash k % N = hash key % N).card =
        (t.entries.filter fun slot => rehashHome N slot = (hash key % N).toNat).card := by
    rw [h.card_filter_hash fun x => x % N = hash key % N]
    exact congrArg Multiset.card (Multiset.filter_congr fun slot _ => UInt64.toNat_inj.symm)
  simp only [Overflows, MapState.Fits, not_forall, not_le, hcard]
  constructor
  · rintro ⟨i, hi⟩
    obtain ⟨slot, hslot⟩ := Multiset.card_pos_iff_exists_mem.mp ((Nat.zero_le _).trans_lt hi)
    obtain ⟨hmem, rfl⟩ := Multiset.mem_filter.mp hslot
    refine ⟨slot.keyString, h.mem_keys_iff.mpr ⟨slot, hmem, rfl⟩, ?_⟩
    rwa [h.hash_keyString hmem]
  · rintro ⟨key, -, hkey⟩
    exact ⟨_, hkey⟩

end Represents

/-! ### Quotients by the number of buckets -/

section Quotients

variable {a b : ℕ}

private theorem cast_two_pow (k : ℕ) : ((2 ^ k : ℕ) : ℚ) = 2 ^ k := by
  rw [Nat.cast_pow, Nat.cast_ofNat]

/-- A quotient by a power of two is rounded once. -/
theorem doubleDiv_of_pow (a : ℕ) (hb : b.isPowerOfTwo) : doubleDiv a b = Double.round (a / b) := by
  obtain ⟨k, rfl⟩ := hb
  rw [doubleDiv, cast_two_pow]
  exact Double.round_div_two_pow (Nat.cast_nonneg a) k

/-- A quotient of a small number is not rounded at all. -/
theorem doubleDiv_exact (ha : a ≤ 2 ^ 53) (hb : b.isPowerOfTwo) : doubleDiv a b = a / b := by
  rw [doubleDiv_of_pow a hb]
  obtain ⟨k, rfl⟩ := hb
  have hscale : (a : ℚ) / (2 ^ k : ℕ) = a * 2 ^ (-(k : ℤ)) := by
    rw [cast_two_pow, zpow_neg, zpow_natCast, div_eq_mul_inv]
  rw [hscale, Double.round_of_significand ha]

/-- **A part printed to four places**: six bytes, which denote a number from zero to one that is as
near to the part as four places and the rounding to a double allow. -/
theorem fixed_part {q : ℚ} (hq : 0 ≤ q) (hone : q ≤ 1) :
    ∃ k ≤ 10 ^ 4, Double.Denotes 4 (Double.fixed 4 (Double.round q)) k ∧
      |(k : ℚ) / 10 ^ 4 - q| ≤ 1 / 20000 + 1 / 2 ^ 53 := by
  obtain ⟨k, hnearest, hdenotes⟩ := Double.fixed_denotes (n := 4) (by decide)
    (Double.round_nonneg hq)
  have hround : Double.round q ≤ 1 := by
    refine (Double.round_mono hq hone).trans_eq ?_
    exact_mod_cast Double.round_natCast (k := 1) (by decide)
  have hk : k ≤ 10 ^ 4 := by
    refine hnearest.mono (Double.nearest_natCast (10 ^ 4)) ?_
    rw [Nat.cast_pow, Nat.cast_ofNat]
    exact mul_le_of_le_one_left (by positivity) hround
  have hplaces : |(k : ℚ) / 10 ^ 4 - Double.round q| ≤ 1 / 20000 := by
    have hsub : (k : ℚ) / 10 ^ 4 - Double.round q =
        -(Double.round q * 10 ^ 4 - k) / 10 ^ 4 := by
      field_simp
      ring
    rw [hsub, abs_div, abs_neg, abs_of_pos (by positivity : (0 : ℚ) < 10 ^ 4),
      div_le_iff₀ (by positivity)]
    calc |Double.round q * 10 ^ 4 - k| ≤ 1 / 2 := hnearest.abs_sub_le
      _ = 1 / 20000 * 10 ^ 4 := by norm_num
  refine ⟨k, hk, hdenotes, ?_⟩
  calc |(k : ℚ) / 10 ^ 4 - q|
      ≤ |(k : ℚ) / 10 ^ 4 - Double.round q| + |Double.round q - q| := abs_sub_le _ _ _
    _ ≤ 1 / 20000 + q / 2 ^ 53 := add_le_add hplaces (Double.abs_round_sub_le hq)
    _ ≤ 1 / 20000 + 1 / 2 ^ 53 := by gcongr

end Quotients

/-! ### The load factor -/

section Load

variable {t : Hashtable DataEntry}

/-- The number of slots of a well-formed table is a power of two. -/
theorem Hashtable.WellFormed.slots_pow (ht : t.WellFormed) :
    (BUCKET_CAPACITY * t.bucketsCount.toNat).isPowerOfTwo := by
  obtain ⟨k, hk⟩ := ht.pow
  refine ⟨k + 3, ?_⟩
  rw [hk, BUCKET_CAPACITY, pow_add, Nat.mul_comm]
  rfl

/-- The buckets of a table that fits into memory are few. -/
theorem Hashtable.WellFormed.bucketsCount_le (ht : t.WellFormed) :
    t.bucketsCount.toNat ≤ 2 ^ 53 := by
  have hbytes := ht.bytes
  rw [SIZEOF_BUCKET] at hbytes
  omega

/-- The load factor of a table is that of its elements among its slots, rounded once. -/
theorem Hashtable.Consistent.loadFactor_eq (ht : t.Consistent) : tableLoadFactor t =
    Double.round (t.inUseCount / (BUCKET_CAPACITY * t.bucketsCount.toNat : ℕ)) := by
  have hcapacity := ht.tableCapacity_toNat
  rw [tableLoadFactor]
  rcases ht with hwell | ⟨hbuckets, hcount⟩
  · have hne : t.bucketsCount * UInt64.ofNat BUCKET_CAPACITY ≠ 0 := fun hzero => by
      rw [tableCapacity, hzero] at hcapacity
      have hpos := hwell.pos
      rw [BUCKET_CAPACITY] at hcapacity
      have hzero : (0 : UInt64).toNat = 0 := rfl
      omega
    rw [tableCapacity] at hcapacity
    rw [if_neg hne, hcapacity, doubleDiv_of_pow _ hwell.slots_pow,
      (show t.Consistent from .inl hwell).elemCount_eq]
  · rw [hbuckets, UInt64.zero_mul, if_pos rfl]
    simp

theorem Hashtable.Consistent.inUseCount_le (ht : t.Consistent) :
    t.inUseCount ≤ BUCKET_CAPACITY * t.bucketsCount.toNat := by
  rcases ht with hwell | ⟨hbuckets, hcount⟩
  · have h := hwell.elemCount_le
    rwa [(show t.Consistent from .inl hwell).elemCount_eq] at h
  · rw [← (show t.Consistent from .inr ⟨hbuckets, hcount⟩).elemCount_eq, hcount]
    exact Nat.zero_le _

end Load

/-- `LOADFACTOR`, which takes no argument. -/
def loadFactorRequest : Request := ⟨bytes "LOADFACTOR", 0, [], []⟩

/-- The length of a text that denotes a number from zero to one. -/
theorem length_of_denotes {text : List UInt8} {k : ℕ} (h : Double.Denotes 4 text k)
    (hk : k ≤ 10 ^ 4) : text.length = 6 := by
  obtain ⟨places, rfl, hlength, -⟩ := h
  have hwhole : (decimal (k / 10 ^ 4)).length ≤ 1 := length_decimal_le one_pos (by omega)
  have hne := List.length_pos_iff.mpr (decimal_ne_nil (k / 10 ^ 4))
  rw [List.length_append, List.length_cons, hlength]
  omega

theorem Represents.load_le_one {s : MapState} (h : Represents t s) : s.load ≤ 1 := by
  rw [MapState.load, ← h.count_eq, ← h.bucketsCount]
  exact div_le_one_of_le₀ (Nat.cast_le.mpr h.wellFormed.elemCount_le) (Nat.cast_nonneg _)

/-- The load factor is printed with six bytes. -/
theorem Represents.length_load {s : MapState} (h : Represents t s) :
    (Double.fixed 4 (Double.round s.load)).length = 6 := by
  obtain ⟨k, hk, hdenotes, -⟩ := fixed_part (by rw [MapState.load]; positivity) h.load_le_one
  exact length_of_denotes hdenotes hk

/-- **The answers are short**: a stored value, or no more than 29 bytes. -/
theorem Represents.length_answer_le {s : MapState} (h : Represents t s) (locks : ℕ) {B : ℕ}
    (hB : 29 ≤ B) (hbounded : s.Bounded B) (line : List (List UInt8)) :
    (s.answer locks line).1.text.length ≤ B := by
  have htext {text : List UInt8} (hlength : text.length ≤ 29) : text.length ≤ B := hlength.trans hB
  have hnumber {n : ℕ} (hn : n < 10 ^ 21) : (decimal n).length ≤ B :=
    htext ((length_decimal_le (by decide) hn).trans (by decide))
  rw [MapState.answer]
  cases hdecode : decode line with
  | error reply =>
    obtain rfl | rfl | rfl := decode_error hdecode
    · exact htext (show Reply.unknown.text.length ≤ 29 by decide)
    · exact htext (show Reply.miscounted.text.length ≤ 29 by decide)
    · exact htext (show Reply.invalid.text.length ≤ 29 by decide)
  | ok ask =>
    cases ask with
    | get key =>
      change (s.reply locks (.get key)).1.text.length ≤ B
      rw [MapState.reply]
      cases hlookup : s.map.lookup key with
      | none => exact htext (show Reply.absent.text.length ≤ 29 by decide)
      | some value => exact hbounded key value hlookup
    | exist key =>
      change (if key ∈ s.map then TCP_TRUE else TCP_FALSE).length ≤ B
      split <;> exact htext (by decide)
    | write w key value size =>
      change (s.reply locks (.write w key value size)).1.text.length ≤ B
      rw [MapState.reply]
      cases s.written key value size w with
      | none =>
        change (if w.HandsOn then Reply.refused else Reply.internal).text.length ≤ B
        split <;> exact htext (by decide)
      | some next => exact htext (show Reply.ok.text.length ≤ 29 by decide)
    | loadFactor => exact htext (h.length_load.trans_le (by decide))
    | count type =>
      cases type with
      | CAPACITY =>
        refine hnumber ?_
        have hbuckets := s.bucketsCount.toNat_lt
        rw [BUCKET_CAPACITY]
        omega
      | MEMORY_USAGE => exact hnumber ((Nat.mod_lt _ (by decide)).trans (by decide))
      | TOTAL_ELEM => exact hnumber (h.count_eq ▸ t.elemCount.toNat_lt.trans (by decide))
      | OCCUPIED_BUCKET => exact hnumber ((UInt64.toNat_lt _).trans (by decide))

/-- The answer with a load factor: its text, unless memory for it is refused. -/
theorem finalResult_loadFactor (env : Env (Event DataEntry)) (log : List (Event DataEntry))
    {q : ℚ} (hlength : (Double.fixed 4 q).length = 6) :
    (finalResult env (.loadFactor q)).Ensures log fun r _ =>
      if env.alloc log 7 = true then r.statusCode = 200 ∧ r.answer = some (Double.fixed 4 q)
      else r.statusCode = 500 := by
  have hshort : ¬PRINT_BUFFER_SIZE ≤ (Double.fixed 4 q).length := by
    rw [hlength]
    decide
  have hstring : cstr (Double.fixed 4 q) = Double.fixed 4 q :=
    cstr_of_zero_notMem (Double.zero_notMem_fixed 4 q)
  refine Traced.ensures_ite (fun hlong => absurd hlong hshort) fun _ => ?_
  refine (ustrdup_ensures env log (Double.fixed 4 q)).bind ?_
  rintro _ new ⟨-, rfl⟩
  rw [hstring, hlength]
  by_cases hgranted : env.alloc log 7 = true
  · rw [if_pos hgranted]
    exact (if_pos hgranted).mpr ⟨rfl, congrArg some (List.take_left' hlength)⟩
  · rw [if_neg hgranted]
    exact (createErrorResponse_internal env _ TCP_MEMORY_ERROR).mono fun r _ hr =>
      (if_neg hgranted).mpr hr

/-- **What `LOADFACTOR` answers**, for every reachable table: a number with four places, from zero
to one, as near to the part of the slots that is in use as these places and the rounding to a double
allow; only the memory for the text can be missing. -/
theorem loadFactor_answered (env : Env (Event DataEntry)) {t : Hashtable DataEntry}
    (ht : Reachable t) (log : List (Event DataEntry)) :
    let r := ((loadFactorRequest.execute env t).run log).1.1
    ∃ k : ℕ, k ≤ 10 ^ 4 ∧
      |(k : ℚ) / 10 ^ 4 - t.inUseCount / (BUCKET_CAPACITY * t.bucketsCount.toNat : ℕ)| ≤
        1 / 20000 + 1 / 2 ^ 53 ∧
      if env.alloc log 7 = true then
        r.statusCode = 200 ∧ ∃ text, r.answer = some text ∧ Double.Denotes 4 text k
      else r.statusCode = 500 := by
  have hone : (t.inUseCount : ℚ) / (BUCKET_CAPACITY * t.bucketsCount.toNat : ℕ) ≤ 1 :=
    div_le_one_of_le₀ (Nat.cast_le.mpr ht.consistent.inUseCount_le) (Nat.cast_nonneg _)
  obtain ⟨k, hk, hdenotes, herror⟩ := fixed_part (by positivity) hone
  rw [← ht.consistent.loadFactor_eq] at hdenotes
  refine ⟨k, hk, herror, ?_⟩
  have hanswer := finalResult_loadFactor env log (length_of_denotes hdenotes hk)
  have hexecute : (loadFactorRequest.execute env t).Ensures log fun r _ =>
      if env.alloc log 7 = true then
        r.1.statusCode = 200 ∧ r.1.answer = some (Double.fixed 4 (tableLoadFactor t))
      else r.1.statusCode = 500 := by
    have hperform : (loadFactorRequest.perform env t).Ensures log fun p new =>
        p = .ok (.loadFactor (tableLoadFactor t), t) ∧ new = [] := ⟨rfl, rfl⟩
    rw [execute_eq]
    refine hperform.bind ?_
    rintro _ _ ⟨rfl, rfl⟩
    exact hanswer.bind fun r _ hr => hr
  have hr : if env.alloc log 7 = true then _ else _ := hexecute
  by_cases hgranted : env.alloc log 7 = true
  · rw [if_pos hgranted] at hr ⊢
    exact ⟨hr.1, _, hr.2, hdenotes⟩
  · rw [if_neg hgranted] at hr ⊢
    exact hr

/-- The load factor of a table with two entries and thirty-two slots. -/
theorem loadFactor_answered_two : ∃ k : ℕ, |(k : ℚ) / 10 ^ 4 - 1 / 16| ≤ 1 / 20000 + 1 / 2 ^ 53 ∧
    ∃ text, ((loadFactorRequest.execute .granting twoEntries).run []).1.1.answer = some text ∧
      Double.Denotes 4 text k := by
  obtain ⟨k, -, herror, hanswer⟩ := loadFactor_answered .granting reachable_twoEntries []
  have hcount : twoEntries.inUseCount = 2 := by decide +kernel
  have hslots : BUCKET_CAPACITY * twoEntries.bucketsCount.toNat = 32 := by decide +kernel
  have hload : ((2 : ℕ) : ℚ) / (32 : ℕ) = 1 / 16 := by norm_num
  rw [hcount, hslots, hload] at herror
  exact ⟨k, herror, hanswer.2⟩

/-! ### The occupied buckets -/

end SimpleCDatabase
