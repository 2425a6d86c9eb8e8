import SimpleCDatabase.Hashtable.Invariant

/-!
# Keys in a table

The searches compare a whole key with the stored copies, which are cut to one byte less than
their array. For keys that fit, a slot passes the test exactly when it holds the key, up to the
first `NUL`; the copy of a longer key never does. A write under one key leaves what the searches
find under another as it was.

## Main definitions

* `TableCall.Targets`: the calls that write under a key.
* `Hashtable.SameUnder`: two tables in which the searches find the same under a key.
* `TableCall.Accepted`: when a call that stores a value is not refused.

## Main results

* `Outcome.sameUnder`: a write under one key does not touch what is found under another.
* `tableGet_eq_of_sameUnder`, `tableExist_eq_of_sameUnder`: nor do the lookups see it.
* `tableSet_code_iff`, `tableAdd_code_iff`, `tableReplace_code_iff`: a store returns zero exactly
  when it is accepted.
* `found_insertAt`, `missing_insertAt`: whether an inserted key is found.
-/

namespace SimpleCDatabase

open CString Hashtable

variable {α : Type}

/-! ### The test of the searches -/

namespace Slot

variable {slot : Slot α} {h : UInt64} {key : List UInt8}

/-- A slot whose stored key is terminated passes the test for the key that it holds. -/
theorem matches_iff (hlen : (cstr slot.key.1).length < KEY_MAX_LEN) :
    slot.matches h key = true ↔
      slot.inUse = true ∧ slot.hash = h ∧ cstr slot.key.1 = cstr key := by
  simp only [Slot.matches, Bool.and_eq_true, beq_iff_eq, ustrncmp_eq_zero_iff hlen, and_assoc]

/-- A slot that passes the test for a key that fits holds it. -/
theorem cstr_key_of_matches (hkey : (cstr key).length < KEY_MAX_LEN)
    (hmatch : slot.matches h key = true) : cstr slot.key.1 = cstr key := by
  simp only [Slot.matches, Bool.and_eq_true, beq_iff_eq] at hmatch
  exact (ustrncmp_eq_zero_iff_of_right hkey).mp hmatch.2

/-- The copy of a key is the key cut to one byte less than the array. -/
theorem cstr_copy (dest : KeyArray) (key : List UInt8) :
    cstr (dest.copy key).1 = (cstr key).take (KEY_MAX_LEN - 1) :=
  cstr_ustrncpy (by decide) dest.2.ge key

theorem length_cstr_copy (dest : KeyArray) (key : List UInt8) :
    (cstr (dest.copy key).1).length < KEY_MAX_LEN :=
  (length_cstr_lt (KeyArray.zero_mem_copy dest key)).trans_eq (dest.copy key).2

/-- A slot filled with a key passes the test for `key'` exactly when that is the stored copy. -/
theorem matches_filled_iff {key' : List UInt8} (value : Option (Block α)) :
    (slot.filled key value).matches h key' = true ↔
      SimpleCDatabase.hash key = h ∧ (cstr key).take (KEY_MAX_LEN - 1) = cstr key' := by
  rw [matches_iff (length_cstr_copy slot.key key), ← cstr_copy slot.key key]
  exact and_iff_right rfl

end Slot

namespace Hashtable

variable {t t' : Hashtable α} {key key' : List UInt8} {j : Fin BUCKET_CAPACITY}

/-- The stored keys of a well-formed table are terminated, so the test compares hash and key. -/
theorem WellFormed.found_iff (ht : t.WellFormed) : t.Found key j ↔
    (t.slotAt key j).inUse = true ∧ (t.slotAt key j).hash = hash key ∧
      cstr (t.slotAt key j).key.1 = cstr key := by
  by_cases hused : (t.slotAt key j).inUse = true
  · have hmem := slotAt_mem_entries (ht.keyBucket_lt key) hused
    have hlen := length_cstr_lt (ht.terminated _ hmem)
    rw [(t.slotAt key j).key.2] at hlen
    exact Slot.matches_iff hlen
  · exact iff_of_false (fun hfound => hused hfound.inUse) fun h => hused h.1

theorem slotAt_insertAt_self (value : Option (Block α)) :
    (t.insertAt key j value).slotAt key j = (t.slotAt key j).filled key value :=
  setSlot_buckets_self t _ j _

/-- The slot of the insertion is found when the key fits. -/
theorem found_insertAt (hkey : (cstr key).length < KEY_MAX_LEN) (value : Option (Block α)) :
    (t.insertAt key j value).Found key j := by
  rw [Found, slotAt_insertAt_self, Slot.matches_filled_iff]
  exact ⟨rfl, List.take_of_length_le (Nat.le_sub_one_of_lt hkey)⟩

/-- The other slots are as they were. -/
theorem slotAt_insertAt_of_ne {i : Fin BUCKET_CAPACITY} (hi : i ≠ j) (value : Option (Block α)) :
    (t.insertAt key j value).slotAt key i = t.slotAt key i :=
  setSlot_buckets_of_ne t (p := (t.keyBucket key, i)) _ fun h => hi (congrArg Prod.snd h)

/-- A key that was missing is found in the slot of its insertion only. -/
theorem eq_of_found_insertAt {i : Fin BUCKET_CAPACITY} (hmiss : t.Missing key)
    {value : Option (Block α)} (hfound : (t.insertAt key j value).Found key i) : i = j := by
  by_contra hi
  rw [Found, slotAt_insertAt_of_ne hi] at hfound
  exact hmiss i hfound

/-- A key that does not fit is not found after its insertion. -/
theorem missing_insertAt (hkey : KEY_MAX_LEN ≤ (cstr key).length) (hmiss : t.Missing key)
    (value : Option (Block α)) : (t.insertAt key j value).Missing key := by
  intro i hfound
  obtain rfl := eq_of_found_insertAt hmiss hfound
  rw [Found, slotAt_insertAt_self, Slot.matches_filled_iff] at hfound
  have hlen := congrArg List.length hfound.2
  rw [List.length_take, KEY_MAX_LEN] at hlen
  rw [KEY_MAX_LEN] at hkey
  omega

/-! ### Other keys -/

/-- The searches of `key` find the same in both tables. -/
structure SameUnder (t t' : Hashtable α) (key : List UInt8) : Prop where
  bucket : t'.keyBucket key = t.keyBucket key
  matches_eq : ∀ j, (t'.slotAt key j).matches (hash key) key =
    (t.slotAt key j).matches (hash key) key
  value_eq : ∀ j, t.Found key j → (t'.slotAt key j).value = (t.slotAt key j).value

theorem SameUnder.refl (t : Hashtable α) (key : List UInt8) : SameUnder t t key :=
  ⟨rfl, fun _ => rfl, fun _ _ => rfl⟩

theorem SameUnder.bucketIndex (h : SameUnder t t' key) :
    t'.bucketIndex (hash key) = t.bucketIndex (hash key) :=
  h.bucket

/-- The write of a slot that does not pass the test for `key`, before and after. -/
theorem sameUnder_setSlot {i : ℕ} {slot : Slot α} {elemCount : UInt64}
    (hbefore : (t.buckets i j).matches (hash key) key = false)
    (hafter : slot.matches (hash key) key = false) :
    SameUnder t { t.setSlot i j slot with elemCount := elemCount } key := by
  have hslot (k : Fin BUCKET_CAPACITY) (hne : (t.keyBucket key, k) ≠ (i, j)) :
      { t.setSlot i j slot with elemCount := elemCount }.slotAt key k = t.slotAt key k :=
    setSlot_buckets_of_ne t slot hne
  refine ⟨rfl, fun k => ?_, fun k hfound => ?_⟩
  · by_cases hk : (t.keyBucket key, k) = (i, j)
    · obtain ⟨rfl, rfl⟩ := Prod.mk.inj hk
      have hself : { t.setSlot (t.keyBucket key) k slot with elemCount := elemCount }.slotAt key k =
          slot := setSlot_buckets_self t _ k slot
      rw [hself, hafter]
      exact hbefore.symm
    · rw [hslot k hk]
  · refine congrArg Slot.value (hslot k fun hk => ?_)
    obtain ⟨rfl, rfl⟩ := Prod.mk.inj hk
    exact Bool.false_ne_true (hbefore.symm.trans hfound)

end Hashtable

/-- The calls that write under `key`. -/
def TableCall.Targets (key : List UInt8) : TableCall α → Prop
  | .set k _ _ | .add k _ | .replace k _ _ | .delete k _ => k = key
  | _ => False

section Frame

variable {env : Env (Event α)} {t t' : Hashtable α} {key key' : List UInt8}

private theorem not_matches_of_found {j : Fin BUCKET_CAPACITY} {slot : Slot α}
    (hkey : (cstr key).length < KEY_MAX_LEN) (hne : cstr key ≠ cstr key')
    (hfound : t.Found key j) (hstored : slot.key = (t.slotAt key j).key) :
    slot.matches (hash key') key' = false := by
  have hstring := Slot.cstr_key_of_matches hkey hfound
  refine Bool.eq_false_iff.mpr fun hmatch => hne ?_
  rw [Slot.matches_iff (by rwa [hstored, hstring]), hstored, hstring] at hmatch
  exact hmatch.2.2

private theorem not_matches_of_unused {slot : Slot α} {h : UInt64} (hfree : slot.inUse = false) :
    slot.matches h key = false := by
  simp only [Slot.matches, hfree, Bool.false_and]

private theorem not_matches_filled {slot : Slot α} (hkey : (cstr key).length < KEY_MAX_LEN)
    (hne : cstr key ≠ cstr key') (value : Option (Block α)) :
    (slot.filled key value).matches (hash key') key' = false := by
  refine Bool.eq_false_iff.mpr fun hmatch => hne ?_
  rw [Slot.matches_filled_iff, List.take_of_length_le (Nat.le_sub_one_of_lt hkey)] at hmatch
  exact hmatch.2

/-- **A write under one key does not touch another.** The keys differ before their first `NUL`,
and the one written fits. -/
theorem Outcome.sameUnder {call : TableCall α} {code : ℤ} {ds : List (Block α)}
    (h : Outcome env t call code t' ds) (hcall : call.Targets key)
    (hkey : (cstr key).length < KEY_MAX_LEN) (hne : cstr key ≠ cstr key') :
    SameUnder t t' key' := by
  cases h with
  | refused _ => exact .refl t key'
  | read _ => exact .refl t key'
  | setFound _ hfound =>
    cases hcall
    exact sameUnder_setSlot (not_matches_of_found hkey hne hfound rfl)
      (not_matches_of_found hkey hne hfound rfl)
  | setInserted _ _ hfree =>
    cases hcall
    exact sameUnder_setSlot (not_matches_of_unused hfree) (not_matches_filled hkey hne _)
  | addInserted _ hfree =>
    cases hcall
    exact sameUnder_setSlot (not_matches_of_unused hfree) (not_matches_filled hkey hne _)
  | replaced hfound =>
    cases hcall
    exact sameUnder_setSlot (not_matches_of_found hkey hne hfound rfl)
      (not_matches_of_found hkey hne hfound rfl)
  | deleted hfound =>
    cases hcall
    exact sameUnder_setSlot (not_matches_of_found hkey hne hfound rfl) (not_matches_of_unused rfl)
  | cleared _ _ => exact hcall.elim
  | sameSize _ _ => exact hcall.elim
  | moved _ _ _ _ _ => exact hcall.elim

/-! ### Lookups -/

theorem findSlot_eq_of_sameUnder (h : SameUnder t t' key) (l : List (Fin BUCKET_CAPACITY)) :
    findSlot t' (t'.keyBucket key) (hash key) key l =
      findSlot t (t.keyBucket key) (hash key) key l := by
  induction l with
  | nil => rfl
  | cons j l ih =>
    refine Traced.ext fun log => ?_
    have hmatch := h.matches_eq j
    simp only [slotAt, h.bucket] at hmatch
    simp only [findSlot, readSlot, Traced.run_bind, Traced.run_emit, Traced.run_pure, h.bucket,
      hmatch]
    rw [h.bucket] at ih
    rw [ih]

/-- What the loop of `table_get` finds is the same, with the same events. -/
theorem findValue_eq_of_sameUnder (h : SameUnder t t' key) :
    findValue t' (t'.keyBucket key) (hash key) key =
      findValue t (t.keyBucket key) (hash key) key := by
  have hbucket := h.bucketIndex
  have hsearch := findSlot_eq_of_sameUnder h slotIndices
  simp only [keyBucket, hbucket] at hsearch ⊢
  refine Traced.ext fun log => ?_
  have hfind := (findSlot_ensures t key log).2
  simp only [findValue, Traced.run_bind, hsearch]
  cases hr : ((findSlot t (t.bucketIndex (hash key)) (hash key) key slotIndices).run log).1 with
  | none => rfl
  | some j =>
    rw [hr] at hfind
    have hvalue := h.value_eq j hfind
    simp only [slotAt, keyBucket, hbucket] at hvalue
    simp only [readSlot, Traced.run_bind, Traced.run_emit, Traced.run_pure, hvalue]

/-- `table_get` answers the same. -/
theorem tableGet_eq_of_sameUnder (h : SameUnder t t' key) (valueSizer : Option (α → ℕ)) :
    tableGet env t' key valueSizer = tableGet env t key valueSizer := by
  have hbucket := h.bucketIndex
  have hfind := findValue_eq_of_sameUnder h
  simp only [keyBucket, hbucket] at hfind
  cases valueSizer with
  | none => rfl
  | some valueSizer => simp only [tableGet, hfind, hbucket]

/-- `table_exist` answers the same. -/
theorem tableExist_eq_of_sameUnder (h : SameUnder t t' key) :
    tableExist env t' key = tableExist env t key := by
  have hbucket := h.bucketIndex
  have hfind := findSlot_eq_of_sameUnder h slotIndices
  simp only [keyBucket, hbucket] at hfind
  simp only [tableExist, hfind, hbucket]

end Frame

/-! ### Accepted stores -/

/-- When a call that stores a value is not refused: the lock of the bucket is granted, and the key
and its bucket are as the operation asks. -/
def TableCall.Accepted (env : Env (Event α)) (t : Hashtable α) (log : List (Event α)) :
    TableCall α → Prop
  | .set key _ _ => ustrlen key < KEY_MAX_LEN ∧ env.lock log (t.keyBucket key) = true ∧
      ¬(t.Missing key ∧ t.Full key)
  | .add key _ => env.lock log (t.keyBucket key) = true ∧ t.Missing key ∧ ¬t.Full key
  | .replace key _ _ => env.lock log (t.keyBucket key) = true ∧ ¬t.Missing key
  | _ => True

section Accepted

variable (env : Env (Event α)) (t : Hashtable α) (key : List UInt8) (value : Option (Block α))
  (d : Bool) (log : List (Event α))

private theorem not_full_of_free {j : Fin BUCKET_CAPACITY}
    (hfree : (t.slotAt key j).inUse = false) : ¬t.Full key :=
  fun hfull => Bool.false_ne_true (hfree.symm.trans (hfull j))

theorem tableSet_code_iff : (tableSet env t key value d).Ensures log fun r _ =>
    (r.1 = 0 ↔ (TableCall.set key value d).Accepted env t log) := by
  refine Traced.ensures_ite (fun hlen => ?_) fun hlen => ?_
  · exact iff_of_false (by decide : (-3 : ℤ) ≠ 0) fun h => absurd h.1 (not_lt.mpr hlen)
  have hlen : ustrlen key < KEY_MAX_LEN := not_le.mp hlen
  refine (wrlock_ensures env log _).bind ?_
  rintro ok new₁ ⟨hok, -⟩
  refine Traced.ensures_ite (fun htrue => ?_) fun hfalse => ?_
  · have hlock : env.lock log (t.keyBucket key) = true := hok.symm.trans htrue
    refine (findSlotOrEmpty_ensures t key _).bind ?_
    rintro ⟨_ | j, _ | i⟩ new₂ ⟨-, hr⟩
    · exact iff_of_false (by decide : (-2 : ℤ) ≠ 0) fun h => h.2.2 hr
    · exact iff_of_true rfl ⟨hlen, hlock, fun h => not_full_of_free t key hr.2 h.2⟩
    · exact iff_of_true rfl ⟨hlen, hlock, fun h => h.1 j hr⟩
    · exact iff_of_true rfl ⟨hlen, hlock, fun h => h.1 j hr⟩
  · exact iff_of_false (by decide : (-1 : ℤ) ≠ 0) fun h => hfalse (hok.trans h.2.1)

theorem tableAdd_code_iff : (tableAdd env t key value).Ensures log fun r _ =>
    (r.1 = 0 ↔ (TableCall.add key value).Accepted env t log) := by
  refine (wrlock_ensures env log _).bind ?_
  rintro ok new₁ ⟨hok, -⟩
  refine Traced.ensures_ite (fun htrue => ?_) fun hfalse => ?_
  · have hlock : env.lock log (t.keyBucket key) = true := hok.symm.trans htrue
    refine (findSlotOrEmpty_ensures t key _).bind ?_
    rintro ⟨_ | j, _ | i⟩ new₂ ⟨-, hr⟩
    · exact iff_of_false (by decide : (-2 : ℤ) ≠ 0) fun h => h.2.2 hr.2
    · exact iff_of_true rfl ⟨hlock, hr.1, not_full_of_free t key hr.2⟩
    · exact iff_of_false (by decide : (-3 : ℤ) ≠ 0) fun h => h.2.1 j hr
    · exact iff_of_false (by decide : (-3 : ℤ) ≠ 0) fun h => h.2.1 j hr
  · exact iff_of_false (by decide : (-1 : ℤ) ≠ 0) fun h => hfalse (hok.trans h.1)

theorem tableReplace_code_iff : (tableReplace env t key value d).Ensures log fun r _ =>
    (r.1 = 0 ↔ (TableCall.replace key value d).Accepted env t log) := by
  refine (wrlock_ensures env log _).bind ?_
  rintro ok new₁ ⟨hok, -⟩
  refine Traced.ensures_ite (fun htrue => ?_) fun hfalse => ?_
  · have hlock : env.lock log (t.keyBucket key) = true := hok.symm.trans htrue
    refine (findSlot_ensures t key _).bind ?_
    rintro (_ | j) new₂ ⟨-, hr⟩
    · exact iff_of_false (by decide : (-2 : ℤ) ≠ 0) fun h => h.2 hr
    · exact iff_of_true rfl ⟨hlock, fun h => h j hr⟩
  · exact iff_of_false (by decide : (-1 : ℤ) ≠ 0) fun h => hfalse (hok.trans h.1)

/-- A deletion returns zero exactly when the lock is granted and the key is found. -/
theorem tableDelete_code_iff : (tableDelete env t key d).Ensures log fun r _ =>
    (r.1 = 0 ↔ env.lock log (t.keyBucket key) = true ∧ ¬t.Missing key) := by
  refine (wrlock_ensures env log _).bind ?_
  rintro ok new₁ ⟨hok, -⟩
  refine Traced.ensures_ite (fun htrue => ?_) fun hfalse => ?_
  · have hlock : env.lock log (t.keyBucket key) = true := hok.symm.trans htrue
    refine (findSlot_ensures t key _).bind ?_
    rintro (_ | j) new₂ ⟨-, hr⟩
    · exact iff_of_false (by decide : (-1 : ℤ) ≠ 0) fun h => h.2 hr
    · exact iff_of_true rfl ⟨hlock, fun h => h j hr⟩
  · exact iff_of_false (by decide : (-2 : ℤ) ≠ 0) fun h => hfalse (hok.trans h.1)

end Accepted

end SimpleCDatabase
