import SimpleCDatabase.Foundations.Buckets
import SimpleCDatabase.Hashtable.Events

/-!
# The contents of a table

What a table holds, as the multiset of its slots in use, and how the writes of the operations
change it. Every operation writes through one of four transformations of the table, which are
given names here.

## Main definitions

* `Hashtable.entries`, `Hashtable.values`: the slots in use and the value blocks they hold.
* `Slot.withValue`, `Slot.freed`, `Slot.filled`: the writes of the operations on a slot.
* `Hashtable.overwrite`, `Hashtable.insertAt`, `Hashtable.removeAt`: the same in the bucket
  of a key, with the element counter.

## Main results

* `Hashtable.entries_overwrite`, `Hashtable.entries_insertAt`, `Hashtable.entries_removeAt`.
* `clearSlots_spec`: clearing empties the slots it visits and destroys the values they held.
* `rehash_spec`: a rehash that succeeds moves every entry into the bucket of its hash.
-/

namespace SimpleCDatabase

open Buckets

variable {α : Type}

namespace Slot

variable (slot : Slot α)

/-- The slot with a new value. -/
def withValue (value : Option (Block α)) : Slot α := { slot with value := value }

/-- The slot given free; the bytes of its key stay. -/
def freed : Slot α := { slot with inUse := false, hash := 0, value := none }

/-- The slot with a new entry. -/
def filled (key : List UInt8) (value : Option (Block α)) : Slot α :=
  { inUse := true, hash := SimpleCDatabase.hash key, key := slot.key.copy key, value := value }

end Slot

namespace Hashtable

variable (t : Hashtable α) (key : List UInt8) (j : Fin BUCKET_CAPACITY)

/-- The slots in use. -/
def entries : Multiset (Slot α) := contents Slot.inUse t.buckets t.bucketsCount.toNat

/-- The value blocks of a multiset of slots. -/
def valuesOf (s : Multiset (Slot α)) : Multiset (Block α) := s.filterMap Slot.value

/-- The value blocks held by the slots in use. -/
def values : Multiset (Block α) := valuesOf t.entries

@[simp] theorem valuesOf_add (s s' : Multiset (Slot α)) :
    valuesOf (s + s') = valuesOf s + valuesOf s' :=
  Multiset.filterMap_add ..

@[simp] theorem valuesOf_zero : valuesOf (0 : Multiset (Slot α)) = 0 := rfl

@[simp] theorem valuesOf_singleton (slot : Slot α) :
    valuesOf {slot} = (slot.value.toList : Multiset (Block α)) := by
  cases h : slot.value <;> simp [valuesOf, ← Multiset.cons_zero, h]

/-- The bucket of a key. -/
def keyBucket : ℕ := t.bucketIndex (hash key)

/-- The slot `j` of the bucket of a key. -/
def slotAt : Slot α := t.buckets (t.keyBucket key) j

/-- A new value in slot `j` of the bucket of `key`. -/
def overwrite (value : Option (Block α)) : Hashtable α :=
  t.setSlot (t.keyBucket key) j ((t.slotAt key j).withValue value)

/-- A new entry in slot `j` of the bucket of `key`. -/
def insertAt (value : Option (Block α)) : Hashtable α :=
  { t.setSlot (t.keyBucket key) j ((t.slotAt key j).filled key value) with
    elemCount := t.elemCount + 1 }

/-- Slot `j` of the bucket of `key` given free. -/
def removeAt : Hashtable α :=
  { t.setSlot (t.keyBucket key) j (t.slotAt key j).freed with elemCount := t.elemCount - 1 }

/-! ### Writes of one slot -/

theorem entries_setSlot {i : ℕ} (hi : i < t.bucketsCount.toNat) (slot : Slot α) :
    (t.setSlot i j slot).entries + occupant Slot.inUse (t.buckets i j) =
      t.entries + occupant Slot.inUse slot :=
  contents_update_cell Slot.inUse t.buckets hi j slot

variable {t key j}

/-- What a table holds after the write of a slot is what it held before, or the new slot. -/
theorem mem_entries_setSlot {i : ℕ} (hi : i < t.bucketsCount.toNat) {slot s : Slot α}
    (h : s ∈ (t.setSlot i j slot).entries) : s ∈ t.entries ∨ s = slot ∧ slot.inUse = true := by
  have hmem : s ∈ (t.setSlot i j slot).entries + occupant Slot.inUse (t.buckets i j) :=
    Multiset.mem_add.mpr (.inl h)
  rw [t.entries_setSlot j hi] at hmem
  exact (Multiset.mem_add.mp hmem).imp_right mem_occupant.mp

theorem entries_overwrite (hi : t.keyBucket key < t.bucketsCount.toNat)
    (hused : (t.slotAt key j).inUse = true) (value : Option (Block α)) :
    (t.overwrite key j value).entries + {t.slotAt key j} =
      t.entries + {(t.slotAt key j).withValue value} := by
  have h := t.entries_setSlot j hi ((t.slotAt key j).withValue value)
  have hold : occupant Slot.inUse (t.slotAt key j) = {t.slotAt key j} := occupant_of_used hused
  rw [slotAt] at hold
  rwa [hold, occupant_of_used (c := (t.slotAt key j).withValue value) hused] at h

theorem entries_insertAt (hi : t.keyBucket key < t.bucketsCount.toNat)
    (hfree : (t.slotAt key j).inUse = false) (value : Option (Block α)) :
    (t.insertAt key j value).entries = t.entries + {(t.slotAt key j).filled key value} := by
  have h := t.entries_setSlot j hi ((t.slotAt key j).filled key value)
  have hold : occupant Slot.inUse (t.slotAt key j) = 0 := occupant_of_unused hfree
  rw [slotAt] at hold
  rwa [hold, add_zero, occupant_of_used rfl] at h

theorem entries_removeAt (hi : t.keyBucket key < t.bucketsCount.toNat)
    (hused : (t.slotAt key j).inUse = true) :
    (t.removeAt key j).entries + {t.slotAt key j} = t.entries := by
  have h := t.entries_setSlot j hi (t.slotAt key j).freed
  have hold : occupant Slot.inUse (t.slotAt key j) = {t.slotAt key j} := occupant_of_used hused
  rw [slotAt] at hold
  rwa [hold, occupant_of_unused rfl, add_zero] at h

theorem slotAt_mem_entries (hi : t.keyBucket key < t.bucketsCount.toNat)
    (hused : (t.slotAt key j).inUse = true) : t.slotAt key j ∈ t.entries :=
  mem_contents.mpr ⟨_, hi, mem_held.mpr ⟨j, rfl, hused⟩⟩

end Hashtable

open Hashtable

theorem mem_allSlots {n : ℕ} {p : ℕ × Fin BUCKET_CAPACITY} : p ∈ allSlots n ↔ p.1 < n := by
  simp only [allSlots, slotIndices, List.mem_flatMap, List.mem_range, List.mem_map]
  constructor
  · rintro ⟨i, hi, j, -, rfl⟩
    exact hi
  · intro h
    exact ⟨p.1, h, p.2, List.mem_finRange _, rfl⟩

theorem mem_slotIndices (j : Fin BUCKET_CAPACITY) : j ∈ slotIndices := List.mem_finRange j

/-! ### Clearing -/

theorem readSlot_ensures (t : Hashtable α) (i : ℕ) (j : Fin BUCKET_CAPACITY)
    (log : List (Event α)) : (readSlot t i j).Ensures log fun slot new =>
      slot = t.buckets i j ∧ Effects new [] [] 0 :=
  ⟨rfl, by simpa [readSlot] using effects_access (α := α) i⟩

theorem writeSlot_ensures (t : Hashtable α) (i : ℕ) (j : Fin BUCKET_CAPACITY) (slot : Slot α)
    (log : List (Event α)) : (writeSlot t i j slot).Ensures log fun t' new =>
      t' = t.setSlot i j slot ∧ Effects new [] [] 0 :=
  ⟨rfl, by simpa [writeSlot] using effects_access (α := α) i⟩

/-- The blocks passed to the value destroyer, if there is one, when `ds` are dropped. -/
def handed (d : Bool) (ds : List (Block α)) : List (Block α) := if d then ds else []

@[simp] theorem handed_nil (d : Bool) : handed d ([] : List (Block α)) = [] := by
  cases d <;> rfl

@[simp] theorem handed_append (d : Bool) (ds ds' : List (Block α)) :
    handed d (ds ++ ds') = handed d ds ++ handed d ds' := by
  cases d <;> rfl

theorem callDestroyer_ensures (d : Bool) (v : Option (Block α)) (log : List (Event α)) :
    (callDestroyer d v).Ensures log fun _ new =>
      Effects new (handed d v.toList) [] 0 := by
  cases v with
  | none => cases d <;> exact Effects.nil
  | some b =>
    cases d
    · exact Effects.nil
    · exact effects_destroy b

/-- A table cleared on the slots `l`: they are not in use, the other slots and the counts are
unchanged. -/
structure ClearedOn (t t' : Hashtable α) (l : List (ℕ × Fin BUCKET_CAPACITY)) : Prop where
  unused : ∀ p ∈ l, (t'.buckets p.1 p.2).inUse = false
  kept : ∀ p, p ∉ l → t'.buckets p.1 p.2 = t.buckets p.1 p.2
  bucketsCount : t'.bucketsCount = t.bucketsCount
  elemCount : t'.elemCount = t.elemCount
  lockCount : t'.lockCount = t.lockCount

theorem setSlot_buckets_of_ne (t : Hashtable α) {i : ℕ} {j : Fin BUCKET_CAPACITY}
    (slot : Slot α) {p : ℕ × Fin BUCKET_CAPACITY} (hp : p ≠ (i, j)) :
    (t.setSlot i j slot).buckets p.1 p.2 = t.buckets p.1 p.2 := by
  by_cases hi : p.1 = i
  · have hj : p.2 ≠ j := fun hj => hp (Prod.ext hi hj)
    simp only [setSlot, hi, Function.update_self, Function.update_of_ne hj]
  · simp only [setSlot, Function.update_of_ne hi]

theorem setSlot_buckets_self (t : Hashtable α) (i : ℕ) (j : Fin BUCKET_CAPACITY)
    (slot : Slot α) : (t.setSlot i j slot).buckets i j = slot := by
  simp only [setSlot, Function.update_self]

/-- Clearing empties the slots it visits. The values it destroys are those that the table no
longer holds. -/
theorem clearSlots_spec (d : Bool) (t : Hashtable α) (l : List (ℕ × Fin BUCKET_CAPACITY))
    (hl : ∀ p ∈ l, p.1 < t.bucketsCount.toNat) (log : List (Event α)) :
    (clearSlots d t l).Ensures log fun t' new =>
      ClearedOn t t' l ∧ ∃ ds : List (Block α), Effects new (handed d ds) [] 0 ∧
        t'.values + (ds : Multiset (Block α)) = t.values := by
  induction l generalizing t log with
  | nil =>
    exact ⟨⟨by simp, fun _ _ => rfl, rfl, rfl, rfl⟩, [],
      by simpa [clearSlots] using Effects.nil, by simp [clearSlots]⟩
  | cons p l ih =>
    obtain ⟨i, j⟩ := p
    have hrest : ∀ p ∈ l, p.1 < t.bucketsCount.toNat := fun p hp =>
      hl p (List.mem_cons_of_mem _ hp)
    refine (readSlot_ensures t i j log).bind ?_
    rintro slot new₁ ⟨rfl, h₁⟩
    refine Traced.ensures_ite (fun hused => ?_) fun hused => ?_
    · let empty := (t.buckets i j).freed
      refine (callDestroyer_ensures d (t.buckets i j).value _).bind ?_
      intro _ new₂ h₂
      refine (writeSlot_ensures t i j empty _).bind ?_
      rintro _ new₃ ⟨rfl, h₃⟩
      refine (ih (t.setSlot i j empty) hrest _).mono ?_
      rintro t' new₄ ⟨hclear, ds, h₄, hvalues⟩
      have hlost := t.entries_setSlot j (hl (i, j) List.mem_cons_self) empty
      have hold : occupant Slot.inUse (t.buckets i j) = {t.buckets i j} := occupant_of_used hused
      rw [hold, occupant_of_unused rfl, add_zero] at hlost
      refine ⟨⟨?_, ?_, hclear.bucketsCount, hclear.elemCount, hclear.lockCount⟩,
        ds ++ (t.buckets i j).value.toList, ?_, ?_⟩
      · intro p hp
        by_cases hpl : p ∈ l
        · exact hclear.unused p hpl
        · obtain rfl : p = (i, j) := (List.mem_cons.mp hp).resolve_right hpl
          rw [hclear.kept _ hpl, setSlot_buckets_self]
          rfl
      · intro p hp
        rw [hclear.kept p fun h => hp (List.mem_cons_of_mem _ h),
          setSlot_buckets_of_ne t empty fun h => hp (h ▸ List.mem_cons_self)]
      · simpa using ((h₄.append h₃).append h₂).append h₁
      · have hval := congrArg valuesOf hlost
        rw [valuesOf_add, valuesOf_singleton] at hval
        rw [← Multiset.coe_add, ← add_assoc, hvalues]
        exact hval
    · refine (ih t hrest _).mono ?_
      rintro t' new₂ ⟨hclear, ds, h₂, hvalues⟩
      refine ⟨⟨?_, ?_, hclear.bucketsCount, hclear.elemCount, hclear.lockCount⟩, ds, ?_, hvalues⟩
      · intro p hp
        by_cases hpl : p ∈ l
        · exact hclear.unused p hpl
        · obtain rfl : p = (i, j) := (List.mem_cons.mp hp).resolve_right hpl
          rw [hclear.kept _ hpl]
          exact Bool.eq_false_iff.mpr hused
      · exact fun p hp => hclear.kept p fun h => hp (List.mem_cons_of_mem _ h)
      · simpa using h₂.append h₁

/-! ### Rehashing -/

/-- The first free slot receives the entry; there is none only when all slots are in use. -/
theorem placeEntry_spec (bucket : Bucket α) (slot : Slot α) (l : List (Fin BUCKET_CAPACITY)) :
    match placeEntry bucket slot l with
    | some bucket' => ∃ k ∈ l, (bucket k).inUse = false ∧
        bucket' = Function.update bucket k
          { inUse := true, hash := slot.hash, key := slot.key, value := slot.value }
    | none => ∀ k ∈ l, (bucket k).inUse = true := by
  induction l with
  | nil => simp [placeEntry]
  | cons k l ih =>
    rw [placeEntry]
    cases hk : (bucket k).inUse with
    | false => exact ⟨k, List.mem_cons_self, hk, rfl⟩
    | true =>
      simp only [Bool.true_eq_false, if_false]
      split <;> simp_all

/-- The slots in use among a list of slots. -/
def gathered (t : Hashtable α) (l : List (ℕ × Fin BUCKET_CAPACITY)) : Multiset (Slot α) :=
  (l.map fun p => occupant Slot.inUse (t.buckets p.1 p.2)).sum

@[simp] theorem gathered_nil (t : Hashtable α) : gathered t [] = 0 := rfl

@[simp] theorem gathered_cons (t : Hashtable α) (p : ℕ × Fin BUCKET_CAPACITY)
    (l : List (ℕ × Fin BUCKET_CAPACITY)) :
    gathered t (p :: l) = occupant Slot.inUse (t.buckets p.1 p.2) + gathered t l := by
  simp only [gathered, List.map_cons, List.sum_cons]

theorem gathered_append (t : Hashtable α) (l l' : List (ℕ × Fin BUCKET_CAPACITY)) :
    gathered t (l ++ l') = gathered t l + gathered t l' := by
  simp only [gathered, List.map_append, List.sum_append]

private theorem gathered_bucket (t : Hashtable α) (i : ℕ) :
    gathered t (slotIndices.map fun j => (i, j)) = held Slot.inUse (t.buckets i) := by
  rw [gathered, List.map_map, held, slotIndices, ← List.ofFn_eq_map, List.sum_ofFn]
  rfl

/-- The nested loops over buckets and slots visit what the table holds. -/
theorem gathered_allSlots (t : Hashtable α) (n : ℕ) :
    gathered t (allSlots n) = contents Slot.inUse t.buckets n := by
  induction n with
  | zero => rfl
  | succ n ih =>
    have hsplit : allSlots (n + 1) = allSlots n ++ slotIndices.map fun j => (n, j) := by
      simp only [allSlots, List.range_succ, List.flatMap_append, List.flatMap_singleton]
    rw [hsplit, gathered_append, ih, gathered_bucket, contents, contents, Finset.sum_range_succ]

/-- The bucket of a stored hash under the formula of the rehash. -/
def rehashHome (newCapacity : UInt64) (slot : Slot α) : ℕ := (slot.hash % newCapacity).toNat

theorem rehashHome_lt {N : UInt64} (hN : 0 < N.toNat) (slot : Slot α) :
    rehashHome N slot < N.toNat := by
  rw [rehashHome, UInt64.toNat_mod]
  exact Nat.mod_lt _ hN

/-- The buckets after one step of the rehash, when the destination bucket has a free slot `k`. -/
private theorem contents_place {nb : ℕ → Bucket α} {n i : ℕ} (hi : i < n)
    {k : Fin BUCKET_CAPACITY} (hk : (nb i k).inUse = false) {slot : Slot α}
    (hslot : slot.inUse = true) :
    contents Slot.inUse (Function.update nb i (Function.update (nb i) k slot)) n =
      contents Slot.inUse nb n + {slot} := by
  have h := contents_update_cell Slot.inUse nb hi k slot
  rwa [occupant_of_unused hk, add_zero, occupant_of_used hslot] at h

theorem rehash_effects (t : Hashtable α) (N : UInt64) (nb : ℕ → Bucket α)
    (l : List (ℕ × Fin BUCKET_CAPACITY)) (log : List (Event α)) :
    Effects ((rehash t N nb l).run log).2 [] [] 0 := by
  induction l generalizing nb log with
  | nil => exact Effects.nil
  | cons p l ih =>
    have h := effects_access (α := α) p.1
    simp only [rehash, readSlot, Traced.run_bind, Traced.run_ite]
    split
    · split
      · simpa using (ih _ _).append h
      · simpa using h
    · simpa using (ih _ _).append h

/-- **A rehash moves every entry or overflows a bucket.** When it succeeds, the new buckets hold
what they held and the slots in use that were visited, each in the bucket of its hash. It fails
only when more entries than a bucket has slots share a destination. All destinations lie below
`m`. -/
theorem rehash_spec (t : Hashtable α) {N : UInt64} {m : ℕ}
    (hm : ∀ slot : Slot α, rehashHome N slot < m) (nb : ℕ → Bucket α)
    (l : List (ℕ × Fin BUCKET_CAPACITY)) (hnb : Placed Slot.inUse (rehashHome N) nb m)
    (log : List (Event α)) :
    (rehash t N nb l).Ensures log fun r _ =>
      match r with
      | some nb' => Placed Slot.inUse (rehashHome N) nb' m ∧
          contents Slot.inUse nb' m = contents Slot.inUse nb m + gathered t l
      | none => ∃ i, BUCKET_CAPACITY < ((contents Slot.inUse nb m +
          gathered t l).filter fun slot => rehashHome N slot = i).card := by
  induction l generalizing nb log with
  | nil => exact ⟨hnb, by simp⟩
  | cons p l ih =>
    obtain ⟨i, j⟩ := p
    refine (readSlot_ensures t i j log).bind ?_
    rintro slot _ ⟨rfl, -⟩
    refine Traced.ensures_ite (fun hused => ?_) fun hused => ?_
    · have hgathered : gathered t ((i, j) :: l) = {t.buckets i j} + gathered t l := by
        rw [gathered_cons, occupant_of_used hused]
      have hhome := hm (t.buckets i j)
      have hplace := placeEntry_spec (nb (rehashHome N (t.buckets i j))) (t.buckets i j)
        slotIndices
      rw [hgathered]
      change Traced.Ensures (match placeEntry (nb (rehashHome N (t.buckets i j)))
        (t.buckets i j) slotIndices with
        | some bucket => rehash t N (Function.update nb (rehashHome N (t.buckets i j)) bucket) l
        | none => pure none) _ _
      split at hplace
      · next bucket' _ =>
        obtain ⟨k, -, hk, rfl⟩ := hplace
        have hmoved : (⟨true, (t.buckets i j).hash, (t.buckets i j).key, (t.buckets i j).value⟩ :
            Slot α) = t.buckets i j := by
          rw [← hused]
        simp only [hmoved]
        refine (ih _ (hnb.update_cell k fun _ => rfl) _).mono ?_
        intro r _ hr
        rw [contents_place hhome hk hused, add_assoc] at hr
        exact hr
      · next =>
        refine ⟨rehashHome N (t.buckets i j), ?_⟩
        have hfull : (held Slot.inUse (nb (rehashHome N (t.buckets i j)))).card =
            BUCKET_CAPACITY :=
          (card_held_eq_iff _).mpr fun k => hplace k (mem_slotIndices k)
        rw [Multiset.filter_add, Multiset.filter_add, filter_contents hnb hhome,
          Multiset.filter_singleton, if_pos rfl, Multiset.card_add, Multiset.card_add, hfull,
          Multiset.card_singleton]
        omega
    · refine (ih nb hnb _).mono ?_
      intro r _ hr
      rw [gathered_cons, occupant_of_unused (Bool.eq_false_iff.mpr hused), zero_add]
      exact hr

end SimpleCDatabase
