import SimpleCDatabase.Hashtable.Invariant

/-!
# Ownership of the stored values

A call moves value blocks between three places: the slots in use, the blocks it drops and the
block it was given. The law of conservation says that none is duplicated on the way, and from it
each block is in at most one slot or destroyed at most once.

## Main definitions

* `Hashtable.idents`: the identities of the blocks in the slots in use, slot by slot.
* `Owned`: the identities of stored and destroyed blocks are distinct and not yet to come.

## Main results

* `Outcome.conservation`: the law of conservation of one call.
* `Owned.step`: storing a new block and moving blocks to the destroyed ones keeps identities
  distinct.
* `Owned.nodup_destroyed`: no block is destroyed twice.
-/

namespace SimpleCDatabase

open Buckets Hashtable PowerOfTwo

variable {α : Type}

section Values

variable {t : Hashtable α} (ht : t.WellFormed) {key : List UInt8} {j : Fin BUCKET_CAPACITY}

include ht

theorem values_overwrite (hfound : t.Found key j) (value : Option (Block α)) :
    (t.overwrite key j value).values + (t.slotAt key j).value.toList =
      t.values + value.toList := by
  have h := congrArg valuesOf (entries_overwrite (ht.keyBucket_lt key) hfound.inUse value)
  rw [valuesOf_add, valuesOf_add, valuesOf_singleton, valuesOf_singleton] at h
  exact h

theorem values_insertAt (hfree : (t.slotAt key j).inUse = false) (value : Option (Block α)) :
    (t.insertAt key j value).values = t.values + value.toList := by
  have h := congrArg valuesOf (entries_insertAt (ht.keyBucket_lt key) hfree value)
  rw [valuesOf_add, valuesOf_singleton] at h
  exact h

theorem values_removeAt (hfound : t.Found key j) :
    (t.removeAt key j).values + (t.slotAt key j).value.toList = t.values := by
  have h := congrArg valuesOf (entries_removeAt (ht.keyBucket_lt key) hfound.inUse)
  rw [valuesOf_add, valuesOf_singleton] at h
  exact h

end Values

/-- **The law of conservation.** What a call leaves in the table and what it drops are what was in
the table and, when the call succeeds, the block that it was given. -/
theorem Outcome.conservation {env : Env (Event α)} {t t' : Hashtable α} {call : TableCall α}
    {code : ℤ} {ds : List (Block α)} (h : Outcome env t call code t' ds)
    (hbounded : call.Bounded) (ht : t.WellFormed) :
    t'.values + (ds : Multiset (Block α)) =
      t.values + if code = 0 then (call.stores.toList : Multiset (Block α)) else 0 := by
  cases h with
  | refused h => simp [h.code_ne_zero]
  | read h => cases call <;> simp_all [TableCall.reads]
  | setFound _ hfound => exact values_overwrite ht hfound _
  | setInserted _ _ hfree => simpa using values_insertAt ht hfree _
  | addInserted _ hfree => simpa using values_insertAt ht hfree _
  | replaced hfound => exact values_overwrite ht hfound _
  | deleted hfound => simpa using values_removeAt ht hfound
  | cleared hbuckets hdropped =>
    have hempty : { t with buckets := _, elemCount := 0 }.entries = 0 := contents_eq_zero hbuckets
    simp [values, hempty, hdropped]
  | sameSize _ _ => simp
  | moved hN _ _ _ hmoved =>
    have hcontents := (hmoved (isPowerOfTwo_pos (roundCapacity_spec hN hbounded).1)).2
    have hentries : { t with buckets := _, bucketsCount := roundCapacity _ }.entries =
      t.entries := hcontents
    simp [values, hentries]

/-! ### Identities -/

/-- The identities of the blocks in the slots in use, slot by slot. -/
def Hashtable.idents (t : Hashtable α) : List ℕ :=
  (allSlots t.bucketsCount.toNat).filterMap fun p =>
    if (t.buckets p.1 p.2).inUse then (t.buckets p.1 p.2).value.map Block.ident else none

theorem Hashtable.coe_idents (t : Hashtable α) :
    (t.idents : Multiset ℕ) = t.values.map Block.ident := by
  have hlist (l : List (ℕ × Fin BUCKET_CAPACITY)) :
      ((l.filterMap fun p => if (t.buckets p.1 p.2).inUse then
        (t.buckets p.1 p.2).value.map Block.ident else none : List ℕ) : Multiset ℕ) =
        (valuesOf (gathered t l)).map Block.ident := by
    induction l with
    | nil => rfl
    | cons p l ih =>
      rw [gathered_cons, valuesOf_add, Multiset.map_add, ← ih, List.filterMap_cons]
      cases hused : (t.buckets p.1 p.2).inUse with
      | false => simp [occupant_of_unused hused]
      | true =>
        rw [occupant_of_used hused, valuesOf_singleton]
        cases (t.buckets p.1 p.2).value <;> simp
  rw [idents, hlist, gathered_allSlots, values, entries]

/-- The identities of the stored blocks `vs` and the destroyed blocks `ds` are distinct, and
below `n`, from where identities are given out. -/
structure Owned (vs : Multiset (Block α)) (ds : List (Block α)) (n : ℕ) : Prop where
  nodup : ((vs + (ds : Multiset (Block α))).map Block.ident).Nodup
  below : ∀ b ∈ vs + (ds : Multiset (Block α)), b.ident < n

/-- A new block that is stored, and blocks that move from the stored to the destroyed ones, keep
identities distinct. -/
theorem Owned.step {vs vs' : Multiset (Block α)} {ds ds' : List (Block α)} {n n' : ℕ}
    (h : Owned vs ds n) {new : Option (Block α)}
    (hlaw : vs' + (ds' : Multiset (Block α)) = vs + new.toList)
    (hfresh : ∀ b, new = some b → n ≤ b.ident ∧ b.ident < n') (hn : n ≤ n') :
    Owned vs' (ds' ++ ds) n' := by
  have hall : vs' + ((ds' ++ ds : List (Block α)) : Multiset (Block α)) =
      vs + (ds : Multiset (Block α)) + new.toList := by
    rw [← Multiset.coe_add, ← add_assoc, hlaw, add_right_comm]
  cases new with
  | none =>
    rw [Option.toList_none, Multiset.coe_nil, add_zero] at hall
    refine ⟨hall ▸ h.nodup, fun b hb => ?_⟩
    exact (h.below b (hall ▸ hb)).trans_le hn
  | some b =>
    obtain ⟨hle, hlt⟩ := hfresh b rfl
    rw [Option.toList_some, Multiset.coe_singleton] at hall
    constructor
    · rw [hall, Multiset.map_add, Multiset.map_singleton, add_comm, Multiset.singleton_add,
        Multiset.nodup_cons]
      refine ⟨fun hmem => ?_, h.nodup⟩
      obtain ⟨c, hc, hident⟩ := Multiset.mem_map.mp hmem
      exact absurd (h.below c hc) (not_lt.mpr (hident ▸ hle))
    · intro c hc
      rw [hall] at hc
      rcases Multiset.mem_add.mp hc with hc | hc
      · exact (h.below c hc).trans_le hn
      · rw [Multiset.mem_singleton.mp hc]
        exact hlt

/-- Blocks that move from the stored to the destroyed ones keep identities distinct. -/
theorem Owned.move {vs vs' : Multiset (Block α)} {ds ds' : List (Block α)} {n n' : ℕ}
    (h : Owned vs ds n) (hlaw : vs' + (ds' : Multiset (Block α)) = vs) (hn : n ≤ n') :
    Owned vs' (ds' ++ ds) n' := by
  have hnone : vs' + (ds' : Multiset (Block α)) = vs + (none : Option (Block α)).toList := by
    rw [hlaw, Option.toList_none, Multiset.coe_nil, add_zero]
  exact h.step hnone (fun _ hb => nomatch hb) hn

/-- The identities of destroyed blocks are distinct. -/
theorem Owned.nodup_destroyed {vs : Multiset (Block α)} {ds : List (Block α)} {n : ℕ}
    (h : Owned vs ds n) : (ds.map Block.ident).Nodup := by
  have hnodup := h.nodup
  rw [Multiset.map_add] at hnodup
  have hds := (Multiset.nodup_add.mp hnodup).2.1
  rwa [Multiset.map_coe, Multiset.coe_nodup] at hds

end SimpleCDatabase
