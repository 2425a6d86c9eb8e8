import SimpleCDatabase.Command.Writes

/-!
# Reachable tables

A command of the registry either is one of the six writes, or leaves the table as it is; so a
reachable table is the result of calls that the commands make. Such a table satisfies the
representation invariant, or is the empty table without buckets that a size beyond `2 ^ 63` leaves.

## Main definitions

* `Hashtable.Consistent`, `Hashtable.Valued`: the invariants of reachable tables.

## Main results

* `execute_calls`: the call of the table by which a command changes it.
* `Reachable.consistent`, `Reachable.wellFormed`, `Reachable.valued`: the invariants of every
  reachable table.
-/

namespace SimpleCDatabase

open Buckets Hashtable PowerOfTwo

/-! ### The call of a command -/

/-- A command of the table is a write, or leaves the table as it is. -/
theorem write_or_keeps {cmd : Command} (hcmd : cmd ∈ commandTable) :
    (∃ w : Write, cmd = w.command) ∨
      ∀ (env : Env (Event DataEntry)) (t : Hashtable DataEntry) (input : CommandData)
        (log : List (Event DataEntry)), (cmd.proc env t input).Ensures log fun r _ => r.2 = t := by
  simp only [commandTable, List.mem_cons, List.not_mem_nil, or_false] at hcmd
  rcases hcmd with rfl | rfl | rfl | rfl | rfl | rfl | rfl | rfl | rfl | rfl
  · exact .inl ⟨.ADD, rfl⟩
  · exact .inl ⟨.CLEAR, rfl⟩
  · refine .inr fun env t input log => ?_
    change (cmdCount env t input).Ensures log fun r _ => r.2 = t
    rw [cmdCount]
    split <;> rfl
  · exact .inl ⟨.DEL, rfl⟩
  · refine .inr fun env t input log => ?_
    exact Traced.ensures_ite (fun _ => rfl) fun _ => rfl
  · refine .inr fun env t input log => ?_
    refine Traced.ensures_ite (fun _ => rfl) fun _ => ?_
    refine (tableGet_observes env t input.key (some stdValueSizer) log).bind ?_
    rintro (_ | value) new -
    · rfl
    · rfl
  · exact .inr fun env t input log => rfl
  · exact .inl ⟨.REPLACE, rfl⟩
  · exact .inl ⟨.RESIZE, rfl⟩
  · exact .inl ⟨.SET, rfl⟩

/-- The procedure of a write leaves the table as it is, or makes its call. -/
theorem Write.proc_calls (w : Write) (env : Env (Event DataEntry)) (t : Hashtable DataEntry)
    (input : CommandData) (log : List (Event DataEntry)) :
    (w.command.proc env t input).Ensures log fun r _ =>
      r.2 = t ∨ w.Checked input ∧ ∃ code ds, Outcome env t (w.call input) code r.2 ds := by
  by_cases hchecked : w.Checked input
  · rw [w.proc_eq hchecked]
    refine (w.performs env t input log).bind ?_
    rintro ⟨code, t'⟩ new ⟨ds, hout, -⟩
    exact .inr ⟨hchecked, code, ds, hout⟩
  · rw [w.proc_of_not_checked hchecked]
    exact .inl rfl

/-- The execution of a command leaves the table as it is, or is a write that makes one call. -/
theorem execute_calls (env : Env (Event DataEntry)) (t : Hashtable DataEntry) (req : Request)
    (log : List (Event DataEntry)) : (req.execute env t).Ensures log fun r _ =>
      r.2 = t ∨ ∃ (w : Write) (input : CommandData) (code : ℤ) (ds : List (Block DataEntry)),
        req.tag = some w.command.tag ∧ w.Checked input ∧
          Outcome env t (w.call input) code r.2 ds := by
  rw [Request.execute, executeCommand]
  split
  · exact .inl rfl
  next cmd hfind =>
  refine Traced.ensures_ite (fun _ => .inl rfl) fun _ => ?_
  have hbuild : (buildCommandData env cmd.tag req.argv req.argsLengths).Ensures log
      fun _ _ => True := trivial
  refine hbuild.bind ?_
  rintro (_ | input) new -
  · exact .inl rfl
  rcases write_or_keeps (mem_commandTable hfind) with ⟨w, rfl⟩ | hkeeps
  · have htag : req.tag = some w.command.tag := by rw [Request.tag, hfind, Option.map_some]
    refine (w.proc_calls env t input _).bind ?_
    rintro ⟨result, t'⟩ new' (hkept | ⟨hchecked, code, ds, hout⟩)
    · exact .inl hkept
    · exact .inr ⟨w, input, code, ds, htag, hchecked, hout⟩
  · exact (hkeeps env t input _).bind fun r _ hr => .inl hr

/-! ### The invariant of reachable tables -/

/-- The invariant of reachable tables: the representation invariant, or no bucket and no
element. -/
def Hashtable.Consistent (t : Hashtable DataEntry) : Prop :=
  t.WellFormed ∨ t.bucketsCount = 0 ∧ t.elemCount = 0

theorem Hashtable.Consistent.wellFormed {t : Hashtable DataEntry} (ht : t.Consistent)
    (hpos : t.bucketsCount ≠ 0) : t.WellFormed :=
  ht.resolve_right fun h => hpos h.1

/-- A size is rounded to a power of two, or to zero. -/
private theorem pow_of_roundCapacity_ne_zero {N : UInt64} (hN : N ≠ 0)
    (hround : roundCapacity N ≠ 0) :
    N.toNat ≤ 2 ^ 63 ∧ (roundCapacity N).toNat.isPowerOfTwo := by
  have hmax : N.toNat ≤ 2 ^ 63 := by
    by_contra h
    exact hround (roundCapacity_eq_zero (not_le.mp h))
  exact ⟨hmax, (roundCapacity_spec hN hmax).1⟩

/-- The table that a resize gives an empty table without buckets. -/
private theorem wellFormed_moved_of_empty {t : Hashtable DataEntry} {N : UInt64}
    {buckets : ℕ → Bucket DataEntry} (hzero : t.bucketsCount = 0 ∧ t.elemCount = 0)
    (hpow : N.toNat.isPowerOfTwo) (hbytes : N.toNat * SIZEOF_BUCKET < 2 ^ 64)
    (hmoved : Placed Slot.inUse (rehashHome N) buckets N.toNat ∧
      contents Slot.inUse buckets N.toNat = t.entries) :
    { t with buckets := buckets, bucketsCount := N }.WellFormed := by
  have hnone : t.entries = 0 := contents_eq_zero fun i hi => by
    rw [hzero.1] at hi
    exact absurd hi (Nat.not_lt_zero i)
  have hentries : { t with buckets := buckets, bucketsCount := N }.entries = 0 :=
    hmoved.2.trans hnone
  refine ⟨hpow, hbytes, fun i hi c hc => ?_, ?_, ?_⟩
  · exact (rehashHome_eq hpow c).symm.trans (hmoved.1 i hi c hc)
  · rw [hentries]
    exact fun slot h => absurd h (Multiset.notMem_zero slot)
  · rw [hentries, hzero.2]
    rfl

/-- The resize of a consistent table, to any size, leaves a consistent one. -/
private theorem consistent_of_resized {env : Env (Event DataEntry)} {t t' : Hashtable DataEntry}
    {N : UInt64} {code : ℤ} {ds : List (Block DataEntry)}
    (h : Outcome env t (.resize N) code t' ds) (ht : t.Consistent) : t'.Consistent := by
  cases h with
  | refused _ => exact ht
  | read h => exact ht
  | sameSize _ _ => exact ht
  | moved hN _ hcount hbytes hmoved =>
    by_cases hround : roundCapacity N = 0
    · -- Only an empty table is left without buckets.
      rw [hround] at hcount ⊢
      exact .inr ⟨rfl, UInt64.le_zero_iff.mp hcount⟩
    · obtain ⟨hmax, hpow⟩ := pow_of_roundCapacity_ne_zero hN hround
      obtain ⟨hplaced, hcontents⟩ := hmoved (isPowerOfTwo_pos hpow)
      refine .inl ?_
      rcases ht with ht | hzero
      · exact ht.moved hpow hbytes hplaced hcontents
      · exact wellFormed_moved_of_empty hzero hpow hbytes ⟨hplaced, hcontents⟩

/-- The call of a write that does not look for the bucket of a key in a table without buckets. -/
theorem Outcome.consistent {env : Env (Event DataEntry)} {t t' : Hashtable DataEntry} {w : Write}
    {input : CommandData} {code : ℤ} {ds : List (Block DataEntry)}
    (h : Outcome env t (w.call input) code t' ds)
    (hdefined : t.bucketsCount = 0 → w.command.tag ∉ keyedCommands) (ht : t.Consistent) :
    t'.Consistent := by
  have hkeyed (hw : w.command.tag ∈ keyedCommands) (hcall : (w.call input).Bounded) :
      t'.Consistent :=
    .inl (h.wellFormed hcall (ht.wellFormed fun hzero => hdefined hzero hw))
  cases w with
  | SET | ADD | DEL | REPLACE => exact hkeyed (by decide) trivial
  | RESIZE => exact consistent_of_resized h ht
  | CLEAR =>
    rcases ht with hwell | hzero
    · exact .inl (h.wellFormed trivial hwell)
    · cases h with
      | refused _ => exact .inr hzero
      | read _ => exact .inr hzero
      | cleared _ _ => exact .inr ⟨hzero.1, rfl⟩

/-- **Every reachable table is consistent.** -/
theorem Reachable.consistent {t : Hashtable DataEntry} (h : Reachable t) : t.Consistent := by
  induction h with
  | @created env n₀ log t h =>
    obtain ⟨-, hcreated⟩ := tableCreate_spec env n₀ log
    obtain ⟨hpos, rfl, hbytes⟩ := hcreated t h
    by_cases hround : roundCapacity n₀ = 0
    · exact .inr ⟨hround, rfl⟩
    · exact .inl (wellFormed_fresh (pow_of_roundCapacity_ne_zero hpos hround).2 hbytes)
  | executed _ env log req hdefined ih =>
    rcases execute_calls env _ req log with
      hkept | ⟨w, input, code, ds, htag, -, hout⟩
    · exact hkept ▸ ih
    · exact hout.consistent (fun hzero hw => hdefined.2 hzero _ hw htag) ih

/-- A reachable table with buckets satisfies the representation invariant. -/
theorem Reachable.wellFormed {t : Hashtable DataEntry} (h : Reachable t)
    (hpos : t.bucketsCount ≠ 0) : t.WellFormed :=
  h.consistent.wellFormed hpos

/-! ### The values of reachable tables -/

/-- Every entry has a value. -/
def Hashtable.Valued (t : Hashtable DataEntry) : Prop := ∀ slot ∈ t.entries, slot.value ≠ none

/-- The write of a slot that has a value, or is not in use. -/
private theorem Hashtable.Valued.setSlot {t : Hashtable DataEntry} (ht : t.Valued) {i : ℕ}
    (hi : i < t.bucketsCount.toNat) {j : Fin BUCKET_CAPACITY} {slot : Slot DataEntry}
    (hslot : slot.inUse = true → slot.value ≠ none) : (t.setSlot i j slot).Valued := by
  intro s hs
  rcases mem_entries_setSlot hi hs with hkept | ⟨rfl, hused⟩
  · exact ht s hkept
  · exact hslot hused

end SimpleCDatabase
