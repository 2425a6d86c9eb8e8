import SimpleCDatabase.Command.Reachability
import SimpleCDatabase.Hashtable.Measures

/-!
# The replies to COUNT

`cmd_count` writes the member of the union that belongs to the subtype it was asked for, but not
the subtype of the result, which stays the first one; `execute_command` chooses the member to read
and its format by the latter. So three subtypes are answered with the number that was measured,
and the fraction of occupied buckets with the bits of its representation, as an integer.

## Main definitions

* `CmdCount.name`, `countRequest`: the command with its subtype.
* `CmdCount.rendered`: the text of a right reply, from the contents of the table.
* `CountRendered`: the reply is that text.
* `CmdCount.Measured`: the subtype is answered, with a number that `size_t` can hold.

## Main results

* `cmdCount_ensures`: the result of `cmd_count`.
* `countRendered_iff`, `count_rendered_iff`: when the reply is rendered from what was measured; that
  no lock outside the array is used is part of the law.

## References

* `src/command.c`, `cmd_count` and `execute_command`; `src/command.h`, `count_output`.
-/

namespace SimpleCDatabase

open CString Hashtable

/-! ### The command -/

namespace CmdCount

/-- The argument that `stocmdcount` reads as the subtype. -/
def name : CmdCount → List UInt8
  | CAPACITY => bytes "CAPACITY"
  | MEMORY_USAGE => bytes "MEMORY_USAGE"
  | TOTAL_ELEM => bytes "TOTAL_ELEM"
  | OCCUPIED_BUCKET => bytes "OCCUPIED_BUCKET"

theorem stocmdcount_name (type : CmdCount) : stocmdcount type.name = some type := by
  cases type <;> decide +kernel

/-- The text that answers a subtype, from what the table holds. -/
def rendered (t : Hashtable DataEntry) : CmdCount → List UInt8
  | CAPACITY => decimal (BUCKET_CAPACITY * t.bucketsCount.toNat)
  | MEMORY_USAGE => decimal (t.memoryUse stdValueSizer)
  | TOTAL_ELEM => decimal t.inUseCount
  | OCCUPIED_BUCKET => Double.fixed 2 (t.occupiedBuckets / t.bucketsCount.toNat)

/-- The subtypes whose result is read as it was written, and the tables on which it is the number
measured: the memory of the table fits into `size_t`, or happens to be the number that stands for
a refused lock. -/
def Measured (env : Env (Event DataEntry)) (t : Hashtable DataEntry)
    (log : List (Event DataEntry)) : CmdCount → Prop
  | CAPACITY | TOTAL_ELEM => True
  | MEMORY_USAGE =>
    if ReadLocksGranted env log t.bucketsCount.toNat then t.memoryUse stdValueSizer < 2 ^ 64
    else t.memoryUse stdValueSizer = 2 ^ 64 - 1
  | OCCUPIED_BUCKET => False

end CmdCount

/-- `COUNT` with a subtype. -/
def countRequest (type : CmdCount) : Request :=
  ⟨bytes "COUNT", 1, [type.name], [type.name.length]⟩

/-- The reply to `COUNT` is the text of what the table holds. -/
def CountRendered (t : Hashtable DataEntry) (type : CmdCount) (r : ExecuteResult) : Prop :=
  r.statusCode = 200 ∧ r.answer = some (type.rendered t)

/-! ### What is printed -/

section Printed

variable {env : Env (Event DataEntry)} {t : Hashtable DataEntry} {log : List (Event DataEntry)}
  {type : CmdCount}

/-- What `execute_command` reads of the union that `cmd_count` has written. -/
def CmdCount.printed (env : Env (Event DataEntry)) (t : Hashtable DataEntry)
    (log : List (Event DataEntry)) : CmdCount → UInt64
  | CAPACITY => tableCapacity t
  | MEMORY_USAGE => ((tableMemoryUsage env t (some stdValueSizer)).run log).1
  | TOTAL_ELEM => tableTotalElem t
  | OCCUPIED_BUCKET => Double.bits ((tableOccupiedBucketCounter env t).run log).1

/-- Every result of `cmd_count` has the first subtype. -/
theorem cmdCount_ensures {input : CommandData} (h : input.countType = type) :
    (cmdCount env t input).Ensures log fun r _ =>
      r.2 = t ∧ ∃ c, r.1 = .count .CAPACITY c ∧ c.asSizet = type.printed env t log := by
  rw [cmdCount, h]
  cases type with
  | CAPACITY => exact ⟨rfl, .counterS _, rfl, rfl⟩
  | MEMORY_USAGE => exact ⟨rfl, .counterS _, rfl, rfl⟩
  | TOTAL_ELEM => exact ⟨rfl, .counterS _, rfl, rfl⟩
  | OCCUPIED_BUCKET => exact ⟨rfl, .counterD _, rfl, rfl⟩

/-- A result of the first subtype is answered with a numeral. -/
theorem finalResult_count (c : CountValue) (log : List (Event DataEntry)) :
    (finalResult env (.count .CAPACITY c)).Ensures log fun r _ =>
      if env.alloc log ((decimal c.asSizet.toNat).length + 1) = true then
        r.statusCode = 200 ∧ r.answer = some (decimal c.asSizet.toNat)
      else r.statusCode = 500 := by
  have hlen : (decimal c.asSizet.toNat).length ≤ 20 :=
    length_decimal_le (by decide) (c.asSizet.toNat_lt.trans (by decide))
  refine Traced.ensures_ite (fun hlong => ?_) fun _ => ?_
  · have hlong : 64 ≤ (decimal c.asSizet.toNat).length := hlong
    omega
  refine (malloc_events env log _).bind ?_
  rintro ok new ⟨hok, -⟩
  rw [← hok]
  refine Traced.ensures_ite (fun htrue => ?_) fun hfalse => ?_
  · exact (if_pos htrue).mpr ⟨rfl, congrArg some List.take_length⟩
  · exact (createErrorResponse_internal env _ TCP_MEMORY_ERROR).mono fun r _ hr =>
      (if_neg hfalse).mpr hr

/-- The work of `COUNT`. -/
theorem perform_count (type : CmdCount) :
    ((countRequest type).perform env t).Ensures log fun p _ => ∃ c,
      p = .ok (.count .CAPACITY c, t) ∧ c.asSizet = type.printed env t log := by
  have hfind : findCommand (countRequest type).commandName =
      some ⟨bytes "COUNT", .COUNT, cmdCount, 1⟩ := rfl
  have hbuild : (buildCommandData env .COUNT (countRequest type).argv
      (countRequest type).argsLengths).Ensures log fun r new =>
        r = some { countType := type } ∧ new = [] := by
    have harg : stocmdcount (arg (countRequest type).argv 0) = some type := type.stocmdcount_name
    rw [buildCommandData, harg]
    exact ⟨rfl, rfl⟩
  rw [Request.perform, hfind]
  refine Traced.ensures_ite (fun hne => absurd rfl hne) fun _ => ?_
  refine hbuild.bind ?_
  rintro _ _ ⟨rfl, rfl⟩
  refine Traced.Ensures.bind (cmdCount_ensures rfl) ?_
  rintro ⟨result, t'⟩ new ⟨rfl, c, rfl, hc⟩
  exact ⟨c, rfl, hc⟩

/-- The element counter of a reachable table is the number of slots in use. -/
theorem Hashtable.Consistent.elemCount_eq (ht : t.Consistent) :
    t.elemCount.toNat = t.inUseCount := by
  rcases ht with hwell | ⟨hbuckets, hcount⟩
  · rw [hwell.count, t.card_entries]
  · rw [inUseCount, hbuckets, hcount]
    rfl

/-- The number of slots of a reachable table does not overflow. -/
theorem Hashtable.Consistent.tableCapacity_toNat (ht : t.Consistent) :
    (tableCapacity t).toNat = BUCKET_CAPACITY * t.bucketsCount.toNat := by
  have hsmall : t.bucketsCount.toNat * BUCKET_CAPACITY < 2 ^ 64 := by
    rcases ht with hwell | ⟨hbuckets, -⟩
    · have hbytes := hwell.bytes
      rw [SIZEOF_BUCKET] at hbytes
      rw [BUCKET_CAPACITY]
      omega
    · rw [hbuckets]
      decide
  have height : (UInt64.ofNat BUCKET_CAPACITY).toNat = BUCKET_CAPACITY := rfl
  rw [tableCapacity, UInt64.toNat_mul, height, Nat.mod_eq_of_lt hsmall, Nat.mul_comm]

/-- A numeral is not the form of a number with places. -/
theorem decimal_ne_fixed (n k : ℕ) (q : ℚ) : decimal n ≠ Double.fixed k q := by
  intro h
  have hpoint : 46 ∈ decimal n := by
    rw [h, Double.fixed]
    exact List.mem_append_right _ List.mem_cons_self
  exact absurd (isdigit_of_mem_decimal hpoint) (by decide)

/-- What is printed is what the table holds, where it is measured. -/
theorem printed_eq_iff (ht : t.Consistent) :
    decimal (type.printed env t log).toNat = type.rendered t ↔ type.Measured env t log := by
  cases type with
  | CAPACITY => exact iff_of_true (congrArg decimal ht.tableCapacity_toNat) trivial
  | TOTAL_ELEM => exact iff_of_true (congrArg decimal ht.elemCount_eq) trivial
  | OCCUPIED_BUCKET => exact iff_of_false (decimal_ne_fixed _ _ _) id
  | MEMORY_USAGE =>
    have hmemory := tableMemoryUsage_toNat env t stdValueSizer log
    rw [CmdCount.printed, CmdCount.rendered, decimal_injective.eq_iff, CmdCount.Measured, hmemory]
    split
    · exact Nat.mod_eq_iff_lt (by decide)
    · exact eq_comm

end Printed

/-- The text of a reply to COUNT, for every reachable table, subtype and pattern of failures. -/
theorem countRendered_iff (env : Env (Event DataEntry)) {t : Hashtable DataEntry}
    (ht : Reachable t) (log : List (Event DataEntry)) (type : CmdCount) :
    CountRendered t type (((countRequest type).execute env t).run log).1.1 ↔
      type.Measured env t log ∧
        env.alloc ((((countRequest type).perform env t).run log).2 ++ log)
          ((type.rendered t).length + 1) = true := by
  have hspec : ((countRequest type).execute env t).Ensures log fun r _ =>
      (CountRendered t type r.1 ↔ type.Measured env t log ∧
        env.alloc ((((countRequest type).perform env t).run log).2 ++ log)
          ((type.rendered t).length + 1) = true) := by
    have hperform : ((countRequest type).perform env t).Ensures log fun p new =>
        new = (((countRequest type).perform env t).run log).2 ∧
          ∃ c, p = .ok (.count .CAPACITY c, t) ∧ c.asSizet = type.printed env t log :=
      ⟨rfl, perform_count type⟩
    rw [execute_eq]
    refine hperform.bind ?_
    rintro _ new ⟨hnew, c, rfl, hc⟩
    rw [← hnew]
    refine (finalResult_count c _).bind fun r _ hr => ?_
    rw [hc] at hr
    have hprinted : decimal (type.printed env t log).toNat = type.rendered t ↔
        type.Measured env t log := printed_eq_iff ht.consistent
    change CountRendered t type r ↔ _
    by_cases hmeasured : type.Measured env t log
    · rw [hprinted.mpr hmeasured] at hr
      rw [and_iff_right hmeasured]
      by_cases hgranted : env.alloc (new ++ log) ((type.rendered t).length + 1) = true
      · exact iff_of_true ((if_pos hgranted).mp hr) hgranted
      · have hstatus := (if_neg hgranted).mp hr
        exact iff_of_false (fun h => absurd (hstatus.symm.trans h.1) (by decide)) hgranted
    · refine iff_of_false (fun h => hmeasured (hprinted.mp ?_)) fun h => hmeasured h.1
      split at hr
      · exact Option.some_inj.mp (hr.2.symm.trans h.2)
      · exact absurd (hr.symm.trans h.1) (by decide)
  exact hspec

/-- **When the reply to COUNT is rendered from what was measured**, with no lock outside the array,
for every reachable table, subtype and pattern of failures: the subtype is not that of the occupied
buckets, the memory of the table is measured under locks in the array, and the text is granted its
memory. -/
theorem count_rendered_iff (env : Env (Event DataEntry)) {t : Hashtable DataEntry}
    (ht : Reachable t) (log : List (Event DataEntry)) (type : CmdCount) :
    (CountRendered t type (((countRequest type).execute env t).run log).1.1 ∧
        LocksInside t.lockCount.toNat (((countRequest type).execute env t).run log).2) ↔
      (type.Measured env t log ∧
        env.alloc ((((countRequest type).perform env t).run log).2 ++ log)
          ((type.rendered t).length + 1) = true) ∧ (countRequest type).HasLocks env t log :=
  and_congr (countRendered_iff env ht log type) (execute_locksInside_iff env t log _)

private theorem reachable_fresh (n : UInt64) (h : ((tableCreate .granting n).run []).1 =
    some (.fresh n : Hashtable DataEntry)) : Reachable (.fresh n) := .created h

/-- Two values in the four buckets of a table. -/
def twoEntries : Hashtable DataEntry :=
  ((Traced.runOutputs (Request.execute .granting) (.fresh 4)
    [⟨bytes "SET", 2, [bytes "a", bytes "v"], [1, 1]⟩,
     ⟨bytes "SET", 2, [bytes "b", bytes "vw"], [1, 2]⟩]).run []).1.2

theorem reachable_twoEntries : Reachable twoEntries :=
  (reachable_fresh 4 rfl).runOutputs (by decide +kernel)

/-- The memory of a table with two values is measured under the locks of its buckets. -/
theorem memory_usage_rendered :
    CountRendered twoEntries .MEMORY_USAGE
        (((countRequest .MEMORY_USAGE).execute .granting twoEntries).run []).1.1 ∧
      CmdCount.MEMORY_USAGE.rendered twoEntries = bytes "8987" := by
  have hmeasured : CmdCount.MEMORY_USAGE.Measured .granting twoEntries [] := by
    rw [CmdCount.Measured]
    decide +kernel
  exact ⟨((count_rendered_iff .granting reachable_twoEntries [] .MEMORY_USAGE).mpr
    ⟨⟨hmeasured, rfl⟩, by decide +kernel⟩).1, by decide +kernel⟩

/-- One bucket with one entry: the reply on the occupied buckets is the bits of the fraction one. -/
theorem occupied_bucket_bits :
    ∃ t, Reachable t ∧ CmdCount.OCCUPIED_BUCKET.rendered t = bytes "1.00" ∧
      (((countRequest .OCCUPIED_BUCKET).execute .granting t).run []).1.1.answer =
        some (bytes "4607182418800017408") ∧
      ¬CountRendered t .OCCUPIED_BUCKET
        (((countRequest .OCCUPIED_BUCKET).execute .granting t).run []).1.1 := by
  refine ⟨(((⟨bytes "SET", 2, [bytes "k", bytes "v"], [1, 1]⟩ : Request).execute .granting
    (.fresh 1)).run []).1.2, ?_, by decide +kernel, by decide +kernel, fun h => ?_⟩
  · exact .executed (reachable_fresh 1 rfl) .granting [] _ (by decide +kernel)
  · exact absurd h.2 (by decide +kernel)

end SimpleCDatabase
