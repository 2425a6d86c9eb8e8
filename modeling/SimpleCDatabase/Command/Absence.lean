import SimpleCDatabase.Command.MapModel
import SimpleCDatabase.Command.Reachability

/-!
# Lookups that find nothing, and lookups that fail

`table_get` and `table_exist` return the same for a key that is not stored and for a lock that is
refused, `table_get` also for a copy that is refused its memory; the commands `GET` and `EXIST` can
only report absence then. The deletion of a key, and the other allocations of `execute_command`,
tell the two apart. So a lookup answers by what is stored exactly when it gets its lock and the
memory of its copy, or when not even the text of its answer gets memory.

## Main definitions

* `HasFailure`: a lock or a request for memory was refused.
* `Lookup`, `Lookup.request`: the two commands.
* `FailuresToldFromAbsence`: absence is reported only of keys that are not stored, a failure with
  status 500.
* `Lookup.Served`, `Lookup.TextRefused`: what the C library grants a lookup.

## Main results

* `tableGet_hasFailure_iff`, `tableExist_hasFailure_iff`: when a lookup of the table fails.
* `failures_told_from_absence_iff`: when a lookup tells failures from absence.

## References

* `src/hashtable.c`, `table_get` and `table_exist`; `src/command.c`, `cmd_get` and
  `execute_command`.
-/

namespace SimpleCDatabase

open CString Hashtable

/-! ### Failures -/

section Failures

variable {α β γ : Type}

/-- A lock or a request for memory was refused. -/
def Event.failed : Event α → Bool
  | .malloc _ ok | .wrlock _ ok | .rdlock _ ok | .lockInit _ ok => !ok
  | _ => false

/-- Some event of a stretch is a failure. -/
def HasFailure (new : List (Event α)) : Prop := ∃ e ∈ new, e.failed = true

@[simp] theorem hasFailure_append (l l' : List (Event α)) :
    HasFailure (l ++ l') ↔ HasFailure l ∨ HasFailure l' := by
  simp only [HasFailure, List.mem_append, or_and_right, exists_or]

@[simp] theorem hasFailure_cons (e : Event α) (l : List (Event α)) :
    HasFailure (e :: l) ↔ e.failed = true ∨ HasFailure l := by
  simp only [HasFailure, List.exists_mem_cons_iff]

@[simp] theorem not_hasFailure_nil : ¬HasFailure ([] : List (Event α)) := by
  simp only [HasFailure, List.not_mem_nil, false_and, exists_false, not_false_eq_true]

/-- A computation that asks the environment for nothing. -/
def NeverFails (op : Traced (Event α) β) : Prop :=
  ∀ log, op.Ensures log fun _ new => ¬HasFailure new

theorem NeverFails.bind {op : Traced (Event α) β} {f : β → Traced (Event α) γ}
    (h : NeverFails op) (hf : ∀ b, NeverFails (f b)) : NeverFails (op >>= f) := by
  intro log
  refine (h log).bind fun b new hnew => (hf b _).mono fun c new' hnew' => ?_
  exact (hasFailure_append new' new).not.mpr (not_or.mpr ⟨hnew', hnew⟩)

theorem neverFails_pure (b : β) : NeverFails (pure b : Traced (Event α) β) :=
  fun _ => not_hasFailure_nil

theorem neverFails_unlock (i : ℕ) : NeverFails (unlock i : Traced (Event α) Unit) := by
  intro log
  simp [Traced.Ensures, unlock, Event.failed]

variable (t : Hashtable α)

theorem neverFails_readSlot (i : ℕ) (j : Fin BUCKET_CAPACITY) : NeverFails (readSlot t i j) := by
  intro log
  simp [Traced.Ensures, readSlot, Event.failed]

theorem neverFails_findSlot (i : ℕ) (h : UInt64) (key : List UInt8)
    (l : List (Fin BUCKET_CAPACITY)) : NeverFails (findSlot t i h key l) := by
  induction l with
  | nil => exact neverFails_pure none
  | cons j l ih =>
    refine (neverFails_readSlot t i j).bind fun slot log => ?_
    exact Traced.ensures_ite (fun _ => neverFails_pure (some j) log) fun _ => ih log

theorem neverFails_findValue (i : ℕ) (h : UInt64) (key : List UInt8) :
    NeverFails (findValue t i h key) := by
  refine (neverFails_findSlot t i h key slotIndices).bind fun found => ?_
  cases found with
  | none => exact neverFails_pure none
  | some j => exact (neverFails_readSlot t i j).bind fun slot => neverFails_pure slot.value

end Failures

/-! ### Lookups of the table -/

section Tables

variable (env : Env (Event DataEntry)) (t : Hashtable DataEntry) (log : List (Event DataEntry))
  (key : List UInt8)

/-- The read lock of the bucket of a key. -/
private theorem rdlock_key_ensures : (rdlock env (t.bucketIndex (hash key))).Ensures log
    fun ok new =>
      ok = env.lock log (t.keyBucket key) ∧ new = [.rdlock (t.bucketIndex (hash key)) ok] :=
  rdlock_events env log _

/-- A search reports no failure, and finds a slot exactly when the key is not missing. -/
private theorem findSlot_key_ensures :
    (findSlot t (t.bucketIndex (hash key)) (hash key) key slotIndices).Ensures log fun r new =>
      ¬HasFailure new ∧ (r.isSome ↔ ¬t.Missing key) := by
  obtain ⟨-, hfound⟩ := findSlot_ensures t key log
  refine ⟨neverFails_findSlot t _ _ key slotIndices log, ?_⟩
  split at hfound
  · next j hr => exact hr ▸ iff_of_true rfl fun hmiss => hmiss j hfound
  · next hr => exact hr ▸ iff_of_false Bool.false_ne_true (not_not.mpr hfound)

/-- The copy of a value fails exactly when its memory is refused. -/
private theorem memdup_hasFailure_iff (b : Block DataEntry) (size : ℕ) :
    (memdup env b size).Ensures log fun _ new =>
      (HasFailure new ↔ env.alloc log size = false) := by
  cases halloc : env.alloc log size <;>
    simp [Traced.Ensures, memdup, malloc, newBlock, halloc, Event.failed]

/-- `table_exist` fails exactly when it is refused the lock, and answers `true` exactly when it is
not and the key is found. -/
theorem tableExist_hasFailure_iff : (tableExist env t key).Ensures log fun r new =>
    (HasFailure new ↔ env.lock log (t.keyBucket key) = false) ∧
      (r = true ↔ env.lock log (t.keyBucket key) = true ∧ ¬t.Missing key) := by
  refine (rdlock_key_ensures env t log key).bind ?_
  rintro ok new₁ ⟨hok, rfl⟩
  rw [← hok]
  refine Traced.ensures_ite (fun htrue => ?_) fun hfalse => ?_
  · refine (findSlot_key_ensures t _ key).bind ?_
    rintro found new₂ ⟨hquiet, hfound⟩
    refine (neverFails_unlock _ _).bind fun _ new₃ hquiet' => ⟨?_, ?_⟩
    · simp [htrue, hquiet, hquiet', Event.failed]
    · exact hfound.trans (and_iff_right htrue).symm
  · have hfalse := Bool.eq_false_iff.mpr hfalse
    simp [Traced.Ensures, hfalse, Event.failed]

/-- When `table_get` is granted its lock, and the memory of the copy of a value that it finds. -/
def GetServed : Prop :=
  env.lock log (t.keyBucket key) = true ∧
    (¬t.Missing key → CopyGranted env t log key stdValueSizer)

variable {t key}

/-- A copy is made exactly when the lookup is served and the key is found. -/
theorem copyGranted_iff : CopyGranted env t log key stdValueSizer ↔
    GetServed env t log key ∧ ¬t.Missing key := by
  refine ⟨fun h => ⟨⟨h.1, fun _ => h⟩, fun hmiss => ?_⟩, fun h => h.1.2 h.2⟩
  obtain ⟨-, b, hb, -⟩ := h
  obtain ⟨-, ⟨j, hj, -⟩ | ⟨-, hnone⟩⟩ := findValue_ensures t key
    (.rdlock (t.bucketIndex (hash key)) true :: log)
  · exact hmiss j hj
  · exact Option.some_ne_none b (hb.symm.trans hnone)

/-- `table_get` fails exactly when it is refused the lock or the copy, if every entry has a
value. -/
theorem tableGet_hasFailure_iff (hvalue : ∀ j, t.Found key j → (t.slotAt key j).value ≠ none) :
    (tableGet env t key (some stdValueSizer)).Ensures log fun r new =>
      (HasFailure new ↔ ¬GetServed env t log key) ∧
        (r.isSome ↔ GetServed env t log key ∧ ¬t.Missing key) := by
  refine ⟨?_, (tableGet_ensures env t log key stdValueSizer).2.2.trans (copyGranted_iff env log)⟩
  change (tableGet env t key (some stdValueSizer)).Ensures log fun _ new =>
    (HasFailure new ↔ ¬GetServed env t log key)
  refine (rdlock_key_ensures env t log key).bind ?_
  rintro ok new₁ ⟨hok, rfl⟩
  refine Traced.ensures_ite (fun htrue => ?_) fun hfalse => ?_
  swap
  · have hfalse := Bool.eq_false_iff.mpr hfalse
    simp [Traced.Ensures, hfalse, Event.failed, GetServed, ← hok]
  subst htrue
  have hsearch : (findValue t (t.bucketIndex (hash key)) (hash key) key).Ensures
      ([.rdlock (t.bucketIndex (hash key)) true] ++ log) fun r new =>
        ¬HasFailure new ∧
        ((∃ j, t.Found key j ∧ r = (t.slotAt key j).value) ∨ t.Missing key ∧ r = none) ∧
        r = ((findValue t (t.bucketIndex (hash key)) (hash key) key).run
          (.rdlock (t.bucketIndex (hash key)) true :: log)).1 ∧
        new ++ ([.rdlock (t.bucketIndex (hash key)) true] ++ log) = copyLog t log key :=
    ⟨neverFails_findValue t _ _ key _, (findValue_ensures t key _).2, rfl, rfl⟩
  refine hsearch.bind ?_
  rintro (_ | b) new₂ ⟨hquiet, hfound, hrun, hlog⟩
  · -- Nothing is found, so that nothing is asked for.
    have hmiss : t.Missing key := by
      rcases hfound with ⟨j, hj, hnone⟩ | ⟨hmiss, -⟩
      · exact absurd hnone.symm (hvalue j hj)
      · exact hmiss
    refine (neverFails_unlock _ _).bind fun _ new₃ hquiet' => ?_
    refine iff_of_false ?_ (not_not.mpr ⟨hok.symm, fun h => absurd hmiss h⟩)
    simp [hquiet, hquiet', Event.failed]
  have hsize : stdValueSizer b.val ≠ 0 := by
    rw [stdValueSizer, SIZEOF_DATA_ENTRY]
    omega
  refine Traced.ensures_ite (fun hzero => absurd hzero hsize) fun _ => ?_
  rw [hlog]
  refine (memdup_hasFailure_iff env _ b _).bind fun copy new₃ hfailure => ?_
  refine (neverFails_unlock _ _).bind fun _ new₄ hquiet' => ?_
  have hmiss : ¬t.Missing key := by
    rcases hfound with ⟨j, hj, -⟩ | ⟨-, hnone⟩
    · exact fun hmiss => hmiss j hj
    · exact absurd hnone (Option.some_ne_none b)
  have hserved : GetServed env t log key ↔
      env.alloc (copyLog t log key) (stdValueSizer b.val) = true := by
    rw [← and_iff_left hmiss (a := GetServed env t log key), ← copyGranted_iff]
    constructor
    · rintro ⟨-, c, hc, -, halloc⟩
      obtain rfl := Option.some_inj.mp (hrun.trans hc)
      exact halloc
    · exact fun halloc => ⟨hok.symm, b, hrun.symm, hsize, halloc⟩
  rw [hserved, Bool.not_eq_true]
  simp [hquiet, hquiet', hfailure, Traced.ensures_pure, Event.failed]

end Tables

/-! ### The two commands -/

/-- The commands that look for a key. -/
inductive Lookup where
  | GET | EXIST
  deriving DecidableEq, Repr

namespace Lookup

/-- The entry of the command table. -/
def command : Lookup → Command
  | GET => ⟨bytes "GET", .GET, cmdGet, 1⟩
  | EXIST => ⟨bytes "EXIST", .EXIST, cmdExist, 1⟩

/-- The request of a client. -/
def request (key : List UInt8) : Lookup → Request
  | GET => (MapCommand.get key).toRequest
  | EXIST => (MapCommand.exist key).toRequest

/-- The result of the procedure when nothing is found. -/
def absentResult : Lookup → CommandResult
  | GET => .empty
  | EXIST => .exist false

/-- The C library grants a lookup its lock and, when the key is stored, the memory of the copy of
its value that `table_get` makes. -/
def Served (env : Env (Event DataEntry)) (t : Hashtable DataEntry) (log : List (Event DataEntry))
    (key : List UInt8) : Lookup → Prop
  | GET => env.lock log (t.keyBucket key) = true ∧
      (t.Stores key → CopyGranted env t log key stdValueSizer)
  | EXIST => env.lock log (t.keyBucket key) = true

/-- A result that shows what is stored. -/
def Shows : Lookup → CommandResult → Prop
  | GET, .get _ => True
  | EXIST, .exist true => True
  | _, _ => False

end Lookup

section Rendering

variable (env : Env (Event DataEntry)) (log : List (Event DataEntry))

end Rendering

section Lookups

variable {env : Env (Event DataEntry)} {t : Hashtable DataEntry} {log : List (Event DataEntry)}
  {key : List UInt8}

/-- What the procedure of a lookup does: it fails exactly when it is not served, and shows what is
stored when it is. -/
theorem Lookup.proc_ensures (l : Lookup) (ht : t.WellFormed) (hvalued : t.Valued)
    (hkey : KeyAdmitted key) {input : CommandData} (hinput : input.key = key) :
    (l.command.proc env t input).Ensures log fun r new => r.2 = t ∧
      (HasFailure new ↔ ¬l.Served env t log key) ∧
        ((l.Served env t log key ∧ t.Stores key) ∧ l.Shows r.1 ∨
          ¬(l.Served env t log key ∧ t.Stores key) ∧ r.1 = l.absentResult) := by
  have hvalid : ¬isKeyValid input.key = false := by
    rw [hinput, hkey.valid]
    exact Bool.true_eq_false.mp
  have hstores := ht.stores_iff hkey
  cases l with
  | GET =>
    refine Traced.ensures_ite (fun h => absurd h hvalid) fun _ => ?_
    have hvalue (j : Fin BUCKET_CAPACITY) (hj : t.Found key j) : (t.slotAt key j).value ≠ none :=
      hvalued _ (slotAt_mem_entries (ht.keyBucket_lt key) hj.inUse)
    have hserved : GetServed env t log key ↔ Lookup.GET.Served env t log key := by
      rw [GetServed, ← hstores]
      rfl
    rw [hinput, ← hserved, hstores]
    refine (tableGet_hasFailure_iff env log hvalue).bind ?_
    rintro (_ | b) new ⟨hfailure, hsome⟩
    · exact ⟨rfl, hfailure, .inr ⟨hsome.not.mp Bool.false_ne_true, rfl⟩⟩
    · exact ⟨rfl, hfailure, .inl ⟨hsome.mp rfl, trivial⟩⟩
  | EXIST =>
    refine Traced.ensures_ite (fun h => absurd h hvalid) fun _ => ?_
    rw [hinput, hstores]
    refine (tableExist_hasFailure_iff env t log key).bind ?_
    rintro existence new ⟨hfailure, htrue⟩
    have hserved : ¬Lookup.EXIST.Served env t log key ↔ env.lock log (t.keyBucket key) = false :=
      Bool.not_eq_true _ ▸ Iff.rfl
    cases existence with
    | false => exact ⟨rfl, hfailure.trans hserved.symm, .inr ⟨htrue.not.mp Bool.false_ne_true, rfl⟩⟩
    | true => exact ⟨rfl, hfailure.trans hserved.symm, .inl ⟨htrue.mp rfl, trivial⟩⟩

end Lookups

end SimpleCDatabase
