import SimpleCDatabase.Command.Locks
import SimpleCDatabase.Hashtable.Ownership

/-!
# Runs of commands

A database is a table that is created and then executes commands. Along every run the table is
well formed, no lock is left held, and every value block is owned once.

## Main definitions

* `runDatabase`: the creation of a table and a run of commands on it.
* `DatabaseGuarded`: such a run, with a condition on each of its commands.
* `Healthy`: the invariant of runs, of the table and the transcript.
* `Reachable`: the tables that commands reach, with any answers of the C library.
* `Request.Defined`: the commands that find what they use in the arrays of the table.

## Main results

* `Healthy.execute`: the execution of a bounded command preserves the invariant.
* `runDatabase_locksInside_iff`: the locks that a run uses lie in the array of the table exactly
  when each of its commands finds them there.
* `runDatabase_ownership`: no block is in two slots, is destroyed while stored, or is destroyed
  twice, also after the table is destroyed.
-/

namespace SimpleCDatabase

open Buckets Hashtable PowerOfTwo

/-- The creation of a table and a run of commands on it, with their results. -/
def runDatabase (env : Env (Event DataEntry)) (initialCapacity : UInt64)
    (requests : List Request) :
    Action (Option (List ExecuteResult × Hashtable DataEntry)) := do
  match ← tableCreate env initialCapacity with
  | some table =>
    let r ← Traced.runOutputs (Request.execute env) table requests
    pure (some r)
  | none => pure none

/-- A run with results: a table is created, and the commands are executed on it. -/
theorem runDatabase_run {env : Env (Event DataEntry)} {n₀ : UInt64} {requests : List Request}
    {log : List (Event DataEntry)} {rs : List ExecuteResult} {t : Hashtable DataEntry}
    (hrun : ((runDatabase env n₀ requests).run log).1 = some (rs, t)) :
    ∃ t₀, ((tableCreate env n₀).run log).1 = some t₀ ∧
      ((Traced.runOutputs (Request.execute env) t₀ requests).run
        (((tableCreate env n₀).run log).2 ++ log)).1 = (rs, t) ∧
      ((runDatabase env n₀ requests).run log).2 =
        ((Traced.runOutputs (Request.execute env) t₀ requests).run
          (((tableCreate env n₀).run log).2 ++ log)).2 ++ ((tableCreate env n₀).run log).2 := by
  rw [runDatabase, Traced.run_bind] at hrun ⊢
  cases hcreated : ((tableCreate env n₀).run log).1 with
  | none =>
    rw [hcreated] at hrun
    exact absurd hrun.symm (Option.some_ne_none (rs, t))
  | some t₀ =>
    rw [hcreated] at hrun
    refine ⟨t₀, rfl, Option.some_inj.mp hrun, ?_⟩
    simp only [Traced.run_bind, Traced.run_pure, List.nil_append]

/-- Every command of a run on a created table is executed where `ok` holds. -/
def DatabaseGuarded (env : Env (Event DataEntry))
    (ok : Hashtable DataEntry → List (Event DataEntry) → Request → Prop)
    (initialCapacity : UInt64) (requests : List Request) (log : List (Event DataEntry)) : Prop :=
  ∀ table, ((tableCreate env initialCapacity).run log).1 = some table →
    Traced.Guarded (fun table req => do
      let (_, table) ← Request.execute env table req
      pure table) ok table (((tableCreate env initialCapacity).run log).2 ++ log) requests

/-- The condition on a run is one on the commands that are executed on the created table. -/
theorem databaseGuarded_iff {env : Env (Event DataEntry)}
    {ok : Hashtable DataEntry → List (Event DataEntry) → Request → Prop} {n₀ : UInt64}
    {requests : List Request} {log : List (Event DataEntry)} {t₀ : Hashtable DataEntry}
    (hcreated : ((tableCreate env n₀).run log).1 = some t₀) :
    DatabaseGuarded env ok n₀ requests log ↔ Traced.Guarded (fun table req => do
      let (_, table) ← Request.execute env table req
      pure table) ok t₀ (((tableCreate env n₀).run log).2 ++ log) requests :=
  ⟨fun h => h t₀ hcreated, fun h _ ht => Option.some_inj.mp (hcreated.symm.trans ht) ▸ h⟩

/-- A condition on the commands of a run in two parts. -/
theorem databaseGuarded_and (env : Env (Event DataEntry))
    (ok ok' : Hashtable DataEntry → List (Event DataEntry) → Request → Prop)
    (n₀ : UInt64) (requests : List Request) (log : List (Event DataEntry)) :
    DatabaseGuarded env (fun t log req => ok t log req ∧ ok' t log req) n₀ requests log ↔
      DatabaseGuarded env ok n₀ requests log ∧ DatabaseGuarded env ok' n₀ requests log := by
  simp only [DatabaseGuarded, Traced.guarded_and, imp_and, forall_and]

theorem databaseGuarded_of_forall {env : Env (Event DataEntry)}
    {ok : Hashtable DataEntry → List (Event DataEntry) → Request → Prop} {requests : List Request}
    (h : ∀ req ∈ requests, ∀ t log, ok t log req) (n₀ : UInt64) (log : List (Event DataEntry)) :
    DatabaseGuarded env ok n₀ requests log :=
  fun t _ => Traced.guarded_of_forall _ h t _

/-- A condition on the commands of a run may be replaced by another one that it implies where an
invariant holds that the commands preserve. -/
theorem DatabaseGuarded.imp {env : Env (Event DataEntry)}
    {ok ok' : Hashtable DataEntry → List (Event DataEntry) → Request → Prop}
    (Inv : Hashtable DataEntry → Prop)
    (hstep : ∀ t log req, ok t log req → Inv t → Inv ((req.execute env t).run log).1.2)
    (h : ∀ t log req, ok t log req → Inv t → ok' t log req) {n₀ : UInt64}
    {log : List (Event DataEntry)}
    (hcreated : ∀ t, ((tableCreate env n₀).run log).1 = some t → Inv t) {requests : List Request}
    (hguard : DatabaseGuarded env ok n₀ requests log) : DatabaseGuarded env ok' n₀ requests log :=
  fun t ht => Traced.Guarded.imp Inv hstep h (hcreated t ht) (hguard t ht)

/-! ### The locks of a run -/

section Locks

variable (env : Env (Event DataEntry))

/-- A command keeps the number of locks. -/
theorem execute_lockCount (t : Hashtable DataEntry) (log : List (Event DataEntry))
    (req : Request) : ((req.execute env t).run log).1.2.lockCount = t.lockCount := by
  have hspec : Executed env t req log ((req.execute env t).run log).1.1
      ((req.execute env t).run log).1.2 ((req.execute env t).run log).2 :=
    execute_spec env t req log
  generalize ((req.execute env t).run log).1.2 = t' at hspec ⊢
  cases hspec with
  | kept _ => rfl
  | called hout _ _ _ _ => exact hout.counts.1

/-- The locks that commands on a table use lie in its array exactly when each command finds them
there. -/
theorem runOutputs_locksInside_iff (t : Hashtable DataEntry) (log : List (Event DataEntry))
    (requests : List Request) :
    LocksInside t.lockCount.toNat
        ((Traced.runOutputs (Request.execute env) t requests).run log).2 ↔
      Traced.Guarded (fun table req => do
        let (_, table) ← Request.execute env table req
        pure table) (Request.HasLocks env) t log requests := by
  rw [Traced.run_runOutputs_events]
  refine (Traced.runAll_events_iff _ _ t log requests).trans ?_
  refine Traced.guarded_congr _ (fun u => u.lockCount = t.lockCount)
    (fun u log req hu => (execute_lockCount env u log req).trans hu)
    (fun u log req hu => ?_) rfl log requests
  have hiff := execute_locksInside_iff env u log req
  rw [hu] at hiff
  exact hiff

/-- The commands of a run keep the number of locks. -/
theorem runOutputs_lockCount (t : Hashtable DataEntry) (log : List (Event DataEntry))
    (requests : List Request) :
    ((Traced.runOutputs (Request.execute env) t requests).run log).1.2.lockCount = t.lockCount :=
  Traced.runOutputs_invariant _ (fun u _ => u.lockCount = t.lockCount) requests
    (fun req _ u log hu => (execute_lockCount env u log req).trans hu) t log rfl

/-- **The locks that a run uses lie in the array** of its table exactly when each of its commands
finds them there. -/
theorem runDatabase_locksInside_iff (n₀ : UInt64) (requests : List Request)
    (log : List (Event DataEntry)) (rs : List ExecuteResult) (t : Hashtable DataEntry)
    (hrun : ((runDatabase env n₀ requests).run log).1 = some (rs, t)) :
    LocksInside t.lockCount.toNat ((runDatabase env n₀ requests).run log).2 ↔
      DatabaseGuarded env (Request.HasLocks env) n₀ requests log := by
  obtain ⟨t₀, hcreated, hvalue, hevents⟩ := runDatabase_run hrun
  have hlocks := runOutputs_lockCount env t₀ (((tableCreate env n₀).run log).2 ++ log) requests
  rw [hvalue] at hlocks
  rw [hevents, locksInside_append, and_iff_left (locksInside_tableCreate env n₀ _ log), hlocks,
    databaseGuarded_iff hcreated]
  exact runOutputs_locksInside_iff env t₀ _ requests

end Locks

/-! ### Invariants -/

/-- The invariant of runs: a well-formed table, no lock held, every block owned once. -/
structure Healthy (t : Hashtable DataEntry) (log : List (Event DataEntry)) : Prop where
  wellFormed : t.WellFormed
  unlocked : lockBalance log = 0
  owned : Owned t.values (destroyed log) log.length

theorem Executed.wellFormed {env : Env (Event DataEntry)} {t t' : Hashtable DataEntry}
    {req : Request} {log new : List (Event DataEntry)} {r : ExecuteResult}
    (h : Executed env t req log r t' new) (hreq : req.Bounded) (ht : t.WellFormed) :
    t'.WellFormed := by
  cases h with
  | kept _ => exact ht
  | called hout _ _ hbounded _ => exact hout.wellFormed (hbounded hreq) ht

/-- **A bounded command preserves the invariant of runs.** -/
theorem Healthy.execute {env : Env (Event DataEntry)} {t : Hashtable DataEntry}
    {log : List (Event DataEntry)} (h : Healthy t log) {req : Request} (hreq : req.Bounded) :
    (req.execute env t).Ensures log fun r new => Healthy r.2 (new ++ log) := by
  refine (execute_spec env t req log).mono ?_
  rintro ⟨r, t'⟩ new hexec
  have hwellFormed := hexec.wellFormed hreq h.wellFormed
  have hlen : log.length ≤ (new ++ log).length := by
    rw [List.length_append]
    exact Nat.le_add_left _ _
  cases hexec with
  | kept heff =>
    refine ⟨hwellFormed, by rw [lockBalance_append, heff.balance, h.unlocked, add_zero], ?_⟩
    rw [destroyed_append, heff.destroyed]
    exact h.owned.move (by simp) hlen
  | called hout heff hfresh hbounded _ =>
    refine ⟨hwellFormed, by rw [lockBalance_append, heff.balance, h.unlocked, add_zero], ?_⟩
    rw [destroyed_append, heff.destroyed]
    have hlaw := hout.conservation (hbounded hreq) h.wellFormed
    split at hlaw
    · exact h.owned.step hlaw hfresh hlen
    · exact h.owned.move (hlaw.trans (add_zero _)) hlen

/-- The invariant holds of the state that a run of bounded commands reaches. -/
theorem runDatabase_healthy {env : Env (Event DataEntry)} {n₀ : UInt64}
    (hn₀ : n₀.toNat ≤ 2 ^ 63) {requests : List Request} (hreq : ∀ req ∈ requests, req.Bounded)
    {rs : List ExecuteResult} {t : Hashtable DataEntry} {log : List (Event DataEntry)}
    (hrun : (runDatabase env n₀ requests).run [] = (some (rs, t), log)) : Healthy t log := by
  obtain ⟨t₀, hcreated, hvalue, hevents⟩ := runDatabase_run (congrArg Prod.fst hrun)
  obtain ⟨heff, hspec⟩ := tableCreate_spec env n₀ []
  obtain ⟨hpos, rfl, hbytes⟩ := hspec t₀ hcreated
  have hfresh : Healthy (fresh (roundCapacity n₀)) (((tableCreate env n₀).run []).2 ++ []) := by
    refine ⟨wellFormed_fresh (roundCapacity_spec hpos hn₀).1 hbytes, ?_, ?_⟩
    · rw [List.append_nil, heff.balance]
    · rw [List.append_nil, heff.destroyed, values, entries_fresh]
      exact ⟨Multiset.nodup_zero, fun b hb => absurd hb (Multiset.notMem_zero b)⟩
  have hinv := Traced.runOutputs_invariant (Request.execute env) Healthy requests
    (fun req hmem t log ht => ht.execute (hreq req hmem)) _ _ hfresh
  rw [hrun] at hevents
  rwa [hvalue, ← List.append_assoc, ← hevents, List.append_nil] at hinv

/-- **Ownership of stored values is exclusive.** In every state that a run of bounded commands
reaches, no identity is in two slots in use, none in a slot in use has been destroyed, and none
has been destroyed twice; the destruction of the table does not destroy one twice either. -/
theorem runDatabase_ownership (env : Env (Event DataEntry)) (n₀ : UInt64)
    (requests : List Request) (hn₀ : n₀.toNat ≤ 2 ^ 63)
    (hreq : ∀ req ∈ requests, req.Bounded) (rs : List ExecuteResult) (t : Hashtable DataEntry)
    (log : List (Event DataEntry))
    (hrun : (runDatabase env n₀ requests).run [] = (some (rs, t), log)) :
    t.idents.Nodup ∧ (∀ i ∈ t.idents, i ∉ (destroyed log).map Block.ident) ∧
      ((destroyed log).map Block.ident).Nodup ∧
      ((destroyed (((tableDestroy t true).run log).2 ++ log)).map Block.ident).Nodup := by
  have h := runDatabase_healthy hn₀ hreq hrun
  have hnodup := h.owned.nodup
  rw [Multiset.map_add, ← coe_idents, Multiset.map_coe] at hnodup
  obtain ⟨hstored, hdestroyed, hdisjoint⟩ := Multiset.nodup_add.mp hnodup
  refine ⟨Multiset.coe_nodup.mp hstored, fun i hi hmem => ?_,
    Multiset.coe_nodup.mp hdestroyed, ?_⟩
  · exact Multiset.disjoint_left.mp hdisjoint (Multiset.mem_coe.mpr hi)
      (Multiset.mem_coe.mpr hmem)
  · obtain ⟨-, ds, heff, hds⟩ := tableDestroy_spec t log h.unlocked
    rw [destroyed_append, heff.destroyed]
    have howned : Owned 0 (ds ++ destroyed log) log.length :=
      h.owned.move (by rw [hds, zero_add]) le_rfl
    exact howned.nodup_destroyed

/-- A value is stored and replaced; both blocks are destroyed, one with the table. -/
theorem runDatabase_ownership_replaced :
    ∃ rs t log, (runDatabase Env.granting 1
        [⟨bytes "SET", 2, [bytes "k", bytes "a"], [1, 1]⟩,
         ⟨bytes "REPLACE", 2, [bytes "k", bytes "b"], [1, 1]⟩]).run [] = (some (rs, t), log) ∧
      ((destroyed (((tableDestroy t true).run log).2 ++ log)).map Block.ident).Nodup := by
  have hsome : ((runDatabase Env.granting 1
      [⟨bytes "SET", 2, [bytes "k", bytes "a"], [1, 1]⟩,
       ⟨bytes "REPLACE", 2, [bytes "k", bytes "b"], [1, 1]⟩]).run []).1.isSome := by
    decide +kernel
  obtain ⟨⟨rs, t⟩, hrun⟩ := Option.isSome_iff_exists.mp hsome
  refine ⟨rs, t, _, Prod.ext hrun rfl, ?_⟩
  refine (runDatabase_ownership Env.granting 1 _ (by decide) ?_ rs t _ (Prod.ext hrun rfl)).2.2.2
  simp only [List.mem_cons, List.not_mem_nil, or_false, forall_eq_or_imp, forall_eq]
  exact ⟨Request.bounded_of_tag (by decide), Request.bounded_of_tag (by decide)⟩

/-! ### Reachable tables -/

/-- The commands that look into the bucket of a key. -/
def keyedCommands : List CmdFunctionType := [.GET, .SET, .ADD, .DEL, .EXIST, .REPLACE]

/-- A command finds its locks, and the bucket of its key, in the arrays of the table. -/
def Request.Defined (env : Env (Event DataEntry)) (t : Hashtable DataEntry)
    (log : List (Event DataEntry)) (req : Request) : Prop :=
  req.HasLocks env t log ∧
    (t.bucketsCount = 0 → ∀ tag ∈ keyedCommands, req.tag ≠ some tag)

instance (env : Env (Event DataEntry)) (t : Hashtable DataEntry) (log : List (Event DataEntry)) :
    DecidablePred (Request.Defined env t log) := fun _ => inferInstanceAs (Decidable (_ ∧ _))

/-- The tables that commands reach, with any answers of the C library. A command that does not find
its locks in the array would lock the memory behind it, so no further state is reached by one. A
`RESIZE` beyond `2 ^ 63` leaves an empty table without buckets; there a command on a key would read
outside the array of buckets, so no further state is reached by one either. -/
inductive Reachable : Hashtable DataEntry → Prop where
  | created {env : Env (Event DataEntry)} {n₀ : UInt64} {log : List (Event DataEntry)}
    {t : Hashtable DataEntry} (h : ((tableCreate env n₀).run log).1 = some t) : Reachable t
  | executed {t : Hashtable DataEntry} (ht : Reachable t) (env : Env (Event DataEntry))
    (log : List (Event DataEntry)) (req : Request) (hdefined : req.Defined env t log) :
    Reachable ((req.execute env t).run log).1.2

/-- The table that a run of such commands leaves is reachable. -/
theorem Reachable.runOutputs {env : Env (Event DataEntry)} {t : Hashtable DataEntry}
    (ht : Reachable t) {log : List (Event DataEntry)} {requests : List Request}
    (h : Traced.Guarded (fun table req => do
      let (_, table) ← Request.execute env table req
      pure table) (Request.Defined env) t log requests) :
    Reachable ((Traced.runOutputs (Request.execute env) t requests).run log).1.2 := by
  induction requests generalizing t log with
  | nil => exact ht
  | cons req requests ih =>
    exact ih (.executed ht env log req h.1) h.2

end SimpleCDatabase
