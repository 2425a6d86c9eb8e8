import SimpleCDatabase.Command.Execution
import SimpleCDatabase.Hashtable.LockBounds

/-!
# The locks that a command uses

A command takes the lock of the bucket of its key, or those of the whole table, through the one call
that its procedure makes. Decoding the arguments and rendering the answer take none. So the locks
that a command uses lie in the array of the table exactly when those of its call do; a command that
is refused before makes no call.

## Main definitions

* `Request.call`: the call of the table that a command makes, with the events before it.
* `Request.HasLocks`: the commands that find the locks they use in the array.

## Main results

* `execute_locksInside_iff`: the locks that a command uses lie in the array exactly when it finds
  them there.

## References

* `src/command.c`, `execute_command` and the command procedures.
-/

namespace SimpleCDatabase

open Traced Hashtable

/-- The call of the table that a command makes of its decoded arguments, if it can take a lock. -/
def CmdFunctionType.call (input : CommandData) : CmdFunctionType → Option (TableCall DataEntry)
  | .GET => some (.get input.key (some stdValueSizer))
  | .SET => some (.set input.key input.value true)
  | .ADD => some (.add input.key input.value)
  | .DEL => some (.delete input.key true)
  | .EXIST => some (.exist input.key)
  | .REPLACE => some (.replace input.key input.value true)
  | .RESIZE => some (.resize input.newSize)
  | .CLEAR => some (.clear true)
  | .COUNT =>
    match input.countType with
    | .MEMORY_USAGE => some (.memoryUsage (some stdValueSizer))
    | .OCCUPIED_BUCKET => some .occupiedBucketCounter
    | .CAPACITY | .TOTAL_ELEM => none
  | .LOADFACTOR | .ERROR | .EMPTY => none

/-- The call of the table that a request makes, with the events before it. A request that is refused
before makes none. -/
def Request.call (env : Env (Event DataEntry)) (log : List (Event DataEntry)) (req : Request) :
    Option (TableCall DataEntry × List (Event DataEntry)) :=
  (findCommand req.commandName).bind fun cmd =>
    if cmd.arity ≠ req.argc then none
    else
      let decoded := (buildCommandData env cmd.tag req.argv req.argsLengths).run log
      decoded.1.bind fun input => (cmd.tag.call input).map fun call => (call, decoded.2 ++ log)

/-- The locks that a request uses lie in the array of the table. -/
def Request.HasLocks (env : Env (Event DataEntry)) (t : Hashtable DataEntry)
    (log : List (Event DataEntry)) (req : Request) : Prop :=
  ∀ call ∈ req.call env log, call.1.HasLocks env t call.2

instance (env : Env (Event DataEntry)) (t : Hashtable DataEntry) (log : List (Event DataEntry)) :
    DecidablePred (Request.HasLocks env t log) := fun req =>
  inferInstanceAs (Decidable (∀ call ∈ req.call env log, call.1.HasLocks env t call.2))

/-- A table with a lock for each bucket has the locks of every request. -/
theorem Request.hasLocks_of_le {env : Env (Event DataEntry)} {t : Hashtable DataEntry}
    {log : List (Event DataEntry)} (ht : t.bucketsCount ≠ 0) (hlocks : t.bucketsCount ≤ t.lockCount)
    (req : Request) : req.HasLocks env t log :=
  fun call _ => call.1.hasLocks_of_le ht hlocks

/-! ### The parts without a lock -/

section Lockless

variable (env : Env (Event DataEntry))

theorem ustrdup_lockless (src : List UInt8) : Only Event.Lockless (ustrdup env src) :=
  (malloc_lockless env _).bind fun _ => only_ite (fun _ => only_pure _) fun _ => only_pure _

theorem createErrorResponse_lockless (status : ℤ) (message : List UInt8) :
    Only Event.Lockless (createErrorResponse env status message) := by
  refine (ustrdup_lockless env message).bind fun body => ?_
  cases body with
  | none => exact only_pure _
  | some body => exact only_pure _

theorem finalResult_lockless (cmdResult : CommandResult) :
    Only Event.Lockless (finalResult env cmdResult) := by
  have herror := createErrorResponse_lockless env
  have hwrite (error : ℤ) : Only Event.Lockless (finalResult env (.set error)) :=
    only_ite (fun _ => herror _ _) fun _ => (ustrdup_lockless env _).bind fun _ => only_pure _
  have hprint (size : ℕ) (r : ExecuteResult) : Only Event.Lockless (do
      if ← malloc env size then pure r
      else createErrorResponse env 500 TCP_MEMORY_ERROR) :=
    (malloc_lockless env size).bind fun _ => only_ite (fun _ => only_pure r) fun _ => herror _ _
  have hcopy {f : Option (List UInt8) → Action ExecuteResult} (text : List UInt8)
      (hnone : Only Event.Lockless (f none)) (hsome : ∀ body, Only Event.Lockless (f (some body))) :
      Only Event.Lockless (ustrdup env text >>= f) := by
    refine (ustrdup_lockless env text).bind fun body => ?_
    cases body with
    | none => exact hnone
    | some body => exact hsome body
  cases cmdResult with
  | get value => exact hprint _ _
  | set error | add error | del error | replace error | resize error | clear error =>
    exact hwrite error
  | exist existence => exact hcopy _ (herror _ _) fun _ => only_pure _
  | count type countT => exact only_ite (fun _ => herror _ _) fun _ => hprint _ _
  | loadFactor loadFactor =>
    exact only_ite (fun _ => herror _ _) fun _ => hcopy _ (herror _ _) fun _ => only_pure _
  | empty | error => exact herror _ _

theorem respond_lockless (t : Hashtable DataEntry)
    (p : Except (ℤ × List UInt8) (CommandResult × Hashtable DataEntry)) :
    Only Event.Lockless (respond env t p) := by
  cases p with
  | error e => exact (createErrorResponse_lockless env _ _).bind fun _ => only_pure _
  | ok r => exact (finalResult_lockless env _).bind fun _ => only_pure _

theorem buildCommandData_lockless (tag : CmdFunctionType) (argv : List (List UInt8))
    (argsLengths : List ℕ) :
    Only Event.Lockless (buildCommandData env tag argv argsLengths) := by
  have hstore : Only Event.Lockless (buildKeyValue env argv argsLengths) :=
    only_ite (fun _ => only_pure _) fun _ => (malloc_lockless env _).bind fun _ =>
      only_ite (fun _ => (only_answer fun _ => trivial).bind fun _ => only_pure _)
        fun _ => only_pure _
  cases tag with
  | SET | ADD | REPLACE => exact hstore
  | GET | DEL | EXIST => exact only_ite (fun _ => only_pure _) fun _ => only_pure _
  | RESIZE => exact only_ite (fun _ => only_pure _) fun _ => only_pure _
  | CLEAR | LOADFACTOR | ERROR | EMPTY => exact only_pure _
  | COUNT =>
    rw [buildCommandData]
    split
    · exact only_pure _
    · exact only_pure _

end Lockless

/-! ### The call of a command -/

section Execution

variable (env : Env (Event DataEntry)) (t : Hashtable DataEntry) (log : List (Event DataEntry))

/-- Decoded arguments pass the checks that the command procedures make again. -/
structure Rechecked (tag : CmdFunctionType) (input : CommandData) : Prop where
  key : tag ∈ [.GET, .SET, .ADD, .DEL, .EXIST, .REPLACE] → isKeyValid input.key = true
  value : tag ∈ [.SET, .ADD, .REPLACE] → input.value ≠ none

theorem buildCommandData_rechecked (tag : CmdFunctionType) (argv : List (List UInt8))
    (argsLengths : List ℕ) :
    (buildCommandData env tag argv argsLengths).Ensures log fun r _ =>
      ∀ input, r = some input → Rechecked tag input := by
  have hstore (tag : CmdFunctionType) : (buildKeyValue env argv argsLengths).Ensures log
      fun r _ => ∀ input, r = some input → Rechecked tag input := by
    refine ensures_ite (fun _ _ h => nomatch h) fun hvalid => ?_
    refine (malloc_ensures env _ log).bind fun ok new _ => ?_
    refine ensures_ite (fun _ => ?_) fun _ _ h => nomatch h
    rintro input ⟨⟩
    exact ⟨fun _ => eq_true_of_ne_false hvalid, fun _ => Option.some_ne_none _⟩
  have hkey (tag : CmdFunctionType) (htag : tag ∉ [.SET, .ADD, .REPLACE]) :
      (if isKeyValid (arg argv 0) = false then pure none
        else pure (some { key := arg argv 0 }) : Action (Option CommandData)).Ensures log
          fun r _ => ∀ input, r = some input → Rechecked tag input := by
    refine ensures_ite (fun _ _ h => nomatch h) fun hvalid => ?_
    rintro input ⟨⟩
    exact ⟨fun _ => eq_true_of_ne_false hvalid, fun h => absurd h htag⟩
  have hother {tag : CmdFunctionType} (htag : tag ∉ [.GET, .SET, .ADD, .DEL, .EXIST, .REPLACE])
      (htag' : tag ∉ [.SET, .ADD, .REPLACE]) (input : CommandData) : Rechecked tag input :=
    ⟨fun h => absurd h htag, fun h => absurd h htag'⟩
  cases tag with
  | SET => exact hstore .SET
  | ADD => exact hstore .ADD
  | REPLACE => exact hstore .REPLACE
  | GET => exact hkey .GET (by decide)
  | DEL => exact hkey .DEL (by decide)
  | EXIST => exact hkey .EXIST (by decide)
  | RESIZE | CLEAR | LOADFACTOR | COUNT | ERROR | EMPTY =>
    exact fun input _ => hother (by decide) (by decide) input

variable {tag : CmdFunctionType} {input : CommandData}

theorem Rechecked.check (h : Rechecked tag input)
    (htag : tag ∈ [.GET, .SET, .ADD, .DEL, .EXIST, .REPLACE]) : ¬isKeyValid input.key = false := by
  rw [h.key htag]
  decide

theorem Rechecked.checks (h : Rechecked tag input) (htag : tag ∈ [.SET, .ADD, .REPLACE]) :
    ¬(isKeyValid input.key = false ∨ input.value = none) := by
  refine not_or.mpr ⟨h.check ?_, h.value htag⟩
  cases tag <;> simp_all

variable {γ : Type} {op : Action γ} {f : γ → CommandResult × Hashtable DataEntry}
  {g : γ → Hashtable DataEntry} {call : TableCall DataEntry}

/-- What is done without a call uses no lock. -/
private theorem locksInside_pure_iff {δ ι : Type} {n : ℕ} (a : δ) {P : ι → Prop} :
    LocksInside n ((pure a : Action δ).run log).2 ↔ ∀ call ∈ none, P call :=
  iff_of_true (locksInside_of_lockless (only_pure a) n log)
    fun call hcall => absurd hcall (Option.not_mem_none call)

/-- A procedure that makes one call uses the locks of the call. -/
private theorem locksInside_proc_iff (hcall : call.run env t = op >>= fun r => pure (g r)) :
    LocksInside t.lockCount.toNat ((op >>= fun r => pure (f r)).run log).2 ↔
      call.HasLocks env t log := by
  rw [← call.locksInside_iff, hcall]
  simp only [run_bind, run_pure, List.nil_append]

/-- The same behind a check that the arguments pass. -/
private theorem locksInside_checked_iff {c : Prop} [Decidable c] (hc : ¬c)
    {result : CommandResult} (hcall : call.run env t = op >>= fun r => pure (g r)) :
    LocksInside t.lockCount.toNat ((if c then pure (result, t)
        else op >>= fun r => pure (f r) : Action (CommandResult × Hashtable DataEntry)).run log).2 ↔
      call.HasLocks env t log := by
  rw [if_neg hc]
  exact locksInside_proc_iff env t log hcall

private theorem cmdGet_locksInside_iff (hc : ¬isKeyValid input.key = false) :
    LocksInside t.lockCount.toNat ((cmdGet env t input).run log).2 ↔
      (TableCall.get input.key (some stdValueSizer)).HasLocks env t log := by
  rw [cmdGet, if_neg hc, ← TableCall.locksInside_iff, TableCall.run]
  simp only [run_bind]
  cases ((tableGet env t input.key (some stdValueSizer)).run log).1 <;> exact Iff.rfl

/-- **The locks that a command procedure uses** are those of its call. -/
theorem proc_locksInside_iff {cmd : Command} (hcmd : cmd ∈ commandTable)
    (h : Rechecked cmd.tag input) :
    LocksInside t.lockCount.toNat ((cmd.proc env t input).run log).2 ↔
      ∀ call ∈ cmd.tag.call input, call.HasLocks env t log := by
  have hsome {P : TableCall DataEntry → Prop} {call : TableCall DataEntry} :
      P call ↔ ∀ c ∈ some call, P c :=
    ⟨fun h c hc => Option.some_inj.mp hc ▸ h, fun h => h call rfl⟩
  simp only [commandTable, List.mem_cons, List.not_mem_nil, or_false] at hcmd
  rcases hcmd with rfl | rfl | rfl | rfl | rfl | rfl | rfl | rfl | rfl | rfl
  · exact (locksInside_checked_iff env t log (h.checks (by decide)) rfl).trans hsome
  · exact (locksInside_proc_iff env t log rfl).trans hsome
  · change LocksInside t.lockCount.toNat ((cmdCount env t input).run log).2 ↔ _
    rw [cmdCount, CmdFunctionType.call]
    cases input.countType with
    | CAPACITY | TOTAL_ELEM => exact locksInside_pure_iff _ _
    | MEMORY_USAGE => exact (locksInside_proc_iff env t log rfl).trans hsome
    | OCCUPIED_BUCKET => exact (locksInside_proc_iff env t log rfl).trans hsome
  · exact (locksInside_checked_iff env t log (h.check (by decide)) rfl).trans hsome
  · exact (locksInside_checked_iff env t log (h.check (by decide)) rfl).trans hsome
  · exact (cmdGet_locksInside_iff env t log (h.check (by decide))).trans hsome
  · exact locksInside_pure_iff _ _
  · exact (locksInside_checked_iff env t log (h.checks (by decide)) rfl).trans hsome
  · by_cases hsize : input.newSize = 0
    · refine iff_of_true ?_ (hsome.mp trivial)
      have hnone : Only Event.Lockless (cmdResize env t input) := by
        rw [cmdResize, if_pos hsize]
        exact only_pure _
      exact locksInside_of_lockless hnone _ _
    · exact (locksInside_checked_iff env t log hsize rfl).trans hsome
  · exact (locksInside_checked_iff env t log (h.checks (by decide)) rfl).trans hsome

/-- **The locks that a command uses lie in the array** exactly when it finds them there. -/
theorem execute_locksInside_iff (req : Request) :
    LocksInside t.lockCount.toNat ((req.execute env t).run log).2 ↔ req.HasLocks env t log := by
  rw [execute_eq, run_bind, locksInside_append,
    and_iff_right (locksInside_of_lockless (respond_lockless env t _) _ _), Request.HasLocks,
    Request.call, Request.perform]
  cases hfind : findCommand req.commandName with
  | none => exact locksInside_pure_iff _ _
  | some cmd =>
    simp only [Option.bind_some]
    by_cases hargc : cmd.arity ≠ req.argc
    · rw [if_pos hargc, if_pos hargc]
      exact locksInside_pure_iff _ _
    rw [if_neg hargc, if_neg hargc, run_bind, locksInside_append,
      and_iff_left (locksInside_of_lockless (buildCommandData_lockless env _ _ _) _ _)]
    have hchecked := buildCommandData_rechecked env log cmd.tag req.argv req.argsLengths
    rw [Ensures] at hchecked
    cases hinput : ((buildCommandData env cmd.tag req.argv req.argsLengths).run log).1 with
    | none => exact locksInside_pure_iff _ _
    | some input =>
      have hproc := proc_locksInside_iff env t
        (((buildCommandData env cmd.tag req.argv req.argsLengths).run log).2 ++ log)
        (mem_commandTable hfind) (hchecked input hinput)
      simp only [run_bind, run_pure, List.nil_append, Option.bind_some, Option.forall_mem_map]
      exact hproc

end Execution

end SimpleCDatabase
