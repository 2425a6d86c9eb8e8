import SimpleCDatabase.Command.Execution
import SimpleCDatabase.Hashtable.Keys

/-!
# Commands on a key

What the commands on a key do, in terms of the searches in its bucket. `SET`, `ADD` and `REPLACE`
decode their arguments into a new block, hand it to one operation of the table and report its code;
they differ in the operation only. What they do is given exactly: when the block is allocated, on
what transcript the operation is called, and when it accepts. The lookups are given for an
environment in which nothing fails.

## Main definitions

* `Store`, `Store.command`, `Store.call`: the three commands and the calls that they make.
* `Request.valueBlock`, `Request.valueEvents`: the block and the events of its allocation.

## Main results

* `execute_ensures`, `execute_reports`: the execution of a command in steps.
* `finalResult_write`: a write is answered with 200 exactly when it carries no error.
* `Store.perform_refused`, `Store.perform_called`: what a storing command does.
* `execute_del_reports`, `execute_get_answer`, `execute_exist_answer`: the other commands on a key.
-/

namespace SimpleCDatabase

open CString Hashtable

/-- The bytes of a result that are sent. -/
def ExecuteResult.answer (r : ExecuteResult) : Option (List UInt8) :=
  r.body.map fun body => body.take r.bodyLength

section Results

variable {env : Env (Event DataEntry)} {log : List (Event DataEntry)}

/-- The results of the writes. -/
def CommandResult.ReportsWrite : CommandResult → Prop
  | .get _ | .exist _ | .loadFactor _ | .count .. | .empty => False
  | _ => True

/-- A write is answered with 200 exactly when it carries no error. -/
theorem finalResult_write {result : CommandResult} (h : result.ReportsWrite) :
    (finalResult env result).Ensures log fun r _ => (r.statusCode = 200 ↔ result.Done) := by
  have hrefused {status : ℤ} (message : List UInt8) (hstatus : status ≠ 200) :
      (createErrorResponse env status message).Ensures log fun r _ => r.statusCode ≠ 200 := by
    refine (createErrorResponse_ensures env log status message).mono ?_
    rintro r new ⟨-, h | h, -⟩
    · rw [h]
      exact hstatus
    · rw [h]
      decide
  have hwrite (code : ℤ) : (finalResult env (.set code)).Ensures log fun r _ =>
      (r.statusCode = 200 ↔ code = 0) := by
    refine Traced.ensures_ite (fun hcode => ?_) fun hcode => ?_
    · exact (hrefused _ (by decide)).mono fun r _ hr => iff_of_false hr hcode
    · exact (ustrdup_ensures env log _).bind fun body _ _ => iff_of_true rfl (not_not.mp hcode)
  cases result with
  | set code => exact hwrite code
  | add code => exact hwrite code
  | del code => exact hwrite code
  | replace code => exact hwrite code
  | resize code => exact hwrite code
  | clear code => exact hwrite code
  | error => exact (hrefused _ (by decide)).mono fun r _ hr => iff_of_false hr id
  | _ => exact h.elim

/-- A report that is an error unless the code is zero. -/
theorem report_error (done : CommandResult) (hwrite : done.ReportsWrite)
    (hdone : done.Done) (code : ℤ) :
    CommandResult.ReportsWrite (if code ≠ 0 then .error else done) ∧
      (CommandResult.Done (if code ≠ 0 then .error else done) ↔ code = 0) := by
  by_cases hcode : code = 0
  · simp [hcode, hwrite, hdone]
  · simp [hcode, CommandResult.ReportsWrite, CommandResult.Done]

end Results

/-! ### Executions in steps -/

section Executions

variable {env : Env (Event DataEntry)} {t : Hashtable DataEntry} {log : List (Event DataEntry)}

/-- The execution of a command of the table, from what its arguments decode to, what its
procedure does with them and how the result is answered. -/
theorem execute_ensures (req : Request) (cmd : Command)
    (hfind : findCommand req.commandName = some cmd) (harity : cmd.arity = req.argc)
    {P : CommandData → Prop}
    (hbuild : (buildCommandData env cmd.tag req.argv req.argsLengths).Ensures log
      fun r _ => ∃ input, r = some input ∧ P input)
    {Q : ExecuteResult → Hashtable DataEntry → Prop}
    (hproc : ∀ input log', P input → (cmd.proc env t input).Ensures log' fun r _ =>
      ∀ log'', (finalResult env r.1).Ensures log'' fun r' _ => Q r' r.2) :
    (req.execute env t).Ensures log fun r _ => Q r.1 r.2 := by
  rw [Request.execute, executeCommand, hfind]
  refine Traced.ensures_ite (fun hne => absurd harity hne) fun _ => ?_
  refine hbuild.bind ?_
  rintro _ new₁ ⟨input, rfl, hP⟩
  refine (hproc input _ hP).bind ?_
  rintro ⟨result, t'⟩ new₂ hfinal
  exact (hfinal _).bind fun r new₃ hQ => hQ

/-- An execution makes one call, and answers 200 exactly when it returns zero. -/
def Reports (env : Env (Event DataEntry)) (t : Hashtable DataEntry) (call : TableCall DataEntry)
    (r : ExecuteResult × Hashtable DataEntry) : Prop :=
  ∃ code ds, Outcome env t call code r.2 ds ∧ (r.1.statusCode = 200 ↔ code = 0)

/-- The execution of a write whose procedure makes one call and reports its code. -/
theorem execute_reports (req : Request) (cmd : Command)
    (hfind : findCommand req.commandName = some cmd) (harity : cmd.arity = req.argc)
    {P : CommandData → Prop}
    (hbuild : (buildCommandData env cmd.tag req.argv req.argsLengths).Ensures log
      fun r _ => ∃ input, r = some input ∧ P input)
    (call : TableCall DataEntry) (report : ℤ → CommandResult)
    (op : CommandData → Action (ℤ × Hashtable DataEntry))
    (hproc : ∀ input, P input → cmd.proc env t input = do
      let (code, context) ← op input
      pure (report code, context))
    (hop : ∀ input, P input → Performs env t call (op input))
    (hreport : ∀ code, (report code).ReportsWrite ∧ ((report code).Done ↔ code = 0)) :
    (req.execute env t).Ensures log fun r _ => Reports env t call r := by
  refine execute_ensures req cmd hfind harity hbuild (Q := fun r t' => Reports env t call (r, t'))
    ?_
  intro input log' hP
  rw [hproc input hP]
  refine (hop input hP log').bind ?_
  rintro ⟨code, t'⟩ new ⟨ds, hout, -⟩ log''
  refine (finalResult_write (hreport code).1).mono fun r _ hr => ⟨code, ds, hout, ?_⟩
  exact hr.trans (hreport code).2

end Executions

/-! ### Storing commands -/

/-- The commands that store a value. -/
inductive Store where
  | SET | ADD | REPLACE
  deriving DecidableEq, Repr

/-- The entry of the command table. -/
def Store.command : Store → Command
  | SET => ⟨bytes "SET", .SET, cmdSet, 2⟩
  | ADD => ⟨bytes "ADD", .ADD, cmdAdd, 2⟩
  | REPLACE => ⟨bytes "REPLACE", .REPLACE, cmdReplace, 2⟩

theorem Store.tag_injective {s s' : Store} (h : s.command.tag = s'.command.tag) :
    s = s' := by
  cases s <;> cases s' <;> first | rfl | exact nomatch h

/-- The call that the command makes. -/
def Store.call : Store → List UInt8 → Option (Block DataEntry) → TableCall DataEntry
  | SET, key, value => .set key value true
  | ADD, key, value => .add key value
  | REPLACE, key, value => .replace key value true

/-- The size of the value of a command, its second length. -/
def Request.valueSize (req : Request) : ℕ := req.argsLengths.getD 1 0

/-- The block that holds the value of a command, allocated at the transcript `log`. -/
def Request.valueBlock (req : Request) (log : List (Event DataEntry)) : Block DataEntry :=
  ⟨log.length + 1, ⟨memcpy (arg req.argv 1) req.valueSize⟩⟩

/-- The events of its allocation. -/
def Request.valueEvents (req : Request) (log : List (Event DataEntry)) :
    List (Event DataEntry) :=
  [.create (req.valueBlock log), .malloc (SIZEOF_DATA_ENTRY + req.valueSize) true]

/-- When the block is not allocated: the key is not valid, or the environment refuses it. -/
def Request.ValueRefused (env : Env (Event DataEntry)) (log : List (Event DataEntry))
    (req : Request) : Prop :=
  isKeyValid (arg req.argv 0) = false ∨
    env.alloc log (SIZEOF_DATA_ENTRY + req.valueSize) = false

section Stores

variable (env : Env (Event DataEntry)) (t : Hashtable DataEntry) (log : List (Event DataEntry))
  (req : Request)

theorem effects_valueEvents :
    Effects (req.valueEvents log) [] [req.valueBlock log] 0 := by
  simpa [Request.valueEvents] using
    (effects_create (req.valueBlock log)).append (effects_malloc _ true)

theorem buildKeyValue_of_refused (h : req.ValueRefused env log) :
    (buildKeyValue env req.argv req.argsLengths).Ensures log fun r new =>
      r = none ∧ Effects new [] [] 0 := by
  refine Traced.ensures_ite (fun _ => ⟨rfl, Effects.nil⟩) fun hvalid => ?_
  have hfalse : env.alloc log (SIZEOF_DATA_ENTRY + req.valueSize) = false :=
    h.resolve_left hvalid
  have hmalloc : (malloc env (SIZEOF_DATA_ENTRY + req.valueSize)).Ensures log fun ok new =>
      ok = false ∧ Effects new [] [] 0 := ⟨hfalse, effects_malloc _ _⟩
  refine hmalloc.bind ?_
  rintro _ new ⟨rfl, heff⟩
  exact ⟨rfl, heff⟩

theorem buildKeyValue_of_granted (h : ¬req.ValueRefused env log) :
    (buildKeyValue env req.argv req.argsLengths).run log =
      (some { key := arg req.argv 0, value := some (req.valueBlock log) },
        req.valueEvents log) := by
  obtain ⟨hvalid, halloc⟩ := not_or.mp h
  have htrue : env.alloc log (SIZEOF_DATA_ENTRY + req.argsLengths.getD 1 0) = true :=
    eq_true_of_ne_false halloc
  rw [buildKeyValue, if_neg hvalid]
  simp only [Traced.run_bind, malloc, Traced.run_answer, htrue, if_true, newBlock,
    Traced.run_pure, List.length_append, List.length_singleton]
  rw [Nat.add_comm]
  rfl

/-- What the procedure of a storing command does: one call, and its code reported. -/
structure Called (env : Env (Event DataEntry)) (t : Hashtable DataEntry)
    (call : TableCall DataEntry) (log : List (Event DataEntry)) (result : CommandResult)
    (t' : Hashtable DataEntry) (new : List (Event DataEntry)) : Prop where
  outcome : ∃ code ds, Outcome env t call code t' ds ∧ Effects new ds [] 0 ∧
    (code = 0 ↔ call.Accepted env t log)
  reports : result.ReportsWrite
  done_iff : result.Done ↔ call.Accepted env t log

variable {env t}

private theorem called_of_performs {call : TableCall DataEntry}
    {op : Action (ℤ × Hashtable DataEntry)} (hop : Performs env t call op)
    (hdropped : ∀ {code t' ds}, Outcome env t call code t' ds → handed call.destroys ds = ds)
    (hcode : op.Ensures log fun r _ => (r.1 = 0 ↔ call.Accepted env t log))
    (report : ℤ → CommandResult)
    (hreport : ∀ code, (report code).ReportsWrite ∧ ((report code).Done ↔ code = 0)) :
    Traced.Ensures (do
      let (code, context) ← op
      pure (report code, context)) log fun r new => Called env t call log r.1 r.2 new := by
  have hboth : op.Ensures log fun r new => (r.1 = 0 ↔ call.Accepted env t log) ∧
      ∃ ds, Outcome env t call r.1 r.2 ds ∧ Effects new (handed call.destroys ds) [] 0 :=
    ⟨hcode, hop log⟩
  refine hboth.bind ?_
  rintro ⟨code, t'⟩ new ⟨hiff, ds, hout, heff⟩
  rw [hdropped hout] at heff
  exact ⟨⟨code, ds, hout, heff, hiff⟩, (hreport code).1, (hreport code).2.trans hiff⟩

variable {log}

theorem Store.proc_ensures (s : Store) {input : CommandData}
    (hvalid : isKeyValid input.key = true) {b : Block DataEntry} (hvalue : input.value = some b) :
    (s.command.proc env t input).Ensures log fun r new =>
      Called env t (s.call input.key input.value) log r.1 r.2 new := by
  have hinput : ¬(isKeyValid input.key = false ∨ input.value = none) := by
    simp [hvalid, hvalue]
  cases s with
  | SET =>
    refine Traced.ensures_ite (fun h => absurd h hinput) fun _ => ?_
    exact called_of_performs log (tableSet_spec env t input.key input.value true) (fun _ => rfl)
      (tableSet_code_iff env t input.key input.value true log) .set fun _ => ⟨trivial, Iff.rfl⟩
  | ADD =>
    refine Traced.ensures_ite (fun h => absurd h hinput) fun _ => ?_
    exact called_of_performs log (tableAdd_spec env t input.key input.value)
      (fun h => by cases h <;> rfl) (tableAdd_code_iff env t input.key input.value log) .add
      fun _ => ⟨trivial, Iff.rfl⟩
  | REPLACE =>
    refine Traced.ensures_ite (fun h => absurd h hinput) fun _ => ?_
    exact called_of_performs log (tableReplace_spec env t input.key input.value true)
      (fun _ => rfl) (tableReplace_code_iff env t input.key input.value true log)
      (fun code => if code ≠ 0 then .error else .replace 0)
      (report_error (.replace 0) trivial rfl)

variable {req}

theorem Store.find (s : Store) : findCommand s.command.name = some s.command := by
  cases s <;> rfl

private theorem Store.build (s : Store) :
    buildCommandData env s.command.tag = buildKeyValue env := by
  cases s <;> rfl

/-- A storing command that is refused its block, or has a wrong number of arguments. -/
theorem Store.perform_refused (s : Store) (hfind : findCommand req.commandName = some s.command)
    (h : req.argc ≠ 2 ∨ req.ValueRefused env log) :
    (req.perform env t).Ensures log fun p new =>
      (∃ e, p = .error e ∧ e.1 ≠ 200) ∧ Effects new [] [] 0 := by
  have harity : s.command.arity = 2 := by cases s <;> rfl
  rw [Request.perform, hfind]
  refine Traced.ensures_ite (fun _ => ⟨⟨_, rfl, by decide⟩, Effects.nil⟩) fun heq => ?_
  have hargc : req.argc = 2 := (not_not.mp heq).symm.trans harity
  have hrefused := h.resolve_left (not_not.mpr hargc)
  rw [s.build]
  refine (buildKeyValue_of_refused env log req hrefused).bind ?_
  rintro _ new ⟨rfl, heff⟩
  exact ⟨⟨_, rfl, by decide⟩, heff⟩

/-- A storing command that is granted its block. -/
theorem Store.perform_called (s : Store) (hfind : findCommand req.commandName = some s.command)
    (hargc : req.argc = 2) (h : ¬req.ValueRefused env log) :
    (req.perform env t).Ensures log fun p new => ∃ result t' new', p = .ok (result, t') ∧
      new = new' ++ req.valueEvents log ∧
      Called env t (s.call (arg req.argv 0) (some (req.valueBlock log)))
        (req.valueEvents log ++ log) result t' new' := by
  have harity : s.command.arity = 2 := by cases s <;> rfl
  have hbuild : (buildKeyValue env req.argv req.argsLengths).Ensures log fun r new =>
      r = some { key := arg req.argv 0, value := some (req.valueBlock log) } ∧
        new = req.valueEvents log := by
    rw [Traced.Ensures, buildKeyValue_of_granted env log req h]
    exact ⟨rfl, rfl⟩
  rw [Request.perform, hfind]
  refine Traced.ensures_ite (fun hne => absurd (harity.trans hargc.symm) hne) fun _ => ?_
  rw [s.build]
  refine hbuild.bind ?_
  rintro _ _ ⟨rfl, rfl⟩
  have hvalid : isKeyValid (arg req.argv 0) = true := eq_true_of_ne_false (not_or.mp h).1
  refine (s.proc_ensures hvalid rfl).bind ?_
  intro r new' hcalled
  exact ⟨r.1, r.2, new', rfl, rfl, hcalled⟩

/-- The execution of a storing command that is granted its block. -/
theorem Store.execute_called (s : Store) (hfind : findCommand req.commandName = some s.command)
    (hargc : req.argc = 2) (h : ¬req.ValueRefused env log) :
    (req.execute env t).Ensures log fun r _ =>
      Reports env t (s.call (arg req.argv 0) (some (req.valueBlock log))) r ∧
        (r.1.statusCode = 200 ↔ (s.call (arg req.argv 0) (some (req.valueBlock log))).Accepted
          env t (req.valueEvents log ++ log)) := by
  rw [execute_eq]
  refine (s.perform_called hfind hargc h).bind ?_
  rintro _ new ⟨result, t', new', rfl, -, hcalled⟩
  obtain ⟨code, ds, hout, -, hiff⟩ := hcalled.outcome
  refine (finalResult_write hcalled.reports).bind fun r _ hr => ?_
  have hstatus := hr.trans hcalled.done_iff
  exact ⟨⟨code, ds, hout, hstatus.trans hiff.symm⟩, hstatus⟩

/-- The execution of a storing command that is refused its block. -/
theorem Store.execute_refused (s : Store) (hfind : findCommand req.commandName = some s.command)
    (h : req.argc ≠ 2 ∨ req.ValueRefused env log) :
    (req.execute env t).Ensures log fun r _ => r.1.statusCode ≠ 200 := by
  rw [execute_eq]
  refine (s.perform_refused hfind h).bind ?_
  rintro _ new ⟨⟨⟨status, message⟩, rfl, hstatus⟩, -⟩
  refine (createErrorResponse_ensures env _ status message).bind ?_
  rintro r new' ⟨-, hr | hr, -⟩
  · exact hr.trans_ne hstatus
  · exact hr.trans_ne (by decide)

end Stores

/-! ### Deletion and lookups -/

section Lookups

variable (env : Env (Event DataEntry)) (t : Hashtable DataEntry) (req : Request)
  (log : List (Event DataEntry))

/-- The key of a command with one argument. -/
private theorem buildKey_ensures {tag : CmdFunctionType} {argv : List (List UInt8)}
    {argsLengths : List ℕ} (hvalid : isKeyValid (arg argv 0) = true)
    (htag : buildCommandData env tag argv argsLengths =
      if isKeyValid (arg argv 0) = false then pure none else pure (some { key := arg argv 0 })) :
    (buildCommandData env tag argv argsLengths).Ensures log fun r _ =>
      ∃ input, r = some input ∧ input.key = arg argv 0 := by
  rw [htag]
  exact Traced.ensures_ite
    (fun hinvalid => absurd hvalid (Bool.eq_false_iff.mp hinvalid)) fun _ => ⟨_, rfl, rfl⟩

/-- `DEL` makes one call. -/
theorem execute_del_reports
    (hfind : findCommand req.commandName = some ⟨bytes "DEL", .DEL, cmdDel, 1⟩)
    (hargc : req.argc = 1) (hvalid : isKeyValid (arg req.argv 0) = true) :
    (req.execute env t).Ensures log fun r _ =>
      Reports env t (.delete (arg req.argv 0) true) r := by
  refine execute_reports req ⟨bytes "DEL", .DEL, cmdDel, 1⟩ hfind hargc.symm
    (buildKey_ensures env log hvalid rfl) (.delete (arg req.argv 0) true)
    (fun code => if code = 0 then .del code else .error)
    (fun input => tableDelete env t input.key true) ?_ ?_ ?_
  · intro input hkey
    exact if_neg (Bool.eq_false_iff.not.mpr (not_not.mpr (hkey ▸ hvalid)))
  · exact fun input hkey => hkey ▸ tableDelete_spec env t input.key true
  · intro code
    by_cases hcode : code = 0
    · simp [hcode, CommandResult.ReportsWrite, CommandResult.Done]
    · simp [hcode, CommandResult.ReportsWrite, CommandResult.Done]

variable (henv : env.Succeeds)

include henv

/-- `table_get` returns a copy of the value that is found. -/
theorem tableGet_succeeds (key : List UInt8) :
    (tableGet env t key (some stdValueSizer)).Ensures log fun r _ =>
      ∃ v, ((∃ j, t.Found key j ∧ v = (t.slotAt key j).value) ∨ t.Missing key ∧ v = none) ∧
        r.map (fun b => b.val.data) = v.map fun b => b.val.data := by
  have hlock : (rdlock env (t.bucketIndex (hash key))).Ensures log fun ok _ => ok = true :=
    henv.lock _ _
  refine hlock.bind ?_
  rintro _ new₁ rfl
  refine (findValue_ensures t key _).bind ?_
  rintro (_ | b) new₂ ⟨-, hfound⟩
  · exact ⟨none, hfound, rfl⟩
  · have hsize : stdValueSizer b.val ≠ 0 := by
      rw [stdValueSizer, SIZEOF_DATA_ENTRY]
      omega
    refine Traced.ensures_ite (fun hzero => absurd hzero hsize) fun _ => ?_
    have hcopy (log : List (Event DataEntry)) :
        (memdup env b (stdValueSizer b.val)).Ensures log fun r _ =>
          r.map (fun c => c.val.data) = some b.val.data := by
      have hmalloc : (malloc env (stdValueSizer b.val)).Ensures log fun ok _ => ok = true :=
        henv.alloc _ _
      refine hmalloc.bind ?_
      rintro _ new rfl
      rfl
    exact (hcopy _).bind fun copy new hc => ⟨some b, hfound, hc⟩

theorem tableExist_succeeds (key : List UInt8) : (tableExist env t key).Ensures log fun r _ =>
    (r = true ↔ ¬t.Missing key) := by
  have hlock : (rdlock env (t.bucketIndex (hash key))).Ensures log fun ok _ => ok = true :=
    henv.lock _ _
  refine hlock.bind ?_
  rintro _ new₁ rfl
  refine (findSlot_ensures t key _).bind ?_
  rintro (_ | j) new₂ ⟨-, hr⟩
  · exact iff_of_false Bool.false_ne_true (not_not.mpr hr)
  · exact iff_of_true rfl fun hmiss => hmiss j hr

variable (hargc : req.argc = 1) (hvalid : isKeyValid (arg req.argv 0) = true)

include hargc hvalid

/-- `GET` answers with the value that is found. -/
theorem execute_get_answer
    (hfind : findCommand req.commandName = some ⟨bytes "GET", .GET, cmdGet, 1⟩) :
    (req.execute env t).Ensures log fun r _ => r.2 = t ∧
      ∃ v, ((∃ j, t.Found (arg req.argv 0) j ∧ v = (t.slotAt (arg req.argv 0) j).value) ∨
          t.Missing (arg req.argv 0) ∧ v = none) ∧
        match v with
        | some b => r.1.statusCode = 200 ∧ r.1.answer = some b.val.data
        | none => r.1.statusCode = 404 := by
  refine execute_ensures req ⟨bytes "GET", .GET, cmdGet, 1⟩ hfind hargc.symm
    (buildKey_ensures env log hvalid rfl) (Q := fun r t' => t' = t ∧
      ∃ v, ((∃ j, t.Found (arg req.argv 0) j ∧ v = (t.slotAt (arg req.argv 0) j).value) ∨
          t.Missing (arg req.argv 0) ∧ v = none) ∧
        match v with
        | some b => r.statusCode = 200 ∧ r.answer = some b.val.data
        | none => r.statusCode = 404) ?_
  intro input log' hkey
  refine Traced.ensures_ite
    (fun hinvalid => absurd (hkey ▸ hvalid) (Bool.eq_false_iff.mp hinvalid)) fun _ => ?_
  refine (tableGet_succeeds env t _ henv input.key).bind ?_
  rw [hkey]
  rintro (_ | b) new ⟨_ | a, hfound, hvalue⟩ log''
  · refine (createErrorResponse_ensures env log'' 404 _).mono ?_
    rintro r new ⟨-, -, hstatus⟩
    exact ⟨rfl, none, hfound, hstatus henv.alloc⟩
  · exact nomatch hvalue
  · exact nomatch hvalue
  · have hdata : b.val.data = a.val.data := Option.some_inj.mp hvalue
    have hmalloc : (malloc env b.val.size).Ensures log'' fun ok _ => ok = true := henv.alloc _ _
    refine hmalloc.bind ?_
    rintro _ new rfl
    exact ⟨rfl, some a, hfound, rfl, congrArg some (List.take_length.trans hdata)⟩

/-- `EXIST` answers whether a slot is found. -/
theorem execute_exist_answer
    (hfind : findCommand req.commandName = some ⟨bytes "EXIST", .EXIST, cmdExist, 1⟩) :
    (req.execute env t).Ensures log fun r _ => r.2 = t ∧ r.1.statusCode = 200 ∧
      ∃ found : Bool, (found = true ↔ ¬t.Missing (arg req.argv 0)) ∧
        r.1.answer = some (if found then bytes "1" else bytes "0") := by
  refine execute_ensures req ⟨bytes "EXIST", .EXIST, cmdExist, 1⟩ hfind hargc.symm
    (buildKey_ensures env log hvalid rfl) (Q := fun r t' => t' = t ∧ r.statusCode = 200 ∧
      ∃ found : Bool, (found = true ↔ ¬t.Missing (arg req.argv 0)) ∧
        r.answer = some (if found then bytes "1" else bytes "0")) ?_
  intro input log' hkey
  refine Traced.ensures_ite
    (fun hinvalid => absurd (hkey ▸ hvalid) (Bool.eq_false_iff.mp hinvalid)) fun _ => ?_
  refine (tableExist_succeeds env t _ henv input.key).bind ?_
  rw [hkey]
  intro found new hfound log''
  refine (ustrdup_ensures env log'' _).bind ?_
  rintro _ new ⟨-, rfl⟩
  rw [henv.alloc, if_pos rfl]
  refine ⟨rfl, rfl, found, hfound, ?_⟩
  cases found with
  | true => rfl
  | false => rfl

end Lookups

end SimpleCDatabase
