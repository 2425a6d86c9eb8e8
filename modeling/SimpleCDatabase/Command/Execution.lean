import SimpleCDatabase.Command.Basic
import SimpleCDatabase.Hashtable.Invariant

/-!
# What the execution of a command can do

An executed command either leaves the table as it is, or makes one call of a table operation
with one of its outcomes. A command that is not answered with status 200 leaves the table as it
was, whatever the environment refuses on the way.

## Main definitions

* `Request`, `Request.execute`: a command with its arguments, and its execution.
* `Request.perform`, `respond`: its two parts, the work and the rendering of the answer.
* `Executed`: the effect of an execution on the table, with the blocks stored and dropped.

## Main results

* `executeCommand_spec`: every execution is one of these.
* `executeCommand_atomic`: an execution that does not answer 200 leaves the table as it was.
-/

namespace SimpleCDatabase

open CString

/-! ### Results -/

section Results

variable (env : Env (Event DataEntry)) (log : List (Event DataEntry))

theorem ustrdup_ensures (src : List UInt8) : (ustrdup env src).Ensures log fun r new =>
    Effects new [] [] 0 ∧
      r = if env.alloc log ((cstr src).length + 1) then some (cstr src ++ [0]) else none := by
  refine (malloc_events env log _).bind ?_
  rintro ok new ⟨hok, rfl⟩
  have h := effects_malloc (α := DataEntry) ((cstr src).length + 1) ok
  rw [← hok]
  refine Traced.ensures_ite (fun htrue => ?_) fun hfalse => ?_
  · exact ⟨h, (if_pos htrue).symm⟩
  · exact ⟨h, (if_neg hfalse).symm⟩

theorem createErrorResponse_ensures (status : ℤ) (message : List UInt8) :
    (createErrorResponse env status message).Ensures log fun r new =>
      Effects new [] [] 0 ∧ (r.statusCode = status ∨ r.statusCode = 500) ∧
        ((∀ log size, env.alloc log size = true) → r.statusCode = status) := by
  refine (ustrdup_ensures env log message).bind ?_
  rintro (_ | body) new ⟨h, hr⟩
  · refine ⟨h, .inr rfl, fun halloc => ?_⟩
    rw [halloc, if_pos rfl] at hr
    exact absurd hr.symm (Option.some_ne_none _)
  · exact ⟨h, .inl rfl, fun _ => rfl⟩

/-- An internal error is answered with 500, with or without a text. -/
theorem createErrorResponse_internal (message : List UInt8) :
    (createErrorResponse env 500 message).Ensures log fun r _ => r.statusCode = 500 :=
  (createErrorResponse_ensures env log 500 message).mono fun _ _ h => h.2.1.elim id id

/-- A result of a write that carries no error. -/
def CommandResult.Done : CommandResult → Prop
  | .set code | .add code | .del code | .replace code | .resize code | .clear code => code = 0
  | _ => False

private theorem writeResult_ensures (error : ℤ) :
    Traced.Ensures (if error ≠ 0 then createErrorResponse env 409 TCP_OPERATION_FAILED
      else do
        let body ← ustrdup env TCP_SUCCESS
        pure { statusCode := 200, body := body, bodyLength := TCP_SUCCESS.length }) log
      fun r new => Effects new [] [] 0 ∧ (error = 0 → r.statusCode = 200) := by
  refine Traced.ensures_ite (fun herror => ?_) fun _ => ?_
  · exact (createErrorResponse_ensures env log _ _).mono fun r new h =>
      ⟨h.1, fun hzero => absurd hzero herror⟩
  · exact (ustrdup_ensures env log _).bind fun body new h => ⟨h.1, fun _ => rfl⟩

/-- The result of a command is built without creating and destroying value blocks, and the
result of a write that carries no error has status 200. -/
theorem finalResult_ensures (cmdResult : CommandResult) :
    (finalResult env cmdResult).Ensures log fun r new =>
      Effects new [] [] 0 ∧ (cmdResult.Done → r.statusCode = 200) := by
  have herr (log : List (Event DataEntry)) (status : ℤ) (message : List UInt8) :
      (createErrorResponse env status message).Ensures log fun _ new => Effects new [] [] 0 :=
    (createErrorResponse_ensures env log status message).mono fun _ _ h => h.1
  cases cmdResult with
  | get value =>
    refine (malloc_ensures env _ log).bind ?_
    intro ok new₁ h₁
    refine Traced.ensures_ite (fun _ => ⟨h₁, False.elim⟩) fun _ => ?_
    exact (herr _ _ _).mono fun r new₂ h₂ => ⟨by simpa using h₂.append h₁, False.elim⟩
  | set error => exact writeResult_ensures env log error
  | add error => exact writeResult_ensures env log error
  | del error => exact writeResult_ensures env log error
  | replace error => exact writeResult_ensures env log error
  | resize error => exact writeResult_ensures env log error
  | clear error => exact writeResult_ensures env log error
  | exist existence =>
    refine (ustrdup_ensures env log _).bind ?_
    rintro (_ | body) new₁ ⟨h₁, -⟩
    · exact (herr _ _ _).mono fun r new₂ h₂ => ⟨by simpa using h₂.append h₁, False.elim⟩
    · exact ⟨h₁, False.elim⟩
  | count type countT =>
    refine Traced.ensures_ite (fun _ => ?_) fun _ => ?_
    · exact (herr _ _ _).mono fun r new h => ⟨h, False.elim⟩
    · refine (malloc_ensures env _ log).bind ?_
      intro ok new₁ h₁
      refine Traced.ensures_ite (fun _ => ⟨h₁, False.elim⟩) fun _ => ?_
      exact (herr _ _ _).mono fun r new₂ h₂ => ⟨by simpa using h₂.append h₁, False.elim⟩
  | loadFactor loadFactor =>
    refine Traced.ensures_ite (fun _ => ?_) fun _ => ?_
    · exact (herr _ _ _).mono fun r new h => ⟨h, False.elim⟩
    · refine (ustrdup_ensures env log _).bind ?_
      rintro (_ | body) new₁ ⟨h₁, -⟩
      · exact (herr _ _ _).mono fun r new₂ h₂ => ⟨by simpa using h₂.append h₁, False.elim⟩
      · exact ⟨h₁, False.elim⟩
  | empty => exact (herr _ _ _).mono fun r new h => ⟨h, False.elim⟩
  | error => exact (herr _ _ _).mono fun r new h => ⟨h, False.elim⟩

end Results

/-! ### Command procedures -/

section Procedures

variable (env : Env (Event DataEntry)) (t : Hashtable DataEntry) (input : CommandData)

/-- What a command procedure can do: leave the table as it is, or make one call. -/
inductive Proceeded : CommandResult → Hashtable DataEntry → List (Event DataEntry) → Prop where
  | kept {result : CommandResult} {new : List (Event DataEntry)} {cs : List (Block DataEntry)}
    (heff : Effects new [] cs 0) : Proceeded result t new
  | called {result : CommandResult} {t' : Hashtable DataEntry} {new : List (Event DataEntry)}
    {call : TableCall DataEntry} {code : ℤ} {ds : List (Block DataEntry)}
    (hout : Outcome env t call code t' ds) (heff : Effects new ds [] 0)
    (hstores : ∀ b, call.stores = some b → input.value = some b)
    (hresize : ∀ N, call = .resize N → N = input.newSize) (hdone : code = 0 → result.Done) :
    Proceeded result t' new

/-- A command procedure that can do no more than `Proceeded` says. -/
def Proceeds (proc : Action (CommandResult × Hashtable DataEntry)) : Prop :=
  ∀ log, proc.Ensures log fun r new => Proceeded env t input r.1 r.2 new

variable {env t input}

/-- A procedure that makes one call and reports its code. -/
private theorem proceeds_of_performs {call : TableCall DataEntry}
    {op : Action (ℤ × Hashtable DataEntry)} (hop : Performs env t call op)
    (hdropped : ∀ {code t' ds}, Outcome env t call code t' ds → handed call.destroys ds = ds)
    (hstores : ∀ b, call.stores = some b → input.value = some b)
    (hresize : ∀ N, call = .resize N → N = input.newSize) (report : ℤ → CommandResult)
    (hreport : (report 0).Done) :
    Proceeds env t input (do
      let (code, context) ← op
      pure (report code, context)) := by
  intro log
  refine (hop log).bind ?_
  rintro ⟨code, t'⟩ new ⟨ds, hout, heff⟩
  rw [hdropped hout] at heff
  refine .called hout heff hstores hresize ?_
  rintro rfl
  exact hreport

private theorem proceeds_error : Proceeds env t input (pure (.error, t)) :=
  fun _ => .kept Effects.nil

private theorem proceeds_ite {c : Prop} [Decidable c]
    {proc proc' : Action (CommandResult × Hashtable DataEntry)}
    (h : Proceeds env t input proc) (h' : Proceeds env t input proc') :
    Proceeds env t input (if c then proc else proc') :=
  fun log => Traced.ensures_ite (fun _ => h log) fun _ => h' log

variable (env t input)

theorem cmdGet_proceeds : Proceeds env t input (cmdGet env t input) := by
  refine proceeds_ite proceeds_error fun log => ?_
  refine (tableGet_observes env t input.key (some stdValueSizer) log).bind ?_
  rintro (_ | value) new ⟨cs, heff⟩
  · exact .kept heff
  · exact .kept heff

theorem cmdSet_proceeds : Proceeds env t input (cmdSet env t input) :=
  proceeds_ite proceeds_error (proceeds_of_performs
    (tableSet_spec env t input.key input.value true) (fun _ => rfl) (fun _ h => h)
    (fun _ h => nomatch h) .set rfl)

theorem cmdAdd_proceeds : Proceeds env t input (cmdAdd env t input) :=
  proceeds_ite proceeds_error (proceeds_of_performs (tableAdd_spec env t input.key input.value)
    (fun h => by cases h <;> rfl) (fun _ h => h) (fun _ h => nomatch h) .add rfl)

theorem cmdDel_proceeds : Proceeds env t input (cmdDel env t input) :=
  proceeds_ite proceeds_error (proceeds_of_performs
    (tableDelete_spec env t input.key true) (fun _ => rfl) (fun _ h => nomatch h)
    (fun _ h => nomatch h)
    (fun code => if code = 0 then .del code else .error) rfl)

theorem cmdExist_proceeds : Proceeds env t input (cmdExist env t input) := by
  refine proceeds_ite proceeds_error fun log => ?_
  refine ((tableExist_silent env t input.key).observes log).bind ?_
  rintro existence new ⟨cs, heff⟩
  exact .kept heff

theorem cmdReplace_proceeds : Proceeds env t input (cmdReplace env t input) :=
  proceeds_ite proceeds_error (proceeds_of_performs
    (tableReplace_spec env t input.key input.value true) (fun _ => rfl) (fun _ h => h)
    (fun _ h => nomatch h)
    (fun code => if code ≠ 0 then .error else .replace 0) rfl)

theorem cmdResize_proceeds : Proceeds env t input (cmdResize env t input) :=
  proceeds_ite proceeds_error (proceeds_of_performs (tableResize_spec env t input.newSize)
    (fun h => by cases h <;> rfl) (fun _ h => nomatch h)
    (fun N h => by cases h; rfl) (fun code => if code ≠ 0 then .error else .resize 0) rfl)

theorem cmdClear_proceeds : Proceeds env t input (cmdClear env t input) :=
  proceeds_of_performs (tableClear_spec env t true) (fun _ => rfl) (fun _ h => nomatch h)
    (fun _ h => nomatch h) .clear rfl

theorem cmdLoadFactor_proceeds : Proceeds env t input (cmdLoadFactor env t input) :=
  fun _ => .kept Effects.nil

theorem cmdCount_proceeds : Proceeds env t input (cmdCount env t input) := by
  intro log
  rw [cmdCount]
  split
  · refine ((tableOccupiedBucketCounter_silent env t).observes log).bind ?_
    rintro occupied new ⟨cs, heff⟩
    exact .kept heff
  · exact .kept Effects.nil
  · refine ((tableMemoryUsage_silent env t (some stdValueSizer)).observes log).bind ?_
    rintro memory new ⟨cs, heff⟩
    exact .kept heff
  · exact .kept Effects.nil

/-- Every procedure of the command table. -/
theorem commandTable_proceeds {cmd : Command} (hcmd : cmd ∈ commandTable) :
    Proceeds env t input (cmd.proc env t input) := by
  simp only [commandTable, List.mem_cons, List.not_mem_nil, or_false] at hcmd
  rcases hcmd with rfl | rfl | rfl | rfl | rfl | rfl | rfl | rfl | rfl | rfl
  · exact cmdAdd_proceeds env t input
  · exact cmdClear_proceeds env t input
  · exact cmdCount_proceeds env t input
  · exact cmdDel_proceeds env t input
  · exact cmdExist_proceeds env t input
  · exact cmdGet_proceeds env t input
  · exact cmdLoadFactor_proceeds env t input
  · exact cmdReplace_proceeds env t input
  · exact cmdResize_proceeds env t input
  · exact cmdSet_proceeds env t input

end Procedures

/-! ### Execution -/

/-- A command as it reaches the dispatcher. -/
structure Request where
  commandName : List UInt8
  argc : ℤ
  argv : List (List UInt8)
  argsLengths : List ℕ
  deriving DecidableEq, Repr

/-- The execution of a command. -/
def Request.execute (env : Env (Event DataEntry)) (table : Hashtable DataEntry)
    (req : Request) : Action (ExecuteResult × Hashtable DataEntry) :=
  executeCommand env table req.commandName req.argc req.argv req.argsLengths

/-- The part of an execution before its answer is rendered: the result of the command procedure
with the table that it leaves, or the status and the text of the refusal before it. -/
def Request.perform (env : Env (Event DataEntry)) (table : Hashtable DataEntry)
    (req : Request) : Action (Except (ℤ × List UInt8) (CommandResult × Hashtable DataEntry)) :=
  match findCommand req.commandName with
  | none => pure (.error (404, bytes "Command not found"))
  | some cmd =>
    if cmd.arity ≠ req.argc then pure (.error (400, bytes "Incorrect number of arguments"))
    else do
      match ← buildCommandData env cmd.tag req.argv req.argsLengths with
      | none => pure (.error (400, bytes "Invalid argument format"))
      | some input =>
        let r ← cmd.proc env table input
        pure (.ok r)

/-- The rendering of the answer. -/
def respond (env : Env (Event DataEntry)) (table : Hashtable DataEntry) :
    Except (ℤ × List UInt8) (CommandResult × Hashtable DataEntry) →
      Action (ExecuteResult × Hashtable DataEntry)
  | .error (status, message) => do
    let response ← createErrorResponse env status message
    pure (response, table)
  | .ok (cmdResult, table) => do
    let response ← finalResult env cmdResult
    pure (response, table)

/-- The table that an execution leaves. -/
def tableAfter (table : Hashtable DataEntry) :
    Except (ℤ × List UInt8) (CommandResult × Hashtable DataEntry) → Hashtable DataEntry
  | .error _ => table
  | .ok (_, table') => table'

/-- An execution in its two parts. -/
theorem execute_eq (env : Env (Event DataEntry)) (t : Hashtable DataEntry) (req : Request) :
    req.execute env t = req.perform env t >>= respond env t := by
  refine Traced.ext fun log => ?_
  rw [Request.execute, executeCommand, Request.perform]
  cases findCommand req.commandName with
  | none => simp only [respond, Traced.run_bind, Traced.run_pure, List.nil_append, List.append_nil]
  | some cmd =>
    by_cases hne : cmd.arity ≠ req.argc
    · simp only [if_pos hne, respond, Traced.run_bind, Traced.run_pure, List.nil_append,
        List.append_nil]
    · simp only [if_neg hne, Traced.run_bind]
      cases ((buildCommandData env cmd.tag req.argv req.argsLengths).run log).1 with
      | none => simp only [respond, Traced.run_bind, Traced.run_pure, List.nil_append]
      | some input =>
        simp only [respond, Traced.run_bind, Traced.run_pure, List.nil_append, List.append_assoc]

/-- The tag of the command that a request names. -/
def Request.tag (req : Request) : Option CmdFunctionType :=
  (findCommand req.commandName).map Command.tag

/-- A command that does not ask for more than `2 ^ 63` buckets. -/
def Request.Bounded (req : Request) : Prop :=
  ∀ cmd, findCommand req.commandName = some cmd → cmd.tag = .RESIZE →
    (strtoul (arg req.argv 0)).1.toNat ≤ 2 ^ 63

/-- A command other than `RESIZE` is bounded. -/
theorem Request.bounded_of_tag {req : Request}
    (h : (findCommand req.commandName).map Command.tag ≠ some .RESIZE) : req.Bounded := by
  intro cmd hcmd htag
  rw [hcmd, Option.map_some, htag] at h
  exact absurd rfl h

section Execution

variable (env : Env (Event DataEntry)) (t : Hashtable DataEntry) (req : Request)
  (log : List (Event DataEntry))

theorem newBlock_ensures (v : DataEntry) : (newBlock v).Ensures log fun b new =>
    b = ⟨log.length, v⟩ ∧ new = [.create b] ∧ Effects new [] [b] 0 :=
  ⟨rfl, rfl, effects_create _⟩

/-- Decoded arguments: a block that was allocated is new, and only a `RESIZE` has a size. -/
structure Decoded (tag : CmdFunctionType) (argv : List (List UInt8)) (input : CommandData)
    (new : List (Event DataEntry)) : Prop where
  fresh : ∀ b, input.value = some b → log.length ≤ b.ident ∧ b.ident < (new ++ log).length
  newSize : input.newSize = 0 ∨ tag = .RESIZE ∧ input.newSize = (strtoul (arg argv 0)).1

private theorem buildKeyValue_ensures (tag : CmdFunctionType) (argv : List (List UInt8))
    (argsLengths : List ℕ) :
    (buildKeyValue env argv argsLengths).Ensures log fun r new => (∃ cs, Effects new [] cs 0) ∧
      ∀ input, r = some input → Decoded log tag argv input new := by
  refine Traced.ensures_ite (fun _ => ⟨⟨[], Effects.nil⟩, fun _ h => nomatch h⟩) fun _ => ?_
  refine (malloc_ensures env _ log).bind ?_
  intro ok new₁ h₁
  refine Traced.ensures_ite (fun _ => ?_) fun _ => ⟨⟨[], h₁⟩, fun _ h => nomatch h⟩
  refine (newBlock_ensures _ _).bind ?_
  rintro value new₂ ⟨hvalue, hnew, h₂⟩
  refine ⟨⟨_, h₂.append h₁⟩, ?_⟩
  rintro input ⟨⟩
  refine ⟨?_, .inl rfl⟩
  rintro b ⟨⟩
  rw [hvalue, hnew]
  simp only [List.length_append, List.length_singleton]
  omega

/-- The arguments are decoded without destroying a block. -/
theorem buildCommandData_ensures (tag : CmdFunctionType) (argv : List (List UInt8))
    (argsLengths : List ℕ) :
    (buildCommandData env tag argv argsLengths).Ensures log fun r new =>
      (∃ cs, Effects new [] cs 0) ∧ ∀ input, r = some input → Decoded log tag argv input new := by
  have hnone : (pure none : Action (Option CommandData)).Ensures log fun r new =>
      (∃ cs, Effects new [] cs 0) ∧ ∀ input, r = some input → Decoded log tag argv input new :=
    ⟨⟨[], Effects.nil⟩, fun _ h => nomatch h⟩
  have hsome {data : CommandData} (hvalue : data.value = none)
      (hsize : data.newSize = 0 ∨ tag = .RESIZE ∧ data.newSize = (strtoul (arg argv 0)).1) :
      (pure (some data) : Action (Option CommandData)).Ensures log fun r new =>
        (∃ cs, Effects new [] cs 0) ∧
          ∀ input, r = some input → Decoded log tag argv input new := by
    refine ⟨⟨[], Effects.nil⟩, ?_⟩
    rintro input ⟨⟩
    exact ⟨fun b hb => absurd (hvalue.symm.trans hb) nofun, hsize⟩
  cases tag with
  | SET => exact buildKeyValue_ensures env log .SET argv argsLengths
  | ADD => exact buildKeyValue_ensures env log .ADD argv argsLengths
  | REPLACE => exact buildKeyValue_ensures env log .REPLACE argv argsLengths
  | GET => exact Traced.ensures_ite (fun _ => hnone) fun _ => hsome rfl (.inl rfl)
  | DEL => exact Traced.ensures_ite (fun _ => hnone) fun _ => hsome rfl (.inl rfl)
  | EXIST => exact Traced.ensures_ite (fun _ => hnone) fun _ => hsome rfl (.inl rfl)
  | RESIZE => exact Traced.ensures_ite (fun _ => hnone) fun _ => hsome rfl (.inr ⟨rfl, rfl⟩)
  | CLEAR => exact hsome rfl (.inl rfl)
  | LOADFACTOR => exact hsome rfl (.inl rfl)
  | COUNT =>
    rw [buildCommandData]
    split
    · exact hnone
    · exact hsome rfl (.inl rfl)
  | ERROR => exact hnone
  | EMPTY => exact hnone

/-- What the execution of a command can do: leave the table as it is, or make one call of a
table operation. -/
inductive Executed (r : ExecuteResult) : Hashtable DataEntry → List (Event DataEntry) → Prop where
  | kept {new : List (Event DataEntry)} {cs : List (Block DataEntry)}
    (heff : Effects new [] cs 0) : Executed r t new
  | called {t' : Hashtable DataEntry} {new : List (Event DataEntry)}
    {call : TableCall DataEntry} {code : ℤ} {ds cs : List (Block DataEntry)}
    (hout : Outcome env t call code t' ds) (heff : Effects new ds cs 0)
    (hfresh : ∀ b, call.stores = some b → log.length ≤ b.ident ∧ b.ident < (new ++ log).length)
    (hbounded : req.Bounded → call.Bounded) (hstatus : code = 0 → r.statusCode = 200) :
    Executed r t' new

theorem createErrorResponse_silent (status : ℤ) (message : List UInt8) :
    (createErrorResponse env status message).Ensures log fun _ new => Effects new [] [] 0 :=
  (createErrorResponse_ensures env log status message).mono fun _ _ h => h.1

/-- The rendering of the answer creates and destroys no value block. -/
theorem respond_ensures
    (p : Except (ℤ × List UInt8) (CommandResult × Hashtable DataEntry)) :
    (respond env t p).Ensures log fun r new => r.2 = tableAfter t p ∧ Effects new [] [] 0 := by
  rcases p with ⟨status, message⟩ | ⟨result, t'⟩
  · exact (createErrorResponse_silent env log status message).bind fun _ _ h => ⟨rfl, h⟩
  · exact (finalResult_ensures env log result).bind fun _ _ h => ⟨rfl, h.1⟩

theorem mem_commandTable {name : List UInt8} {cmd : Command} (h : findCommand name = some cmd) :
    cmd ∈ commandTable := by
  obtain ⟨i, -, hi⟩ := Option.bind_eq_some_iff.mp h
  exact List.mem_of_getElem? hi

/-- A tag belongs to one entry of the command table. -/
theorem findCommand_of_tag {req : Request} {cmd : Command} (i : ℕ)
    (hcmd : commandTable[i]? = some cmd) (htag : req.tag = some cmd.tag) :
    findCommand req.commandName = some cmd := by
  obtain ⟨cmd', hfind, heq⟩ := Option.map_eq_some_iff.mp htag
  have hnodup : (commandTable.map Command.tag).Nodup := by decide
  have hsame := List.inj_on_of_nodup_map hnodup (mem_commandTable hfind)
    (List.mem_of_getElem? hcmd) heq
  rw [hfind, hsame]

/-- The call of a bounded command is bounded. -/
private theorem bounded_of_decoded {cmd : Command} (hcmd : findCommand req.commandName = some cmd)
    {input : CommandData} (hsize : input.newSize = 0 ∨
      cmd.tag = .RESIZE ∧ input.newSize = (strtoul (arg req.argv 0)).1)
    (hreq : req.Bounded) {call : TableCall DataEntry}
    (hresize : ∀ N, call = .resize N → N = input.newSize) : call.Bounded := by
  cases call with
  | resize N =>
    rw [TableCall.Bounded, hresize N rfl]
    rcases hsize with hzero | ⟨htag, hvalue⟩
    · rw [hzero]
      exact Nat.zero_le _
    · rw [hvalue]
      exact hreq cmd hcmd htag
  | _ => trivial

/-- **Every execution leaves the table as it is, or makes one call of a table operation.** -/
theorem execute_spec : (req.execute env t).Ensures log fun r new =>
    Executed env t req log r.1 r.2 new := by
  have hrefused (log' : List (Event DataEntry)) (status : ℤ) (message : List UInt8) :
      Traced.Ensures (do
        let response ← createErrorResponse env status message
        pure (response, t)) log' fun r new => r.2 = t ∧ Effects new [] [] 0 :=
    (createErrorResponse_silent env log' status message).bind fun _ _ h => ⟨rfl, h⟩
  rw [Request.execute, executeCommand]
  split
  · refine (hrefused log _ _).mono ?_
    rintro ⟨r, t'⟩ new ⟨rfl, heff⟩
    exact .kept heff
  · next cmd hcmd =>
    refine Traced.ensures_ite (fun _ => ?_) fun _ => ?_
    · refine (hrefused log _ _).mono ?_
      rintro ⟨r, t'⟩ new ⟨rfl, heff⟩
      exact .kept heff
    refine (buildCommandData_ensures env log cmd.tag req.argv req.argsLengths).bind ?_
    rintro (_ | input) new₁ ⟨⟨cs, h₁⟩, hdecoded⟩
    · refine (hrefused _ _ _).mono ?_
      rintro ⟨r, t'⟩ new₂ ⟨rfl, h₂⟩
      exact .kept (by simpa using h₂.append h₁)
    obtain ⟨hfresh, hsize⟩ := hdecoded input rfl
    refine (commandTable_proceeds env t input (mem_commandTable hcmd) _).bind ?_
    rintro ⟨result, t'⟩ new₂ hproc
    refine (finalResult_ensures env _ result).bind ?_
    rintro r new₃ ⟨h₃, hstatus⟩
    cases hproc with
    | kept h₂ => exact .kept (by simpa using (h₃.append h₂).append h₁)
    | called hout h₂ hstores hresize hdone =>
      refine .called hout (by simpa using (h₃.append h₂).append h₁) ?_ ?_
        fun hcode => hstatus (hdone hcode)
      · intro b hb
        have hb' := hfresh b (hstores b hb)
        simp only [List.length_append] at hb' ⊢
        omega
      · exact fun hreq => bounded_of_decoded req hcmd hsize hreq hresize

end Execution

/-- **Failed commands are atomic.** An execution that does not answer 200 leaves the table as it
was, whatever locks and memory the environment refuses. -/
theorem executeCommand_atomic (env : Env (Event DataEntry)) (t : Hashtable DataEntry)
    (commandName : List UInt8) (argc : ℤ) (argv : List (List UInt8)) (argsLengths : List ℕ)
    (log : List (Event DataEntry))
    (hstatus : ((executeCommand env t commandName argc argv argsLengths).run log).1.1.statusCode ≠
      200) : ((executeCommand env t commandName argc argv argsLengths).run log).1.2 = t := by
  have hspec : ((executeCommand env t commandName argc argv argsLengths)).Ensures log
      fun r _ => r.1.statusCode ≠ 200 → r.2 = t := by
    refine (execute_spec env t ⟨commandName, argc, argv, argsLengths⟩ log).mono ?_
    rintro ⟨r, t'⟩ new hexec hr
    cases hexec with
    | kept _ => rfl
    | called hout _ _ _ hdone => exact (hout.eq_of_code_ne_zero fun hcode => hr (hdone hcode)).1
  exact hspec hstatus

/-- A `CLEAR` that is refused the lock of the second bucket. -/
theorem executeCommand_atomic_clear :
    ((executeCommand ⟨fun _ _ => true, fun _ i => i == 0, fun _ _ => true⟩
      (Hashtable.fresh 2) (bytes "CLEAR") 0 [] []).run []).1.2 = Hashtable.fresh 2 :=
  executeCommand_atomic _ _ _ _ _ _ _ (by decide)

end SimpleCDatabase
