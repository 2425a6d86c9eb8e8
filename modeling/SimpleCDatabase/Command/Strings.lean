import SimpleCDatabase.Command.Execution

/-!
# Arguments as strings

An argument that comes from the network has a length and may have a `NUL` anywhere. The name of the
command, the key, the size and the subtype, each the first argument, are read as C strings, up to
the first `NUL`; the value of a storing command is the one argument that is read by its length. So
a command is executed as the one whose name and first argument are cut there, whatever the table
and the environment.

## Main definitions

* `Request.cut`: the command with its name and its first argument cut.

## Main results

* `tableSet_cstr` to `tableReplace_cstr`: the operations on a key.
* `execute_cut`: the execution of a command.

## References

* `src/command.c`, `find_command_index` and `build_command_data`.
-/

namespace SimpleCDatabase

open CString Hashtable

/-! ### String functions -/

section Strings

variable (s key : List UInt8)

@[simp] theorem cstr_cstr : cstr (cstr s) = cstr s := cstr_of_zero_notMem (zero_notMem_cstr s)

/-- Both ends of a loop over a string read its first byte. -/
theorem headD_cstr : (cstr s).headD 0 = s.headD 0 := by
  by_cases h : s.headD 0 = 0
  · rw [(cstr_eq_nil_iff s).mpr h, h]
    rfl
  · rw [cstr_eq_cons h]
    rfl

theorem tail_cstr {s : List UInt8} (h : s.headD 0 ≠ 0) : (cstr s).tail = cstr s.tail := by
  rw [cstr_eq_cons h]
  rfl

theorem ustrlen_cstr : ustrlen (cstr key) = ustrlen key := by
  rw [ustrlen_eq, ustrlen_eq, cstr_cstr]

theorem isKeyValid_cstr : isKeyValid (cstr key) = isKeyValid key := by
  rw [isKeyValid, isKeyValid, headD_cstr]

theorem strcmp_cstr (t : List UInt8) : strcmp (cstr s) t = strcmp s t := by
  induction s generalizing t with
  | nil => rfl
  | cons c s ih =>
    by_cases hc : c = 0
    · have hnil : cstr (c :: s) = [] := (cstr_eq_nil_iff _).mpr hc
      rw [hnil, strcmp, strcmp, hc]
      by_cases ht : (0 : UInt8) = t.headD 0
      · rw [if_pos ht, if_pos rfl, ← ht]
        rfl
      · rw [if_neg ht]
        simp
    · have hcons : cstr (c :: s) = c :: cstr s := cstr_eq_cons (s := c :: s) hc
      rw [hcons, strcmp, strcmp, ih]

private theorem ustrncmpLoop_cstr (n : ℕ) : ustrncmpLoop n s (cstr key) = ustrncmpLoop n s key := by
  induction n generalizing s key with
  | zero => rw [ustrncmpLoop, ustrncmpLoop, headD_cstr]
  | succ n ih =>
    rw [ustrncmpLoop, ustrncmpLoop, headD_cstr]
    by_cases heq : s.headD 0 = key.headD 0
    · rw [if_pos heq, if_pos heq]
      by_cases h0 : s.headD 0 = 0
      · rw [if_pos h0, if_pos h0]
      · rw [if_neg h0, if_neg h0, tail_cstr (heq ▸ h0), ih]
    · rw [if_neg heq, if_neg heq]

theorem ustrncmp_cstr (n : ℕ) : ustrncmp s (cstr key) n = ustrncmp s key n := by
  rw [ustrncmp, ustrncmp, ustrncmpLoop_cstr]

private theorem ustrncpyLoop_cstr (m : ℕ) :
    ustrncpyLoop m s (cstr key) = ustrncpyLoop m s key := by
  induction s generalizing m key with
  | nil => simp only [ustrncpyLoop]
  | cons d s ih =>
    cases m with
    | zero => rfl
    | succ m =>
      rw [ustrncpyLoop, ustrncpyLoop, headD_cstr]
      by_cases h0 : key.headD 0 = 0
      · rw [if_pos h0, if_pos h0]
      · rw [if_neg h0, if_neg h0, tail_cstr h0, ih]

theorem KeyArray.copy_cstr (dest : KeyArray) : dest.copy (cstr key) = dest.copy key := by
  refine Subtype.ext ?_
  change ustrncpy dest.1 (cstr key) KEY_MAX_LEN = ustrncpy dest.1 key KEY_MAX_LEN
  rw [ustrncpy, ustrncpy, ustrncpyLoop_cstr]

end Strings

/-! ### Operations of the table -/

section Operations

variable {α : Type} (env : Env (Event α)) (t : Hashtable α) (key : List UInt8)
  (value : Option (Block α)) (d : Bool)

theorem Slot.matches_cstr (slot : Slot α) (h : UInt64) :
    slot.matches h (cstr key) = slot.matches h key := by
  rw [Slot.matches, Slot.matches, ustrncmp_cstr]

theorem findSlot_cstr (i : ℕ) (h : UInt64) (l : List (Fin BUCKET_CAPACITY)) :
    findSlot t i h (cstr key) l = findSlot t i h key l := by
  induction l with
  | nil => rfl
  | cons j l ih => simp only [findSlot, Slot.matches_cstr, ih]

theorem findSlotOrEmpty_cstr (i : ℕ) (h : UInt64) (first : Option (Fin BUCKET_CAPACITY))
    (l : List (Fin BUCKET_CAPACITY)) :
    findSlotOrEmpty t i h (cstr key) first l = findSlotOrEmpty t i h key first l := by
  induction l generalizing first with
  | nil => rfl
  | cons j l ih => simp only [findSlotOrEmpty, Slot.matches_cstr, ih]

theorem tableSet_cstr : tableSet env t (cstr key) value d = tableSet env t key value d := by
  simp only [tableSet, ustrlen_cstr, hash_cstr, findSlotOrEmpty_cstr, insertEntry,
    KeyArray.copy_cstr]

theorem tableAdd_cstr : tableAdd env t (cstr key) value = tableAdd env t key value := by
  simp only [tableAdd, hash_cstr, findSlotOrEmpty_cstr, insertEntry, KeyArray.copy_cstr]

theorem tableDelete_cstr : tableDelete env t (cstr key) d = tableDelete env t key d := by
  simp only [tableDelete, hash_cstr, findSlot_cstr]

theorem tableReplace_cstr :
    tableReplace env t (cstr key) value d = tableReplace env t key value d := by
  simp only [tableReplace, hash_cstr, findSlot_cstr]

theorem tableExist_cstr : tableExist env t (cstr key) = tableExist env t key := by
  simp only [tableExist, hash_cstr, findSlot_cstr]

theorem tableGet_cstr (valueSizer : Option (α → ℕ)) :
    tableGet env t (cstr key) valueSizer = tableGet env t key valueSizer := by
  simp only [tableGet, findValue, hash_cstr, findSlot_cstr]

end Operations

/-! ### Commands -/

/-- The arguments with the first one cut at its first `NUL`. -/
def cutFirst (argv : List (List UInt8)) : List (List UInt8) := argv.modifyHead cstr

/-- The command with its name and its first argument cut at their first `NUL`. -/
def Request.cut (req : Request) : Request :=
  { req with commandName := cstr req.commandName, argv := cutFirst req.argv }

/-- The decoded arguments with the key cut at its first `NUL`. -/
def CommandData.cut (input : CommandData) : CommandData := { input with key := cstr input.key }

section Commands

variable (argv : List (List UInt8)) (argsLengths : List ℕ)

theorem arg_cutFirst_zero : arg (cutFirst argv) 0 = cstr (arg argv 0) := by
  cases argv <;> rfl

theorem arg_cutFirst_one : arg (cutFirst argv) 1 = arg argv 1 := by
  cases argv <;> rfl

theorem findCommand_cstr (name : List UInt8) : findCommand (cstr name) = findCommand name := by
  have hcompare : compareCommandNames (cstr name) = compareCommandNames name :=
    funext fun cmd => strcmp_cstr name cmd.name
  rw [findCommand, findCommand, findCommandIndex, findCommandIndex, hcompare]

theorem stocmdcount_cstr (s : List UInt8) : stocmdcount (cstr s) = stocmdcount s := by
  simp only [stocmdcount, headD_cstr, strcmp_cstr]

/-- What `strtoul` reads of the string at a pointer, and whether it stops at the terminator. -/
private theorem strtoul_cstr (s : List UInt8) :
    (strtoul (cstr s)).1 = (strtoul s).1 ∧
      (((strtoul (cstr s)).2.length = (cstr s).length ∨ (strtoul (cstr s)).2.headD 0 ≠ 0) ↔
        ((strtoul s).2.length = s.length ∨ (strtoul s).2.headD 0 ≠ 0)) := by
  have hsplit : cstr s ++ s.dropWhile (· ≠ 0) = s := List.takeWhile_append_dropWhile
  have hlength := congrArg List.length hsplit
  rw [List.length_append] at hlength
  have hhead (rest : List UInt8) (hrest : 0 ∉ rest) :
      (rest ++ s.dropWhile (· ≠ 0)).headD 0 = rest.headD 0 := by
    cases rest with
    | nil => exact headD_dropWhile_cstr s
    | cons c rest => rfl
  rw [strtoul, strtoul, scanNumeral_eq_cstr s]
  cases hscan : scanNumeral (cstr s) with
  | none => exact ⟨rfl, iff_of_true (.inl rfl) (.inl rfl)⟩
  | some r =>
    obtain ⟨neg, n, rest⟩ := r
    have hnotMem : 0 ∉ rest := fun hmem =>
      zero_notMem_cstr s ((scanNumeral_eq_some_iff.mp hscan).mem_of_mem_rest hmem)
    have hiff : (rest.length = (cstr s).length ∨ rest.headD 0 ≠ 0) ↔
        ((rest ++ s.dropWhile (· ≠ 0)).length = s.length ∨
          (rest ++ s.dropWhile (· ≠ 0)).headD 0 ≠ 0) := by
      rw [hhead rest hnotMem, List.length_append]
      refine or_congr_left ?_
      omega
    dsimp only [Option.map_some]
    split_ifs <;> exact ⟨rfl, hiff⟩

variable (env : Env (Event DataEntry))

/-- The decoding of arguments cuts nothing but the key. -/
private theorem buildCommandData_cut (tag : CmdFunctionType) :
    Traced.Alike (fun r r' => r = r'.map CommandData.cut)
      (buildCommandData env tag (cutFirst argv) argsLengths)
      (buildCommandData env tag argv argsLengths) := by
  have hkeyed : Traced.Alike (fun r r' => r = r'.map CommandData.cut)
      (buildKeyValue env (cutFirst argv) argsLengths) (buildKeyValue env argv argsLengths) := by
    rw [buildKeyValue, buildKeyValue]
    simp only [arg_cutFirst_zero, arg_cutFirst_one, isKeyValid_cstr]
    refine Traced.alike_ite (fun _ => Traced.alike_pure rfl) fun _ => ?_
    refine (Traced.alike_of_eq rfl).bind ?_
    rintro granted _ rfl
    refine Traced.alike_ite (fun _ => ?_) fun _ => Traced.alike_pure rfl
    refine (Traced.alike_of_eq rfl).bind ?_
    rintro value _ rfl
    exact Traced.alike_pure rfl
  have hkey : Traced.Alike (fun r r' => r = r'.map CommandData.cut)
      (if isKeyValid (arg (cutFirst argv) 0) = false then pure none
        else pure (some ({ key := arg (cutFirst argv) 0 } : CommandData)) : Action _)
      (if isKeyValid (arg argv 0) = false then pure none
        else pure (some ({ key := arg argv 0 } : CommandData)) : Action _) := by
    simp only [arg_cutFirst_zero, isKeyValid_cstr]
    exact Traced.alike_ite (fun _ => Traced.alike_pure rfl) fun _ => Traced.alike_pure rfl
  cases tag with
  | SET | ADD | REPLACE => exact hkeyed
  | GET | DEL | EXIST => exact hkey
  | CLEAR | LOADFACTOR | ERROR | EMPTY => exact Traced.alike_pure rfl
  | COUNT =>
    rw [buildCommandData, buildCommandData, arg_cutFirst_zero, stocmdcount_cstr]
    cases stocmdcount (arg argv 0) <;> exact Traced.alike_pure rfl
  | RESIZE =>
    obtain ⟨hsize, hiff⟩ := strtoul_cstr (arg argv 0)
    rw [buildCommandData, buildCommandData, arg_cutFirst_zero]
    simp only [hiff, hsize]
    exact Traced.alike_ite (fun _ => Traced.alike_pure rfl) fun _ => Traced.alike_pure rfl

/-- A command procedure reads its key as a string. -/
private theorem proc_cut {cmd : Command} (hcmd : cmd ∈ commandTable) (t : Hashtable DataEntry)
    (input : CommandData) : cmd.proc env t input.cut = cmd.proc env t input := by
  simp only [commandTable, List.mem_cons, List.not_mem_nil, or_false] at hcmd
  rcases hcmd with rfl | rfl | rfl | rfl | rfl | rfl | rfl | rfl | rfl | rfl
  · simp only [cmdAdd, CommandData.cut, isKeyValid_cstr, tableAdd_cstr]
  · rfl
  · rfl
  · simp only [cmdDel, CommandData.cut, isKeyValid_cstr, tableDelete_cstr]
  · simp only [cmdExist, CommandData.cut, isKeyValid_cstr, tableExist_cstr]
  · simp only [cmdGet, CommandData.cut, isKeyValid_cstr, tableGet_cstr]
  · rfl
  · simp only [cmdReplace, CommandData.cut, isKeyValid_cstr, tableReplace_cstr]
  · rfl
  · simp only [cmdSet, CommandData.cut, isKeyValid_cstr, tableSet_cstr]

end Commands

/-- **Names and first arguments are strings.** Whatever the arguments, the table and the
environment, a command has the same result, leaves the same table and does the same on the way as
the command whose name and first argument are cut at their first `NUL`. -/
theorem execute_cut (env : Env (Event DataEntry)) (t : Hashtable DataEntry) (req : Request) :
    req.cut.execute env t = req.execute env t := by
  have halike : Traced.Alike Eq (req.cut.execute env t) (req.execute env t) := by
    have hname : findCommand req.cut.commandName = findCommand req.commandName :=
      findCommand_cstr req.commandName
    rw [Request.execute, Request.execute, executeCommand, executeCommand, hname]
    cases hfind : findCommand req.commandName with
    | none => exact Traced.alike_of_eq rfl
    | some cmd =>
      refine Traced.alike_ite (fun _ => Traced.alike_of_eq rfl) fun _ => ?_
      refine (buildCommandData_cut req.argv req.argsLengths env cmd.tag).bind ?_
      rintro _ (_ | input) rfl
      · exact Traced.alike_of_eq rfl
      · dsimp only [Option.map_some]
        rw [proc_cut env (mem_commandTable hfind) t input]
        exact Traced.alike_of_eq rfl
  exact Traced.ext fun log => Prod.ext (halike log).1 (halike log).2

end SimpleCDatabase
