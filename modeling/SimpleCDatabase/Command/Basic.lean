import SimpleCDatabase.Foundations.BinarySearch
import SimpleCDatabase.Hashtable.Basic

/-!
# Commands

The dispatcher of `command.c`: the command table and its binary search, the decoding of the
arguments, the ten command procedures and the result of an execution. The members of a union are
the fields of one record; a field that no path has written is zero, as in the source, which
initialises the unions to zero. An argument is the bytes from its pointer to its terminator, and
comes with its length.

## Main definitions

* `DataEntry`: the stored values.
* `commandTable`, `findCommandIndex`: the commands and their lookup.
* `buildCommandData`: the decoding of arguments.
* `executeCommand`: the execution of a command.

## References

* `src/command.c`, `src/command.h`.
-/

namespace SimpleCDatabase

open CString

/-! ### Data -/

/-- The bytes of a text. -/
def bytes (s : String) : List UInt8 := s.toList.map fun c => c.toUInt8

/-- A stored value, `data_entry_t`; its `size` is the number of its bytes. -/
structure DataEntry where
  data : List UInt8
  deriving DecidableEq, Repr

/-- The `size` of a stored value. -/
def DataEntry.size (entry : DataEntry) : ℕ := entry.data.length

/-- `sizeof(data_entry_t)`. -/
def SIZEOF_DATA_ENTRY : ℕ := 8

/-- Source: `command.c`, `std_value_sizer`. -/
def stdValueSizer (entry : DataEntry) : ℕ := SIZEOF_DATA_ENTRY + entry.size

inductive CmdFunctionType where
  | GET | SET | ADD | DEL | EXIST | REPLACE | RESIZE | CLEAR | LOADFACTOR | COUNT | ERROR | EMPTY
  deriving DecidableEq, Repr

inductive CmdCount where
  | CAPACITY | MEMORY_USAGE | TOTAL_ELEM | OCCUPIED_BUCKET
  deriving DecidableEq, Repr

/-- `command_data_t`. -/
structure CommandData where
  key : List UInt8 := []
  value : Option (Block DataEntry) := none
  newSize : UInt64 := 0
  countType : CmdCount := .CAPACITY

/-- The union `count_t`, a `double` or a `size_t` in the same eight bytes. -/
inductive CountValue where
  | counterD (d : ℚ)
  | counterS (s : UInt64)

/-- The union read as a `size_t`. -/
def CountValue.asSizet : CountValue → UInt64
  | counterD d => Double.bits d
  | counterS s => s

/-- The union read as a `double`. -/
def CountValue.asDouble : CountValue → ℚ
  | counterD d => d
  | counterS s => Double.ofBits s

/-- `command_result_t`: its type with the member of the union that belongs to it. -/
inductive CommandResult where
  | get (value : Block DataEntry)
  | set (error : ℤ)
  | add (error : ℤ)
  | del (error : ℤ)
  | exist (existence : Bool)
  | replace (error : ℤ)
  | resize (error : ℤ)
  | clear (error : ℤ)
  | loadFactor (loadFactor : ℚ)
  | count (type : CmdCount) (countT : CountValue)
  | error
  | empty

/-- `execute_result_t`; the body is the initialised bytes of its block. -/
structure ExecuteResult where
  statusCode : ℤ
  body : Option (List UInt8)
  bodyLength : ℕ
  deriving DecidableEq, Repr

def TCP_SUCCESS : List UInt8 := bytes "OK"
def TCP_OPERATION_FAILED : List UInt8 := bytes "Operation failed"
def TCP_KEY_NOT_FOUND : List UInt8 := bytes "Key not found"
def TCP_INTERNAL_ERROR : List UInt8 := bytes "Internal server error"
def TCP_MEMORY_ERROR : List UInt8 := bytes "Out of memory"
def TCP_TRUE : List UInt8 := bytes "1"
def TCP_FALSE : List UInt8 := bytes "0"

/-- The computations of commands. -/
abbrev Action (β : Type) : Type := Traced (Event DataEntry) β

variable (env : Env (Event DataEntry))

/-! ### Command procedures -/

section Procedures

variable (context : Hashtable DataEntry)

/-- Source: `command.c`, `cmd_get`. -/
def cmdGet (input : CommandData) : Action (CommandResult × Hashtable DataEntry) :=
  if isKeyValid input.key = false then pure (.error, context)
  else do
    match ← tableGet env context input.key (some stdValueSizer) with
    | none => pure (.empty, context)
    | some value => pure (.get value, context)

/-- Source: `command.c`, `cmd_set`. -/
def cmdSet (input : CommandData) : Action (CommandResult × Hashtable DataEntry) :=
  if isKeyValid input.key = false ∨ input.value = none then pure (.error, context)
  else do
    let (error, context) ← tableSet env context input.key input.value true
    pure (.set error, context)

/-- Source: `command.c`, `cmd_add`. -/
def cmdAdd (input : CommandData) : Action (CommandResult × Hashtable DataEntry) :=
  if isKeyValid input.key = false ∨ input.value = none then pure (.error, context)
  else do
    let (error, context) ← tableAdd env context input.key input.value
    pure (.add error, context)

/-- Source: `command.c`, `cmd_del`. -/
def cmdDel (input : CommandData) : Action (CommandResult × Hashtable DataEntry) :=
  if isKeyValid input.key = false then pure (.error, context)
  else do
    let (error, context) ← tableDelete env context input.key true
    pure (if error = 0 then .del error else .error, context)

/-- Source: `command.c`, `cmd_exist`. -/
def cmdExist (input : CommandData) : Action (CommandResult × Hashtable DataEntry) :=
  if isKeyValid input.key = false then pure (.error, context)
  else do
    let existence ← tableExist env context input.key
    pure (.exist existence, context)

/-- Source: `command.c`, `cmd_replace`. -/
def cmdReplace (input : CommandData) : Action (CommandResult × Hashtable DataEntry) :=
  if isKeyValid input.key = false ∨ input.value = none then pure (.error, context)
  else do
    let (errorCode, context) ← tableReplace env context input.key input.value true
    pure (if errorCode ≠ 0 then .error else .replace 0, context)

/-- Source: `command.c`, `cmd_resize`. -/
def cmdResize (input : CommandData) : Action (CommandResult × Hashtable DataEntry) :=
  if input.newSize = 0 then pure (.error, context)
  else do
    let (errorCode, context) ← tableResize env context input.newSize
    pure (if errorCode ≠ 0 then .error else .resize 0, context)

/-- Source: `command.c`, `cmd_clear`. -/
def cmdClear (_input : CommandData) : Action (CommandResult × Hashtable DataEntry) := do
  let (error, context) ← tableClear env context true
  pure (.clear error, context)

/-- Source: `command.c`, `cmd_load_factor`. -/
def cmdLoadFactor (_env : Env (Event DataEntry)) (context : Hashtable DataEntry)
    (_input : CommandData) : Action (CommandResult × Hashtable DataEntry) :=
  pure (.loadFactor (tableLoadFactor context), context)

/-- Source: `command.c`, `cmd_count`. No path writes the subtype of the result. -/
def cmdCount (input : CommandData) : Action (CommandResult × Hashtable DataEntry) :=
  match input.countType with
  | .OCCUPIED_BUCKET => do
    let occupied ← tableOccupiedBucketCounter env context
    pure (.count .CAPACITY (.counterD occupied), context)
  | .CAPACITY => pure (.count .CAPACITY (.counterS (tableCapacity context)), context)
  | .MEMORY_USAGE => do
    let memory ← tableMemoryUsage env context (some stdValueSizer)
    pure (.count .CAPACITY (.counterS memory), context)
  | .TOTAL_ELEM => pure (.count .CAPACITY (.counterS (tableTotalElem context)), context)

end Procedures

/-! ### Command table -/

/-- An entry of the command table. -/
structure Command where
  name : List UInt8
  tag : CmdFunctionType
  proc : Env (Event DataEntry) → Hashtable DataEntry → CommandData →
    Action (CommandResult × Hashtable DataEntry)
  arity : ℤ

/-- The entries that `registry_create` counts, without the sentinel that closes the array. -/
def commandTable : List Command :=
  [⟨bytes "ADD", .ADD, cmdAdd, 2⟩,
   ⟨bytes "CLEAR", .CLEAR, cmdClear, 0⟩,
   ⟨bytes "COUNT", .COUNT, cmdCount, 1⟩,
   ⟨bytes "DEL", .DEL, cmdDel, 1⟩,
   ⟨bytes "EXIST", .EXIST, cmdExist, 1⟩,
   ⟨bytes "GET", .GET, cmdGet, 1⟩,
   ⟨bytes "LOADFACTOR", .LOADFACTOR, cmdLoadFactor, 0⟩,
   ⟨bytes "REPLACE", .REPLACE, cmdReplace, 2⟩,
   ⟨bytes "RESIZE", .RESIZE, cmdResize, 1⟩,
   ⟨bytes "SET", .SET, cmdSet, 2⟩]

/-- Source: `command.c`, `compare_command_names`. -/
def compareCommandNames (key : List UInt8) (element : Command) : ℤ := strcmp key element.name

/-- Source: `command.c`, `find_command_index`; `none` stands for -1. -/
def findCommandIndex (commandName : List UInt8) : Option ℕ :=
  bsearch (compareCommandNames commandName) commandTable commandTable.length 0
    commandTable.length

/-- The entry at the index that `find_command_index` returns. -/
def findCommand (commandName : List UInt8) : Option Command :=
  (findCommandIndex commandName).bind fun i => commandTable[i]?

/-! ### Decoding of arguments -/

/-- Source: `command.c`, `stocmdcount`. -/
def stocmdcount (subtypeStr : List UInt8) : Option CmdCount :=
  let named (name : String) (type : CmdCount) : Option CmdCount :=
    if strcmp subtypeStr (bytes name) = 0 then some type else none
  if subtypeStr.headD 0 = 0 then none
  else
    match Char.ofNat (toupper (subtypeStr.headD 0)).toNat with
    | 'C' => named "CAPACITY" .CAPACITY
    | 'M' => named "MEMORY_USAGE" .MEMORY_USAGE
    | 'T' => named "TOTAL_ELEM" .TOTAL_ELEM
    | 'O' => named "OCCUPIED_BUCKET" .OCCUPIED_BUCKET
    | _ => none

/-- The bytes that `memcpy` copies. -/
def memcpy (src : List UInt8) (n : ℕ) : List UInt8 := (src ++ List.replicate n 0).take n

/-- The argument at an index. -/
def arg (argv : List (List UInt8)) (i : ℕ) : List UInt8 := argv.getD i []

/-- The case of `REPLACE`, `SET` and `ADD` in `build_command_data`. -/
def buildKeyValue (argv : List (List UInt8)) (argsLengths : List ℕ) :
    Action (Option CommandData) :=
  let key := arg argv 0
  if isKeyValid key = false then pure none
  else do
    let size := argsLengths.getD 1 0
    if ← malloc env (SIZEOF_DATA_ENTRY + size) then
      let value ← newBlock (DataEntry.mk (memcpy (arg argv 1) size))
      pure (some { key := key, value := some value })
    else pure none

/-- Source: `command.c`, `build_command_data`. -/
def buildCommandData (tag : CmdFunctionType) (argv : List (List UInt8))
    (argsLengths : List ℕ) : Action (Option CommandData) :=
  match tag with
  | .REPLACE | .SET | .ADD => buildKeyValue env argv argsLengths
  | .GET | .DEL | .EXIST =>
    let key := arg argv 0
    if isKeyValid key = false then pure none else pure (some { key := key })
  | .RESIZE =>
    let (newSize, endptr) := strtoul (arg argv 0)
    if endptr.length = (arg argv 0).length ∨ endptr.headD 0 ≠ 0 then pure none
    else pure (some { newSize := newSize })
  | .CLEAR | .LOADFACTOR => pure (some {})
  | .COUNT =>
    match stocmdcount (arg argv 0) with
    | none => pure none
    | some countType => pure (some { countType := countType })
  | .ERROR | .EMPTY => pure none

/-! ### Results -/

/-- Source: `string_functionality.c`, `ustrdup`. -/
def ustrdup (src : List UInt8) : Action (Option (List UInt8)) := do
  if ← malloc env ((cstr src).length + 1) then pure (some (cstr src ++ [0])) else pure none

/-- Source: `command.c`, `create_error_response`. -/
def createErrorResponse (status : ℤ) (message : List UInt8) : Action ExecuteResult := do
  match ← ustrdup env message with
  | none => pure { statusCode := 500, body := none, bodyLength := 0 }
  | some body => pure { statusCode := status, body := some body, bodyLength := ustrlen body }

/-- The size of the buffers that numbers are printed to. -/
def PRINT_BUFFER_SIZE : ℕ := 64

/-- The switch of `execute_command` on the type of a result. -/
def finalResult (cmdResult : CommandResult) : Action ExecuteResult :=
  match cmdResult with
  | .get value => do
    if ← malloc env value.val.size then
      pure { statusCode := 200, body := some value.val.data, bodyLength := value.val.size }
    else createErrorResponse env 500 TCP_MEMORY_ERROR
  | .set error | .add error | .del error | .replace error | .resize error | .clear error =>
    if error ≠ 0 then createErrorResponse env 409 TCP_OPERATION_FAILED
    else do
      let body ← ustrdup env TCP_SUCCESS
      pure { statusCode := 200, body := body, bodyLength := TCP_SUCCESS.length }
  | .exist existence => do
    match ← ustrdup env (if existence then TCP_TRUE else TCP_FALSE) with
    | none => createErrorResponse env 500 TCP_MEMORY_ERROR
    | some body => pure { statusCode := 200, body := some body, bodyLength := ustrlen body }
  | .count type countT => do
    let text := match type with
      | .OCCUPIED_BUCKET => Double.fixed 2 countT.asDouble
      | .CAPACITY | .MEMORY_USAGE | .TOTAL_ELEM => decimal countT.asSizet.toNat
    if text.length ≥ PRINT_BUFFER_SIZE then
      createErrorResponse env 500 (bytes "Failed to format COUNT result")
    else if ← malloc env (text.length + 1) then
      pure { statusCode := 200, body := some text, bodyLength := text.length }
    else createErrorResponse env 500 TCP_MEMORY_ERROR
  | .loadFactor loadFactor => do
    let text := Double.fixed 4 loadFactor
    if text.length ≥ PRINT_BUFFER_SIZE then
      createErrorResponse env 500 (bytes "Failed to format LOADFACTOR result")
    else
      match ← ustrdup env text with
      | none => createErrorResponse env 500 TCP_MEMORY_ERROR
      | some body => pure { statusCode := 200, body := some body, bodyLength := text.length }
  | .empty => createErrorResponse env 404 TCP_KEY_NOT_FOUND
  | .error => createErrorResponse env 500 TCP_INTERNAL_ERROR

/-- Source: `command.c`, `execute_command`. -/
def executeCommand (context : Hashtable DataEntry) (commandName : List UInt8) (argc : ℤ)
    (argv : List (List UInt8)) (argsLengths : List ℕ) :
    Action (ExecuteResult × Hashtable DataEntry) :=
  match findCommand commandName with
  | none => do
    let response ← createErrorResponse env 404 (bytes "Command not found")
    pure (response, context)
  | some cmd =>
    if cmd.arity ≠ argc then do
      let response ← createErrorResponse env 400 (bytes "Incorrect number of arguments")
      pure (response, context)
    else do
      match ← buildCommandData env cmd.tag argv argsLengths with
      | none =>
        let response ← createErrorResponse env 400 (bytes "Invalid argument format")
        pure (response, context)
      | some commandInputs =>
        let (cmdResult, context) ← cmd.proc env context commandInputs
        let response ← finalResult env cmdResult
        pure (response, context)

end SimpleCDatabase
