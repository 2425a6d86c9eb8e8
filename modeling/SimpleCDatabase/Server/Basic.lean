import SimpleCDatabase.Command.Execution

/-!
# The connection

One client connection of `server.c`: the input buffer, the state of the parser, and the parser as
it reads the buffer. What the code asks the environment, and what it does that is visible outside
the connection, are events.

The buffer is the list of the bytes of its allocation, so its length is `buffer_capacity`, and the
bytes from `buffer_used` on are the stale ones that `memmove` and `realloc` leave there. Sizes and
counters are natural numbers; each is bounded by an allocation. An array of arguments that is
`NULL` is the empty list. A store outside an array is recorded and changes nothing in the model.
The texts that the server prints are left out.

## Main definitions

* `ServerEvent`, `ServerEnv`: what a connection does, and what it depends on.
* `ServerContext.execute`: the execution of a command on the database of the server.
* `ClientContext`: the state of a connection.
* `appendToBuffer`, `parseStep`, `parseBuffer`, `onRead`: the reception of bytes.
* `receive`, `connection`: the reads of a connection, until it is closed.

## References

* `src/server.c`, `src/server.h`.
-/

namespace SimpleCDatabase

open CString

/-- The largest count of an array header that is accepted. -/
def MAX_ARGS : ℕ := 1024

/-- The largest length of a bulk header that is accepted. -/
def MAX_BULK_LENGTH : ℕ := 8192

/-! ### Events and environment -/

/-- What a connection does. A store names its index, the count of arguments at that time and the
number of elements of the array. -/
inductive ServerEvent where
  | malloc (size : ℕ) (granted : Bool)
  | timerStart
  | timerStop
  | consumed (bytes : List UInt8)
  | argvStore (index total size : ℕ)
  | lengthsStore (index total size : ℕ)
  | execute (request : Request)
  | replyStore (index size : ℕ)
  | write (bytes : List UInt8)
  | close
  deriving DecidableEq, Repr

/-- What a connection depends on: which requests for memory are granted, the bytes of fresh memory,
the bytes that stand after the input buffer, and the size of libuv's write request. -/
structure ServerEnv where
  alloc : List ServerEvent → ℕ → Bool
  memory : List ServerEvent → ℕ → UInt8
  beyond : List ServerEvent → List UInt8
  writeReqSize : ℕ

/-- Every request for memory is granted. -/
def ServerEnv.Grants (env : ServerEnv) : Prop := ∀ log size, env.alloc log size = true

/-- Every request for memory is granted, and memory that is not written is zero. -/
def ServerEnv.granting : ServerEnv := ⟨fun _ _ => true, fun _ _ => 0, fun _ => [], 208⟩

theorem ServerEnv.granting_grants : granting.Grants := fun _ _ => rfl

/-- `malloc` and `realloc`. -/
def ServerEnv.malloc (env : ServerEnv) (size : ℕ) : Traced ServerEvent Bool :=
  Traced.answer (fun log => env.alloc log size) (.malloc size)

/-- The bytes of a block of a new size: the old bytes as far as they fit, then fresh ones. -/
def reallocBytes (fresh : ℕ → UInt8) (old : List UInt8) (size : ℕ) : List UInt8 :=
  old.take size ++ (List.range (size - old.length)).map fun i => fresh (old.length + i)

/-- The database that the connections share, with the transcript of its environment.

Source: `command.h`, `server_context_t`. -/
structure ServerContext where
  db : Hashtable DataEntry
  log : List (Event DataEntry)

/-- A call of `execute_command` on the database of the server. -/
def ServerContext.execute (tables : Env (Event DataEntry)) (server : ServerContext)
    (request : Request) : ExecuteResult × ServerContext :=
  let r := (request.execute tables server.db).run server.log
  (r.1.1, ⟨r.1.2, r.2 ++ server.log⟩)

/-! ### The state of a connection -/

/-- Source: `server.h`, `parser_state_t`. -/
inductive ParserState where
  | expectType
  | expectLength
  | expectData
  deriving DecidableEq, Repr

/-- The state of a connection; `closing` holds once the stream has been passed to `uv_close`.

Source: `server.h`, `client_context_t`. -/
structure ClientContext where
  serverCtx : ServerContext
  buffer : List UInt8
  bufferUsed : ℕ
  state : ParserState
  argsTotal : ℕ
  argsParsed : ℕ
  dataToRead : ℕ
  tempArgv : List (List UInt8)
  tempArgLengths : List ℕ
  closing : Bool

namespace ClientContext

/-- A connection that has been accepted: zeroed by `calloc`, then `reset_parser`. -/
def fresh (server : ServerContext) : ClientContext where
  serverCtx := server
  buffer := []
  bufferUsed := 0
  state := .expectType
  argsTotal := 0
  argsParsed := 0
  dataToRead := 0
  tempArgv := []
  tempArgLengths := []
  closing := false

/-- `buffer_capacity`. -/
def bufferCapacity (ctx : ClientContext) : ℕ := ctx.buffer.length

/-- The bytes received and not yet consumed. -/
def pending (ctx : ClientContext) : List UInt8 := ctx.buffer.take ctx.bufferUsed

/-- `memcpy` to the end of the bytes in use. -/
def copyIn (ctx : ClientContext) (data : List UInt8) : ClientContext :=
  { ctx with
    buffer := ctx.buffer.take ctx.bufferUsed ++ data ++
      ctx.buffer.drop (ctx.bufferUsed + data.length)
    bufferUsed := ctx.bufferUsed + data.length }

/-- `memmove` of the bytes in use from `consumed` on to the front. -/
def shift (ctx : ClientContext) (consumed : ℕ) : ClientContext :=
  { ctx with
    buffer := (ctx.buffer.drop consumed).take (ctx.bufferUsed - consumed) ++
      ctx.buffer.drop (ctx.bufferUsed - consumed)
    bufferUsed := ctx.bufferUsed - consumed }

/-- Source: `server.c`, `free_parser_resources`. -/
def freeParserResources (ctx : ClientContext) : ClientContext :=
  { ctx with tempArgv := [], tempArgLengths := [] }

/-- Bytes at the front of the buffer are consumed. -/
def discard (ctx : ClientContext) (consumed : ℕ) : Traced ServerEvent ClientContext := do
  Traced.emit (.consumed (ctx.buffer.take consumed))
  pure (ctx.shift consumed)

/-- The stream is passed to `uv_close`. -/
def uvClose (ctx : ClientContext) : Traced ServerEvent ClientContext := do
  Traced.emit .close
  pure { ctx with closing := true }

/-- The parser closes the connection and returns. -/
def reject (ctx : ClientContext) : Traced ServerEvent (ForInStep ClientContext) := do
  let ctx ← ctx.uvClose
  pure (.done ctx)

end ClientContext

/-! ### The input buffer -/

/-- Append received bytes; the buffer is doubled when they do not fit, or more if needed.

Source: `server.c`, `append_to_buffer`. -/
def appendToBuffer (env : ServerEnv) (ctx : ClientContext) (data : List UInt8) :
    Traced ServerEvent ClientContext :=
  let needed := ctx.bufferUsed + data.length
  if ctx.bufferCapacity < needed then do
    let doubled := if ctx.bufferCapacity = 0 then 1024 else ctx.bufferCapacity * 2
    let newCapacity := if doubled < needed then needed else doubled
    if ← env.malloc newCapacity then
      let memory ← Traced.ask env.memory
      pure (({ ctx with buffer := reallocBytes memory ctx.buffer newCapacity }).copyIn data)
    else ctx.uvClose
  else pure (ctx.copyIn data)

/-- The index of the first `\r`, when `\n` follows it among the bytes at hand. -/
def findCrlf (p : List UInt8) : Option ℕ :=
  let crlf := p.idxOf 13
  if crlf + 1 < p.length ∧ p.getD (crlf + 1) 0 = 10 then some crlf else none

/-- The number of a header, as `strtol` reads it from the byte after the marker. The buffer is not
terminated, so this reads on past the bytes in use and past the end of the buffer. -/
def headerNumber (env : ServerEnv) (ctx : ClientContext) : Traced ServerEvent ℤ := do
  let beyond ← Traced.ask env.beyond
  pure (strtol (ctx.buffer.tail ++ beyond))

/-- The number of bytes `\r` and `\n` at the front. -/
def leadingWhitespace (ctx : ClientContext) : ℕ :=
  (ctx.pending.takeWhile fun c => c = 13 ∨ c = 10).length

/-! ### The parser -/

/-- The array header, once the white space in front of it has been consumed. -/
def arrayHeader (env : ServerEnv) (ctx : ClientContext) :
    Traced ServerEvent (ForInStep ClientContext) :=
  if ctx.bufferUsed < 1 then pure (.done ctx)
  else if ctx.buffer.headD 0 ≠ 42 then ctx.reject
  else match findCrlf ctx.pending with
    | none => pure (.done ctx)
    | some crlf => do
      let nArgs ← headerNumber env ctx
      if nArgs ≤ 0 ∨ (MAX_ARGS : ℤ) < nArgs then ctx.reject
      else if (longToSizet nArgs).2 then ({ ctx with argsTotal := (longToSizet nArgs).1 }).reject
      else
        let ctx := { ctx with
          argsTotal := (longToSizet nArgs).1
          argsParsed := 0
          state := .expectLength }
        let ctx ← ctx.discard (crlf + 2)
        pure (.yield ctx)

/-- Source: `server.c`, `parse_buffer`, the branch `PARSE_STATE_EXPECT_TYPE`. -/
def expectType (env : ServerEnv) (ctx : ClientContext) :
    Traced ServerEvent (ForInStep ClientContext) := do
  let ctx ← if 0 < leadingWhitespace ctx then ctx.discard (leadingWhitespace ctx) else pure ctx
  arrayHeader env ctx

/-- Source: `server.c`, `parse_buffer`, the branch `PARSE_STATE_EXPECT_LENGTH`. -/
def expectLength (env : ServerEnv) (ctx : ClientContext) :
    Traced ServerEvent (ForInStep ClientContext) :=
  if 0 < ctx.bufferUsed ∧ ctx.buffer.headD 0 ≠ 36 then ctx.reject
  else if ctx.bufferUsed < 1 then pure (.done ctx)
  else match findCrlf ctx.pending with
    | none => pure (.done ctx)
    | some crlf => do
      let len ← headerNumber env ctx
      if len < 0 ∨ (MAX_BULK_LENGTH : ℤ) < len then ctx.reject
      else if (longToSizet len).2 then
        ({ ctx with dataToRead := (longToSizet len).1 }).reject
      else
        let ctx := { ctx with dataToRead := (longToSizet len).1, state := .expectData }
        let ctx ← ctx.discard (crlf + 2)
        pure (.yield ctx)

/-- The arrays of the arguments are allocated before the first argument is stored. -/
def allocArguments (env : ServerEnv) (ctx : ClientContext) :
    Traced ServerEvent (Bool × ClientContext) :=
  if ctx.argsParsed = 0 then do
    let argv ← env.malloc (ctx.argsTotal * 8)
    let lengths ← env.malloc (ctx.argsTotal * 8)
    pure (argv && lengths, { ctx with
      tempArgv := if argv then List.replicate ctx.argsTotal [] else []
      tempArgLengths := if lengths then List.replicate ctx.argsTotal 0 else [] })
  else pure (true, ctx)

/-- An argument and its length are stored, with a NUL after it, and consumed with the two bytes
that follow it. The pointer is stored before it is checked. A store past the arrays is an event with
its index, and changes nothing here; in the program it overwrites the heap behind them, so what is
said of a run is said of the program only as long as it makes no such store. -/
def storeArgument (env : ServerEnv) (ctx : ClientContext) :
    Traced ServerEvent (Bool × ClientContext) := do
  let granted ← env.malloc (ctx.dataToRead + 1)
  Traced.emit (.argvStore ctx.argsParsed ctx.argsTotal ctx.tempArgv.length)
  if granted then
    Traced.emit (.lengthsStore ctx.argsParsed ctx.argsTotal ctx.tempArgLengths.length)
    let ctx := { ctx with
      tempArgv := ctx.tempArgv.set ctx.argsParsed (ctx.buffer.take ctx.dataToRead ++ [0])
      tempArgLengths := ctx.tempArgLengths.set ctx.argsParsed ctx.dataToRead
      argsParsed := ctx.argsParsed + 1 }
    let ctx ← ctx.discard (ctx.dataToRead + 2)
    pure (true, ctx)
  else pure (false, { ctx with tempArgv := ctx.tempArgv.set ctx.argsParsed [] })

/-- The reply to a command: the body is extended, terminated and sent. The block is one byte shorter
than the two bytes that are stored after the body, so the line feed is stored past it. This store is
an event, and is taken to change nothing: most blocks end in bytes that the allocator does not use.
A block that the body fills to its last usable byte has none (with 16-byte chunks and an 8-byte
header those of bodies of 23, 39, 55, … bytes), and the size of the next chunk is overwritten.

Source: `server.c`, `parse_buffer`, from the call of `execute_command` on. -/
def sendReply (env : ServerEnv) (ctx : ClientContext) (result : ExecuteResult) :
    Traced ServerEvent (ForInStep ClientContext) := do
  let bodyLen := result.bodyLength
  if ← env.malloc (bodyLen + 1) then
    let memory ← Traced.ask env.memory
    Traced.emit (.replyStore bodyLen (bodyLen + 1))
    Traced.emit (.replyStore (bodyLen + 1) (bodyLen + 1))
    let response := (reallocBytes memory (result.body.getD []) (bodyLen + 1)).set bodyLen 13
    let response := response.set (bodyLen + 1) 10
    if ← env.malloc env.writeReqSize then
      if (sizetToUint (bodyLen + 1)).2 then ctx.freeParserResources.reject
      else
        Traced.emit (.write (response.take (sizetToUint (bodyLen + 1)).1))
        -- `free_parser_resources` and `reset_parser` are commented out here.
        pure (.yield ctx)
    else ctx.freeParserResources.reject
  else ctx.freeParserResources.reject

/-- The arguments stored so far, as `execute_command` is passed them. -/
def ClientContext.request (ctx : ClientContext) (argc : ℤ) : Request where
  commandName := ctx.tempArgv.headD []
  argc := argc
  argv := if 0 < argc then ctx.tempArgv.tail else []
  argsLengths := if 0 < argc then ctx.tempArgLengths.tail else []

/-- The command whose arguments are complete is executed and answered. -/
def dispatch (tables : Env (Event DataEntry)) (env : ServerEnv) (ctx : ClientContext) :
    Traced ServerEvent (ForInStep ClientContext) :=
  let argc := sizetToInt (ctx.argsTotal - 1)
  if argc.2 then ctx.freeParserResources.reject
  else do
    Traced.emit (.execute (ctx.request argc.1))
    let r := ctx.serverCtx.execute tables (ctx.request argc.1)
    sendReply env { ctx with serverCtx := r.2 } r.1

/-- Source: `server.c`, `parse_buffer`, the branch `PARSE_STATE_EXPECT_DATA`. -/
def expectData (tables : Env (Event DataEntry)) (env : ServerEnv) (ctx : ClientContext) :
    Traced ServerEvent (ForInStep ClientContext) :=
  if ctx.bufferUsed < ctx.dataToRead + 2 then pure (.done ctx)
  else do
    let allocated ← allocArguments env ctx
    if allocated.1 then
      let stored ← storeArgument env allocated.2
      if stored.1 then
        if stored.2.argsParsed = stored.2.argsTotal then dispatch tables env stored.2
        else pure (.yield { stored.2 with state := .expectLength })
      else stored.2.freeParserResources.reject
    else allocated.2.freeParserResources.reject

/-- One iteration of the loop of `parse_buffer`. -/
def parseStep (tables : Env (Event DataEntry)) (env : ServerEnv) (ctx : ClientContext) :
    Traced ServerEvent (ForInStep ClientContext) :=
  match ctx.state with
  | .expectType => expectType env ctx
  | .expectLength => expectLength env ctx
  | .expectData => expectData tables env ctx

/-- The loop of `parse_buffer`. An iteration that goes on consumes bytes
(`run_parseBuffer_yield`), so the bound on their number is not reached.

Source: `server.c`, `parse_buffer`. -/
def parseBuffer (tables : Env (Event DataEntry)) (env : ServerEnv) (ctx : ClientContext) :
    Traced ServerEvent ClientContext :=
  Traced.loop (parseStep tables env) (ctx.bufferUsed + 1) ctx

/-! ### Reads -/

/-- The read callback: `nread` bytes at the front of `buf`, or an error. When the buffer cannot
grow the connection is closed, and the parser still runs.

Source: `server.c`, `on_read`. -/
def onRead (tables : Env (Event DataEntry)) (env : ServerEnv) (ctx : ClientContext) (nread : ℤ)
    (buf : List UInt8) : Traced ServerEvent ClientContext :=
  if 0 < nread then do
    Traced.emit .timerStart
    let size := ssizetToSizet nread
    let ctx ← appendToBuffer env ctx (buf.take size.1)
    if size.2 then pure ctx else parseBuffer tables env ctx
  else if nread < 0 then do
    Traced.emit .timerStop
    ctx.uvClose
  else pure ctx

/-- The arrival of bytes. libuv makes no read callback after `uv_close`. -/
def receive (tables : Env (Event DataEntry)) (env : ServerEnv) (ctx : ClientContext)
    (data : List UInt8) : Traced ServerEvent ClientContext :=
  if ctx.closing then pure ctx else onRead tables env ctx data.length data

/-- The reads of a connection that has just been accepted. -/
def connection (tables : Env (Event DataEntry)) (env : ServerEnv) (server : ServerContext)
    (reads : List (List UInt8)) : Traced ServerEvent ClientContext :=
  Traced.runAll (receive tables env) (ClientContext.fresh server) reads

end SimpleCDatabase
