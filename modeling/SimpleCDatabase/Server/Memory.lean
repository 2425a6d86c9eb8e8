import SimpleCDatabase.Foundations.Blocks
import SimpleCDatabase.Foundations.Lifting
import SimpleCDatabase.Server.Handles

/-!
# The memory of a connection

The functions of `server.c` a second time, with the pointers of a connection and the blocks of
memory behind them: its context, the input buffer, the arrays of the arguments and the arguments,
the buffers that libuv reads into, and for each write that is pending its request and its response.
What the first level computes is computed here as well, and a part that moves no block is lifted
from it.

What `execute_command` and the table do with memory is left to their own accounts; the body that a
command returns is a block of the connection from then on.

## Main definitions

* `MemoryEvent`: the events of a connection, its handles and its memory.
* `Pointers`, `OwnedContext`, `Session`: the pointers of a connection, with the state of its parser
  and with its handles.
* `Memory.appendToBuffer`, `Memory.freeParserResources`, `Memory.sendReply`, `Memory.parseBuffer`,
  `Memory.onRead`: the reception of bytes.
* `Memory.onNewConnection`, `Memory.onClientRead`, `Memory.onWriteComplete`,
  `Memory.onClientTimeout`, `Memory.onClientClose`, `Memory.onTimerClose`: the callbacks.
* `Session.step`, `sessions`: runs of callbacks.

## References

* `src/server.c`.
-/

namespace SimpleCDatabase

open Traced

/-! ### Events -/

/-- What a connection does, what is done to its handles, and what is done to the heap. -/
inductive MemoryEvent where
  | server (e : ServerEvent)
  | handle (e : HandleEvent)
  | heap (o : Blocks.Op)
  deriving DecidableEq, Repr

namespace MemoryEvent

def serverEvent : MemoryEvent → Option ServerEvent
  | .server e => some e
  | _ => none

def handleEvent : MemoryEvent → Option HandleEvent
  | .handle e => some e
  | _ => none

def op : MemoryEvent → Option Blocks.Op
  | .heap o => some o
  | _ => none

end MemoryEvent

/-- A part that is about the connection alone. -/
def ofServer {α : Type} (x : Traced ServerEvent α) : Traced MemoryEvent α :=
  Traced.lift .server MemoryEvent.serverEvent x

/-- A part that is about the handles alone. -/
def ofHandle {α : Type} (x : Traced HandleEvent α) : Traced MemoryEvent α :=
  Traced.lift .handle MemoryEvent.handleEvent x

/-! ### Pointers -/

/-- A write that is pending: the response, the block it is in, and the block of the request.

Source: `server.h`, `write_req_t`. -/
structure PendingWrite where
  response : List UInt8
  base : ℕ
  req : ℕ
  deriving DecidableEq, Repr

/-- The pointers of a connection: its context, to which the stream points and, once it has been
initialised, the timer; those in the context, and those that libuv holds. The elements of
`temp_argv` that have not been stored point to no block. -/
structure Pointers where
  context : Option ℕ
  timerData : Option ℕ
  buffer : Option ℕ
  tempArgv : Option ℕ
  args : List (Option ℕ)
  tempArgLengths : Option ℕ
  writes : List PendingWrite

namespace Pointers

/-- Before a client connects. -/
def null : Pointers := ⟨none, none, none, none, [], none, []⟩

/-- The arrays of the arguments, and the arguments. -/
def argumentBlocks (p : Pointers) : Multiset ℕ :=
  Blocks.pointed p.tempArgv + (p.args.reduceOption + Blocks.pointed p.tempArgLengths)

/-- The requests that are pending, and their responses. -/
def writeBlocks (p : Pointers) : Multiset ℕ :=
  p.writes.flatMap fun w => [w.base, w.req]

/-- The blocks of a connection. -/
def blocks (p : Pointers) : Multiset ℕ :=
  p.argumentBlocks + (Blocks.pointed p.buffer + (p.writeBlocks + Blocks.pointed p.context))

end Pointers

/-- The context of a connection, with its pointers. -/
structure OwnedContext where
  ctx : ClientContext
  ptrs : Pointers

/-! ### Reception -/

namespace Memory

/-- `malloc`, as the parser calls it. -/
def malloc (env : ServerEnv) (size : ℕ) : Traced MemoryEvent (Option ℕ) :=
  Blocks.tryMalloc .heap (ofServer (env.malloc size))

/-- `realloc`, as the parser calls it. -/
def realloc (env : ServerEnv) (p : Option ℕ) (size : ℕ) : Traced MemoryEvent (Option ℕ) :=
  Blocks.tryRealloc .heap (ofServer (env.malloc size)) p

/-- `free`. -/
def free (p : Option ℕ) : Traced MemoryEvent Unit := Blocks.free .heap p

/-- What a pointer points to is read or written. -/
def use : Option ℕ → Traced MemoryEvent Unit
  | some b => Traced.emit (.heap (.use b))
  | none => Traced.emit (.heap .stray)

/-- Source: `server.c`, `append_to_buffer`. -/
def appendToBuffer (env : ServerEnv) (c : OwnedContext) (data : List UInt8) :
    Traced MemoryEvent OwnedContext :=
  let needed := c.ctx.bufferUsed + data.length
  if c.ctx.bufferCapacity < needed then do
    let doubled := if c.ctx.bufferCapacity = 0 then 1024 else c.ctx.bufferCapacity * 2
    let newCapacity := if doubled < needed then needed else doubled
    match ← realloc env c.ptrs.buffer newCapacity with
    | some buffer =>
      let memory ← ofServer (Traced.ask env.memory)
      pure {
        ctx := ({ c.ctx with buffer := reallocBytes memory c.ctx.buffer newCapacity }).copyIn data
        ptrs := { c.ptrs with buffer := some buffer } }
    | none =>
      let ctx ← ofServer c.ctx.uvClose
      pure { c with ctx }
  else pure { c with ctx := c.ctx.copyIn data }

/-- The first `n` elements of `temp_argv` are freed. -/
def freeArgs : List (Option ℕ) → ℕ → Traced MemoryEvent Unit
  | _, 0 => pure ()
  | some b :: args, n + 1 => do
    free (some b)
    freeArgs args n
  | none :: args, n + 1 => do
    Traced.emit (.heap .stray)
    freeArgs args n
  | [], n + 1 => do
    Traced.emit (.heap .stray)
    freeArgs [] n

/-- Source: `server.c`, `free_parser_resources`. -/
def freeParserResources (c : OwnedContext) : Traced MemoryEvent OwnedContext := do
  if c.ptrs.tempArgv ≠ none then
    freeArgs c.ptrs.args c.ctx.argsParsed
    free c.ptrs.tempArgv
  free c.ptrs.tempArgLengths
  pure {
    ctx := c.ctx.freeParserResources
    ptrs := { c.ptrs with tempArgv := none, args := [], tempArgLengths := none } }

/-- The parser closes the connection and returns. -/
def reject (c : OwnedContext) : Traced MemoryEvent (ForInStep OwnedContext) := do
  let r ← ofServer c.ctx.reject
  pure (Traced.mapStep (fun ctx => { c with ctx }) r)

/-- Source: `server.c`, `parse_buffer`, the branch `PARSE_STATE_EXPECT_TYPE`. It moves no block. -/
def expectType (env : ServerEnv) (c : OwnedContext) :
    Traced MemoryEvent (ForInStep OwnedContext) := do
  let r ← ofServer (SimpleCDatabase.expectType env c.ctx)
  pure (Traced.mapStep (fun ctx => { c with ctx }) r)

/-- Source: `server.c`, `parse_buffer`, the branch `PARSE_STATE_EXPECT_LENGTH`. It moves no
block. -/
def expectLength (env : ServerEnv) (c : OwnedContext) :
    Traced MemoryEvent (ForInStep OwnedContext) := do
  let r ← ofServer (SimpleCDatabase.expectLength env c.ctx)
  pure (Traced.mapStep (fun ctx => { c with ctx }) r)

/-- The arrays of the arguments are allocated before the first argument is stored. What
`temp_argv` pointed to before is not freed. -/
def allocArguments (env : ServerEnv) (c : OwnedContext) :
    Traced MemoryEvent (Bool × OwnedContext) :=
  if c.ctx.argsParsed = 0 then do
    let argv ← malloc env (c.ctx.argsTotal * 8)
    let lengths ← malloc env (c.ctx.argsTotal * 8)
    pure (argv.isSome && lengths.isSome, {
      ctx := { c.ctx with
        tempArgv := if argv.isSome then List.replicate c.ctx.argsTotal [] else []
        tempArgLengths := if lengths.isSome then List.replicate c.ctx.argsTotal 0 else [] }
      ptrs := { c.ptrs with
        tempArgv := argv
        args := if argv.isSome then List.replicate c.ctx.argsTotal none else []
        tempArgLengths := lengths } })
  else pure (true, c)

/-- An argument is allocated and stored. -/
def storeArgument (env : ServerEnv) (c : OwnedContext) :
    Traced MemoryEvent (Bool × OwnedContext) := do
  let ctx := c.ctx
  let arg ← malloc env (ctx.dataToRead + 1)
  ofServer (Traced.emit (.argvStore ctx.argsParsed ctx.argsTotal ctx.tempArgv.length))
  let ptrs := { c.ptrs with args := c.ptrs.args.set ctx.argsParsed arg }
  if arg.isSome then
    ofServer (Traced.emit
      (.lengthsStore ctx.argsParsed ctx.argsTotal ctx.tempArgLengths.length))
    let ctx := { ctx with
      tempArgv := ctx.tempArgv.set ctx.argsParsed (ctx.buffer.take ctx.dataToRead ++ [0])
      tempArgLengths := ctx.tempArgLengths.set ctx.argsParsed ctx.dataToRead
      argsParsed := ctx.argsParsed + 1 }
    let ctx ← ofServer (ctx.discard (ctx.dataToRead + 2))
    pure (true, ⟨ctx, ptrs⟩)
  else pure (false, ⟨{ ctx with tempArgv := ctx.tempArgv.set ctx.argsParsed [] }, ptrs⟩)

/-- The connection is given up after a command has been executed. -/
def abandon (c : OwnedContext) : Traced MemoryEvent (ForInStep OwnedContext) := do
  let c ← freeParserResources c
  reject c

/-- The reply to a command. `uv_write` takes over the request and the response until the write is
complete.

Source: `server.c`, `parse_buffer`, from the call of `execute_command` on. -/
def sendReply (env : ServerEnv) (c : OwnedContext) (result : ExecuteResult) (body : Option ℕ) :
    Traced MemoryEvent (ForInStep OwnedContext) := do
  let bodyLen := result.bodyLength
  match ← realloc env body (bodyLen + 1) with
  | some base =>
    let memory ← ofServer (Traced.ask env.memory)
    ofServer (Traced.emit (.replyStore bodyLen (bodyLen + 1)))
    ofServer (Traced.emit (.replyStore (bodyLen + 1) (bodyLen + 1)))
    let response := (reallocBytes memory (result.body.getD []) (bodyLen + 1)).set bodyLen 13
    let response := response.set (bodyLen + 1) 10
    match ← malloc env env.writeReqSize with
    | some req =>
      if (sizetToUint (bodyLen + 1)).2 then
        free (some base)
        free (some req)
        abandon c
      else
        let sent := response.take (sizetToUint (bodyLen + 1)).1
        ofServer (Traced.emit (.write sent))
        let writes := ⟨sent, base, req⟩ :: c.ptrs.writes
        pure (.yield { c with ptrs := { c.ptrs with writes } })
    | none =>
      free (some base)
      abandon c
  | none =>
    free body
    abandon c

/-- The block of the body that a command returns. -/
def bodyBlock (result : ExecuteResult) : Traced MemoryEvent (Option ℕ) :=
  Blocks.tryMalloc .heap (pure result.body.isSome)

/-- The command whose arguments are complete is executed and answered. -/
def dispatch (tables : Env (Event DataEntry)) (env : ServerEnv) (c : OwnedContext) :
    Traced MemoryEvent (ForInStep OwnedContext) :=
  let argc := sizetToInt (c.ctx.argsTotal - 1)
  if argc.2 then abandon c
  else do
    ofServer (Traced.emit (.execute (c.ctx.request argc.1)))
    let r := c.ctx.serverCtx.execute tables (c.ctx.request argc.1)
    let body ← bodyBlock r.1
    sendReply env { c with ctx := { c.ctx with serverCtx := r.2 } } r.1 body

/-- Source: `server.c`, `parse_buffer`, the branch `PARSE_STATE_EXPECT_DATA`. -/
def expectData (tables : Env (Event DataEntry)) (env : ServerEnv) (c : OwnedContext) :
    Traced MemoryEvent (ForInStep OwnedContext) :=
  if c.ctx.bufferUsed < c.ctx.dataToRead + 2 then pure (.done c)
  else do
    let allocated ← allocArguments env c
    if allocated.1 then
      let stored ← storeArgument env allocated.2
      if stored.1 then
        if stored.2.ctx.argsParsed = stored.2.ctx.argsTotal then dispatch tables env stored.2
        else pure (.yield { stored.2 with ctx := { stored.2.ctx with state := .expectLength } })
      else abandon stored.2
    else abandon allocated.2

/-- One iteration of the loop of `parse_buffer`. -/
def parseStep (tables : Env (Event DataEntry)) (env : ServerEnv) (c : OwnedContext) :
    Traced MemoryEvent (ForInStep OwnedContext) :=
  match c.ctx.state with
  | .expectType => expectType env c
  | .expectLength => expectLength env c
  | .expectData => expectData tables env c

/-- Source: `server.c`, `parse_buffer`. -/
def parseBuffer (tables : Env (Event DataEntry)) (env : ServerEnv) (c : OwnedContext) :
    Traced MemoryEvent OwnedContext :=
  Traced.loop (parseStep tables env) (c.ctx.bufferUsed + 1) c

/-- Source: `server.c`, `on_read`; `base` is the buffer that libuv has read into. It is freed at
the end, but not when the callback returns before. -/
def onRead (tables : Env (Event DataEntry)) (env : ServerEnv) (c : OwnedContext) (nread : ℤ)
    (buf : List UInt8) (base : Option ℕ) : Traced MemoryEvent OwnedContext :=
  if 0 < nread then do
    ofServer (Traced.emit .timerStart)
    let size := ssizetToSizet nread
    let c ← appendToBuffer env c (buf.take size.1)
    if size.2 then pure c
    else
      let c ← parseBuffer tables env c
      free base
      pure c
  else if nread < 0 then do
    ofServer (Traced.emit .timerStop)
    let ctx ← ofServer c.ctx.uvClose
    free base
    pure { c with ctx }
  else do
    free base
    pure c

end Memory

/-! ### Callbacks -/

/-- A connection with its handles, and its pointers. -/
structure Session where
  connection : Connection
  ptrs : Pointers

namespace Memory

/-- Source: `server.c`, `on_new_connection`. -/
def onNewConnection (status : ℤ) (granted : Bool) (accepted : ℤ) (s : Session) :
    Traced MemoryEvent Session :=
  if status < 0 then pure s
  else do
    let context ← Blocks.tryMalloc .heap (pure granted)
    let connection ← ofHandle
      (SimpleCDatabase.onNewConnection status context.isSome accepted s.connection)
    let timerData := if accepted = 0 then context else none
    pure ⟨connection, if context.isSome then { s.ptrs with context, timerData } else s.ptrs⟩

/-- The buffer that libuv reads into. It is as long as libuv is told, which is zero when there is no
memory for it.

Source: `server.c`, `alloc_buffer`. -/
def allocBuffer (buf : List UInt8) : Traced MemoryEvent (Option ℕ) :=
  Blocks.tryMalloc .heap (pure (0 < buf.length))

/-- Bytes arrive, or the end of the stream, or an error.

Source: `server.c`, `alloc_buffer` and `on_read`. -/
def onClientRead (tables : Env (Event DataEntry)) (env : ServerEnv) (nread : ℤ)
    (buf : List UInt8) (s : Session) : Traced MemoryEvent Session := do
  let base ← allocBuffer buf
  use s.ptrs.context
  let r ← Traced.listen (onRead tables env ⟨s.connection.ctx, s.ptrs⟩ nread buf base)
  let log := r.2.filterMap MemoryEvent.serverEvent
  let events := handleEvents log
  ofHandle (Traced.emits events)
  pure ⟨{ s.connection with
    ctx := r.1.ctx
    log := log ++ s.connection.log
    client := if .closeClient ∈ events then .closing else s.connection.client
    timerActive := (events.filterMap HandleEvent.timer).headD s.connection.timerActive
    writes := s.connection.writes + events.filterMap HandleEvent.response }, r.1.ptrs⟩

/-- A request and its response are freed, and when the write has failed the stream is read from the
request afterwards. -/
def completeWrite (response : List UInt8) (status : ℤ) (p : Pointers) :
    Traced MemoryEvent Pointers :=
  match p.writes.find? (·.response = response) with
  | some w => do
    free (some w.base)
    free (some w.req)
    if status < 0 then use (some w.req)
    pure { p with writes := p.writes.erase w }
  | none => do
    Traced.emit (.heap .stray)
    pure p

/-- A write is complete, or has failed.

Source: `server.c`, `on_write_complete`. -/
def onWriteComplete (response : List UInt8) (status : ℤ) (s : Session) :
    Traced MemoryEvent Session := do
  let ptrs ← completeWrite response status s.ptrs
  let connection ← ofHandle (SimpleCDatabase.onWriteComplete response status s.connection)
  pure ⟨connection, ptrs⟩

/-- Source: `server.c`, `on_client_timeout`. -/
def onClientTimeout (s : Session) : Traced MemoryEvent Session := do
  use s.ptrs.timerData
  let connection ← ofHandle (SimpleCDatabase.onClientTimeout s.connection)
  pure ⟨connection, s.ptrs⟩

/-- Source: `server.c`, `on_client_close`. -/
def onClientClose (s : Session) : Traced MemoryEvent Session := do
  use s.ptrs.context
  let connection ← ofHandle (SimpleCDatabase.onClientClose s.connection)
  let c ← freeParserResources ⟨s.connection.ctx, s.ptrs⟩
  pure ⟨connection, c.ptrs⟩

/-- Source: `server.c`, `on_timer_close`. -/
def onTimerClose (s : Session) : Traced MemoryEvent Session := do
  use s.ptrs.timerData
  free s.ptrs.buffer
  free s.ptrs.timerData
  let connection ← ofHandle (SimpleCDatabase.onTimerClose s.connection)
  pure ⟨connection, { s.ptrs with buffer := none, context := none, timerData := none }⟩

end Memory

/-! ### Runs -/

namespace Session

/-- Before a client connects. -/
def absent (server : ServerContext) : Session := ⟨.absent server, .null⟩

/-- One callback. -/
def step (tables : Env (Event DataEntry)) (env : ServerEnv) (s : Session) :
    Callback → Traced MemoryEvent Session
  | .newConnection status granted accepted => Memory.onNewConnection status granted accepted s
  | .read nread buf => Memory.onClientRead tables env nread buf s
  | .writeComplete response status => Memory.onWriteComplete response status s
  | .timeout => Memory.onClientTimeout s
  | .clientClose => Memory.onClientClose s
  | .timerClose => Memory.onTimerClose s

end Session

end SimpleCDatabase
