import SimpleCDatabase.Server.Basic
import Mathlib.Data.Multiset.AddSub

/-!
# The handles of a connection

The callbacks of `server.c` on the handles of one client connection, and the rules by which libuv
makes them. A handle is zeroed memory until it is initialised; once it has been passed to `uv_close`
its close callback runs, after the callbacks of the writes that are pending. What the code does to
the handles are events.

A callback that fails an assertion of libuv ends the program. Here `uv_close` is recorded wherever
it is called, and the run goes on, so that the calls can be counted.

## Main definitions

* `Handle`, `HandleEvent`: a handle, and what is done to the handles.
* `Connection`: the context of a client with its handles and the writes that are pending.
* `onNewConnection`, `onClientRead`, `onWriteComplete`, `onClientTimeout`, `onClientClose`,
  `onTimerClose`: the callbacks.
* `Callback`, `Callback.Enabled`, `Connection.step`: the callbacks that libuv can make.

## References

* `src/server.c`.
-/

namespace SimpleCDatabase

/-- A handle of libuv: zeroed memory, in use, passed to `uv_close`, or closed. -/
inductive Handle where
  | zeroed
  | opened
  | closing
  | closed
  deriving DecidableEq, Repr

/-- `uv_is_closing`. -/
def Handle.isClosing : Handle → Bool
  | .zeroed | .opened => false
  | .closing | .closed => true

/-- What is done to the handles of a connection. -/
inductive HandleEvent where
  | tcpInit
  | accept (result : ℤ)
  | timerInit
  | timerStart
  | timerStop
  | readStart
  | write (response : List UInt8)
  | closeClient
  | closeTimer
  | free
  deriving DecidableEq, Repr

/-- What the reception of bytes does to the handles. -/
def ServerEvent.handleEvent : ServerEvent → Option HandleEvent
  | .timerStart => some .timerStart
  | .timerStop => some .timerStop
  | .write bytes => some (.write bytes)
  | .close => some .closeClient
  | _ => none

def handleEvents (log : List ServerEvent) : List HandleEvent :=
  log.filterMap ServerEvent.handleEvent

/-- Whether an event starts the timer or stops it. -/
def HandleEvent.timer : HandleEvent → Option Bool
  | .timerStart => some true
  | .timerStop => some false
  | _ => none

/-- The response that an event sends. -/
def HandleEvent.response : HandleEvent → Option (List UInt8)
  | .write response => some response
  | _ => none

/-- The status of a write that is cancelled because its stream closes. -/
def UV_ECANCELED : ℤ := -125

/-- A client connection: its context with the transcript of the environment of the parser, the
stream, the inactivity timer and whether it is active, and the writes that are pending. -/
structure Connection where
  ctx : ClientContext
  log : List ServerEvent
  client : Handle
  timer : Handle
  timerActive : Bool
  writes : Multiset (List UInt8)

/-- Source: `server.c`, `reset_parser`. -/
def ClientContext.resetParser (ctx : ClientContext) : ClientContext :=
  { ctx with state := .expectType, argsTotal := 0, argsParsed := 0, dataToRead := 0 }

namespace Connection

/-- Before a client connects. -/
def absent (server : ServerContext) : Connection where
  ctx := .fresh server
  log := []
  client := .zeroed
  timer := .zeroed
  timerActive := false
  writes := 0

/-- `uv_close` of the stream. -/
def closeClient (c : Connection) : Traced HandleEvent Connection := do
  Traced.emit .closeClient
  pure { c with ctx := { c.ctx with closing := true }, client := .closing }

/-- `uv_close` of the timer. -/
def closeTimer (c : Connection) : Traced HandleEvent Connection := do
  Traced.emit .closeTimer
  pure { c with timer := .closing, timerActive := false }

end Connection

/-! ### Callbacks -/

/-- A client connects: `granted` is whether there is memory for its context, and `accepted` the
result of `uv_accept`.

Source: `server.c`, `on_new_connection`. -/
def onNewConnection (status : ℤ) (granted : Bool) (accepted : ℤ) (c : Connection) :
    Traced HandleEvent Connection :=
  if status < 0 then pure c
  else if granted then do
    Traced.emit .tcpInit
    let c := { c with client := .opened }
    Traced.emit (.accept accepted)
    if accepted = 0 then
      let c := { c with ctx := c.ctx.resetParser }
      Traced.emit .timerInit
      Traced.emit .timerStart
      Traced.emit .readStart
      pure { c with timer := .opened, timerActive := true }
    else c.closeClient
  else pure c

/-- Bytes arrive, or the end of the stream, or an error.

Source: `server.c`, `on_read`. -/
def onClientRead (tables : Env (Event DataEntry)) (env : ServerEnv) (nread : ℤ)
    (buf : List UInt8) (c : Connection) : Traced HandleEvent Connection := do
  let r := (onRead tables env c.ctx nread buf).run c.log
  let events := handleEvents r.2
  Traced.emits events
  pure { c with
    ctx := r.1
    log := r.2 ++ c.log
    client := if .closeClient ∈ events then .closing else c.client
    timerActive := (events.filterMap HandleEvent.timer).headD c.timerActive
    writes := c.writes + events.filterMap HandleEvent.response }

/-- A write is complete, or has failed. The stream is closed again when it is closing already. The
handle is read from the request after it has been freed; this is taken to be the stream.

Source: `server.c`, `on_write_complete`. -/
def onWriteComplete (response : List UInt8) (status : ℤ) (c : Connection) :
    Traced HandleEvent Connection :=
  let c := { c with writes := c.writes.erase response }
  if status < 0 then c.closeClient else pure c

/-- The timer fires. It is started without a repetition, so that it is not active any more.

Source: `server.c`, `on_client_timeout`. -/
def onClientTimeout (c : Connection) : Traced HandleEvent Connection :=
  { c with timerActive := false }.closeClient

/-- The stream is closed. A timer that has never been initialised does not count as closing.

Source: `server.c`, `on_client_close`. -/
def onClientClose (c : Connection) : Traced HandleEvent Connection := do
  let c := { c with client := .closed }
  let c ← if c.timer.isClosing then pure c else c.closeTimer
  pure { c with ctx := c.ctx.freeParserResources.resetParser }

/-- The timer is closed, and the context freed.

Source: `server.c`, `on_timer_close`. -/
def onTimerClose (c : Connection) : Traced HandleEvent Connection := do
  Traced.emit .free
  pure { c with timer := .closed }

/-! ### Runs -/

/-- The callbacks of a connection. -/
inductive Callback where
  | newConnection (status : ℤ) (granted : Bool) (accepted : ℤ)
  | read (nread : ℤ) (buf : List UInt8)
  | writeComplete (response : List UInt8) (status : ℤ)
  | timeout
  | clientClose
  | timerClose

/-- The callbacks that libuv can make: reads and timeouts while the stream is open, the callback of
any pending write with a status of zero or below, which is `UV_ECANCELED` when the stream closes,
and the close callback of the stream when no write is pending any more. -/
def Callback.Enabled (c : Connection) : Callback → Prop
  | .newConnection _ _ _ => c.client = .zeroed
  | .read nread buf => c.client = .opened ∧ nread ≤ buf.length
  | .writeComplete response status => response ∈ c.writes ∧ status ≤ 0 ∧
    (c.client.isClosing = true → status = UV_ECANCELED)
  | .timeout => c.timerActive = true ∧ c.client = .opened
  | .clientClose => c.client = .closing ∧ c.writes = 0
  | .timerClose => c.timer = .closing

instance (c : Connection) : (cb : Callback) → Decidable (cb.Enabled c)
  | .newConnection _ _ _ => inferInstanceAs (Decidable (_ = _))
  | .read _ _ => inferInstanceAs (Decidable (_ ∧ _))
  | .writeComplete _ _ => inferInstanceAs (Decidable (_ ∧ _ ∧ (_ → _)))
  | .timeout => inferInstanceAs (Decidable (_ ∧ _))
  | .clientClose => inferInstanceAs (Decidable (_ ∧ _))
  | .timerClose => inferInstanceAs (Decidable (_ = _))

/-- One callback. -/
def Connection.step (tables : Env (Event DataEntry)) (env : ServerEnv) (c : Connection) :
    Callback → Traced HandleEvent Connection
  | .newConnection status granted accepted => onNewConnection status granted accepted c
  | .read nread buf => onClientRead tables env nread buf c
  | .writeComplete response status => onWriteComplete response status c
  | .timeout => onClientTimeout c
  | .clientClose => onClientClose c
  | .timerClose => onTimerClose c

/-- The callbacks of a connection, one after the other. -/
def callbacks (tables : Env (Event DataEntry)) (env : ServerEnv) (server : ServerContext)
    (cbs : List Callback) : Traced HandleEvent Connection :=
  Traced.runAll (Connection.step tables env) (.absent server) cbs

end SimpleCDatabase
