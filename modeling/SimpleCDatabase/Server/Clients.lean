import SimpleCDatabase.Command.Runs
import SimpleCDatabase.Foundations.Components
import SimpleCDatabase.Server.Bounds
import SimpleCDatabase.Server.Framing

/-!
# The clients of the server

All connections share one database. The loop of libuv makes one callback at a time, so that the
reads of the connections come in some order, in which a command is executed as soon as the read
that completes it is made. Whatever the order, the clients see one database: it is left as the
commands executed one after the other leave it, and what a client is sent is the result of its
command at its place among them. Which command a client has executed depends on its own bytes.

A connection that is not accepted yet is one on which nothing has arrived. The connections share
the heap too: an argument stored past its array, or a lock outside the array of locks, would change
what belongs to another one. In the model it is recorded and changes nothing, so that the results
are about the runs in which it does not occur.

## Main definitions

* `Arrival`: what arrives on a connection.
* `uvRun`: the callbacks of the connections, in some order.
* `Arrival.Regular`, `UvRunRegular`: an arrival, and a run, that touches nothing outside an array.
* `commands`: the commands executed, with the connection each came from.
* `ServerContext.replay`: commands executed one after the other.

## Main results

* `receive_serves`: what one read does to the database, and what it sends.
* `uvRun_inside`: in a regular run every store of an argument and every lock is inside its array.
* `uvRun_serializable`: the clients see one database.

## References

* `src/server.c`, `main`, `on_read`, `on_client_timeout`, `on_write_complete`.
-/

namespace SimpleCDatabase

open CString Traced

/-! ### The loop -/

/-- What arrives on a connection: bytes, the end of the stream or an error, or what makes the
server close it from its side, the timer or a write that failed. -/
inductive Arrival where
  | data (bytes : List UInt8)
  | ended (status : ℤ)
  | expired
  deriving DecidableEq, Repr

/-- The bytes that arrive. -/
def Arrival.bytes : Arrival → List UInt8
  | .data bytes => bytes
  | _ => []

/-- The callback for an arrival. libuv makes no read callback after `uv_close`.

Source: `server.c`, `on_read`, `on_client_timeout`, `on_write_complete`. -/
def ClientContext.arrive (tables : Env (Event DataEntry)) (env : ServerEnv) (ctx : ClientContext) :
    Arrival → Traced ServerEvent ClientContext
  | .data bytes => receive tables env ctx bytes
  | .ended status =>
    if ctx.closing ∨ 0 < status then pure ctx else onRead tables env ctx status []
  | .expired => if ctx.closing then pure ctx else ctx.uvClose

/-- A callback on a connection, which finds the database through the pointer in its context. -/
def serveClient (tables : Env (Event DataEntry)) (env : ℕ → ServerEnv) (client : ℕ)
    (server : ServerContext) (ctx : ClientContext) (arrival : Arrival) :
    Traced ServerEvent (ServerContext × ClientContext) := do
  let ctx ← { ctx with serverCtx := server }.arrive tables (env client) arrival
  pure (ctx.serverCtx, ctx)

/-- The callbacks of the connections in the order in which the loop makes them. Each connection has
an environment of its own, and all have the database with its environment in common. The stale bytes
that a connection reads, beyond what it has been sent, are answers of its environment; in the
program they lie in a heap that the other connections write to. A result for every environment holds
for whatever they have left there.

Source: `server.c`, `main`, the call of `uv_run`. -/
def uvRun (tables : Env (Event DataEntry)) (env : ℕ → ServerEnv) (server : ServerContext)
    (arrivals : List (ℕ × Arrival)) :
    Traced (ℕ × ServerEvent) (ServerContext × (ℕ → ClientContext)) :=
  Traced.runAll (Traced.interleave (serveClient tables env))
    (server, fun _ => ClientContext.fresh server) arrivals

/-! ### The commands -/

/-- The command that an event executes. -/
def ServerEvent.request : ServerEvent → Option Request
  | .execute request => some request
  | _ => none

/-- The commands executed by the server, in the order of time, with their connections. -/
def commands (log : List (ℕ × ServerEvent)) : List (ℕ × Request) :=
  log.reverse.filterMap fun e => e.2.request.map (Prod.mk e.1)

theorem output_request (e : ServerEvent) : e.output.bind Output.request = e.request := by
  cases e with
  | argvStore index total size =>
    rw [ServerEvent.output]
    split <;> rfl
  | _ => rfl

theorem executed_eq (log : List ServerEvent) :
    executed log = log.reverse.filterMap ServerEvent.request := by
  rw [executed, observe, List.filterMap_filterMap]
  exact List.filterMap_congr fun e _ => output_request e

/-- The commands of one connection. -/
theorem own_commands (i : ℕ) (log : List (ℕ × ServerEvent)) :
    own i (commands log) = executed (own i log) := by
  rw [commands, own_filterMap, own_reverse, executed_eq]

@[simp] theorem commands_nil : commands [] = [] := rfl

theorem commands_append (new log : List (ℕ × ServerEvent)) :
    commands (new ++ log) = commands log ++ commands new := by
  rw [commands, List.reverse_append, List.filterMap_append]
  rfl

/-- The commands that a callback of a connection executes. -/
theorem commands_map (i : ℕ) (new : List ServerEvent) :
    commands (new.map (Prod.mk i)) = (executed new).map (Prod.mk i) := by
  rw [commands, executed_eq, ← List.map_reverse, List.filterMap_map, List.map_filterMap]
  rfl

/-- Commands executed one after the other. -/
def ServerContext.replay (tables : Env (Event DataEntry)) (server : ServerContext)
    (requests : List Request) : ServerContext :=
  requests.foldl (fun server request => (server.execute tables request).2) server

theorem ServerContext.replay_append (tables : Env (Event DataEntry)) (server : ServerContext)
    (requests more : List Request) :
    server.replay tables (requests ++ more) = (server.replay tables requests).replay tables more :=
  List.foldl_append

/-! ### One read -/

/-- What a stretch of events of a connection, which executes one command at most, does to the
database, and what it sends. -/
structure Serves (tables : Env (Event DataEntry)) (server : ServerContext)
    (new : List ServerEvent) (server' : ServerContext) : Prop where
  replay : server' = server.replay tables (executed new)
  silent : executed new = [] → sent new = []
  answer : ∀ request, executed new = [request] →
    sent new = [] ∨ ∃ memory, sent new = replyBytes memory (server.execute tables request).1
  unanswered : executed new ≠ [] → sent new = [] → .close ∈ observe new

section Serves

variable {tables : Env (Event DataEntry)} {server mid server' : ServerContext}
  {old new : List ServerEvent}

theorem executed_of_quiet (h : ∀ e ∈ new, e.Quiet) : executed new = [] := by
  rw [executed_eq, List.filterMap_eq_nil_iff]
  intro e he
  have hquiet := h e (List.mem_reverse.mp he)
  cases e with
  | execute => exact hquiet.elim
  | _ => rfl

theorem sent_of_quiet (h : ∀ e ∈ new, e.Quiet) : sent new = [] := by
  refine gather_eq_nil fun e he => ?_
  have hquiet := h e he
  cases e with
  | write => exact hquiet.elim
  | _ => rfl

theorem serves_quiet (h : ∀ e ∈ new, e.Quiet) : Serves tables server new server where
  replay := by rw [executed_of_quiet h]; rfl
  silent := fun _ => sent_of_quiet h
  answer := fun _ hrequest => .inl (sent_of_quiet h)
  unanswered := fun hsome => absurd (executed_of_quiet h) hsome

/-- A command is executed, and answered or not. -/
theorem serves_execute {request : Request} (hexecuted : executed new = [request])
    (hsent : sent new = [] ∧ .close ∈ observe new ∨
      ∃ memory, sent new = replyBytes memory (server.execute tables request).1) :
    Serves tables server new (server.execute tables request).2 where
  replay := by rw [hexecuted]; rfl
  silent := fun hnone => absurd (hexecuted.symm.trans hnone) (List.cons_ne_nil _ _)
  answer := fun request' hrequest => by
    obtain ⟨rfl⟩ := List.cons.inj (hexecuted.symm.trans hrequest)
    exact hsent.imp_left And.left
  unanswered := fun _ hnone => by
    obtain ⟨-, hclose⟩ | ⟨memory, hreply⟩ := hsent
    · exact hclose
    · exact absurd (hreply.symm.trans hnone) (replyBytes_ne_nil memory _)

/-- A stretch after events that execute and send nothing. -/
theorem Serves.after_quiet (h : Serves tables server new server') (hold : ∀ e ∈ old, e.Quiet) :
    Serves tables server (new ++ old) server' := by
  have hexecuted : executed (new ++ old) = executed new := by
    rw [executed_append, executed_of_quiet hold, List.nil_append]
  have hsent : sent (new ++ old) = sent new := by
    rw [sent_append, sent_of_quiet hold, List.nil_append]
  refine ⟨by rw [hexecuted, h.replay], by rw [hexecuted, hsent]; exact h.silent,
    by rw [hexecuted, hsent]; exact h.answer, fun hsome hnone => ?_⟩
  rw [observe_append]
  exact List.mem_append_right _ (h.unanswered (hexecuted ▸ hsome) (hsent ▸ hnone))

/-- Two stretches that execute one command at most between them. -/
theorem Serves.append (h : Serves tables server old mid) (h' : Serves tables mid new server')
    (hone : (executed (new ++ old)).length ≤ 1) : Serves tables server (new ++ old) server' := by
  rw [executed_append, List.length_append] at hone
  refine ⟨?_, fun hnone => ?_, fun request hrequest => ?_, fun hsome hnone => ?_⟩
  · rw [executed_append, ServerContext.replay_append, ← h.replay, h'.replay]
  · rw [executed_append, List.append_eq_nil_iff] at hnone
    rw [sent_append, h.silent hnone.1, h'.silent hnone.2, List.append_nil]
  · rw [executed_append] at hrequest
    cases hold : executed old with
    | nil =>
      rw [hold, List.nil_append] at hrequest
      have hmid : mid = server := by rw [h.replay, hold]; rfl
      rw [sent_append, h.silent hold, List.nil_append, ← hmid]
      exact h'.answer request hrequest
    | cons first rest =>
      rw [hold, List.length_cons] at hone
      have hnew : executed new = [] := List.length_eq_zero_iff.mp (by omega)
      rw [hnew, List.append_nil] at hrequest
      rw [sent_append, h'.silent hnew, List.append_nil]
      exact h.answer request hrequest
  · rw [sent_append, List.append_eq_nil_iff] at hnone
    rw [observe_append, List.mem_append]
    by_cases hold : executed old = []
    · refine .inr (h'.unanswered (fun hnew => hsome ?_) hnone.2)
      rw [executed_append, hold, hnew, List.append_nil]
    · exact .inl (h.unanswered hold hnone.1)

end Serves

section Iteration

variable (tables : Env (Event DataEntry)) (env : ServerEnv) {ctx : ClientContext}
  (log : List ServerEvent)

private theorem HeaderRead.serves {server : ServerContext} {marker : UInt8} {least greatest : ℤ}
    {next : ℕ → ClientContext} {r : ForInStep ClientContext} {new : List ServerEvent}
    (hread : HeaderRead ctx marker least greatest next r new) (hctx : ctx.serverCtx = server)
    (hnext : ∀ n, (next n).serverCtx = server) :
    r.value.serverCtx = server ∧ ∀ e ∈ new, e.Quiet := by
  cases hread with
  | starved | unended => exact ⟨hctx, by simp⟩
  | unmarked | refused => exact ⟨hctx, by simp [ServerEvent.Quiet]⟩
  | accepted => exact ⟨hnext _, by simp [ServerEvent.Quiet]⟩

private theorem quiet_allocEvents : ∀ e ∈ allocEvents ctx, e.Quiet := fun e he => by
  rw [eq_malloc_of_mem_allocEvents he]
  trivial

private theorem quiet_storeEvents : ∀ e ∈ storeEvents ctx, e.Quiet := by
  intro e he
  obtain he | he := List.mem_append.mp he
  · simp only [List.mem_cons, List.not_mem_nil, or_false] at he
    obtain rfl | rfl | rfl | rfl := he <;> trivial
  · exact quiet_allocEvents e he

private theorem Dispatched.serves {r : ForInStep ClientContext} {new : List ServerEvent}
    (hdispatched : Dispatched tables env ctx r new) :
    Serves tables ctx.serverCtx new r.value.serverCtx := by
  cases hdispatched with
  | overflow => exact serves_quiet (by simp [ServerEvent.Quiet])
  | @answered memory =>
    refine serves_execute ?_ (.inr ⟨memory, ?_⟩)
    · simp [ServerEvent.output, Output.request]
    · simp only [sent_cons, sent_nil, ServerEvent.sent, List.nil_append]
      rfl
  | @unanswered new _ hnew =>
    refine serves_execute ?_ (.inl ⟨?_, by simp [ServerEvent.output]⟩)
    · simp [executed_eq_nil (observe_replies hnew), ServerEvent.output, Output.request]
    · have hsilent : sent new = [] := gather_eq_nil fun e he => by
        obtain ⟨size, granted, rfl⟩ | ⟨index, size, rfl⟩ := hnew e he <;> rfl
      simp only [sent_cons, sent_append, sent_nil, hsilent, ServerEvent.sent, List.nil_append]

private theorem DataRead.serves {r : ForInStep ClientContext} {new : List ServerEvent}
    (hread : DataRead tables env ctx r new) :
    Serves tables ctx.serverCtx new r.value.serverCtx := by
  cases hread with
  | starved => exact serves_quiet (by simp)
  | unallocated => exact serves_quiet (by simp [ServerEvent.Quiet])
  | unstored =>
    refine serves_quiet fun e he => ?_
    obtain he | he := List.mem_append.mp he
    · simp only [List.mem_cons, List.not_mem_nil, or_false] at he
      obtain rfl | rfl | rfl := he <;> trivial
    · exact quiet_allocEvents e he
  | stored => exact serves_quiet quiet_storeEvents
  | completed _ _ hdispatched =>
    exact (hdispatched.serves tables env).after_quiet quiet_storeEvents

/-- **What one iteration does to the database**, and what it sends. -/
theorem parseStep_serves (h : ctx.Fits) : (parseStep tables env ctx).Ensures log fun r new =>
    Serves tables ctx.serverCtx new r.value.serverCtx := by
  refine parseStep_cases tables env log (fun _ => ?_) (fun _ => ?_) fun _ => ?_
  · refine (expectType_spec env log h).mono ?_
    rintro r _ ⟨new, hread, rfl⟩
    obtain ⟨hserver, hquiet⟩ := hread.serves rfl fun _ => rfl
    rw [hserver]
    refine serves_quiet fun e he => ?_
    obtain he | he := List.mem_append.mp he
    · exact hquiet e he
    · split at he <;> simp_all [ServerEvent.Quiet]
  · refine (expectLength_spec env log h).mono fun r new hread => ?_
    obtain ⟨hserver, hquiet⟩ := hread.serves rfl fun _ => rfl
    rw [hserver]
    exact serves_quiet hquiet
  · exact (expectData_spec tables env ctx log).mono fun r new hread => hread.serves tables env

theorem Once.length_le (h : Once ctx log) : (executed log).length ≤ 1 := by
  obtain ⟨-, hnone | ⟨hone, -⟩⟩ := h
  · rw [hnone]
    exact Nat.zero_le 1
  · exact hone.le

/-- **What one read does to the database**, and what it sends. -/
theorem receive_serves {data : List UInt8} (h : Once ctx log) :
    (receive tables env ctx data).Ensures log fun ctx' new =>
      Once ctx' (new ++ log) ∧ Serves tables ctx.serverCtx new ctx'.serverCtx := by
  have hquiet : Serves tables ctx.serverCtx [] ctx.serverCtx := serves_quiet (by simp)
  refine receive_cases tables env log (fun _ => ⟨h, hquiet⟩) (fun _ => ⟨h, hquiet⟩) fun _ _ => ?_
  refine (appendToBuffer_spec env h.1 data _).mono fun ctx₁ new happended => ?_
  obtain ⟨honce₁, hserver, hnew⟩ : Once ctx₁ (new ++ ([.timerStart] ++ log)) ∧
      ctx₁.serverCtx = ctx.serverCtx ∧ ∀ e ∈ new, e.Quiet := by
    have hlog : Once ctx ([.timerStart] ++ log) := once_quiet h h.1 rfl id
    cases happended with
    | appended hfits _ hnew =>
      refine ⟨once_quiet hlog hfits (by obtain rfl | ⟨size, rfl⟩ := hnew <;> rfl) id, rfl, ?_⟩
      obtain rfl | ⟨size, rfl⟩ := hnew <;> simp [ServerEvent.Quiet]
    | denied => exact ⟨once_quiet hlog h.1 rfl id, rfl, by simp [ServerEvent.Quiet]⟩
  have hfirst : Serves tables ctx.serverCtx (new ++ [.timerStart]) ctx₁.serverCtx := by
    rw [hserver]
    refine serves_quiet fun e he => ?_
    obtain he | he := List.mem_append.mp he
    · exact hnew e he
    · obtain rfl := List.mem_singleton.mp he
      trivial
  -- Along the loop, what has happened since the start of the read is what the read does so far.
  have hloop := parseBuffer_ensures tables env (new ++ ([.timerStart] ++ log))
    (fun ctx' t => Once ctx' t ∧ ∃ added, t = added ++ log ∧
      Serves tables ctx.serverCtx added ctx'.serverCtx)
    (fun ctx' t => Once ctx' t ∧ ∃ added, t = added ++ log ∧
      Serves tables ctx.serverCtx added ctx'.serverCtx)
    (fun _ _ hs => hs.1.1) (fun s t s' hs hyield => ?_) (fun s t s' hs hdone => ?_)
    ⟨honce₁, new ++ [.timerStart], by simp, hfirst⟩
  · refine hloop.mono fun ctx' new' hend => ?_
    obtain ⟨honce, added, hadded, hserves⟩ := hend
    have heq : added = new' ++ new ++ [.timerStart] := by
      refine List.append_cancel_right (hadded.symm.trans ?_)
      simp only [List.append_assoc]
    rw [heq] at hserves
    exact ⟨by simpa only [List.append_assoc] using honce, hserves⟩
  all_goals
    obtain ⟨honce, added, rfl, hserves⟩ := hs
    have hnext := parseStep_once tables env (added ++ log) honce
    have hserved := hserves.append (parseStep_serves tables env (added ++ log) honce.1) (by
      have hlength := hnext.length_le
      rw [← List.append_assoc, executed_append, List.length_append] at hlength
      exact (Nat.le_add_left _ _).trans hlength)
  · rw [hyield] at hnext hserved
    exact ⟨hnext, _, (List.append_assoc _ _ _).symm, hserved⟩
  · rw [hdone] at hnext hserved
    exact ⟨hnext, _, (List.append_assoc _ _ _).symm, hserved⟩

end Iteration

/-! ### Runs -/

section Runs

variable (tables : Env (Event DataEntry))

/-- **What an arrival does to the database**, and what is sent on it. -/
theorem arrive_serves (env : ServerEnv) {ctx : ClientContext} {log : List ServerEvent}
    (h : Once ctx log) (arrival : Arrival) :
    (ctx.arrive tables env arrival).Ensures log fun ctx' new =>
      Once ctx' (new ++ log) ∧ Serves tables ctx.serverCtx new ctx'.serverCtx := by
  have hkept : Once ctx ([] ++ log) ∧ Serves tables ctx.serverCtx [] ctx.serverCtx :=
    ⟨h, serves_quiet (by simp)⟩
  cases arrival with
  | data bytes => exact receive_serves tables env log h
  | ended status =>
    refine Traced.ensures_ite (fun _ => hkept) fun hopen => ?_
    obtain ⟨-, hstatus⟩ := not_or.mp hopen
    rw [onRead, if_neg hstatus]
    refine Traced.ensures_ite (fun _ => ?_) fun _ => hkept
    show Once { ctx with closing := true } ([.close, .timerStop] ++ log) ∧
      Serves tables ctx.serverCtx [.close, .timerStop] ctx.serverCtx
    exact ⟨once_quiet h h.1 rfl id, serves_quiet (by simp [ServerEvent.Quiet])⟩
  | expired =>
    refine Traced.ensures_ite (fun _ => hkept) fun _ => ?_
    show Once { ctx with closing := true } ([.close] ++ log) ∧
      Serves tables ctx.serverCtx [.close] ctx.serverCtx
    exact ⟨once_quiet h h.1 rfl id, serves_quiet (by simp [ServerEvent.Quiet])⟩

/-- What is sent on a connection is nothing, or the result of its command where it stands among the
commands of all connections. -/
def Answered (server : ServerContext) (log : List (ℕ × ServerEvent)) (i : ℕ) : Prop :=
  sent (own i log) = [] ∨ ∃ before request after memory,
    commands log = before ++ (i, request) :: after ∧
    sent (own i log) =
      replyBytes memory ((server.replay tables (before.map Prod.snd)).execute tables request).1

/-- The clients see one database: `database` is what the commands leave that have been executed one
after the other, one at most from each connection, and each connection is sent its result. -/
structure OneDatabase (server database : ServerContext) (log : List (ℕ × ServerEvent)) : Prop where
  serial : database = server.replay tables ((commands log).map Prod.snd)
  once : ∀ i, (executed (own i log)).length ≤ 1
  answered : ∀ i, Answered tables server log i

variable {tables} in
/-- Nothing has been sent where nothing has been executed. -/
theorem Answered.sent_eq_nil {server : ServerContext} {log : List (ℕ × ServerEvent)} {i : ℕ}
    (h : Answered tables server log i) (hnone : executed (own i log) = []) :
    sent (own i log) = [] := by
  obtain hsent | ⟨before, request, after, -, hcommands, -⟩ := h
  · exact hsent
  · rw [← own_commands, hcommands, own_append, own_cons_self] at hnone
    exact absurd hnone (by simp)

variable {tables} in
/-- Events of one connection. -/
private theorem Answered.step {server database : ServerContext} {log : List (ℕ × ServerEvent)}
    {i j : ℕ} {new : List ServerEvent} {server' : ServerContext}
    (h : Answered tables server log j)
    (hserial : database = server.replay tables ((commands log).map Prod.snd))
    (hone : (executed (new ++ own i log)).length ≤ 1)
    (hserves : Serves tables database new server') :
    Answered tables server (new.map (Prod.mk i) ++ log) j := by
  have hcommands : commands (new.map (Prod.mk i) ++ log) =
      commands log ++ (executed new).map (Prod.mk i) := by rw [commands_append, commands_map]
  have hkept (hsent : sent (own j (new.map (Prod.mk i) ++ log)) = sent (own j log)) :
      Answered tables server (new.map (Prod.mk i) ++ log) j := by
    rw [Answered, hsent]
    refine h.imp_right ?_
    rintro ⟨before, request, after, memory, hbefore, hreply⟩
    refine ⟨before, request, after ++ (executed new).map (Prod.mk i), memory, ?_, hreply⟩
    rw [hcommands, hbefore, List.append_assoc, List.cons_append]
  by_cases hij : i = j
  · subst hij
    rw [executed_append, List.length_append] at hone
    have hown : sent (own i (new.map (Prod.mk i) ++ log)) = sent (own i log) ++ sent new := by
      rw [own_append, own_map_self, sent_append]
    by_cases hnone : executed new = []
    · exact hkept (by rw [hown, hserves.silent hnone, List.append_nil])
    · obtain ⟨request, hrequest⟩ : ∃ request, executed new = [request] :=
        List.length_eq_one_iff.mp (by
          have := List.length_pos_iff.mpr hnone
          omega)
      have hbefore : executed (own i log) = [] := List.length_eq_zero_iff.mp (by
        rw [hrequest, List.length_singleton] at hone
        omega)
      rw [Answered, hown, h.sent_eq_nil hbefore, List.nil_append]
      refine (hserves.answer request hrequest).imp_right ?_
      rintro ⟨memory, hreply⟩
      refine ⟨commands log, request, [], memory, ?_, ?_⟩
      · rw [hcommands, hrequest]
        rfl
      · rw [hreply, hserial]
  · exact hkept (by rw [own_append, own_map_of_ne hij, List.nil_append])

/-- What holds of the database and of the connections after the callbacks. -/
theorem uvRun_replays (env : ℕ → ServerEnv) (server : ServerContext)
    (arrivals : List (ℕ × Arrival)) :
    (uvRun tables env server arrivals).Ensures [] fun r new =>
      (r.1 = server.replay tables ((commands (new ++ [])).map Prod.snd) ∧
        ∀ i, Answered tables server (new ++ []) i) ∧
      ∀ i, Once (r.2 i) (own i (new ++ [])) := by
  refine Traced.interleave_invariant
    (fun database log => database = server.replay tables ((commands log).map Prod.snd) ∧
      ∀ i, Answered tables server log i)
    (fun _ ctx log => Once ctx log) arrivals ?_ ⟨rfl, fun _ => .inl rfl⟩
    fun _ => ⟨ClientContext.fits_fresh server, .inl rfl⟩
  rintro i arrival - database ctx log ⟨hserial, hanswered⟩ honce
  have hbound : Once { ctx with serverCtx := database } (own i log) := honce
  obtain ⟨honce', hserves⟩ := arrive_serves tables (env i) hbound arrival
  refine ⟨⟨?_, fun j => ?_⟩, honce'⟩
  · rw [commands_append, commands_map, List.map_append, ServerContext.replay_append, ← hserial,
      List.map_map, show (Prod.snd ∘ Prod.mk i : Request → Request) = id from rfl, List.map_id]
    exact hserves.replay
  · exact (hanswered j).step hserial honce'.length_le hserves

/-! ### Runs within the arrays -/

/-- An arrival that touches nothing outside an array: no argument is stored past the arrays of the
connection, and the command that is executed finds what it uses in the arrays of the table. -/
def Arrival.Regular (env : ServerEnv) (ctx : ClientContext) (log : List ServerEvent) :
    Arrival → Prop
  | .data bytes => ReadGuarded tables env ctx log bytes ∧
      ∀ request ∈ executed ((receive tables env ctx bytes).run log).2,
        request.Defined tables ctx.serverCtx.db ctx.serverCtx.log
  | .ended _ | .expired => True

instance (env : ServerEnv) (ctx : ClientContext) (log : List ServerEvent) :
    DecidablePred (Arrival.Regular tables env ctx log)
  | .data _ => inferInstanceAs (Decidable (_ ∧ _))
  | .ended _ | .expired => inferInstanceAs (Decidable True)

/-- Every arrival of a run is regular. -/
def UvRunRegular (env : ℕ → ServerEnv) (server : ServerContext) (arrivals : List (ℕ × Arrival)) :
    Prop :=
  Guarded (interleave (serveClient tables env))
    (fun s log a => a.2.Regular tables (env a.1) { s.2 a.1 with serverCtx := s.1 } (own a.1 log))
    (server, fun _ => ClientContext.fresh server) [] arrivals

instance (env : ℕ → ServerEnv) (server : ServerContext) (arrivals : List (ℕ × Arrival)) :
    Decidable (UvRunRegular tables env server arrivals) :=
  inferInstanceAs (Decidable (Guarded _ _ _ _ _))

/-- A table with `n` locks, of which none outside the array has been used. -/
structure ServerContext.Inside (n : ℕ) (server : ServerContext) : Prop where
  lockCount : server.db.lockCount.toNat = n
  locksInside : LocksInside n server.log

section Inside

variable {tables} {n : ℕ}

theorem ServerContext.Inside.execute {server : ServerContext} (h : server.Inside n)
    {request : Request} (hlocks : request.HasLocks tables server.db server.log) :
    (server.execute tables request).2.Inside n where
  lockCount := (congrArg UInt64.toNat (execute_lockCount tables _ _ request)).trans h.lockCount
  locksInside := by
    have hnew := (execute_locksInside_iff tables server.db server.log request).mpr hlocks
    rw [h.lockCount] at hnew
    exact locksInside_append.mpr ⟨hnew, h.locksInside⟩

theorem ClientContext.Settled.withServer {ctx : ClientContext} (h : ctx.Settled)
    (server : ServerContext) : ClientContext.Settled { ctx with serverCtx := server } := by
  obtain ⟨⟨hparsed, htotal, hdata, hfits⟩, hparsing⟩ := h
  refine ⟨⟨hparsed, htotal, hdata, hfits⟩, fun hopen => ?_⟩
  obtain ⟨-, hmissing, harrays⟩ := hparsing hopen
  exact ⟨⟨hparsed, htotal, hdata, hfits⟩, hmissing, harrays⟩

/-- **A regular arrival** touches nothing outside an array. -/
theorem arrive_inside {env : ServerEnv} {ctx : ClientContext} {log : List ServerEvent}
    {arrival : Arrival} (hregular : arrival.Regular tables env ctx log) (honce : Once ctx log)
    (hctx : ctx.Settled) (hlog : ∀ e ∈ log, e.InBounds) (hserver : ctx.serverCtx.Inside n) :
    (ctx.arrive tables env arrival).Ensures log fun ctx' new =>
      (ctx'.Settled ∧ ∀ e ∈ new ++ log, e.InBounds) ∧ ctx'.serverCtx.Inside n := by
  have hclosed : ClientContext.Settled { ctx with closing := true } :=
    ClientContext.Bounded.settled ⟨hctx.1.parsed, hctx.1.total, hctx.1.data, hctx.1.fits⟩ rfl
  cases arrival with
  | data bytes =>
    obtain ⟨hguard, hdefined⟩ := hregular
    refine ⟨receive_bounds tables env hguard hctx hlog, ?_⟩
    obtain ⟨honce', hserves⟩ := @receive_serves tables env ctx log bytes honce
    have hlength := honce'.length_le
    rw [executed_append, List.length_append] at hlength
    change ((receive tables env ctx bytes).run log).1.serverCtx.Inside n
    rw [hserves.replay]
    cases hnew : executed ((receive tables env ctx bytes).run log).2 with
    | nil => exact hserver
    | cons request rest =>
      rw [hnew, List.length_cons] at hlength
      obtain rfl : rest = [] := List.length_eq_zero_iff.mp (by omega)
      exact hserver.execute (hdefined request (hnew ▸ List.mem_cons_self)).1
  | ended status =>
    refine Traced.ensures_ite (fun _ => ⟨⟨hctx, hlog⟩, hserver⟩) fun hopen => ?_
    rw [onRead, if_neg (not_or.mp hopen).2]
    refine Traced.ensures_ite (fun _ => ?_) fun _ => ⟨⟨hctx, hlog⟩, hserver⟩
    exact ⟨⟨hclosed, List.forall_mem_cons.mpr
      ⟨trivial, List.forall_mem_cons.mpr ⟨trivial, hlog⟩⟩⟩, hserver⟩
  | expired =>
    refine Traced.ensures_ite (fun _ => ⟨⟨hctx, hlog⟩, hserver⟩) fun _ => ?_
    exact ⟨⟨hclosed, List.forall_mem_cons.mpr ⟨trivial, hlog⟩⟩, hserver⟩

/-- **In a regular run every store of an argument and every lock is inside its array.** -/
theorem uvRun_inside {env : ℕ → ServerEnv} {server : ServerContext}
    {arrivals : List (ℕ × Arrival)} (hregular : UvRunRegular tables env server arrivals)
    (hserver : server.Inside n) :
    let r := (uvRun tables env server arrivals).run []
    (∀ e ∈ r.2, e.2.InBounds) ∧ r.1.1.Inside n := by
  have hrun : (uvRun tables env server arrivals).Ensures [] fun r new =>
      r.1.Inside n ∧ ∀ i, Once (r.2 i) (own i (new ++ [])) ∧ (r.2 i).Settled ∧
        ∀ e ∈ own i (new ++ []), e.InBounds := by
    refine interleave_guarded
      (fun i database (ctx : ClientContext) log arrival =>
        Arrival.Regular tables (env i) { ctx with serverCtx := database } log arrival)
      (fun (database : ServerContext) _ => database.Inside n)
      (fun _ ctx log => Once ctx log ∧ ctx.Settled ∧ ∀ e ∈ log, e.InBounds) ?_ arrivals hregular
      hserver fun _ => ⟨⟨ClientContext.fits_fresh server, .inl rfl⟩,
        (ClientContext.parsing_fresh server).settled, fun e he => absurd he List.not_mem_nil⟩
    rintro i arrival database ctx log hok hinside ⟨honce, hctx, hlog⟩
    have honce' : Once { ctx with serverCtx := database } (own i log) := honce
    obtain ⟨hbounds, hnext⟩ := arrive_inside hok honce' (hctx.withServer database) hlog hinside
    exact ⟨hnext, (arrive_serves tables (env i) honce' arrival).1, hbounds⟩
  obtain ⟨hinside, hlocal⟩ := hrun
  rw [List.append_nil] at hlocal
  exact ⟨fun e he => (hlocal e.1).2.2 e.2 (mem_own.mpr he), hinside⟩

end Inside

/-- **The clients see one database**, whatever the order of the callbacks and whatever the
environment refuses, as long as nothing outside an array is touched. The database is left as the
commands leave it that have been executed one after the other, in the order in which the callbacks
have executed them; each connection has executed one command at most, and has been sent nothing or
the result of its command at that place. -/
theorem uvRun_serializable (env : ℕ → ServerEnv) (server : ServerContext)
    (arrivals : List (ℕ × Arrival)) (hregular : UvRunRegular tables env server arrivals)
    (hlocks : LocksInside server.db.lockCount.toNat server.log) :
    let r := (uvRun tables env server arrivals).run []
    OneDatabase tables server r.1.1 r.2 ∧ (∀ e ∈ r.2, e.2.InBounds) ∧
      LocksInside server.db.lockCount.toNat r.1.1.log := by
  obtain ⟨⟨hserial, hanswered⟩, honce⟩ := uvRun_replays tables env server arrivals
  simp only [List.append_nil] at hserial hanswered honce
  obtain ⟨hstores, hinside⟩ := uvRun_inside hregular ⟨rfl, hlocks⟩
  exact ⟨⟨hserial, fun i => (honce i).length_le, hanswered⟩, hstores, hinside.locksInside⟩

end Runs

/-- The environment of a client whose reply of three bytes is refused. -/
private def unanswering : ServerEnv := { ServerEnv.granting with alloc := fun _ size => size ≠ 3 }

/-- A value is stored while another client is at asking for it; the one that has stored it gets no
reply, and the other one gets the value. -/
theorem uvRun_serializable_stored :
    let r := (uvRun .granting (fun i => if i = 0 then unanswering else .granting)
      ⟨.fresh 1, []⟩ [(1, .data (bytes "*2\r\n$3\r\nGE")),
        (0, .data (formatRespCommand [bytes "SET", bytes "k", bytes "v"])),
        (1, .data (bytes "T\r\n$1\r\nk\r\n"))]).run []
    commands r.2 = [(0, toRequest [bytes "SET", bytes "k", bytes "v"]),
        (1, toRequest [bytes "GET", bytes "k"])] ∧
      sent (own 0 r.2) = [] ∧ sent (own 1 r.2) = bytes "v\r" ∧
      OneDatabase .granting ⟨.fresh 1, []⟩ r.1.1 r.2 := by
  refine ⟨by decide +kernel, by decide +kernel, by decide +kernel, ?_⟩
  exact (uvRun_serializable .granting _ ⟨.fresh 1, []⟩ _ (by decide +kernel)
    fun e he => absurd he List.not_mem_nil).1

end SimpleCDatabase
