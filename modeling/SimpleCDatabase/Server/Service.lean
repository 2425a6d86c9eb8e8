import SimpleCDatabase.Command.Database
import SimpleCDatabase.Server.Clients
import SimpleCDatabase.Server.Encoding

/-!
# The service

What the server is for: a client sends a command line, and is sent the answer of the machine, which
takes the lines in the order in which their last bytes arrive. In this system a client is what has
arrived of its line, and nothing of the buffers, the parser, the table and the callbacks is left.
The server does what the service does, for any number of clients, whatever pieces their lines arrive
in, whatever the order of the pieces, and whoever leaves in between, as long as memory and locks are
granted. An answer is sent with a `\r` after it, as the code has it.

## Main definitions

* `Client`, `Client.arrive`: a client of the service.
* `service`: the service, from the arrivals.

## Main results

* `drain_silent`: the reader does not look at the database in front of a command.
* `uvRun_serves`: the server is the service.

## References

* `src/server.c`, `on_read` and `parse_buffer`; `src/command.c`, `execute_command`;
  `tools/scripts/SCDClient`, `format_resp_command`.
-/

namespace SimpleCDatabase

open CString Traced

/-! ### The service -/

/-- The client leaves: its stream ends or fails, or its timer expires. -/
def Arrival.Leaves : Arrival → Prop
  | .data _ => False
  | .ended status => status < 0
  | .expired => True

instance : DecidablePred Arrival.Leaves
  | .data _ => inferInstanceAs (Decidable False)
  | .ended status => inferInstanceAs (Decidable (status < 0))
  | .expired => inferInstanceAs (Decidable True)

/-- A client of the service: the bytes that have arrived, whether it has left, and its answer. -/
structure Client where
  received : List UInt8 := []
  gone : Bool := false
  reply : Option Reply := none

/-- What the service does on an arrival: the bytes that complete the line of a client that is still
there have it answered. -/
def Client.arrive (locks : ℕ) (line : List (List UInt8)) (s : MapState) (c : Client)
    (arrival : Arrival) : MapState × Client :=
  let c := { c with
    received := c.received ++ arrival.bytes
    gone := c.gone || decide arrival.Leaves }
  if arrival.bytes ≠ [] ∧ c.gone = false ∧ c.received = formatRespCommand line then
    ((s.answer locks line).2, { c with reply := some (s.answer locks line).1 })
  else (s, c)

/-- The service: the machine and its clients after the arrivals, in their order. -/
def service (locks : ℕ) (lines : ℕ → List (List UInt8)) (s : MapState)
    (arrivals : List (ℕ × Arrival)) : MapState × (ℕ → Client) :=
  arrivals.foldl (sequential fun i => Client.arrive locks (lines i)) (s, fun _ => {})

/-! ### Requests -/

/-- The command that a line is executed as carries the line. -/
theorem carries_toRequest (line : List (List UInt8)) : Carries (toRequest line) line := by
  have hterminated (arg : List UInt8) : cstr (terminated arg) = cstr arg := cstr_append_zero arg
  refine ⟨?_, rfl, ?_, fun hlength => ?_⟩
  · cases line with
    | nil => rfl
    | cons name args => exact hterminated name
  · cases line with
    | nil => rfl
    | cons name args =>
      cases args with
      | nil => rfl
      | cons first args => exact hterminated first
  · obtain ⟨name, key, value, rfl⟩ := List.length_eq_three.mp hlength
    change ((value ++ [0]) ++ List.replicate value.length 0).take value.length = value
    rw [List.append_assoc]
    exact List.take_left' rfl

/-! ### The reader in front of a command -/

section Silent

variable {tables : Env (Event DataEntry)} {server server' : ServerContext}

/-- A verdict without outputs is the same in front of every database, and keeps it. -/
theorem readerVerdict_silent (mode : Mode) (p : List UInt8) :
    (readerVerdict tables (mode, server) p = .wait →
      readerVerdict tables (mode, server') p = .wait) ∧
    ∀ n s, readerVerdict tables (mode, server) p = .consume n [] s → s.2 = server ∧
      readerVerdict tables (mode, server') p = .consume n [] (s.1, server') := by
  have hheader {marker : UInt8} {least greatest : ℤ} (hleast : 0 ≤ least) (next : ℕ → Mode) :
      (headerVerdict marker least greatest (fun n => (next n, server)) p = .wait →
        headerVerdict marker least greatest (fun n => (next n, server')) p = .wait) ∧
      ∀ n s, headerVerdict marker least greatest (fun n => (next n, server)) p =
          .consume n [] s → s.2 = server ∧
        headerVerdict marker least greatest (fun n => (next n, server')) p =
          .consume n [] (s.1, server') := by
    have hseen := @headerVerdict_seen marker least greatest (fun n => (next n, server)) hleast p
    generalize headerVerdict marker least greatest (fun n => (next n, server)) p = v at hseen
    cases hseen with
    | starved => exact ⟨fun _ => rfl, by simp⟩
    | unended hline => exact ⟨fun _ => headerVerdict_open hline, by simp⟩
    | unmarked | blank | refused => exact ⟨by simp, by simp⟩
    | accepted hcr hb hn hmin hmax =>
      refine ⟨by simp, fun n s h => ?_⟩
      cases h
      rw [headerVerdict_line hcr, if_neg hb, hn, if_pos ⟨hmin, hmax⟩]
      exact ⟨rfl, rfl⟩
  cases mode with
  | header =>
    by_cases hnewline : p.head? = some 13 ∨ p.head? = some 10
    · simp only [readerVerdict, if_pos hnewline]
      refine ⟨by simp, fun n s h => ?_⟩
      cases h
      exact ⟨rfl, rfl⟩
    · simp only [readerVerdict, if_neg hnewline]
      exact hheader zero_le_one fun n => .bulk n []
  | bulk total args => exact hheader le_rfl (.data total args)
  | data total args len =>
    rw [readerVerdict_data, readerVerdict_data]
    by_cases hshort : p.length < len + 2
    · rw [dataVerdict, dataVerdict, if_pos hshort, if_pos hshort]
      exact ⟨fun _ => rfl, by simp⟩
    have hlong := not_lt.mp hshort
    by_cases hlast : args.length + 1 = total
    · rw [dataVerdict_last hlong hlast]
      split <;> exact ⟨by simp, by simp⟩
    · rw [dataVerdict_more hlong hlast, dataVerdict_more hlong hlast]
      refine ⟨by simp, fun n s h => ?_⟩
      obtain ⟨rfl, hnone, rfl⟩ := Verdict.consume.inj h
      rw [hnone]
      exact ⟨rfl, rfl⟩

/-- **The reader does not look at the database** in front of a command. -/
theorem drain_silent {mode mode' : Mode} {p rest : List UInt8} {database : ServerContext}
    (h : (reader tables).drain (mode, server) p = ([], ⟨some (mode', database), rest⟩)) :
    database = server ∧
      (reader tables).drain (mode, server') p = ([], ⟨some (mode', server'), rest⟩) := by
  induction hn : p.length using Nat.strongRecOn generalizing mode p with
  | ind n ih =>
    obtain ⟨hwait, hconsume⟩ := @readerVerdict_silent tables server server' mode p
    cases hv : (reader tables).verdict (mode, server) p with
    | wait =>
      rw [Tokenizer.drain_wait hv] at h
      rw [Tokenizer.drain_wait (hwait hv)]
      cases h
      exact ⟨rfl, rfl⟩
    | stop k out =>
      rw [Tokenizer.drain_stop hv] at h
      cases h
    | consume k out s =>
      obtain ⟨hpos, hle⟩ := (reader tables).progress _ _ _ _ _ hv
      rw [Tokenizer.drain_consume hv] at h
      obtain ⟨hout, hconfig⟩ := Prod.mk.inj h
      obtain ⟨rfl, hnil⟩ := List.append_eq_nil_iff.mp hout
      obtain ⟨hserver, hv'⟩ := hconsume k s hv
      rw [Tokenizer.drain_consume hv', Tokenizer.before_nil]
      obtain ⟨m, _⟩ := s
      obtain rfl : _ = server := hserver
      exact ih _ (by rw [List.length_drop]; omega) (Prod.ext hnil hconfig) rfl

end Silent

/-! ### Answers -/

theorem ExecuteResult.Gives.wellFormed {r : ExecuteResult} {reply : Reply} (h : r.Gives reply) :
    r.WellFormed := by
  obtain ⟨body, hbody, htext⟩ := Option.map_eq_some_iff.mp h.shows.2
  have hlength := congrArg List.length htext
  rw [List.length_take, ← h.length] at hlength
  rw [ExecuteResult.WellFormed, hbody]
  exact min_eq_left_iff.mp hlength

/-- What is sent for a result that gives an answer. -/
theorem ExecuteResult.Gives.replyBytes_eq {r : ExecuteResult} {reply : Reply} (h : r.Gives reply)
    (memory : ℕ → UInt8) : replyBytes memory r = reply.text ++ [13] := by
  obtain ⟨body, hbody, htext⟩ := Option.map_eq_some_iff.mp h.shows.2
  rw [replyBytes_of_wellFormed memory h.wellFormed, hbody, ← htext]
  rfl

/-- The database of the server represents a state of the machine, whose values are no longer than
an argument; it has a lock for each bucket, and none outside the array has been used. -/
structure Serving (locks : ℕ) (s : MapState) (server : ServerContext) : Prop
    extends server.Inside locks where
  represents : Represents server.db s
  within : s.bucketsCount.toNat ≤ locks
  bounded : s.Bounded MAX_BULK_LENGTH

section Executions

variable {tables : Env (Event DataEntry)} (henv : tables.Succeeds) {locks : ℕ} {s : MapState}
  {server : ServerContext} (h : Serving locks s server) {line : List (List UInt8)}
  (hline : Encodable line) (hbreaks : ¬s.Breaks locks line)

include henv h hline hbreaks

/-- A line that is executed is answered by the machine. -/
theorem Serving.execute :
    (server.execute tables (toRequest line)).1.Gives (s.answer locks line).1 ∧
      Serving locks (s.answer locks line).2 (server.execute tables (toRequest line)).2 := by
  obtain ⟨hgives, hrep, -⟩ := h.represents.execute_answer henv server.log
    (carries_toRequest line) (h.lockCount ▸ hbreaks)
  rw [h.lockCount] at hgives hrep
  have hwithin : server.db.bucketsCount ≤ server.db.lockCount := by
    rw [UInt64.le_iff_toNat_le, h.represents.bucketsCount, h.lockCount]
    exact h.within
  have hlocks : (toRequest line).HasLocks tables server.db server.log :=
    Request.hasLocks_of_le h.represents.wellFormed.bucketsCount_ne_zero hwithin _
  exact ⟨hgives, h.toInside.execute hlocks, hrep, MapState.bucketsCount_answer_le h.within hbreaks,
    h.bounded.answer locks hline.bounded⟩

/-- The answer is short enough to be sent. -/
theorem Serving.answers : server.Answers tables (toRequest line) := by
  obtain ⟨hgives, -⟩ := h.execute henv hline hbreaks
  have hlength := h.represents.length_answer_le locks (by decide) h.bounded line
  rw [MAX_BULK_LENGTH] at hlength
  rw [ServerContext.Answers, hgives.length, sizetToUint, if_neg (by omega)]

end Executions

/-! ### Connections -/

/-- A connection that waits for the rest of a line: it is where the reader is, in front of every
database, after the bytes that have arrived. -/
def Waiting (tables : Env (Event DataEntry)) (received : List UInt8) (ctx : ClientContext) : Prop :=
  ∃ mode p, (∀ server, (reader tables).drain (.header, server) received =
    ([], ⟨some (mode, server), p⟩)) ∧ ctx.Represents (mode, ctx.serverCtx) p

section Connections

variable {tables : Env (Event DataEntry)} {env : ServerEnv} (hgrants : env.Grants)
  {ctx : ClientContext} {log : List ServerEvent} (honce : Once ctx log) {received : List UInt8}
  (hwaiting : Waiting tables received ctx) {line : List (List UInt8)} (hline : Encodable line)
  {data : List UInt8}

theorem waiting_fresh (server : ServerContext) : Waiting tables [] (ClientContext.fresh server) :=
  ⟨.header, [], fun _ => Tokenizer.drain_wait reader_verdict_nil,
    ClientContext.represents_fresh server⟩

theorem Waiting.opened (h : Waiting tables received ctx) : ctx.closing = false := by
  obtain ⟨mode, p, -, hrep⟩ := h
  exact hrep.opened

/-- The database of a connection that waits is of no account. -/
theorem Waiting.withServer (h : Waiting tables received ctx) (server : ServerContext) :
    Waiting tables received { ctx with serverCtx := server } := by
  obtain ⟨mode, p, hdrain, hrep⟩ := h
  refine ⟨mode, p, hdrain, hrep.fits, hrep.opened, rfl, ?_, hrep.pending⟩
  have hmode := hrep.mode
  cases mode with
  | header => exact hmode
  | bulk total args => exact ⟨hmode.1, hmode.2.of_arguments rfl⟩
  | data total args len => exact ⟨hmode.1, hmode.2.1, hmode.2.2.of_arguments rfl⟩

include hgrants honce hwaiting

/-- **A read while a connection waits**: it shows what the reader makes of the stream so far. -/
private theorem receive_drains
    (hblank : .blankHeader ∉ ((reader tables).drain (.header, ctx.serverCtx)
      (received ++ data)).1) :
    (receive tables env ctx data).Ensures log fun ctx' new =>
      ctx'.At ((reader tables).drain (.header, ctx.serverCtx) (received ++ data)).2 ∧
        observe new = ((reader tables).drain (.header, ctx.serverCtx) (received ++ data)).1 ∧
          Once ctx' (new ++ log) ∧ Serves tables ctx.serverCtx new ctx'.serverCtx := by
  obtain ⟨mode, p, hdrain, hrep⟩ := hwaiting
  have hfeed : (reader tables).drain (.header, ctx.serverCtx) (received ++ data) =
      (reader tables).feed ⟨some (mode, ctx.serverCtx), p⟩ data := by
    rw [Tokenizer.drain_append, hdrain, Tokenizer.before_nil]
  have hsettled : (reader tables).Settled ⟨some (mode, ctx.serverCtx), p⟩ := by
    have hsettled := (reader tables).drain_settled (.header, ctx.serverCtx) received
    rwa [hdrain] at hsettled
  rw [hfeed] at hblank ⊢
  have hat : ctx.At ⟨some (mode, ctx.serverCtx), p⟩ := hrep
  obtain ⟨hat', hobserve⟩ := receive_refines hgrants hat hsettled data log hblank
  obtain ⟨honce', hserves⟩ := @receive_serves tables env ctx log data honce
  exact ⟨hat', hobserve, honce', hserves⟩

include hline

/-- A part of the line that is not the last one: nothing is sent, and the connection waits. -/
theorem receive_part {rest : List UInt8} (hrest : rest ≠ [])
    (hpart : received ++ data ++ rest = formatRespCommand line) :
    (receive tables env ctx data).Ensures log fun ctx' new => Once ctx' (new ++ log) ∧
      ctx'.serverCtx = ctx.serverCtx ∧ sent new = [] ∧ Waiting tables (received ++ data) ctx' := by
  obtain ⟨init, last, rfl⟩ : ∃ init last, line = init ++ [last] :=
    ⟨line.dropLast, line.getLast hline.ne_nil, (List.dropLast_append_getLast hline.ne_nil).symm⟩
  obtain ⟨⟨mode, database⟩, p, hdrain⟩ : ∃ s r, (reader tables).drain (.header, ctx.serverCtx)
      (received ++ data) = ([], ⟨some s, r⟩) :=
    drain_command_incomplete (fun c hc => absurd hc List.not_mem_nil) hline hpart.symm hrest
  have hsilent (server : ServerContext) : database = ctx.serverCtx ∧
      (reader tables).drain (.header, server) (received ++ data) =
        ([], ⟨some (mode, server), p⟩) := drain_silent hdrain
  obtain rfl := (hsilent ctx.serverCtx).1
  refine (receive_drains hgrants honce hwaiting (by rw [hdrain]; exact List.not_mem_nil)).mono ?_
  rw [hdrain]
  rintro ctx' new ⟨hat, hobserve, honce', hserves⟩
  have hrep : ctx'.Represents (mode, ctx.serverCtx) p := hat
  have hserver : ctx'.serverCtx = ctx.serverCtx := hrep.server
  exact ⟨honce', hserver, hserves.silent (executed_eq_nil hobserve), mode, p,
    fun server => (hsilent server).2, hserver ▸ hrep⟩

/-- **The last part of the line**: the line is executed, and the answer of the machine is sent. -/
theorem receive_last (henv : tables.Succeeds) {locks : ℕ} {s : MapState}
    (hserving : Serving locks s ctx.serverCtx) (hbreaks : ¬s.Breaks locks line)
    (hall : received ++ data = formatRespCommand line) :
    (receive tables env ctx data).Ensures log fun ctx' new => Once ctx' (new ++ log) ∧
      Serving locks (s.answer locks line).2 ctx'.serverCtx ∧
        sent new = (s.answer locks line).1.text ++ [13] := by
  obtain ⟨hgives, hnext⟩ := hserving.execute henv hline hbreaks
  have hanswers := hserving.answers henv hline hbreaks
  obtain ⟨init, last, rfl⟩ : ∃ init last, line = init ++ [last] :=
    ⟨line.dropLast, line.getLast hline.ne_nil, (List.dropLast_append_getLast hline.ne_nil).symm⟩
  have hjunk : ∀ c ∈ ([] : List UInt8), c = 13 ∨ c = 10 := by simp
  have hdrain := drain_command hjunk hline hanswers []
  rw [List.nil_append, List.append_nil, ← hall,
    Tokenizer.drain_wait (reader_verdict_short (by simp))] at hdrain
  refine (receive_drains hgrants honce hwaiting (by rw [hdrain]; simp [Tokenizer.before])).mono ?_
  rw [hdrain]
  rintro ctx' new ⟨hat, hobserve, honce', hserves⟩
  have hserver : ctx'.serverCtx = _ := ClientContext.Represents.server hat
  have hexecuted : executed new = [toRequest (init ++ [last])] := by
    rw [executed, hobserve]
    rfl
  refine ⟨honce', hserver ▸ hnext, ?_⟩
  obtain hnone | ⟨memory, hreply⟩ := hserves.answer _ hexecuted
  · have hclose := hserves.unanswered (by rw [hexecuted]; exact List.cons_ne_nil _ _) hnone
    rw [hobserve] at hclose
    simp [Tokenizer.before] at hclose
  · rw [hreply, hgives.replyBytes_eq]

end Connections

/-! ### Arrivals -/

/-- How far a client is: its line is on its way, it has been answered, or it has left. -/
inductive Client.Stage (tables : Env (Event DataEntry)) (line : List (List UInt8)) (c : Client)
    (ctx : ClientContext) : Prop where
  | waiting (hgone : c.gone = false) (hreply : c.reply = none)
    (h : Waiting tables c.received ctx)
  | answered (h : c.received = formatRespCommand line)
  | left (hgone : c.gone = true) (hclosing : ctx.closing = true)

/-- A client of the service and its connection: what has been sent is the answer. -/
structure Client.Seen (tables : Env (Event DataEntry)) (line : List (List UInt8)) (c : Client)
    (ctx : ClientContext) (log : List ServerEvent) : Prop where
  once : Once ctx log
  sent : sent log = c.reply.elim [] fun reply => reply.text ++ [13]
  stage : c.Stage tables line ctx

section Arrivals

variable {tables : Env (Event DataEntry)} {env : ServerEnv} {ctx : ClientContext}
  {log : List ServerEvent} {line : List (List UInt8)} {c : Client} {arrival : Arrival}

/-- An arrival that makes no callback, or one that does nothing. -/
theorem arrive_idle (h : arrival.bytes = [] ∧ ¬arrival.Leaves ∨ ctx.closing = true) :
    ctx.arrive tables env arrival = pure ctx := by
  cases arrival with
  | data bytes =>
    obtain ⟨hbytes, -⟩ | hclosing := h
    · obtain rfl : bytes = [] := hbytes
      exact receive_nil tables env
    · exact receive_closing tables env hclosing
  | ended status =>
    by_cases hidle : ctx.closing = true ∨ 0 < status
    · exact if_pos hidle
    obtain ⟨hopen, hstatus⟩ := not_or.mp hidle
    have hleaves : ¬status < 0 := (h.resolve_right hopen).2
    rw [ClientContext.arrive, if_neg hidle, onRead, if_neg hstatus, if_neg hleaves]
  | expired =>
    obtain ⟨-, hleaves⟩ | hclosing := h
    · exact absurd trivial hleaves
    · exact if_pos hclosing

/-- A client that leaves has its connection closed. -/
theorem arrive_leaves (h : arrival.Leaves) (hopen : ctx.closing = false) :
    (ctx.arrive tables env arrival).Ensures log fun ctx' new =>
      ctx' = { ctx with closing := true } ∧ ∀ e ∈ new, e.Quiet := by
  cases arrival with
  | data bytes => exact h.elim
  | ended status =>
    have hstatus : status < 0 := h
    rw [ClientContext.arrive, if_neg (by simp [hopen]; omega), onRead, if_neg (by omega),
      if_pos hstatus]
    refine ⟨rfl, ?_⟩
    show ∀ e ∈ [ServerEvent.close, .timerStop], e.Quiet
    simp [ServerEvent.Quiet]
  | expired =>
    rw [ClientContext.arrive, if_neg (by simp [hopen])]
    refine ⟨rfl, ?_⟩
    show ∀ e ∈ [ServerEvent.close], e.Quiet
    simp [ServerEvent.Quiet]

/-- Nothing arrives of the line. -/
private theorem arrive_of_nil (locks : ℕ) (s : MapState) (h : arrival.bytes = []) :
    c.arrive locks line s arrival = (s, { c with gone := c.gone || decide arrival.Leaves }) := by
  simp only [Client.arrive, h, List.append_nil]
  exact if_neg fun hfull => hfull.1 rfl

/-- What is not the last part of a line that is waited for. -/
private theorem arrive_of_ne (locks : ℕ) (s : MapState) (hleaves : ¬arrival.Leaves)
    (h : c.gone = true ∨ c.received ++ arrival.bytes ≠ formatRespCommand line) :
    c.arrive locks line s arrival = (s, { c with received := c.received ++ arrival.bytes }) := by
  simp only [Client.arrive, decide_eq_false hleaves, Bool.or_false]
  refine if_neg fun hfull => ?_
  obtain hgone | hne := h
  · exact Bool.false_ne_true (hfull.2.1.symm.trans hgone)
  · exact hne hfull.2.2

/-- The last part of a line. -/
private theorem arrive_of_eq (locks : ℕ) (s : MapState) (hleaves : ¬arrival.Leaves)
    (hbytes : arrival.bytes ≠ []) (hgone : c.gone = false)
    (h : c.received ++ arrival.bytes = formatRespCommand line) :
    c.arrive locks line s arrival = ((s.answer locks line).2,
      { c with received := c.received ++ arrival.bytes,
               reply := some (s.answer locks line).1 }) := by
  simp only [Client.arrive, decide_eq_false hleaves, Bool.or_false]
  exact if_pos ⟨hbytes, hgone, h⟩

variable {locks : ℕ} {s : MapState} (hserving : Serving locks s ctx.serverCtx)
  (hseen : c.Seen tables line ctx log)

include hserving hseen

/-- An arrival without bytes. -/
private theorem seen_of_nil (hbytes : arrival.bytes = []) :
    (ctx.arrive tables env arrival).Ensures log fun ctx' new =>
      Serving locks (c.arrive locks line s arrival).1 ctx'.serverCtx ∧
        (c.arrive locks line s arrival).2.Seen tables line ctx' (new ++ log) := by
  rw [arrive_of_nil locks s hbytes]
  by_cases hleaves : arrival.Leaves
  · by_cases hclosing : ctx.closing = true
    · rw [arrive_idle (.inr hclosing)]
      exact ⟨hserving, hseen.once, hseen.sent, .left (by simp [hleaves]) hclosing⟩
    · have honce := (arrive_serves tables env hseen.once arrival).1
      obtain ⟨hctx, hquiet⟩ := arrive_leaves hleaves (Bool.eq_false_iff.mpr hclosing)
      refine ⟨by rw [hctx]; exact hserving, honce, ?_, .left (by simp [hleaves]) (by rw [hctx])⟩
      rw [sent_append, sent_of_quiet hquiet, List.append_nil]
      exact hseen.sent
  · rw [arrive_idle (.inl ⟨hbytes, hleaves⟩)]
    simp only [decide_eq_false hleaves, Bool.or_false]
    exact ⟨hserving, hseen⟩

/-- **One arrival.** The connection does what the service does. -/
theorem arrive_seen (hgrants : env.Grants) (henv : tables.Succeeds) (hline : Encodable line)
    (hbreaks : ∀ s : MapState, s.bucketsCount.toNat ≤ locks → ¬s.Breaks locks line)
    {more : List UInt8}
    (hahead : c.received ++ arrival.bytes ++ more = formatRespCommand line) :
    (ctx.arrive tables env arrival).Ensures log fun ctx' new =>
      Serving locks (c.arrive locks line s arrival).1 ctx'.serverCtx ∧
        (c.arrive locks line s arrival).2.Seen tables line ctx' (new ++ log) := by
  by_cases hbytes : arrival.bytes = []
  · exact seen_of_nil hserving hseen hbytes
  obtain ⟨data, rfl⟩ : ∃ data, arrival = .data data := by
    cases arrival with
    | data data => exact ⟨data, rfl⟩
    | ended | expired => exact absurd rfl hbytes
  cases hseen.stage with
  | answered hall =>
    rw [← hall, List.append_assoc] at hahead
    have hnil := List.append_cancel_left (hahead.trans (List.append_nil _).symm)
    exact absurd (List.append_eq_nil_iff.mp hnil).1 hbytes
  | left hgone hclosing =>
    rw [arrive_of_ne locks s id (.inl hgone), arrive_idle (.inr hclosing)]
    exact ⟨hserving, hseen.once, hseen.sent, .left hgone hclosing⟩
  | waiting hgone hreply hwaiting =>
    have hsilent : sent log = [] := by rw [hseen.sent, hreply]; rfl
    by_cases hall : c.received ++ data = formatRespCommand line
    · rw [arrive_of_eq locks s id hbytes hgone hall]
      have hlast := receive_last hgrants hseen.once hwaiting hline henv hserving
        (hbreaks s hserving.within) hall
      refine hlast.mono fun ctx' new ⟨honce, hnext, hsent⟩ => ⟨hnext, honce, ?_, .answered hall⟩
      rw [sent_append, hsilent, hsent]
      rfl
    · rw [arrive_of_ne locks s id (.inr hall)]
      have hmore : more ≠ [] := fun hnil => hall (by rw [← hahead, hnil, List.append_nil]; rfl)
      refine (receive_part hgrants hseen.once hwaiting hline hmore hahead).mono
        fun ctx' new ⟨honce, hserver, hsent, hnext⟩ => ⟨hserver ▸ hserving, honce, ?_,
          .waiting hgone hreply hnext⟩
      rw [sent_append, hsent, List.append_nil]
      exact hseen.sent

end Arrivals

/-! ### Runs -/

/-- **The server is the service.** Any number of clients send a line each, cut into pieces in any
way, and some of them leave; the pieces arrive in any order. When nothing is refused, there is a
lock for each bucket and no line does what no map does, every client is sent the answer of the
service with a carriage return after it, and nothing before that; the table represents the state of
the machine; and no lock outside the array is used. The line feed that is stored behind each reply
is taken to change nothing. -/
theorem uvRun_serves (tables : Env (Event DataEntry)) (henv : tables.Succeeds)
    (env : ℕ → ServerEnv) (hgrants : ∀ i, (env i).Grants) (server : ServerContext) (s : MapState)
    (hserving : Serving server.db.lockCount.toNat s server)
    (lines : ℕ → List (List UInt8)) (hlines : ∀ i, Encodable (lines i))
    (hbreaks : ∀ i (s : MapState), s.bucketsCount.toNat ≤ server.db.lockCount.toNat →
      ¬s.Breaks server.db.lockCount.toNat (lines i)) (arrivals : List (ℕ × Arrival))
    (harrive : ∀ i, (own i arrivals).flatMap Arrival.bytes <+: formatRespCommand (lines i)) :
    let r := (uvRun tables env server arrivals).run []
    let v := service server.db.lockCount.toNat lines s arrivals
    Represents r.1.1.db v.1 ∧ LocksInside server.db.lockCount.toNat r.1.1.log ∧
      ∀ i, sent (own i r.2) = (v.2 i).reply.elim [] fun reply => reply.text ++ [13] := by
  have hrun : (uvRun tables env server arrivals).Ensures [] fun r new =>
      Serving server.db.lockCount.toNat
        (service server.db.lockCount.toNat lines s arrivals).1 r.1 ∧
      ∀ i, ((service server.db.lockCount.toNat lines s arrivals).2 i).Seen tables (lines i) (r.2 i)
        (own i (new ++ [])) := by
    refine Traced.interleave_simulates
      (fun i => Client.arrive server.db.lockCount.toNat (lines i)) (Serving _)
      (fun i c ctx log => c.Seen tables (lines i) ctx log)
      (fun i c as => c.received ++ as.flatMap Arrival.bytes <+: formatRespCommand (lines i))
      ?_ ?_ arrivals harrive hserving fun i => ⟨⟨ClientContext.fits_fresh server,
        .inl rfl⟩, rfl, .waiting rfl rfl (waiting_fresh server)⟩
    · intro i w c a as hprefix
      rw [List.flatMap_cons, ← List.append_assoc] at hprefix
      have hreceived : (c.arrive server.db.lockCount.toNat (lines i) w a).2.received =
          c.received ++ a.bytes := by
        rw [Client.arrive]
        split <;> rfl
      rwa [hreceived]
    · rintro i a as w c database ctx log ⟨more, hmore⟩ hserving hseen
      rw [List.flatMap_cons, ← List.append_assoc, List.append_assoc] at hmore
      have hbound : c.Seen tables (lines i) { ctx with serverCtx := database } log := by
        refine ⟨hseen.once, hseen.sent, ?_⟩
        cases hseen.stage with
        | waiting hgone hreply h => exact .waiting hgone hreply (h.withServer database)
        | answered h => exact .answered h
        | left hgone hclosing => exact .left hgone hclosing
      exact (arrive_seen hserving hbound (hgrants i) henv (hlines i) (hbreaks i) hmore).bind
        fun ctx' new h => h
  obtain ⟨hend, hseen⟩ := hrun
  refine ⟨hend.represents, hend.locksInside, fun i => ?_⟩
  have hsent := (hseen i).sent
  rwa [List.append_nil] at hsent

/-- The lines of clients: the first one stores a value under the key that the others look for. -/
private def sampleLine : ℕ → List (List UInt8)
  | 0 => [bytes "SET", bytes "k", bytes "v"]
  | _ + 1 => [bytes "GET", bytes "k"]

/-- The first client sends its line while the second one is at it; the third one leaves. -/
private def sampleArrivals : List (ℕ × Arrival) :=
  [(1, .data (bytes "*2\r\n$3\r\nGE")), (2, .data (bytes "*2\r\n$")),
    (0, .data (bytes "*3\r\n$3\r\nSET\r\n$1\r\nk\r\n$1\r\nv\r\n")), (2, .ended (-4095)),
    (1, .data (bytes "T\r\n$1\r\nk\r\n"))]

/-- The second client is sent the value of the first one, and the third one nothing. -/
theorem uvRun_serves_sample :
    let r := (uvRun Env.granting (fun _ => .granting) ⟨.fresh 1, []⟩ sampleArrivals).run []
    sent (own 0 r.2) = bytes "OK\r" ∧ sent (own 1 r.2) = bytes "v\r" ∧ sent (own 2 r.2) = [] := by
  have hlines : ∀ i, Encodable (sampleLine i)
    | 0 => by decide
    | _ + 1 => (by decide : Encodable [bytes "GET", bytes "k"])
  have hset : decode (sampleLine 0) = .ok (.write .SET (bytes "k") (bytes "v") 0) := rfl
  have hget (i : ℕ) : decode (sampleLine (i + 1)) = .ok (.get (bytes "k")) := rfl
  have hbreaks : ∀ i (s : MapState), s.bucketsCount.toNat ≤ 1 → ¬s.Breaks 1 (sampleLine i) := by
    rintro (_ | i) s - ⟨ask, hask, hbreaks⟩
    · cases hset.symm.trans hask
      exact hbreaks
    · cases (hget i).symm.trans hask
      exact hbreaks
  have harrive : ∀ i, (own i sampleArrivals).flatMap Arrival.bytes <+:
      formatRespCommand (sampleLine i)
    | 0 => by decide +kernel
    | 1 => by decide +kernel
    | 2 => by decide +kernel
    | n + 3 => by
      have hnone : own (n + 3) sampleArrivals = [] := by
        simp [sampleArrivals, own_cons_of_ne]
      rw [hnone]
      exact List.nil_prefix
  have hserving : Serving 1 ⟨∅, 1⟩ ⟨.fresh 1, []⟩ :=
    ⟨⟨rfl, fun e he => absurd he List.not_mem_nil⟩, .fresh ⟨0, rfl⟩ (by decide), le_rfl,
      MapState.bounded_empty 1⟩
  obtain ⟨-, -, hsent⟩ := uvRun_serves Env.granting Env.granting_succeeds (fun _ => .granting)
    (fun _ => ServerEnv.granting_grants) ⟨.fresh 1, []⟩ ⟨∅, 1⟩ hserving sampleLine hlines hbreaks
    sampleArrivals harrive
  exact ⟨(hsent 0).trans (by decide +kernel), (hsent 1).trans (by decide +kernel),
    (hsent 2).trans (by decide +kernel)⟩

end SimpleCDatabase
