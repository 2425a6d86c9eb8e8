import SimpleCDatabase.Command.Replies
import SimpleCDatabase.Server.Sessions

/-!
# The bytes of the replies

A reply is meant to be the body of the result and `\r\n`. The code asks for room for one byte after
the body and stores two, and it sends one of them. So the `\n` is stored past the block, and what
is sent is the body and `\r`: no reply is framed, and a connection sends what it should only when
it executes nothing.

## Main definitions

* `sent`: the bytes handed to `uv_write`.
* `ExecuteResult.framed`, `ServerContext.results`: the bytes that should be sent for a result, and
  the results of the commands of a run.
* `ReplyFramed`, `Framed`: the stores are within the block and the bytes are as they should be, for
  one reply and for a run.

## Main results

* `replyBytes_of_wellFormed`: what is sent for a well-formed result.
* `parseStep_loud`: what one iteration sends.
* `replies_never_framed`: no reply is framed, and a run is framed exactly when it executes nothing.
-/

namespace SimpleCDatabase

open CString

/-! ### The bytes that are sent -/

/-- The bytes that an event hands to `uv_write`. -/
def ServerEvent.sent : ServerEvent → List UInt8
  | .write bytes => bytes
  | _ => []

/-- The bytes handed to `uv_write`, in the order of time. -/
def sent (log : List ServerEvent) : List UInt8 := gather ServerEvent.sent log

@[simp] theorem sent_nil : sent [] = [] := rfl

@[simp] theorem sent_append (new log : List ServerEvent) :
    sent (new ++ log) = sent log ++ sent new :=
  gather_append _ _ _

@[simp] theorem sent_cons (e : ServerEvent) (log : List ServerEvent) :
    sent (e :: log) = sent log ++ e.sent :=
  gather_cons _ _ _

/-- A store in a reply buffer is within the block. -/
def ServerEvent.ReplyInBounds : ServerEvent → Prop
  | .replyStore index size => index < size
  | _ => True

/-- The bytes that should be sent for a result: its body and `\r\n`. -/
def ExecuteResult.framed (r : ExecuteResult) : List UInt8 :=
  (r.body.getD []).take r.bodyLength ++ [13, 10]

/-- The results of a list of commands, one after the other. -/
def ServerContext.results (tables : Env (Event DataEntry)) :
    ServerContext → List Request → List ExecuteResult
  | _, [] => []
  | server, request :: requests =>
    (server.execute tables request).1 :: results tables (server.execute tables request).2 requests

/-- A reply is stored within its block and sent as the body and `\r\n`. -/
structure ReplyFramed (result : ExecuteResult) (new : List ServerEvent) : Prop where
  stores : ∀ e ∈ new, e.ReplyInBounds
  stream : sent new = result.framed

/-- The replies of a run are stored within their blocks, and what is sent are the bodies, each
with `\r\n`, of the results of the commands in the order of their execution. -/
structure Framed (tables : Env (Event DataEntry)) (server : ServerContext)
    (log : List ServerEvent) : Prop where
  stores : ∀ e ∈ log, e.ReplyInBounds
  stream : sent log =
    ((server.results tables (executed log)).map ExecuteResult.framed).flatten

/-! ### One reply -/

/-- The bytes of a reply: the first bytes of its block and `\r`. -/
private theorem replyBytes_eq (memory : ℕ → UInt8) (result : ExecuteResult) :
    replyBytes memory result = (reallocBytes memory (result.body.getD [])
      (result.bodyLength + 1)).take result.bodyLength ++ [13] := by
  have hlen := length_reallocBytes memory (result.body.getD []) (result.bodyLength + 1)
  rw [replyBytes, List.set_eq_of_length_le (by rw [List.length_set, hlen]),
    List.take_of_length_le (by rw [List.length_set, hlen]), List.set_eq_take_append_cons_drop,
    if_pos (by omega), List.drop_of_length_le hlen.le]

/-- **What is sent for a well-formed result** is its body and `\r`. -/
theorem replyBytes_of_wellFormed (memory : ℕ → UInt8) {result : ExecuteResult}
    (h : result.WellFormed) :
    replyBytes memory result = (result.body.getD []).take result.bodyLength ++ [13] := by
  have hlen : result.bodyLength ≤ (result.body.getD []).length := by
    rw [ExecuteResult.WellFormed] at h
    cases hbody : result.body with
    | none =>
      rw [hbody] at h
      exact h.le
    | some body =>
      rw [hbody] at h
      exact h
  rw [replyBytes_eq, reallocBytes, List.take_append_of_le_length (by rw [List.length_take]; omega),
    List.take_take, min_eq_left (Nat.le_succ _)]

/-- What is sent for a result ends in `\r`. -/
theorem getLast?_replyBytes (memory : ℕ → UInt8) (result : ExecuteResult) :
    (replyBytes memory result).getLast? = some 13 := by
  rw [replyBytes_eq, List.getLast?_append]
  rfl

theorem replyBytes_ne_nil (memory : ℕ → UInt8) (result : ExecuteResult) :
    replyBytes memory result ≠ [] := fun hnil => by
  have hlast := getLast?_replyBytes memory result
  rw [hnil] at hlast
  cases hlast

theorem getLast?_framed (result : ExecuteResult) : result.framed.getLast? = some 10 := by
  rw [ExecuteResult.framed, List.getLast?_append]
  rfl

/-- What is sent ends in `\r`, or nothing is sent. -/
def EndsUnframed (bs : List UInt8) : Prop := bs = [] ∨ bs.getLast? = some 13

theorem EndsUnframed.append {bs bs' : List UInt8} (h : EndsUnframed bs) (h' : EndsUnframed bs') :
    EndsUnframed (bs ++ bs') := by
  rcases h' with rfl | hlast
  · rwa [List.append_nil]
  · right
    rw [List.getLast?_append, hlast]
    rfl

theorem EndsUnframed.getLast?_ne {bs : List UInt8} (h : EndsUnframed bs) :
    bs.getLast? ≠ some 10 := by
  rcases h with rfl | hlast
  · exact nofun
  · rw [hlast]
    decide

/-- The events of a reply. -/
theorem sendReply_unframed (env : ServerEnv) (ctx : ClientContext) (result : ExecuteResult)
    (log : List ServerEvent) :
    (sendReply env ctx result).Ensures log fun _ new => EndsUnframed (sent new) := by
  rw [sendReply]
  refine env.ensures_malloc (fun _ => ?_) fun _ => .inl rfl
  rw [if_pos rfl, Traced.ensures_bind, Traced.ensures_ask, Traced.ensures_bind,
    Traced.ensures_emit, Traced.ensures_bind, Traced.ensures_emit]
  refine env.ensures_malloc (fun _ => ?_) fun _ => .inl rfl
  rw [if_pos rfl]
  refine Traced.ensures_ite (fun _ => .inl rfl) fun hfits => ?_
  rw [sizetToUint_of_fits (Bool.eq_false_iff.mpr hfits)]
  show EndsUnframed (sent [.write (replyBytes (env.memory _) result), .malloc _ _,
    .replyStore _ _, .replyStore _ _, .malloc _ _])
  simp only [sent_cons, sent_nil, ServerEvent.sent, List.nil_append]
  exact .inr (getLast?_replyBytes _ result)

/-! ### Runs -/

/-- Events that execute nothing and reply nothing, or execute commands and send no whole reply at
the end. -/
def Loud (new : List ServerEvent) : Prop :=
  executed new = [] ∧ sent new = [] ∧ (∀ e ∈ new, e.ReplyInBounds) ∨
    executed new ≠ [] ∧ EndsUnframed (sent new)

theorem Loud.append {new log : List ServerEvent} (h : Loud new) (hlog : Loud log) :
    Loud (new ++ log) := by
  have hends {l : List ServerEvent} (hl : Loud l) : EndsUnframed (sent l) := by
    rcases hl with ⟨-, hsent, -⟩ | ⟨-, hends⟩
    · exact .inl hsent
    · exact hends
  rw [Loud, executed_append, sent_append]
  by_cases hquiet : executed log ++ executed new = []
  · obtain ⟨hlognil, hnewnil⟩ := List.append_eq_nil_iff.mp hquiet
    obtain ⟨-, hnew, hstores⟩ := h.resolve_right fun h => h.1 hnewnil
    obtain ⟨-, hold, hstores'⟩ := hlog.resolve_right fun h => h.1 hlognil
    refine .inl ⟨hquiet, by rw [hnew, hold, List.append_nil], fun e he => ?_⟩
    exact (List.mem_append.mp he).elim (hstores e) (hstores' e)
  · exact .inr ⟨hquiet, (hends hlog).append (hends h)⟩

/-- An event that neither executes nor replies. -/
def ServerEvent.Quiet : ServerEvent → Prop
  | .execute _ | .replyStore .. | .write _ => False
  | _ => True

theorem loud_of_quiet {new : List ServerEvent} (h : ∀ e ∈ new, e.Quiet) : Loud new := by
  induction new with
  | nil => exact .inl ⟨rfl, rfl, by simp⟩
  | cons e new ih =>
    have hone : Loud [e] := by
      refine .inl ?_
      cases e with
      | execute | replyStore | write => exact (h _ List.mem_cons_self).elim
      | argvStore index total size =>
        refine ⟨?_, rfl, by simp [ServerEvent.ReplyInBounds]⟩
        rw [executed_cons, ServerEvent.output]
        split <;> rfl
      | _ => exact ⟨rfl, rfl, by simp [ServerEvent.ReplyInBounds]⟩
    exact hone.append (ih fun e he => h e (List.mem_cons_of_mem _ he))

section Iterations

variable (tables : Env (Event DataEntry)) (env : ServerEnv) {ctx : ClientContext}
  (log : List ServerEvent)

private theorem HeaderRead.loud {marker : UInt8} {least greatest : ℤ}
    {next : ℕ → ClientContext} {r : ForInStep ClientContext} {new : List ServerEvent}
    (hread : HeaderRead ctx marker least greatest next r new) : Loud new := by
  refine loud_of_quiet ?_
  cases hread with
  | starved | unended => simp
  | unmarked | refused => simp [ServerEvent.Quiet]
  | accepted => simp [ServerEvent.Quiet]

private theorem allocEvents_quiet : ∀ e ∈ allocEvents ctx, e.Quiet := fun e he => by
  rw [eq_malloc_of_mem_allocEvents he]
  trivial

private theorem storeEvents_loud : Loud (storeEvents ctx) := by
  refine loud_of_quiet fun e he => ?_
  rcases List.mem_append.mp he with he | he
  · simp only [List.mem_cons, List.not_mem_nil, or_false] at he
    rcases he with rfl | rfl | rfl | rfl <;> trivial
  · exact allocEvents_quiet e he

private theorem Dispatched.loud {r : ForInStep ClientContext} {new : List ServerEvent}
    (hdispatched : Dispatched tables env ctx r new) : Loud new := by
  cases hdispatched with
  | overflow => exact loud_of_quiet (by simp [ServerEvent.Quiet])
  | answered =>
    refine .inr ⟨?_, ?_⟩
    · simp [ServerEvent.output, Output.request]
    · simp only [sent_cons, sent_nil, ServerEvent.sent, List.nil_append]
      exact .inr (getLast?_replyBytes _ _)
  | @unanswered new _ hnew =>
    refine .inr ⟨?_, .inl ?_⟩
    · simp [ServerEvent.output, Output.request]
    · have hsilent : sent new = [] := by
        refine gather_eq_nil fun e he => ?_
        obtain ⟨size, granted, rfl⟩ | ⟨index, size, rfl⟩ := hnew e he
        · rfl
        · rfl
      simp only [sent_cons, sent_append, sent_nil, hsilent, ServerEvent.sent, List.nil_append]

private theorem DataRead.loud {r : ForInStep ClientContext} {new : List ServerEvent}
    (hread : DataRead tables env ctx r new) : Loud new := by
  cases hread with
  | starved => exact loud_of_quiet (by simp)
  | unallocated => exact loud_of_quiet (by simp [ServerEvent.Quiet])
  | unstored =>
    refine loud_of_quiet fun e he => ?_
    rcases List.mem_append.mp he with he | he
    · simp only [List.mem_cons, List.not_mem_nil, or_false] at he
      rcases he with rfl | rfl | rfl <;> trivial
    · exact allocEvents_quiet e he
  | stored => exact storeEvents_loud
  | completed _ _ hdispatched => exact (hdispatched.loud tables env).append storeEvents_loud

/-- **What one iteration sends** is no whole reply at the end. -/
theorem parseStep_loud (h : ctx.Fits) :
    (parseStep tables env ctx).Ensures log fun _ new => Loud new := by
  refine parseStep_cases tables env log (fun _ => ?_) (fun _ => ?_) fun _ => ?_
  · refine (expectType_spec env log h).mono ?_
    rintro r _ ⟨new, hread, rfl⟩
    refine hread.loud.append (loud_of_quiet ?_)
    split <;> simp [ServerEvent.Quiet]
  · exact (expectLength_spec env log h).mono fun r new hread => hread.loud
  · exact (expectData_spec tables env ctx log).mono fun r new hread => hread.loud tables env

/-- **What one read sends** is no whole reply at the end. -/
theorem receive_loud {data : List UInt8} (h : ctx.Fits) (hlog : Loud log) :
    (receive tables env ctx data).Ensures log fun ctx' new => ctx'.Fits ∧ Loud (new ++ log) := by
  refine receive_cases tables env log (fun _ => ⟨h, hlog⟩) (fun _ => ⟨h, hlog⟩) fun _ _ => ?_
  refine (appendToBuffer_spec env h data _).mono fun ctx' new happended => ?_
  have hctx' : ctx'.Fits ∧ Loud (new ++ ([.timerStart] ++ log)) := by
    have hlog : Loud ([.timerStart] ++ log) :=
      (loud_of_quiet (by simp [ServerEvent.Quiet])).append hlog
    cases happended with
    | appended hfits _ hnew =>
      refine ⟨hfits, (loud_of_quiet ?_).append hlog⟩
      obtain rfl | ⟨size, rfl⟩ := hnew <;> simp [ServerEvent.Quiet]
    | denied => exact ⟨h, (loud_of_quiet (by simp [ServerEvent.Quiet])).append hlog⟩
  have hloop := Traced.loop_invariant (parseStep tables env) (fun ctx log => ctx.Fits ∧ Loud log)
    (fun s t hs => ⟨(parseStep_progress tables env t hs.1).1,
      (parseStep_loud tables env t hs.1).append hs.2⟩) (ctx'.bufferUsed + 1) ctx' _ hctx'
  simpa only [Traced.Ensures, parseBuffer, List.append_assoc] using hloop

end Iterations

/-- The bytes that should be sent for commands end in `\n`. -/
private theorem getLast?_results (tables : Env (Event DataEntry)) (server : ServerContext)
    {requests : List Request} (h : requests ≠ []) :
    ((server.results tables requests).map ExecuteResult.framed).flatten.getLast? = some 10 := by
  induction requests generalizing server with
  | nil => exact absurd rfl h
  | cons request requests ih =>
    rw [ServerContext.results, List.map_cons, List.flatten_cons, List.getLast?_append]
    cases requests with
    | nil => exact getLast?_framed _
    | cons request' requests =>
      rw [ih _ (List.cons_ne_nil _ _)]
      rfl

/-- **No reply is framed.** Whatever the result and the environment, the stores and the bytes of a
reply are not as they should be; and a run of a connection is as it should be exactly when no
command is executed in it. -/
theorem replies_never_framed (tables : Env (Event DataEntry)) (env : ServerEnv) :
    (∀ (ctx : ClientContext) (result : ExecuteResult) (log : List ServerEvent),
      ¬ReplyFramed result ((sendReply env ctx result).run log).2) ∧
    ∀ (server : ServerContext) (reads : List (List UInt8)),
      Framed tables server ((connection tables env server reads).run []).2 ↔
        executed ((connection tables env server reads).run []).2 = [] := by
  refine ⟨fun ctx result log hframed => ?_, fun server reads => ?_⟩
  · refine (sendReply_unframed env ctx result log).getLast?_ne ?_
    rw [hframed.stream]
    exact getLast?_framed result
  have hrun := Traced.runAll_invariant (receive tables env) (fun ctx log => ctx.Fits ∧ Loud log)
    reads (fun data _ ctx log hs => receive_loud tables env log hs.1 hs.2)
    (ClientContext.fresh server) [] ⟨ClientContext.fits_fresh server, loud_of_quiet (by simp)⟩
  rw [List.append_nil] at hrun
  have hloud : Loud ((connection tables env server reads).run []).2 := hrun.2
  constructor
  · intro hframed
    by_contra hexecuted
    obtain ⟨-, hends⟩ := hloud.resolve_left fun h => hexecuted h.1
    refine hends.getLast?_ne ?_
    rw [hframed.stream]
    exact getLast?_results tables server hexecuted
  · intro hnone
    obtain ⟨-, hsent, hstores⟩ := hloud.resolve_right fun h => h.1 hnone
    refine ⟨hstores, ?_⟩
    rw [hsent, hnone]
    rfl

/-- The answer to a `CLEAR` is sent without its `\n`, which is stored past the block. -/
theorem newline_stored_past_reply :
    ¬Framed Env.granting ⟨Hashtable.fresh 1, []⟩ ((connection Env.granting .granting
        ⟨Hashtable.fresh 1, []⟩ [bytes "*1\r\n$5\r\nCLEAR\r\n"]).run []).2 ∧
      .replyStore 3 3 ∈ ((connection Env.granting .granting ⟨Hashtable.fresh 1, []⟩
        [bytes "*1\r\n$5\r\nCLEAR\r\n"]).run []).2 ∧
      sent ((connection Env.granting .granting ⟨Hashtable.fresh 1, []⟩
        [bytes "*1\r\n$5\r\nCLEAR\r\n"]).run []).2 = bytes "OK\r" := by
  have hstore : .replyStore 3 3 ∈ ((connection Env.granting .granting ⟨Hashtable.fresh 1, []⟩
      [bytes "*1\r\n$5\r\nCLEAR\r\n"]).run []).2 := by decide +kernel
  exact ⟨fun h => absurd (h.stores _ hstore) (lt_irrefl 3), hstore, by decide +kernel⟩

end SimpleCDatabase
