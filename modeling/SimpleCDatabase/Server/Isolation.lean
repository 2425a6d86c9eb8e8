import SimpleCDatabase.Server.Clients

/-!
# Clients are isolated

A connection reads its stream without a look at the database, up to its command. So the command
that a client has executed is the one that its own connection would execute alone, in front of any
database, whatever the other clients send, and when.

## Main definitions

* `ClientContext.Same`: two connections that differ in the database only.
* `Parallel`: two connections that have done the same up to their command.

## Main results

* `parseStep_parallel`, `parseBuffer_parallel`, `arrive_parallel`: the iteration, the loop, the
  callback.
* `session_executed`: a session does not see the stale bytes.
* `uvRun_isolated`: the command of a client depends on what arrives on its own connection.
-/

namespace SimpleCDatabase

open Traced

/-! ### Connections in front of two databases -/

/-- The second connection is the first one in front of another database. -/
def ClientContext.Same (ctx ctx' : ClientContext) : Prop :=
  ctx' = { ctx with serverCtx := ctx'.serverCtx }

theorem ClientContext.same_of (ctx : ClientContext) (server : ServerContext) :
    ctx.Same { ctx with serverCtx := server } :=
  rfl

/-- Two iterations that end in the same way, in related states. -/
def StepRel {σ σ' : Type} (R : σ → σ' → Prop) : ForInStep σ → ForInStep σ' → Prop
  | .yield s, .yield s' | .done s, .done s' => R s s'
  | _, _ => False

section Reading

variable (env : ServerEnv) {ctx ctx' : ClientContext}

private theorem discard_same (h : ctx.Same ctx') (n : ℕ) :
    Alike ClientContext.Same (ctx.discard n) (ctx'.discard n) := by
  rw [ClientContext.Same] at h
  rw [h]
  exact fun _ => ⟨rfl, rfl⟩

private theorem reject_same (h : ctx.Same ctx') :
    Alike (StepRel ClientContext.Same) ctx.reject ctx'.reject := by
  rw [ClientContext.Same] at h
  rw [h]
  exact fun _ => ⟨rfl, rfl⟩

private theorem yield_same {x y : Traced ServerEvent ClientContext}
    (h : Alike ClientContext.Same x y) :
    Alike (StepRel ClientContext.Same) (do let ctx ← x; pure (.yield ctx))
      (do let ctx ← y; pure (.yield ctx)) :=
  h.bind fun _ _ hctx => alike_pure hctx

private theorem arrayHeader_same (h : ctx.Same ctx') :
    Alike (StepRel ClientContext.Same) (arrayHeader env ctx) (arrayHeader env ctx') := by
  obtain ⟨server, rfl⟩ : ∃ server, ctx' = { ctx with serverCtx := server } := ⟨_, h⟩
  refine alike_ite (fun _ => alike_pure h) fun _ => ?_
  refine alike_ite (fun _ => reject_same h) fun _ => ?_
  rw [show ClientContext.pending { ctx with serverCtx := server } = ctx.pending from rfl]
  cases findCrlf ctx.pending with
  | none => exact alike_pure h
  | some crlf =>
    refine (alike_of_eq (y := headerNumber env ctx) rfl).bind ?_
    rintro n _ rfl
    refine alike_ite (fun _ => reject_same h) fun _ => ?_
    refine alike_ite (fun _ => reject_same (ClientContext.same_of _ server)) fun _ => ?_
    exact yield_same (discard_same (ClientContext.same_of _ server) _)

private theorem expectType_same (h : ctx.Same ctx') :
    Alike (StepRel ClientContext.Same) (expectType env ctx) (expectType env ctx') := by
  obtain ⟨server, rfl⟩ : ∃ server, ctx' = { ctx with serverCtx := server } := ⟨_, h⟩
  refine alike_ite (fun _ => ?_) fun _ => ?_
  · exact (discard_same h _).bind fun _ _ hctx => arrayHeader_same env hctx
  · exact (alike_pure h).bind fun _ _ hctx => arrayHeader_same env hctx

private theorem expectLength_same (h : ctx.Same ctx') :
    Alike (StepRel ClientContext.Same) (expectLength env ctx) (expectLength env ctx') := by
  obtain ⟨server, rfl⟩ : ∃ server, ctx' = { ctx with serverCtx := server } := ⟨_, h⟩
  refine alike_ite (fun _ => reject_same h) fun _ => ?_
  refine alike_ite (fun _ => alike_pure h) fun _ => ?_
  rw [show ClientContext.pending { ctx with serverCtx := server } = ctx.pending from rfl]
  cases findCrlf ctx.pending with
  | none => exact alike_pure h
  | some crlf =>
    refine (alike_of_eq (y := headerNumber env ctx) rfl).bind ?_
    rintro n _ rfl
    refine alike_ite (fun _ => reject_same h) fun _ => ?_
    refine alike_ite (fun _ => reject_same (ClientContext.same_of _ server)) fun _ => ?_
    exact yield_same (discard_same (ClientContext.same_of _ server) _)

private theorem allocArguments_same (h : ctx.Same ctx') :
    Alike (fun r r' => r.1 = r'.1 ∧ r.2.Same r'.2) (allocArguments env ctx)
      (allocArguments env ctx') := by
  obtain ⟨server, rfl⟩ : ∃ server, ctx' = { ctx with serverCtx := server } := ⟨_, h⟩
  refine alike_ite (fun _ => ?_) fun _ => alike_pure ⟨rfl, h⟩
  refine (alike_of_eq (y := env.malloc (ctx.argsTotal * 8)) rfl).bind ?_
  rintro argv _ rfl
  refine (alike_of_eq (y := env.malloc (ctx.argsTotal * 8)) rfl).bind ?_
  rintro lengths _ rfl
  exact alike_pure ⟨rfl, rfl⟩

private theorem storeArgument_same (h : ctx.Same ctx') :
    Alike (fun r r' => r.1 = r'.1 ∧ r.2.Same r'.2) (storeArgument env ctx)
      (storeArgument env ctx') := by
  obtain ⟨server, rfl⟩ : ∃ server, ctx' = { ctx with serverCtx := server } := ⟨_, h⟩
  refine (alike_of_eq (y := env.malloc (ctx.dataToRead + 1)) rfl).bind ?_
  rintro granted _ rfl
  refine (alike_of_eq (y := emit (ServerEvent.argvStore ctx.argsParsed ctx.argsTotal
    ctx.tempArgv.length)) rfl).bind ?_
  rintro _ _ -
  exact alike_ite (fun _ => fun _ => ⟨⟨rfl, rfl⟩, rfl⟩) fun _ => fun _ => ⟨⟨rfl, rfl⟩, rfl⟩

end Reading

/-! ### Alike up to a command -/

/-- Two computations have the same events and related values, or the same first command. -/
def AlikeUpTo {α β : Type} (R : α → β → Prop) (log : List ServerEvent) (x : Traced ServerEvent α)
    (y : Traced ServerEvent β) : Prop :=
  R (x.run log).1 (y.run log).1 ∧ (x.run log).2 = (y.run log).2 ∨
    ∃ request rest rest', executed (x.run log).2 = request :: rest ∧
      executed (y.run log).2 = request :: rest'

section AlikeUpTo

variable {α β γ δ : Type} {R : α → β → Prop} {S : γ → δ → Prop} {log : List ServerEvent}
  {x : Traced ServerEvent α} {y : Traced ServerEvent β}

private theorem alikeUpTo_of_alike (h : Alike R x y) : AlikeUpTo R log x y := .inl (h log)

/-- The rule of composition. -/
private theorem alikeUpTo_bind {f : α → Traced ServerEvent γ} {g : β → Traced ServerEvent δ}
    (h : AlikeUpTo R log x y)
    (hfg : ∀ a b new, R a b → AlikeUpTo S (new ++ log) (f a) (g b)) :
    AlikeUpTo S log (x >>= f) (y >>= g) := by
  have hfirst {e l : List Request} {request : Request} {rest : List Request}
      (he : e = request :: rest) : ∃ rest, e ++ l = request :: rest := by
    subst he
    exact ⟨rest ++ l, rfl⟩
  obtain ⟨hR, hnew⟩ | ⟨request, rest, rest', hx, hy⟩ := h
  · obtain ⟨hS, hnew'⟩ | ⟨request, rest, rest', hf, hg⟩ := hfg _ _ (x.run log).2 hR
    · left
      rw [run_bind, run_bind, ← hnew]
      exact ⟨hS, congrArg (· ++ (x.run log).2) hnew'⟩
    · right
      rw [run_bind, run_bind, ← hnew, executed_append, executed_append, hf, hg]
      cases executed (x.run log).2 with
      | nil => exact ⟨request, rest, rest', rfl, rfl⟩
      | cons first _ => exact ⟨first, _, _, rfl, rfl⟩
  · right
    rw [run_bind, run_bind, executed_append, executed_append]
    obtain ⟨more, hmore⟩ := hfirst hx
    obtain ⟨more', hmore'⟩ := hfirst hy
    exact ⟨request, more, more', hmore, hmore'⟩

private theorem alikeUpTo_ite {c : Prop} [Decidable c] {x' : Traced ServerEvent α}
    {y' : Traced ServerEvent β} (h : c → AlikeUpTo R log x y) (h' : ¬c → AlikeUpTo R log x' y') :
    AlikeUpTo R log (if c then x else x') (if c then y else y') := by
  split
  · exact h ‹_›
  · exact h' ‹_›

end AlikeUpTo

/-! ### Iterations and reads -/

section Parallel

variable (tables tables' : Env (Event DataEntry)) (env : ServerEnv) {ctx ctx' : ClientContext}
  (log : List ServerEvent)

/-- What is executed when the count of the arguments is an `int`. -/
private theorem dispatch_executed (h : (sizetToInt (ctx.argsTotal - 1)).2 ≠ true) :
    executed ((dispatch tables env ctx).run log).2 = [ctx.command] := by
  have hspec := dispatch_spec tables env ctx log
  unfold Traced.Ensures at hspec
  generalize (dispatch tables env ctx).run log = r at hspec
  obtain ⟨r, new⟩ := r
  cases hspec with
  | overflow hoverflow => exact absurd hoverflow h
  | answered => simp [ServerEvent.output, Output.request]
  | unanswered _ hnew =>
    simp [executed_eq_nil (observe_replies hnew), ServerEvent.output, Output.request]

private theorem dispatch_same (h : ctx.Same ctx') :
    AlikeUpTo (StepRel ClientContext.Same) log (dispatch tables env ctx)
      (dispatch tables' env ctx') := by
  obtain ⟨server, rfl⟩ : ∃ server, ctx' = { ctx with serverCtx := server } := ⟨_, h⟩
  by_cases hargc : (sizetToInt (ctx.argsTotal - 1)).2 = true
  · have hleft : dispatch tables env ctx = ctx.freeParserResources.reject := if_pos hargc
    have hright : dispatch tables' env { ctx with serverCtx := server } =
        ClientContext.reject { ctx.freeParserResources with serverCtx := server } := if_pos hargc
    rw [hleft, hright]
    exact alikeUpTo_of_alike (reject_same (ClientContext.same_of _ server))
  · refine .inr ⟨ctx.command, [], [], dispatch_executed tables env log hargc, ?_⟩
    exact @dispatch_executed tables' env { ctx with serverCtx := server } log hargc

private theorem expectData_same (h : ctx.Same ctx') :
    AlikeUpTo (StepRel ClientContext.Same) log (expectData tables env ctx)
      (expectData tables' env ctx') := by
  obtain ⟨server, rfl⟩ : ∃ server, ctx' = { ctx with serverCtx := server } := ⟨_, h⟩
  refine alikeUpTo_ite (fun _ => alikeUpTo_of_alike (alike_pure h)) fun _ => ?_
  refine alikeUpTo_bind (alikeUpTo_of_alike (allocArguments_same env h)) ?_
  rintro ⟨allocated, ctx₁⟩ ⟨_, ctx₁'⟩ new₁ ⟨rfl, hctx₁⟩
  obtain ⟨server₁, rfl⟩ : ∃ server, ctx₁' = { ctx₁ with serverCtx := server } := ⟨_, hctx₁⟩
  refine alikeUpTo_ite (fun _ => ?_) fun _ =>
    alikeUpTo_of_alike (reject_same (ClientContext.same_of ctx₁.freeParserResources server₁))
  refine alikeUpTo_bind (alikeUpTo_of_alike (storeArgument_same env hctx₁)) ?_
  rintro ⟨stored, ctx₂⟩ ⟨_, ctx₂'⟩ new₂ ⟨rfl, hctx₂⟩
  obtain ⟨server₂, rfl⟩ : ∃ server, ctx₂' = { ctx₂ with serverCtx := server } := ⟨_, hctx₂⟩
  refine alikeUpTo_ite (fun _ => ?_) fun _ =>
    alikeUpTo_of_alike (reject_same (ClientContext.same_of ctx₂.freeParserResources server₂))
  refine alikeUpTo_ite (fun _ => dispatch_same tables tables' env _ hctx₂) fun _ => ?_
  exact alikeUpTo_of_alike (alike_pure
    (ClientContext.same_of { ctx₂ with state := .expectLength } server₂))

/-- **An iteration does not look at the database** before it executes a command. -/
theorem parseStep_parallel (h : ctx.Same ctx') :
    AlikeUpTo (StepRel ClientContext.Same) log (parseStep tables env ctx)
      (parseStep tables' env ctx') := by
  have hstate : ctx'.state = ctx.state := by rw [show ctx' = _ from h]
  rw [parseStep, parseStep, hstate]
  cases ctx.state with
  | expectType => exact alikeUpTo_of_alike (expectType_same env h)
  | expectLength => exact alikeUpTo_of_alike (expectLength_same env h)
  | expectData => exact expectData_same tables tables' env log h

/-- The first command of an iteration is the first one of the loop. -/
private theorem parseBuffer_first {request : Request} {rest : List Request} (h : ctx.Fits)
    (hfirst : executed ((parseStep tables env ctx).run log).2 = request :: rest) :
    ∃ rest, executed ((parseBuffer tables env ctx).run log).2 = request :: rest := by
  cases hstep : ((parseStep tables env ctx).run log).1 with
  | done s =>
    rw [run_parseBuffer_done tables env log hstep]
    exact ⟨rest, hfirst⟩
  | yield s =>
    rw [run_parseBuffer_yield tables env log h hstep, executed_append, hfirst]
    exact ⟨_, rfl⟩

/-- **The loop does not look at the database** before it executes a command. -/
theorem parseBuffer_parallel (hfits : ctx.Fits) (h : ctx.Same ctx') :
    AlikeUpTo ClientContext.Same log (parseBuffer tables env ctx)
      (parseBuffer tables' env ctx') := by
  induction hused : ctx.bufferUsed using Nat.strongRecOn generalizing ctx ctx' log with
  | ind n ih =>
    have hfits' : ctx'.Fits := by rw [show ctx' = _ from h]; exact hfits
    obtain ⟨hrel, hnew⟩ | ⟨request, rest, rest', hx, hy⟩ :=
      parseStep_parallel tables tables' env log h
    · cases hstep : ((parseStep tables env ctx).run log).1 with
      | done s =>
        cases hstep' : ((parseStep tables' env ctx').run log).1 with
        | yield s' =>
          rw [hstep, hstep'] at hrel
          exact hrel.elim
        | done s' =>
          rw [hstep, hstep'] at hrel
          rw [AlikeUpTo, run_parseBuffer_done tables env log hstep,
            run_parseBuffer_done tables' env log hstep']
          exact .inl ⟨hrel, hnew⟩
      | yield s =>
        cases hstep' : ((parseStep tables' env ctx').run log).1 with
        | done s' =>
          rw [hstep, hstep'] at hrel
          exact hrel.elim
        | yield s' =>
          rw [hstep, hstep'] at hrel
          obtain ⟨hsfits, hlt⟩ := parseStep_decreases tables env ctx log s hfits hstep
          have hrest := ih s.bufferUsed (by omega)
            (((parseStep tables env ctx).run log).2 ++ log) hsfits hrel rfl
          rw [AlikeUpTo, run_parseBuffer_yield tables env log hfits hstep,
            run_parseBuffer_yield tables' env log hfits' hstep', ← hnew]
          obtain ⟨hsame, hevents⟩ | ⟨request, rest, rest', hx, hy⟩ := hrest
          · exact .inl ⟨hsame, by rw [hevents]⟩
          · rw [executed_append, executed_append, hx, hy]
            cases executed ((parseStep tables env ctx).run log).2 with
            | nil => exact .inr ⟨request, rest, rest', rfl, rfl⟩
            | cons first _ => exact .inr ⟨first, _, _, rfl, rfl⟩
    · obtain ⟨more, hmore⟩ := parseBuffer_first tables env log hfits hx
      obtain ⟨more', hmore'⟩ := parseBuffer_first tables' env log hfits' hy
      exact .inr ⟨request, more, more', hmore, hmore'⟩

private theorem appendToBuffer_same (h : ctx.Same ctx') (data : List UInt8) :
    Alike ClientContext.Same (appendToBuffer env ctx data) (appendToBuffer env ctx' data) := by
  obtain ⟨server, rfl⟩ : ∃ server, ctx' = { ctx with serverCtx := server } := ⟨_, h⟩
  refine alike_ite (fun _ => ?_) fun _ => alike_pure (ClientContext.same_of _ server)
  refine Alike.bind (R := Eq) (alike_of_eq rfl) ?_
  rintro granted _ rfl
  exact alike_ite (fun _ _ => ⟨rfl, rfl⟩) fun _ _ => ⟨rfl, rfl⟩

/-- **A callback does not look at the database** before it executes a command. -/
theorem arrive_alikeUpTo (hfits : ctx.Fits) (h : ctx.Same ctx') (arrival : Arrival) :
    AlikeUpTo ClientContext.Same log (ctx.arrive tables env arrival)
      (ctx'.arrive tables' env arrival) := by
  obtain ⟨server, rfl⟩ : ∃ server, ctx' = { ctx with serverCtx := server } := ⟨_, h⟩
  have hkept :
      AlikeUpTo ClientContext.Same log (pure ctx) (pure { ctx with serverCtx := server }) :=
    alikeUpTo_of_alike (alike_pure h)
  have hclosed (events : List ServerEvent) : AlikeUpTo ClientContext.Same log
      (emits events >>= fun _ => ctx.uvClose)
      (emits events >>= fun _ => ClientContext.uvClose { ctx with serverCtx := server }) :=
    alikeUpTo_of_alike fun _ => ⟨rfl, rfl⟩
  cases arrival with
  | data bytes =>
    by_cases hclosing : ctx.closing = true
    · rw [ClientContext.arrive, ClientContext.arrive, receive_closing tables env hclosing,
        @receive_closing tables' env { ctx with serverCtx := server } bytes hclosing]
      exact hkept
    have hopen : ctx.closing = false := Bool.eq_false_iff.mpr hclosing
    by_cases hbytes : bytes = []
    · rw [ClientContext.arrive, ClientContext.arrive, hbytes, receive_nil, receive_nil]
      exact hkept
    rw [ClientContext.arrive, ClientContext.arrive, receive_eq tables env hopen hbytes,
      @receive_eq tables' env { ctx with serverCtx := server } bytes hopen hbytes]
    refine alikeUpTo_bind (alikeUpTo_of_alike (alike_of_eq rfl)) fun _ _ new _ => ?_
    have hgrown := appendToBuffer_same env h bytes (new ++ log)
    have hroom : (appendToBuffer env ctx bytes).Ensures (new ++ log) fun ctx₁ _ => ctx₁.Fits :=
      (appendToBuffer_spec env hfits bytes _).mono fun ctx₁ _ happended => by
        cases happended with
        | appended hroom => exact hroom
        | denied => exact hfits
    have happend : AlikeUpTo (fun a b => a.Same b ∧ a.Fits) (new ++ log)
        (appendToBuffer env ctx bytes)
        (appendToBuffer env { ctx with serverCtx := server } bytes) :=
      .inl ⟨⟨hgrown.1, hroom⟩, hgrown.2⟩
    exact alikeUpTo_bind happend fun _ _ _ hctx =>
      parseBuffer_parallel tables tables' env _ hctx.2 hctx.1
  | ended status =>
    refine alikeUpTo_ite (fun _ => hkept) fun hopen => ?_
    refine alikeUpTo_ite (fun hpos => absurd (.inr hpos) hopen) fun _ => ?_
    exact alikeUpTo_ite (fun _ => hclosed [.timerStop]) fun _ => hkept
  | expired => exact alikeUpTo_ite (fun _ => hkept) fun _ => hclosed []

/-- Two connections that have done the same, or have executed the same command. -/
structure Parallel (ctx : ClientContext) (log : List ServerEvent) (ctx' : ClientContext)
    (log' : List ServerEvent) : Prop where
  once : Once ctx log
  once' : Once ctx' log'
  same : ctx.Same ctx' ∧ log = log' ∨ executed log = executed log' ∧ executed log ≠ []

theorem Parallel.executed_eq {ctx ctx' : ClientContext} {log log' : List ServerEvent}
    (h : Parallel ctx log ctx' log') : executed log = executed log' :=
  h.same.elim (fun heq => congrArg executed heq.2) And.left

private theorem executed_of_first {new : List ServerEvent} {request : Request}
    {rest : List Request} (hnew : executed new = request :: rest)
    (hlength : (executed (new ++ log)).length ≤ 1) : executed (new ++ log) = [request] := by
  rw [executed_append, hnew, List.length_append, List.length_cons] at hlength
  have hrest : rest = [] := List.length_eq_zero_iff.mp (by omega)
  have hlog : executed log = [] := List.length_eq_zero_iff.mp (by omega)
  rw [executed_append, hnew, hlog, hrest, List.nil_append]

private theorem executed_of_done {new : List ServerEvent} (hdone : executed log ≠ [])
    (hlength : (executed (new ++ log)).length ≤ 1) : executed (new ++ log) = executed log := by
  have hpos := List.length_pos_iff.mpr hdone
  rw [executed_append, List.length_append] at hlength
  have hnew : executed new = [] := List.length_eq_zero_iff.mp (by omega)
  rw [executed_append, hnew, List.append_nil]

/-- **One callback on two connections.** -/
theorem arrive_parallel {log log' : List ServerEvent} (h : Parallel ctx log ctx' log')
    (arrival : Arrival) : (ctx.arrive tables env arrival).Ensures log fun ctx₁ new =>
      (ctx'.arrive tables' env arrival).Ensures log' fun ctx₁' new' =>
        Parallel ctx₁ (new ++ log) ctx₁' (new' ++ log') := by
  have honce := (arrive_serves tables env h.once arrival).1
  have honce' := (arrive_serves tables' env h.once' arrival).1
  refine ⟨honce, honce', ?_⟩
  obtain ⟨hsame, rfl⟩ | ⟨heq, hdone⟩ := h.same
  · obtain ⟨hctx, hnew⟩ | ⟨request, rest, rest', hx, hy⟩ :=
      arrive_alikeUpTo tables tables' env log h.once.1 hsame arrival
    · exact .inl ⟨hctx, congrArg (· ++ log) hnew⟩
    · right
      rw [executed_of_first log hx honce.length_le, executed_of_first log hy honce'.length_le]
      exact ⟨rfl, List.cons_ne_nil _ _⟩
  · right
    rw [executed_of_done log hdone honce.length_le,
      executed_of_done log' (heq ▸ hdone) honce'.length_le]
    exact ⟨heq, hdone⟩

end Parallel

/-! ### Connections on their own -/

/-- A connection on its own: what arrives on it, one after the other. -/
def session (tables : Env (Event DataEntry)) (env : ServerEnv) (server : ServerContext)
    (arrivals : List Arrival) : Traced ServerEvent ClientContext :=
  Traced.runAll (fun ctx arrival => ctx.arrive tables env arrival) (ClientContext.fresh server)
    arrivals

/-- Every arrival of a session is regular. -/
def SessionRegular (tables : Env (Event DataEntry)) (env : ServerEnv) (server : ServerContext)
    (arrivals : List Arrival) : Prop :=
  Guarded (ClientContext.arrive tables env) (Arrival.Regular tables env)
    (ClientContext.fresh server) [] arrivals

instance (tables : Env (Event DataEntry)) (env : ServerEnv) (server : ServerContext)
    (arrivals : List Arrival) : Decidable (SessionRegular tables env server arrivals) :=
  inferInstanceAs (Decidable (Guarded _ _ _ _ _))

section Sessions

variable (tables : Env (Event DataEntry)) {env env' : ServerEnv} {ctx ctx' : ClientContext}
  {log log' : List ServerEvent}

/-- **A regular session** touches nothing outside an array. -/
theorem session_inside {n : ℕ} {server : ServerContext} {arrivals : List Arrival}
    (hregular : SessionRegular tables env server arrivals) (hserver : server.Inside n) :
    let r := (session tables env server arrivals).run []
    (∀ e ∈ r.2, e.InBounds) ∧ r.1.serverCtx.Inside n := by
  have hrun := Traced.runAll_guarded (ClientContext.arrive tables env)
    (Arrival.Regular tables env) (fun ctx log => Once ctx log ∧
      (ctx.Settled ∧ ∀ e ∈ log, e.InBounds) ∧ ctx.serverCtx.Inside n)
    (fun ctx log arrival hok ⟨honce, ⟨hctx, hlog⟩, hinside⟩ =>
      ⟨(arrive_serves tables env honce arrival).1, arrive_inside hok honce hctx hlog hinside⟩)
    arrivals (ClientContext.fresh server) [] hregular
    ⟨⟨ClientContext.fits_fresh server, .inl rfl⟩, ⟨(ClientContext.parsing_fresh server).settled,
      fun e he => absurd he List.not_mem_nil⟩, hserver⟩
  rw [List.append_nil] at hrun
  exact ⟨hrun.2.1.2, hrun.2.2⟩

variable {tables}

/-- Nothing is done on a connection that is being closed. -/
private theorem arrive_closing (h : ctx.closing = true) (arrival : Arrival) :
    ctx.arrive tables env arrival = pure ctx := by
  cases arrival with
  | data bytes => exact receive_closing tables env h
  | ended status => exact if_pos (.inl h)
  | expired => exact if_pos h

private theorem session_closing (h : ctx.closing = true) (arrivals : List Arrival) :
    executed ((Traced.runAll (ClientContext.arrive tables env) ctx arrivals).run log).2 = [] := by
  induction arrivals generalizing log with
  | nil => rfl
  | cons arrival arrivals ih =>
    rw [Traced.runAll, arrive_closing h, run_bind, run_pure, List.append_nil]
    exact ih

/-- An end of the stream and the timer either do nothing or have the connection closed. -/
private theorem arrive_dataless {arrival : Arrival} (hdataless : ∀ bytes, arrival ≠ .data bytes) :
    (∀ env (ctx : ClientContext), ctx.closing = false →
      ctx.arrive tables env arrival = pure ctx) ∨
    ∀ env (ctx : ClientContext) log, ctx.closing = false → (ctx.arrive tables env arrival).Ensures
      log fun ctx' new => ctx'.closing = true ∧ executed new = [] := by
  cases arrival with
  | data bytes => exact absurd rfl (hdataless bytes)
  | ended status =>
    by_cases hstatus : status < 0
    · refine .inr fun env ctx log hopen => ?_
      rw [ClientContext.arrive, if_neg (by simp [hopen]; omega), onRead, if_neg (by omega),
        if_pos hstatus]
      exact ⟨rfl, rfl⟩
    · refine .inl fun env ctx hopen => ?_
      rw [ClientContext.arrive]
      split
      · rfl
      · rw [onRead, if_neg (by simp_all), if_neg hstatus]
  | expired =>
    refine .inr fun env ctx log hopen => ?_
    rw [ClientContext.arrive, if_neg (by simp [hopen])]
    exact ⟨rfl, rfl⟩

/-- Two connections that are where the reader is execute the same, whatever stale bytes they find,
when memory is granted and the reader meets no blank header line. -/
private theorem session_alike (hgrants : env.Grants) (hgrants' : env'.Grants)
    (arrivals : List Arrival) {c : Tokenizer.Config UInt8 (Mode × ServerContext)} (h : ctx.At c)
    (h' : ctx'.At c) (hsettled : (reader tables).Settled c)
    (hblank : .blankHeader ∉ ((reader tables).feedAll c (arrivals.map Arrival.bytes)).1) :
    executed ((Traced.runAll (ClientContext.arrive tables env) ctx arrivals).run log).2 =
      executed ((Traced.runAll (ClientContext.arrive tables env') ctx' arrivals).run log').2 := by
  induction arrivals generalizing ctx ctx' log log' c with
  | nil => rfl
  | cons arrival arrivals ih =>
    obtain ⟨_ | s, p⟩ := c
    · have hclosing : ctx.closing = true := h.1
      have hclosing' : ctx'.closing = true := h'.1
      rw [session_closing hclosing, session_closing hclosing']
    have hopen : ctx.closing = false := ClientContext.Represents.opened h
    have hopen' : ctx'.closing = false := ClientContext.Represents.opened h'
    rw [Traced.runAll, Traced.runAll, run_bind, run_bind, executed_append, executed_append]
    by_cases hdata : ∃ bytes, arrival = .data bytes
    · obtain ⟨bytes, rfl⟩ := hdata
      have hfirst : .blankHeader ∉ ((reader tables).feed ⟨some s, p⟩ bytes).1 :=
        fun hmem => hblank (List.mem_append_left _ hmem)
      obtain ⟨hat, hnew⟩ := receive_refines hgrants h hsettled bytes log hfirst
      obtain ⟨hat', hnew'⟩ := receive_refines hgrants' h' hsettled bytes log' hfirst
      refine congrArg₂ (· ++ ·)
        (congrArg (List.filterMap Output.request) (hnew.trans hnew'.symm)) ?_
      exact ih hat hat' ((reader tables).feed_settled _ bytes)
        fun hmem => hblank (List.mem_append_right _ hmem)
    obtain hidle | hleaves := @arrive_dataless tables _ (not_exists.mp hdata)
    · have hnothing : arrival.bytes = [] := by
        cases arrival with
        | data bytes => exact absurd ⟨bytes, rfl⟩ hdata
        | ended | expired => rfl
      rw [hidle env ctx hopen, hidle env' ctx' hopen']
      refine congrArg (executed [] ++ ·) (ih h h' hsettled fun hmem => hblank ?_)
      rw [List.map_cons, hnothing, Tokenizer.feedAll, hsettled.feed_nil]
      exact hmem
    · obtain ⟨hclosing, hnew⟩ := hleaves env ctx log hopen
      obtain ⟨hclosing', hnew'⟩ := hleaves env' ctx' log' hopen'
      rw [hnew, hnew', session_closing hclosing, session_closing hclosing']

/-- **The stale bytes are not seen** where no header line is blank, and memory is granted. -/
theorem session_executed (hgrants : env.Grants) (hgrants' : env'.Grants) {server : ServerContext}
    {arrivals : List Arrival}
    (hblank : ¬ReachesBlankHeader tables server (arrivals.flatMap Arrival.bytes)) :
    executed ((session tables env server arrivals).run []).2 =
      executed ((session tables env' server arrivals).run []).2 := by
  have hfresh : ClientContext.At (ClientContext.fresh server) ⟨some (.header, server), []⟩ :=
    ClientContext.represents_fresh server
  refine session_alike hgrants hgrants' arrivals hfresh hfresh ?_ ?_
  · rintro s ⟨⟩
    exact reader_verdict_nil
  · rw [(reader tables).feedAll_eq reader_verdict_nil]
    exact hblank

end Sessions

/-! ### Runs -/

/-- **Clients are isolated.** Where nothing outside an array is touched, the command that the server
executes for a client is the one that a connection executes on its own, in front of any database: it
depends on what arrives on this connection only, neither on the other connections nor on the order
of the callbacks. What the connection on its own finds in the memory that it is granted may be
different, unless a header line is blank, and the stale bytes are read as its number. -/
theorem uvRun_isolated {tables tables' : Env (Event DataEntry)} {env : ℕ → ServerEnv}
    {env' : ServerEnv} {server server' : ServerContext} {arrivals : List (ℕ × Arrival)} {i n n' : ℕ}
    (hserver : server.Inside n) (hregular : UvRunRegular tables env server arrivals)
    (hserver' : server'.Inside n')
    (hregular' : SessionRegular tables' env' server' (own i arrivals))
    (henv : env' = env i ∨ (env i).Grants ∧ env'.Grants ∧
      ¬ReachesBlankHeader tables' server' ((own i arrivals).flatMap Arrival.bytes)) :
    let r := (uvRun tables env server arrivals).run []
    let r' := (session tables' env' server' (own i arrivals)).run []
    executed (own i r.2) = executed r'.2 ∧
      ((∀ e ∈ r.2, e.2.InBounds) ∧ r.1.1.Inside n) ∧
      (∀ e ∈ r'.2, e.InBounds) ∧ r'.1.serverCtx.Inside n' := by
  refine ⟨?_, uvRun_inside hregular hserver, session_inside tables' hregular' hserver'⟩
  have hfresh : Parallel (ClientContext.fresh server) [] (ClientContext.fresh server') [] :=
    ⟨⟨ClientContext.fits_fresh server, .inl rfl⟩, ⟨ClientContext.fits_fresh server', .inl rfl⟩,
      .inl ⟨rfl, rfl⟩⟩
  have hstep : ∀ arrival, (i, arrival) ∈ arrivals → ∀ database ctx log ctx' log',
      Parallel ctx log ctx' log' → (serveClient tables env i database ctx arrival).Ensures log
        fun r new => (ctx'.arrive tables' (env i) arrival).Ensures log' fun ctx₁' new' =>
          Parallel r.2 (new ++ log) ctx₁' (new' ++ log') := by
    intro arrival _ database ctx log ctx' log' h
    have hbound : Parallel { ctx with serverCtx := database } log ctx' log' := by
      refine ⟨h.once, h.once', h.same.imp_left fun hsame => ⟨?_, hsame.2⟩⟩
      rw [ClientContext.Same, show ctx' = _ from hsame.1]
    exact arrive_parallel tables tables' (env i) hbound arrival
  have hrun : (uvRun tables env server arrivals).Ensures [] fun r new =>
      (session tables' (env i) server' (own i arrivals)).Ensures [] fun ctx' new' =>
        Parallel (r.2 i) (own i (new ++ [])) ctx' (new' ++ []) :=
    Traced.interleave_alone i _ Parallel arrivals hstep hfresh
  have heq := hrun.executed_eq
  rw [List.append_nil, List.append_nil] at heq
  obtain rfl | ⟨hgrants, hgrants', hblank⟩ := henv
  · exact heq
  · exact heq.trans (session_executed hgrants hgrants' hblank)

/-- What is granted to another connection holds other bytes, and other bytes stand behind it. -/
def otherMemory : ServerEnv := ⟨fun _ _ => true, fun _ _ => 49, fun _ => bytes "7\r\n", 208⟩

/-- A client asks for a key that another one has stored in the meantime; alone it asks for the same,
in front of another table and in another memory. -/
theorem uvRun_isolated_alone :
    let arrivals := [(1, .data (bytes "*2\r\n$3\r\nGE")),
      (0, .data (formatRespCommand [bytes "SET", bytes "k", bytes "v"])),
      (1, .data (bytes "T\r\n$1\r\nk\r\n"))]
    executed (own 1 ((uvRun .granting (fun _ => .granting) ⟨.fresh 1, []⟩ arrivals).run []).2) =
      executed ((session .granting otherMemory ⟨.fresh 4, []⟩ (own 1 arrivals)).run []).2 := by
  intro arrivals
  have hnone {n : ℕ} : LocksInside n ([] : List (Event DataEntry)) :=
    fun e he => absurd he List.not_mem_nil
  have hblank : ¬ReachesBlankHeader .granting ⟨.fresh 4, []⟩
      (formatRespCommand [bytes "GET", bytes "k"]) := by
    rw [ReachesBlankHeader, drain_formatRespCommand (by decide) (by decide +kernel)]
    simp
  have hserver : ServerContext.Inside 1 ⟨.fresh 1, []⟩ := ⟨rfl, hnone⟩
  have hserver' : ServerContext.Inside 4 ⟨.fresh 4, []⟩ := ⟨rfl, hnone⟩
  have hregular : UvRunRegular .granting (fun _ => .granting) ⟨.fresh 1, []⟩ arrivals := by
    decide +kernel
  have hregular' : SessionRegular .granting otherMemory ⟨.fresh 4, []⟩ (own 1 arrivals) := by
    decide +kernel
  exact (uvRun_isolated (i := 1) hserver hregular hserver' hregular'
    (.inr ⟨ServerEnv.granting_grants, fun _ _ => rfl, hblank⟩)).1

end SimpleCDatabase
