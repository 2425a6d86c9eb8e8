import SimpleCDatabase.Server.Buffer

/-!
# What one iteration of the parser can do

The outcomes of one iteration of the loop of `parse_buffer` in each state of the parser, for every
environment, with the events of each outcome. What holds along the runs of a connection is derived
from these.

## Main definitions

* `HeaderRead`: the outcomes in front of an array header or a bulk header.
* `DataRead`: the outcomes in front of the data of an argument.
* `Dispatched`: the outcomes of the execution of a command.

## Main results

* `expectType_spec`, `expectLength_spec`, `expectData_spec`.
* `run_parseBuffer_yield`, `run_parseBuffer_done`, `parseBuffer_returns`: the loop of `parse_buffer`
  without its bound.
* `parseBuffer_ensures`: what the iterations of the loop preserve.
* `receive_cases`: the outcomes of a read.
-/

namespace SimpleCDatabase

open CString

namespace ClientContext

/-- The connection after `\r` and `\n` at the front of the buffer have been consumed. -/
def trimmed (ctx : ClientContext) : ClientContext := ctx.shift (leadingWhitespace ctx)

/-- The connection with the arrays of the arguments allocated. -/
def withArguments (ctx : ClientContext) : ClientContext :=
  { ctx with
    tempArgv := if ctx.argsParsed = 0 then List.replicate ctx.argsTotal [] else ctx.tempArgv
    tempArgLengths :=
      if ctx.argsParsed = 0 then List.replicate ctx.argsTotal 0 else ctx.tempArgLengths }

/-- The connection after the argument in front has been stored and consumed. -/
def stored (ctx : ClientContext) : ClientContext :=
  ({ ctx with
    tempArgv := ctx.tempArgv.set ctx.argsParsed (ctx.buffer.take ctx.dataToRead ++ [0])
    tempArgLengths := ctx.tempArgLengths.set ctx.argsParsed ctx.dataToRead
    argsParsed := ctx.argsParsed + 1 }).shift (ctx.dataToRead + 2)

/-- The connection that the parser closes, its arguments freed. -/
def abandoned (ctx : ClientContext) : ClientContext :=
  { ctx.freeParserResources with closing := true }

end ClientContext

/-! ### Headers -/

/-- The outcomes in front of a header with the given marker and bounds; `stale` is what stands
after the bytes at hand. -/
inductive HeaderRead (ctx : ClientContext) (marker : UInt8) (least greatest : ℤ)
    (next : ℕ → ClientContext) : ForInStep ClientContext → List ServerEvent → Prop where
  | starved (h : ctx.pending = []) : HeaderRead ctx marker least greatest next (.done ctx) []
  | unmarked {c : UInt8} {p : List UInt8} (h : ctx.pending = c :: p) (hc : c ≠ marker) :
    HeaderRead ctx marker least greatest next (.done { ctx with closing := true }) [.close]
  | unended {p : List UInt8} (h : ctx.pending = marker :: p) (hp : findCrlf p = none) :
    HeaderRead ctx marker least greatest next (.done ctx) []
  | refused {line rest stale : List UInt8}
    (h : ctx.pending = marker :: (line ++ 13 :: 10 :: rest)) (hcr : 13 ∉ line)
    (hn : ¬(least ≤ strtol (line ++ 13 :: 10 :: (rest ++ stale)) ∧
      strtol (line ++ 13 :: 10 :: (rest ++ stale)) ≤ greatest)) :
    HeaderRead ctx marker least greatest next (.done { ctx with closing := true }) [.close]
  | accepted {line rest stale : List UInt8} {n : ℕ}
    (h : ctx.pending = marker :: (line ++ 13 :: 10 :: rest)) (hcr : 13 ∉ line)
    (hn : strtol (line ++ 13 :: 10 :: (rest ++ stale)) = n) (hleast : least ≤ n)
    (hgreatest : n ≤ greatest) :
    HeaderRead ctx marker least greatest next (.yield ((next n).shift (line.length + 3)))
      [.consumed (ctx.buffer.take (line.length + 3))]

section Header

variable (env : ServerEnv) {ctx : ClientContext} (log : List ServerEvent)

theorem ClientContext.shift_zero (ctx : ClientContext) : ctx.shift 0 = ctx := by
  have hkeep : ctx.buffer.take ctx.bufferUsed ++ ctx.buffer.drop ctx.bufferUsed = ctx.buffer :=
    List.take_append_drop _ _
  simp only [ClientContext.shift, List.drop_zero, Nat.sub_zero, hkeep]

theorem leadingWhitespace_le (h : ctx.Fits) : leadingWhitespace ctx ≤ ctx.bufferUsed := by
  rw [← h.length_pending]
  exact (List.takeWhile_sublist _).length_le

theorem leadingWhitespace_marked {q : List UInt8} (h : ctx.pending = 42 :: q) :
    leadingWhitespace ctx = 0 := by
  simp [leadingWhitespace, h]

/-- The bytes in front of a header with a line, as `strtol` reads them. -/
theorem headerNumber_ensures {marker : UInt8} {p : List UInt8} (h : ctx.pending = marker :: p) :
    (headerNumber env ctx).Ensures log fun n new =>
      new = [] ∧ ∃ stale, n = strtol (p ++ stale) := by
  refine ⟨rfl, ctx.buffer.drop ctx.bufferUsed ++ env.beyond log, ?_⟩
  have hbuffer := ctx.buffer_eq
  rw [h, List.cons_append] at hbuffer
  have htail := congrArg List.tail hbuffer
  rw [List.tail_cons] at htail
  show strtol (ctx.buffer.tail ++ env.beyond log) = _
  rw [htail, List.append_assoc]

/-- The common part of both headers: the line is looked for, its number is read, and `act` is
done with it. -/
private theorem headerLine_ensures {marker : UInt8} {least greatest : ℤ} (hleast : 0 ≤ least)
    {next : ℕ → ClientContext} {act : ℕ → ℤ → Traced ServerEvent (ForInStep ClientContext)}
    {p : List UInt8} (hp : ctx.pending = marker :: p) (hmarker : marker ≠ 13)
    (hrefuse : ∀ crlf n log, ¬(least ≤ n ∧ n ≤ greatest) → (act crlf n).run log =
      (.done { ctx with closing := true }, [.close]))
    (haccept : ∀ crlf (n : ℕ) log, least ≤ n → n ≤ greatest → (act crlf n).run log =
      (.yield ((next n).shift (crlf + 2)), [.consumed (ctx.buffer.take (crlf + 2))])) :
    Traced.Ensures (match findCrlf ctx.pending with
      | none => pure (.done ctx)
      | some crlf => do
        let n ← headerNumber env ctx
        act crlf n) log (HeaderRead ctx marker least greatest next) := by
  rw [hp, findCrlf_cons hmarker]
  cases hline : findCrlf p with
  | none => exact .unended hp hline
  | some i =>
    obtain ⟨line, rest, rfl, hcr, rfl⟩ := findCrlf_eq_some_iff.mp hline
    refine (headerNumber_ensures env log hp).bind ?_
    rintro n new ⟨rfl, stale, hn⟩
    rw [List.append_assoc, List.cons_append, List.cons_append] at hn
    by_cases hrange : least ≤ n ∧ n ≤ greatest
    · lift n to ℕ using hleast.trans hrange.1
      rw [Traced.Ensures, haccept _ n _ hrange.1 hrange.2]
      exact .accepted hp hcr hn.symm hrange.1 hrange.2
    · rw [Traced.Ensures, hrefuse _ n _ hrange]
      exact .refused hp hcr (hn ▸ hrange)

theorem head_of_pending {c : UInt8} {p : List UInt8} (h : ctx.pending = c :: p) :
    ctx.buffer.headD 0 = c ∧ 0 < ctx.bufferUsed := by
  have hbuffer := ctx.buffer_eq
  rw [h] at hbuffer
  refine ⟨by rw [hbuffer]; rfl, Nat.pos_of_ne_zero fun h0 => ?_⟩
  rw [ClientContext.pending, h0, List.take_zero] at h
  exact List.cons_ne_nil c p h.symm

private theorem arrayHeader_ensures (h : ctx.Fits) :
    (arrayHeader env ctx).Ensures log (HeaderRead ctx 42 1 MAX_ARGS fun n => { ctx with
      argsTotal := n
      argsParsed := 0
      state := .expectLength }) := by
  cases hp : ctx.pending with
  | nil =>
    have hused : ctx.bufferUsed < 1 := by simp [← h.length_pending, hp]
    rw [arrayHeader, if_pos hused]
    exact .starved hp
  | cons c p =>
    obtain ⟨hhead, hused⟩ := head_of_pending hp
    rw [arrayHeader, if_neg (by omega), hhead]
    refine Traced.ensures_ite (fun hc => .unmarked hp hc) fun hc => ?_
    obtain rfl : c = 42 := not_not.mp hc
    refine headerLine_ensures env log zero_le_one hp (by decide) (fun crlf n log hn => ?_)
      fun crlf n log hpos hmax => ?_
    · rw [if_pos (by omega)]
      rfl
    · rw [if_neg (by omega), longToSizet_of_nonneg (by omega)]
      rfl

/-- **The outcomes in front of an array header.** -/
theorem expectType_spec (h : ctx.Fits) :
    (expectType env ctx).Ensures log fun r new =>
      ∃ new', HeaderRead ctx.trimmed 42 1 MAX_ARGS (fun n => { ctx.trimmed with
        argsTotal := n
        argsParsed := 0
        state := .expectLength }) r new' ∧
      new = new' ++ if 0 < leadingWhitespace ctx then
        [.consumed (ctx.buffer.take (leadingWhitespace ctx))] else [] := by
  have hread (log : List ServerEvent) :=
    arrayHeader_ensures env log (h.shift (leadingWhitespace_le h))
  refine Traced.ensures_ite (fun hpos => ?_) fun hzero => ?_
  · have hdiscard : (ctx.discard (leadingWhitespace ctx)).Ensures log fun ctx' new =>
        ctx' = ctx.trimmed ∧ new = [.consumed (ctx.buffer.take (leadingWhitespace ctx))] :=
      ⟨rfl, rfl⟩
    refine hdiscard.bind ?_
    rintro _ new ⟨rfl, rfl⟩
    rw [if_pos hpos]
    exact (hread _).mono fun r new' hr => ⟨new', hr, rfl⟩
  · have htrimmed : ctx.trimmed = ctx := by
      rw [ClientContext.trimmed, Nat.eq_zero_of_not_pos hzero, ctx.shift_zero]
    have hself := hread log
    rw [← ClientContext.trimmed, htrimmed] at hself
    rw [if_neg hzero, htrimmed]
    refine Traced.Ensures.bind (Q := fun ctx' new => ctx' = ctx ∧ new = []) ⟨rfl, rfl⟩ ?_
    rintro _ new ⟨rfl, rfl⟩
    exact hself.mono fun r new' hr => ⟨new', hr, rfl⟩

/-- **The outcomes in front of a bulk header.** -/
theorem expectLength_spec (h : ctx.Fits) :
    (expectLength env ctx).Ensures log (HeaderRead ctx 36 0 MAX_BULK_LENGTH fun n => { ctx with
      dataToRead := n
      state := .expectData }) := by
  cases hp : ctx.pending with
  | nil =>
    have hused : ctx.bufferUsed = 0 := by simp [← h.length_pending, hp]
    rw [expectLength, if_neg (by omega), if_pos (by omega)]
    exact .starved hp
  | cons c p =>
    obtain ⟨hhead, hused⟩ := head_of_pending hp
    rw [expectLength, hhead, if_neg (c := ctx.bufferUsed < 1) (by omega)]
    refine Traced.ensures_ite (fun hc => .unmarked hp hc.2) fun hc => ?_
    obtain rfl : c = 36 := not_not.mp fun hne => hc ⟨hused, hne⟩
    refine headerLine_ensures env log le_rfl hp (by decide) (fun crlf n log hn => ?_)
      fun crlf n log hpos hmax => ?_
    · rw [if_pos (by omega)]
      rfl
    · rw [if_neg (by omega), longToSizet_of_nonneg (by omega)]
      rfl

end Header

/-! ### Execution -/

/-- The bytes sent for a result; `memory` are the fresh bytes of the block. -/
def replyBytes (memory : ℕ → UInt8) (result : ExecuteResult) : List UInt8 :=
  (((reallocBytes memory (result.body.getD []) (result.bodyLength + 1)).set result.bodyLength
    13).set (result.bodyLength + 1) 10).take (result.bodyLength + 1)

namespace ClientContext

/-- The command that `execute_command` is called with. -/
def command (ctx : ClientContext) : Request := ctx.request (ctx.argsTotal - 1 : ℕ)

/-- The result of the command, with the database after it. -/
def executed (tables : Env (Event DataEntry)) (ctx : ClientContext) :
    ExecuteResult × ServerContext :=
  ctx.serverCtx.execute tables ctx.command

end ClientContext

/-- The outcomes of the execution of a command: the count of its arguments is no `int`, it is
executed and answered, or it is executed and cannot be answered. -/
inductive Dispatched (tables : Env (Event DataEntry)) (env : ServerEnv) (ctx : ClientContext) :
    ForInStep ClientContext → List ServerEvent → Prop where
  | overflow (h : (sizetToInt (ctx.argsTotal - 1)).2 = true) :
    Dispatched tables env ctx (.done ctx.abandoned) [.close]
  | answered {memory : ℕ → UInt8}
    (hfits : (sizetToUint ((ctx.executed tables).1.bodyLength + 1)).2 = false) :
    Dispatched tables env ctx (.yield { ctx with serverCtx := (ctx.executed tables).2 })
      [.write (replyBytes memory (ctx.executed tables).1),
       .malloc env.writeReqSize true,
       .replyStore ((ctx.executed tables).1.bodyLength + 1)
        ((ctx.executed tables).1.bodyLength + 1),
       .replyStore (ctx.executed tables).1.bodyLength ((ctx.executed tables).1.bodyLength + 1),
       .malloc ((ctx.executed tables).1.bodyLength + 1) true,
       .execute ctx.command]
  | unanswered {new : List ServerEvent}
    (h : (∃ log size, env.alloc log size = false) ∨
      (sizetToUint ((ctx.executed tables).1.bodyLength + 1)).2 = true)
    (hnew : ∀ e ∈ new, (∃ size granted, e = .malloc size granted) ∨
      ∃ index size, e = .replyStore index size) :
    Dispatched tables env ctx (.done { ctx.abandoned with serverCtx := (ctx.executed tables).2 })
      (.close :: (new ++ [.execute ctx.command]))

section Execution

variable (tables : Env (Event DataEntry)) (env : ServerEnv) (ctx : ClientContext)
  (log : List ServerEvent)

/-- **The outcomes of the execution of a command.** -/
theorem dispatch_spec : (dispatch tables env ctx).Ensures log (Dispatched tables env ctx) := by
  refine Traced.ensures_ite (fun hargc => .overflow hargc) fun hargc => ?_
  · have hcommand := sizetToInt_of_fits (Bool.eq_false_iff.mpr hargc)
    rw [hcommand, Traced.ensures_bind, Traced.ensures_emit, sendReply]
    refine env.ensures_malloc (fun _ => ?_) fun hdenied => ?_
    · rw [if_pos rfl, Traced.ensures_bind, Traced.ensures_ask, Traced.ensures_bind,
        Traced.ensures_emit, Traced.ensures_bind, Traced.ensures_emit]
      refine env.ensures_malloc (fun _ => ?_) fun hdenied => ?_
      · rw [if_pos rfl]
        refine Traced.ensures_ite (fun hlong => ?_) fun hfits => ?_
        · show Dispatched tables env ctx _ (.close :: ([.malloc _ _, .replyStore _ _,
            .replyStore _ _, .malloc _ _] ++ [.execute _]))
          exact .unanswered (.inr hlong) (by simp)
        · rw [sizetToUint_of_fits (Bool.eq_false_iff.mpr hfits)]
          exact .answered (Bool.eq_false_iff.mpr hfits)
      · show Dispatched tables env ctx _ (.close :: ([.malloc _ _, .replyStore _ _,
          .replyStore _ _, .malloc _ _] ++ [.execute _]))
        exact .unanswered (.inl ⟨_, _, hdenied⟩) (by simp)
    · show Dispatched tables env ctx _ (.close :: ([.malloc _ _] ++ [.execute _]))
      exact .unanswered (.inl ⟨_, _, hdenied⟩) (by simp)

end Execution

/-! ### Data -/

/-- The events of the allocation of the arrays. -/
def allocEvents (ctx : ClientContext) : List ServerEvent :=
  if ctx.argsParsed = 0 then
    [.malloc (ctx.argsTotal * 8) true, .malloc (ctx.argsTotal * 8) true]
  else []

theorem eq_malloc_of_mem_allocEvents {ctx : ClientContext} {e : ServerEvent}
    (h : e ∈ allocEvents ctx) : e = .malloc (ctx.argsTotal * 8) true := by
  rw [allocEvents] at h
  split at h <;> simp_all

/-- The events of the storage of an argument. -/
def storeEvents (ctx : ClientContext) : List ServerEvent :=
  [.consumed (ctx.buffer.take (ctx.dataToRead + 2)),
   .lengthsStore ctx.argsParsed ctx.argsTotal ctx.withArguments.tempArgLengths.length,
   .argvStore ctx.argsParsed ctx.argsTotal ctx.withArguments.tempArgv.length,
   .malloc (ctx.dataToRead + 1) true] ++ allocEvents ctx

/-- The outcomes in front of the data of an argument: it is not there in full, the arrays or the
argument cannot be allocated, the argument is stored and is not the last one, or it is the last
one and the command is executed. -/
inductive DataRead (tables : Env (Event DataEntry)) (env : ServerEnv) (ctx : ClientContext) :
    ForInStep ClientContext → List ServerEvent → Prop where
  | starved (h : ctx.bufferUsed < ctx.dataToRead + 2) : DataRead tables env ctx (.done ctx) []
  | unallocated {log : List ServerEvent} {size : ℕ} {a b : Bool}
    (h : ctx.dataToRead + 2 ≤ ctx.bufferUsed) (h0 : ctx.argsParsed = 0)
    (hdenied : env.alloc log size = false) :
    DataRead tables env ctx (.done ctx.abandoned)
      [.close, .malloc (ctx.argsTotal * 8) b, .malloc (ctx.argsTotal * 8) a]
  | unstored {log : List ServerEvent} {size : ℕ} (h : ctx.dataToRead + 2 ≤ ctx.bufferUsed)
    (hdenied : env.alloc log size = false) :
    DataRead tables env ctx (.done ctx.abandoned)
      ([.close, .argvStore ctx.argsParsed ctx.argsTotal ctx.withArguments.tempArgv.length,
        .malloc (ctx.dataToRead + 1) false] ++ allocEvents ctx)
  | stored (h : ctx.dataToRead + 2 ≤ ctx.bufferUsed) (hne : ctx.argsParsed + 1 ≠ ctx.argsTotal) :
    DataRead tables env ctx (.yield { ctx.withArguments.stored with state := .expectLength })
      (storeEvents ctx)
  | completed {r : ForInStep ClientContext} {new : List ServerEvent}
    (h : ctx.dataToRead + 2 ≤ ctx.bufferUsed) (heq : ctx.argsParsed + 1 = ctx.argsTotal)
    (hdispatched : Dispatched tables env ctx.withArguments.stored r new) :
    DataRead tables env ctx r (new ++ storeEvents ctx)

section Data

variable (tables : Env (Event DataEntry)) (env : ServerEnv) (ctx : ClientContext)
  (log : List ServerEvent)

private theorem allocArguments_ensures :
    (allocArguments env ctx).Ensures log fun r new =>
      r = (true, ctx.withArguments) ∧ new = allocEvents ctx ∨
      r.1 = false ∧ r.2.freeParserResources = ctx.freeParserResources ∧ ctx.argsParsed = 0 ∧
        ∃ a b log size, env.alloc log size = false ∧
          new = [.malloc (ctx.argsTotal * 8) b, .malloc (ctx.argsTotal * 8) a] := by
  rw [ClientContext.withArguments, allocEvents]
  by_cases h0 : ctx.argsParsed = 0
  · simp only [allocArguments, if_pos h0]
    refine env.ensures_malloc (fun _ => ?_) fun hdenied => ?_
    · refine env.ensures_malloc (fun _ => .inl ⟨rfl, rfl⟩) fun hdenied => ?_
      exact .inr ⟨rfl, rfl, h0, _, _, _, _, hdenied, rfl⟩
    · refine env.ensures_malloc (fun _ => ?_) fun _ => ?_
      · exact .inr ⟨rfl, rfl, h0, _, _, _, _, hdenied, rfl⟩
      · exact .inr ⟨rfl, rfl, h0, _, _, _, _, hdenied, rfl⟩
  · simp only [allocArguments, if_neg h0]
    exact .inl ⟨rfl, rfl⟩

private theorem storeArgument_ensures :
    (storeArgument env ctx).Ensures log fun r new =>
      r = (true, ctx.stored) ∧
        new = [.consumed (ctx.buffer.take (ctx.dataToRead + 2)),
          .lengthsStore ctx.argsParsed ctx.argsTotal ctx.tempArgLengths.length,
          .argvStore ctx.argsParsed ctx.argsTotal ctx.tempArgv.length,
          .malloc (ctx.dataToRead + 1) true] ∨
      r.1 = false ∧ r.2.freeParserResources = ctx.freeParserResources ∧
        (∃ log size, env.alloc log size = false) ∧
        new = [.argvStore ctx.argsParsed ctx.argsTotal ctx.tempArgv.length,
          .malloc (ctx.dataToRead + 1) false] := by
  refine env.ensures_malloc (fun _ => ?_) fun hdenied => ?_
  · exact .inl ⟨rfl, rfl⟩
  · exact .inr ⟨rfl, rfl, ⟨_, _, hdenied⟩, rfl⟩

/-- **The outcomes in front of the data of an argument.** -/
theorem expectData_spec : (expectData tables env ctx).Ensures log (DataRead tables env ctx) := by
  refine Traced.ensures_ite (fun h => .starved h) fun h => ?_
  have hused : ctx.dataToRead + 2 ≤ ctx.bufferUsed := Nat.not_lt.mp h
  refine (allocArguments_ensures env ctx log).bind ?_
  rintro ⟨allocated, ctx₁⟩ new (⟨hr, rfl⟩ | ⟨hfalse, hfree, h0, a, b, log', size, hdenied, rfl⟩)
  · obtain ⟨rfl, rfl⟩ := Prod.mk.inj hr
    rw [if_pos rfl]
    refine (storeArgument_ensures env _ _).bind ?_
    rintro ⟨stored, ctx₂⟩ new (⟨hr, rfl⟩ | ⟨hfalse, hfree, ⟨log', size, hdenied⟩, rfl⟩)
    · obtain ⟨rfl, rfl⟩ := Prod.mk.inj hr
      rw [if_pos rfl]
      refine Traced.ensures_ite (fun heq => ?_) fun hne => .stored hused hne
      exact (dispatch_spec tables env _ _).mono fun r new hr => by
        simpa only [storeEvents, List.append_assoc] using .completed hused heq hr
    · obtain rfl : stored = false := hfalse
      have habandoned : ({ ctx₂.freeParserResources with closing := true } : ClientContext) =
          ctx.abandoned := by
        rw [ClientContext.abandoned, show ctx₂.freeParserResources = _ from hfree]
        rfl
      show DataRead tables env ctx (.done { ctx₂.freeParserResources with closing := true }) _
      rw [habandoned]
      exact .unstored hused hdenied
  · obtain rfl : allocated = false := hfalse
    show DataRead tables env ctx (.done { ctx₁.freeParserResources with closing := true }) _
    rw [show ctx₁.freeParserResources = ctx.freeParserResources from hfree]
    exact .unallocated hused h0 hdenied

end Data

/-! ### The loop -/

section Loop

variable (tables : Env (Event DataEntry)) (env : ServerEnv) {ctx : ClientContext}
  (log : List ServerEvent)

/-- The outcomes of an iteration in each state of the parser. -/
theorem parseStep_cases {Q : ForInStep ClientContext → List ServerEvent → Prop}
    (htype : ctx.state = .expectType → (expectType env ctx).Ensures log Q)
    (hlength : ctx.state = .expectLength → (expectLength env ctx).Ensures log Q)
    (hdata : ctx.state = .expectData → (expectData tables env ctx).Ensures log Q) :
    (parseStep tables env ctx).Ensures log Q := by
  rw [parseStep]
  cases hstate : ctx.state with
  | expectType => exact htype hstate
  | expectLength => exact hlength hstate
  | expectData => exact hdata hstate

/-- An iteration in front of a bulk header. -/
theorem parseStep_expectLength (h : ctx.Fits) (hstate : ctx.state = .expectLength) :
    (parseStep tables env ctx).Ensures log (HeaderRead ctx 36 0 MAX_BULK_LENGTH fun n =>
      { ctx with dataToRead := n, state := .expectData }) := by
  rw [parseStep, hstate]
  exact expectLength_spec env log h

/-- An iteration in front of an array header, with no white space before it. -/
theorem parseStep_expectType (h : ctx.Fits) (hstate : ctx.state = .expectType)
    (hlead : leadingWhitespace ctx = 0) :
    (parseStep tables env ctx).Ensures log (HeaderRead ctx 42 1 MAX_ARGS fun n =>
      { ctx with argsTotal := n, argsParsed := 0, state := .expectLength }) := by
  have htrimmed : ctx.trimmed = ctx := by rw [ClientContext.trimmed, hlead, ctx.shift_zero]
  rw [parseStep, hstate]
  refine (expectType_spec env log h).mono ?_
  rintro r _ ⟨new, hread, rfl⟩
  rw [htrimmed] at hread
  rwa [hlead, if_neg (lt_irrefl 0), List.append_nil]

theorem HeaderRead.progress {marker : UInt8} {least greatest : ℤ} {next : ℕ → ClientContext}
    {r : ForInStep ClientContext} {new : List ServerEvent}
    (h : HeaderRead ctx marker least greatest next r new) (hfits : ctx.Fits)
    (hbuffer : ∀ n, (next n).buffer = ctx.buffer)
    (hused : ∀ n, (next n).bufferUsed = ctx.bufferUsed) :
    r.value.Fits ∧ ∀ ctx', r = .yield ctx' → ctx'.bufferUsed + 2 ≤ ctx.bufferUsed := by
  cases h with
  | starved | unended | unmarked | refused => exact ⟨hfits, fun ctx' hr => nomatch hr⟩
  | @accepted line rest stale n hpending =>
    have hlen := hfits.header_le hpending
    have hnext : (next n).Fits := hfits.of_buffer (hbuffer n) (hused n)
    refine ⟨hnext.shift (by rw [hused]; omega), ?_⟩
    rintro _ ⟨⟩
    rw [ClientContext.shift_bufferUsed, hused]
    omega

theorem Dispatched.progress {tables : Env (Event DataEntry)} {env : ServerEnv}
    {r : ForInStep ClientContext} {new : List ServerEvent}
    (h : Dispatched tables env ctx r new) (hfits : ctx.Fits) :
    r.value.Fits ∧ ∀ ctx', r = .yield ctx' → ctx'.bufferUsed = ctx.bufferUsed := by
  cases h with
  | overflow | unanswered => exact ⟨hfits, fun ctx' hr => nomatch hr⟩
  | answered => exact ⟨hfits, by rintro _ ⟨⟩; rfl⟩

theorem DataRead.progress {tables : Env (Event DataEntry)} {env : ServerEnv}
    {r : ForInStep ClientContext} {new : List ServerEvent}
    (h : DataRead tables env ctx r new) (hfits : ctx.Fits) :
    r.value.Fits ∧ ∀ ctx', r = .yield ctx' → ctx'.bufferUsed + 2 ≤ ctx.bufferUsed := by
  have hstored (h : ctx.dataToRead + 2 ≤ ctx.bufferUsed) : ctx.withArguments.stored.Fits ∧
      ctx.withArguments.stored.bufferUsed + 2 ≤ ctx.bufferUsed := by
    refine ⟨ClientContext.Fits.shift (n := ctx.dataToRead + 2) hfits h, ?_⟩
    show ctx.bufferUsed - (ctx.dataToRead + 2) + 2 ≤ ctx.bufferUsed
    omega
  cases h with
  | starved | unallocated | unstored => exact ⟨hfits, fun ctx' hr => nomatch hr⟩
  | stored h => exact ⟨(hstored h).1, by rintro _ ⟨⟩; exact (hstored h).2⟩
  | completed h _ hdispatched =>
    obtain ⟨hfits', hused⟩ := hdispatched.progress (hstored h).1
    exact ⟨hfits', fun ctx' hr => (hused ctx' hr).symm ▸ (hstored h).2⟩

/-- **An iteration that goes on consumes at least two bytes**, and every iteration keeps the bytes
in use within the buffer. -/
theorem parseStep_progress (h : ctx.Fits) :
    (parseStep tables env ctx).Ensures log fun r _ =>
      r.value.Fits ∧ ∀ ctx', r = .yield ctx' → ctx'.bufferUsed + 2 ≤ ctx.bufferUsed := by
  refine parseStep_cases tables env log (fun _ => ?_) (fun _ => ?_) fun _ => ?_
  · refine (expectType_spec env log h).mono ?_
    rintro r _ ⟨new, hread, rfl⟩
    obtain ⟨hfits, hused⟩ := hread.progress (h.shift (leadingWhitespace_le h)) (fun _ => rfl)
      fun _ => rfl
    exact ⟨hfits, fun ctx' hr => (hused ctx' hr).trans (Nat.sub_le _ _)⟩
  · exact (expectLength_spec env log h).mono fun r new hread =>
      hread.progress h (fun _ => rfl) fun _ => rfl
  · exact (expectData_spec tables env ctx log).mono fun r new hread => hread.progress h

/-- The stream is passed to `uv_close` at most once, last and on the way out of the loop. -/
def ClosesOnce (ctx : ClientContext) (r : ForInStep ClientContext) (new : List ServerEvent) :
    Prop :=
  (r.value.closing = ctx.closing ∧ .close ∉ new) ∨
    ∃ ctx' rest, r = .done ctx' ∧ ctx'.closing = true ∧ new = .close :: rest ∧ .close ∉ rest

theorem ClosesOnce.append {r : ForInStep ClientContext} {new old : List ServerEvent}
    (h : ClosesOnce ctx r new) (hold : .close ∉ old) : ClosesOnce ctx r (new ++ old) := by
  obtain ⟨hclosing, hnew⟩ | ⟨ctx', rest, hr, hclosing, rfl, hrest⟩ := h
  · exact .inl ⟨hclosing, by simp [hnew, hold]⟩
  · exact .inr ⟨ctx', rest ++ old, hr, hclosing, rfl, by simp [hrest, hold]⟩

theorem ClosesOnce.closing {r : ForInStep ClientContext} {new : List ServerEvent}
    (h : ClosesOnce ctx r new) (hclosing : ctx.closing = true) : r.value.closing = true := by
  obtain ⟨hkeep, -⟩ | ⟨ctx', rest, rfl, hclosed, -⟩ := h
  · exact hkeep.trans hclosing
  · exact hclosed

theorem HeaderRead.closesOnce {marker : UInt8} {least greatest : ℤ} {next : ℕ → ClientContext}
    {r : ForInStep ClientContext} {new : List ServerEvent}
    (h : HeaderRead ctx marker least greatest next r new)
    (hnext : ∀ n, (next n).closing = ctx.closing) : ClosesOnce ctx r new := by
  cases h with
  | starved | unended => exact .inl ⟨rfl, by simp⟩
  | unmarked | refused => exact .inr ⟨_, [], rfl, rfl, rfl, by simp⟩
  | accepted => exact .inl ⟨hnext _, by simp⟩

theorem Dispatched.closesOnce {tables : Env (Event DataEntry)} {env : ServerEnv}
    {r : ForInStep ClientContext} {new : List ServerEvent}
    (h : Dispatched tables env ctx r new) : ClosesOnce ctx r new := by
  cases h with
  | overflow => exact .inr ⟨_, [], rfl, rfl, rfl, by simp⟩
  | answered => exact .inl ⟨rfl, by simp⟩
  | @unanswered new _ hnew =>
    refine .inr ⟨_, _, rfl, rfl, rfl, fun hclose => ?_⟩
    rcases List.mem_append.mp hclose with hclose | hclose
    · obtain ⟨_, _, he⟩ | ⟨_, _, he⟩ := hnew _ hclose
      · exact nomatch he
      · exact nomatch he
    · simp at hclose

theorem close_notMem_allocEvents : .close ∉ allocEvents ctx := fun h =>
  ServerEvent.noConfusion (eq_malloc_of_mem_allocEvents h)

theorem close_notMem_storeEvents : .close ∉ storeEvents ctx := by
  simp [storeEvents, close_notMem_allocEvents]

theorem DataRead.closesOnce {tables : Env (Event DataEntry)} {env : ServerEnv}
    {r : ForInStep ClientContext} {new : List ServerEvent}
    (h : DataRead tables env ctx r new) : ClosesOnce ctx r new := by
  cases h with
  | starved => exact .inl ⟨rfl, by simp⟩
  | unallocated => exact .inr ⟨_, _, rfl, rfl, rfl, by simp⟩
  | unstored => exact .inr ⟨_, _, rfl, rfl, rfl, by simp [close_notMem_allocEvents]⟩
  | stored => exact .inl ⟨rfl, close_notMem_storeEvents⟩
  | completed _ _ hdispatched => exact hdispatched.closesOnce.append close_notMem_storeEvents

/-- **An iteration closes the connection at most once**, on the way out of the loop. -/
theorem parseStep_closesOnce (h : ctx.Fits) :
    (parseStep tables env ctx).Ensures log (ClosesOnce ctx) := by
  refine parseStep_cases tables env log (fun _ => ?_) (fun _ => ?_) fun _ => ?_
  · refine (expectType_spec env log h).mono ?_
    rintro r _ ⟨new, hread, rfl⟩
    refine (hread.closesOnce fun _ => rfl).append ?_
    split <;> simp
  · exact (expectLength_spec env log h).mono fun r new hread => hread.closesOnce fun _ => rfl
  · exact (expectData_spec tables env ctx log).mono fun r new hread => hread.closesOnce

/-- An iteration that goes on leaves fewer bytes in use, and these fit the buffer. -/
theorem parseStep_decreases (s : ClientContext) (t : List ServerEvent) (s' : ClientContext)
    (hs : s.Fits) (hstep : ((parseStep tables env s).run t).1 = .yield s') :
    s'.Fits ∧ s'.bufferUsed < s.bufferUsed := by
  obtain ⟨hfits, hused⟩ := parseStep_progress tables env t hs
  rw [hstep] at hfits
  exact ⟨hfits, (Nat.le_add_right _ 1).trans (hused s' hstep)⟩

/-- An iteration of `parse_buffer` that goes on. -/
theorem run_parseBuffer_yield {ctx' : ClientContext} (h : ctx.Fits)
    (hstep : ((parseStep tables env ctx).run log).1 = .yield ctx') :
    (parseBuffer tables env ctx).run log =
      (((parseBuffer tables env ctx').run (((parseStep tables env ctx).run log).2 ++ log)).1,
        ((parseBuffer tables env ctx').run (((parseStep tables env ctx).run log).2 ++ log)).2 ++
          ((parseStep tables env ctx).run log).2) := by
  obtain ⟨hfits, hlt⟩ := parseStep_decreases tables env ctx log ctx' h hstep
  rw [parseBuffer, Traced.run_loop_yield hstep, parseBuffer,
    Traced.run_loop_fuel ClientContext.bufferUsed ClientContext.Fits
      (parseStep_decreases tables env) hfits hlt (Nat.lt_succ_self _)]

/-- The last iteration of `parse_buffer`. -/
theorem run_parseBuffer_done {ctx' : ClientContext}
    (hstep : ((parseStep tables env ctx).run log).1 = .done ctx') :
    (parseBuffer tables env ctx).run log = (ctx', ((parseStep tables env ctx).run log).2) :=
  Traced.run_loop_done hstep _

/-- **The loop of `parse_buffer`.** What the iterations that go on preserve holds where the last one
begins, and what that one leaves holds at the end. -/
theorem parseBuffer_ensures (Inv Final : ClientContext → List ServerEvent → Prop)
    (hfits : ∀ s t, Inv s t → s.Fits)
    (hyield : ∀ s t s', Inv s t → ((parseStep tables env s).run t).1 = .yield s' →
      Inv s' (((parseStep tables env s).run t).2 ++ t))
    (hdone : ∀ s t s', Inv s t → ((parseStep tables env s).run t).1 = .done s' →
      Final s' (((parseStep tables env s).run t).2 ++ t)) (h : Inv ctx log) :
    (parseBuffer tables env ctx).Ensures log fun ctx' new => Final ctx' (new ++ log) := by
  induction hused : ctx.bufferUsed using Nat.strongRecOn generalizing ctx log with
  | ind n ih =>
    have hprogress := (parseStep_progress tables env log (hfits ctx log h)).2
    cases hstep : ((parseStep tables env ctx).run log).1 with
    | done ctx' =>
      rw [Traced.Ensures, run_parseBuffer_done tables env log hstep]
      exact hdone ctx log ctx' h hstep
    | yield ctx' =>
      have hlt := hprogress ctx' hstep
      have hrest := ih ctx'.bufferUsed (by omega) _ (hyield ctx log ctx' h hstep) rfl
      rw [Traced.Ensures, run_parseBuffer_yield tables env log (hfits ctx log h) hstep]
      simpa only [Traced.Ensures, List.append_assoc] using hrest

/-- The loop leaves a connection closed. -/
theorem parseBuffer_closing (h : ctx.Fits) (hclosing : ctx.closing = true) :
    (parseBuffer tables env ctx).Ensures log fun ctx' _ => ctx'.closing = true := by
  have hstep (s : ClientContext) (t : List ServerEvent) (hs : s.Fits ∧ s.closing = true) :
      ((parseStep tables env s).run t).1.value.Fits ∧
        ((parseStep tables env s).run t).1.value.closing = true := by
    refine ⟨(parseStep_progress tables env t hs.1).1, ?_⟩
    exact (parseStep_closesOnce tables env t hs.1).closing hs.2
  refine parseBuffer_ensures tables env log (fun s _ => s.Fits ∧ s.closing = true)
    (fun s _ => s.closing = true) (fun s t hs => hs.1) (fun s t s' hs hyield => ?_)
    (fun s t s' hs hdone => ?_) ⟨h, hclosing⟩
  · have hnext := hstep s t hs
    rwa [hyield] at hnext
  · have hlast := (hstep s t hs).2
    rwa [hdone] at hlast

end Loop

/-! ### Reads -/

section Reads

variable (tables : Env (Event DataEntry)) (env : ServerEnv) {ctx : ClientContext}
  {data : List UInt8}

theorem receive_closing (h : ctx.closing = true) : receive tables env ctx data = pure ctx :=
  if_pos h

theorem receive_nil : receive tables env ctx [] = pure ctx := by
  rw [receive]
  split
  · rfl
  · rfl

/-- Bytes that arrive are appended to the buffer, and the buffer is parsed. -/
theorem receive_eq (h : ctx.closing = false) (hdata : data ≠ []) :
    receive tables env ctx data = (do
      Traced.emit .timerStart
      let ctx ← appendToBuffer env ctx data
      parseBuffer tables env ctx) := by
  have hpos : (0 : ℤ) < data.length := by exact_mod_cast List.length_pos_iff.mpr hdata
  have hsize : ssizetToSizet data.length = (data.length, false) := by
    rw [ssizetToSizet, if_neg (by omega), Int.toNat_natCast]
  simp only [receive, h, Bool.false_eq_true, if_false, onRead, hpos, if_true, hsize,
    List.take_length]

/-- The outcomes of a read: the connection is closed or there is nothing to read, or the bytes are
appended and the buffer is parsed. -/
theorem receive_cases (log : List ServerEvent) {Q : ClientContext → List ServerEvent → Prop}
    (hclosing : ctx.closing = true → Q ctx []) (hnil : data = [] → Q ctx [])
    (hread : ctx.closing = false → data ≠ [] →
      (appendToBuffer env ctx data).Ensures ([.timerStart] ++ log) fun ctx₁ new =>
        (parseBuffer tables env ctx₁).Ensures (new ++ ([.timerStart] ++ log)) fun ctx' new' =>
          Q ctx' (new' ++ new ++ [.timerStart])) :
    (receive tables env ctx data).Ensures log Q := by
  by_cases hclosed : ctx.closing = true
  · rw [receive_closing tables env hclosed]
    exact hclosing hclosed
  have hopen : ctx.closing = false := Bool.eq_false_iff.mpr hclosed
  by_cases hdata : data = []
  · rw [hdata, receive_nil]
    exact hnil hdata
  rw [receive_eq tables env hopen hdata, Traced.ensures_bind, Traced.ensures_emit,
    Traced.ensures_bind]
  exact hread hopen hdata

end Reads

end SimpleCDatabase
