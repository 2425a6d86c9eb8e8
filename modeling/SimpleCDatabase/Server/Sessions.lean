import SimpleCDatabase.Server.Encoding

/-!
# Streams of several commands

What a connection makes of a stream does not depend on the reads in which it arrives, as long as
no header line of the stream is blank and no argument is stored past the arrays. It executes one
command at most. After a command the parser is not reset, so the connection goes on as a new one
would only when what follows is too short for another argument and begins a command without
completing it.

## Main definitions

* `ReachesBlankHeader`: the reader meets a blank header line in a stream.
* `StoresPast`: the reader stores an argument past the arrays in a stream.
* `CutsInvisible`: two connections with the same stream show the same, and store nothing past the
  arrays.
* `Unfinished`: the streams that begin a command and neither complete it nor break the format.
* `ResetLaw`: after a command a connection goes on as a new one.

## Main results

* `cuts_invisible`: the reads are invisible when no blank header line is reached and no argument is
  stored past the arrays.
* `headerNumber_determined_iff`: a header line determines its number if and only if it is not
  blank.
* `connection_executes_once`: a connection executes one command at most.
* `session_reset`: when a connection goes on as a new one after a command.
-/

namespace SimpleCDatabase

open CString

/-! ### The cuts of a stream -/

/-- The reader meets a blank header line in a stream. -/
def ReachesBlankHeader (tables : Env (Event DataEntry)) (server : ServerContext)
    (stream : List UInt8) : Prop :=
  .blankHeader ∈ ((reader tables).drain (.header, server) stream).1

/-- The reader stores an argument past the arrays in a stream. -/
def StoresPast (tables : Env (Event DataEntry)) (server : ServerContext)
    (stream : List UInt8) : Prop :=
  .stray ∈ ((reader tables).drain (.header, server) stream).1

/-- Two connections that are sent the same stream show the same commands and closing, whatever the
reads and the contents of the memory; and they store no argument past the arrays, where it would
overwrite memory of which a connection knows nothing. -/
def CutsInvisible (tables : Env (Event DataEntry)) (server : ServerContext)
    (stream : List UInt8) : Prop :=
  ∀ env env' : ServerEnv, env.Grants → env'.Grants → ∀ reads reads' : List (List UInt8),
    reads.flatten = stream → reads'.flatten = stream →
    let out := observe ((connection tables env server reads).run []).2
    out = observe ((connection tables env' server reads').run []).2 ∧ .stray ∉ out

/-- The number of a header depends on the bytes of its line only: not on what follows the line,
nor on the stale bytes of the buffer and the memory after it. -/
def NumberDetermined (marker : UInt8) (line : List UInt8) : Prop :=
  ∀ (env env' : ServerEnv) (ctx ctx' : ClientContext) (log log' : List ServerEvent)
    (rest rest' : List UInt8), ctx.pending = marker :: (line ++ 13 :: 10 :: rest) →
    ctx'.pending = marker :: (line ++ 13 :: 10 :: rest') →
    ((headerNumber env ctx).run log).1 = ((headerNumber env' ctx').run log').1

/-- A connection with the given bytes at hand. -/
private def holding (p : List UInt8) : ClientContext :=
  { ClientContext.fresh ⟨Hashtable.fresh 1, []⟩ with buffer := p, bufferUsed := p.length }

private theorem headerNumber_holding (marker : UInt8) {line : List UInt8} (hb : Blank line)
    (rest : List UInt8) :
    ((headerNumber .granting (holding (marker :: (line ++ rest)))).run []).1 = strtol rest := by
  show strtol (line ++ rest ++ []) = strtol rest
  rw [List.append_nil, strtol_blank_append hb]

/-- **A header line determines its number if and only if it is not blank.** After a blank line the
number of the next line is read. -/
theorem headerNumber_determined_iff (marker : UInt8) (line : List UInt8) :
    NumberDetermined marker line ↔ ¬Blank line := by
  constructor
  · intro h hb
    have heq := h .granting .granting (holding (marker :: (line ++ [13, 10, 49])))
      (holding (marker :: (line ++ [13, 10, 50]))) [] [] [49] [50] (List.take_length)
      (List.take_length)
    rw [headerNumber_holding marker hb, headerNumber_holding marker hb] at heq
    exact absurd heq (by decide)
  · intro hb env env' ctx ctx' log log' rest rest' hpending hpending'
    obtain ⟨-, stale, hn⟩ := headerNumber_ensures env log hpending
    obtain ⟨-, stale', hn'⟩ := headerNumber_ensures env' log' hpending'
    rw [List.append_assoc, List.cons_append, strtol_header hb] at hn hn'
    exact hn.trans hn'.symm

/-- A connection shows what the reader makes of its stream. -/
theorem observe_connection {tables : Env (Event DataEntry)} {env : ServerEnv}
    (hgrants : env.Grants) {server : ServerContext} {stream : List UInt8}
    (hblank : ¬ReachesBlankHeader tables server stream) {reads : List (List UInt8)}
    (hreads : reads.flatten = stream) :
    observe ((connection tables env server reads).run []).2 =
      ((reader tables).drain (.header, server) stream).1 := by
  subst hreads
  exact (connection_refines hgrants server reads hblank).2

/-- **The reads are invisible** in a stream without a blank header line exactly when the reader
stores no argument past the arrays; and a header line determines its number exactly when it is not
blank. -/
theorem cuts_invisible (tables : Env (Event DataEntry)) (server : ServerContext)
    (stream : List UInt8) :
    (¬ReachesBlankHeader tables server stream →
      (CutsInvisible tables server stream ↔ ¬StoresPast tables server stream)) ∧
      ∀ (marker : UInt8) (line : List UInt8), NumberDetermined marker line ↔ ¬Blank line := by
  refine ⟨fun hblank => ⟨fun hcuts => ?_, fun hinside => ?_⟩, headerNumber_determined_iff⟩
  · have hgrants := ServerEnv.granting_grants
    have hstream : [stream].flatten = stream := List.flatten_singleton
    have hstray := (hcuts .granting .granting hgrants hgrants [stream] [stream] hstream hstream).2
    rwa [observe_connection hgrants hblank hstream] at hstray
  · intro env env' hgrants hgrants' reads reads' hreads hreads'
    rw [observe_connection hgrants hblank hreads, observe_connection hgrants' hblank hreads']
    exact ⟨rfl, hinside⟩

private theorem noJunk : ∀ c ∈ ([] : List UInt8), c = 13 ∨ c = 10 := by simp

/-- A command on its own is all that the reader sees. -/
theorem drain_formatRespCommand {tables : Env (Event DataEntry)} {server : ServerContext}
    {args : List (List UInt8)} (h : Encodable args) (ha : server.Answers tables (toRequest args)) :
    ((reader tables).drain (.header, server) (formatRespCommand args)).1 =
      [.command (toRequest args)] := by
  obtain ⟨init, last, rfl⟩ : ∃ init last, args = init ++ [last] :=
    ⟨args.dropLast, args.getLast h.ne_nil, (List.dropLast_append_getLast h.ne_nil).symm⟩
  have hdrain := drain_command noJunk h ha []
  rw [List.nil_append, List.append_nil,
    Tokenizer.drain_wait (reader_verdict_short (Nat.zero_lt_succ _))] at hdrain
  rw [hdrain]
  rfl

/-- A command is read in the same way wherever it is cut. -/
theorem cuts_invisible_command :
    CutsInvisible Env.granting ⟨Hashtable.fresh 1, []⟩
      (formatRespCommand [bytes "GET", bytes "A"]) := by
  have hdrain : ((reader Env.granting).drain (.header, ⟨.fresh 1, []⟩)
      (formatRespCommand [bytes "GET", bytes "A"])).1 =
        [.command (toRequest [bytes "GET", bytes "A"])] :=
    drain_formatRespCommand (by decide) (by decide +kernel)
  refine ((cuts_invisible Env.granting _ _).1 ?_).mpr ?_
  · rw [ReachesBlankHeader, hdrain]
    simp
  · rw [StoresPast, hdrain]
    simp

/-- After a blank header line the number is read from the next line if it has arrived, else from
stale bytes: the same bytes in one read and in two execute different commands. -/
theorem cuts_visible_after_blank_header :
    ¬∀ (tables : Env (Event DataEntry)) (env : ServerEnv) (server : ServerContext)
      (reads reads' : List (List UInt8)), env.Grants → [] ∉ reads → [] ∉ reads' →
      reads.flatten = reads'.flatten →
      let r := (connection tables env server reads).run []
      let r' := (connection tables env server reads').run []
      executed r.2 = executed r'.2 ∧ r.1.closing = r'.1.closing := by
  intro h
  have heq := h Env.granting .granting ⟨Hashtable.fresh 1, []⟩ [bytes "*1\r\n$\r\n3\r\nxx"]
    [bytes "*1\r\n$\r\n", bytes "3\r\nxx"] ServerEnv.granting_grants (by decide) (by decide)
    (by decide)
  exact absurd heq.1 (by decide +kernel)

/-! ### One command for each connection -/

/-- Every argument of a command has been stored, and no header of another command is expected. -/
def ClientContext.Exhausted (ctx : ClientContext) : Prop :=
  ctx.state ≠ .expectType ∧ ctx.argsTotal ≤ ctx.argsParsed

section Once

variable (tables : Env (Event DataEntry)) (env : ServerEnv) {ctx : ClientContext}
  (log : List ServerEvent)

/-- An iteration executes nothing and leaves a connection exhausted that was, or it executes one
command and the connection was not exhausted before and is after. -/
def ExecutesOnce (ctx ctx' : ClientContext) (new : List ServerEvent) : Prop :=
  executed new = [] ∧ (ctx.Exhausted → ctx'.Exhausted) ∨
    ¬ctx.Exhausted ∧ (executed new).length = 1 ∧ ctx'.Exhausted

private theorem HeaderRead.executesOnce {ctx₀ : ClientContext} {marker : UInt8}
    {least greatest : ℤ} {next : ℕ → ClientContext} {r : ForInStep ClientContext}
    {new : List ServerEvent} (hread : HeaderRead ctx marker least greatest next r new)
    (hkept : ctx₀.Exhausted → ctx.Exhausted)
    (hnext : ∀ n, ctx₀.Exhausted → (next n).Exhausted) :
    executed new = [] ∧ (ctx₀.Exhausted → r.value.Exhausted) := by
  cases hread with
  | starved | unended => exact ⟨rfl, hkept⟩
  | unmarked | refused => exact ⟨rfl, hkept⟩
  | accepted => exact ⟨rfl, hnext _⟩

private theorem DataRead.executesOnce {r : ForInStep ClientContext} {new : List ServerEvent}
    (hread : DataRead tables env ctx r new) (hdata : ctx.state = .expectData) :
    ExecutesOnce ctx r.value new := by
  cases hread with
  | starved => exact .inl ⟨rfl, id⟩
  | unallocated => exact .inl ⟨rfl, id⟩
  | unstored =>
    refine .inl ⟨?_, id⟩
    simp [executed_allocEvents, ServerEvent.output, Output.request]
  | stored =>
    refine .inl ⟨executed_storeEvents, fun hex => ⟨by simp [ForInStep.value], ?_⟩⟩
    exact hex.2.trans (Nat.le_succ _)
  | completed _ heq hdispatched =>
    have hnot : ¬ctx.Exhausted := fun hex => by
      have := hex.2
      omega
    have hstored : ctx.withArguments.stored.Exhausted :=
      ⟨fun hstate => absurd (hdata.symm.trans hstate) (by decide), heq.ge⟩
    cases hdispatched with
    | overflow =>
      refine .inl ⟨?_, fun hex => absurd hex hnot⟩
      simp [executed_storeEvents, ServerEvent.output, Output.request]
    | answered =>
      refine .inr ⟨hnot, ?_, hstored⟩
      simp [executed_storeEvents, ServerEvent.output, Output.request]
    | unanswered _ hnew =>
      refine .inr ⟨hnot, ?_, hstored⟩
      have hsilent := executed_eq_nil (observe_replies hnew)
      simp [executed_storeEvents, hsilent, ServerEvent.output, Output.request]

/-- An iteration executes one command at most, and none once the connection is exhausted. -/
theorem parseStep_executesOnce (h : ctx.Fits) :
    (parseStep tables env ctx).Ensures log fun r new => ExecutesOnce ctx r.value new := by
  refine parseStep_cases tables env log (fun hstate => ?_) (fun hstate => ?_) fun hstate => ?_
  · refine (expectType_spec env log h).mono ?_
    rintro r _ ⟨new, hread, rfl⟩
    have hnot : ¬ctx.Exhausted := fun hex => hex.1 hstate
    obtain ⟨hnew, -⟩ := hread.executesOnce (fun hex => absurd hex hnot)
      fun n hex => absurd hex hnot
    refine .inl ⟨?_, fun hex => absurd hex hnot⟩
    split <;> simp [hnew, ServerEvent.output]
  · exact (expectLength_spec env log h).mono fun r new hread =>
      .inl (hread.executesOnce id fun n hex => ⟨by simp, hex.2⟩)
  · exact (expectData_spec tables env ctx log).mono fun r new hread =>
      hread.executesOnce tables env hstate

/-- Nothing has been executed, or one command and the connection is exhausted. -/
def Once (ctx : ClientContext) (log : List ServerEvent) : Prop :=
  ctx.Fits ∧ (executed log = [] ∨ (executed log).length = 1 ∧ ctx.Exhausted)

theorem once_quiet {ctx ctx' : ClientContext} {log new : List ServerEvent}
    (h : Once ctx log) (hfits : ctx'.Fits) (hnew : executed new = [])
    (hkept : ctx.Exhausted → ctx'.Exhausted) : Once ctx' (new ++ log) := by
  refine ⟨hfits, ?_⟩
  rw [executed_append, hnew, List.append_nil]
  exact h.2.imp_right fun hone => ⟨hone.1, hkept hone.2⟩

theorem parseStep_once (h : Once ctx log) :
    Once ((parseStep tables env ctx).run log).1.value
      (((parseStep tables env ctx).run log).2 ++ log) := by
  obtain ⟨hfits, -⟩ := parseStep_progress tables env log h.1
  obtain ⟨hnew, hkept⟩ | ⟨hnot, hone, hex⟩ := parseStep_executesOnce tables env log h.1
  · exact once_quiet h hfits hnew hkept
  · refine ⟨hfits, .inr ⟨?_, hex⟩⟩
    obtain hnone | ⟨-, hexhausted⟩ := h.2
    · rw [executed_append, hnone, List.nil_append, hone]
    · exact absurd hexhausted hnot

theorem receive_once {data : List UInt8} (h : Once ctx log) :
    (receive tables env ctx data).Ensures log fun ctx' new => Once ctx' (new ++ log) := by
  refine receive_cases tables env log (fun _ => h) (fun _ => h) fun _ _ => ?_
  refine (appendToBuffer_spec env h.1 data _).mono fun ctx' new happended => ?_
  have hctx' : Once ctx' (new ++ ([.timerStart] ++ log)) := by
    have hlog : Once ctx ([.timerStart] ++ log) := once_quiet h h.1 rfl id
    cases happended with
    | appended hfits _ hnew =>
      exact once_quiet hlog hfits (by obtain rfl | ⟨size, rfl⟩ := hnew <;> rfl) id
    | denied => exact once_quiet hlog h.1 rfl id
  have hloop := Traced.loop_invariant (parseStep tables env) Once
    (fun s t hs => parseStep_once tables env t hs) (ctx'.bufferUsed + 1) ctx' _ hctx'
  simpa only [Traced.Ensures, parseBuffer, List.append_assoc] using hloop

/-- **A connection executes one command at most**, whatever it is sent. -/
theorem connection_executes_once (server : ServerContext) (reads : List (List UInt8)) :
    (executed ((connection tables env server reads).run []).2).length ≤ 1 := by
  have h := Traced.runAll_invariant (receive tables env) Once reads
    (fun data _ ctx log hs => receive_once tables env log hs) (ClientContext.fresh server) []
    ⟨ClientContext.fits_fresh server, .inl rfl⟩
  obtain ⟨-, hnone | ⟨hone, -⟩⟩ := h
  · rw [List.append_nil] at hnone
    rw [connection, hnone]
    exact Nat.zero_le 1
  · rw [List.append_nil] at hone
    exact hone.le

end Once

/-! ### Unfinished streams -/

/-- A header line that is not blank, with its number. -/
structure Announces (line : List UInt8) (n : ℕ) : Prop where
  ended : 13 ∉ line
  filled : ¬Blank line
  number : strtol line = n

/-- Bytes that begin the arguments of a command and neither complete them nor break the format;
`k` arguments are to come after the one that begins here. -/
inductive UnfinishedArguments : ℕ → List UInt8 → Prop where
  | nothing {k : ℕ} : UnfinishedArguments k []
  | header {k : ℕ} {p : List UInt8} (h : findCrlf p = none) : UnfinishedArguments k (36 :: p)
  | data {k n : ℕ} {line p : List UInt8} (hline : Announces line n) (hn : n ≤ MAX_BULK_LENGTH)
    (hp : p.length < n + 2) : UnfinishedArguments k (36 :: (line ++ 13 :: 10 :: p))
  | argument {k : ℕ} {line arg p : List UInt8} {a b : UInt8} (hline : Announces line arg.length)
    (hn : arg.length ≤ MAX_BULK_LENGTH) (h : UnfinishedArguments k p) :
    UnfinishedArguments (k + 1) (36 :: (line ++ 13 :: 10 :: (arg ++ a :: b :: p)))

/-- Bytes that begin a command, after any `\r` and `\n`, and neither complete it nor break the
format. -/
inductive Unfinished : List UInt8 → Prop where
  | nothing : Unfinished []
  | newline {c : UInt8} {p : List UInt8} (hc : c = 13 ∨ c = 10) (h : Unfinished p) :
    Unfinished (c :: p)
  | header {p : List UInt8} (h : findCrlf p = none) : Unfinished (42 :: p)
  | count {k : ℕ} {line p : List UInt8} (hline : Announces line (k + 1)) (hk : k + 1 ≤ MAX_ARGS)
    (h : UnfinishedArguments k p) : Unfinished (42 :: (line ++ 13 :: 10 :: p))

section Unfinished

variable {tables : Env (Event DataEntry)} {server : ServerContext}

theorem drop_line (marker : UInt8) (line p : List UInt8) :
    (marker :: (line ++ 13 :: 10 :: p)).drop (line.length + 3) = p := by
  rw [List.drop_succ_cons, List.drop_append, List.drop_of_length_le (Nat.le_add_right _ 2),
    Nat.add_sub_cancel_left]
  rfl

theorem headerVerdict_announces {marker : UInt8} {least greatest : ℤ}
    {next : ℕ → Mode × ServerContext} {line : List UInt8} {n : ℕ} (hline : Announces line n)
    (hleast : least ≤ n) (hgreatest : n ≤ greatest) (p : List UInt8) :
    headerVerdict marker least greatest next (marker :: (line ++ 13 :: 10 :: p)) =
      .consume (line.length + 3) [] (next n) := by
  rw [headerVerdict_line hline.ended, if_neg hline.filled, hline.number,
    if_pos ⟨hleast, hgreatest⟩, Int.toNat_natCast]

/-- A bulk header is read. -/
theorem drain_bulkHeader {total n : ℕ} {args : List (List UInt8)} {line : List UInt8}
    (hline : Announces line n) (hn : n ≤ MAX_BULK_LENGTH) (p : List UInt8) :
    (reader tables).drain (.bulk total args, server) (36 :: (line ++ 13 :: 10 :: p)) =
      (reader tables).drain (.data total args n, server) p := by
  have hv : (reader tables).verdict (.bulk total args, server) (36 :: (line ++ 13 :: 10 :: p)) =
      .consume (line.length + 3) [] (.data total args n, server) :=
    (readerVerdict_bulk tables server total args _).trans
      (headerVerdict_announces hline (Int.natCast_nonneg n) (by exact_mod_cast hn) p)
  rw [Tokenizer.drain_consume hv, drop_line, Tokenizer.before_nil]

/-- An argument that is not the last one is read. -/
theorem drain_argument {total : ℕ} {args : List (List UInt8)} {arg : List UInt8}
    (hlt : args.length + 1 < total) (a b : UInt8) (p : List UInt8) :
    (reader tables).drain (.data total args arg.length, server) (arg ++ a :: b :: p) =
      (reader tables).drain (.bulk total (args ++ [arg]), server) p := by
  have hlen : arg.length + 2 ≤ (arg ++ a :: b :: p).length := by simp
  have hv : (reader tables).verdict (.data total args arg.length, server) (arg ++ a :: b :: p) =
      .consume (arg.length + 2) [] (.bulk total (args ++ [arg]), server) := by
    refine (readerVerdict_data tables server total args arg.length _).trans ?_
    rw [dataVerdict_more hlen hlt.ne, List.take_left, if_pos (by omega)]
  have hdrop : (arg ++ a :: b :: p).drop (arg.length + 2) = p := by
    rw [List.drop_append, List.drop_of_length_le (Nat.le_add_right _ 2), Nat.add_sub_cancel_left]
    rfl
  rw [Tokenizer.drain_consume hv, hdrop, Tokenizer.before_nil]

private theorem drain_unfinishedArguments {k : ℕ} {p : List UInt8} (h : UnfinishedArguments k p)
    {total : ℕ} (args : List (List UInt8)) (htotal : args.length + k + 1 = total) :
    ((reader tables).drain (.bulk total args, server) p).1 = [] := by
  induction h generalizing args with
  | nothing =>
    have hv : (reader tables).verdict (.bulk total args, server) [] = .wait := rfl
    rw [Tokenizer.drain_wait hv]
  | @header k p h =>
    have hv : (reader tables).verdict (.bulk total args, server) (36 :: p) = .wait :=
      (readerVerdict_bulk tables server total args _).trans (headerVerdict_open h)
    rw [Tokenizer.drain_wait hv]
  | data hline hn hp =>
    rw [drain_bulkHeader hline hn, Tokenizer.drain_wait (reader_verdict_short hp)]
  | @argument k line arg p a b hline hn _ ih =>
    rw [drain_bulkHeader hline hn, drain_argument (by omega)]
    exact ih (args ++ [arg]) (by simp; omega)

private theorem unfinishedArguments_of_drain {k total : ℕ} {args : List (List UInt8)}
    {p : List UInt8} (htotal : args.length + k + 1 = total)
    (h : ((reader tables).drain (.bulk total args, server) p).1 = []) :
    UnfinishedArguments k p := by
  induction hp : p.length using Nat.strongRecOn generalizing k args p with
  | ind m ih =>
    have hseen := reader_bulk_seen tables server total args p
    generalize hv : (reader tables).verdict (.bulk total args, server) p = v at hseen
    cases hseen with
    | starved => exact .nothing
    | unended hopen => exact .header hopen
    | unmarked | blank | refused =>
      rw [Tokenizer.drain_stop hv] at h
      exact absurd h (List.cons_ne_nil _ _)
    | @accepted line rest n hcr hb hn _ hmax =>
      have hline : Announces line n := ⟨hcr, hb, hn⟩
      have hn' : n ≤ MAX_BULK_LENGTH := by exact_mod_cast hmax
      rw [drain_bulkHeader hline hn'] at h
      have hseen' := reader_data_seen tables server total args n rest
      generalize hv' : (reader tables).verdict (.data total args n, server) rest = v' at hseen'
      cases hseen' with
      | starved hshort => exact .data hline hn' hshort
      | answered =>
        rw [Tokenizer.drain_consume hv'] at h
        exact absurd h (List.cons_ne_nil _ _)
      | unanswered =>
        rw [Tokenizer.drain_stop hv'] at h
        exact absurd h (List.cons_ne_nil _ _)
      | @more arg rest a b harg hne =>
        subst harg
        obtain _ | k := k
        · exact absurd htotal hne
        rw [drain_argument (by omega)] at h
        refine .argument hline hn' (ih rest.length ?_ ?_ h rfl)
        · simp only [← hp, List.length_cons, List.length_append]
          omega
        · rw [List.length_append, List.length_singleton]
          omega

/-- An array header is read. -/
theorem drain_arrayHeader {n : ℕ} {line : List UInt8} (hline : Announces line n)
    (hpos : 0 < n) (hn : n ≤ MAX_ARGS) (p : List UInt8) :
    (reader tables).drain (.header, server) (42 :: (line ++ 13 :: 10 :: p)) =
      (reader tables).drain (.bulk n [], server) p := by
  have hv : (reader tables).verdict (.header, server) (42 :: (line ++ 13 :: 10 :: p)) =
      .consume (line.length + 3) [] (.bulk n [], server) :=
    (readerVerdict_header tables server (by simp) (by simp)).trans
      (headerVerdict_announces hline (by exact_mod_cast hpos) (by exact_mod_cast hn) p)
  rw [Tokenizer.drain_consume hv, drop_line, Tokenizer.before_nil]

/-- **The unfinished streams** are those of which a new reader makes nothing visible. -/
theorem unfinished_iff (tables : Env (Event DataEntry)) (server : ServerContext)
    {p : List UInt8} :
    Unfinished p ↔ ((reader tables).drain (.header, server) p).1 = [] := by
  constructor
  · intro h
    induction h with
    | nothing => rw [Tokenizer.drain_wait reader_verdict_nil]
    | @newline c p hc _ ih =>
      rw [← List.singleton_append, reader_drain_newlines (by simpa using hc), ih]
    | @header p h =>
      have hv : (reader tables).verdict (.header, server) (42 :: p) = .wait :=
        (readerVerdict_header tables server (by simp) (by simp)).trans (headerVerdict_open h)
      rw [Tokenizer.drain_wait hv]
    | count hline hk h =>
      rw [drain_arrayHeader hline (Nat.succ_pos _) hk]
      exact drain_unfinishedArguments h [] (by simp)
  · intro h
    induction p with
    | nil => exact .nothing
    | cons c p ih =>
      obtain ⟨c', q, hcq, hc, hv⟩ | hseen := reader_header_seen tables server (c :: p)
      · obtain ⟨rfl, rfl⟩ := List.cons.inj hcq
        rw [Tokenizer.drain_consume hv] at h
        exact .newline hc (ih h)
      · generalize hv : (reader tables).verdict (.header, server) (c :: p) = v at hseen
        cases hseen with
        | unended hopen => exact .header hopen
        | unmarked | blank | refused =>
          rw [Tokenizer.drain_stop hv] at h
          exact absurd h (List.cons_ne_nil _ _)
        | @accepted line rest n hcr hb hn hpos hmax =>
          obtain ⟨k, rfl⟩ := Nat.exists_eq_add_one.mpr (show 0 < n by exact_mod_cast hpos)
          have hline : Announces line (k + 1) := ⟨hcr, hb, hn⟩
          have hk : k + 1 ≤ MAX_ARGS := by exact_mod_cast hmax
          rw [drain_arrayHeader hline (Nat.succ_pos k) hk] at h
          exact .count hline hk (unfinishedArguments_of_drain (by simp) h)

/-- There is room for the argument that is read next. -/
def Mode.Room : Mode → Prop
  | .header => True
  | .bulk total args | .data total args _ => args.length < total

/-- Where there is room, an argument is stored past the arrays only after a command. -/
theorem drain_head_ne_stray (tables : Env (Event DataEntry)) (server : ServerContext)
    {mode : Mode} (hroom : mode.Room) (p : List UInt8) :
    ((reader tables).drain (mode, server) p).1.head? ≠ some .stray := by
  induction hp : p.length using Nat.strongRecOn generalizing mode p with
  | ind m ih =>
    have hskip {n : ℕ} {mode' : Mode} (hroom' : mode'.Room)
        (hv : (reader tables).verdict (mode, server) p = .consume n [] (mode', server)) :
        ((reader tables).drain (mode, server) p).1.head? ≠ some .stray := by
      have hn := (reader tables).progress _ _ _ _ _ hv
      rw [Tokenizer.drain_consume hv, Tokenizer.before_nil]
      exact ih (p.drop n).length (by rw [List.length_drop]; omega) hroom' (p.drop n) rfl
    have hheader {marker : UInt8} {least greatest : ℤ} {next : ℕ → Mode}
        (hseen : HeaderSeen marker least greatest (fun n => (next n, server)) p
          ((reader tables).verdict (mode, server) p))
        (hnext : ∀ n : ℕ, least ≤ n → (next n).Room) :
        ((reader tables).drain (mode, server) p).1.head? ≠ some .stray := by
      generalize hv : (reader tables).verdict (mode, server) p = v at hseen
      cases hseen with
      | starved | unended => simp [Tokenizer.drain_wait hv]
      | unmarked | blank | refused => simp [Tokenizer.drain_stop hv]
      | accepted _ _ _ hleast => exact hskip (hnext _ hleast) hv
    cases mode with
    | header =>
      obtain ⟨c, q, -, -, hv⟩ | hseen := reader_header_seen tables server p
      · exact hskip (show Mode.Room .header from trivial) hv
      · exact hheader hseen fun n hpos => by
          show 0 < n
          exact_mod_cast hpos
    | bulk total args =>
      exact hheader (reader_bulk_seen tables server total args p) fun _ _ => hroom
    | data total args len =>
      have hseen := reader_data_seen tables server total args len p
      generalize hv : (reader tables).verdict (.data total args len, server) p = v at hseen
      cases hseen with
      | starved => simp [Tokenizer.drain_wait hv]
      | answered => simp [Tokenizer.drain_consume hv, Tokenizer.before]
      | unanswered => simp [Tokenizer.drain_stop hv]
      | @more arg rest a b harg hne =>
        have hlt : args.length < total := hroom
        rw [if_pos hlt] at hv
        refine hskip ?_ hv
        show (args ++ [arg]).length < total
        rw [List.length_append, List.length_singleton]
        omega

end Unfinished

/-! ### The reset law -/

/-- After the encoding of a command, and whatever the reads, a connection shows the command and
then what a new connection shows that is sent the rest. -/
def ResetLaw (tables : Env (Event DataEntry)) (server : ServerContext)
    (args : List (List UInt8)) (rest : List UInt8) : Prop :=
  ∀ env env' : ServerEnv, env.Grants → env'.Grants → ∀ reads reads' : List (List UInt8),
    reads.flatten = formatRespCommand args ++ rest → reads'.flatten = rest →
    observe ((connection tables env server reads).run []).2 =
      .command (toRequest args) :: observe ((connection tables env'
        (server.execute tables (toRequest args)).2 reads').run []).2

/-- What follows a command is shorter than its last argument with the two bytes after it, and
unfinished. -/
def BeginsNext (args : List (List UInt8)) (rest : List UInt8) : Prop :=
  rest.length < (args.getLastD []).length + 2 ∧ Unfinished rest

/-- The encodings of a list of commands make a connection execute these commands. -/
def ExecutesAll (tables : Env (Event DataEntry)) (server : ServerContext)
    (commands : List (List (List UInt8))) : Prop :=
  ∀ env : ServerEnv, env.Grants → ∀ reads : List (List UInt8),
    reads.flatten = commands.flatMap formatRespCommand →
    executed ((connection tables env server reads).run []).2 = commands.map toRequest

section Reset

variable {tables : Env (Event DataEntry)} {env : ServerEnv} {server : ServerContext}
  {init : List (List UInt8)} {last rest : List UInt8}

/-- More reads add to the transcript. -/
theorem connection_append (tables : Env (Event DataEntry)) (env : ServerEnv)
    (server : ServerContext) (reads reads' : List (List UInt8)) :
    ∃ new, ((connection tables env server (reads ++ reads')).run []).2 =
      new ++ ((connection tables env server reads).run []).2 :=
  ⟨_, Traced.run_runAll_append (receive tables env) reads reads' _ []⟩

/-- What follows a command is waited on when it is too short for another argument. -/
private theorem observe_short (hgrants : env.Grants) (h : Encodable (init ++ [last]))
    (ha : server.Answers tables (toRequest (init ++ [last])))
    (hshort : rest.length < last.length + 2) {reads : List (List UInt8)}
    (hreads : reads.flatten = formatRespCommand (init ++ [last]) ++ rest) :
    observe ((connection tables env server reads).run []).2 =
      [.command (toRequest (init ++ [last]))] := by
  have hdrain := drain_command noJunk h ha rest
  rw [List.nil_append, ← hreads, Tokenizer.drain_wait (reader_verdict_short hshort)] at hdrain
  exact (connection_of_drain hgrants hdrain (by simp)).2

/-- What follows a command is stored past its arrays when it is long enough. -/
private theorem observe_stray (hgrants : env.Grants) (h : Encodable (init ++ [last]))
    (ha : server.Answers tables (toRequest (init ++ [last])))
    (hlong : last.length + 2 ≤ rest.length) :
    ∃ reads out, reads.flatten = formatRespCommand (init ++ [last]) ++ rest ∧
      observe ((connection tables env server reads).run []).2 =
        .command (toRequest (init ++ [last])) :: .stray :: out := by
  set stray := rest.take (last.length + 2) with hstray
  have hlen : stray.length = last.length + 2 := by
    rw [hstray, List.length_take]
    omega
  -- The first read ends with the argument that is stored past the arrays.
  have hdrain := drain_command noJunk h ha stray
  have hv : (reader tables).verdict (.data (init ++ [last]).length (init ++ [last]) last.length,
      (server.execute tables (toRequest (init ++ [last]))).2) stray = _ :=
    (readerVerdict_data tables _ _ _ _ _).trans (dataVerdict_more hlen.ge (by omega))
  rw [if_neg (by omega)] at hv
  have hwait (args : List (List UInt8)) (server : ServerContext) :
      (reader tables).verdict (.bulk (init ++ [last]).length args, server) [] = .wait := rfl
  rw [Tokenizer.drain_consume hv, List.drop_of_length_le hlen.le, Tokenizer.drain_wait (hwait _ _),
    List.nil_append] at hdrain
  have hfirst : observe ((connection tables env server
      [formatRespCommand (init ++ [last]) ++ stray]).run []).2 =
        [.command (toRequest (init ++ [last])), .stray] :=
    (connection_of_drain hgrants (by simpa [Tokenizer.before] using hdrain) (by simp)).2
  obtain ⟨new, hnew⟩ := connection_append tables env server
    [formatRespCommand (init ++ [last]) ++ stray] [rest.drop (last.length + 2)]
  refine ⟨[formatRespCommand (init ++ [last]) ++ stray] ++ [rest.drop (last.length + 2)],
    observe new, ?_, ?_⟩
  · rw [List.flatten_append, List.flatten_singleton, List.flatten_singleton, List.append_assoc,
      List.take_append_drop]
  · rw [hnew, observe_append, hfirst]
    rfl

/-- **When a connection goes on as a new one after a command.** The reply to the command can be
sent, and what follows is too short for another argument and unfinished. Where the reader meets no
blank header line in what follows, it does so in no other case. Hence a list of encoded commands
is executed if and only if it has one command at most. -/
theorem session_reset (tables : Env (Event DataEntry)) (server : ServerContext) :
    (∀ args, Encodable args → ∀ rest,
      (server.Answers tables (toRequest args) ∧ BeginsNext args rest →
        ResetLaw tables server args rest) ∧
      (server.Answers tables (toRequest args) →
        ¬ReachesBlankHeader tables (server.execute tables (toRequest args)).2 rest →
        ResetLaw tables server args rest → BeginsNext args rest)) ∧
    ∀ commands, (∀ args ∈ commands, Encodable args) →
      (ExecutesAll tables server commands ↔ commands.length ≤ 1) := by
  refine ⟨fun args h rest => ?_, fun commands h => ⟨fun hall => ?_, fun hlen => ?_⟩⟩
  · obtain ⟨init, last, rfl⟩ : ∃ init last, args = init ++ [last] :=
      ⟨args.dropLast, args.getLast h.ne_nil, (List.dropLast_append_getLast h.ne_nil).symm⟩
    set server' := (server.execute tables (toRequest (init ++ [last]))).2
    rw [BeginsNext, List.getLastD_concat]
    refine ⟨?_, fun ha hblank hlaw => ?_⟩
    · rintro ⟨ha, hshort, hrest⟩ env env' hgrants hgrants' reads reads' hreads hreads'
      have hquiet := (unfinished_iff tables server').mp hrest
      have hblank : ¬ReachesBlankHeader tables server' rest := by simp [ReachesBlankHeader, hquiet]
      rw [observe_short hgrants h ha hshort hreads, observe_connection hgrants' hblank hreads',
        hquiet]
    · have hgrants := ServerEnv.granting_grants
      have hnew : observe ((connection tables .granting server' [rest]).run []).2 =
          ((reader tables).drain (.header, server') rest).1 :=
        observe_connection hgrants hblank (List.flatten_singleton)
      by_cases hshort : rest.length < last.length + 2
      · have heq := hlaw .granting .granting hgrants hgrants
          [formatRespCommand (init ++ [last]) ++ rest] [rest] (by simp) (by simp)
        rw [observe_short hgrants h ha hshort (by simp), hnew, List.cons_inj_right] at heq
        exact ⟨hshort, (unfinished_iff tables server').mpr heq.symm⟩
      · obtain ⟨reads, out, hreads, hobserve⟩ :=
          observe_stray hgrants h ha (Nat.not_lt.mp hshort)
        have heq := hlaw .granting .granting hgrants hgrants reads [rest] hreads (by simp)
        rw [hobserve, hnew, List.cons_inj_right] at heq
        have hhead := drain_head_ne_stray tables server' (show Mode.Room .header from trivial) rest
        rw [← heq] at hhead
        exact absurd rfl hhead
  · have honce := connection_executes_once tables .granting server
      [commands.flatMap formatRespCommand]
    rwa [hall .granting ServerEnv.granting_grants _ (by simp), List.length_map] at honce
  · intro env hgrants reads hreads
    obtain _ | ⟨args, _ | ⟨args', commands⟩⟩ := commands
    · have hdrain : (reader tables).drain (.header, server) reads.flatten =
          ([], ⟨some (.header, server), []⟩) := by
        rw [hreads, List.flatMap_nil, Tokenizer.drain_wait reader_verdict_nil]
      rw [executed, (connection_of_drain hgrants hdrain (by simp)).2]
      rfl
    · have hdecodes := connection_decodes tables hgrants server (h args (by simp)) noJunk reads
      exact (hdecodes.2 (by simpa using hreads)).1
    · exact absurd hlen (by simp)

/-- Two bytes of the next header after a command with an argument of one byte, and a command on
its own. -/
theorem session_reset_begun :
    ResetLaw Env.granting ⟨Hashtable.fresh 1, []⟩ [bytes "A"] (bytes "*1") ∧
      ExecutesAll Env.granting ⟨Hashtable.fresh 1, []⟩ [[bytes "A"]] := by
  have h : Encodable [bytes "A"] := by decide
  have ha : ServerContext.Answers Env.granting ⟨Hashtable.fresh 1, []⟩ (toRequest [bytes "A"]) := by
    decide +kernel
  have hbegins : BeginsNext [bytes "A"] (bytes "*1") :=
    ⟨by decide, .header (show findCrlf (bytes "1") = none by decide)⟩
  obtain ⟨hreset, hall⟩ := session_reset Env.granting ⟨Hashtable.fresh 1, []⟩
  exact ⟨(hreset _ h _).1 ⟨ha, hbegins⟩, (hall [[bytes "A"]] (by simpa using h)).mpr le_rfl⟩

/-- Of two commands in a row only the first one is executed. -/
theorem second_command_lost :
    ¬∀ (tables : Env (Event DataEntry)) (env : ServerEnv) (server : ServerContext)
      (args : List (List UInt8)) (rest : List UInt8) (reads reads' : List (List UInt8)),
      env.Grants → Encodable args → reads.flatten = formatRespCommand args ++ rest →
      reads'.flatten = rest →
      let r := (connection tables env server reads).run []
      let r' := (connection tables env (server.execute tables (toRequest args)).2 reads').run []
      executed r.2 = toRequest args :: executed r'.2 ∧ r.1.closing = r'.1.closing := by
  intro h
  have heq := h Env.granting .granting ⟨Hashtable.fresh 1, []⟩ [bytes "A"]
    (formatRespCommand [bytes "B"]) [formatRespCommand [bytes "A"] ++ formatRespCommand [bytes "B"]]
    [formatRespCommand [bytes "B"]] ServerEnv.granting_grants (by decide) (by simp) (by simp)
  exact absurd heq.1 (by decide +kernel)

end Reset

end SimpleCDatabase
