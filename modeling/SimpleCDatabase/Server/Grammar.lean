import SimpleCDatabase.Server.Refinement

/-!
# The grammar of what is executed

The bytes that a connection has consumed when it executes its first command: `\r` and `\n`, then an
array header and for each argument a bulk header and the data. The lines and the ends of the data
are as the code reads them. The number of a header is what `strtol` makes of its line, and any two
bytes may stand after the data. What is read after a blank line is left open.

## Main definitions

* `CommandBytes`: the grammar, for a notion of number and one of the end of an argument.
* `Numeral`, `HeaderNumber`: a line of digits, and a line as the code reads it.
* `firstExecution`: the first command of a transcript, with the transcript before it.
* `Spells`: what has been consumed in each mode of the parser.

## Main results

* `parseStep_spells`: one iteration.
* `connection_grammar`: the bytes in front of the first command, for any reads and environment.
-/

namespace SimpleCDatabase

open CString

/-! ### The grammar -/

section Grammar

variable (Number : List UInt8 → ℕ → Prop) (Ending : List UInt8 → Prop)

/-- The bytes of arguments: for each one its header line, its bytes and an end. -/
inductive ArgumentBytes : List (List UInt8) → List UInt8 → Prop where
  | nil : ArgumentBytes [] []
  | cons {arg line ending bs : List UInt8} {args : List (List UInt8)}
    (hnumber : Number line arg.length) (hlen : arg.length ≤ MAX_BULK_LENGTH)
    (hending : Ending ending) (h : ArgumentBytes args bs) :
    ArgumentBytes (arg :: args) (36 :: (line ++ 13 :: 10 :: (arg ++ ending ++ bs)))

/-- The bytes of the first arguments of a command with `total` arguments: any `\r` and `\n`, the
header line and the arguments. -/
inductive CommandBytes (total : ℕ) (args : List (List UInt8)) : List UInt8 → Prop where
  | intro {junk line bs : List UInt8} (hjunk : ∀ c ∈ junk, c = 13 ∨ c = 10)
    (hnumber : Number line total) (hpos : 1 ≤ total) (hmax : total ≤ MAX_ARGS)
    (h : ArgumentBytes Number Ending args bs) :
    CommandBytes total args (junk ++ 42 :: (line ++ 13 :: 10 :: bs))

end Grammar

/-- A line of decimal digits that denotes `n`. -/
def Numeral (line : List UInt8) (n : ℕ) : Prop :=
  line ≠ [] ∧ (∀ c ∈ line, isdigit c = true) ∧ digitsValue line = n

/-- A header line as the code reads it: no `\r`, and unless it is blank `strtol` makes `n` of it. -/
def HeaderNumber (line : List UInt8) (n : ℕ) : Prop :=
  13 ∉ line ∧ (¬Blank line → strtol line = n)

/-- The end of an argument as the code reads it: two bytes. -/
def TwoBytes (ending : List UInt8) : Prop := ending.length = 2

/-- The bytes of a command as the code reads it. -/
abbrev ReadBytes (total : ℕ) (args : List (List UInt8)) (bs : List UInt8) : Prop :=
  CommandBytes HeaderNumber TwoBytes total args bs

section Grammar

variable {Number : List UInt8 → ℕ → Prop} {Ending : List UInt8 → Prop}

theorem ArgumentBytes.snoc {args : List (List UInt8)} {bs arg line ending : List UInt8}
    (h : ArgumentBytes Number Ending args bs) (hnumber : Number line arg.length)
    (hlen : arg.length ≤ MAX_BULK_LENGTH) (hending : Ending ending) :
    ArgumentBytes Number Ending (args ++ [arg])
      (bs ++ 36 :: (line ++ 13 :: 10 :: (arg ++ ending))) := by
  induction h with
  | nil =>
    have hone : ArgumentBytes Number Ending [arg] _ := .cons hnumber hlen hending .nil
    rwa [List.append_nil] at hone
  | cons hnumber' hlen' hending' _ ih =>
    have hcons := ArgumentBytes.cons hnumber' hlen' hending' ih
    simpa only [List.cons_append, List.append_assoc] using hcons

theorem CommandBytes.snoc {total : ℕ} {args : List (List UInt8)} {bs arg line ending : List UInt8}
    (h : CommandBytes Number Ending total args bs) (hnumber : Number line arg.length)
    (hlen : arg.length ≤ MAX_BULK_LENGTH) (hending : Ending ending) :
    CommandBytes Number Ending total (args ++ [arg])
      (bs ++ 36 :: (line ++ 13 :: 10 :: (arg ++ ending))) := by
  cases h with
  | intro hjunk hcount hpos hmax hargs =>
    have hmore := CommandBytes.intro hjunk hcount hpos hmax (hargs.snoc hnumber hlen hending)
    simpa only [List.cons_append, List.append_assoc] using hmore

end Grammar

/-! ### The first command of a transcript -/

/-- The first command of a transcript, with the transcript before it. -/
def firstExecution : List ServerEvent → Option (Request × List ServerEvent)
  | [] => none
  | e :: log => (firstExecution log).or
    ((e.output.bind Output.request).map fun request => (request, log))

theorem firstExecution_append {log : List ServerEvent} {r : Request × List ServerEvent}
    (h : firstExecution log = some r) (new : List ServerEvent) :
    firstExecution (new ++ log) = some r := by
  induction new with
  | nil => exact h
  | cons e new ih => rw [List.cons_append, firstExecution, ih, Option.some_or]

theorem firstExecution_quiet {new : List ServerEvent} (h : executed new = [])
    (log : List ServerEvent) : firstExecution (new ++ log) = firstExecution log := by
  induction new with
  | nil => rfl
  | cons e new ih =>
    rw [executed_cons, List.append_eq_nil_iff] at h
    have hnone : e.output.bind Output.request = none := Option.toList_eq_nil_iff.mp h.2
    rw [List.cons_append, firstExecution, ih h.1, hnone, Option.map_none, Option.or_none]

theorem firstExecution_execute {log : List ServerEvent} (h : firstExecution log = none)
    (new : List ServerEvent) (request : Request) :
    firstExecution (new ++ .execute request :: log) = some (request, log) := by
  refine firstExecution_append ?_ new
  rw [firstExecution, h, Option.none_or]
  rfl

theorem firstExecution_eq_none_iff {log : List ServerEvent} :
    firstExecution log = none ↔ executed log = [] := by
  induction log with
  | nil => simp [firstExecution]
  | cons e log ih =>
    rw [firstExecution, executed_cons, Option.or_eq_none_iff, ih, List.append_eq_nil_iff,
      Option.map_eq_none_iff, Option.toList_eq_nil_iff]

/-! ### What is consumed -/

/-- The bytes that an event consumes. -/
def ServerEvent.taken : ServerEvent → List UInt8
  | .consumed bytes => bytes
  | _ => []

/-- The bytes that have been consumed, in the order of time. -/
def taken (log : List ServerEvent) : List UInt8 := gather ServerEvent.taken log

@[simp] theorem taken_nil : taken [] = [] := rfl

@[simp] theorem taken_append (new log : List ServerEvent) :
    taken (new ++ log) = taken log ++ taken new :=
  gather_append _ _ _

@[simp] theorem taken_cons (e : ServerEvent) (log : List ServerEvent) :
    taken (e :: log) = taken log ++ e.taken :=
  gather_cons _ _ _

/-- Bytes at the front are consumed. -/
theorem taken_consumed {ctx : ClientContext} {k : ℕ} (hk : k ≤ ctx.bufferUsed) :
    taken [.consumed (ctx.buffer.take k)] = ctx.pending.take k := by
  rw [taken_cons, taken_nil, List.nil_append, ServerEvent.taken, ClientContext.take_buffer hk]

/-- The white space in front of an array header is consumed. -/
theorem taken_whitespace {ctx : ClientContext} (h : ctx.Fits) :
    taken (if 0 < leadingWhitespace ctx then
      [.consumed (ctx.buffer.take (leadingWhitespace ctx))] else []) =
        ctx.pending.take (leadingWhitespace ctx) := by
  split
  · exact taken_consumed (leadingWhitespace_le h)
  · next hzero => rw [Nat.eq_zero_of_not_pos hzero, List.take_zero, taken_nil]

/-- What has been consumed when the parser is in a mode and has executed nothing. -/
def Spells : Mode → List UInt8 → Prop
  | .header, bs => ∀ c ∈ bs, c = 13 ∨ c = 10
  | .bulk total args, bs => args.length < total ∧ ReadBytes total args bs
  | .data total args len, bs => args.length < total ∧ len ≤ MAX_BULK_LENGTH ∧
    ∃ front line, bs = front ++ 36 :: (line ++ [13, 10]) ∧ HeaderNumber line len ∧
      ReadBytes total args front

/-! ### One iteration -/

/-- The commands executed first are those whose bytes have been consumed, and these are the
beginning of `stream`. -/
def FirstDecoded (stream : List UInt8) (log : List ServerEvent) : Prop :=
  ∃ args before, firstExecution log = some (toRequest args, before) ∧
    ReadBytes args.length args (taken before) ∧ taken before <+: stream

/-- Nothing has been executed, what has been consumed spells the mode, and the rest of the stream is
at hand. -/
structure Spelling (stream : List UInt8) (mode : Mode) (ctx : ClientContext)
    (log : List ServerEvent) : Prop where
  fits : ctx.Fits
  first : firstExecution log = none
  whole : taken log ++ ctx.pending = stream
  inMode : ctx.InMode mode
  spells : Spells mode (taken log)

/-- What holds at the start of an iteration. -/
def Reading (stream : List UInt8) (ctx : ClientContext) (log : List ServerEvent) : Prop :=
  ctx.Fits ∧ (FirstDecoded stream log ∨ ∃ mode, Spelling stream mode ctx log)

/-- What holds between reads. -/
def Between (stream : List UInt8) (ctx : ClientContext) (log : List ServerEvent) : Prop :=
  ctx.Fits ∧ (ctx.closing = false → Reading stream ctx log) ∧
    (firstExecution log = none ∨ FirstDecoded stream log)

/-- What an iteration leaves for the next one, or at the end of the loop. -/
def Left (stream : List UInt8) (log : List ServerEvent) : ForInStep ClientContext → Prop
  | .yield ctx => Reading stream ctx log
  | .done ctx => Between stream ctx log

section Iteration

variable {stream : List UInt8} {mode : Mode} {ctx : ClientContext} {log : List ServerEvent}

theorem Spelling.reading (h : Spelling stream mode ctx log) : Reading stream ctx log :=
  ⟨h.fits, .inr ⟨mode, h⟩⟩

theorem Reading.between (h : Reading stream ctx log) : Between stream ctx log :=
  ⟨h.1, fun _ => h, h.2.elim .inr fun ⟨_, h⟩ => .inl h.first⟩

theorem FirstDecoded.append (h : FirstDecoded stream log) (more : List UInt8)
    (new : List ServerEvent) : FirstDecoded (stream ++ more) (new ++ log) := by
  obtain ⟨args, before, hfirst, hbytes, hprefix⟩ := h
  exact ⟨args, before, firstExecution_append hfirst new, hbytes,
    hprefix.trans (List.prefix_append _ _)⟩

private theorem left_of_decoded {new : List ServerEvent} {r : ForInStep ClientContext}
    (h : FirstDecoded stream log) (hfits : r.value.Fits) : Left stream (new ++ log) r := by
  have hdecoded : FirstDecoded stream (new ++ log) := by
    simpa only [List.append_nil] using h.append [] new
  cases r with
  | yield ctx' => exact ⟨hfits, .inl hdecoded⟩
  | done ctx' => exact Reading.between ⟨hfits, .inl hdecoded⟩

/-- An iteration that closes the connection and executes nothing. -/
private theorem left_of_closed {new : List ServerEvent} {ctx' : ClientContext}
    (hfirst : firstExecution log = none) (hnew : executed new = []) (hfits : ctx'.Fits)
    (hclosing : ctx'.closing = true) : Left stream (new ++ log) (.done ctx') := by
  refine ⟨hfits, fun hopen => absurd (hclosing.symm.trans hopen) (by decide), .inl ?_⟩
  rw [firstExecution_quiet hnew, hfirst]

/-- Bytes at the front are consumed, and what has been consumed spells another mode. -/
private theorem Spelling.shift (h : Spelling stream mode ctx log) {ctx' : ClientContext}
    {new : List ServerEvent} {mode' : Mode} {k : ℕ} (hbuffer : ctx'.buffer = ctx.buffer)
    (hused : ctx'.bufferUsed = ctx.bufferUsed) (hk : k ≤ ctx.bufferUsed)
    (hnew : executed new = []) (htaken : taken new = ctx.pending.take k)
    (hmode : ctx'.InMode mode') (hspells : Spells mode' (taken log ++ ctx.pending.take k)) :
    Spelling stream mode' (ctx'.shift k) (new ++ log) := by
  have hfits' : ctx'.Fits := h.fits.of_buffer hbuffer hused
  have hpending' : ctx'.pending = ctx.pending := ClientContext.pending_of_buffer hbuffer hused
  have hlog : taken (new ++ log) = taken log ++ ctx.pending.take k := by
    rw [taken_append, htaken]
  refine ⟨hfits'.shift (by rwa [hused]), ?_, ?_, hmode.of_buffer, hlog ▸ hspells⟩
  · rw [firstExecution_quiet hnew, h.first]
  · rw [hlog, hfits'.pending_shift (by rwa [hused]), hpending', List.append_assoc,
      List.take_append_drop, h.whole]

/-- An iteration in front of a header. -/
private theorem HeaderRead.left {marker : UInt8} {least greatest : ℤ}
    {next : ℕ → ClientContext} {r : ForInStep ClientContext} {new : List ServerEvent}
    (hread : HeaderRead ctx marker least greatest next r new) (h : Spelling stream mode ctx log)
    (hbuffer : ∀ n, (next n).buffer = ctx.buffer)
    (hused : ∀ n, (next n).bufferUsed = ctx.bufferUsed)
    (hnext : ∀ (n : ℕ) line, least ≤ n → n ≤ greatest → HeaderNumber line n →
      ∃ mode', (next n).InMode mode' ∧
        Spells mode' (taken log ++ marker :: (line ++ [13, 10]))) :
    Left stream (new ++ log) r := by
  cases hread with
  | starved | unended => exact h.reading.between
  | unmarked | refused => exact left_of_closed h.first rfl h.fits rfl
  | @accepted line rest stale n hpending hcr hn hleast hgreatest =>
    have hnumber : HeaderNumber line n := ⟨hcr, fun hb => (strtol_header hb _).symm.trans hn⟩
    obtain ⟨mode', hmode', hspells'⟩ := hnext n line hleast hgreatest hnumber
    have hpart : (marker :: (line ++ [13, 10])).length = line.length + 3 := by simp
    have htake : ctx.pending.take (line.length + 3) = marker :: (line ++ [13, 10]) := by
      rw [hpending, show marker :: (line ++ 13 :: 10 :: rest) =
        (marker :: (line ++ [13, 10])) ++ rest by simp]
      exact List.take_left' hpart
    have hle : line.length + 3 ≤ ctx.bufferUsed := h.fits.header_le hpending
    exact (h.shift (hbuffer n) (hused n) hle rfl (taken_consumed hle) hmode'
      (htake ▸ hspells')).reading

theorem taken_allocEvents : taken (allocEvents ctx) = [] :=
  gather_eq_nil fun e he => by
    rw [eq_malloc_of_mem_allocEvents he]
    rfl

/-- The storage of an argument consumes it with the two bytes after it. -/
theorem taken_storeEvents (hused : ctx.dataToRead + 2 ≤ ctx.bufferUsed) :
    taken (storeEvents ctx) = ctx.pending.take (ctx.dataToRead + 2) := by
  rw [storeEvents, taken_append, taken_allocEvents]
  simp [ServerEvent.taken, ClientContext.take_buffer hused]

/-- What has been consumed once the argument in front has been stored. -/
private theorem Spelling.readBytes {total len : ℕ} {args : List (List UInt8)}
    (h : Spelling stream (.data total args len) ctx log) (hused : len + 2 ≤ ctx.bufferUsed) :
    ReadBytes total (args ++ [ctx.pending.take len]) (taken log ++ ctx.pending.take (len + 2)) := by
  obtain ⟨-, hmax, front, line, hfront, hnumber, hbytes⟩ := h.spells
  have hsize : (ctx.pending.take len).length = len := by
    rw [List.length_take, h.fits.length_pending]
    omega
  have hending : TwoBytes ((ctx.pending.drop len).take 2) := by
    rw [TwoBytes, List.length_take, List.length_drop, h.fits.length_pending]
    omega
  have hnumber' : HeaderNumber line (ctx.pending.take len).length := by rwa [hsize]
  have hmore := hbytes.snoc hnumber' (hsize.trans_le hmax) hending
  rw [← List.take_add] at hmore
  rw [hfront]
  simpa using hmore

/-- The command that is executed after its last argument has been stored. -/
private theorem Spelling.decoded {total len : ℕ} {args : List (List UInt8)}
    (h : Spelling stream (.data total args len) ctx log)
    (hused : ctx.dataToRead + 2 ≤ ctx.bufferUsed) (hlast : ctx.argsParsed + 1 = ctx.argsTotal) :
    FirstDecoded stream
      (.execute ctx.withArguments.stored.command :: (storeEvents ctx ++ log)) := by
  obtain ⟨-, hlen, hholds⟩ := h.inMode
  obtain ⟨hargs, hcommand⟩ := hholds.command_stored hlen h.fits (hlen ▸ hused) hlast
  have hbefore : taken (storeEvents ctx ++ log) = taken log ++ ctx.pending.take (len + 2) := by
    rw [taken_append, taken_storeEvents hused, hlen]
  refine ⟨args ++ [ctx.pending.take len], storeEvents ctx ++ log, ?_, ?_, ?_⟩
  · have hnone : firstExecution (storeEvents ctx ++ log) = none := by
      rw [firstExecution_quiet executed_storeEvents, h.first]
    rw [hcommand]
    exact firstExecution_execute hnone [] _
  · rw [hargs, hbefore]
    exact h.readBytes (hlen ▸ hused)
  · rw [hbefore, ← h.whole, List.prefix_append_right_inj]
    exact List.take_prefix _ _

/-- An iteration in front of the data of an argument. -/
private theorem DataRead.left {tables : Env (Event DataEntry)} {env : ServerEnv}
    {r : ForInStep ClientContext} {new : List ServerEvent}
    (hread : DataRead tables env ctx r new) {total len : ℕ} {args : List (List UInt8)}
    (h : Spelling stream (.data total args len) ctx log) : Left stream (new ++ log) r := by
  obtain ⟨-, hlen, hholds⟩ := h.inMode
  cases hread with
  | starved => exact h.reading.between
  | unallocated => exact left_of_closed h.first rfl h.fits rfl
  | unstored =>
    refine left_of_closed h.first ?_ h.fits rfl
    simp [executed_allocEvents, ServerEvent.output, Output.request]
  | stored hused hne =>
    rw [hholds.parsed, hholds.count] at hne
    have hroom := h.spells.1
    have hholds' := hholds.stored hlen h.fits (hlen ▸ hused)
    have hroom' : (args ++ [ctx.pending.take len]).length < total := by
      rw [List.length_append, List.length_singleton]
      omega
    exact (@Spelling.shift _ _ _ _ h { ctx.withArguments with
      tempArgv := _, tempArgLengths := _, argsParsed := _, state := .expectLength } _
      (.bulk total (args ++ [ctx.pending.take len])) _ rfl rfl hused executed_storeEvents
      (taken_storeEvents hused)
      ⟨rfl, hholds'.of_arguments rfl⟩ ⟨hroom', hlen ▸ h.readBytes (hlen ▸ hused)⟩).reading
  | @completed r new hused hlast hdispatched =>
    have hstoredFits : ctx.withArguments.stored.Fits :=
      ClientContext.Fits.shift (n := ctx.dataToRead + 2) h.fits hused
    have hexecuted (new : List ServerEvent) (hfits' : r.value.Fits) :
        Left stream ((new ++ [.execute ctx.withArguments.stored.command]) ++
          storeEvents ctx ++ log) r := by
      have hleft : Left stream (new ++ _) r := left_of_decoded (h.decoded hused hlast) hfits'
      simpa only [List.append_assoc, List.cons_append, List.nil_append] using hleft
    cases hdispatched with
    | overflow =>
      refine left_of_closed h.first ?_ hstoredFits rfl
      simp [executed_storeEvents, ServerEvent.output, Output.request]
    | answered => exact hexecuted [_, _, _, _, _] hstoredFits
    | unanswered => exact hexecuted (_ :: _) hstoredFits

/-- The connection after the white space in front of an array header has been consumed. -/
private theorem Spelling.trimmed (h : Spelling stream .header ctx log) :
    Spelling stream .header ctx.trimmed ((if 0 < leadingWhitespace ctx then
      [.consumed (ctx.buffer.take (leadingWhitespace ctx))] else []) ++ log) := by
  have hle := leadingWhitespace_le h.fits
  refine h.shift rfl rfl hle ?_ (taken_whitespace h.fits) h.inMode ?_
  · split <;> rfl
  · have htrim : ctx.pending.take (leadingWhitespace ctx) =
        ctx.pending.takeWhile fun c => c = 13 ∨ c = 10 := by
      rw [leadingWhitespace]
      exact (List.prefix_iff_eq_take.mp (List.takeWhile_prefix _)).symm
    intro c hc
    rcases List.mem_append.mp hc with hc | hc
    · exact h.spells c hc
    · rw [htrim] at hc
      simpa using List.mem_takeWhile_imp hc

/-- **One iteration.** -/
theorem parseStep_spells (tables : Env (Event DataEntry)) (env : ServerEnv)
    (h : Reading stream ctx log) :
    (parseStep tables env ctx).Ensures log fun r new => Left stream (new ++ log) r := by
  obtain ⟨hfits, hdecoded | ⟨mode, h⟩⟩ := h
  · exact (parseStep_progress tables env log hfits).mono fun r new hr =>
      left_of_decoded hdecoded hr.1
  have hmode := h.inMode
  have hspells := h.spells
  cases mode with
  | header =>
    refine parseStep_cases tables env log (fun _ => ?_) (fun hstate => ?_) fun hstate => ?_
    · refine (expectType_spec env log hfits).mono ?_
      rintro r _ ⟨new, hread, rfl⟩
      rw [List.append_assoc]
      refine hread.left h.trimmed (fun _ => rfl) (fun _ => rfl) fun n line hpos hmax hnumber => ?_
      have hpos : 1 ≤ n := by exact_mod_cast hpos
      have hmax : n ≤ MAX_ARGS := by exact_mod_cast hmax
      exact ⟨.bulk n [], ClientContext.inMode_counted _ hmax, hpos,
        .intro h.trimmed.spells hnumber hpos hmax .nil⟩
    · exact nomatch hstate.symm.trans hmode
    · exact nomatch hstate.symm.trans hmode
  | bulk total args =>
    refine parseStep_cases tables env log (fun hstate => ?_) (fun _ => ?_) fun hstate => ?_
    · exact nomatch hstate.symm.trans hmode.1
    · refine (expectLength_spec env log hfits).mono fun r new hread =>
        hread.left h (fun _ => rfl) (fun _ => rfl) fun n line _ hmax hnumber => ?_
      exact ⟨.data total args n, hmode.announced n, hspells.1, by exact_mod_cast hmax, _, line, rfl,
        hnumber, hspells.2⟩
    · exact nomatch hstate.symm.trans hmode.1
  | data total args len =>
    refine parseStep_cases tables env log (fun hstate => ?_) (fun hstate => ?_) fun _ => ?_
    · exact nomatch hstate.symm.trans hmode.1
    · exact nomatch hstate.symm.trans hmode.1
    · exact (expectData_spec tables env ctx log).mono fun r new hread => hread.left h

end Iteration

/-! ### Runs -/

section Runs

variable (tables : Env (Event DataEntry)) (env : ServerEnv)

/-- The loop. -/
private theorem parseBuffer_spells {stream : List UInt8} {ctx : ClientContext}
    {log : List ServerEvent} (h : Reading stream ctx log) :
    (parseBuffer tables env ctx).Ensures log fun ctx' new => Between stream ctx' (new ++ log) := by
  refine parseBuffer_ensures tables env log (Reading stream) (Between stream) (fun s t hs => hs.1)
    (fun s t s' hs hyield => ?_) (fun s t s' hs hdone => ?_) h
  · have hleft : Left stream _ _ := parseStep_spells tables env hs
    rwa [hyield] at hleft
  · have hleft : Left stream _ _ := parseStep_spells tables env hs
    rwa [hdone] at hleft

/-- One read. -/
theorem receive_spells {stream data : List UInt8} {ctx : ClientContext}
    {log : List ServerEvent} (h : Between stream ctx log) :
    (receive tables env ctx data).Ensures log fun ctx' new =>
      Between (stream ++ data) ctx' (new ++ log) := by
  have hclosed {ctx' : ClientContext} {log : List ServerEvent} (h : Between stream ctx' log)
      (hclosing : ctx'.closing = true) : Between (stream ++ data) ctx' log :=
    ⟨h.1, fun hopen => absurd (hclosing.symm.trans hopen) (by decide),
      h.2.2.imp_right fun hdecoded => hdecoded.append data []⟩
  refine receive_cases tables env log (hclosed h) (fun hdata => ?_) fun hopen _ => ?_
  · rw [hdata, List.append_nil]
    exact h
  obtain ⟨hfits, hreading⟩ := h.2.1 hopen
  refine (appendToBuffer_spec env hfits data _).mono fun ctx' new happended => ?_
  cases happended with
  | @appended buffer new hroom hpending hnew =>
    have hquiet : executed (new ++ [.timerStart]) = [] ∧ taken (new ++ [.timerStart]) = [] := by
      obtain rfl | ⟨size, rfl⟩ := hnew
      · exact ⟨rfl, rfl⟩
      · exact ⟨rfl, rfl⟩
    have hgrown : Reading (stream ++ data)
        { ctx with buffer := buffer, bufferUsed := ctx.bufferUsed + data.length }
        (new ++ [.timerStart] ++ log) := by
      refine ⟨hroom, hreading.imp (fun hdecoded => hdecoded.append data _) ?_⟩
      rintro ⟨mode, hspelling⟩
      have hlog : taken (new ++ [.timerStart] ++ log) = taken log := by
        rw [taken_append, hquiet.2, List.append_nil]
      refine ⟨mode, hroom, ?_, ?_, hspelling.inMode.of_buffer, hlog ▸ hspelling.spells⟩
      · rw [firstExecution_quiet hquiet.1, hspelling.first]
      · rw [hlog, ← hspelling.whole, List.append_assoc]
        exact congrArg _ hpending
    rw [List.append_assoc] at hgrown
    refine (parseBuffer_spells tables env hgrown).mono fun ctx' new' hloop => ?_
    simpa only [List.append_assoc] using hloop
  | @denied log' size =>
    have hdenied : Reading stream { ctx with closing := true }
        ([.close, .malloc size false] ++ ([.timerStart] ++ log)) := by
      refine ⟨hfits, hreading.imp (fun hdecoded => ?_) ?_⟩
      · have hmore := hdecoded.append [] ([.close, .malloc size false] ++ [.timerStart])
        rwa [List.append_nil, List.append_assoc] at hmore
      · rintro ⟨mode, hspelling⟩
        have hlog : taken ([.close, .malloc size false] ++ ([.timerStart] ++ log)) = taken log := by
          simp [ServerEvent.taken]
        refine ⟨mode, hfits, ?_, hlog.symm ▸ hspelling.whole, hspelling.inMode.of_buffer,
          hlog.symm ▸ hspelling.spells⟩
        rw [← List.append_assoc, firstExecution_quiet rfl, hspelling.first]
    have hloop := hclosed (parseBuffer_spells tables env hdenied)
      (parseBuffer_closing tables env _ hfits rfl)
    rw [Traced.Ensures, List.append_assoc, List.append_assoc]
    exact hloop

/-- A run of reads. -/
theorem connection_between (server : ServerContext) (reads : List (List UInt8)) :
    (connection tables env server reads).Ensures [] (Between reads.flatten) := by
  have hspelling : Spelling [] .header (ClientContext.fresh server) [] :=
    ⟨ClientContext.fits_fresh server, rfl, rfl, rfl, by simp [Spells]⟩
  have hend := Traced.runAll_inputs (receive tables env) (fun reads => Between reads.flatten)
    (fun earlier data ctx log h => ?_) [] reads _ _ hspelling.reading.between
  · rwa [List.append_nil, List.nil_append] at hend
  · rw [List.flatten_concat]
    exact receive_spells tables env h

/-- **The grammar of what is executed.** In every run of reads, in any environment, either nothing
is executed, or the bytes consumed before the first command are those of its arguments as the code
reads them, and the beginning of what has been sent. -/
theorem connection_grammar (server : ServerContext) (reads : List (List UInt8)) :
    executed ((connection tables env server reads).run []).2 = [] ∨
      ∃ args before, firstExecution ((connection tables env server reads).run []).2 =
          some (toRequest args, before) ∧
        ReadBytes args.length args (taken before) ∧ taken before <+: reads.flatten :=
  (connection_between tables env server reads).2.2.imp_left firstExecution_eq_none_iff.mp

end Runs

/-- After `*` the numeral of a header begins. -/
private theorem CommandBytes.isdigit_head {Ending : List UInt8 → Prop} {total : ℕ}
    {args : List (List UInt8)} {c : UInt8} {bs : List UInt8}
    (h : CommandBytes Numeral Ending total args (42 :: c :: bs)) : isdigit c = true := by
  generalize hwhole : 42 :: c :: bs = whole at h
  cases h with
  | @intro junk line _ hjunk hnumber =>
    cases junk with
    | nil =>
      obtain ⟨hne, hdigits, -⟩ := hnumber
      obtain ⟨d, line, rfl⟩ := List.exists_cons_of_ne_nil hne
      obtain rfl : c = d := (List.cons.inj (List.cons.inj hwhole).2).1
      exact hdigits c List.mem_cons_self
    | cons d junk =>
      have hd := hjunk d List.mem_cons_self
      rw [← (List.cons.inj hwhole).1] at hd
      exact absurd hd (by decide)

/-- A sign, a blank and a letter in the header lines, and two other bytes after the data. -/
theorem executes_outside_grammar :
    ¬∀ (tables : Env (Event DataEntry)) (env : ServerEnv) (server : ServerContext)
      (reads : List (List UInt8)),
      executed ((connection tables env server reads).run []).2 = [] ∨
        ∃ args before, firstExecution ((connection tables env server reads).run []).2 =
            some (toRequest args, before) ∧
          CommandBytes Numeral (· = [13, 10]) args.length args (taken before) := by
  intro h
  obtain hnone | ⟨args, before, hfirst, hbytes⟩ := h Env.granting .granting
    ⟨Hashtable.fresh 1, []⟩ [bytes "*+1x\r\n$ 1\r\nAxy"]
  · exact absurd hnone (by decide +kernel)
  · have htaken : (firstExecution ((connection Env.granting .granting ⟨Hashtable.fresh 1, []⟩
        [bytes "*+1x\r\n$ 1\r\nAxy"]).run []).2).map (fun r => taken r.2) =
        some (bytes "*+1x\r\n$ 1\r\nAxy") := by decide +kernel
    rw [hfirst, Option.map_some, Option.some.injEq] at htaken
    rw [htaken] at hbytes
    exact absurd hbytes.isdigit_head (by decide)

end SimpleCDatabase
