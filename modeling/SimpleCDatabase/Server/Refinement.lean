import SimpleCDatabase.Server.Protocol
import SimpleCDatabase.Server.Steps

/-!
# The connection refines the reader

When every request for memory is granted, a connection shows what the reader makes of the stream,
however the stream is cut into reads, as long as the reader meets no blank header line. Between
two reads the bytes at hand are those the reader has left, and the arguments stored are those it
has read.

## Main definitions

* `observe`, `executed`: what is visible of a transcript, and the commands that it executes.
* `gather`: the bytes that the events of a transcript carry.
* `ClientContext.Represents`, `ClientContext.At`: the state of a connection and of the reader.

## Main results

* `parseStep_refines`, `parseBuffer_refines`, `receive_refines`: the iteration, the loop, the read.
* `connection_refines`: every run of reads.
-/

namespace SimpleCDatabase

open CString

/-! ### What is visible -/

/-- What is visible of an event. The length of an argument is stored where the argument is. -/
def ServerEvent.output : ServerEvent → Option Output
  | .execute request => some (.command request)
  | .argvStore index _ size => if index < size then none else some .stray
  | .close => some .close
  | _ => none

/-- What is visible of a transcript, in the order of time. -/
def observe (log : List ServerEvent) : List Output := log.reverse.filterMap ServerEvent.output

@[simp] theorem observe_nil : observe [] = [] := rfl

@[simp] theorem observe_append (new log : List ServerEvent) :
    observe (new ++ log) = observe log ++ observe new := by
  rw [observe, List.reverse_append, List.filterMap_append]
  rfl

@[simp] theorem observe_cons (e : ServerEvent) (log : List ServerEvent) :
    observe (e :: log) = observe log ++ (ServerEvent.output e).toList := by
  have hsingle : observe [e] = (ServerEvent.output e).toList := by
    cases h : ServerEvent.output e <;> simp [observe, h]
  rw [← List.singleton_append, observe_append, hsingle]

theorem observe_eq_nil {log : List ServerEvent} (h : ∀ e ∈ log, e.output = none) :
    observe log = [] := by
  rw [observe, List.filterMap_eq_nil_iff]
  exact fun e he => h e (List.mem_reverse.mp he)

/-- The command that an output executes. -/
def Output.request : Output → Option Request
  | .command request => some request
  | _ => none

/-- The commands that a transcript executes, in the order of time. -/
def executed (log : List ServerEvent) : List Request := (observe log).filterMap Output.request

@[simp] theorem executed_append (new log : List ServerEvent) :
    executed (new ++ log) = executed log ++ executed new := by
  rw [executed, observe_append, List.filterMap_append]
  rfl

@[simp] theorem executed_cons (e : ServerEvent) (log : List ServerEvent) :
    executed (e :: log) = executed log ++ (e.output.bind Output.request).toList := by
  rw [executed, observe_cons, List.filterMap_append]
  cases e.output with
  | none => rfl
  | some out => cases out <;> rfl

@[simp] theorem executed_nil : executed [] = [] := rfl

theorem executed_eq_nil {log : List ServerEvent} (h : observe log = []) : executed log = [] := by
  rw [executed, h, List.filterMap_nil]

/-- The bytes that the events of a transcript carry, in the order of time. -/
def gather (f : ServerEvent → List UInt8) (log : List ServerEvent) : List UInt8 :=
  (log.reverse.map f).flatten

@[simp] theorem gather_nil (f : ServerEvent → List UInt8) : gather f [] = [] := rfl

@[simp] theorem gather_append (f : ServerEvent → List UInt8) (new log : List ServerEvent) :
    gather f (new ++ log) = gather f log ++ gather f new := by
  simp only [gather, List.reverse_append, List.map_append, List.flatten_append]

@[simp] theorem gather_cons (f : ServerEvent → List UInt8) (e : ServerEvent)
    (log : List ServerEvent) : gather f (e :: log) = gather f log ++ f e := by
  simp only [gather, List.reverse_cons, List.map_append, List.flatten_append, List.map_cons,
    List.map_nil, List.flatten_cons, List.flatten_nil, List.append_nil]

theorem gather_eq_nil {f : ServerEvent → List UInt8} {log : List ServerEvent}
    (h : ∀ e ∈ log, f e = []) : gather f log = [] := by
  rw [gather, List.flatten_eq_nil_iff]
  intro bs hbs
  obtain ⟨e, he, rfl⟩ := List.mem_map.mp hbs
  exact h e (List.mem_reverse.mp he)

/-! ### Events that show nothing -/

section Quiet

variable {ctx : ClientContext}

theorem observe_allocEvents : observe (allocEvents ctx) = [] :=
  observe_eq_nil fun e he => by
    rw [eq_malloc_of_mem_allocEvents he]
    rfl

theorem executed_allocEvents : executed (allocEvents ctx) = [] :=
  executed_eq_nil observe_allocEvents

theorem executed_storeEvents : executed (storeEvents ctx) = [] := by
  simp [storeEvents, executed_allocEvents, ServerEvent.output, Output.request]

theorem observe_replies {new : List ServerEvent}
    (h : ∀ e ∈ new, (∃ size granted, e = .malloc size granted) ∨
      ∃ index size, e = .replyStore index size) : observe new = [] := by
  refine observe_eq_nil fun e he => ?_
  obtain ⟨size, granted, rfl⟩ | ⟨index, size, rfl⟩ := h e he
  · rfl
  · rfl

end Quiet

/-! ### States of the connection and of the reader -/

/-- An array of `n` elements in which `l` has been stored as far as there is room. -/
def padTo {α : Type} (n : ℕ) (d : α) (l : List α) : List α := (l ++ List.replicate n d).take n

@[simp] theorem length_padTo {α : Type} (n : ℕ) (d : α) (l : List α) :
    (padTo n d l).length = n := by
  rw [padTo, List.length_take, List.length_append, List.length_replicate]
  omega

theorem padTo_nil {α : Type} (n : ℕ) (d : α) : padTo n d [] = List.replicate n d := by
  simp [padTo]

theorem padTo_of_length {α : Type} {n : ℕ} {l : List α} (h : l.length = n) (d : α) :
    padTo n d l = l :=
  List.take_left' h

theorem padTo_of_le {α : Type} {n : ℕ} {l : List α} (h : l.length ≤ n) (d : α) :
    padTo n d l = l ++ List.replicate (n - l.length) d := by
  rw [padTo, List.take_append, List.take_of_length_le h, List.take_replicate,
    min_eq_left (Nat.sub_le _ _)]

/-- A store at the next index; past the end it has no effect. -/
theorem set_padTo {α : Type} (n : ℕ) (d x : α) (l : List α) :
    (padTo n d l).set l.length x = padTo n d (l ++ [x]) := by
  obtain hlt | hge := Nat.lt_or_ge l.length n
  · obtain ⟨k, hk⟩ : ∃ k, n - l.length = k + 1 := Nat.exists_eq_add_one.mpr (by omega)
    have hk' : n - (l ++ [x]).length = k := by
      rw [List.length_append, List.length_singleton]
      omega
    rw [padTo_of_le hlt.le, padTo_of_le (by simp; omega), hk, hk', List.replicate_succ,
      List.set_append_right _ _ le_rfl, Nat.sub_self, List.set_cons_zero, List.append_assoc,
      List.singleton_append]
  · rw [List.set_eq_of_length_le (by simpa using hge), padTo, padTo,
      List.append_assoc, List.take_append_of_le_length hge, List.take_append_of_le_length hge]

namespace ClientContext

variable {ctx : ClientContext}

/-- The arguments stored in the arrays for `total` of them. -/
structure Holds (ctx : ClientContext) (total : ℕ) (args : List (List UInt8)) : Prop where
  count : ctx.argsTotal = total
  bound : total ≤ MAX_ARGS
  parsed : ctx.argsParsed = args.length
  argv : args ≠ [] → ctx.tempArgv = padTo total [] (args.map terminated)
  lengths : args ≠ [] → ctx.tempArgLengths = padTo total 0 (args.map List.length)

/-- The parser is in a mode of the reader. -/
def InMode (ctx : ClientContext) : Mode → Prop
  | .header => ctx.state = .expectType
  | .bulk total args => ctx.state = .expectLength ∧ ctx.Holds total args
  | .data total args len =>
    ctx.state = .expectData ∧ ctx.dataToRead = len ∧ ctx.Holds total args

/-- An open connection represents a reader and the bytes in front of it. -/
structure Represents (ctx : ClientContext) (s : Mode × ServerContext) (p : List UInt8) : Prop where
  fits : ctx.Fits
  opened : ctx.closing = false
  server : ctx.serverCtx = s.2
  mode : ctx.InMode s.1
  pending : ctx.pending = p

/-- A connection and a reader between two pieces of the stream: both are open, or both have
stopped, and then the bytes at hand are the first ones that were not used. -/
def At (ctx : ClientContext) (c : Tokenizer.Config UInt8 (Mode × ServerContext)) : Prop :=
  match c.mode with
  | some s => ctx.Represents s c.pending
  | none => ctx.closing = true ∧ ctx.Fits ∧ ∃ rest, c.pending = ctx.pending ++ rest

variable {s : Mode × ServerContext} {p : List UInt8} {n : ℕ}

theorem represents_fresh (server : ServerContext) :
    (fresh server).Represents (.header, server) [] :=
  ⟨fits_fresh server, rfl, rfl, rfl, rfl⟩

theorem Represents.length (h : ctx.Represents s p) : p.length = ctx.bufferUsed := by
  rw [← h.pending, h.fits.length_pending]

/-- What is held depends on the arguments of the connection only. -/
theorem Holds.of_arguments {ctx' : ClientContext} {total : ℕ} {args : List (List UInt8)}
    (h : ctx.Holds total args)
    (harguments : (ctx'.argsTotal, ctx'.argsParsed, ctx'.tempArgv, ctx'.tempArgLengths) =
      (ctx.argsTotal, ctx.argsParsed, ctx.tempArgv, ctx.tempArgLengths)) :
    ctx'.Holds total args := by
  simp only [Prod.mk.injEq] at harguments
  obtain ⟨hcount, hparsed, hargv, hlengths⟩ := harguments
  exact ⟨hcount.trans h.count, h.bound, hparsed.trans h.parsed, fun hne => hargv.trans (h.argv hne),
    fun hne => hlengths.trans (h.lengths hne)⟩

/-- After an array header that has been accepted no argument is held. -/
theorem inMode_counted (ctx : ClientContext) {n : ℕ} (h : n ≤ MAX_ARGS) : ClientContext.InMode
    { ctx with argsTotal := n, argsParsed := 0, state := .expectLength } (.bulk n []) :=
  ⟨rfl, rfl, h, rfl, fun hne => absurd rfl hne, fun hne => absurd rfl hne⟩

/-- After a bulk header that has been accepted its argument is in front. -/
theorem InMode.announced {total : ℕ} {args : List (List UInt8)} (h : ctx.InMode (.bulk total args))
    (n : ℕ) : ClientContext.InMode { ctx with dataToRead := n, state := .expectData }
      (.data total args n) :=
  ⟨rfl, rfl, h.2.of_arguments rfl⟩

/-- The mode depends neither on the buffer nor on whether the connection is closed. -/
theorem InMode.of_buffer {mode : Mode} {buffer : List UInt8} {closing : Bool}
    (h : ctx.InMode mode) : ClientContext.InMode
      { ctx with buffer := buffer, bufferUsed := n, closing := closing } mode := by
  cases mode with
  | header => exact h
  | bulk => exact ⟨h.1, h.2.of_arguments rfl⟩
  | data => exact ⟨h.1, h.2.1, h.2.2.of_arguments rfl⟩

/-- Bytes are consumed by the connection and by the reader. -/
theorem Represents.shift (h : ctx.Represents s p) (hn : n ≤ p.length) :
    (ctx.shift n).Represents s (p.drop n) := by
  rw [h.length] at hn
  refine ⟨h.fits.shift hn, h.opened, h.server, h.mode.of_buffer, ?_⟩
  rw [h.fits.pending_shift hn, h.pending]

/-- The arrays once they are allocated. -/
theorem Holds.withArguments {total : ℕ} {args : List (List UInt8)} (h : ctx.Holds total args) :
    ctx.withArguments.tempArgv = padTo total [] (args.map terminated) ∧
      ctx.withArguments.tempArgLengths = padTo total 0 (args.map List.length) := by
  have hparsed := h.parsed
  by_cases hargs : args = []
  · subst hargs
    rw [List.length_nil] at hparsed
    simp [ClientContext.withArguments, hparsed, h.count, padTo_nil]
  · have h0 : ctx.argsParsed ≠ 0 := by
      rw [hparsed]
      exact fun h0 => hargs (List.length_eq_zero_iff.mp h0)
    simp [ClientContext.withArguments, h0, h.argv hargs, h.lengths hargs]

/-- **An argument that is stored** follows those stored before. -/
theorem Holds.stored {total len : ℕ} {args : List (List UInt8)} (h : ctx.Holds total args)
    (hlen : ctx.dataToRead = len) (hfits : ctx.Fits) (hused : len + 2 ≤ ctx.bufferUsed) :
    ctx.withArguments.stored.Holds total (args ++ [ctx.pending.take len]) := by
  obtain ⟨hargv, hlengths⟩ := h.withArguments
  have hdata : ctx.buffer.take ctx.dataToRead = ctx.pending.take len := by
    rw [hlen, take_buffer (by omega)]
  have hsize : (ctx.pending.take len).length = len := by
    rw [List.length_take, hfits.length_pending]
    omega
  refine ⟨h.count, h.bound, ?_, fun _ => ?_, fun _ => ?_⟩
  · rw [List.length_append, ← h.parsed]
    rfl
  · rw [List.map_append, List.map_singleton, ← set_padTo, ← hargv, List.length_map, ← h.parsed,
      ← hdata]
    rfl
  · rw [List.map_append, List.map_singleton, ← set_padTo, ← hlengths, List.length_map, ← h.parsed,
      hsize, ← hlen]
    rfl

/-- The command is executed with the arguments stored. -/
theorem Holds.command {args : List (List UInt8)} (h : ctx.Holds args.length args)
    (hargs : args ≠ []) : ctx.command = toRequest args := by
  have hargv := h.argv hargs
  have hlengths := h.lengths hargs
  rw [padTo_of_length (List.length_map _)] at hargv hlengths
  rw [ClientContext.command, ClientContext.request, toRequest, hargv, hlengths, h.count]
  obtain _ | ⟨arg, _ | ⟨arg', args⟩⟩ := args
  · exact absurd rfl hargs
  · rfl
  · have hpos : (0 : ℤ) < ((arg :: arg' :: args).length - 1 : ℕ) := by simp
    rw [if_pos hpos, if_pos hpos]

/-- The command that is executed once the last argument has been stored. -/
theorem Holds.command_stored {total len : ℕ} {args : List (List UInt8)} (h : ctx.Holds total args)
    (hlen : ctx.dataToRead = len) (hfits : ctx.Fits) (hused : len + 2 ≤ ctx.bufferUsed)
    (hlast : ctx.argsParsed + 1 = ctx.argsTotal) :
    (args ++ [ctx.pending.take len]).length = total ∧
      ctx.withArguments.stored.command = toRequest (args ++ [ctx.pending.take len]) := by
  have hargs : (args ++ [ctx.pending.take len]).length = total := by
    rw [List.length_append, List.length_singleton, ← h.parsed, hlast, h.count]
  have hstored := h.stored hlen hfits hused
  rw [← hargs] at hstored
  exact ⟨hargs, hstored.command (by simp)⟩

end ClientContext

/-! ### One iteration -/

/-- What an iteration shows is what the reader makes of the bytes at hand, and where it leaves the
connection the reader goes on. -/
def Matches (tables : Env (Event DataEntry)) (s : Mode × ServerContext) (p : List UInt8)
    (r : ForInStep ClientContext) (new : List ServerEvent) : Prop :=
  match r with
  | .yield ctx' => ∃ s' p', ctx'.Represents s' p' ∧
    (reader tables).drain s p = Tokenizer.before (observe new) ((reader tables).drain s' p')
  | .done ctx' => ∃ c, ctx'.At c ∧ (reader tables).drain s p = (observe new, c)

section Iteration

variable {tables : Env (Event DataEntry)} {env : ServerEnv} {ctx : ClientContext}
  {s : Mode × ServerContext} {p : List UInt8}

private theorem matches_wait (h : ctx.Represents s p)
    (hv : (reader tables).verdict s p = .wait) : Matches tables s p (.done ctx) [] :=
  ⟨⟨some s, p⟩, h, Tokenizer.drain_wait hv⟩

private theorem matches_stop {ctx' : ClientContext} {new : List ServerEvent} {n : ℕ}
    {out : List Output} (hclosing : ctx'.closing = true) (hfits : ctx'.Fits)
    (hpending : ctx'.pending = p.drop n)
    (hout : observe new = out) (hv : (reader tables).verdict s p = .stop n out) :
    Matches tables s p (.done ctx') new := by
  refine ⟨⟨none, p.drop n⟩, ⟨hclosing, hfits, [], ?_⟩, ?_⟩
  · rw [hpending, List.append_nil]
  · rw [hout, Tokenizer.drain_stop hv]

private theorem matches_consume {ctx' : ClientContext} {new : List ServerEvent} {n : ℕ}
    {out : List Output} {s' : Mode × ServerContext} (h : ctx'.Represents s' (p.drop n))
    (hout : observe new = out) (hv : (reader tables).verdict s p = .consume n out s') :
    Matches tables s p (.yield ctx') new :=
  ⟨s', p.drop n, h, by rw [hout, Tokenizer.drain_consume hv]⟩

/-- An iteration in front of a header that is not blank. -/
private theorem HeaderRead.refines {marker : UInt8} {least greatest : ℤ}
    {next : ℕ → ClientContext} {next' : ℕ → Mode × ServerContext} {r : ForInStep ClientContext}
    {new : List ServerEvent} (hread : HeaderRead ctx marker least greatest next r new)
    (h : ctx.Represents s p)
    (hverdict : (reader tables).verdict s p = headerVerdict marker least greatest next' p)
    (hnext : ∀ n : ℕ, least ≤ n → n ≤ greatest → (next n).Represents (next' n) p)
    (hblank : .blankHeader ∉ ((reader tables).drain s p).1) : Matches tables s p r new := by
  have hline {line rest : List UInt8}
      (hpending : ctx.pending = marker :: (line ++ 13 :: 10 :: rest)) (hcr : 13 ∉ line) :
      ¬Blank line ∧ (reader tables).verdict s p =
        if least ≤ strtol line ∧ strtol line ≤ greatest then
          .consume (line.length + 3) [] (next' (strtol line).toNat)
        else .stop 0 [.close] := by
    rw [← h.pending, hpending, headerVerdict_line hcr, ← hpending, h.pending] at hverdict
    by_cases hb : Blank line
    · rw [if_pos hb] at hverdict
      rw [Tokenizer.drain_stop hverdict] at hblank
      exact absurd (List.mem_singleton_self _) hblank
    · exact ⟨hb, by rwa [if_neg hb] at hverdict⟩
  cases hread with
  | starved hpending =>
    refine matches_wait h ?_
    rw [hverdict, ← h.pending, hpending]
    rfl
  | unmarked hpending hc =>
    refine matches_stop (n := 0) rfl h.fits h.pending rfl ?_
    rw [hverdict, ← h.pending, hpending, headerVerdict_unmarked hc]
    rfl
  | unended hpending hopen =>
    refine matches_wait h ?_
    rw [hverdict, ← h.pending, hpending, headerVerdict_open hopen]
  | refused hpending hcr hn =>
    obtain ⟨hb, hv⟩ := hline hpending hcr
    rw [strtol_header hb] at hn
    rw [if_neg hn] at hv
    exact matches_stop (n := 0) rfl h.fits h.pending rfl hv
  | @accepted line rest stale n hpending hcr hn hleast hgreatest =>
    obtain ⟨hb, hv⟩ := hline hpending hcr
    rw [strtol_header hb] at hn
    rw [hn, if_pos ⟨hleast, hgreatest⟩, Int.toNat_natCast] at hv
    refine matches_consume ((hnext n hleast hgreatest).shift ?_) rfl hv
    rw [← h.pending, hpending]
    simp only [List.length_cons, List.length_append]
    omega

/-- The events of the storage of an argument show whether there was room for it. -/
private theorem observe_storeEvents {total : ℕ} {args : List (List UInt8)}
    (h : ctx.Holds total args) :
    observe (storeEvents ctx) = if args.length < total then [] else [.stray] := by
  have hargv := h.withArguments.1
  simp only [storeEvents, observe_append, observe_allocEvents, List.nil_append, observe_cons,
    observe_nil, ServerEvent.output, hargv, length_padTo, h.parsed]
  split <;> rfl

/-- The connection after the argument in front has been stored. -/
private theorem stored_represents {server : ServerContext} {total len : ℕ}
    {args : List (List UInt8)} (h : ctx.Represents (.data total args len, server) p)
    (hused : ctx.dataToRead + 2 ≤ ctx.bufferUsed) :
    ctx.withArguments.stored.Holds total (args ++ [p.take len]) ∧
      ctx.withArguments.stored.Fits ∧ ctx.withArguments.stored.pending = p.drop (len + 2) := by
  obtain ⟨-, hlen, hholds⟩ := h.mode
  have hholds' := hholds.stored hlen h.fits (hlen ▸ hused)
  rw [h.pending] at hholds'
  refine ⟨hholds', ClientContext.Fits.shift (n := ctx.dataToRead + 2) h.fits hused, ?_⟩
  rw [← hlen, ← h.pending]
  exact ClientContext.Fits.pending_shift (n := ctx.dataToRead + 2) h.fits hused

/-- An iteration in front of the data of an argument. -/
private theorem DataRead.refines {r : ForInStep ClientContext} {new : List ServerEvent}
    (hread : DataRead tables env ctx r new) (hgrants : env.Grants) {server : ServerContext}
    {total len : ℕ} {args : List (List UInt8)}
    (h : ctx.Represents (.data total args len, server) p) :
    Matches tables (.data total args len, server) p r new := by
  obtain ⟨-, hlen, hholds⟩ := h.mode
  have hdenied {log : List ServerEvent} {size : ℕ} (hfalse : env.alloc log size = false) : False :=
    Bool.false_ne_true (hfalse.symm.trans (hgrants log size))
  have hlong (hused : ctx.dataToRead + 2 ≤ ctx.bufferUsed) : len + 2 ≤ p.length := by
    rw [h.length, ← hlen]
    exact hused
  cases hread with
  | starved hused =>
    refine matches_wait h ?_
    exact reader_verdict_short (by rw [h.length, ← hlen]; exact hused)
  | unallocated _ _ hfalse => exact (hdenied hfalse).elim
  | unstored _ hfalse => exact (hdenied hfalse).elim
  | stored hused hne =>
    obtain ⟨hholds', hfits, hpending⟩ := stored_represents h hused
    rw [hholds.parsed, hholds.count] at hne
    have hv : (reader tables).verdict (.data total args len, server) p = _ :=
      dataVerdict_more (hlong hused) hne
    refine matches_consume ?_ (observe_storeEvents hholds) hv
    exact ⟨hfits, h.opened, h.server, ⟨rfl, hholds'.of_arguments rfl⟩, hpending⟩
  | completed hused hlast hdispatched =>
    obtain ⟨hholds', hfits, hpending⟩ := stored_represents h hused
    have heq : args.length + 1 = total := by rw [← hholds.parsed, hlast, hholds.count]
    have hv : (reader tables).verdict (.data total args len, server) p = _ :=
      dataVerdict_last (hlong hused) heq
    have hcommand : ctx.withArguments.stored.command = toRequest (args ++ [p.take len]) :=
      h.pending ▸ (hholds.command_stored hlen h.fits (hlen ▸ hused) hlast).2
    have hexecuted : ctx.withArguments.stored.executed tables =
        server.execute tables (toRequest (args ++ [p.take len])) := by
      rw [ClientContext.executed, hcommand, show ctx.withArguments.stored.serverCtx = server from
        h.server]
    have hroom : observe (storeEvents ctx) = [] := by
      rw [observe_storeEvents hholds, if_pos (by omega)]
    cases hdispatched with
    | overflow hover =>
      have hbound : total ≤ 1024 := hholds.bound
      have hfits : (sizetToInt (ctx.withArguments.stored.argsTotal - 1)).2 = false := by
        rw [hholds'.count, sizetToInt, if_neg (by omega)]
      exact absurd (hover.symm.trans hfits) (by decide)
    | answered hanswers =>
      have hanswers' : server.Answers tables (toRequest (args ++ [p.take len])) := by
        rwa [hexecuted] at hanswers
      rw [if_pos hanswers'] at hv
      refine matches_consume ⟨hfits, h.opened, congrArg Prod.snd hexecuted, ?_, hpending⟩ ?_ hv
      · exact ⟨h.mode.1, hlen, hholds'.of_arguments rfl⟩
      · simp [hroom, ServerEvent.output, hcommand]
    | unanswered hrefused hnew =>
      have hanswers' : ¬server.Answers tables (toRequest (args ++ [p.take len])) := by
        intro hanswers'
        rw [hexecuted] at hrefused
        obtain ⟨log, size, hfalse⟩ | htrue := hrefused
        · exact hdenied hfalse
        · exact absurd (htrue.symm.trans hanswers') (by decide)
      rw [if_neg hanswers'] at hv
      refine matches_stop rfl hfits hpending ?_ hv
      have hquiet : observe _ = [] := observe_replies hnew
      simp [hroom, ServerEvent.output, hcommand, hquiet]

/-- The white space in front of an array header is consumed. -/
private theorem trimmed_represents (tables : Env (Event DataEntry)) {server : ServerContext}
    (h : ctx.Represents (.header, server) p) :
    ∃ p', ctx.trimmed.Represents (.header, server) p' ∧
      (reader tables).drain (.header, server) p = (reader tables).drain (.header, server) p' ∧
      p'.head? ≠ some 13 ∧ p'.head? ≠ some 10 := by
  set newline : UInt8 → Bool := fun c => c = 13 ∨ c = 10 with hnewline
  have hlen : leadingWhitespace ctx = (p.takeWhile newline).length := by
    rw [leadingWhitespace, h.pending]
  have hdrop : p.drop (leadingWhitespace ctx) = p.dropWhile newline := by
    rw [hlen]
    nth_rewrite 2 [← List.takeWhile_append_dropWhile (p := newline) (l := p)]
    exact List.drop_left
  have hhead {c : UInt8} (hc : newline c = true) : (p.dropWhile newline).head? ≠ some c := by
    intro hsome
    have hnot := List.head?_dropWhile_not newline p
    rw [hsome] at hnot
    exact absurd hc (by simpa using hnot)
  refine ⟨p.dropWhile newline, ?_, ?_, hhead (by simp [hnewline]), hhead (by simp [hnewline])⟩
  · rw [← hdrop]
    exact h.shift (hlen.trans_le (List.takeWhile_sublist _).length_le)
  · nth_rewrite 1 [← List.takeWhile_append_dropWhile (p := newline) (l := p)]
    exact reader_drain_newlines (fun c hc => by
      simpa [hnewline] using List.mem_takeWhile_imp hc) _

/-- **An iteration is matched by the reader**, when memory is granted and the reader meets no blank
header line. -/
theorem parseStep_refines (hgrants : env.Grants) (h : ctx.Represents s p)
    (log : List ServerEvent) (hblank : .blankHeader ∉ ((reader tables).drain s p).1) :
    (parseStep tables env ctx).Ensures log (Matches tables s p) := by
  obtain ⟨mode, server⟩ := s
  have hmode := h.mode
  cases mode with
  | header =>
    refine parseStep_cases tables env log (fun _ => ?_) (fun hstate => ?_) fun hstate => ?_
    · obtain ⟨p', hp', hdrain, h13, h10⟩ := trimmed_represents tables h
      rw [hdrain] at hblank
      refine (expectType_spec env log h.fits).mono ?_
      rintro r _ ⟨new, hread, rfl⟩
      have hmatch := hread.refines hp' (readerVerdict_header tables server h13 h10)
        (fun n _ hmax => ⟨hp'.fits, hp'.opened, hp'.server,
          ClientContext.inMode_counted _ (by exact_mod_cast hmax), hp'.pending⟩) hblank
      have htrim : observe (new ++ if 0 < leadingWhitespace ctx then
          [.consumed (ctx.buffer.take (leadingWhitespace ctx))] else []) = observe new := by
        split <;> simp [ServerEvent.output]
      cases r with
      | yield ctx' =>
        obtain ⟨s', q, hrep, hd⟩ := hmatch
        exact ⟨s', q, hrep, by rw [hdrain, htrim, hd]⟩
      | done ctx' =>
        obtain ⟨c, hat, hd⟩ := hmatch
        exact ⟨c, hat, by rw [hdrain, htrim, hd]⟩
    · exact nomatch hstate.symm.trans hmode
    · exact nomatch hstate.symm.trans hmode
  | bulk total args =>
    refine parseStep_cases tables env log (fun hstate => ?_) (fun _ => ?_) fun hstate => ?_
    · exact nomatch hstate.symm.trans hmode.1
    · exact (expectLength_spec env log h.fits).mono fun r new hread =>
        hread.refines h (readerVerdict_bulk tables server total args p)
          (fun n _ _ => ⟨h.fits, h.opened, h.server, hmode.announced n, h.pending⟩) hblank
    · exact nomatch hstate.symm.trans hmode.1
  | data total args len =>
    refine parseStep_cases tables env log (fun hstate => ?_) (fun hstate => ?_) fun _ => ?_
    · exact nomatch hstate.symm.trans hmode.1
    · exact nomatch hstate.symm.trans hmode.1
    · exact (expectData_spec tables env ctx log).mono fun r new hread => hread.refines hgrants h

end Iteration

/-! ### Reads and runs -/

section Runs

variable {tables : Env (Event DataEntry)} {env : ServerEnv} {ctx : ClientContext}

/-- **The loop is matched by the reader.** -/
theorem parseBuffer_refines (hgrants : env.Grants) {s : Mode × ServerContext} {p : List UInt8}
    (h : ctx.Represents s p) (log : List ServerEvent)
    (hblank : .blankHeader ∉ ((reader tables).drain s p).1) :
    (parseBuffer tables env ctx).Ensures log fun ctx' new =>
      ctx'.At ((reader tables).drain s p).2 ∧ observe new = ((reader tables).drain s p).1 := by
  induction hused : ctx.bufferUsed using Nat.strongRecOn generalizing ctx s p log with
  | ind n ih =>
    have hmatch := parseStep_refines hgrants h log hblank
    have hprogress := (parseStep_progress tables env log h.fits).2
    unfold Traced.Ensures at hmatch ⊢
    cases hstep : ((parseStep tables env ctx).run log).1 with
    | done ctx' =>
      rw [hstep] at hmatch
      obtain ⟨c, hat, hdrain⟩ := hmatch
      rw [run_parseBuffer_done tables env log hstep, hdrain]
      exact ⟨hat, rfl⟩
    | yield ctx' =>
      rw [hstep] at hmatch
      obtain ⟨s', p', hrep, hdrain⟩ := hmatch
      rw [hdrain] at hblank ⊢
      have hlt := hprogress ctx' hstep
      obtain ⟨hat, hobserve⟩ := ih ctx'.bufferUsed (by omega) hrep
        (((parseStep tables env ctx).run log).2 ++ log)
        (fun hmem => hblank (List.mem_append_right _ hmem)) rfl
      rw [run_parseBuffer_yield tables env log h.fits hstep]
      refine ⟨hat, ?_⟩
      rw [observe_append, hobserve]
      rfl

/-- **A read is the arrival of a piece of the stream.** -/
theorem receive_refines (hgrants : env.Grants)
    {c : Tokenizer.Config UInt8 (Mode × ServerContext)} (h : ctx.At c)
    (hsettled : (reader tables).Settled c) (data : List UInt8) (log : List ServerEvent)
    (hblank : .blankHeader ∉ ((reader tables).feed c data).1) :
    (receive tables env ctx data).Ensures log fun ctx' new =>
      ctx'.At ((reader tables).feed c data).2 ∧ observe new = ((reader tables).feed c data).1 := by
  obtain ⟨_ | s, p⟩ := c
  · obtain ⟨hclosing, hfits, rest, hrest⟩ := h
    rw [receive_closing tables env hclosing]
    refine ⟨⟨hclosing, hfits, rest ++ data, ?_⟩, rfl⟩
    show p ++ data = ctx.pending ++ (rest ++ data)
    rw [← List.append_assoc, show p = ctx.pending ++ rest from hrest]
  · have hrep : ctx.Represents s p := h
    by_cases hdata : data = []
    · rw [hdata, receive_nil, hsettled.feed_nil]
      exact ⟨h, rfl⟩
    rw [receive_eq tables env hrep.opened hdata, Traced.ensures_bind, Traced.ensures_emit]
    refine (appendToBuffer_spec env hrep.fits data _).bind ?_
    intro ctx' new happended
    cases happended with
    | denied hfalse => exact absurd (hfalse.symm.trans (hgrants _ _)) (by decide)
    | appended hfits hpending hnew =>
      have hquiet : observe new = [] := by
        obtain rfl | ⟨size, rfl⟩ := hnew <;> rfl
      have happended : ClientContext.Represents
          { ctx with buffer := _, bufferUsed := ctx.bufferUsed + data.length } s (p ++ data) :=
        ⟨hfits, hrep.opened, hrep.server, hrep.mode.of_buffer,
          hpending.trans (by rw [hrep.pending])⟩
      refine (parseBuffer_refines hgrants happended _ hblank).mono fun ctx' new' h' => ?_
      rw [observe_append, observe_append, hquiet]
      exact h'

/-- **A connection refines the reader.** When memory is granted and the reader meets no blank header
line in the stream, a connection shows what the reader makes of the stream, in whatever reads it
arrives, and is left where the reader is. -/
theorem connection_refines (hgrants : env.Grants) (server : ServerContext)
    (reads : List (List UInt8))
    (hblank : .blankHeader ∉ ((reader tables).drain (.header, server) reads.flatten).1) :
    (connection tables env server reads).Ensures [] fun ctx new =>
      ctx.At ((reader tables).drain (.header, server) reads.flatten).2 ∧
        observe new = ((reader tables).drain (.header, server) reads.flatten).1 := by
  have hreads (reads : List (List UInt8)) : ∀ (ctx : ClientContext) (log : List ServerEvent)
      (c : Tokenizer.Config UInt8 (Mode × ServerContext)), ctx.At c → (reader tables).Settled c →
      .blankHeader ∉ ((reader tables).feedAll c reads).1 →
      (Traced.runAll (receive tables env) ctx reads).Ensures log fun ctx' new =>
        ctx'.At ((reader tables).feedAll c reads).2 ∧
          observe new = ((reader tables).feedAll c reads).1 := by
    induction reads with
    | nil => exact fun ctx log c hat _ _ => ⟨hat, rfl⟩
    | cons data reads ih =>
      intro ctx log c hat hsettled hblank
      refine (receive_refines hgrants hat hsettled data log
        fun hmem => hblank (List.mem_append_left _ hmem)).bind ?_
      rintro ctx' new ⟨hat', hobserve⟩
      refine (ih ctx' (new ++ log) _ hat' ((reader tables).feed_settled c data)
        fun hmem => hblank (List.mem_append_right _ hmem)).mono ?_
      rintro ctx'' new' ⟨hat'', hobserve'⟩
      exact ⟨hat'', by rw [observe_append, hobserve, hobserve']; rfl⟩
  have hfeed := (reader tables).feedAll_eq (s := (.header, server)) reader_verdict_nil reads
  rw [← hfeed] at hblank ⊢
  refine hreads reads _ [] _ (ClientContext.represents_fresh server) ?_ hblank
  rintro s ⟨⟩
  exact reader_verdict_nil

/-- A connection, from what the reader makes of its stream. -/
theorem connection_of_drain (hgrants : env.Grants) {server : ServerContext}
    {reads : List (List UInt8)} {out : List Output}
    {c : Tokenizer.Config UInt8 (Mode × ServerContext)}
    (hdrain : (reader tables).drain (.header, server) reads.flatten = (out, c))
    (hblank : .blankHeader ∉ out) :
    (connection tables env server reads).Ensures [] fun ctx new =>
      ctx.At c ∧ observe new = out := by
  rw [← show ((reader tables).drain (.header, server) reads.flatten).1 = out by rw [hdrain]]
    at hblank ⊢
  rw [← show ((reader tables).drain (.header, server) reads.flatten).2 = c by rw [hdrain]]
  exact connection_refines hgrants server reads hblank

end Runs

end SimpleCDatabase
