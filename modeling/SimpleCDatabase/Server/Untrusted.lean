import SimpleCDatabase.Server.Grammar
import SimpleCDatabase.Server.Service

/-!
# Clients that are not trusted

The bytes of a client are its own affair: they need not be a command, and need not be decimal
numbers where numbers are expected. Whatever all clients send, what the server has executed is a
list of lines, one at most of each client, and the bytes of a client begin with what the parser
takes for its line. With memory and locks granted to the table, the machine on these lines explains
everything that is seen of the database: each client is sent nothing, or the answer of the machine
at the place of its line.

## Main definitions

* `Spoken`: the lines that a run has executed.

## Main results

* `uvRun_spoken`: what is executed is what the clients have sent.
* `uvRun_machine`: the machine explains every run.

## References

* `src/server.c`, `parse_buffer`; `src/command.c`, `execute_command`.
-/

namespace SimpleCDatabase

open CString Traced

/-! ### Lines that are read -/

/-- What the parser reads as a command is within its limits. -/
theorem ArgumentBytes.bounded {Number : List UInt8 → ℕ → Prop} {Ending : List UInt8 → Prop}
    {args : List (List UInt8)} {bs : List UInt8} (h : ArgumentBytes Number Ending args bs) :
    ∀ arg ∈ args, arg.length ≤ MAX_BULK_LENGTH := by
  induction h with
  | nil => exact fun arg harg => absurd harg List.not_mem_nil
  | cons _ hlen _ _ ih => exact List.forall_mem_cons.mpr ⟨hlen, ih⟩

theorem CommandBytes.encodable {Number : List UInt8 → ℕ → Prop} {Ending : List UInt8 → Prop}
    {args : List (List UInt8)} {bs : List UInt8}
    (h : CommandBytes Number Ending args.length args bs) : Encodable args := by
  cases h with
  | intro hjunk hnumber hpos hmax hargs =>
    exact ⟨List.length_pos_iff.mp hpos, hmax, hargs.bounded⟩

/-- A command that a stream spells: the stream begins with bytes that the parser reads as it. -/
def Spelled (stream : List UInt8) (line : List (List UInt8)) : Prop :=
  ∃ bs, ReadBytes line.length line bs ∧ bs <+: stream

theorem Spelled.encodable {stream : List UInt8} {line : List (List UInt8)}
    (h : Spelled stream line) : Encodable line := by
  obtain ⟨bs, hbytes, -⟩ := h
  exact hbytes.encodable

/-- The first command is the only one of a connection that has executed one. -/
private theorem executed_of_firstExecution {log : List ServerEvent} {request : Request}
    {before : List ServerEvent} (h : firstExecution log = some (request, before))
    (hone : (executed log).length ≤ 1) : executed log = [request] := by
  have hmem : request ∈ executed log := by
    induction log with
    | nil => cases h
    | cons e log ih =>
      rw [executed_cons, List.mem_append, Option.mem_toList]
      rw [executed_cons, List.length_append] at hone
      rw [firstExecution, Option.or_eq_some_iff] at h
      obtain hlater | ⟨-, hnow⟩ := h
      · exact .inl (ih hlater (by omega))
      · obtain ⟨request', hrequest, heq⟩ := Option.map_eq_some_iff.mp hnow
        exact .inr (hrequest.trans (congrArg some (Prod.mk.inj heq).1))
  obtain ⟨r, hr⟩ : ∃ r, executed log = [r] := List.length_eq_one_iff.mp (by
    have := List.length_pos_of_mem hmem
    omega)
  rw [hr, List.mem_singleton] at hmem
  rw [hr, hmem]

/-! ### Connections -/

section Connections

variable {tables : Env (Event DataEntry)} {env : ServerEnv} {stream : List UInt8}
  {ctx : ClientContext} {log : List ServerEvent}

/-- The database of a connection is of no account to what it has read. -/
private theorem Between.withServer (h : Between stream ctx log) (server : ServerContext) :
    Between stream { ctx with serverCtx := server } log := by
  refine ⟨h.1, fun hopen => ⟨h.1, (h.2.1 hopen).2.imp_right ?_⟩, h.2.2⟩
  rintro ⟨mode, hspelling⟩
  refine ⟨mode, hspelling.fits, hspelling.first, hspelling.whole, ?_, hspelling.spells⟩
  have hmode := hspelling.inMode
  cases mode with
  | header => exact hmode
  | bulk total args => exact ⟨hmode.1, hmode.2.of_arguments rfl⟩
  | data total args len => exact ⟨hmode.1, hmode.2.1, hmode.2.2.of_arguments rfl⟩

/-- **What an arrival reads.** -/
theorem arrive_spells (h : Between stream ctx log) (arrival : Arrival) :
    (ctx.arrive tables env arrival).Ensures log fun ctx' new =>
      Between (stream ++ arrival.bytes) ctx' (new ++ log) := by
  have hkept : Between (stream ++ []) ctx ([] ++ log) := (List.append_nil stream).symm ▸ h
  have hclosed (new : List ServerEvent) (hnew : executed new = []) :
      Between (stream ++ []) { ctx with closing := true } (new ++ log) := by
    rw [List.append_nil]
    refine ⟨h.1, fun hopen => absurd hopen.symm Bool.false_ne_true, h.2.2.imp ?_ fun hdecoded => ?_⟩
    · rw [firstExecution_quiet hnew]
      exact id
    · have hmore := hdecoded.append [] new
      rwa [List.append_nil] at hmore
  cases arrival with
  | data bytes => exact receive_spells tables env h
  | ended status =>
    refine Traced.ensures_ite (fun _ => hkept) fun hopen => ?_
    rw [onRead, if_neg (not_or.mp hopen).2]
    refine Traced.ensures_ite (fun _ => ?_) fun _ => hkept
    have hleft := hclosed [.close, .timerStop] rfl
    exact hleft
  | expired =>
    refine Traced.ensures_ite (fun _ => hkept) fun _ => ?_
    have hleft := hclosed [.close] rfl
    exact hleft

end Connections

/-! ### What is executed -/

/-- The lines that a run has executed, with the clients that they came from. -/
structure Spoken (arrivals : List (ℕ × Arrival)) (log : List (ℕ × ServerEvent))
    (lines : List (ℕ × List (List UInt8))) : Prop where
  /-- They are what the server has executed, in its order. -/
  executed : commands log = lines.map fun l => (l.1, toRequest l.2)
  /-- There is one at most of each client. -/
  once : ∀ i, (own i lines).length ≤ 1
  /-- The bytes that a client has sent spell its line. -/
  spelled : ∀ l ∈ lines, Spelled ((own l.1 arrivals).flatMap Arrival.bytes) l.2

/-- The arguments of a command can be told from it. -/
theorem toRequest_inj {args args' : List (List UInt8)} (hargs : args ≠ []) (hargs' : args' ≠ [])
    (h : toRequest args = toRequest args') : args = args' := by
  obtain ⟨name, args, rfl⟩ := List.exists_cons_of_ne_nil hargs
  obtain ⟨name', args', rfl⟩ := List.exists_cons_of_ne_nil hargs'
  have hterminated : Function.Injective terminated := fun _ _ => List.append_cancel_right
  have hname : terminated name = terminated name' := congrArg Request.commandName h
  have hrest : args.map terminated = args'.map terminated := congrArg Request.argv h
  rw [hterminated hname, List.map_injective_iff.mpr hterminated hrest]

/-- The lines that have been executed can be told from the commands. -/
theorem Spoken.eq_of_commands {arrivals : List (ℕ × Arrival)} {log : List (ℕ × ServerEvent)}
    {lines lines' : List (ℕ × List (List UInt8))} (h : Spoken arrivals log lines)
    (hcommands : commands log = lines'.map fun l => (l.1, toRequest l.2))
    (hlines' : ∀ l ∈ lines', l.2 ≠ []) : lines = lines' := by
  have hlines : ∀ l ∈ lines, l.2 ≠ [] := fun l hl => (h.spelled l hl).encodable.ne_nil
  have heq := h.executed.symm.trans hcommands
  clear h hcommands
  induction lines generalizing lines' with
  | nil => exact (List.map_eq_nil_iff.mp heq.symm).symm
  | cons l lines ih =>
    obtain ⟨l', rest, rfl, hl, hrest⟩ := List.map_eq_cons_iff.mp heq.symm
    obtain ⟨hclient, hrequest⟩ := Prod.mk.inj hl
    rw [List.forall_mem_cons] at hlines hlines'
    rw [ih hlines'.2 hlines.2 hrest.symm]
    exact congrArg (· :: rest) (Prod.ext hclient.symm
      (toRequest_inj hlines.1 hlines'.1 hrequest.symm))

/-- Requests that are lines. -/
private theorem exists_lines {P : ℕ → List (List UInt8) → Prop} {cs : List (ℕ × Request)}
    (h : ∀ c ∈ cs, ∃ line, c.2 = toRequest line ∧ P c.1 line) :
    ∃ lines : List (ℕ × List (List UInt8)), cs = lines.map (fun l => (l.1, toRequest l.2)) ∧
      ∀ l ∈ lines, P l.1 l.2 := by
  induction cs with
  | nil => exact ⟨[], rfl, fun l hl => absurd hl List.not_mem_nil⟩
  | cons c cs ih =>
    obtain ⟨⟨line, hline, hP⟩, hrest⟩ := List.forall_mem_cons.mp h
    obtain ⟨lines, rfl, hlines⟩ := ih hrest
    refine ⟨(c.1, line) :: lines, ?_, List.forall_mem_cons.mpr ⟨hP, hlines⟩⟩
    rw [List.map_cons, ← hline]

/-- **What is executed is what the clients have sent**, whatever they send and whatever is
refused. -/
theorem uvRun_spoken (tables : Env (Event DataEntry)) (env : ℕ → ServerEnv) (server : ServerContext)
    (arrivals : List (ℕ × Arrival)) :
    ∃ lines, Spoken arrivals ((uvRun tables env server arrivals).run []).2 lines := by
  obtain ⟨-, honce⟩ := uvRun_replays tables env server arrivals
  have hbetween : (uvRun tables env server arrivals).Ensures [] fun r new => ∀ i,
      Between ((own i arrivals).flatMap Arrival.bytes) (r.2 i) (own i (new ++ [])) := by
    have hstart : Between ([] : List UInt8) (ClientContext.fresh server) [] :=
      have hspelling : Spelling [] .header (ClientContext.fresh server) [] :=
        ⟨ClientContext.fits_fresh server, rfl, rfl, rfl, by simp [Spells]⟩
      hspelling.reading.between
    refine interleave_inputs
      (fun _ earlier ctx log => Between (earlier.flatMap Arrival.bytes) ctx log)
      (fun i earlier a database ctx log h => ?_) arrivals fun _ => hstart
    rw [List.flatMap_append, List.flatMap_singleton]
    exact arrive_spells (h.withServer database) a
  simp only [Ensures, List.append_nil] at honce hbetween
  generalize (uvRun tables env server arrivals).run [] = r at honce hbetween
  have hspoken : ∀ c ∈ commands r.2, ∃ line, c.2 = toRequest line ∧
      Spelled ((own c.1 arrivals).flatMap Arrival.bytes) line := by
    rintro ⟨i, request⟩ hc
    have hmem : request ∈ executed (own i r.2) := own_commands i r.2 ▸ mem_own.mpr hc
    obtain hnone | ⟨args, before, hfirst, hbytes, hprefix⟩ := (hbetween i).2.2
    · rw [firstExecution_eq_none_iff.mp hnone] at hmem
      exact absurd hmem List.not_mem_nil
    · rw [executed_of_firstExecution hfirst (honce i).length_le, List.mem_singleton] at hmem
      exact ⟨args, hmem, _, hbytes, hprefix⟩
  obtain ⟨lines, hlines, hspelled⟩ :=
    exists_lines (P := fun i => Spelled ((own i arrivals).flatMap Arrival.bytes)) hspoken
  refine ⟨lines, hlines, fun i => ?_, hspelled⟩
  have hlength := (honce i).length_le
  rwa [← own_commands, hlines, own_map, List.length_map] at hlength

/-! ### The machine -/

section Machine

variable {tables : Env (Event DataEntry)} (henv : tables.Succeeds)

include henv

/-- Lines that are executed one after the other leave what the machine leaves. -/
theorem Serving.replay {locks : ℕ} {s : MapState} {server : ServerContext}
    (h : Serving locks s server) {lines : List (List (List UInt8))}
    (hlines : ∀ line ∈ lines, Encodable line) (hbreaks : s.Unbroken locks lines) :
    Serving locks (s.run locks lines).2 (server.replay tables (lines.map toRequest)) := by
  induction lines generalizing s server with
  | nil => exact h
  | cons line lines ih =>
    obtain ⟨hline, hrest⟩ := List.forall_mem_cons.mp hlines
    exact ih (h.execute henv hline hbreaks.1).2 hrest hbreaks.2

/-- **The machine explains every run** that touches nothing outside an array, whatever the clients
send, in whatever pieces and in whatever order. The server has executed lines, which the bytes of
the clients spell. As long as none of them does what no map does, the table represents what the
machine makes of them, and each client has been sent nothing, or the answer of the machine at the
place of its line. The line feed that is stored behind each reply is taken to change nothing. -/
theorem uvRun_machine (env : ℕ → ServerEnv) (server : ServerContext) (s : MapState)
    (hserving : Serving server.db.lockCount.toNat s server) (arrivals : List (ℕ × Arrival))
    (hregular : UvRunRegular tables env server arrivals) :
    let r := (uvRun tables env server arrivals).run []
    let locks := server.db.lockCount.toNat
    ((∀ e ∈ r.2, e.2.InBounds) ∧ LocksInside locks r.1.1.log) ∧
    ∃ lines, Spoken arrivals r.2 lines ∧ (s.Unbroken locks (lines.map Prod.snd) →
      Represents r.1.1.db (s.run locks (lines.map Prod.snd)).2 ∧
      ∀ i, sent (own i r.2) = [] ∨ ∃ before line after, lines = before ++ (i, line) :: after ∧
        sent (own i r.2) =
          ((s.run locks (before.map Prod.snd)).2.answer locks line).1.text ++ [13]) := by
  intro r locks
  obtain ⟨hstores, hinside⟩ := uvRun_inside hregular hserving.toInside
  refine ⟨⟨hstores, hinside.locksInside⟩, ?_⟩
  obtain ⟨lines, hspoken⟩ := uvRun_spoken tables env server arrivals
  refine ⟨lines, hspoken, fun hbreaks => ?_⟩
  obtain ⟨⟨hserial, hanswered⟩, -⟩ := uvRun_replays tables env server arrivals
  rw [List.append_nil] at hserial hanswered
  have hencodable : ∀ line ∈ lines.map Prod.snd, Encodable line := by
    intro line hline
    obtain ⟨l, hl, rfl⟩ := List.mem_map.mp hline
    exact (hspoken.spelled l hl).encodable
  have hrequests (ls : List (ℕ × List (List UInt8))) :
      (ls.map fun l => (l.1, toRequest l.2)).map Prod.snd = (ls.map Prod.snd).map toRequest := by
    simp only [List.map_map, Function.comp_def]
  constructor
  · rw [hspoken.executed, hrequests] at hserial
    have hend := (hserving.replay henv hencodable hbreaks).represents
    rwa [← hserial] at hend
  · intro i
    refine (hanswered i).imp_right ?_
    rintro ⟨before, request, after, memory, hcommands, hsent⟩
    rw [hspoken.executed] at hcommands
    obtain ⟨first, rest, rfl, rfl, hrest⟩ := List.map_eq_append_iff.mp hcommands
    obtain ⟨⟨j, line⟩, last, rfl, hj, rfl⟩ := List.map_eq_cons_iff.mp hrest
    obtain ⟨rfl, rfl⟩ := Prod.mk.inj hj
    refine ⟨first, line, last, rfl, ?_⟩
    rw [List.map_append, List.map_cons] at hbreaks hencodable
    obtain ⟨hbefore, hnext, -⟩ := Mealy.legal_append.mp hbreaks
    have hreached := hserving.replay henv
      (fun line hline => hencodable line (List.mem_append_left _ hline)) hbefore
    have hline : Encodable line :=
      hencodable line (List.mem_append_right _ List.mem_cons_self)
    rw [hsent, hrequests]
    exact (hreached.execute henv hline hnext).1.replyBytes_eq memory

end Machine

/-- A client that sends no command, one that sends a command with odd numbers and ends, and one that
asks for what the second one has stored. -/
def oddArrivals : List (ℕ × Arrival) :=
  [(0, .data (bytes "PING\r\n")), (1, .data (bytes "\r\n*3\r\n$ 3x\r\nSETxx$1\r\nk\r\n$+1")),
    (1, .data (bytes "\r\nv..")), (2, .data (bytes "*2\r\n$3\r\nGET\r\n$1\r\nk\r\n"))]

/-- The lines that they are taken for. -/
def oddLines : List (ℕ × List (List UInt8)) :=
  [(1, [bytes "SET", bytes "k", bytes "v"]), (2, [bytes "GET", bytes "k"])]

/-- The first client has executed nothing, and the third one is sent the value. -/
theorem uvRun_machine_odd :
    let r := (uvRun .granting (fun _ => .granting) ⟨.fresh 1, []⟩ oddArrivals).run []
    Spoken oddArrivals r.2 oddLines ∧
      Represents r.1.1.db ((⟨∅, 1⟩ : MapState).run 1 (oddLines.map Prod.snd)).2 ∧
      sent (own 2 r.2) = bytes "v" ++ [13] := by
  intro r
  have hserving : Serving 1 ⟨∅, 1⟩ ⟨.fresh 1, []⟩ :=
    ⟨⟨rfl, fun e he => absurd he List.not_mem_nil⟩, .fresh ⟨0, rfl⟩ (by decide), le_rfl,
      MapState.bounded_empty 1⟩
  obtain ⟨-, lines, hspoken, hmachine⟩ := uvRun_machine Env.granting_succeeds (fun _ => .granting)
    ⟨.fresh 1, []⟩ ⟨∅, 1⟩ hserving oddArrivals (by decide +kernel)
  obtain rfl : lines = oddLines := hspoken.eq_of_commands (by decide +kernel) (by decide)
  exact ⟨hspoken, (hmachine (by decide +kernel)).1, by decide +kernel⟩

end SimpleCDatabase
