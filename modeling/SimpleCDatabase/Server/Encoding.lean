import SimpleCDatabase.Hashtable.Lifecycle
import SimpleCDatabase.Server.Refinement

/-!
# Commands as they are sent

The client encodes a list of arguments as an array header and, for each argument, a bulk header,
the bytes of the argument and `\r\n`. A connection that is sent a command executes it once it has
arrived in full, and nothing before, wherever the reads cut it.

## Main definitions

* `formatRespCommand`: the encoding of a list of arguments.
* `Encodable`: the lists of arguments within the limits of the parser.

## Main results

* `reads_command`: the tokens of a command are read up to the data of its last argument.
* `connection_decodes`: decoding undoes encoding, in any reads.

## References

* `src/server.c`; `tools/scripts/SCDClient`, `format_resp_command`.
-/

namespace SimpleCDatabase

open CString

/-- A header line: its marker, a decimal number and `\r\n`. -/
def headerLine (marker : UInt8) (n : ℕ) : List UInt8 := marker :: (decimal n ++ [13, 10])

/-- The encoding of one argument. -/
def encodeArgument (arg : List UInt8) : List UInt8 :=
  headerLine 36 arg.length ++ (arg ++ [13, 10])

/-- Source: `SCDClient`, `format_resp_command`, for arguments of any bytes. -/
def formatRespCommand (args : List (List UInt8)) : List UInt8 :=
  headerLine 42 args.length ++ args.flatMap encodeArgument

/-- The arguments of a command that is within the limits of the parser. -/
structure Encodable (args : List (List UInt8)) : Prop where
  ne_nil : args ≠ []
  length : args.length ≤ MAX_ARGS
  bounded : ∀ arg ∈ args, arg.length ≤ MAX_BULK_LENGTH

instance (args : List (List UInt8)) : Decidable (Encodable args) :=
  decidable_of_iff (args ≠ [] ∧ args.length ≤ MAX_ARGS ∧
      ∀ arg ∈ args, arg.length ≤ MAX_BULK_LENGTH)
    ⟨fun h => ⟨h.1, h.2.1, h.2.2⟩, fun h => ⟨h.1, h.2, h.3⟩⟩

/-! ### Tokens -/

section Tokens

variable (tables : Env (Event DataEntry)) (server : ServerContext)

theorem length_headerLine (marker : UInt8) (n : ℕ) :
    (headerLine marker n).length = (decimal n).length + 3 := by
  simp [headerLine]

/-- A header line is read with its number. -/
theorem headerVerdict_headerLine {marker : UInt8} {least greatest : ℤ}
    {next : ℕ → Mode × ServerContext} {n : ℕ} (hleast : least ≤ n) (hgreatest : n ≤ greatest)
    (hmax : (n : ℤ) ≤ LONG_MAX) :
    headerVerdict marker least greatest next (headerLine marker n) =
      .consume (headerLine marker n).length [] (next n) := by
  have hcr : 13 ∉ decimal n := fun h => absurd (isdigit_of_mem_decimal h) (by decide)
  rw [length_headerLine, headerLine, headerVerdict_line hcr, if_neg (not_blank_decimal n),
    strtol_decimal hmax, if_pos ⟨hleast, hgreatest⟩, Int.toNat_natCast]

theorem verdict_arrayHeader {n : ℕ} (hpos : 0 < n) (hn : n ≤ MAX_ARGS) :
    (reader tables).verdict (.header, server) (headerLine 42 n) =
      .consume (headerLine 42 n).length [] (.bulk n [], server) := by
  have hverdict := readerVerdict_header tables server (p := headerLine 42 n)
    (by simp [headerLine]) (by simp [headerLine])
  have hmax : n ≤ 1024 := hn
  refine hverdict.trans (headerVerdict_headerLine ?_ ?_ ?_)
  · exact_mod_cast hpos
  · exact_mod_cast hn
  · rw [LONG_MAX]
    omega

theorem verdict_bulkHeader (total : ℕ) (args : List (List UInt8)) {n : ℕ}
    (hn : n ≤ MAX_BULK_LENGTH) :
    (reader tables).verdict (.bulk total args, server) (headerLine 36 n) =
      .consume (headerLine 36 n).length [] (.data total args n, server) := by
  have hmax : n ≤ 8192 := hn
  refine (readerVerdict_bulk tables server total args _).trans
    (headerVerdict_headerLine (Int.natCast_nonneg n) ?_ ?_)
  · exact_mod_cast hn
  · rw [LONG_MAX]
    omega

private theorem length_argument (arg : List UInt8) :
    (arg ++ [13, 10]).length = arg.length + 2 := by
  simp

theorem verdict_argument {total : ℕ} {args : List (List UInt8)} {arg : List UInt8}
    (hlt : args.length + 1 < total) :
    (reader tables).verdict (.data total args arg.length, server) (arg ++ [13, 10]) =
      .consume (arg ++ [13, 10]).length [] (.bulk total (args ++ [arg]), server) := by
  refine (readerVerdict_data tables server total args arg.length _).trans ?_
  rw [dataVerdict_more (length_argument arg).ge hlt.ne, List.take_left, length_argument,
    if_pos (by omega)]

theorem verdict_lastArgument (args : List (List UInt8)) (arg : List UInt8) :
    (reader tables).verdict (.data (args ++ [arg]).length args arg.length, server)
        (arg ++ [13, 10]) =
      if server.Answers tables (toRequest (args ++ [arg])) then
        .consume (arg ++ [13, 10]).length [.command (toRequest (args ++ [arg]))]
          (.data (args ++ [arg]).length (args ++ [arg]) arg.length,
            (server.execute tables (toRequest (args ++ [arg]))).2)
      else .stop (arg ++ [13, 10]).length [.command (toRequest (args ++ [arg])), .close] := by
  refine (readerVerdict_data tables server _ args arg.length _).trans ?_
  rw [dataVerdict_last (length_argument arg).ge (by simp), List.take_left, length_argument]

/-- The tokens of arguments before the last one. -/
def argumentTokens (arg : List UInt8) : List (List UInt8) :=
  [headerLine 36 arg.length, arg ++ [13, 10]]

theorem flatten_argumentTokens (args : List (List UInt8)) :
    (args.flatMap argumentTokens).flatten = args.flatMap encodeArgument := by
  induction args with
  | nil => rfl
  | cons arg args ih =>
    simp only [List.flatMap_cons, List.flatten_append, ih, argumentTokens, encodeArgument,
      List.flatten_cons, List.flatten_nil, List.append_nil]

/-- **Arguments before the last one are read** one after the other. -/
theorem reads_arguments {total : ℕ} (args done : List (List UInt8))
    (hlt : done.length + args.length < total)
    (hbounded : ∀ arg ∈ args, arg.length ≤ MAX_BULK_LENGTH) :
    (reader tables).Reads (.bulk total done, server) (args.flatMap argumentTokens)
      (.bulk total (done ++ args), server) := by
  induction args generalizing done with
  | nil =>
    rw [List.append_nil]
    exact .nil _
  | cons arg args ih =>
    rw [List.length_cons] at hlt
    have hrest := ih (done ++ [arg]) (by simp; omega) fun a ha => hbounded a
      (List.mem_cons_of_mem arg ha)
    rw [List.append_assoc, List.singleton_append] at hrest
    exact .cons (verdict_bulkHeader tables server total done (hbounded arg List.mem_cons_self))
      (.cons (verdict_argument tables server (by omega)) hrest)

/-- The tokens of a command up to the data of its last argument, with `\r` and `\n` in front. -/
def commandTokens (junk : List UInt8) (init : List (List UInt8)) (last : List UInt8) :
    List (List UInt8) :=
  junk.map (fun c => [c]) ++
    (headerLine 42 (init ++ [last]).length :: (init.flatMap argumentTokens ++
      [headerLine 36 last.length]))

theorem flatten_commandTokens (junk : List UInt8) (init : List (List UInt8))
    (last : List UInt8) : (commandTokens junk init last).flatten ++ (last ++ [13, 10]) =
      junk ++ formatRespCommand (init ++ [last]) := by
  have hjunk : (junk.map fun c => [c]).flatten = junk := by
    rw [← List.flatMap_def, List.flatMap_singleton']
  simp only [commandTokens, List.flatten_append, hjunk, List.flatten_cons, List.flatten_nil,
    flatten_argumentTokens, formatRespCommand, List.flatMap_append, List.flatMap_cons,
    List.flatMap_nil, encodeArgument, List.append_assoc, List.append_nil]

/-- **The tokens of a command are read** up to the data of its last argument. -/
theorem reads_command {junk : List UInt8} (hjunk : ∀ c ∈ junk, c = 13 ∨ c = 10)
    {init : List (List UInt8)} {last : List UInt8} (h : Encodable (init ++ [last])) :
    (reader tables).Reads (.header, server) (commandTokens junk init last)
      (.data (init ++ [last]).length init last.length, server) := by
  have hskip : (reader tables).Reads (.header, server) (junk.map fun c => [c])
      (.header, server) := by
    induction junk with
    | nil => exact .nil _
    | cons c junk ih =>
      exact .cons (readerVerdict_newline tables server (hjunk c List.mem_cons_self) [])
        (ih fun x hx => hjunk x (List.mem_cons_of_mem c hx))
  have hinit : ∀ arg ∈ init, arg.length ≤ MAX_BULK_LENGTH := fun arg harg =>
    h.bounded arg (List.mem_append_left _ harg)
  have hlast : last.length ≤ MAX_BULK_LENGTH := h.bounded last (by simp)
  have harguments : (reader tables).Reads (.bulk (init ++ [last]).length [], server)
      (init.flatMap argumentTokens) (.bulk (init ++ [last]).length init, server) :=
    reads_arguments tables server init [] (by simp) hinit
  refine hskip.append (.cons (verdict_arrayHeader tables server (by simp) h.length) ?_)
  exact harguments.append (.cons (verdict_bulkHeader tables server _ init hlast) (.nil _))

variable {tables} {server} {junk : List UInt8} {init : List (List UInt8)} {last : List UInt8}

/-- A command that can be answered is executed, and the reader goes on in front of the data of
another argument of the last length. -/
theorem drain_command (hjunk : ∀ c ∈ junk, c = 13 ∨ c = 10) (h : Encodable (init ++ [last]))
    (ha : server.Answers tables (toRequest (init ++ [last]))) (rest : List UInt8) :
    (reader tables).drain (.header, server) (junk ++ formatRespCommand (init ++ [last]) ++ rest) =
      Tokenizer.before [.command (toRequest (init ++ [last]))]
        ((reader tables).drain (.data (init ++ [last]).length (init ++ [last]) last.length,
          (server.execute tables (toRequest (init ++ [last]))).2) rest) := by
  have hlast := verdict_lastArgument tables server init last
  rw [if_pos ha] at hlast
  rw [← flatten_commandTokens, List.append_assoc,
    Tokenizer.drain_reads (reads_command tables server hjunk h), Tokenizer.drain_token hlast]

/-- A command that cannot be answered is executed, and the connection is closed. -/
theorem drain_command_unanswered (hjunk : ∀ c ∈ junk, c = 13 ∨ c = 10)
    (h : Encodable (init ++ [last]))
    (ha : ¬server.Answers tables (toRequest (init ++ [last]))) (rest : List UInt8) :
    (reader tables).drain (.header, server) (junk ++ formatRespCommand (init ++ [last]) ++ rest) =
      ([.command (toRequest (init ++ [last])), .close], ⟨none, rest⟩) := by
  have hlast := verdict_lastArgument tables server init last
  rw [if_neg ha] at hlast
  rw [← flatten_commandTokens, List.append_assoc,
    Tokenizer.drain_reads (reads_command tables server hjunk h), Tokenizer.drain_lastToken hlast]

/-- A command that has not arrived in full is waited for. -/
theorem drain_command_incomplete (hjunk : ∀ c ∈ junk, c = 13 ∨ c = 10)
    (h : Encodable (init ++ [last])) {p q : List UInt8}
    (hpq : junk ++ formatRespCommand (init ++ [last]) = p ++ q) (hq : q ≠ []) :
    ∃ s r, (reader tables).drain (.header, server) p = ([], ⟨some s, r⟩) := by
  rw [← flatten_commandTokens] at hpq
  refine Tokenizer.drain_incomplete (reads_command tables server hjunk h) ?_ hpq hq
  intro p q hdata hq
  have hlen := congrArg List.length hdata
  have hpos := List.length_pos_iff.mpr hq
  rw [length_argument, List.length_append] at hlen
  exact reader_verdict_short (by omega)

end Tokens

/-! ### Decoding -/

/-- **Decoding undoes encoding, in any reads.** A command within the limits of the parser is sent
to a new connection, after any bytes `\r` and `\n`, and memory is granted. As long as a proper
prefix has arrived nothing is executed and the connection is open. When all has arrived, the
command has been executed once, with its arguments, and no byte is left. -/
theorem connection_decodes (tables : Env (Event DataEntry)) {env : ServerEnv}
    (hgrants : env.Grants) (server : ServerContext) {args : List (List UInt8)}
    (h : Encodable args) {junk : List UInt8} (hjunk : ∀ c ∈ junk, c = 13 ∨ c = 10)
    (reads : List (List UInt8)) :
    let r := (connection tables env server reads).run []
    (∀ rest ≠ [], reads.flatten ++ rest = junk ++ formatRespCommand args →
      executed r.2 = [] ∧ r.1.closing = false) ∧
    (reads.flatten = junk ++ formatRespCommand args →
      executed r.2 = [toRequest args] ∧ r.1.bufferUsed = 0) := by
  obtain ⟨init, last, rfl⟩ : ∃ init last, args = init ++ [last] :=
    ⟨args.dropLast, args.getLast h.ne_nil, (List.dropLast_append_getLast h.ne_nil).symm⟩
  refine ⟨fun rest hrest hprefix => ?_, fun hall => ?_⟩
  · obtain ⟨s, p, hdrain⟩ : ∃ s p, (reader tables).drain (.header, server) reads.flatten =
        ([], ⟨some s, p⟩) := drain_command_incomplete hjunk h hprefix.symm hrest
    obtain ⟨hat, hobserve⟩ := connection_of_drain hgrants hdrain (by simp)
    exact ⟨by rw [executed, hobserve]; rfl, ClientContext.Represents.opened hat⟩
  · by_cases ha : server.Answers tables (toRequest (init ++ [last]))
    · have hdrain := drain_command hjunk h ha []
      rw [List.append_nil, ← hall, Tokenizer.drain_wait (reader_verdict_short (by simp))] at hdrain
      obtain ⟨hat, hobserve⟩ := connection_of_drain hgrants hdrain (by simp)
      have hlen := ClientContext.Represents.length hat
      exact ⟨by rw [executed, hobserve]; rfl, hlen.symm⟩
    · have hdrain := drain_command_unanswered hjunk h ha []
      rw [List.append_nil, ← hall] at hdrain
      obtain ⟨⟨-, hfits, rest, hrest⟩, hobserve⟩ := connection_of_drain hgrants hdrain (by simp)
      have hnil := (List.append_eq_nil_iff.mp hrest.symm).1
      refine ⟨by rw [executed, hobserve]; rfl, ?_⟩
      rw [← hfits.length_pending, hnil]
      rfl

/-- A command after one empty line, cut inside a header line and in front of the last bytes. -/
theorem connection_decodes_cut :
    let r := (connection Env.granting .granting ⟨Hashtable.fresh 1, []⟩
      [bytes "\r\n*2\r\n$3\r", bytes "\nGET\r\n$1\r\nA", bytes "\r\n"]).run []
    executed r.2 = [toRequest [bytes "GET", bytes "A"]] ∧ r.1.bufferUsed = 0 := by
  have h : Encodable [bytes "GET", bytes "A"] := by decide
  have hjunk : ∀ c ∈ bytes "\r\n", c = 13 ∨ c = 10 := by decide +kernel
  exact (connection_decodes Env.granting ServerEnv.granting_grants ⟨Hashtable.fresh 1, []⟩ h hjunk
    _).2 (by decide +kernel)

end SimpleCDatabase
