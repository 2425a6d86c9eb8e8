import SimpleCDatabase.Foundations.Tokenizer
import SimpleCDatabase.Server.Buffer

/-!
# The protocol as it is read

What a connection makes of a stream, without the buffer: an array header, then for each argument
a bulk header and the data. The reader has the modes of the parser and looks at the bytes at hand
only, so where it goes on it does so wherever the stream was cut. Two things are as the code has
them. After a command the reader stays in front of the data of another argument, which would be
stored past the arrays. And a header line of white space only has no number of its own, so the
reader gives up in front of it.

## Main definitions

* `Mode`, `Output`: the modes of the reader, and what it does that is visible.
* `toRequest`: the command that a list of arguments is executed as.
* `reader`: the reader, a `Tokenizer`.

## Main results

* `reader_drain_newlines`: bytes `\r` and `\n` in front of an array header are skipped.
-/

namespace SimpleCDatabase

open CString

/-- What the reader expects next; the arguments are those read so far. -/
inductive Mode where
  | header
  | bulk (total : ℕ) (args : List (List UInt8))
  | data (total : ℕ) (args : List (List UInt8)) (len : ℕ)

/-- What is visible of a connection: a command is executed, an argument is stored past the arrays,
the connection is closed; `blankHeader` stands for what the code makes of a blank header line. -/
inductive Output where
  | command (request : Request)
  | stray
  | close
  | blankHeader
  deriving DecidableEq, Repr

/-- An argument as it is stored, with a NUL after it. -/
def terminated (arg : List UInt8) : List UInt8 := arg ++ [0]

/-- The command that a list of arguments is executed as: the first one is its name. -/
def toRequest (args : List (List UInt8)) : Request where
  commandName := (args.map terminated).headD []
  argc := (args.length - 1 : ℕ)
  argv := (args.map terminated).tail
  argsLengths := (args.map List.length).tail

/-- The verdict in front of a header line with the given marker and bounds. -/
def headerVerdict (marker : UInt8) (least greatest : ℤ) (next : ℕ → Mode × ServerContext) :
    List UInt8 → Verdict (Mode × ServerContext) Output
  | [] => .wait
  | c :: p =>
    if c ≠ marker then .stop 0 [.close]
    else match findCrlf p with
      | none => .wait
      | some i =>
        if Blank (p.take i) then .stop 0 [.blankHeader]
        else if least ≤ strtol (p.take i) ∧ strtol (p.take i) ≤ greatest then
          .consume (i + 3) [] (next (strtol (p.take i)).toNat)
        else .stop 0 [.close]

/-- The length of the reply to a command is an `unsigned int`, so that it can be sent. -/
def ServerContext.Answers (tables : Env (Event DataEntry)) (server : ServerContext)
    (request : Request) : Prop :=
  (sizetToUint ((server.execute tables request).1.bodyLength + 1)).2 = false

instance (tables : Env (Event DataEntry)) (server : ServerContext) (request : Request) :
    Decidable (server.Answers tables request) :=
  inferInstanceAs (Decidable (_ = _))

/-- The verdict in front of the data of an argument. -/
def dataVerdict (tables : Env (Event DataEntry)) (server : ServerContext) (total : ℕ)
    (args : List (List UInt8)) (len : ℕ) (p : List UInt8) :
    Verdict (Mode × ServerContext) Output :=
  if p.length < len + 2 then .wait
  else
    let args' := args ++ [p.take len]
    if args'.length = total then
      if server.Answers tables (toRequest args') then
        .consume (len + 2) [.command (toRequest args')]
          (.data total args' len, (server.execute tables (toRequest args')).2)
      else .stop (len + 2) [.command (toRequest args'), .close]
    else
      .consume (len + 2) (if args.length < total then [] else [.stray])
        (.bulk total args', server)

/-- The verdict in each mode. -/
def readerVerdict (tables : Env (Event DataEntry)) (s : Mode × ServerContext)
    (p : List UInt8) : Verdict (Mode × ServerContext) Output :=
  match s.1 with
  | .header =>
    if p.head? = some 13 ∨ p.head? = some 10 then .consume 1 [] s
    else headerVerdict 42 1 MAX_ARGS (fun n => (.bulk n [], s.2)) p
  | .bulk total args =>
    headerVerdict 36 0 MAX_BULK_LENGTH (fun n => (.data total args n, s.2)) p
  | .data total args len => dataVerdict tables s.2 total args len p

/-! ### Verdicts -/

/-- What stands in front of a reader that expects a header, with the verdict. -/
inductive HeaderSeen (marker : UInt8) (least greatest : ℤ) (next : ℕ → Mode × ServerContext) :
    List UInt8 → Verdict (Mode × ServerContext) Output → Prop where
  | starved : HeaderSeen marker least greatest next [] .wait
  | unmarked {c : UInt8} {p : List UInt8} (hc : c ≠ marker) :
    HeaderSeen marker least greatest next (c :: p) (.stop 0 [.close])
  | unended {p : List UInt8} (h : findCrlf p = none) :
    HeaderSeen marker least greatest next (marker :: p) .wait
  | blank {line rest : List UInt8} (hcr : 13 ∉ line) (hb : Blank line) :
    HeaderSeen marker least greatest next (marker :: (line ++ 13 :: 10 :: rest))
      (.stop 0 [.blankHeader])
  | refused {line rest : List UInt8} (hcr : 13 ∉ line) (hb : ¬Blank line)
    (hn : ¬(least ≤ strtol line ∧ strtol line ≤ greatest)) :
    HeaderSeen marker least greatest next (marker :: (line ++ 13 :: 10 :: rest))
      (.stop 0 [.close])
  | accepted {line rest : List UInt8} {n : ℕ} (hcr : 13 ∉ line) (hb : ¬Blank line)
    (hn : strtol line = n) (hleast : least ≤ n) (hgreatest : n ≤ greatest) :
    HeaderSeen marker least greatest next (marker :: (line ++ 13 :: 10 :: rest))
      (.consume (line.length + 3) [] (next n))

/-- What stands in front of a reader that expects the data of an argument, with the verdict. -/
inductive DataSeen (tables : Env (Event DataEntry)) (server : ServerContext) (total : ℕ)
    (args : List (List UInt8)) (len : ℕ) :
    List UInt8 → Verdict (Mode × ServerContext) Output → Prop where
  | starved {p : List UInt8} (h : p.length < len + 2) :
    DataSeen tables server total args len p .wait
  | more {arg rest : List UInt8} {a b : UInt8} (harg : arg.length = len)
    (hne : args.length + 1 ≠ total) :
    DataSeen tables server total args len (arg ++ a :: b :: rest)
      (.consume (len + 2) (if args.length < total then [] else [.stray])
        (.bulk total (args ++ [arg]), server))
  | answered {arg rest : List UInt8} {a b : UInt8} (harg : arg.length = len)
    (heq : args.length + 1 = total) (ha : server.Answers tables (toRequest (args ++ [arg]))) :
    DataSeen tables server total args len (arg ++ a :: b :: rest)
      (.consume (len + 2) [.command (toRequest (args ++ [arg]))]
        (.data total (args ++ [arg]) len, (server.execute tables (toRequest (args ++ [arg]))).2))
  | unanswered {arg rest : List UInt8} {a b : UInt8} (harg : arg.length = len)
    (heq : args.length + 1 = total) (ha : ¬server.Answers tables (toRequest (args ++ [arg]))) :
    DataSeen tables server total args len (arg ++ a :: b :: rest)
      (.stop (len + 2) [.command (toRequest (args ++ [arg])), .close])

section Verdicts

variable {marker : UInt8} {least greatest : ℤ} {next : ℕ → Mode × ServerContext}

/-- The verdict in front of a header line that is there. -/
theorem headerVerdict_line {line : List UInt8} (hcr : 13 ∉ line) (rest : List UInt8) :
    headerVerdict marker least greatest next (marker :: (line ++ 13 :: 10 :: rest)) =
      if Blank line then .stop 0 [.blankHeader]
      else if least ≤ strtol line ∧ strtol line ≤ greatest then
        .consume (line.length + 3) [] (next (strtol line).toNat)
      else .stop 0 [.close] := by
  simp only [headerVerdict, ne_eq, not_true_eq_false, if_false, findCrlf_line hcr,
    List.take_left]

theorem headerVerdict_open {p : List UInt8} (h : findCrlf p = none) :
    headerVerdict marker least greatest next (marker :: p) = .wait := by
  simp only [headerVerdict, ne_eq, not_true_eq_false, if_false, h]

theorem headerVerdict_unmarked {c : UInt8} (h : c ≠ marker) (p : List UInt8) :
    headerVerdict marker least greatest next (c :: p) = .stop 0 [.close] :=
  if_pos h

/-- **Every verdict in front of a header** is one of these. -/
theorem headerVerdict_seen (hleast : 0 ≤ least) (p : List UInt8) :
    HeaderSeen marker least greatest next p (headerVerdict marker least greatest next p) := by
  cases p with
  | nil => exact .starved
  | cons c p =>
    by_cases hc : c = marker
    · subst hc
      cases hline : findCrlf p with
      | none =>
        rw [headerVerdict_open hline]
        exact .unended hline
      | some i =>
        obtain ⟨line, rest, rfl, hcr, rfl⟩ := findCrlf_eq_some_iff.mp hline
        rw [headerVerdict_line hcr]
        split_ifs with hb hn
        · exact .blank hcr hb
        · obtain ⟨n, hn'⟩ := Int.eq_ofNat_of_zero_le (hleast.trans hn.1)
          rw [hn'] at hn ⊢
          exact .accepted hcr hb hn' hn.1 hn.2
        · exact .refused hcr hb hn
    · rw [headerVerdict_unmarked hc]
      exact .unmarked hc

private theorem headerVerdict_stable (p q : List UInt8)
    (h : headerVerdict marker least greatest next p ≠ .wait) :
    headerVerdict marker least greatest next (p ++ q) =
      headerVerdict marker least greatest next p := by
  cases p with
  | nil => exact absurd rfl h
  | cons c p =>
    by_cases hc : c = marker
    · subst hc
      cases hline : findCrlf p with
      | none => exact absurd (headerVerdict_open hline) h
      | some i =>
        obtain ⟨line, rest, rfl, hcr, rfl⟩ := findCrlf_eq_some_iff.mp hline
        have happend : c :: (line ++ 13 :: 10 :: rest) ++ q =
            c :: (line ++ 13 :: 10 :: (rest ++ q)) := by simp
        rw [happend, headerVerdict_line hcr, headerVerdict_line hcr]
    · rw [List.cons_append, headerVerdict_unmarked hc, headerVerdict_unmarked hc]

variable {tables : Env (Event DataEntry)} {server : ServerContext} {total len : ℕ}
  {args : List (List UInt8)}

/-- An argument that is not the last one is read. -/
theorem dataVerdict_more {p : List UInt8} (h : len + 2 ≤ p.length)
    (hne : args.length + 1 ≠ total) :
    dataVerdict tables server total args len p =
      .consume (len + 2) (if args.length < total then [] else [.stray])
        (.bulk total (args ++ [p.take len]), server) := by
  simp only [dataVerdict, Nat.not_lt.mpr h, if_false, List.length_append, List.length_singleton,
    hne]

/-- The last argument is read, and the command is executed. -/
theorem dataVerdict_last {p : List UInt8} (h : len + 2 ≤ p.length)
    (heq : args.length + 1 = total) :
    dataVerdict tables server total args len p =
      if server.Answers tables (toRequest (args ++ [p.take len])) then
        .consume (len + 2) [.command (toRequest (args ++ [p.take len]))]
          (.data total (args ++ [p.take len]) len,
            (server.execute tables (toRequest (args ++ [p.take len]))).2)
      else .stop (len + 2) [.command (toRequest (args ++ [p.take len])), .close] := by
  simp only [dataVerdict, Nat.not_lt.mpr h, if_false, List.length_append, List.length_singleton,
    heq, if_true]

/-- **Every verdict in front of the data of an argument** is one of these. -/
theorem dataVerdict_seen (p : List UInt8) :
    DataSeen tables server total args len p (dataVerdict tables server total args len p) := by
  by_cases hshort : p.length < len + 2
  · rw [dataVerdict, if_pos hshort]
    exact .starved hshort
  · have hlong : len + 2 ≤ p.length := Nat.not_lt.mp hshort
    obtain ⟨arg, a, b, rest, rfl, harg⟩ : ∃ arg a b rest, p = arg ++ a :: b :: rest ∧
        arg.length = len := by
      refine ⟨p.take len, p[len], p[len + 1], p.drop (len + 2), ?_, ?_⟩
      · rw [← List.drop_eq_getElem_cons, ← List.drop_eq_getElem_cons, List.take_append_drop]
      · rw [List.length_take]
        omega
    have htake : (arg ++ a :: b :: rest).take len = arg := List.take_left' harg
    by_cases heq : args.length + 1 = total
    · rw [dataVerdict_last hlong heq, htake]
      split_ifs with ha
      · exact .answered harg heq ha
      · exact .unanswered harg heq ha
    · rw [dataVerdict_more hlong heq, htake]
      exact .more harg heq

private theorem dataVerdict_stable (p q : List UInt8)
    (h : dataVerdict tables server total args len p ≠ .wait) :
    dataVerdict tables server total args len (p ++ q) =
      dataVerdict tables server total args len p := by
  have hlong : ¬p.length < len + 2 := fun hshort => h (if_pos hshort)
  have hlong' : ¬(p ++ q).length < len + 2 := by
    rw [List.length_append]
    omega
  have htake : (p ++ q).take len = p.take len := List.take_append_of_le_length (by omega)
  simp only [dataVerdict, hlong, hlong', htake]

end Verdicts

section Reader

variable (tables : Env (Event DataEntry)) (server : ServerContext)

/-- In front of an array header, `\r` and `\n` are skipped. -/
theorem readerVerdict_newline {c : UInt8} (hc : c = 13 ∨ c = 10) (p : List UInt8) :
    readerVerdict tables (.header, server) (c :: p) = .consume 1 [] (.header, server) := by
  rcases hc with rfl | rfl <;> rfl

/-- In front of an array header, any other byte is taken for the marker. -/
theorem readerVerdict_header {p : List UInt8} (h13 : p.head? ≠ some 13) (h10 : p.head? ≠ some 10) :
    readerVerdict tables (.header, server) p =
      headerVerdict 42 1 MAX_ARGS (fun n => (.bulk n [], server)) p :=
  if_neg (by simp [h13, h10])

private theorem readerVerdict_header_cases (p : List UInt8) :
    (∃ c q, p = c :: q ∧ (c = 13 ∨ c = 10)) ∨ p.head? ≠ some 13 ∧ p.head? ≠ some 10 := by
  cases p with
  | nil => exact .inr (by simp)
  | cons c q =>
    by_cases hc : c = 13 ∨ c = 10
    · exact .inl ⟨c, q, rfl, hc⟩
    · exact .inr (by simpa [not_or] using hc)

theorem readerVerdict_bulk (total : ℕ) (args : List (List UInt8)) (p : List UInt8) :
    readerVerdict tables (.bulk total args, server) p =
      headerVerdict 36 0 MAX_BULK_LENGTH (fun n => (.data total args n, server)) p :=
  rfl

theorem readerVerdict_data (total : ℕ) (args : List (List UInt8)) (len : ℕ) (p : List UInt8) :
    readerVerdict tables (.data total args len, server) p =
      dataVerdict tables server total args len p :=
  rfl

/-- What the reader uses up is at hand, and it is something where it goes on. -/
private theorem readerVerdict_progress (mode : Mode) (p : List UInt8) :
    (∀ n out s', readerVerdict tables (mode, server) p = .consume n out s' →
      0 < n ∧ n ≤ p.length) ∧
    ∀ n out, readerVerdict tables (mode, server) p = .stop n out → n ≤ p.length := by
  have hheader {marker : UInt8} {least greatest : ℤ} {next : ℕ → Mode × ServerContext}
      {v : Verdict (Mode × ServerContext) Output}
      (h : HeaderSeen marker least greatest next p v) :
      (∀ n out s', v = .consume n out s' → 0 < n ∧ n ≤ p.length) ∧
        ∀ n out, v = .stop n out → n ≤ p.length := by
    cases h <;> simp
  cases mode with
  | header =>
    obtain ⟨c, q, rfl, hc⟩ | ⟨h13, h10⟩ := readerVerdict_header_cases p
    · rw [readerVerdict_newline tables server hc]
      simp
    · rw [readerVerdict_header tables server h13 h10]
      exact hheader (headerVerdict_seen zero_le_one p)
  | bulk total args =>
    rw [readerVerdict_bulk]
    exact hheader (headerVerdict_seen le_rfl p)
  | data total args len =>
    have hdata {v : Verdict (Mode × ServerContext) Output}
        (h : DataSeen tables server total args len p v) :
        (∀ n out s', v = .consume n out s' → 0 < n ∧ n ≤ p.length) ∧
          ∀ n out, v = .stop n out → n ≤ p.length := by
      cases h <;> simp <;> omega
    rw [readerVerdict_data]
    exact hdata (dataVerdict_seen p)

end Reader

/-- The reader of a connection. -/
def reader (tables : Env (Event DataEntry)) : Tokenizer UInt8 (Mode × ServerContext) Output where
  verdict := readerVerdict tables
  stable := by
    rintro ⟨mode, server⟩ p q h
    cases mode with
    | header =>
      obtain ⟨c, r, rfl, hc⟩ | ⟨h13, h10⟩ := readerVerdict_header_cases p
      · rw [List.cons_append, readerVerdict_newline _ _ hc, readerVerdict_newline _ _ hc]
      · rw [readerVerdict_header _ _ h13 h10] at h ⊢
        cases p with
        | nil => exact absurd rfl h
        | cons c p =>
          rw [readerVerdict_header _ _ (by simpa using h13) (by simpa using h10)]
          exact headerVerdict_stable (c :: p) q h
    | bulk total args =>
      rw [readerVerdict_bulk] at h ⊢
      exact headerVerdict_stable p q h
    | data total args len =>
      rw [readerVerdict_data] at h ⊢
      exact dataVerdict_stable p q h
  progress := fun ⟨mode, server⟩ p => (readerVerdict_progress tables server mode p).1
  within := fun ⟨mode, server⟩ p => (readerVerdict_progress tables server mode p).2

section Reader

variable {tables : Env (Event DataEntry)} {server : ServerContext}

/-- A reader that has just been started waits for its first byte. -/
theorem reader_verdict_nil : (reader tables).verdict (.header, server) [] = .wait := rfl

/-- What the reader sees where it expects an array header. -/
theorem reader_header_seen (tables : Env (Event DataEntry)) (server : ServerContext)
    (p : List UInt8) :
    (∃ c q, p = c :: q ∧ (c = 13 ∨ c = 10) ∧
      (reader tables).verdict (.header, server) p = .consume 1 [] (.header, server)) ∨
    HeaderSeen 42 1 MAX_ARGS (fun n => (.bulk n [], server)) p
      ((reader tables).verdict (.header, server) p) := by
  obtain ⟨c, q, rfl, hc⟩ | ⟨h13, h10⟩ := readerVerdict_header_cases p
  · exact .inl ⟨c, q, rfl, hc, readerVerdict_newline tables server hc q⟩
  · right
    rw [show (reader tables).verdict (.header, server) p = _ from
      readerVerdict_header tables server h13 h10]
    exact headerVerdict_seen zero_le_one p

/-- What the reader sees where it expects a bulk header. -/
theorem reader_bulk_seen (tables : Env (Event DataEntry)) (server : ServerContext) (total : ℕ)
    (args : List (List UInt8)) (p : List UInt8) :
    HeaderSeen 36 0 MAX_BULK_LENGTH (fun n => (.data total args n, server)) p
      ((reader tables).verdict (.bulk total args, server) p) := by
  rw [show (reader tables).verdict (.bulk total args, server) p = _ from
    readerVerdict_bulk tables server total args p]
  exact headerVerdict_seen le_rfl p

/-- What the reader sees where it expects the data of an argument. -/
theorem reader_data_seen (tables : Env (Event DataEntry)) (server : ServerContext) (total : ℕ)
    (args : List (List UInt8)) (len : ℕ) (p : List UInt8) :
    DataSeen tables server total args len p
      ((reader tables).verdict (.data total args len, server) p) :=
  dataVerdict_seen p

/-- The data of an argument is waited for. -/
theorem reader_verdict_short {total len : ℕ} {args : List (List UInt8)} {p : List UInt8}
    (h : p.length < len + 2) : (reader tables).verdict (.data total args len, server) p = .wait :=
  if_pos h

/-- **Bytes `\r` and `\n` in front of an array header are skipped.** -/
theorem reader_drain_newlines {junk : List UInt8} (h : ∀ c ∈ junk, c = 13 ∨ c = 10)
    (p : List UInt8) :
    (reader tables).drain (.header, server) (junk ++ p) =
      (reader tables).drain (.header, server) p := by
  induction junk with
  | nil => rfl
  | cons c junk ih =>
    have hc : (reader tables).verdict (.header, server) (c :: (junk ++ p)) =
        .consume 1 [] (.header, server) :=
      readerVerdict_newline tables server (h c List.mem_cons_self) _
    rw [List.cons_append, Tokenizer.drain_consume hc, Tokenizer.before_nil]
    exact ih fun x hx => h x (List.mem_cons_of_mem c hx)

end Reader

end SimpleCDatabase
