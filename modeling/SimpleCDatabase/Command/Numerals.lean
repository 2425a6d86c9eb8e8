import SimpleCDatabase.Command.Reachability

/-!
# The number of a resize

`RESIZE` decodes its argument by `strtoul`, and refuses it when nothing is read or something other
than a terminator follows. `strtoul` skips white space, admits a sign, negates modulo `2 ^ 64` and
cuts a number out of range to the greatest one, and the string ends at its first `NUL`. So besides
the numerals in range there are other strings with which `table_resize` is reached.

## Main definitions

* `resizeRequest`: the command `RESIZE` with an argument.
* `resizeAnswered`, `ReachesResize`: `table_resize` is called with a size, and its code answered.
* `SizeInRange`: the decimal numerals from 1 to `2 ^ 64 - 1`.
* `TakesOnlyNumerals`: only these reach `table_resize`, at their value, and the rest is refused.

## Main results

* `reachesResize_iff`: with which size `table_resize` is called.
* `resize_takes_only_numerals_iff`: for which arguments `RESIZE` takes only numerals.

## References

* `src/command.c`, `build_command_data` and `cmd_resize`.
-/

namespace SimpleCDatabase

open CString Hashtable

/-- `RESIZE` with an argument of any bytes. -/
def resizeRequest (s : List UInt8) : Request := ⟨bytes "RESIZE", 1, [s], [s.length]⟩

/-- The call of `table_resize` with the size `N`, and the answer to its code. -/
def resizeAnswered (env : Env (Event DataEntry)) (t : Hashtable DataEntry) (N : UInt64) :
    Action (ExecuteResult × Hashtable DataEntry) := do
  let (errorCode, table) ← tableResize env t N
  let response ← finalResult env (if errorCode ≠ 0 then .error else .resize 0)
  pure (response, table)

/-- The command passes the checks of its argument with the size `N`, and its execution is the call
of `table_resize` with that size and the answer to it. -/
structure ReachesResize (env : Env (Event DataEntry)) (t : Hashtable DataEntry)
    (log : List (Event DataEntry)) (s : List UInt8) (N : UInt64) : Prop where
  admitted : ∃ input before, (resizeRequest s).Admitted env log .RESIZE input before ∧
    input.newSize = N
  executed : ((resizeRequest s).execute env t).run log = (resizeAnswered env t N).run log

/-- A decimal numeral, in full, of a number from 1 to `2 ^ 64 - 1`. -/
structure SizeInRange (s : List UInt8) : Prop where
  ne_nil : s ≠ []
  digits : ∀ c ∈ s, isdigit c = true
  pos : 1 ≤ digitsValue s
  le : digitsValue s ≤ 2 ^ 64 - 1

/-- Only numerals in range reach `table_resize`, at their value; for any other argument the command
is refused and the table is left as it was. -/
structure TakesOnlyNumerals (env : Env (Event DataEntry)) (t : Hashtable DataEntry)
    (log : List (Event DataEntry)) (s : List UInt8) : Prop where
  reaches : ∀ N, ReachesResize env t log s N ↔ SizeInRange s ∧ N.toNat = digitsValue s
  refused : ¬SizeInRange s →
    (((resizeRequest s).execute env t).run log).1.1.statusCode ≠ 200 ∧
      (((resizeRequest s).execute env t).run log).1.2 = t

/-- White space, an optional sign and the digits of a number other than zero, up to the first
`NUL`. -/
def LenientNumeral (s : List UInt8) : Prop := ∃ neg n, n ≠ 0 ∧ Numeral (cstr s) neg n []

/-! ### The size that is read -/

/-- The end and the number of a conversion, from what it scans: the number is zero only when the
magnitude is. -/
theorem strtoul_of_scanNumeral {s rest : List UInt8} {neg : Bool} {n : ℕ}
    (h : scanNumeral s = some (neg, n, rest)) :
    (strtoul s).2 = rest ∧ ((strtoul s).1 = 0 ↔ n = 0) := by
  rw [strtoul, h]
  dsimp only
  have hofNat (hn : n ≤ ULONG_MAX) : UInt64.ofNat n = 0 ↔ n = 0 := by
    have hlt : n < 2 ^ 64 := Nat.lt_succ_of_le hn
    rw [← UInt64.toNat_inj, UInt64.toNat_ofNat', Nat.mod_eq_of_lt hlt]
    rfl
  split_ifs with hmax hneg
  · refine ⟨rfl, iff_of_false (by decide : UInt64.ofNat ULONG_MAX ≠ 0) ?_⟩
    rintro rfl
    exact Nat.not_lt_zero _ hmax
  · exact ⟨rfl, (not_iff_not.mp UInt64.neg_ne_zero).trans (hofNat (not_lt.mp hmax))⟩
  · exact ⟨rfl, hofNat (not_lt.mp hmax)⟩

/-- A number is read, and it is not zero, exactly for the lenient numerals. -/
theorem lenientNumeral_iff (s : List UInt8) :
    LenientNumeral s ↔
      ¬((strtoul s).2.length = s.length ∨ (strtoul s).2.headD 0 ≠ 0) ∧ (strtoul s).1 ≠ 0 := by
  cases hscan : scanNumeral s with
  | none =>
    have hsame : strtoul s = (0, s) := by rw [strtoul, hscan]
    refine iff_of_false ?_ fun h => h.2 (congrArg Prod.fst hsame)
    rintro ⟨neg, n, -, hnum⟩
    obtain ⟨rest, hsome, -⟩ := scanNumeral_to_end_iff.mpr hnum
    exact Option.some_ne_none _ (hsome.symm.trans hscan)
  | some r =>
    obtain ⟨neg, n, rest⟩ := r
    obtain ⟨hend, hzero⟩ := strtoul_of_scanNumeral hscan
    obtain ⟨⟨blanks, sign, digits, hshape, -, -, hne, -⟩, -⟩ := scanNumeral_eq_some_iff.mp hscan
    have hlen : rest.length ≠ s.length := by
      have hpos := List.length_pos_iff.mpr hne
      rw [hshape]
      simp only [List.length_append]
      omega
    rw [hend, not_or, and_iff_right hlen, not_not, ne_eq, hzero]
    constructor
    · rintro ⟨neg', n', hn', hnum⟩
      obtain ⟨rest', hscan', hrest'⟩ := scanNumeral_to_end_iff.mpr hnum
      obtain ⟨rfl, rfl, rfl⟩ : neg = neg' ∧ n = n' ∧ rest = rest' := by
        simpa using hscan.symm.trans hscan'
      exact ⟨hrest', hn'⟩
    · rintro ⟨hrest, hn⟩
      exact ⟨neg, n, hn, scanNumeral_to_end_iff.mp ⟨rest, hscan, hrest⟩⟩

/-! ### The call of the operation -/

section Calls

variable (env : Env (Event DataEntry)) (t : Hashtable DataEntry) (log : List (Event DataEntry))
  (s : List UInt8)

/-- The decoding of the argument. -/
private theorem build_resize (lengths : List ℕ) :
    (buildCommandData env .RESIZE [s] lengths).run log =
      if (strtoul s).2.length = s.length ∨ (strtoul s).2.headD 0 ≠ 0 then (none, [])
      else (some { newSize := (strtoul s).1 }, []) := by
  change Traced.run (if (strtoul s).2.length = s.length ∨ (strtoul s).2.headD 0 ≠ 0 then pure none
    else pure (some ({ newSize := (strtoul s).1 } : CommandData))) log = _
  rw [Traced.run_ite]
  rfl

/-- A command whose argument passes the checks is carried out by `table_resize`. -/
private theorem run_resize (hread : ¬((strtoul s).2.length = s.length ∨ (strtoul s).2.headD 0 ≠ 0))
    (hsize : (strtoul s).1 ≠ 0) : ((resizeRequest s).execute env t).run log =
      (resizeAnswered env t (strtoul s).1).run log := by
  have hfind : findCommand (resizeRequest s).commandName =
      some ⟨bytes "RESIZE", .RESIZE, cmdResize, 1⟩ := rfl
  have hbuild : (buildCommandData env .RESIZE (resizeRequest s).argv
      (resizeRequest s).argsLengths).run log = (some { newSize := (strtoul s).1 }, []) :=
    (build_resize env log s [s.length]).trans (if_neg hread)
  have hproc : cmdResize env t { newSize := (strtoul s).1 } =
      tableResize env t (strtoul s).1 >>= fun r =>
        pure (if r.1 ≠ 0 then .error else .resize 0, r.2) := if_neg hsize
  have hargc : ¬(1 : ℤ) ≠ (resizeRequest s).argc := fun hne => hne rfl
  simp only [Request.execute, executeCommand, hfind, if_neg hargc, Traced.run_bind, hbuild, hproc,
    resizeAnswered, Traced.run_pure, List.nil_append, List.append_nil]

/-- **With which size `table_resize` is called**: the number read from the argument, when it is
not zero and nothing but a terminator follows. -/
theorem reachesResize_iff (N : UInt64) :
    ReachesResize env t log s N ↔ LenientNumeral s ∧ N = (strtoul s).1 := by
  rw [lenientNumeral_iff]
  constructor
  · rintro ⟨⟨input, before, hadmitted, rfl⟩, -⟩
    have hdecoded := (build_resize env log s [s.length]).symm.trans hadmitted.decoded
    split at hdecoded
    · exact absurd (congrArg Prod.fst hdecoded).symm (Option.some_ne_none _)
    next hread =>
    obtain rfl : { newSize := (strtoul s).1 } = input :=
      Option.some_inj.mp (congrArg Prod.fst hdecoded)
    exact ⟨⟨hread, hadmitted.checked⟩, rfl⟩
  · rintro ⟨⟨hread, hzero⟩, rfl⟩
    refine ⟨⟨{ newSize := (strtoul s).1 }, [], ⟨rfl, rfl, ?_, hzero⟩, rfl⟩,
      run_resize env t log s hread hzero⟩
    exact (build_resize env log s [s.length]).trans (if_neg hread)

/-- An argument with which `table_resize` is not called is refused, and nothing changes. -/
theorem resize_refused (h : ¬LenientNumeral s) :
    ((resizeRequest s).execute env t).Ensures log fun r _ => r.1.statusCode ≠ 200 ∧ r.2 = t := by
  have hresponse (log : List (Event DataEntry)) (status : ℤ) (message : List UInt8)
      (hstatus : status ≠ 200) : Traced.Ensures (do
        let response ← createErrorResponse env status message
        pure (response, t)) log fun r _ => r.1.statusCode ≠ 200 ∧ r.2 = t := by
    refine (createErrorResponse_ensures env log status message).bind ?_
    rintro r new ⟨-, hr | hr, -⟩
    · exact ⟨hr.trans_ne hstatus, rfl⟩
    · exact ⟨hr.trans_ne (by decide), rfl⟩
  have hbuild : (buildCommandData env .RESIZE [s] [s.length]).Ensures log fun r _ =>
      ∀ input, r = some input → ¬Write.RESIZE.Checked input := by
    rw [Traced.Ensures, build_resize]
    split
    · exact fun input hsome => absurd hsome.symm (Option.some_ne_none _)
    next hread =>
    rintro input hsome hchecked
    obtain rfl := Option.some_inj.mp hsome
    exact h ((lenientNumeral_iff s).mpr ⟨hread, hchecked⟩)
  have hfind : findCommand (resizeRequest s).commandName = some Write.RESIZE.command := rfl
  rw [Request.execute, executeCommand, hfind]
  refine Traced.ensures_ite (fun hne => absurd rfl hne) fun _ => ?_
  refine hbuild.bind ?_
  rintro (_ | input) new hinput
  · exact hresponse _ _ _ (by decide)
  · have hproc : (Write.RESIZE.command.proc env t input).Ensures (new ++ log) fun r _ =>
        r = (.error, t) := by
      rw [Write.proc_of_not_checked .RESIZE (hinput input rfl)]
      rfl
    refine hproc.bind ?_
    rintro _ new' rfl
    exact hresponse _ _ _ (by decide)

/-- A numeral in range is read in full, at its value. -/
theorem SizeInRange.reaches {s : List UInt8} (h : SizeInRange s) (N : UInt64) :
    ReachesResize env t log s N ↔ N.toNat = digitsValue s := by
  have hread := strtoul_digits h.ne_nil h.digits h.le
  have hvalue : (UInt64.ofNat (digitsValue s)).toNat = digitsValue s := by
    have hlt : digitsValue s < 2 ^ 64 := Nat.lt_succ_of_le h.le
    rw [UInt64.toNat_ofNat', Nat.mod_eq_of_lt hlt]
  have hlenient : LenientNumeral s := by
    rw [lenientNumeral_iff, hread]
    refine ⟨?_, fun hzero => ?_⟩
    · rintro (hlen | hhead)
      · exact h.ne_nil (List.length_eq_zero_iff.mp hlen.symm)
      · exact hhead rfl
    · have hpos := h.pos
      have hzero : UInt64.ofNat (digitsValue s) = 0 := hzero
      rw [← hvalue, hzero] at hpos
      exact absurd hpos (by decide)
  rw [reachesResize_iff, and_iff_right hlenient, hread, ← UInt64.toNat_inj, hvalue]

/-- **When `RESIZE` takes only numerals**: for a numeral in range, and for an argument that is not
white space, an optional sign and the digits of a number other than zero before its first `NUL`. -/
theorem resize_takes_only_numerals_iff :
    TakesOnlyNumerals env t log s ↔ SizeInRange s ∨ ¬LenientNumeral s := by
  constructor
  · intro h
    by_cases hlenient : LenientNumeral s
    · -- The operation is called with the number that is read.
      have hcall := (reachesResize_iff env t log s (strtoul s).1).mpr ⟨hlenient, rfl⟩
      exact .inl ((h.reaches _).mp hcall).1
    · exact .inr hlenient
  · rintro (hrange | hnot)
    · exact ⟨fun N => (hrange.reaches env t log N).trans (and_iff_right hrange).symm,
        fun hout => absurd hrange hout⟩
    · refine ⟨fun N => ?_, fun _ => resize_refused env t log s hnot⟩
      rw [reachesResize_iff]
      refine iff_of_false (fun h => hnot h.1) fun h => ?_
      exact hnot ((reachesResize_iff env t log s N).mp ((h.1.reaches env t log N).mpr h.2)).1

end Calls

/-- A minus one asks for the greatest number of buckets. -/
theorem resize_minus_one :
    ¬∀ (env : Env (Event DataEntry)) (t : Hashtable DataEntry) (log : List (Event DataEntry))
      (s : List UInt8), Reachable t → TakesOnlyNumerals env t log s := by
  intro h
  have hreach : Reachable (.fresh 1) :=
    .created (show ((tableCreate Env.granting 1).run []).1 = some (.fresh 1) from rfl)
  have hcall : ReachesResize .granting (.fresh 1) [] (bytes "-1") (UInt64.ofNat ULONG_MAX) :=
    (reachesResize_iff .granting (.fresh 1) [] (bytes "-1") _).mpr
      ⟨(lenientNumeral_iff (bytes "-1")).mpr (by decide), by decide⟩
  have hrange := (((h .granting (.fresh 1) [] (bytes "-1") hreach).reaches _).mp hcall).1
  exact absurd (hrange.digits 45 (by decide)) (by decide)

end SimpleCDatabase
