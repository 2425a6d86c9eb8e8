import SimpleCDatabase.Command.Measurements
import SimpleCDatabase.Command.Refinement
import SimpleCDatabase.Command.Replies

/-!
# Results and writes of the machine

In an environment in which nothing fails, a result of a command is rendered as one answer, byte by
byte; and a write accepts and refuses as the machine does. A key that does not fit its array is
never stored under its own name, so it is absent from the map as it is from the table.

## Main definitions

* `CommandResult.reply`: the answer that is rendered for a result.
* `Wrote`: the outcome of a write is that of the machine.

## Main results

* `finalResult_gives`: a result is rendered as its answer.
* `Represents.set_wrote` to `Represents.resize_wrote`: the writes.

## References

* `src/command.c`, `execute_command`; `src/hashtable.c`, `table_set` to `table_resize`.
-/

namespace SimpleCDatabase

open Buckets CString Hashtable PowerOfTwo

/-! ### Rendered results -/

/-- A result shows an answer: its status and its text. -/
def ExecuteResult.Shows (r : ExecuteResult) (reply : Reply) : Prop :=
  r.statusCode = reply.status ∧ r.answer = some reply.text

/-- A result gives an answer: it shows it, and announces its length. -/
structure ExecuteResult.Gives (r : ExecuteResult) (reply : Reply) : Prop where
  shows : r.Shows reply
  length : r.bodyLength = reply.text.length

theorem ExecuteResult.Shows.gives {r : ExecuteResult} {reply : Reply} (h : r.Shows reply)
    (hwell : r.WellFormed) : r.Gives reply := by
  refine ⟨h, ?_⟩
  obtain ⟨body, hbody, htext⟩ := Option.map_eq_some_iff.mp h.2
  rw [ExecuteResult.WellFormed, hbody] at hwell
  rw [← htext, List.length_take_of_le hwell]

/-- The answer that is rendered for a result. -/
def CommandResult.reply : CommandResult → Reply
  | .get value => ⟨200, value.val.data⟩
  | .set code | .add code | .del code | .replace code | .resize code | .clear code =>
    if code = 0 then .ok else .refused
  | .exist existence => ⟨200, if existence then TCP_TRUE else TCP_FALSE⟩
  | .loadFactor q => ⟨200, Double.fixed 4 q⟩
  | .count type countT => ⟨200, match type with
      | .OCCUPIED_BUCKET => Double.fixed 2 countT.asDouble
      | .CAPACITY | .MEMORY_USAGE | .TOTAL_ELEM => decimal countT.asSizet.toNat⟩
  | .empty => .absent
  | .error => .internal

/-- A number is printed within its buffer. -/
def CommandResult.Short : CommandResult → Prop
  | .loadFactor q => (Double.fixed 4 q).length = 6
  | .count type _ => type = .CAPACITY
  | _ => True

section Rendering

variable {env : Env (Event DataEntry)} (henv : env.Succeeds) (log : List (Event DataEntry))

include henv

private theorem createErrorResponse_shows (reply : Reply) (htext : cstr reply.text = reply.text) :
    (createErrorResponse env reply.status reply.text).Ensures log fun r _ => r.Shows reply :=
  (createErrorResponse_of_granted (henv.alloc _ _)).mono fun _ _ hr =>
    ⟨hr.1, hr.2.trans (congrArg some htext)⟩

private theorem writeResult_shows (code : ℤ) :
    (finalResult env (.set code)).Ensures log fun r _ =>
      r.Shows (if code = 0 then .ok else .refused) := by
  refine Traced.ensures_ite (fun hcode => ?_) fun hcode => ?_
  · rw [if_neg hcode]
    exact createErrorResponse_shows henv log .refused rfl
  · rw [if_pos (not_not.mp hcode)]
    refine (ustrdup_ensures env log TCP_SUCCESS).bind ?_
    rintro _ new ⟨-, rfl⟩
    rw [henv.alloc, if_pos rfl]
    exact ⟨rfl, rfl⟩

private theorem finalResult_shows {result : CommandResult} (hshort : result.Short) :
    (finalResult env result).Ensures log fun r _ => r.Shows result.reply := by
  cases result with
  | get value =>
    have hmalloc : (malloc env value.val.size).Ensures log fun ok _ => ok = true := henv.alloc _ _
    refine hmalloc.bind ?_
    rintro _ new rfl
    exact ⟨rfl, congrArg some List.take_length⟩
  | set code => exact writeResult_shows henv log code
  | add code => exact writeResult_shows henv log code
  | del code => exact writeResult_shows henv log code
  | replace code => exact writeResult_shows henv log code
  | resize code => exact writeResult_shows henv log code
  | clear code => exact writeResult_shows henv log code
  | exist existence =>
    refine (ustrdup_ensures env log _).bind ?_
    rintro _ new ⟨-, rfl⟩
    rw [henv.alloc, if_pos rfl]
    cases existence <;> exact ⟨rfl, rfl⟩
  | loadFactor q =>
    exact (finalResult_loadFactor env log hshort).mono fun r _ hr =>
      (if_pos (henv.alloc _ _)).mp hr
  | count type countT =>
    obtain rfl : type = .CAPACITY := hshort
    exact (finalResult_count countT log).mono fun r _ hr => (if_pos (henv.alloc _ _)).mp hr
  | empty => exact createErrorResponse_shows henv log .absent rfl
  | error => exact createErrorResponse_shows henv log .internal rfl

theorem createErrorResponse_gives (reply : Reply) (htext : cstr reply.text = reply.text) :
    (createErrorResponse env reply.status reply.text).Ensures log fun r _ => r.Gives reply :=
  (createErrorResponse_shows henv log reply htext).gives
    (createErrorResponse_wellFormed env log reply.status reply.text)

/-- **A result is rendered as its answer.** -/
theorem finalResult_gives {result : CommandResult} (hshort : result.Short) :
    (finalResult env result).Ensures log fun r _ => r.Gives result.reply :=
  (finalResult_shows henv log hshort).gives
    ((finalResult_wellFormed_iff env log result).mpr fun _ => henv.alloc _ _)

end Rendering

/-! ### Writes -/

/-- What an operation that returns `code` and leaves `t'` makes of a write to the state `s`. -/
def Wrote (s : MapState) (code : ℤ) (t' : Hashtable DataEntry) : Option MapState → Prop
  | some next => code = 0 ∧ Represents t' next
  | none => code ≠ 0 ∧ Represents t' s

theorem MapState.map_eq_empty_of_count (s : MapState) (h : s.count = 0) : s.map = ∅ := by
  refine Finmap.ext_lookup fun key => ?_
  have hkeys : s.map.keys = ∅ := Finset.card_eq_zero.mp h
  have hnot : key ∉ s.map := fun hmem =>
    absurd (hkeys ▸ Finmap.mem_keys.mpr hmem) (Finset.notMem_empty key)
  rw [Finmap.lookup_eq_none.mpr hnot, Finmap.lookup_empty]

namespace Represents

variable {env : Env (Event DataEntry)} {t t' : Hashtable DataEntry} {s : MapState}
  {key : List UInt8} {code : ℤ} {ds : List (Block DataEntry)} {b : Block DataEntry} {d : Bool}

theorem length_keyString_lt (h : Represents t s) {slot : Slot DataEntry}
    (hslot : slot ∈ t.entries) : slot.keyString.length < KEY_MAX_LEN :=
  (length_cstr_lt (h.wellFormed.terminated slot hslot)).trans_eq slot.key.2

/-- A key that does not fit its array is not stored. -/
theorem notMem_of_long (h : Represents t s) (hlong : KEY_MAX_LEN ≤ key.length) :
    key ∉ s.map := by
  intro hmem
  obtain ⟨slot, hslot, rfl⟩ := h.exists_of_mem hmem
  exact absurd (h.length_keyString_lt hslot) (not_lt.mpr hlong)

/-- A key that does not fit its array is not found. -/
theorem missing_of_long (h : Represents t s) (hnul : 0 ∉ key) (hlong : KEY_MAX_LEN ≤ key.length) :
    t.Missing key := by
  intro j hfound
  obtain ⟨-, -, hkey⟩ := h.wellFormed.found_iff.mp hfound
  have hlt := h.length_keyString_lt
    (slotAt_mem_entries (h.wellFormed.keyBucket_lt key) hfound.inUse)
  rw [Slot.keyString, hkey, cstr_of_zero_notMem hnul] at hlt
  exact absurd hlt (not_lt.mpr hlong)

/-- A search fails exactly on the keys outside the map, of whatever length. -/
theorem missing_iff_notMem (h : Represents t s) (hnul : 0 ∉ key) (hne : key ≠ []) :
    t.Missing key ↔ key ∉ s.map := by
  by_cases hshort : key.length < KEY_MAX_LEN
  · exact h.missing_iff ⟨hnul, hne, hshort⟩
  · have hlong := not_lt.mp hshort
    exact iff_of_true (h.missing_of_long hnul hlong) (h.notMem_of_long hlong)

/-- The slot that a search finds carries the value of the map. -/
theorem lookup_of_hit (h : Represents t s) (hnul : 0 ∉ key) (hne : key ≠ [])
    {j : Fin BUCKET_CAPACITY} (hfound : t.Found key j) :
    ∃ b, (t.slotAt key j).value = some b ∧ s.map.lookup key = some b.val.data := by
  by_cases hshort : key.length < KEY_MAX_LEN
  · exact h.lookup_of_found ⟨hnul, hne, hshort⟩ hfound
  · exact absurd hfound (h.missing_of_long hnul (not_lt.mp hshort) j)

theorem wrote_of_answers {accepted : Prop} [Decidable accepted] {next s' : MapState}
    (hrep : Represents t' s') (hanswers : Answers accepted (code = 0) s next s') :
    Wrote s code t' (if accepted then some next else none) := by
  by_cases haccepted : accepted
  · obtain ⟨hcode, rfl⟩ := hanswers.1 haccepted
    rw [if_pos haccepted]
    exact ⟨hcode, hrep⟩
  · obtain ⟨hcode, rfl⟩ := hanswers.2 haccepted
    rw [if_neg haccepted]
    exact ⟨hcode, hrep⟩

/-- An outcome that can only be a refusal. -/
theorem wrote_refused (h : Represents t s) {call : TableCall DataEntry}
    (hout : Outcome env t call code t' ds) (hcode : code ≠ 0) : Wrote s code t' none := by
  obtain ⟨rfl, -⟩ := hout.eq_of_code_ne_zero hcode
  exact ⟨hcode, h⟩

theorem resize_wrote (h : Represents t s) {N : UInt64}
    (hout : Outcome env t (.resize N) code t' ds) (hN : N ≠ 0)
    (hcode : code = 0 ↔ Write.RESIZE.Suits t { newSize := N })
    (hbreaks : ¬(2 ^ 63 < N.toNat ∧ s.map = ∅)) : Wrote s code t' (s.resized N) := by
  have hsuits : Write.RESIZE.Suits t { newSize := N } ↔ roundCapacity N = s.bucketsCount ∨
      (roundCapacity N).toNat * SIZEOF_BUCKET < 2 ^ 64 ∧ s.count ≤ (roundCapacity N).toNat ∧
        s.Fits (roundCapacity N) := by
    rw [Write.Suits, h.bucketsCount, UInt64.le_iff_toNat_le, h.count_eq]
    rw [h.overflows_iff, not_not]
  rw [hsuits] at hcode
  rw [MapState.resized, if_neg hN]
  cases hout with
  | refused hrefusal =>
    obtain ⟨hne, hnot⟩ := not_or.mp (mt hcode.mpr hrefusal.code_ne_zero)
    rw [if_neg hne, if_neg hnot]
    exact ⟨hrefusal.code_ne_zero, h⟩
  | read hread => exact absurd hread Bool.false_ne_true
  | sameSize _ hsame =>
    rw [if_pos (hsame.trans h.bucketsCount)]
    exact ⟨rfl, h⟩
  | moved _ hne _ hbytes hmoved =>
    have hne : roundCapacity N ≠ s.bucketsCount := h.bucketsCount ▸ hne
    have hfits := (hcode.mp rfl).resolve_left hne
    rw [if_neg hne, if_pos hfits]
    have hsmall : N.toNat ≤ 2 ^ 63 := by
      refine not_lt.mp fun hlarge => hbreaks ⟨hlarge, ?_⟩
      have hcount := hfits.2.1
      rw [roundCapacity_eq_zero hlarge] at hcount
      exact s.map_eq_empty_of_count (Nat.le_zero.mp hcount)
    have hpow := (roundCapacity_spec hN hsmall).1
    obtain ⟨hplaced, hcontents⟩ := hmoved (isPowerOfTwo_pos hpow)
    exact ⟨rfl, h.moved hpow hbytes hplaced hcontents⟩

variable (h : Represents t s) (henv : env.Succeeds) (hnul : 0 ∉ key) (hne : key ≠ [])

include h henv hnul hne

theorem set_wrote (hout : Outcome env t (.set key (some b) d) code t' ds) (size : UInt64) :
    Wrote s code t' (s.written key b.val.data size .SET) := by
  rw [MapState.written]
  by_cases hshort : key.length < KEY_MAX_LEN
  · obtain ⟨s', hrep, hanswers⟩ := h.set_outcome henv ⟨hnul, hne, hshort⟩ hout
    simp only [hshort, true_and]
    exact wrote_of_answers hrep hanswers
  · have hlen : KEY_MAX_LEN ≤ ustrlen key := by
      rw [ustrlen_eq, cstr_of_zero_notMem hnul]
      exact not_lt.mp hshort
    rw [if_neg fun hand => hshort hand.1]
    refine h.wrote_refused hout ?_
    cases hout with
    | refused hrefusal => exact hrefusal.code_ne_zero
    | read hread => exact absurd hread Bool.false_ne_true
    | setFound hfits => exact absurd hfits (not_lt.mpr hlen)
    | setInserted hfits => exact absurd hfits (not_lt.mpr hlen)

theorem add_wrote (hout : Outcome env t (.add key (some b)) code t' ds) (size : UInt64)
    (hbreaks : ¬(KEY_MAX_LEN ≤ key.length ∧ s.crowd key ≠ BUCKET_CAPACITY)) :
    Wrote s code t' (s.written key b.val.data size .ADD) := by
  rw [MapState.written]
  by_cases hshort : key.length < KEY_MAX_LEN
  · obtain ⟨s', hrep, hanswers⟩ := h.add_outcome henv ⟨hnul, hne, hshort⟩ hout
    simp only [not_or] at hanswers
    exact wrote_of_answers hrep hanswers
  · have hcrowd : s.crowd key = BUCKET_CAPACITY :=
      not_not.mp fun hne => hbreaks ⟨not_lt.mp hshort, hne⟩
    rw [if_neg fun hand => hand.2 hcrowd]
    refine h.wrote_refused hout ?_
    cases hout with
    | refused hrefusal => exact hrefusal.code_ne_zero
    | read hread => exact absurd hread Bool.false_ne_true
    | addInserted _ hfree =>
      exact absurd ((h.full_iff key).mpr hcrowd _) (Bool.eq_false_iff.mp hfree)

theorem replace_wrote (hout : Outcome env t (.replace key (some b) d) code t' ds)
    (size : UInt64) : Wrote s code t' (s.written key b.val.data size .REPLACE) := by
  rw [MapState.written]
  by_cases hshort : key.length < KEY_MAX_LEN
  · obtain ⟨s', hrep, hanswers⟩ := h.replace_outcome henv ⟨hnul, hne, hshort⟩ hout
    exact wrote_of_answers hrep hanswers
  · rw [if_neg (h.notMem_of_long (not_lt.mp hshort))]
    refine h.wrote_refused hout ?_
    cases hout with
    | refused hrefusal => exact hrefusal.code_ne_zero
    | read hread => exact absurd hread Bool.false_ne_true
    | replaced hfound => exact absurd hfound (h.missing_of_long hnul (not_lt.mp hshort) _)

theorem delete_wrote (hout : Outcome env t (.delete key d) code t' ds) (value : List UInt8)
    (size : UInt64) : Wrote s code t' (s.written key value size .DEL) := by
  rw [MapState.written]
  by_cases hshort : key.length < KEY_MAX_LEN
  · obtain ⟨s', hrep, hanswers⟩ := h.delete_outcome henv ⟨hnul, hne, hshort⟩ hout
    exact wrote_of_answers hrep hanswers
  · rw [if_neg (h.notMem_of_long (not_lt.mp hshort))]
    refine h.wrote_refused hout ?_
    cases hout with
    | refused hrefusal => exact hrefusal.code_ne_zero
    | read hread => exact absurd hread Bool.false_ne_true
    | deleted hfound => exact absurd hfound (h.missing_of_long hnul (not_lt.mp hshort) _)

end Represents

end SimpleCDatabase
