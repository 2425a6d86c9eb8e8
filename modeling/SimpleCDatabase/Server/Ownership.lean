import Mathlib.Algebra.Order.Group.Multiset
import Mathlib.Data.List.ReduceOption
import Mathlib.Tactic.Abel
import SimpleCDatabase.Server.Bounds
import SimpleCDatabase.Server.Levels
import SimpleCDatabase.Server.Lifecycle

/-!
# Ownership of the memory of a connection

What the functions of the parser do with the blocks that a connection has been handed out, as
triples: a block is freed once or kept where the connection points to it, whatever bytes arrive and
whatever memory is refused, as long as no argument is stored past the arrays that have been
allocated for it.

## Main definitions

* `OwnedContext.Freeable`, `OwnedContext.Ready`: the pointers of a connection between two callbacks,
  and at the start of an iteration of the parser.
* `Memory.Rests`: what holds of the context and its pointers between two callbacks.

## Main results

* `Memory.parseStep_owning`: one iteration of the parser.
* `Memory.onRead_owns`: a read.

## References

* `src/server.c`: `append_to_buffer`, `free_parser_resources`, `parse_buffer`, `on_read`.
-/

namespace SimpleCDatabase

open Traced Blocks

/-! ### The pointers of a connection -/

namespace OwnedContext

variable {c : OwnedContext}

/-- The arguments that have been counted are stored, one after the other. -/
def Stored (c : OwnedContext) : Prop :=
  ∃ (args : List ℕ) (rest : ℕ), args.length = c.ctx.argsParsed ∧
    c.ptrs.args = args.map some ++ List.replicate rest none

/-- The arrays of the arguments can be freed. -/
structure Freeable (c : OwnedContext) : Prop where
  absent : c.ptrs.tempArgv = none → c.ptrs.args = []
  stored : c.ptrs.tempArgv ≠ none → c.Stored

/-- The arrays have been allocated for all arguments. -/
structure Allocated (c : OwnedContext) : Prop where
  present : c.ptrs.tempArgv ≠ none
  size : c.ptrs.args.length = c.ctx.argsTotal
  stored : c.Stored

/-- What holds at the start of an iteration of the parser: there are no arrays before the first
argument is stored, and afterwards they have been allocated. -/
structure Ready (c : OwnedContext) : Prop where
  idle : c.ctx.state = .expectType → c.ctx.argsParsed = 0
  unallocated : c.ctx.argsParsed = 0 →
    c.ptrs.tempArgv = none ∧ c.ptrs.args = [] ∧ c.ptrs.tempArgLengths = none
  allocated : c.ctx.argsParsed ≠ 0 → c.Allocated

theorem Allocated.freeable (h : c.Allocated) : c.Freeable :=
  ⟨fun habsent => absurd habsent h.present, fun _ => h.stored⟩

theorem Ready.freeable (h : c.Ready) : c.Freeable := by
  by_cases h0 : c.ctx.argsParsed = 0
  · obtain ⟨hargv, hargs, -⟩ := h.unallocated h0
    exact ⟨fun _ => hargs, fun hpresent => absurd hargv hpresent⟩
  · exact (h.allocated h0).freeable

end OwnedContext

/-! ### Triples -/

namespace Memory

section Triples

variable {α β : Type} {P : Multiset ℕ} {Q : α → Multiset ℕ → Prop}

/-- The triples of this module. -/
abbrev Owns (P : Multiset ℕ) (x : Traced MemoryEvent α) (Q : α → Multiset ℕ → Prop) : Prop :=
  Owning MemoryEvent.op P x Q

theorem heap_op (o : Blocks.Op) : MemoryEvent.op (.heap o) = some o := rfl

theorem ofServer_opless (x : Traced ServerEvent α) :
    Only (fun e => MemoryEvent.op e = none) (ofServer x) := by
  intro t e he
  obtain ⟨_, -, rfl⟩ := List.mem_map.mp he
  rfl

/-- A part of the first level owns nothing, and what is known of its value is known here. -/
theorem owns_ofServer {x : Traced ServerEvent α} {V : α → Prop}
    (hx : ∀ log, x.Ensures log fun a _ => V a) : Owns P (ofServer x) fun a m => m = P ∧ V a := by
  intro t frame fault ht
  obtain ⟨m, hm, rfl⟩ := owning_quiet (ofServer_opless x) t frame fault ht
  exact ⟨m, hm, rfl, hx _⟩

theorem owns_quiet (x : Traced ServerEvent α) : Owns P (ofServer x) fun _ m => m = P :=
  owning_quiet (ofServer_opless x)

theorem malloc_owns (env : ServerEnv) (size : ℕ) :
    Owns P (malloc env size) fun p m => m = pointed p + P :=
  owning_tryMalloc heap_op (ofServer_opless _)

theorem realloc_owns (env : ServerEnv) (p : Option ℕ) (size : ℕ) :
    Owns (pointed p + P) (realloc env p size) fun q m => m = pointed (q <|> p) + P :=
  owning_tryRealloc heap_op (ofServer_opless _) p

theorem free_owns (p : Option ℕ) : Owns (pointed p + P) (free p) fun _ m => m = P :=
  owning_free heap_op p

end Triples

/-! ### The arguments -/

/-- The elements of `temp_argv` that have been counted are freed. -/
theorem freeArgs_owns (args : List ℕ) (rest : List (Option ℕ)) {P : Multiset ℕ} :
    Owns ((args : Multiset ℕ) + P) (freeArgs (args.map some ++ rest) args.length)
      fun _ m => m = P := by
  induction args with
  | nil => exact owning_pure (zero_add P)
  | cons b args ih =>
    have hhead : ((b :: args : List ℕ) : Multiset ℕ) + P = pointed (some b) + (args + P) := by
      rw [pointed_some, ← add_assoc, Multiset.singleton_add, Multiset.cons_coe]
    refine Owning.of_eq ?_ hhead
    refine (free_owns (some b)).bind ?_
    rintro _ _ rfl
    exact ih

variable {c : OwnedContext}

/-- What a connection owns besides its arguments. -/
def otherBlocks (p : Pointers) : Multiset ℕ :=
  pointed p.buffer + (p.writeBlocks + pointed p.context)

theorem blocks_stored {p : Pointers} (args : List ℕ) {rest : ℕ}
    (h : p.args = args.map some ++ List.replicate rest none) :
    p.blocks = (args : Multiset ℕ) +
      (pointed p.tempArgv + (pointed p.tempArgLengths + otherBlocks p)) := by
  have hargs : p.args.reduceOption = args := by
    rw [h, List.reduceOption_append, List.reduceOption_replicate_none, List.append_nil,
      List.reduceOption, List.filterMap_map]
    exact List.filterMap_some
  rw [Pointers.blocks, Pointers.argumentBlocks, hargs, otherBlocks]
  abel

theorem blocks_absent {p : Pointers} (hargv : p.tempArgv = none) (hargs : p.args = []) :
    p.blocks = pointed p.tempArgLengths + otherBlocks p := by
  have hnone : p.args = [].map some ++ List.replicate 0 none := hargs
  rw [blocks_stored [] hnone, hargv, pointed_none, Multiset.coe_nil, zero_add, zero_add]

/-- The context without the arrays of the arguments. -/
def cleared (c : OwnedContext) : OwnedContext where
  ctx := c.ctx.freeParserResources
  ptrs := { c.ptrs with tempArgv := none, args := [], tempArgLengths := none }

theorem freeParserResources_owns (h : c.Freeable) : Owns c.ptrs.blocks (freeParserResources c)
    fun c' m => m = c'.ptrs.blocks ∧ c' = cleared c := by
  have hlast : Owns (pointed c.ptrs.tempArgLengths + otherBlocks c.ptrs)
      (do free c.ptrs.tempArgLengths; pure (cleared c))
      fun c' m => m = c'.ptrs.blocks ∧ c' = cleared c := by
    refine (free_owns _).bind ?_
    rintro _ _ rfl
    refine owning_pure ⟨?_, rfl⟩
    rw [blocks_absent rfl rfl, cleared, pointed_none, zero_add]
    rfl
  rw [freeParserResources]
  split
  · rename_i hpresent
    obtain ⟨args, rest, hlen, hargs⟩ := h.stored hpresent
    rw [hargs, ← hlen]
    refine Owning.of_eq ?_ (blocks_stored args hargs)
    refine (freeArgs_owns args _).bind ?_
    rintro _ _ rfl
    refine (free_owns _).bind ?_
    rintro _ _ rfl
    exact hlast
  · rename_i habsent
    have hargv : c.ptrs.tempArgv = none := not_not.mp habsent
    exact hlast.of_eq (blocks_absent hargv (h.absent hargv))

/-- What an iteration leaves for the next one, or at the end of the loop. -/
def Left : ForInStep OwnedContext → Prop
  | .yield c => c.Ready
  | .done c => c.Freeable ∧ (c.ctx.closing = false → c.Ready)

/-- The blocks that are owned are those that the connection points to. -/
def Leaves (r : ForInStep OwnedContext) (m : Multiset ℕ) : Prop := m = r.value.ptrs.blocks ∧ Left r

theorem reject_owns (h : c.Freeable) : Owns c.ptrs.blocks (reject c) Leaves := by
  have hreject (log : List ServerEvent) :
      c.ctx.reject.Ensures log fun r _ => r = .done { c.ctx with closing := true } := rfl
  refine (owns_ofServer hreject).bind ?_
  rintro _ _ ⟨rfl, rfl⟩
  have hfreeable : OwnedContext.Freeable ⟨{ c.ctx with closing := true }, c.ptrs⟩ :=
    ⟨h.absent, h.stored⟩
  exact owning_pure ⟨rfl, hfreeable, fun hopen => Bool.noConfusion hopen⟩

theorem abandon_owns (h : c.Freeable) : Owns c.ptrs.blocks (abandon c) Leaves := by
  refine (freeParserResources_owns h).bind ?_
  rintro _ _ ⟨rfl, rfl⟩
  exact reject_owns ⟨fun _ => rfl, fun hpresent => absurd rfl hpresent⟩

/-! ### The input buffer -/

/-- The state of the parser, as far as the pointers depend on it, is kept, and so are the pointers
to the arguments. -/
structure SameArguments (c c' : OwnedContext) : Prop where
  state : c'.ctx.state = c.ctx.state
  total : c'.ctx.argsTotal = c.ctx.argsTotal
  parsed : c'.ctx.argsParsed = c.ctx.argsParsed
  argv : c'.ptrs.tempArgv = c.ptrs.tempArgv
  args : c'.ptrs.args = c.ptrs.args
  lengths : c'.ptrs.tempArgLengths = c.ptrs.tempArgLengths

namespace SameArguments

variable {c' : OwnedContext} (h : SameArguments c c')

include h

theorem stored (hc : c.Stored) : c'.Stored := by
  rw [OwnedContext.Stored, h.parsed, h.args]
  exact hc

theorem allocated (hc : c.Allocated) : c'.Allocated :=
  ⟨h.argv ▸ hc.present, by rw [h.args, h.total, hc.size], h.stored hc.stored⟩

theorem freeable (hc : c.Freeable) : c'.Freeable :=
  ⟨fun habsent => h.args ▸ hc.absent (h.argv ▸ habsent),
    fun hpresent => h.stored (hc.stored (h.argv ▸ hpresent))⟩

theorem ready (hc : c.Ready) : c'.Ready where
  idle := by
    rw [h.state, h.parsed]
    exact hc.idle
  unallocated := by
    rw [h.parsed, h.argv, h.args, h.lengths]
    exact hc.unallocated
  allocated := by
    rw [h.parsed]
    exact fun hpos => h.allocated (hc.allocated hpos)

end SameArguments

theorem appendToBuffer_owns (env : ServerEnv) (data : List UInt8) :
    Owns c.ptrs.blocks (appendToBuffer env c data)
      fun c' m => m = c'.ptrs.blocks ∧ SameArguments c c' := by
  have hsame {ctx : ClientContext} {buffer : Option ℕ} (hstate : ctx.state = c.ctx.state)
      (htotal : ctx.argsTotal = c.ctx.argsTotal) (hparsed : ctx.argsParsed = c.ctx.argsParsed) :
      SameArguments c ⟨ctx, { c.ptrs with buffer }⟩ :=
    ⟨hstate, htotal, hparsed, rfl, rfl, rfl⟩
  refine owning_ite (fun _ => ?_) fun _ => owning_pure ⟨rfl, hsame rfl rfl rfl⟩
  have hbuffer (p : Pointers) : p.blocks = pointed p.buffer +
      (p.argumentBlocks + (p.writeBlocks + pointed p.context)) := by
    rw [Pointers.blocks]
    abel
  refine Owning.of_eq ?_ (hbuffer _)
  refine (realloc_owns env _ _).bind ?_
  rintro (_ | buffer) _ rfl
  · have hclose (log : List ServerEvent) :
        c.ctx.uvClose.Ensures log fun ctx _ => ctx = { c.ctx with closing := true } := rfl
    refine (owns_ofServer hclose).bind ?_
    rintro _ _ ⟨rfl, rfl⟩
    exact owning_pure ⟨(hbuffer _).symm, hsame rfl rfl rfl⟩
  · refine (owns_quiet _).bind ?_
    rintro memory _ rfl
    exact owning_pure ⟨(hbuffer { c.ptrs with buffer := some buffer }).symm, hsame rfl rfl rfl⟩

/-! ### Data -/

/-- The context with the arrays that have been allocated, or refused. -/
def withArrays (c : OwnedContext) (argv lengths : Option ℕ) : OwnedContext where
  ctx := { c.ctx with
    tempArgv := if argv.isSome then List.replicate c.ctx.argsTotal [] else []
    tempArgLengths := if lengths.isSome then List.replicate c.ctx.argsTotal 0 else [] }
  ptrs := { c.ptrs with
    tempArgv := argv
    args := if argv.isSome then List.replicate c.ctx.argsTotal none else []
    tempArgLengths := lengths }

section Arrays

variable (h : c.Ready) (h0 : c.ctx.argsParsed = 0) (argv lengths : Option ℕ)

include h0 in
private theorem withArrays_stored (b : ℕ) : (withArrays c (some b) lengths).Stored :=
  ⟨[], c.ctx.argsTotal, h0.symm, rfl⟩

include h0 in
private theorem withArrays_freeable : (withArrays c argv lengths).Freeable := by
  cases argv with
  | none => exact ⟨fun _ => rfl, fun hpresent => absurd rfl hpresent⟩
  | some b => exact ⟨nofun, fun _ => withArrays_stored h0 lengths b⟩

include h0 in
private theorem withArrays_allocated (b : ℕ) : (withArrays c (some b) lengths).Allocated :=
  ⟨Option.some_ne_none b, List.length_replicate, withArrays_stored h0 lengths b⟩

include h h0 in
private theorem blocks_withArrays : (withArrays c argv lengths).ptrs.blocks =
    pointed lengths + (pointed argv + c.ptrs.blocks) := by
  obtain ⟨hargv, hargs, hlengths⟩ := h.unallocated h0
  rw [blocks_absent hargv hargs, hlengths, pointed_none, zero_add]
  cases argv with
  | none =>
    rw [blocks_absent rfl rfl, pointed_none, zero_add]
    rfl
  | some b =>
    have hnew : (withArrays c (some b) lengths).ptrs.args =
      [].map some ++ List.replicate c.ctx.argsTotal none := rfl
    rw [blocks_stored [] hnew, Multiset.coe_nil, zero_add, add_left_comm]
    rfl

end Arrays

/-- The arrays are allocated, or some of them are refused. -/
theorem allocArguments_owns (env : ServerEnv) (h : c.Ready) :
    Owns c.ptrs.blocks (allocArguments env c) fun r m => m = r.2.ptrs.blocks ∧ r.2.Freeable ∧
      (r.1 = true → r.2.Allocated) ∧ r.2.ctx.argsParsed = c.ctx.argsParsed ∧
      r.2.ctx.argsTotal = c.ctx.argsTotal ∧ r.2.ctx.state = c.ctx.state := by
  by_cases h0 : c.ctx.argsParsed = 0
  · rw [allocArguments, if_pos h0]
    refine (malloc_owns env _).bind ?_
    rintro argv _ rfl
    refine (malloc_owns env _).bind ?_
    rintro lengths _ rfl
    refine owning_pure ⟨(blocks_withArrays h h0 argv lengths).symm,
      withArrays_freeable h0 argv lengths, fun hok => ?_, rfl, rfl, rfl⟩
    obtain ⟨b, rfl⟩ := Option.isSome_iff_exists.mp (Bool.and_eq_true_iff.mp hok).1
    exact withArrays_allocated h0 lengths b
  · rw [allocArguments, if_neg h0]
    exact owning_pure ⟨rfl, h.freeable, fun _ => h.allocated h0, rfl, rfl, rfl⟩

/-- The place where the next argument is stored points to no block. -/
private theorem stored_next (h : c.Allocated) (hlt : c.ctx.argsParsed < c.ctx.argsTotal) :
    ∃ (args : List ℕ) (rest : ℕ), args.length = c.ctx.argsParsed ∧
      c.ptrs.args = args.map some ++ List.replicate (rest + 1) none ∧
      ∀ arg, c.ptrs.args.set c.ctx.argsParsed arg =
        args.map some ++ arg :: List.replicate rest none := by
  obtain ⟨args, rest, hlen, hargs⟩ := h.stored
  obtain ⟨rest, rfl⟩ : ∃ n, rest = n + 1 := by
    have hsize := h.size
    rw [hargs, List.length_append, List.length_map, List.length_replicate, hlen] at hsize
    exact ⟨rest - 1, by omega⟩
  refine ⟨args, rest, hlen, hargs, fun arg => ?_⟩
  have hmap : c.ctx.argsParsed = (args.map some).length := by rw [List.length_map, hlen]
  rw [hargs, hmap, List.set_append_right _ _ le_rfl, Nat.sub_self]
  rfl

/-- An argument is stored after those that have been stored. -/
theorem storeArgument_owns (env : ServerEnv) (h : c.Allocated)
    (hlt : c.ctx.argsParsed < c.ctx.argsTotal) :
    Owns c.ptrs.blocks (storeArgument env c) fun r m => m = r.2.ptrs.blocks ∧ r.2.Freeable ∧
      (r.1 = true → r.2.Allocated ∧ r.2.ctx.argsParsed ≠ 0 ∧ r.2.ctx.state = c.ctx.state) := by
  obtain ⟨args, rest, hlen, hargs, hset⟩ := stored_next h hlt
  refine (malloc_owns env _).bind ?_
  rintro (_ | b) _ rfl
  · refine (owns_quiet _).bind ?_
    rintro _ _ rfl
    -- the pointer that is stored is null, as the one that was there
    have hkept : c.ptrs.args.set c.ctx.argsParsed none = c.ptrs.args := by
      rw [hset, hargs]
      rfl
    refine owning_pure ⟨?_, ⟨fun habsent => absurd habsent h.present, fun _ => ?_⟩,
      fun hok => Bool.noConfusion hok⟩
    · simp only [hkept, pointed_none, zero_add]
    · exact ⟨args, rest + 1, hlen, hkept.trans hargs⟩
  · refine (owns_quiet _).bind ?_
    rintro _ _ rfl
    refine (owns_quiet _).bind ?_
    rintro _ _ rfl
    have hdiscard (ctx : ClientContext) (n : ℕ) (log : List ServerEvent) :
        (ctx.discard n).Ensures log fun ctx' _ => ctx' = ctx.shift n := rfl
    refine (owns_ofServer (hdiscard _ _)).bind ?_
    rintro _ _ ⟨rfl, rfl⟩
    have hargs' : c.ptrs.args.set c.ctx.argsParsed (some b) =
        (args ++ [b]).map some ++ List.replicate rest none := by
      rw [hset, List.map_append, List.append_assoc]
      rfl
    have hlen' : (args ++ [b]).length = c.ctx.argsParsed + 1 := by
      rw [List.length_append, hlen]
      rfl
    have hallocated {ctx : ClientContext} (htotal : ctx.argsTotal = c.ctx.argsTotal)
        (hparsed : ctx.argsParsed = c.ctx.argsParsed + 1) : OwnedContext.Allocated ⟨ctx,
          { c.ptrs with args := c.ptrs.args.set c.ctx.argsParsed (some b) }⟩ :=
      ⟨h.present, (List.length_set.trans h.size).trans htotal.symm, args ++ [b], rest,
        hlen'.trans hparsed.symm, hargs'⟩
    refine owning_pure ⟨?_, OwnedContext.Allocated.freeable (hallocated rfl rfl),
      fun _ => ⟨hallocated rfl rfl, Nat.succ_ne_zero _, rfl⟩⟩
    rw [blocks_stored args hargs, blocks_stored (args ++ [b]) hargs', pointed_some,
      ← Multiset.coe_add, Multiset.coe_singleton, add_assoc, add_left_comm]
    rfl

/-! ### Execution -/

theorem blocks_write (p : Pointers) (response : List UInt8) (base req : ℕ) :
    ({ p with writes := ⟨response, base, req⟩ :: p.writes } : Pointers).blocks =
      pointed (some req) + (pointed (some base) + p.blocks) := by
  have hwrites : ({ p with writes := ⟨response, base, req⟩ :: p.writes } : Pointers).writeBlocks =
      pointed (some base) + (pointed (some req) + p.writeBlocks) := by
    simp only [Pointers.writeBlocks, List.flatMap_cons, pointed_some, ← Multiset.coe_add,
      ← Multiset.coe_singleton]
    rfl
  rw [Pointers.blocks, hwrites, Pointers.blocks, Pointers.argumentBlocks, Pointers.argumentBlocks]
  abel

/-- The response and the request are freed, or handed over to libuv. -/
theorem sendReply_owns (env : ServerEnv) (hfree : c.Freeable) (hready : c.Ready)
    (result : ExecuteResult) (body : Option ℕ) :
    Owns (pointed body + c.ptrs.blocks) (sendReply env c result body) Leaves := by
  refine (realloc_owns env body _).bind ?_
  rintro (_ | base) _ rfl
  · refine (free_owns body).bind ?_
    rintro _ _ rfl
    exact abandon_owns hfree
  · refine (owns_quiet _).bind ?_
    rintro memory _ rfl
    refine (owns_quiet _).bind ?_
    rintro _ _ rfl
    refine (owns_quiet _).bind ?_
    rintro _ _ rfl
    refine (malloc_owns env _).bind ?_
    rintro (_ | req) _ rfl
    · refine Owning.of_eq ?_ (zero_add _)
      refine (free_owns (some base)).bind ?_
      rintro _ _ rfl
      exact abandon_owns hfree
    · refine owning_ite (fun _ => ?_) fun _ => ?_
      · refine Owning.of_eq ?_ (add_left_comm _ _ _)
        refine (free_owns (some base)).bind ?_
        rintro _ _ rfl
        refine (free_owns (some req)).bind ?_
        rintro _ _ rfl
        exact abandon_owns hfree
      · refine (owns_quiet _).bind ?_
        rintro _ _ rfl
        have hsame (writes : List PendingWrite) : SameArguments c ⟨c.ctx, { c.ptrs with writes }⟩ :=
          ⟨rfl, rfl, rfl, rfl, rfl, rfl⟩
        exact owning_pure ⟨(blocks_write _ _ _ _).symm, (hsame _).ready hready⟩

/-- A command is executed, and its result sent. -/
private theorem execute_owns (env : ServerEnv) (h : c.Ready) (request : Request)
    (r : ExecuteResult × ServerContext) :
    Owns c.ptrs.blocks (do
      ofServer (Traced.emit (.execute request))
      let body ← bodyBlock r.1
      sendReply env { c with ctx := { c.ctx with serverCtx := r.2 } } r.1 body) Leaves := by
  refine (owns_quiet _).bind ?_
  rintro _ _ rfl
  have hsame : SameArguments c { c with ctx := { c.ctx with serverCtx := r.2 } } :=
    ⟨rfl, rfl, rfl, rfl, rfl, rfl⟩
  have hbody : Owns c.ptrs.blocks (bodyBlock r.1) fun p m => m = pointed p + c.ptrs.blocks :=
    owning_tryMalloc heap_op (only_pure _)
  refine hbody.bind ?_
  rintro body _ rfl
  exact sendReply_owns env (hsame.freeable h.freeable) (hsame.ready h) _ body

theorem dispatch_owns (tables : Env (Event DataEntry)) (env : ServerEnv) (h : c.Ready) :
    Owns c.ptrs.blocks (dispatch tables env c) Leaves :=
  owning_ite (fun _ => abandon_owns h.freeable) fun _ => execute_owns env h _ _

/-! ### Iterations -/

/-- In front of the data of an argument, as long as not all have been stored. -/
theorem expectData_owns (tables : Env (Event DataEntry)) (env : ServerEnv) (h : c.Ready)
    (hdata : c.ctx.state = .expectData)
    (hlt : c.ctx.dataToRead + 2 ≤ c.ctx.bufferUsed → c.ctx.argsParsed < c.ctx.argsTotal) :
    Owns c.ptrs.blocks (expectData tables env c) Leaves := by
  refine owning_ite (fun _ => owning_pure ⟨rfl, h.freeable, fun _ => h⟩) fun hused => ?_
  refine (allocArguments_owns env h).bind ?_
  rintro ⟨allocated, c₁⟩ _ ⟨rfl, hfree, hallocated, hparsed, htotal, hstate⟩
  refine owning_ite (fun hok => ?_) fun _ => abandon_owns hfree
  have hroom : c₁.ctx.argsParsed < c₁.ctx.argsTotal := by
    rw [show c₁.ctx.argsParsed = _ from hparsed, show c₁.ctx.argsTotal = _ from htotal]
    exact hlt (Nat.not_lt.mp hused)
  refine (storeArgument_owns env (hallocated hok) hroom).bind ?_
  rintro ⟨stored, c₂⟩ _ ⟨rfl, hfree, hstored⟩
  refine owning_ite (fun hok => ?_) fun _ => abandon_owns hfree
  obtain ⟨hallocated, hpos, hstate'⟩ := hstored hok
  have hexpect : c₂.ctx.state = .expectData := hstate'.trans (hstate.trans hdata)
  refine owning_ite (fun _ => ?_) fun _ => ?_
  · refine dispatch_owns tables env ⟨fun htype => ?_, fun h0 => absurd h0 hpos, fun _ => hallocated⟩
    exact nomatch hexpect.symm.trans htype
  · have hready : OwnedContext.Ready ⟨{ c₂.ctx with state := .expectLength }, c₂.ptrs⟩ :=
      ⟨nofun, fun h0 => absurd h0 hpos, fun _ =>
        ⟨hallocated.present, hallocated.size, hallocated.stored⟩⟩
    exact owning_pure ⟨rfl, hready⟩

private theorem ready_shift {ctx : ClientContext} {ptrs : Pointers}
    (h : OwnedContext.Ready ⟨ctx, ptrs⟩) (n : ℕ) : OwnedContext.Ready ⟨ctx.shift n, ptrs⟩ :=
  have hsame : SameArguments ⟨ctx, ptrs⟩ ⟨ctx.shift n, ptrs⟩ := ⟨rfl, rfl, rfl, rfl, rfl, rfl⟩
  hsame.ready h

/-- In front of a header. -/
private theorem headerRead_left {ctx : ClientContext} {ptrs : Pointers} {marker : UInt8}
    {least greatest : ℤ} {next : ℕ → ClientContext} {r : ForInStep ClientContext}
    {new : List ServerEvent} (hread : HeaderRead ctx marker least greatest next r new)
    (h : OwnedContext.Ready ⟨ctx, ptrs⟩) (hnext : ∀ n, OwnedContext.Ready ⟨next n, ptrs⟩) :
    Left (mapStep (fun ctx => ⟨ctx, ptrs⟩) r) := by
  cases hread with
  | starved | unended => exact ⟨h.freeable, fun _ => h⟩
  | unmarked | refused =>
    exact ⟨⟨h.freeable.absent, h.freeable.stored⟩, fun hopen => Bool.noConfusion hopen⟩
  | accepted => exact ready_shift (hnext _) _

/-- A part of the first level that leaves the pointers as they are. -/
private theorem keep_owns {x : Traced ServerEvent (ForInStep ClientContext)} {ptrs : Pointers}
    (hx : ∀ log, x.Ensures log fun r _ => Left (mapStep (fun ctx => ⟨ctx, ptrs⟩) r)) :
    Owns ptrs.blocks (do
      let r ← ofServer x
      pure (mapStep (fun ctx => ⟨ctx, ptrs⟩) r)) Leaves := by
  refine (owns_ofServer hx).bind ?_
  rintro r _ ⟨rfl, hleft⟩
  refine owning_pure ⟨?_, hleft⟩
  cases r <;> rfl

/-- In front of an array header. -/
theorem expectType_owns (env : ServerEnv) (h : c.Ready) (hfits : c.ctx.Fits)
    (htype : c.ctx.state = .expectType) : Owns c.ptrs.blocks (expectType env c) Leaves := by
  refine keep_owns fun log => (expectType_spec env log hfits).mono ?_
  rintro r _ ⟨new, hread, -⟩
  exact headerRead_left hread (ready_shift h _) fun n =>
    ⟨nofun, fun _ => h.unallocated (h.idle htype), fun hpos => absurd rfl hpos⟩

/-- In front of a bulk header. -/
theorem expectLength_owns (env : ServerEnv) (h : c.Ready) (hfits : c.ctx.Fits) :
    Owns c.ptrs.blocks (expectLength env c) Leaves := by
  refine keep_owns fun log => (expectLength_spec env log hfits).mono fun r new hread => ?_
  exact headerRead_left hread h fun n => ⟨nofun, h.unallocated, fun hpos =>
    ⟨(h.allocated hpos).present, (h.allocated hpos).size, (h.allocated hpos).stored⟩⟩

/-- **One iteration of the parser**, as long as not all arguments have been stored. -/
theorem parseStep_owning (tables : Env (Event DataEntry)) (env : ServerEnv) (h : c.Ready)
    (hparsing : c.ctx.Parsing) (hspent : ¬c.ctx.Spent) :
    Owns c.ptrs.blocks (parseStep tables env c) Leaves := by
  rw [parseStep]
  cases hstate : c.ctx.state with
  | expectType => exact expectType_owns env h hparsing.fits hstate
  | expectLength => exact expectLength_owns env h hparsing.fits
  | expectData =>
    refine expectData_owns tables env h hstate fun hused => ?_
    exact lt_of_le_of_ne hparsing.parsed fun heq => hspent ⟨hstate, heq, hused⟩

/-! ### Reads -/

/-- What holds between two callbacks. -/
structure Rests (c : OwnedContext) : Prop where
  freeable : c.Freeable
  ready : c.ctx.closing = false → c.Ready
  settled : c.ctx.Settled

/-- The stream is passed to `uv_close`. -/
theorem Rests.close (h : Rests c) : Rests { c with ctx := { c.ctx with closing := true } } :=
  ⟨⟨h.freeable.absent, h.freeable.stored⟩, fun hopen => Bool.noConfusion hopen,
    ClientContext.Bounded.settled ⟨h.settled.1.parsed, h.settled.1.total, h.settled.1.data,
      h.settled.1.fits⟩ rfl⟩

section Reads

variable (tables : Env (Event DataEntry)) (env : ServerEnv) {t : List MemoryEvent}
  {frame : Multiset ℕ} {fault : Bool}

theorem parseBuffer_owns (h : Holds MemoryEvent.op t (c.ptrs.blocks + frame) fault)
    (hready : c.Ready) (hparsing : c.ctx.Parsing)
    (hguard : LoopGuarded (SimpleCDatabase.parseStep tables env) (fun ctx _ => ¬ctx.Spent)
      (c.ctx.bufferUsed + 1) c.ctx (t.filterMap MemoryEvent.serverEvent)) :
    (parseBuffer tables env c).Ensures t fun c' new =>
      Holds MemoryEvent.op (new ++ t) (c'.ptrs.blocks + frame) fault ∧ Rests c' := by
  have hstep (s : OwnedContext) (t : List MemoryEvent) (hspent : ¬s.ctx.Spent)
      (hs : s.Ready ∧ s.ctx.Parsing ∧ Holds MemoryEvent.op t (s.ptrs.blocks + frame) fault) :
      (parseStep tables env s).Ensures t fun r new =>
        Holds MemoryEvent.op (new ++ t) (r.value.ptrs.blocks + frame) fault ∧ Left r ∧
          Kept (mapStep OwnedContext.ctx r) := by
    obtain ⟨hready, hparsing, hholds⟩ := hs
    obtain ⟨m, hm, rfl, hleft⟩ :=
      parseStep_owning tables env hready hparsing hspent t frame fault hholds
    obtain ⟨-, hkept⟩ := parseStep_bounds tables env (t.filterMap MemoryEvent.serverEvent) hparsing
      hspent
    rw [← ((parseStep_agrees tables env s).erases t).1] at hkept
    exact ⟨hm, hleft, hkept⟩
  have hloop := loop_guarded (parseStep tables env) (fun s _ => ¬s.ctx.Spent)
    (fun s t => s.Ready ∧ s.ctx.Parsing ∧ Holds MemoryEvent.op t (s.ptrs.blocks + frame) fault)
    (fun s t => Holds MemoryEvent.op t (s.ptrs.blocks + frame) fault ∧ Rests s)
    (fun s t s' hs hInv hyield => by
      obtain ⟨hholds, hleft, hkept⟩ := hstep s t hs hInv
      rw [hyield] at hholds hleft hkept
      exact ⟨hleft, hkept, hholds⟩)
    (fun s t s' hs hInv hdone => by
      obtain ⟨hholds, hleft, hkept⟩ := hstep s t hs hInv
      rw [hdone] at hholds hleft hkept
      exact ⟨hholds, hleft.1, hleft.2, hkept⟩)
    (fun s t hInv => ⟨hInv.2.2, hInv.1.freeable, fun _ => hInv.1, hInv.2.1.settled⟩)
    (c.ctx.bufferUsed + 1) c t
    (Erases.loopGuarded (fun s => (parseStep_agrees tables env s).erases) hguard)
    ⟨hready, hparsing, h⟩
  exact hloop

/-- The buffer that libuv has read into is freed, and what else lives is the connection's. -/
private theorem freeBase_owns (base : Option ℕ)
    (h : Holds MemoryEvent.op t (c.ptrs.blocks + pointed base) fault) (hrests : Rests c) :
    (do free base; pure c : Traced MemoryEvent OwnedContext).Ensures t fun c' new =>
      Holds MemoryEvent.op (new ++ t) c'.ptrs.blocks fault ∧ Rests c' := by
  have hfree : Owns (c.ptrs.blocks + pointed base) (do free base; pure c)
      fun c' m => c' = c ∧ m = c.ptrs.blocks := by
    refine Owning.of_eq ?_ (add_comm _ _)
    refine (free_owns base).bind ?_
    rintro _ _ rfl
    exact owning_pure ⟨rfl, rfl⟩
  refine (hfree.ensures h).mono ?_
  rintro _ new ⟨_, hm, rfl, rfl⟩
  exact ⟨hm, hrests⟩

/-- Bytes are appended and parsed. -/
private theorem received_owns (base : Option ℕ) (data : List UInt8)
    (h : Holds MemoryEvent.op t (c.ptrs.blocks + pointed base) fault) (hrests : Rests c)
    (hopen : c.ctx.closing = false)
    {r : ClientContext × List ServerEvent}
    (hr : (SimpleCDatabase.appendToBuffer env c.ctx data).run
      (t.filterMap MemoryEvent.serverEvent) = r)
    (hguard : LoopGuarded (SimpleCDatabase.parseStep tables env) (fun ctx _ => ¬ctx.Spent)
      (r.1.bufferUsed + 1) r.1 (r.2 ++ t.filterMap MemoryEvent.serverEvent)) :
    (do
      let c ← appendToBuffer env c data
      let c ← parseBuffer tables env c
      free base
      pure c : Traced MemoryEvent OwnedContext).Ensures t fun c' new =>
        Holds MemoryEvent.op (new ++ t) c'.ptrs.blocks fault ∧ Rests c' := by
  obtain ⟨-, hparsing⟩ := appendToBuffer_bounds env (hrests.settled.2 hopen) data
    (t.filterMap MemoryEvent.serverEvent)
  obtain ⟨hctx, hlog⟩ := (appendToBuffer_agrees env c data).erases t
  rw [hr] at hctx hlog
  rw [hr, ← hctx] at hparsing
  rw [← hctx, ← hlog, ← List.filterMap_append] at hguard
  obtain ⟨_, happended, rfl, hsame⟩ := appendToBuffer_owns env data t _ _ h
  refine Ensures.bind (Q := fun c₁ new => Holds MemoryEvent.op (new ++ t)
    (c₁.ptrs.blocks + pointed base) fault ∧ c₁.Ready ∧ c₁.ctx.Parsing ∧
    LoopGuarded (SimpleCDatabase.parseStep tables env) (fun ctx _ => ¬ctx.Spent)
      (c₁.ctx.bufferUsed + 1) c₁.ctx ((new ++ t).filterMap MemoryEvent.serverEvent))
    ⟨happended, hsame.ready (hrests.ready hopen), hparsing, hguard⟩ ?_
  rintro c₁ new ⟨happended, hready, hparsing, hguard⟩
  refine (parseBuffer_owns tables env happended hready hparsing hguard).bind ?_
  rintro c₂ new' ⟨hparsed, hrests⟩
  exact (freeBase_owns base hparsed hrests).mono fun c' new'' hlast => by
    simpa only [List.append_assoc] using hlast

/-- **A read**, as long as no argument is stored past the arrays. -/
theorem onRead_owns (base : Option ℕ) {nread : ℤ} {buf : List UInt8}
    (h : Holds MemoryEvent.op t (c.ptrs.blocks + pointed base) fault) (hrests : Rests c)
    (hopen : c.ctx.closing = false) (hlen : nread ≤ buf.length)
    (hguard : 0 < nread → ReadGuarded tables env c.ctx (t.filterMap MemoryEvent.serverEvent)
      (buf.take (ssizetToSizet nread).1)) :
    (onRead tables env c nread buf base).Ensures t fun c' new =>
      Holds MemoryEvent.op (new ++ t) c'.ptrs.blocks fault ∧ Rests c' := by
  refine ensures_ite (fun hpos => ?_) fun _ => ensures_ite (fun _ => ?_) fun _ =>
    freeBase_owns base h hrests
  · have hsize : ssizetToSizet nread = (nread.toNat, false) := by
      rw [ssizetToSizet, if_neg (by omega)]
    specialize hguard hpos hopen
    rw [hsize] at hguard ⊢
    have hdata : buf.take nread.toNat ≠ [] := by
      intro hnil
      have hlength := congrArg List.length hnil
      rw [List.length_take, List.length_nil] at hlength
      omega
    have hstarted : Holds MemoryEvent.op (.server .timerStart :: t)
        (c.ptrs.blocks + pointed base) fault := h.quiet (List.forall_mem_singleton.mpr rfl)
    have hreceived := received_owns tables env base (buf.take nread.toNat) hstarted hrests hopen rfl
      (hguard hdata)
    have hstart : (ofServer (Traced.emit .timerStart)).Ensures t
        fun _ new => new = [.server .timerStart] := rfl
    refine hstart.bind ?_
    rintro _ _ rfl
    refine hreceived.mono fun c' new hlast => ?_
    rwa [List.append_assoc]
  · have hstop : (ofServer (Traced.emit .timerStop)).Ensures t
        fun _ new => new = [.server .timerStop] := rfl
    have hclose : (ofServer c.ctx.uvClose).Ensures ([.server .timerStop] ++ t)
        fun ctx new => ctx = { c.ctx with closing := true } ∧ new = [.server .close] := ⟨rfl, rfl⟩
    refine hstop.bind ?_
    rintro _ _ rfl
    refine hclose.bind ?_
    rintro _ _ ⟨rfl, rfl⟩
    let c₁ : OwnedContext := { c with ctx := { c.ctx with closing := true } }
    have hclosed : Holds MemoryEvent.op ([.server .close] ++ ([.server .timerStop] ++ t))
        (c₁.ptrs.blocks + pointed base) fault :=
      (h.quiet (List.forall_mem_singleton.mpr rfl)).quiet (List.forall_mem_singleton.mpr rfl)
    refine (freeBase_owns base hclosed hrests.close).mono fun c' new hlast => ?_
    rwa [List.append_assoc, List.append_assoc]

end Reads

end Memory

end SimpleCDatabase
