import SimpleCDatabase.Server.Levels
import SimpleCDatabase.Server.Lifecycle

/-!
# The writes that are pending

A response is handed over to libuv with the block it is in and the block of its request, and both
belong to the write until it is complete. A read adds the writes of the responses that it sends to
those that are pending, and keeps the pointers to the context.

## Main definitions

* `Memory.Sent`: the pointers before and after a stretch of events.
* `Memory.Sends`, `Memory.Mute`: what a computation leaves pending; one that sends nothing.

## Main results

* `Memory.parseStep_sends`: one iteration of the parser.
* `Memory.onRead_sends`: a read.

## References

* `src/server.c`: `parse_buffer`, `on_read`; `src/server.h`: `write_req_t`.
-/

namespace SimpleCDatabase

open Traced

namespace Memory

/-! ### The writes that are pending -/

/-- The responses that a stretch of events sends, the newest first. -/
def responses (new : List MemoryEvent) : List (List UInt8) :=
  (handleEvents (new.filterMap MemoryEvent.serverEvent)).filterMap HandleEvent.response

@[simp] theorem responses_append (new old : List MemoryEvent) :
    responses (new ++ old) = responses new ++ responses old := by
  simp only [responses, List.filterMap_append, handleEvents_append]

/-- The events of the connection that send nothing. -/
def Unsent (e : ServerEvent) : Prop := (ServerEvent.handleEvent e).bind HandleEvent.response = none

/-- The computation sends nothing. -/
def Mute {α : Type} (x : Traced MemoryEvent α) : Prop := Only (fun e => responses [e] = []) x

/-- The pointers before and after a stretch of events: the writes that are pending are those that
were pending before, and the responses that it sends. The pointers to the context stay. -/
structure Sent (p p' : Pointers) (new : List MemoryEvent) : Prop where
  writes : p'.writes.map PendingWrite.response =
    responses new ++ p.writes.map PendingWrite.response
  context : p'.context = p.context
  timerData : p'.timerData = p.timerData

/-- The computation leaves the writes pending that it sends. -/
def Sends {α : Type} (f : α → Pointers) (p : Pointers) (x : Traced MemoryEvent α) : Prop :=
  ∀ t, x.Ensures t fun a new => Sent p (f a) new

section Rules

variable {α β σ : Type} {f : α → Pointers} {g : β → Pointers} {p : Pointers}
  {x y : Traced MemoryEvent α} {k : α → Traced MemoryEvent β}

theorem mute_of_heapOnly (h : HeapOnly x) : Mute x :=
  h.mono fun _ ⟨_, he⟩ => he ▸ rfl

theorem mute_ofServer {x : Traced ServerEvent α} (h : Only Unsent x) : Mute (ofServer x) := by
  intro t e he
  obtain ⟨e, hmem, rfl⟩ := List.mem_map.mp he
  have hnone : Unsent e := h _ e hmem
  rw [Unsent] at hnone
  cases hhandle : ServerEvent.handleEvent e with
  | none => simp [responses, handleEvents, MemoryEvent.serverEvent, hhandle]
  | some d =>
    rw [hhandle] at hnone
    have hresponse : d.response = none := hnone
    simp [responses, handleEvents, MemoryEvent.serverEvent, hhandle, hresponse]

theorem responses_eq_nil {new : List MemoryEvent} (h : ∀ e ∈ new, responses [e] = []) :
    responses new = [] := by
  induction new with
  | nil => rfl
  | cons e new ih =>
    obtain ⟨he, hrest⟩ := List.forall_mem_cons.mp h
    rw [← List.singleton_append, responses_append, he, ih hrest]
    rfl

theorem sends_pure {a : α} (hwrites : (f a).writes = p.writes)
    (hcontext : (f a).context = p.context) (hdata : (f a).timerData = p.timerData) :
    Sends f p (pure a) :=
  fun _ => ⟨congrArg (List.map PendingWrite.response) hwrites, hcontext, hdata⟩

theorem Sends.bind (hx : Sends f p x) (hk : ∀ a, Sends g (f a) (k a)) :
    Sends g p (x >>= k) := by
  intro t
  refine (hx t).bind fun a new ha => (hk a _).mono fun b new' hb =>
    ⟨?_, hb.context.trans ha.context, hb.timerData.trans ha.timerData⟩
  rw [hb.writes, ha.writes, responses_append, List.append_assoc]

/-- A part that sends nothing comes first. -/
theorem Sends.after_mute (hx : Mute x) (hk : ∀ a, Sends g p (k a)) : Sends g p (x >>= k) := by
  intro t
  refine Ensures.bind (hx t) fun a new ha => (hk a _).mono fun b new' hb =>
    ⟨?_, hb.context, hb.timerData⟩
  rw [hb.writes, responses_append, responses_eq_nil ha, List.append_nil]

theorem sends_ite {c : Prop} [Decidable c] (hx : c → Sends f p x) (hy : ¬c → Sends f p y) :
    Sends f p (if c then x else y) := by
  split
  · exact hx ‹_›
  · exact hy ‹_›

/-- The writes that a loop leaves. -/
theorem Sends.loop {f : σ → Pointers} {body : σ → Traced MemoryEvent (ForInStep σ)}
    (h : ∀ s, Sends (fun r => f r.value) (f s) (body s)) (fuel : ℕ) (s : σ) :
    Sends f (f s) (Traced.loop body fuel s) := by
  induction fuel generalizing s with
  | zero => exact sends_pure rfl rfl rfl
  | succ fuel ih =>
    refine (h s).bind fun r => ?_
    cases r with
    | yield s' => exact ih s'
    | done s' => exact sends_pure rfl rfl rfl

end Rules

section Chain

variable (tables : Env (Event DataEntry)) (env : ServerEnv) (c : OwnedContext)

theorem heap_mute (o : Blocks.Op) : responses [.heap o] = [] := rfl

private theorem granted_unsent (size : ℕ) : Only Unsent (env.malloc size) :=
  fun _ _ he => List.mem_singleton.mp he ▸ rfl

private theorem malloc_mute (size : ℕ) : Mute (malloc env size) :=
  Blocks.only_tryMalloc heap_mute (mute_ofServer (granted_unsent env size))

private theorem realloc_mute (p : Option ℕ) (size : ℕ) : Mute (realloc env p size) :=
  Blocks.only_tryRealloc heap_mute (mute_ofServer (granted_unsent env size)) p

private theorem ask_mute {α : Type} (look : List ServerEvent → α) :
    Mute (ofServer (Traced.ask look)) :=
  mute_ofServer fun _ _ he => absurd he List.not_mem_nil

private theorem emit_mute {e : ServerEvent} (h : Unsent e) : Mute (ofServer (Traced.emit e)) :=
  mute_ofServer (only_emit h)

private theorem uvClose_unsent (ctx : ClientContext) : Only Unsent ctx.uvClose :=
  fun _ _ he => List.mem_singleton.mp he ▸ rfl

private theorem reject_unsent (ctx : ClientContext) : Only Unsent ctx.reject :=
  fun _ _ he => List.mem_singleton.mp he ▸ rfl

private theorem discard_unsent (ctx : ClientContext) (n : ℕ) : Only Unsent (ctx.discard n) :=
  fun _ _ he => List.mem_singleton.mp he ▸ rfl

theorem appendToBuffer_sends (data : List UInt8) :
    Sends OwnedContext.ptrs c.ptrs (appendToBuffer env c data) := by
  refine sends_ite (fun _ => .after_mute (realloc_mute env _ _) fun p => ?_)
    fun _ => sends_pure rfl rfl rfl
  cases p with
  | none => exact .after_mute (mute_ofServer (uvClose_unsent _)) fun _ => sends_pure rfl rfl rfl
  | some buffer => exact .after_mute (ask_mute _) fun _ => sends_pure rfl rfl rfl

theorem freeParserResources_sends :
    Sends OwnedContext.ptrs c.ptrs (freeParserResources c) := by
  intro t
  have hmute := responses_eq_nil (mute_of_heapOnly (freeParserResources_heapOnly c) t)
  have hsame : ((freeParserResources c).run t).1.ptrs.writes = c.ptrs.writes ∧
      ((freeParserResources c).run t).1.ptrs.context = c.ptrs.context ∧
      ((freeParserResources c).run t).1.ptrs.timerData = c.ptrs.timerData := by
    rw [freeParserResources]
    split <;> exact ⟨rfl, rfl, rfl⟩
  refine ⟨?_, hsame.2.1, hsame.2.2⟩
  rw [hmute, hsame.1]
  rfl

/-- What a function of the parser does to the pending writes. -/
abbrev Steps (c : OwnedContext) (x : Traced MemoryEvent (ForInStep OwnedContext)) : Prop :=
  Sends (fun r => r.value.ptrs) c.ptrs x

private theorem keep_sends {x : Traced ServerEvent (ForInStep ClientContext)}
    (hx : Only Unsent x) : Steps c (do
      let r ← ofServer x
      pure (mapStep (fun ctx => { c with ctx }) r)) :=
  .after_mute (mute_ofServer hx) fun r => by
    cases r <;> exact sends_pure rfl rfl rfl

theorem abandon_sends : Steps c (abandon c) :=
  (freeParserResources_sends c).bind fun c => keep_sends c (reject_unsent _)

private theorem arrayHeader_unsent (ctx : ClientContext) : Only Unsent (arrayHeader env ctx) := by
  refine only_ite (fun _ => only_pure _) fun _ => only_ite (fun _ => reject_unsent _) fun _ => ?_
  split
  · exact only_pure _
  · refine Only.bind (fun _ _ he => absurd he List.not_mem_nil) fun _ => ?_
    exact only_ite (fun _ => reject_unsent _) fun _ => only_ite (fun _ => reject_unsent _)
      fun _ => (discard_unsent _ _).bind fun _ => only_pure _

private theorem expectType_unsent (ctx : ClientContext) :
    Only Unsent (SimpleCDatabase.expectType env ctx) :=
  only_ite (fun _ => (discard_unsent _ _).bind fun _ => arrayHeader_unsent env _)
    fun _ => (only_pure _).bind fun _ => arrayHeader_unsent env _

private theorem expectLength_unsent (ctx : ClientContext) :
    Only Unsent (SimpleCDatabase.expectLength env ctx) := by
  refine only_ite (fun _ => reject_unsent _) fun _ => only_ite (fun _ => only_pure _) fun _ => ?_
  split
  · exact only_pure _
  · refine Only.bind (fun _ _ he => absurd he List.not_mem_nil) fun _ => ?_
    exact only_ite (fun _ => reject_unsent _) fun _ => only_ite (fun _ => reject_unsent _)
      fun _ => (discard_unsent _ _).bind fun _ => only_pure _

theorem sendReply_sends (result : ExecuteResult) (body : Option ℕ) :
    Steps c (sendReply env c result body) := by
  refine .after_mute (realloc_mute env _ _) fun p => ?_
  cases p with
  | none => exact .after_mute (mute_of_heapOnly (free_heapOnly _)) fun _ => abandon_sends c
  | some base =>
    refine .after_mute (ask_mute _) fun memory => .after_mute (emit_mute rfl) fun _ =>
      .after_mute (emit_mute rfl) fun _ => .after_mute (malloc_mute env _) fun q => ?_
    cases q with
    | none => exact .after_mute (mute_of_heapOnly (free_heapOnly _)) fun _ => abandon_sends c
    | some req =>
      refine sends_ite (fun _ => .after_mute (mute_of_heapOnly (free_heapOnly _)) fun _ =>
        .after_mute (mute_of_heapOnly (free_heapOnly _)) fun _ => abandon_sends c) fun _ => ?_
      exact fun t => ⟨rfl, rfl, rfl⟩

theorem dispatch_sends : Steps c (dispatch tables env c) :=
  sends_ite (fun _ => abandon_sends c) fun _ => .after_mute (emit_mute rfl) fun _ =>
    .after_mute (mute_of_heapOnly (granted_heapOnly _)) fun body => sendReply_sends env _ _ body

private theorem allocArguments_sends :
    Sends (fun r => r.2.ptrs) c.ptrs (allocArguments env c) :=
  sends_ite (fun _ => .after_mute (malloc_mute env _) fun _ =>
    .after_mute (malloc_mute env _) fun _ => sends_pure rfl rfl rfl) fun _ => sends_pure rfl rfl rfl

private theorem storeArgument_sends :
    Sends (fun r => r.2.ptrs) c.ptrs (storeArgument env c) := by
  refine .after_mute (malloc_mute env _) fun arg => .after_mute (emit_mute rfl) fun _ => ?_
  refine sends_ite (fun _ => ?_) fun _ => sends_pure rfl rfl rfl
  exact .after_mute (emit_mute rfl) fun _ => .after_mute (mute_ofServer (discard_unsent _ _))
    fun _ => sends_pure rfl rfl rfl

theorem expectData_sends : Steps c (expectData tables env c) := by
  refine sends_ite (fun _ => sends_pure rfl rfl rfl) fun _ => (allocArguments_sends env c).bind ?_
  intro allocated
  refine sends_ite (fun _ => (storeArgument_sends env allocated.2).bind fun stored => ?_)
    fun _ => abandon_sends allocated.2
  exact sends_ite (fun _ => sends_ite (fun _ => dispatch_sends tables env stored.2)
    fun _ => sends_pure rfl rfl rfl) fun _ => abandon_sends stored.2

/-- One iteration of the parser. -/
theorem parseStep_sends : Steps c (parseStep tables env c) := by
  rw [parseStep]
  cases c.ctx.state with
  | expectType => exact keep_sends c (expectType_unsent env _)
  | expectLength => exact keep_sends c (expectLength_unsent env _)
  | expectData => exact expectData_sends tables env c

/-- **The writes that a read leaves pending**: those before, and the responses that it sends. -/
theorem onRead_sends (nread : ℤ) (buf : List UInt8) (base : Option ℕ) :
    Sends OwnedContext.ptrs c.ptrs (onRead tables env c nread buf base) := by
  have hfree (c : OwnedContext) : Sends OwnedContext.ptrs c.ptrs (do free base; pure c) :=
    .after_mute (mute_of_heapOnly (free_heapOnly base)) fun _ => sends_pure rfl rfl rfl
  refine sends_ite (fun _ => .after_mute (emit_mute rfl) fun _ => ?_) fun _ =>
    sends_ite (fun _ => ?_) fun _ => hfree c
  · refine (appendToBuffer_sends env c _).bind fun c =>
      sends_ite (fun _ => sends_pure rfl rfl rfl) fun _ => ?_
    exact (Sends.loop (f := OwnedContext.ptrs) (parseStep_sends tables env) _ c).bind hfree
  · exact .after_mute (emit_mute rfl) fun _ => .after_mute (mute_ofServer (uvClose_unsent _))
      fun ctx => hfree { c with ctx }

end Chain

end Memory

end SimpleCDatabase
