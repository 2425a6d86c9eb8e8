import SimpleCDatabase.Server.Ownership
import SimpleCDatabase.Server.Pending

/-!
# Disposal of the memory of a connection

Over a run of callbacks the blocks that live are those that the connection points to: its context,
the buffer, the arguments and their arrays, and the writes that are pending. `on_write_complete`
frees a write, `on_client_close` the arguments, and `on_timer_close` the buffer and the context, so
that nothing is left. A write that has failed is an exception: `on_write_complete` reads the stream
from a request that it has just freed.

## Main definitions

* `Session.Sound`: what holds of a connection and its pointers between two callbacks.
* `Callback.Regular`, `Callback.Fails`: a callback in which no argument is stored past the arrays
  and no timer closed that was never initialised; the callback of a write that has failed.

## Main results

* `Session.Sound.step`: one callback.
* `sessions_memory`: the blocks over a run of callbacks.

## References

* `src/server.c`: `on_new_connection`, `on_read`, `on_write_complete`, `on_client_timeout`,
  `on_client_close`, `on_timer_close`.
-/

namespace SimpleCDatabase

open Traced Blocks

/-! ### Between two callbacks -/

/-- What holds of a connection and its pointers between two callbacks. -/
structure Session.Sound (s : Session) : Prop where
  /-- The arguments are as `free_parser_resources` expects them. -/
  rests : Memory.Rests ⟨s.connection.ctx, s.ptrs⟩
  /-- The parser waits for bytes. -/
  waiting : s.connection.ctx.closing = false → s.connection.ctx.Waiting
  /-- libuv holds a request for each write that is pending. -/
  writes : (s.ptrs.writes.map PendingWrite.response : Multiset (List UInt8)) = s.connection.writes
  closing : s.connection.ctx.closing = s.connection.client.isClosing
  /-- There is nothing before a client connects. -/
  unused : s.connection.client = .zeroed →
    s.ptrs = .null ∧ s.connection.timer = .zeroed ∧ ∃ server, s.connection.ctx = .fresh server
  /-- The context is freed with the timer. -/
  context : s.connection.client ≠ .zeroed → s.connection.timer ≠ .closed → s.ptrs.context ≠ none
  /-- A timer that has been initialised points to the context. -/
  data : s.connection.timer ≠ .zeroed → s.connection.timer ≠ .closed →
    s.ptrs.timerData = s.ptrs.context
  opened : s.connection.client = .opened → s.connection.timer = .opened
  timer : s.connection.timer.isClosing = true → s.connection.client = .closed
  /-- The arguments are freed with the stream, when no write is pending any more. -/
  closed : s.connection.client = .closed → s.ptrs.tempArgv = none ∧ s.ptrs.args = [] ∧
    s.ptrs.tempArgLengths = none ∧ s.ptrs.writes = []
  freed : s.connection.timer = .closed → s.ptrs.context = none ∧ s.ptrs.buffer = none

section Sound

variable {s : Session}

/-- The stream of a connection in use is passed to `uv_close`. -/
theorem Session.Sound.close (h : s.Sound) (hused : s.connection.client ≠ .zeroed)
    (hopen : s.connection.client ≠ .closed) (active : Bool) :
    Session.Sound ⟨{ s.connection with
      ctx := { s.connection.ctx with closing := true }
      client := .closing
      timerActive := active }, s.ptrs⟩ where
  rests := h.rests.close
  waiting := fun hclosing => Bool.noConfusion hclosing
  writes := h.writes
  closing := rfl
  unused := nofun
  context := fun _ => h.context hused
  data := h.data
  opened := nofun
  timer := fun htimer => absurd (h.timer htimer) hopen
  closed := nofun
  freed := h.freed

/-- A stream that is open belongs to a connection in use. -/
theorem Session.Sound.inUse (h : s.Sound) (hopened : s.connection.client = .opened) :
    s.connection.client ≠ .zeroed ∧ s.connection.client ≠ .closed ∧
      s.connection.timer ≠ .zeroed ∧ s.connection.timer ≠ .closed := by
  rw [h.opened hopened, hopened]
  exact ⟨nofun, nofun, nofun, nofun⟩

/-- The stream is closed, and the arguments are freed: the timer is closed next. -/
theorem Session.Sound.streamClosed (h : s.Sound) (hclosing : s.connection.client = .closing)
    (htimer : s.connection.timer ≠ .zeroed ∧ s.connection.timer ≠ .closed)
    (hnone : s.ptrs.writes = []) :
    Session.Sound ⟨{ s.connection with
      ctx := s.connection.ctx.freeParserResources.resetParser
      client := .closed
      timer := .closing
      timerActive := false },
        { s.ptrs with tempArgv := none, args := [], tempArgLengths := none }⟩ := by
  have hused : s.connection.client ≠ .zeroed := fun hnever =>
    Handle.noConfusion (hclosing.symm.trans hnever)
  have hctx : s.connection.ctx.closing = true := h.closing.trans (by rw [hclosing]; rfl)
  exact
    { rests := ⟨⟨fun _ => rfl, fun hpresent => absurd rfl hpresent⟩,
        fun hnever => Bool.noConfusion (hctx.symm.trans hnever),
        ClientContext.Bounded.settled ⟨le_rfl, Nat.zero_le _, Nat.zero_le _,
          h.rests.settled.1.fits⟩ hctx⟩
      waiting := fun hnever => Bool.noConfusion (hctx.symm.trans hnever)
      writes := h.writes
      closing := hctx
      unused := fun hnever => Handle.noConfusion hnever
      context := fun _ _ => h.context hused htimer.2
      data := fun _ _ => h.data htimer.1 htimer.2
      opened := fun hnever => Handle.noConfusion hnever
      timer := fun _ => rfl
      closed := fun _ => ⟨rfl, rfl, rfl, hnone⟩
      freed := fun hnever => Handle.noConfusion hnever }

/-- The timer is closed, and the context is freed. -/
theorem Session.Sound.timerClosed (h : s.Sound) (hclosed : s.connection.client = .closed) :
    Session.Sound ⟨{ s.connection with timer := .closed },
      { s.ptrs with buffer := none, context := none, timerData := none }⟩ := by
  have hctx : s.connection.ctx.closing = true :=
    h.closing.trans (congrArg Handle.isClosing hclosed)
  exact
    { rests := ⟨⟨h.rests.freeable.absent, h.rests.freeable.stored⟩, fun hnever =>
        Bool.noConfusion (hctx.symm.trans hnever), h.rests.settled⟩
      waiting := h.waiting
      writes := h.writes
      closing := h.closing
      unused := fun hnever => Handle.noConfusion (hclosed.symm.trans hnever)
      context := fun _ hnever => absurd rfl hnever
      data := fun _ _ => rfl
      opened := fun hnever => Handle.noConfusion (hclosed.symm.trans hnever)
      timer := fun _ => hclosed
      closed := fun _ => h.closed hclosed
      freed := fun _ => ⟨rfl, rfl⟩ }

end Sound

namespace Memory

section Callbacks

variable {s : Session} {t : List MemoryEvent} {fault : Bool}

/-- What a callback leaves: the blocks that are owned are those that the connection points to. -/
def Disposed (s : Session) (m : Multiset ℕ) : Prop := m = s.ptrs.blocks ∧ s.Sound

private theorem ofHandle_opless {α : Type} (x : Traced HandleEvent α) :
    Only (fun e => MemoryEvent.op e = none) (ofHandle x) := by
  intro t e he
  obtain ⟨_, -, rfl⟩ := List.mem_map.mp he
  rfl

theorem owns_ofHandle {α : Type} {P : Multiset ℕ} {x : Traced HandleEvent α} {V : α → Prop}
    (hx : ∀ log, x.Ensures log fun a _ => V a) : Owns P (ofHandle x) fun a m => m = P ∧ V a := by
  intro t frame fault ht
  obtain ⟨m, hm, rfl⟩ := owning_quiet (ofHandle_opless x) t frame fault ht
  exact ⟨m, hm, rfl, hx _⟩

/-- A block that is owned is used. -/
theorem use_owns {P : Multiset ℕ} {p : Option ℕ} (hp : p ≠ none) (hmem : pointed p ≤ P) :
    Owns P (use p) fun _ m => m = P := by
  obtain ⟨b, rfl⟩ := Option.ne_none_iff_exists'.mp hp
  obtain ⟨rest, rfl⟩ := Multiset.le_iff_exists_add.mp hmem
  have huse : Owns (pointed (some b)) (use (some b)) fun _ m => m = pointed (some b) := by
    intro t frame fault ht
    have hb : b ∈ pointed (some b) + frame := Multiset.mem_cons_self b frame
    have hused := ht.use (e := .heap (.use b)) rfl
    rw [decide_eq_false (not_not.mpr hb), Bool.or_false] at hused
    exact ⟨pointed (some b), hused, rfl⟩
  refine (huse.frame rest).mono ?_
  rintro _ _ ⟨_, rfl, rfl⟩
  rfl

theorem context_le (p : Pointers) : pointed p.context ≤ p.blocks := by
  rw [Pointers.blocks, ← add_assoc, ← add_assoc]
  exact Multiset.le_add_left _ _

theorem onClientTimeout_owns (h : s.Sound) (hopened : s.connection.client = .opened) :
    Owns s.ptrs.blocks (onClientTimeout s) Disposed := by
  obtain ⟨hused, hopen, hinit, htimer⟩ := h.inUse hopened
  have huse : Owns s.ptrs.blocks (use s.ptrs.timerData) fun _ m => m = s.ptrs.blocks := by
    rw [h.data hinit htimer]
    exact use_owns (h.context hused htimer) (context_le _)
  refine huse.bind ?_
  rintro _ _ rfl
  have htimeout (log : List HandleEvent) :
      (SimpleCDatabase.onClientTimeout s.connection).Ensures log fun c _ => c = { s.connection with
        ctx := { s.connection.ctx with closing := true }
        client := .closing
        timerActive := false } := rfl
  refine (owns_ofHandle htimeout).bind ?_
  rintro _ _ ⟨rfl, rfl⟩
  exact owning_pure ⟨rfl, h.close hused hopen false⟩

/-- The stream is closed, and the arguments are freed. -/
theorem onClientClose_owns (h : s.Sound) (hclosing : s.connection.client = .closing)
    (hwrites : s.connection.writes = 0) (hzeroed : s.connection.timer ≠ .zeroed) :
    Owns s.ptrs.blocks (onClientClose s) Disposed := by
  have hused : s.connection.client ≠ .zeroed := fun hnever =>
    Handle.noConfusion (hclosing.symm.trans hnever)
  have hopen : s.connection.timer.isClosing ≠ true := fun htimer =>
    Handle.noConfusion (hclosing.symm.trans (h.timer htimer))
  have htimer : s.connection.timer ≠ .closed := fun hclosed => hopen (by rw [hclosed]; rfl)
  have hnone : s.ptrs.writes = [] := by
    have hmap := h.writes.trans hwrites
    exact List.map_eq_nil_iff.mp (Multiset.coe_eq_zero _ |>.mp hmap)
  refine (use_owns (h.context hused htimer) (context_le _)).bind ?_
  rintro _ _ rfl
  have hclose (log : List HandleEvent) :
      (SimpleCDatabase.onClientClose s.connection).Ensures log fun c _ => c = { s.connection with
        ctx := s.connection.ctx.freeParserResources.resetParser
        client := .closed
        timer := .closing
        timerActive := false } := by
    rw [SimpleCDatabase.onClientClose]
    exact ensures_ite (fun hnever => absurd hnever hopen) fun _ => rfl
  refine (owns_ofHandle hclose).bind ?_
  rintro _ _ ⟨rfl, rfl⟩
  refine (freeParserResources_owns h.rests.freeable).bind ?_
  rintro _ _ ⟨rfl, rfl⟩
  exact owning_pure ⟨rfl, h.streamClosed hclosing ⟨hzeroed, htimer⟩ hnone⟩

/-- The timer is closed, and the buffer and the context are freed. -/
theorem onTimerClose_owns (h : s.Sound) (hclosing : s.connection.timer = .closing) :
    Owns s.ptrs.blocks (onTimerClose s) Disposed := by
  have hclosed : s.connection.client = .closed := h.timer (by rw [hclosing]; rfl)
  obtain ⟨hargv, hargs, hlengths, hwrites⟩ := h.closed hclosed
  have hopen : s.connection.timer ≠ .closed := fun hnever =>
    Handle.noConfusion (hclosing.symm.trans hnever)
  have hdata : s.ptrs.timerData = s.ptrs.context :=
    h.data (fun hnever => Handle.noConfusion (hclosing.symm.trans hnever)) hopen
  have hblocks : s.ptrs.blocks = pointed s.ptrs.buffer + (pointed s.ptrs.timerData + 0) := by
    rw [hdata, blocks_absent hargv hargs, hlengths, otherBlocks, Pointers.writeBlocks, hwrites]
    simp
  have hcontext : s.ptrs.context ≠ none :=
    h.context (fun hnever => Handle.noConfusion (hclosed.symm.trans hnever)) hopen
  have huse : Owns s.ptrs.blocks (use s.ptrs.timerData) fun _ m => m = s.ptrs.blocks := by
    rw [hdata]
    exact use_owns hcontext (context_le _)
  refine huse.bind ?_
  rintro _ _ rfl
  refine Owning.of_eq ?_ hblocks
  refine (free_owns _).bind ?_
  rintro _ _ rfl
  refine (free_owns _).bind ?_
  rintro _ _ rfl
  have htimer (log : List HandleEvent) : (SimpleCDatabase.onTimerClose s.connection).Ensures log
      fun c _ => c = { s.connection with timer := .closed } := rfl
  refine (owns_ofHandle htimer).bind ?_
  rintro _ _ ⟨rfl, rfl⟩
  refine owning_pure ⟨?_, h.timerClosed hclosed⟩
  simp [Pointers.blocks, Pointers.argumentBlocks, Pointers.writeBlocks, hargv, hargs, hlengths,
    hwrites]

/-- A client that has been accepted. -/
private theorem sound_accepted {c : Connection} {server : ServerContext}
    (hctx : c.ctx = .fresh server) (hclient : c.client = .opened) (htimer : c.timer = .opened)
    (hwrites : c.writes = 0) (b : ℕ) :
    Session.Sound ⟨c, { Pointers.null with context := some b, timerData := some b }⟩ where
  rests := by
    rw [hctx]
    exact ⟨⟨fun _ => rfl, fun hpresent => absurd rfl hpresent⟩, fun _ => ⟨fun _ => rfl,
      fun _ => ⟨rfl, rfl, rfl⟩, fun hpos => absurd rfl hpos⟩,
      (ClientContext.parsing_fresh server).settled⟩
  waiting := fun _ => hctx ▸ ClientContext.waiting_fresh server
  writes := hwrites.symm
  closing := by rw [hctx, hclient]; rfl
  unused := fun hzeroed => Handle.noConfusion (hclient.symm.trans hzeroed)
  context := fun _ _ => Option.some_ne_none b
  data := fun _ _ => rfl
  opened := fun _ => htimer
  timer := fun hclosing => by
    rw [htimer] at hclosing
    exact Bool.noConfusion hclosing
  closed := fun hclosed => Handle.noConfusion (hclient.symm.trans hclosed)
  freed := fun hclosed => Handle.noConfusion (htimer.symm.trans hclosed)

/-- A client that could not be accepted: no timer points to its context. -/
private theorem sound_rejected {c : Connection} {server : ServerContext}
    (hctx : c.ctx = { ClientContext.fresh server with closing := true })
    (hclient : c.client = .closing) (htimer : c.timer = .zeroed) (hwrites : c.writes = 0) (b : ℕ) :
    Session.Sound ⟨c, { Pointers.null with context := some b }⟩ where
  rests := by
    have hbounded := (ClientContext.parsing_fresh server).settled.1
    rw [hctx]
    exact ⟨⟨fun _ => rfl, fun hpresent => absurd rfl hpresent⟩, fun hnever =>
      Bool.noConfusion hnever, ClientContext.Bounded.settled ⟨hbounded.parsed, hbounded.total,
        hbounded.data, hbounded.fits⟩ rfl⟩
  waiting := fun hnever => by
    rw [hctx] at hnever
    exact Bool.noConfusion hnever
  writes := hwrites.symm
  closing := by rw [hctx, hclient]; rfl
  unused := fun hzeroed => Handle.noConfusion (hclient.symm.trans hzeroed)
  context := fun _ _ => Option.some_ne_none b
  data := fun hused => absurd htimer hused
  opened := fun hopened => Handle.noConfusion (hclient.symm.trans hopened)
  timer := fun hclosing => by
    rw [htimer] at hclosing
    exact Bool.noConfusion hclosing
  closed := fun hclosed => Handle.noConfusion (hclient.symm.trans hclosed)
  freed := fun hclosed => Handle.noConfusion (htimer.symm.trans hclosed)

/-- A client connects. -/
theorem onNewConnection_owns (h : s.Sound) (hzeroed : s.connection.client = .zeroed) (status : ℤ)
    (granted : Bool) (accepted : ℤ) :
    Owns s.ptrs.blocks (onNewConnection status granted accepted s) Disposed := by
  obtain ⟨hnull, htimer, server, hctx⟩ := h.unused hzeroed
  refine owning_ite (fun _ => owning_pure ⟨rfl, h⟩) fun hstatus => ?_
  have hmalloc : Owns s.ptrs.blocks (tryMalloc .heap (pure granted))
      fun p m => m = pointed p + s.ptrs.blocks := owning_tryMalloc heap_op (only_pure _)
  have hwrites : s.connection.writes = 0 := by
    rw [← h.writes, hnull]
    rfl
  refine hmalloc.bind ?_
  rintro (_ | b) _ rfl
  · have hrefused (log : List HandleEvent) :
        (SimpleCDatabase.onNewConnection status false accepted s.connection).Ensures log
          fun c _ => c = s.connection := ensures_ite (fun _ => rfl) fun _ => rfl
    refine (owns_ofHandle hrefused).bind ?_
    rintro _ _ ⟨rfl, rfl⟩
    exact owning_pure ⟨zero_add _, h⟩
  · have hconnected (log : List HandleEvent) :
        (SimpleCDatabase.onNewConnection status true accepted s.connection).Ensures log
          fun c _ => Session.Sound ⟨c, { Pointers.null with
            context := some b
            timerData := if accepted = 0 then some b else none }⟩ := by
      refine ensures_ite (fun hnever => absurd hnever hstatus) fun _ => ?_
      refine ensures_ite (fun _ => ?_) fun hnever => absurd rfl hnever
      rw [ensures_bind, ensures_emit]
      dsimp only
      rw [ensures_bind, ensures_emit]
      refine ensures_ite (fun haccepted => ?_) fun hrejected => ?_
      · have hreset : s.connection.ctx.resetParser = .fresh server := by
          rw [hctx]
          rfl
        rw [if_pos haccepted]
        exact @sound_accepted { s.connection with
          ctx := s.connection.ctx.resetParser
          client := .opened
          timer := .opened
          timerActive := true } server hreset rfl rfl hwrites b
      · rw [if_neg hrejected]
        exact @sound_rejected { s.connection with
          ctx := { s.connection.ctx with closing := true }
          client := .closing } server (by rw [hctx]) rfl htimer hwrites b
    refine (owns_ofHandle hconnected).bind ?_
    rintro c _ ⟨rfl, hsound⟩
    rw [hnull]
    refine owning_pure ⟨?_, hsound⟩
    simp [Pointers.blocks, Pointers.null, Pointers.argumentBlocks, Pointers.writeBlocks]

/-! ### Writes that are complete -/

/-- The blocks of the writes that are left, when one is complete. -/
private theorem blocks_erase {p : Pointers} {w : PendingWrite} (hw : w ∈ p.writes) :
    p.blocks = pointed (some w.base) + (pointed (some w.req) +
      ({ p with writes := p.writes.erase w } : Pointers).blocks) := by
  have hperm : p.writeBlocks =
      ({ p with writes := w :: p.writes.erase w } : Pointers).writeBlocks :=
    Multiset.coe_eq_coe.mpr ((List.perm_cons_erase hw).flatMap_right _)
  have hblocks : p.blocks = ({ p with writes := w :: p.writes.erase w } : Pointers).blocks := by
    rw [Pointers.blocks, hperm]
    rfl
  rw [hblocks, add_left_comm]
  exact blocks_write { p with writes := p.writes.erase w } w.response w.base w.req

/-- A request is freed with its response. When the write has failed, the request is used after. -/
theorem completeWrite_holds {response : List UInt8} (status : ℤ) {p : Pointers}
    {w : PendingWrite} (hfind : p.writes.find? (·.response = response) = some w)
    (h : Holds MemoryEvent.op t p.blocks fault) :
    (completeWrite response status p).Ensures t fun p' new =>
      p' = { p with writes := p.writes.erase w } ∧
        Holds MemoryEvent.op (new ++ t) p'.blocks (fault || decide (status < 0)) := by
  have hblocks := blocks_erase (List.mem_of_find?_eq_some hfind)
  have hreq : w.req ∉ ({ p with writes := p.writes.erase w } : Pointers).blocks := by
    have hnodup := h.nodup
    rw [hblocks] at hnodup
    exact (Multiset.nodup_cons.mp (Multiset.nodup_cons.mp hnodup).2).1
  rw [hblocks, pointed_some, pointed_some, Multiset.singleton_add, Multiset.singleton_add] at h
  have hfreed := (h.free (e := .heap (.free w.base)) rfl).free (e := .heap (.free w.req)) rfl
  simp only [completeWrite, hfind]
  refine (show (free (some w.base)).Ensures t fun _ new => new = [.heap (.free w.base)] from
    rfl).bind ?_
  rintro _ _ rfl
  refine (show (free (some w.req)).Ensures _ fun _ new => new = [.heap (.free w.req)] from
    rfl).bind ?_
  rintro _ _ rfl
  refine ensures_ite (fun hneg => ?_) fun hpos => ?_
  · -- the stream is read from the request, which does not live any more
    have hused := hfreed.use (e := .heap (.use w.req)) rfl
    rw [decide_eq_true hreq, ← decide_eq_true hneg] at hused
    exact ⟨rfl, hused⟩
  · rw [decide_eq_false hpos, Bool.or_false]
    exact ⟨rfl, hfreed⟩

/-- The writes of a connection between two callbacks, when one is complete. -/
private theorem sound_erase (h : s.Sound) {w : PendingWrite} (hw : w ∈ s.ptrs.writes) :
    Session.Sound ⟨{ s.connection with writes := s.connection.writes.erase w.response },
      { s.ptrs with writes := s.ptrs.writes.erase w }⟩ := by
  have hsame : SameArguments ⟨s.connection.ctx, s.ptrs⟩
      ⟨s.connection.ctx, { s.ptrs with writes := s.ptrs.writes.erase w }⟩ :=
    ⟨rfl, rfl, rfl, rfl, rfl, rfl⟩
  have hwrites : ((s.ptrs.writes.erase w).map PendingWrite.response : Multiset (List UInt8)) =
      s.connection.writes.erase w.response := by
    rw [← h.writes, ← Multiset.map_coe, ← Multiset.map_coe, ← Multiset.coe_erase]
    exact Multiset.map_erase_of_mem PendingWrite.response _ (Multiset.mem_coe.mpr hw)
  have hnonempty : s.ptrs.writes ≠ [] := List.ne_nil_of_mem hw
  exact
    { rests := ⟨hsame.freeable h.rests.freeable, fun hopen => hsame.ready (h.rests.ready hopen),
        h.rests.settled⟩
      waiting := h.waiting
      writes := hwrites
      closing := h.closing
      unused := fun hzeroed => absurd (congrArg Pointers.writes (h.unused hzeroed).1) hnonempty
      context := h.context
      data := h.data
      opened := h.opened
      timer := h.timer
      closed := fun hclosed => absurd (h.closed hclosed).2.2.2 hnonempty
      freed := h.freed }

/-- **A write is complete**, and when it has failed, a block is used that does not live. -/
theorem onWriteComplete_holds (h : s.Sound) (ht : Holds MemoryEvent.op t s.ptrs.blocks fault)
    {response : List UInt8} (hpending : response ∈ s.connection.writes) (status : ℤ) :
    (onWriteComplete response status s).Ensures t fun s' new =>
      Holds MemoryEvent.op (new ++ t) s'.ptrs.blocks (fault || decide (status < 0)) ∧
        s'.Sound := by
  rw [← h.writes, Multiset.mem_coe, List.mem_map] at hpending
  obtain ⟨w₀, hw₀, rfl⟩ := hpending
  obtain ⟨w, hfind⟩ : ∃ w, s.ptrs.writes.find? (·.response = w₀.response) = some w :=
    Option.isSome_iff_exists.mp (List.find?_isSome.mpr ⟨w₀, hw₀, decide_eq_true rfl⟩)
  have hw := List.mem_of_find?_eq_some hfind
  have hresponse : w.response = w₀.response := by simpa using List.find?_some hfind
  have hsound := sound_erase h hw
  rw [hresponse] at hsound
  refine (completeWrite_holds status hfind ht).bind ?_
  rintro ptrs new ⟨rfl, hholds⟩
  have hnonempty : s.ptrs.writes ≠ [] := List.ne_nil_of_mem hw
  have hcompleted (log : List HandleEvent) :
      (SimpleCDatabase.onWriteComplete w₀.response status s.connection).Ensures log fun c _ =>
        Session.Sound ⟨c, { s.ptrs with writes := s.ptrs.writes.erase w }⟩ := by
    refine ensures_ite (fun _ => ?_) fun _ => hsound
    exact hsound.close
      (fun hzeroed => hnonempty (congrArg Pointers.writes (h.unused hzeroed).1))
      (fun hclosed => hnonempty (h.closed hclosed).2.2.2) s.connection.timerActive
  refine ((owns_ofHandle hcompleted).ensures hholds).bind ?_
  rintro c new' ⟨_, hlast, rfl, hdone⟩
  refine ensures_pure.mpr ⟨?_, hdone⟩
  simpa only [List.nil_append, List.append_assoc] using hlast

/-! ### Reads -/

section Reads

variable (tables : Env (Event DataEntry)) (env : ServerEnv)

/-- What a read does to the stream, as the parser and the callback see it. -/
private theorem closing_read {ctx : ClientContext} {client : Handle}
    {log before : List ServerEvent} (hopened : client = .opened)
    (h : OpenOrClosedOnce ctx before (log ++ before)) : ctx.closing =
    (if .closeClient ∈ handleEvents log then Handle.closing else client).isClosing := by
  rw [OpenOrClosedOnce, closes_append] at h
  obtain ⟨-, ⟨hopen, -, hcount⟩ | ⟨hclosing, hcount⟩⟩ := h
  · have hnone : .closeClient ∉ handleEvents log := List.count_eq_zero.mp (by
      rw [← closes]
      omega)
    rw [if_neg hnone, hopen, hopened]
    rfl
  · have hone : .closeClient ∈ handleEvents log := List.count_pos_iff.mp (by
      rw [← closes]
      omega)
    rw [if_pos hone, hclosing]
    rfl

/-- What the parser leaves after a read. -/
private theorem sound_read (h : s.Sound) (hopened : s.connection.client = .opened)
    {c : OwnedContext} {new : List MemoryEvent} {log : List ServerEvent}
    (hlog : new.filterMap MemoryEvent.serverEvent = log) (hrests : Rests c)
    (hsent : Sent s.ptrs c.ptrs new)
    (hcloses : OpenOrClosedOnce c.ctx s.connection.log (log ++ s.connection.log)) (active : Bool) :
    Session.Sound ⟨{ s.connection with
      ctx := c.ctx
      log := log ++ s.connection.log
      client := if .closeClient ∈ handleEvents log then .closing else s.connection.client
      timerActive := active
      writes := s.connection.writes + (handleEvents log).filterMap HandleEvent.response },
        c.ptrs⟩ := by
  subst hlog
  set log := new.filterMap MemoryEvent.serverEvent with hlog
  obtain ⟨hused, hclosed, -⟩ := h.inUse hopened
  have hlive : (if HandleEvent.closeClient ∈ handleEvents log then Handle.closing
      else s.connection.client) ≠ .zeroed ∧
      (if HandleEvent.closeClient ∈ handleEvents log then Handle.closing
      else s.connection.client) ≠ .closed := by
    split
    · exact ⟨nofun, nofun⟩
    · exact ⟨hused, hclosed⟩
  have htimer : s.connection.timer.isClosing ≠ true := fun hclosing => hclosed (h.timer hclosing)
  exact
    { rests := hrests
      waiting := fun hopen => by
        obtain ⟨-, hwaiting, -⟩ | ⟨hclosing, -⟩ := hcloses.2
        · exact hwaiting
        · exact Bool.noConfusion (hclosing.symm.trans hopen)
      writes := by
        rw [← h.writes, hsent.writes, ← Multiset.coe_add, add_comm]
        rfl
      closing := closing_read hopened hcloses
      unused := fun hzeroed => absurd hzeroed hlive.1
      context := fun _ htimer => hsent.context.symm ▸ h.context hused htimer
      data := fun hinit hopen => by
        rw [hsent.timerData, hsent.context]
        exact h.data hinit hopen
      opened := fun _ => h.opened hopened
      timer := fun hclosing => absurd hclosing htimer
      closed := fun hnever => absurd hnever hlive.2
      freed := fun hnever => absurd (congrArg Handle.isClosing hnever) htimer }

/-- What is done to the heap does not concern the parser. -/
private theorem kept_heapOnly {α : Type} {x : Traced MemoryEvent α} (hx : HeapOnly x)
    (h : s.Kept t) : s.Kept ((x.run t).2 ++ t) := by
  have hsilent : (x.run t).2.filterMap MemoryEvent.serverEvent = [] :=
    List.filterMap_eq_nil_iff.mpr (hx.server t)
  rw [Session.Kept, List.filterMap_append, hsilent]
  exact h

/-- A part of a callback that is about the heap alone. -/
private theorem kept_owns {α : Type} {P : Multiset ℕ} {x : Traced MemoryEvent α}
    {Q : α → Multiset ℕ → Prop} (hx : HeapOnly x) (howns : Owns P x Q)
    (ht : Holds MemoryEvent.op t P fault) (hkept : s.Kept t) :
    x.Ensures t fun a new =>
      ∃ m, Holds MemoryEvent.op (new ++ t) m fault ∧ Q a m ∧ s.Kept (new ++ t) := by
  obtain ⟨m, hholds, hQ⟩ := howns.ensures ht
  exact ⟨m, hholds, hQ, kept_heapOnly hx hkept⟩

/-- What the parser does in a read, as the callback sees it. -/
private theorem onRead_leaves (h : s.Sound) (hopened : s.connection.client = .opened)
    {base : Option ℕ} (ht : Holds MemoryEvent.op t (s.ptrs.blocks + pointed base) fault)
    (hkept : s.Kept t) {nread : ℤ} {buf : List UInt8} (hlen : nread ≤ buf.length)
    (hguard : 0 < nread → ReadGuarded tables env s.connection.ctx s.connection.log
      (buf.take (ssizetToSizet nread).1)) :
    (Traced.listen (onRead tables env ⟨s.connection.ctx, s.ptrs⟩ nread buf base)).Ensures t
      fun r new => r.2 = new ∧ Holds MemoryEvent.op (new ++ t) r.1.ptrs.blocks fault ∧
        Rests r.1 ∧ Sent s.ptrs r.1.ptrs new ∧ OpenOrClosedOnce r.1.ctx s.connection.log
          (new.filterMap MemoryEvent.serverEvent ++ s.connection.log) := by
  have hopen : s.connection.ctx.closing = false := h.closing.trans (by rw [hopened]; rfl)
  obtain ⟨hholds, hrests⟩ := onRead_owns tables env (c := ⟨s.connection.ctx, s.ptrs⟩) base ht
    h.rests hopen hlen fun hpos => hkept.symm ▸ hguard hpos
  have hcloses := onRead_closes tables env s.connection.log h.rests.settled.1.fits hopen
    (h.waiting hopen) nread buf
  obtain ⟨hctx, hlog⟩ :=
    (onRead_agrees tables env ⟨s.connection.ctx, s.ptrs⟩ nread buf base).erases t
  rw [hkept] at hctx hlog
  rw [Ensures, ← hctx, ← hlog] at hcloses
  exact ⟨rfl, hholds, hrests, onRead_sends tables env ⟨s.connection.ctx, s.ptrs⟩ nread buf base t,
    hcloses⟩

/-- **Bytes arrive**, and no argument is stored past the arrays. -/
theorem onClientRead_holds (h : s.Sound) (ht : Holds MemoryEvent.op t s.ptrs.blocks fault)
    (hkept : s.Kept t) (hopened : s.connection.client = .opened) {nread : ℤ} {buf : List UInt8}
    (hlen : nread ≤ buf.length)
    (hguard : 0 < nread → ReadGuarded tables env s.connection.ctx s.connection.log
      (buf.take (ssizetToSizet nread).1)) :
    (onClientRead tables env nread buf s).Ensures t fun s' new =>
      Holds MemoryEvent.op (new ++ t) s'.ptrs.blocks fault ∧ s'.Sound := by
  obtain ⟨hused, -, -, htimer⟩ := h.inUse hopened
  have halloc : Owns s.ptrs.blocks (allocBuffer buf)
      fun base m => m = pointed base + s.ptrs.blocks := owning_tryMalloc heap_op (only_pure _)
  refine (kept_owns (granted_heapOnly _) halloc ht hkept).bind ?_
  rintro base new₁ ⟨_, halloc, rfl, hkept₁⟩
  have huse := use_owns (h.context hused htimer)
    ((context_le s.ptrs).trans (Multiset.le_add_left _ (pointed base)))
  refine (kept_owns (use_heapOnly _) huse halloc hkept₁).bind ?_
  rintro _ new₂ ⟨_, hheld, rfl, hkept₂⟩
  rw [add_comm] at hheld
  refine (onRead_leaves tables env h hopened hheld hkept₂ hlen hguard).bind ?_
  rintro ⟨c, new₃⟩ _ ⟨rfl, hholds, hrests, hsent, hcloses⟩
  have hemitted (x : Traced HandleEvent Unit) : (ofHandle x).Ensures
      (new₃ ++ (new₂ ++ (new₁ ++ t))) fun _ new => Holds MemoryEvent.op
        (new ++ (new₃ ++ (new₂ ++ (new₁ ++ t)))) c.ptrs.blocks fault :=
    hholds.quiet (ofHandle_opless x _)
  refine (hemitted _).bind ?_
  intro _ new₄ hlast
  refine ensures_pure.mpr ⟨?_, sound_read h hopened rfl hrests hsent hcloses _⟩
  simpa only [List.nil_append, List.append_assoc] using hlast

end Reads

end Callbacks

end Memory

/-! ### Runs -/

/-- A callback in which no argument is stored past the arrays, and the timer that is closed has been
initialised. -/
def Callback.Regular (tables : Env (Event DataEntry)) (env : ServerEnv) (c : Connection) :
    Callback → Prop
  | .read nread buf =>
    0 < nread → ReadGuarded tables env c.ctx c.log (buf.take (ssizetToSizet nread).1)
  | .clientClose => c.timer ≠ .zeroed
  | _ => True

instance (tables : Env (Event DataEntry)) (env : ServerEnv) (c : Connection) :
    (cb : Callback) → Decidable (cb.Regular tables env c)
  | .read _ _ => inferInstanceAs (Decidable (_ → _))
  | .clientClose => inferInstanceAs (Decidable (_ ≠ _))
  | .newConnection _ _ _ | .writeComplete _ _ | .timeout | .timerClose =>
    inferInstanceAs (Decidable True)

/-- The callback of a write that has failed. -/
def Callback.Fails : Callback → Prop
  | .writeComplete _ status => status < 0
  | _ => False

instance : (cb : Callback) → Decidable cb.Fails
  | .writeComplete _ _ => inferInstanceAs (Decidable (_ < _))
  | .newConnection _ _ _ | .read _ _ | .timeout | .clientClose | .timerClose =>
    inferInstanceAs (Decidable False)

section Runs

variable (tables : Env (Event DataEntry)) (env : ServerEnv) {s : Session} {t : List MemoryEvent}
  {fault : Bool}

private theorem Memory.disposed {x : Traced MemoryEvent Session}
    (h : Owns s.ptrs.blocks x Disposed) (ht : Holds MemoryEvent.op t s.ptrs.blocks fault) :
    x.Ensures t fun s' new =>
      Holds MemoryEvent.op (new ++ t) s'.ptrs.blocks (fault || decide False) ∧ s'.Sound := by
  obtain ⟨_, hholds, rfl, hsound⟩ := h.ensures ht
  rw [decide_false, Bool.or_false]
  exact ⟨hholds, hsound⟩

/-- **One callback.** -/
theorem Session.Sound.step (h : s.Sound) (hkept : s.Kept t)
    (ht : Holds MemoryEvent.op t s.ptrs.blocks fault) {cb : Callback}
    (henabled : cb.Enabled s.connection) (hregular : cb.Regular tables env s.connection) :
    (s.step tables env cb).Ensures t fun s' new =>
      Holds MemoryEvent.op (new ++ t) s'.ptrs.blocks (fault || decide cb.Fails) ∧ s'.Sound := by
  cases cb with
  | newConnection status granted accepted =>
    exact Memory.disposed (Memory.onNewConnection_owns h henabled status granted accepted) ht
  | read nread buf =>
    have hsame : (fault || decide (Callback.read nread buf).Fails) = fault := Bool.or_false fault
    rw [hsame]
    exact Memory.onClientRead_holds tables env h ht hkept henabled.1 henabled.2 hregular
  | writeComplete response status => exact Memory.onWriteComplete_holds h ht henabled.1 status
  | timeout => exact Memory.disposed (Memory.onClientTimeout_owns h henabled.2) ht
  | clientClose =>
    exact Memory.disposed (Memory.onClientClose_owns h henabled.1 henabled.2 hregular) ht
  | timerClose => exact Memory.disposed (Memory.onTimerClose_owns h henabled) ht

end Runs

end SimpleCDatabase
