import SimpleCDatabase.Server.Completion
import SimpleCDatabase.Server.Handles

/-!
# The life cycle of the handles

Whatever the order of the callbacks, `uv_close` is called at most once on the stream of a client and
at most once on its timer, and on the timer only once it has been initialised, as long as no write
fails while the stream is closing and the stream of a connection that could not be accepted is not
closed. The callback of a write that libuv cancels closes the stream again, and the close callback
of the stream closes a timer that was never initialised.

## Main definitions

* `ClosedOnce`: the law of `uv_close`.
* `Callback.InTurn`: the callbacks that keep it.

## Main results

* `onRead_closes`: a read closes the stream at most once.
* `Tracked.step`: one callback in turn.
* `closedOnce_iff_inTurn`: a run of callbacks keeps the law exactly when all are in turn.
-/

namespace SimpleCDatabase

/-! ### What a read closes -/

@[simp] theorem handleEvents_append (new log : List ServerEvent) :
    handleEvents (new ++ log) = handleEvents new ++ handleEvents log :=
  List.filterMap_append

/-- How often the stream is passed to `uv_close`. -/
def closes (log : List ServerEvent) : ℕ := (handleEvents log).count .closeClient

@[simp] theorem closes_append (new log : List ServerEvent) :
    closes (new ++ log) = closes new + closes log := by
  rw [closes, handleEvents_append, List.count_append, closes, closes]

@[simp] theorem closes_close (log : List ServerEvent) : closes (.close :: log) = closes log + 1 :=
  List.count_cons_self

theorem closes_eq_zero {log : List ServerEvent} (h : .close ∉ log) : closes log = 0 := by
  rw [closes, List.count_eq_zero]
  intro hmem
  obtain ⟨e, he, hevent⟩ := List.mem_filterMap.mp hmem
  cases e with
  | close => exact h he
  | _ => cases hevent

/-- The reception of bytes neither initialises the timer nor closes it. -/
theorem handleEvents_timer (log : List ServerEvent) :
    .closeTimer ∉ handleEvents log ∧ .timerInit ∉ handleEvents log := by
  constructor
  all_goals
    intro hmem
    obtain ⟨e, -, hevent⟩ := List.mem_filterMap.mp hmem
    cases e <;> cases hevent

section Reads

variable (tables : Env (Event DataEntry)) (env : ServerEnv) {ctx : ClientContext}
  (log : List ServerEvent)

private theorem HeaderRead.waits {marker : UInt8} {least greatest : ℤ} {next : ℕ → ClientContext}
    {r : ForInStep ClientContext} {new : List ServerEvent}
    (h : HeaderRead ctx marker least greatest next r new) (hawaits : ctx.AwaitsLine marker) :
    r = .done ctx ∧ new = [] := by
  have hmarked {c : UInt8} {p : List UInt8} (h : ctx.pending = c :: p) :
      c = marker ∧ findCrlf p = none := by
    obtain hnil | ⟨q, hq, hopen⟩ := hawaits
    · exact absurd (hnil.symm.trans h) (List.cons_ne_nil _ _).symm
    · obtain ⟨rfl, rfl⟩ := List.cons.inj (h.symm.trans hq)
      exact ⟨rfl, hopen⟩
  cases h with
  | starved | unended => exact ⟨rfl, rfl⟩
  | unmarked h hc => exact absurd (hmarked h).1 hc
  | refused h hcr | accepted h hcr =>
    have hopen := (hmarked h).2
    rw [findCrlf_line hcr] at hopen
    cases hopen

/-- An iteration from a waiting state closes nothing. -/
private theorem parseStep_waits (h : ctx.Fits) (hwaiting : ctx.Waiting) :
    (parseStep tables env ctx).Ensures log fun r new =>
      ∃ ctx', r = .done ctx' ∧ ctx'.closing = ctx.closing ∧ .close ∉ new := by
  rw [ClientContext.Waiting] at hwaiting
  cases hstate : ctx.state with
  | expectType =>
    rw [hstate] at hwaiting
    have hlead : leadingWhitespace ctx = 0 := by
      obtain hnil | ⟨q, hq, -⟩ := hwaiting
      · simp [leadingWhitespace, hnil]
      · exact leadingWhitespace_marked hq
    refine (parseStep_expectType tables env log h hstate hlead).mono fun r new hread => ?_
    obtain ⟨rfl, rfl⟩ := hread.waits hwaiting
    exact ⟨ctx, rfl, rfl, by simp⟩
  | expectLength =>
    rw [hstate] at hwaiting
    refine (parseStep_expectLength tables env log h hstate).mono fun r new hread => ?_
    obtain ⟨rfl, rfl⟩ := hread.waits hwaiting
    exact ⟨ctx, rfl, rfl, by simp⟩
  | expectData =>
    rw [hstate] at hwaiting
    have hshort : ¬ctx.dataToRead + 2 ≤ ctx.bufferUsed := Nat.not_le.mpr hwaiting
    rw [parseStep, hstate]
    refine (expectData_spec tables env ctx log).mono fun r new hread => ?_
    cases hread with
    | starved => exact ⟨ctx, rfl, rfl, by simp⟩
    | unallocated h | unstored h | stored h | completed h => exact absurd h hshort

/-- The connection is open and waits, or it has been closed once. -/
def OpenOrClosedOnce (ctx : ClientContext) (before after : List ServerEvent) : Prop :=
  ctx.Fits ∧ (ctx.closing = false ∧ ctx.Waiting ∧ closes after = closes before ∨
    ctx.closing = true ∧ closes after = closes before + 1)

/-- The loop closes an open connection at most once. -/
private theorem parseBuffer_closes (h : ctx.Fits) (hopen : ctx.closing = false) :
    (parseBuffer tables env ctx).Ensures log fun ctx' new =>
      OpenOrClosedOnce ctx' log (new ++ log) := by
  have hstep (s : ClientContext) (t : List ServerEvent) (hs : s.Fits) :=
    And.intro (parseStep_progress tables env t hs).1 (parseStep_closesOnce tables env t hs)
  refine parseBuffer_ensures tables env log
    (fun s t => s.Fits ∧ s.closing = false ∧ closes t = closes log)
    (fun s t => OpenOrClosedOnce s log t) (fun _ _ hs => hs.1) (fun s t s' hs hyield => ?_)
    (fun s t s' hs hdone => ?_) ⟨h, hopen, rfl⟩
  · obtain ⟨hfits, ⟨hkeep, hnone⟩ | ⟨_, _, hdone, -⟩⟩ := hstep s t hs.1
    · rw [hyield] at hfits hkeep
      refine ⟨hfits, hkeep.trans hs.2.1, ?_⟩
      rw [closes_append, closes_eq_zero hnone, Nat.zero_add, hs.2.2]
    · rw [hyield] at hdone
      cases hdone
  · obtain ⟨hfits, hcloses⟩ := hstep s t hs.1
    have hwaiting := parseStep_waiting tables env t hs.1 s' hdone
    rw [hdone] at hfits
    refine ⟨hfits, ?_⟩
    obtain ⟨hkeep, hnone⟩ | ⟨ctx', rest, hdone', hclosing, hnew, hrest⟩ := hcloses
    · rw [hdone] at hkeep
      have hopen' : s'.closing = false := hkeep.trans hs.2.1
      refine .inl ⟨hopen', hwaiting.resolve_left (Bool.eq_false_iff.mp hopen'), ?_⟩
      rw [closes_append, closes_eq_zero hnone, Nat.zero_add, hs.2.2]
    · obtain rfl := ForInStep.done.inj (hdone.symm.trans hdone')
      refine .inr ⟨hclosing, ?_⟩
      rw [closes_append, hnew, closes_close, closes_eq_zero hrest, hs.2.2, Nat.add_comm]

/-- **A read closes an open connection at most once**, also when the buffer cannot grow and the
parser still runs. -/
theorem onRead_closes (h : ctx.Fits) (hopen : ctx.closing = false) (hwaiting : ctx.Waiting)
    (nread : ℤ) (buf : List UInt8) :
    (onRead tables env ctx nread buf).Ensures log fun ctx' new =>
      OpenOrClosedOnce ctx' log (new ++ log) := by
  refine Traced.ensures_ite (fun hpos => ?_) fun _ => Traced.ensures_ite (fun _ => ?_) fun _ => ?_
  · have hsize : (ssizetToSizet nread).2 = false := by
      rw [ssizetToSizet, if_neg (by omega)]
    rw [Traced.ensures_bind, Traced.ensures_emit]
    dsimp only
    rw [hsize]
    refine (appendToBuffer_spec env h _ _).bind fun ctx₁ new happended => ?_
    have hstart : closes ([.timerStart] ++ log) = closes log := by
      rw [closes_append, closes_eq_zero (by simp), Nat.zero_add]
    cases happended with
    | @appended buffer new hroom _ hnew =>
      have hfits : ClientContext.Fits { ctx with
        buffer := buffer
        bufferUsed := ctx.bufferUsed + (buf.take (ssizetToSizet nread).1).length } := hroom
      have hbefore : closes (new ++ ([.timerStart] ++ log)) = closes log := by
        obtain rfl | ⟨size, rfl⟩ := hnew
        · exact hstart
        · rw [closes_append, closes_eq_zero (by simp), Nat.zero_add, hstart]
      refine (parseBuffer_closes tables env _ hfits hopen).mono fun ctx' new' hloop => ?_
      rw [OpenOrClosedOnce, hbefore] at hloop
      simpa only [OpenOrClosedOnce, List.append_assoc] using hloop
    | @denied log' size =>
      have hfits : ClientContext.Fits { ctx with closing := true } := h
      have hstep := parseStep_waits tables env
        ([.close, .malloc size false] ++ ([.timerStart] ++ log)) hfits hwaiting
      have hprogress := (parseStep_progress tables env
        ([.close, .malloc size false] ++ ([.timerStart] ++ log)) hfits).1
      obtain ⟨ctx', hdone, hclosing, hnone⟩ := hstep
      rw [hdone] at hprogress
      rw [if_neg Bool.false_ne_true, Traced.Ensures,
        run_parseBuffer_done tables env _ hdone, List.append_assoc, List.append_assoc]
      have hmalloc : closes [.malloc size false] = 0 := closes_eq_zero (by simp)
      refine ⟨hprogress, .inr ⟨hclosing, ?_⟩⟩
      rw [closes_append, closes_eq_zero hnone, List.cons_append, closes_close, closes_append,
        hmalloc, hstart, Nat.zero_add, Nat.zero_add]
  · rw [Traced.ensures_bind, Traced.ensures_emit]
    refine ⟨h, .inr ⟨rfl, ?_⟩⟩
    show closes (.close :: .timerStop :: log) = closes log + 1
    rw [closes_close, ← List.singleton_append, closes_append, closes_eq_zero (by simp),
      Nat.zero_add]
  · exact ⟨h, .inl ⟨hopen, hwaiting, rfl⟩⟩

end Reads

/-! ### The law of `uv_close` -/

/-- `uv_close` is called at most once on the stream and at most once on the timer, and on the timer
only after it has been initialised. -/
structure ClosedOnce (log : List HandleEvent) : Prop where
  client : log.count .closeClient ≤ 1
  timer : log.count .closeTimer ≤ 1
  initialised : ∀ earlier, .closeTimer :: earlier <:+ log → .timerInit ∈ earlier

theorem ClosedOnce.of_append {new log : List HandleEvent} (h : ClosedOnce (new ++ log)) :
    ClosedOnce log := by
  obtain ⟨hclient, htimer, hinitialised⟩ := h
  rw [List.count_append] at hclient htimer
  exact ⟨by omega, by omega, fun earlier hsuffix =>
    hinitialised earlier (hsuffix.trans (List.suffix_append new log))⟩

/-- The callbacks that keep the law: a write does not fail when the stream is closing, and the
stream that is closed has a timer that has been initialised. -/
def Callback.InTurn (c : Connection) : Callback → Prop
  | .writeComplete _ status => status < 0 → c.client.isClosing = false
  | .clientClose => c.timer ≠ .zeroed
  | _ => True

instance (c : Connection) : (cb : Callback) → Decidable (cb.InTurn c)
  | .newConnection _ _ _ | .read _ _ | .timeout | .timerClose => isTrue trivial
  | .writeComplete _ _ => inferInstanceAs (Decidable (_ → _))
  | .clientClose => inferInstanceAs (Decidable (_ ≠ _))

/-- What has been done to the handles of a connection is what their states say. -/
structure Tracked (c : Connection) (log : List HandleEvent) : Prop where
  fits : c.ctx.Fits
  closing : c.ctx.closing = c.client.isClosing
  waiting : c.client.isClosing = false → c.ctx.Waiting
  unused : c.client = .zeroed → c.timer = .zeroed ∧ c.ctx.bufferUsed = 0
  client : log.count .closeClient = c.client.isClosing.toNat
  timer : log.count .closeTimer = c.timer.isClosing.toNat
  opened : .timerInit ∈ log ↔ c.timer ≠ .zeroed
  initialised : ∀ earlier, .closeTimer :: earlier <:+ log → .timerInit ∈ earlier

section Tracked

variable {c : Connection} {log : List HandleEvent}

theorem tracked_absent (server : ServerContext) : Tracked (.absent server) [] where
  fits := ClientContext.fits_fresh server
  closing := rfl
  waiting := fun _ => ClientContext.waiting_fresh server
  unused := fun _ => ⟨rfl, rfl⟩
  client := rfl
  timer := rfl
  opened := by simp [Connection.absent]
  initialised := by simp

theorem Tracked.closedOnce (h : Tracked c log) : ClosedOnce log where
  client := h.client.trans_le (Bool.toNat_le _)
  timer := h.timer.trans_le (Bool.toNat_le _)
  initialised := h.initialised

/-- What follows an event that closes the timer, where none is added. -/
private theorem suffix_of_append {new earlier : List HandleEvent} (hnew : .closeTimer ∉ new)
    (h : .closeTimer :: earlier <:+ new ++ log) : .closeTimer :: earlier <:+ log := by
  induction new with
  | nil => exact h
  | cons e new ih =>
    rw [List.mem_cons, not_or] at hnew
    obtain heq | hsuffix := List.suffix_cons_iff.mp h
    · exact absurd (List.cons.inj heq).1 hnew.1
    · exact ih hnew.2 hsuffix

/-- The stream is passed to `uv_close` when it was not before. -/
private theorem Tracked.closeClient (h : Tracked c log) (hopen : c.client.isClosing = false) :
    c.closeClient.Ensures log fun c' new => Tracked c' (new ++ log) where
  fits := h.fits
  closing := rfl
  waiting := fun hclosing => Bool.noConfusion hclosing
  unused := fun hzeroed => Handle.noConfusion hzeroed
  client := by
    show (.closeClient :: log).count .closeClient = 1
    rw [List.count_cons_self, h.client, hopen]
    rfl
  timer := by
    show (.closeClient :: log).count .closeTimer = c.timer.isClosing.toNat
    rw [List.count_cons_of_ne (by decide), h.timer]
  opened := by
    show .timerInit ∈ .closeClient :: log ↔ c.timer ≠ .zeroed
    rw [List.mem_cons, ← h.opened]
    simp
  initialised := fun earlier hsuffix =>
    h.initialised earlier (@suffix_of_append log [.closeClient] earlier (by simp) hsuffix)

/-- Events that close nothing and do not initialise the timer. -/
private theorem Tracked.quiet (h : Tracked c log) {c' : Connection} {new : List HandleEvent}
    (hclient : c'.client = c.client) (htimer : c'.timer = c.timer) (hfits : c'.ctx.Fits)
    (hclosing : c'.ctx.closing = c.ctx.closing)
    (hwaiting : c'.client.isClosing = false → c'.ctx.Waiting)
    (hunused : c.client = .zeroed → c'.ctx.bufferUsed = 0) (hnone : .closeClient ∉ new)
    (hkeep : .closeTimer ∉ new) (hinit : .timerInit ∉ new) : Tracked c' (new ++ log) where
  fits := hfits
  closing := by rw [hclosing, hclient, h.closing]
  waiting := hwaiting
  unused := fun hzeroed => by
    rw [hclient] at hzeroed
    exact ⟨htimer.trans (h.unused hzeroed).1, hunused hzeroed⟩
  client := by rw [List.count_append, List.count_eq_zero.mpr hnone, Nat.zero_add, hclient, h.client]
  timer := by rw [List.count_append, List.count_eq_zero.mpr hkeep, Nat.zero_add, htimer, h.timer]
  opened := by rw [List.mem_append, or_iff_right hinit, htimer, h.opened]
  initialised := fun earlier hsuffix => h.initialised earlier (suffix_of_append hkeep hsuffix)

/-- A client connects. -/
private theorem onNewConnection_tracked (h : Tracked c log) (hzeroed : c.client = .zeroed)
    (status : ℤ) (granted : Bool) (accepted : ℤ) :
    (onNewConnection status granted accepted c).Ensures log fun c' new =>
      Tracked c' (new ++ log) := by
  obtain ⟨htimer, hused⟩ := h.unused hzeroed
  have hopen : c.client.isClosing = false := by rw [hzeroed]; rfl
  refine Traced.ensures_ite (fun _ => h) fun _ => Traced.ensures_ite (fun _ => ?_) fun _ => h
  have hopened : Tracked { c with client := .opened } (.accept accepted :: .tcpInit :: log) :=
    { fits := h.fits
      closing := h.closing.trans hopen
      waiting := fun _ => h.waiting hopen
      unused := fun hnever => Handle.noConfusion hnever
      client := by
        rw [List.count_cons_of_ne (by simp), List.count_cons_of_ne (by simp), h.client, hopen]
        rfl
      timer := by
        rw [List.count_cons_of_ne (by simp), List.count_cons_of_ne (by simp), h.timer]
      opened := by simp [h.opened]
      initialised := fun earlier hsuffix => h.initialised earlier
        (@suffix_of_append log [.accept accepted, .tcpInit] earlier (by simp) hsuffix) }
  rw [Traced.ensures_bind, Traced.ensures_emit]
  dsimp only
  rw [Traced.ensures_bind, Traced.ensures_emit]
  refine Traced.ensures_ite (fun _ => ?_) fun _ => ?_
  · show Tracked { c with
      ctx := c.ctx.resetParser, client := .opened, timer := .opened, timerActive := true }
      (.readStart :: .timerStart :: .timerInit :: .accept accepted :: .tcpInit :: log)
    have hkept : log.count .closeTimer = 0 := by rw [h.timer, htimer]; rfl
    exact
      { fits := h.fits
        closing := hopened.closing
        waiting := fun _ => .inl (by
          show c.ctx.buffer.take c.ctx.bufferUsed = []
          rw [hused, List.take_zero])
        unused := fun hnever => Handle.noConfusion hnever
        client := by
          rw [List.count_cons_of_ne (by simp), List.count_cons_of_ne (by simp),
            List.count_cons_of_ne (by simp), hopened.client]
        timer := by
          rw [List.count_cons_of_ne (by simp), List.count_cons_of_ne (by simp),
            List.count_cons_of_ne (by simp), List.count_cons_of_ne (by simp),
            List.count_cons_of_ne (by simp), hkept]
          rfl
        opened := iff_of_true (by simp) fun hnever => Handle.noConfusion hnever
        initialised := fun earlier hsuffix => absurd ((@suffix_of_append log
          [.readStart, .timerStart, .timerInit, .accept accepted, .tcpInit] earlier (by simp)
          hsuffix).subset List.mem_cons_self) (List.count_eq_zero.mp hkept) }
  · exact (hopened.closeClient rfl).mono fun c' new hclosed => by
      simpa only [List.append_assoc, List.cons_append, List.nil_append] using hclosed

/-- Bytes arrive. -/
private theorem onClientRead_tracked (tables : Env (Event DataEntry)) (env : ServerEnv)
    (h : Tracked c log) (hopened : c.client = .opened) (nread : ℤ) (buf : List UInt8) :
    (onClientRead tables env nread buf c).Ensures log fun c' new => Tracked c' (new ++ log) := by
  have hopen : c.client.isClosing = false := by rw [hopened]; rfl
  obtain ⟨hfits, hcloses⟩ := onRead_closes tables env c.log h.fits (h.closing.trans hopen)
    (h.waiting hopen) nread buf
  set r := (onRead tables env c.ctx nread buf).run c.log with hr
  obtain ⟨hkeep, hinit⟩ := handleEvents_timer r.2
  rw [closes_append] at hcloses
  show Tracked { c with
    ctx := r.1
    log := r.2 ++ c.log
    client := if .closeClient ∈ handleEvents r.2 then .closing else c.client
    timerActive := _
    writes := _ } (handleEvents r.2 ++ log)
  obtain ⟨hopen', hwaiting, hcount⟩ | ⟨hclosing, hcount⟩ := hcloses
  · have hnone : .closeClient ∉ handleEvents r.2 := List.count_eq_zero.mp (by
      rw [← closes]
      omega)
    rw [if_neg hnone]
    exact h.quiet rfl rfl hfits (hopen'.trans (h.closing.trans hopen).symm) (fun _ => hwaiting)
      (fun hzeroed => Handle.noConfusion (hopened.symm.trans hzeroed)) hnone hkeep hinit
  · have hone : (handleEvents r.2).count .closeClient = 1 := by
      rw [← closes]
      omega
    rw [if_pos (List.count_pos_iff.mp (hone ▸ Nat.one_pos))]
    exact
      { fits := hfits
        closing := hclosing
        waiting := fun hnever => Bool.noConfusion hnever
        unused := fun hnever => Handle.noConfusion hnever
        client := by
          rw [List.count_append, hone, h.client, hopen]
          rfl
        timer := by rw [List.count_append, List.count_eq_zero.mpr hkeep, Nat.zero_add, h.timer]
        opened := by rw [List.mem_append, or_iff_right hinit, h.opened]
        initialised := fun earlier hsuffix =>
          h.initialised earlier (suffix_of_append hkeep hsuffix) }

/-- A write is complete, and has not failed while the stream was closing. -/
private theorem onWriteComplete_tracked (h : Tracked c log) (response : List UInt8) {status : ℤ}
    (hturn : status < 0 → c.client.isClosing = false) :
    (onWriteComplete response status c).Ensures log fun c' new => Tracked c' (new ++ log) := by
  have hrest : Tracked { c with writes := c.writes.erase response } log :=
    ⟨h.fits, h.closing, h.waiting, h.unused, h.client, h.timer, h.opened, h.initialised⟩
  exact Traced.ensures_ite (fun hneg => hrest.closeClient (hturn hneg)) fun _ => hrest

/-- The timer fires. -/
private theorem onClientTimeout_tracked (h : Tracked c log) (hopened : c.client = .opened) :
    (onClientTimeout c).Ensures log fun c' new => Tracked c' (new ++ log) := by
  have hfired : Tracked { c with timerActive := false } log :=
    ⟨h.fits, h.closing, h.waiting, h.unused, h.client, h.timer, h.opened, h.initialised⟩
  exact hfired.closeClient (by rw [hopened]; rfl)

/-- The stream of a connection whose timer has been initialised is closed. -/
private theorem onClientClose_tracked (h : Tracked c log) (hclosing : c.client = .closing)
    (hturn : c.timer ≠ .zeroed) :
    (onClientClose c).Ensures log fun c' new => Tracked c' (new ++ log) := by
  have hended : Tracked { c with client := .closed } log :=
    ⟨h.fits, by rw [h.closing, hclosing]; rfl, fun hnever => Bool.noConfusion hnever,
      fun hnever => Handle.noConfusion hnever, by rw [h.client, hclosing]; rfl, h.timer, h.opened,
      h.initialised⟩
  have hreset {c' : Connection} {log : List HandleEvent} (h : Tracked c' log)
      (hclosed : c'.client = .closed) :
      Tracked { c' with ctx := c'.ctx.freeParserResources.resetParser } log :=
    ⟨h.fits, h.closing, fun hnever => by rw [hclosed] at hnever; exact Bool.noConfusion hnever,
      fun hnever => by rw [hclosed] at hnever; exact Handle.noConfusion hnever, h.client, h.timer,
      h.opened, h.initialised⟩
  refine Traced.ensures_ite (fun _ => hreset hended rfl) fun hopen => ?_
  have hinit : .timerInit ∈ log := h.opened.mpr hturn
  have htimer : Tracked { c with client := .closed, timer := .closing, timerActive := false }
      (.closeTimer :: log) :=
    { fits := h.fits
      closing := hended.closing
      waiting := hended.waiting
      unused := fun hnever => Handle.noConfusion hnever
      client := by rw [List.count_cons_of_ne (by decide), hended.client]
      timer := by
        rw [List.count_cons_self, h.timer, Bool.eq_false_iff.mpr hopen]
        rfl
      opened := iff_of_true (List.mem_cons_of_mem _ hinit) fun hnever => Handle.noConfusion hnever
      initialised := fun earlier hsuffix => by
        obtain heq | hsuffix := List.suffix_cons_iff.mp hsuffix
        · rwa [(List.cons.inj heq).2]
        · exact h.initialised earlier hsuffix }
  exact hreset htimer rfl

/-- The timer is closed. -/
private theorem onTimerClose_tracked (h : Tracked c log) (hclosing : c.timer = .closing) :
    (onTimerClose c).Ensures log fun c' new => Tracked c' (new ++ log) := by
  show Tracked { c with timer := .closed } (.free :: log)
  exact
    { fits := h.fits
      closing := h.closing
      waiting := h.waiting
      unused := fun hzeroed => Handle.noConfusion (hclosing.symm.trans (h.unused hzeroed).1)
      client := by rw [List.count_cons_of_ne (by decide), h.client]
      timer := by
        rw [List.count_cons_of_ne (by decide), h.timer, hclosing]
        rfl
      opened := by
        rw [List.mem_cons, or_iff_right (by decide), h.opened, hclosing]
        exact iff_of_true (by decide) fun hnever => Handle.noConfusion hnever
      initialised := fun earlier hsuffix =>
        h.initialised earlier (@suffix_of_append log [.free] earlier (by simp) hsuffix) }

/-- **One callback in turn.** -/
theorem Tracked.step (tables : Env (Event DataEntry)) (env : ServerEnv) (h : Tracked c log)
    {cb : Callback} (henabled : cb.Enabled c) (hturn : cb.InTurn c) :
    (c.step tables env cb).Ensures log fun c' new => Tracked c' (new ++ log) := by
  cases cb with
  | newConnection status granted accepted => exact onNewConnection_tracked h henabled _ _ _
  | read nread buf => exact onClientRead_tracked tables env h henabled.1 _ _
  | writeComplete response status => exact onWriteComplete_tracked h response hturn
  | timeout => exact onClientTimeout_tracked h henabled.2
  | clientClose => exact onClientClose_tracked h henabled.1 hturn
  | timerClose => exact onTimerClose_tracked h henabled

/-- **A callback out of turn breaks the law.** -/
theorem Tracked.step_broken (tables : Env (Event DataEntry)) (env : ServerEnv) (h : Tracked c log)
    {cb : Callback} (hturn : ¬cb.InTurn c) :
    (c.step tables env cb).Ensures log fun _ new => ¬ClosedOnce (new ++ log) := by
  cases cb with
  | newConnection | read | timeout | timerClose => exact absurd trivial hturn
  | writeComplete response status =>
    obtain ⟨hneg, hclosing⟩ := Classical.not_imp.mp hturn
    refine Traced.ensures_ite (fun _ hlaw => ?_) fun hpos => absurd hneg hpos
    have hcount : (.closeClient :: log).count .closeClient ≤ 1 := hlaw.client
    rw [List.count_cons_self, h.client, Bool.eq_true_of_not_eq_false hclosing] at hcount
    exact absurd hcount (by decide)
  | clientClose =>
    have htimer : c.timer = .zeroed := not_not.mp hturn
    refine Traced.ensures_ite (fun hclosing => ?_) fun _ hlaw => ?_
    · have hzeroed : c.timer.isClosing = true := hclosing
      rw [htimer] at hzeroed
      exact Bool.noConfusion hzeroed
    · exact h.opened.mp (hlaw.initialised log List.suffix_rfl) htimer

end Tracked

/-- **The law of `uv_close` over runs.** A run of callbacks that libuv can make keeps it exactly
when all callbacks are in turn. -/
theorem closedOnce_iff_inTurn (tables : Env (Event DataEntry)) (env : ServerEnv)
    (server : ServerContext) (cbs : List Callback)
    (henabled : Traced.Guarded (Connection.step tables env) (fun c _ cb => cb.Enabled c)
      (.absent server) [] cbs) :
    ClosedOnce ((callbacks tables env server cbs).run []).2 ↔
      Traced.Guarded (Connection.step tables env) (fun c _ cb => cb.InTurn c)
        (.absent server) [] cbs := by
  have hrun := Traced.runAll_lawful_iff (Connection.step tables env) (fun c _ cb => cb.Enabled c)
    (fun c _ cb => cb.InTurn c) Tracked ClosedOnce (fun _ _ hs => hs.closedOnce)
    (fun _ _ => ClosedOnce.of_append) (fun _ _ _ hen hok hs => hs.step tables env hen hok)
    (fun _ _ _ _ hok hs => hs.step_broken tables env hok) cbs (.absent server) [] henabled
    (tracked_absent server)
  rwa [List.append_nil] at hrun

/-- A command is answered, and the client leaves. -/
theorem closedOnce_command :
    ClosedOnce ((callbacks Env.granting .granting ⟨Hashtable.fresh 1, []⟩
      [.newConnection 0 true 0, .read 15 (bytes "*1\r\n$5\r\nCLEAR\r\n"),
       .writeComplete (bytes "OK\r") 0, .read (-4095) [], .clientClose, .timerClose]).run []).2 :=
  (closedOnce_iff_inTurn _ _ _ _ (by decide +kernel)).mpr (by decide +kernel)

/-- The client leaves before the answer has been sent: the write is cancelled, and its callback
closes the stream again. -/
theorem closedTwice_cancelled :
    ¬∀ (tables : Env (Event DataEntry)) (env : ServerEnv) (server : ServerContext)
      (cbs : List Callback), Traced.Guarded (Connection.step tables env)
        (fun c _ cb => cb.Enabled c) (.absent server) [] cbs →
        ClosedOnce ((callbacks tables env server cbs).run []).2 := by
  intro h
  have hlaw := h Env.granting .granting ⟨Hashtable.fresh 1, []⟩
    [.newConnection 0 true 0, .read 15 (bytes "*1\r\n$5\r\nCLEAR\r\n"), .read (-4095) [],
     .writeComplete (bytes "OK\r") UV_ECANCELED] (by decide +kernel)
  exact absurd hlaw.client (by decide +kernel)

end SimpleCDatabase
