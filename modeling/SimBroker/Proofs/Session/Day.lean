import SimBroker.Proofs.Risk.LossWindows
import SimBroker.Proofs.Session.Audit

/-!
# What a session has realized in a day

A trade has two times.  It is executed at a reading of the clock, which for a crossed exit is the
time of the price instead; and the risk manager records it at a later reading, when the call that
has made it comes to `sync`.  The manager counts days by its own readings, so a trade belongs to the
day on which it was recorded.  That is the day of its call if no call passes midnight, and the day
on which it was executed if moreover every price and every candle has a time on the day on which it
is given to the session.

## Main definitions

* `Decimal.Alike`: the same decimal, or two zeros
* `Booking`, `Booking.Timely`: a trade with its call and with the time at which it was recorded
* `booked`: the trades that a call makes
* `Informs`: what the monitor was told, with the results of some bookings among it
* `Booked`: what a session has made of some calls

## Main results

* `Booked.step`, `Booked.runCalls`: a call and a run of calls keep what was booked
* `Informs.total_eq`: the profit of the day is the sum of what was recorded on it
* `Booked.total_within_days`: it is what the calls of the day have realized if none passes midnight
* `dailyPnl_booked`: the profit of the day after a call that ends in `sync`
* `dailyPnl_ne_executed`: it need not be the sum of what was executed on the day
-/

namespace SimBroker

/-! ## Sums with zeros -/

namespace Decimal

variable {a b c d : Decimal}

/-- Decimals are the same, unless both are zeros, which may have other signs and scales. -/
def Alike (a b : Decimal) : Prop := a = b ∨ a.isZero ∧ b.isZero

theorem Alike.refl (a : Decimal) : a.Alike a := .inl rfl

theorem Alike.sameValue (h : a.Alike b) : a.SameValue b := by
  rcases h with rfl | ⟨ha, hb⟩
  · exact .refl a
  · rw [sameValue_iff, isZero_iff.mp ha, isZero_iff.mp hb]

/-- A zero leaves the other term as it is. -/
theorem Alike.add_eq (h : a.Alike b) (c : Decimal) : a.add c = b.add c := by
  rcases h with rfl | ⟨ha, hb⟩
  · rfl
  · rw [add, add, if_pos ha, if_pos hb]

theorem Alike.add_zero (h : a.Alike b) : ∃ c, b.add 0 = .ok c ∧ a.Alike c := by
  have hnone : (0 : Decimal).isZero := isZero_iff.mpr toRat_zero
  rw [← h.add_eq 0, add]
  by_cases hzero : a.isZero
  · exact ⟨0, if_pos hzero, .inr ⟨hzero, hnone⟩⟩
  · exact ⟨a, (if_neg hzero).trans (if_pos hnone), .refl a⟩

/-- The sum of some terms is that of more of them, if the others are zero. -/
theorem foldlM_filter_of_zeros {α : Type} {f : α → Decimal} {p q : α → Bool} {xs : List α}
    (hsub : ∀ x ∈ xs, p x → q x) (hzero : ∀ x ∈ xs, q x → ¬ p x → f x = 0) (hab : a.Alike b)
    (h : ((xs.filter p).map f).foldlM Decimal.add a = .ok c) :
    ∃ d, ((xs.filter q).map f).foldlM Decimal.add b = .ok d ∧ c.Alike d := by
  induction xs generalizing a b with
  | nil =>
    obtain rfl := Calc.pure_eq_ok.mp h
    exact ⟨b, rfl, hab⟩
  | cons x xs ih =>
    obtain ⟨hsub_x, hsub⟩ := List.forall_mem_cons.mp hsub
    obtain ⟨hzero_x, hzero⟩ := List.forall_mem_cons.mp hzero
    by_cases hp : p x
    · rw [List.filter_cons_of_pos hp, List.map_cons, List.foldlM_cons, hab.add_eq] at h
      obtain ⟨sum, hsum, h⟩ := Calc.bind_eq_ok.mp h
      rw [List.filter_cons_of_pos (hsub_x hp), List.map_cons, List.foldlM_cons, hsum]
      exact ih hsub hzero (.refl sum) h
    · rw [List.filter_cons_of_neg hp] at h
      by_cases hq : q x
      · -- another term, which leaves the sum as it is but for a zero
        obtain ⟨sum, hsum, halike⟩ := hab.add_zero
        rw [List.filter_cons_of_pos hq, List.map_cons, List.foldlM_cons, hzero_x hq hp, hsum]
        exact ih hsub hzero halike h
      · rw [List.filter_cons_of_neg hq]
        exact ih hsub hzero hab h

end Decimal

namespace LedgerEvent

theorem trade?_of_exit? {event : LedgerEvent} {t : Trade} (h : event.exit? = some t) :
    event.trade? = some t := by
  match event with
  | .position change _ (some _) =>
    simp only [exit?, Option.ite_none_right_eq_some] at h
    exact h.2
  | .position _ _ none | .exitTriggered .. | .orderFilled _ | .orderCanceled _ => exact nomatch h

end LedgerEvent

namespace DrawdownMonitor

/-- The results that were told on a day. -/
theorem results_filter_day (told : List Call) (day : ℤ) :
    results (told.filter (·.time.day = day)) =
      ((told.filterMap Call.recording?).filter (·.1.day = day)).map Prod.snd := by
  unfold results
  rw [List.filterMap_filter, List.filter_filterMap, List.map_filterMap]
  refine List.filterMap_congr fun c _ => ?_
  cases c with
  | update equity now => simp [Call.pnl?, Call.recording?]
  | recordPnl pnl now =>
    by_cases hday : now.day = day
    · simp [Call.pnl?, Call.recording?, Call.time, hday]
    · simp [Call.recording?, Call.time, hday]

end DrawdownMonitor

namespace Session

open Session.Action

variable {s s' s₁ : Session} {call : Call} {clock : Clock} {k : ℕ} {limits : RiskSettings}
  {calls done : List (Call × Clock)} {told events : List LedgerEvent} {start : Decimal}
  {begin : Instant} {day : ℤ}

/-! ## Bookings -/

/-- A trade with the call that has made it, and the time at which the risk manager has recorded it,
if it has. -/
structure Booking where
  call : Call × Clock
  trade : Trade
  recordedAt? : Option Instant

namespace Booking

/-- The trade with the call that has made it. -/
def made (b : Booking) : (Call × Clock) × Trade := (b.call, b.trade)

/-- What the risk manager has recorded of the trade. -/
def recording? (b : Booking) : Option (Instant × Decimal) :=
  b.recordedAt?.map (·, b.trade.realizedPnl)

/-- Whether the trade was recorded on a day. -/
def recordedOn (b : Booking) (day : ℤ) : Bool := b.recordedAt?.any (·.day = day)

/-- The trade was executed at a reading of its call's clock, or at the time of the event that the
call has brought, and it was recorded at a later reading of the clock.  If it was not recorded, it
has realized nothing. -/
structure Timely (b : Booking) : Prop where
  executed : ∃ k, b.trade.executedAt ∈ b.call.2.upTo k ++ b.call.1.eventTime?.toList ∧
    ∀ t ∈ b.recordedAt?, ∃ i ≥ k, t = b.call.2 i
  realizedPnl_eq : b.recordedAt? = none → b.trade.realizedPnl = 0

section Days

variable {b : Booking}

theorem Timely.recorded_day_eq (h : b.Timely) (hwithin : b.call.2.WithinDay) :
    ∀ t ∈ b.recordedAt?, t.day = (b.call.2 0).day := by
  obtain ⟨k, -, hrecorded⟩ := h.executed
  intro t ht
  obtain ⟨i, -, rfl⟩ := hrecorded t ht
  exact hwithin i

theorem Timely.executed_day_eq (h : b.Timely) (hwithin : b.call.2.WithinDay)
    (hevent : ∀ t ∈ b.call.1.eventTime?, t.day = (b.call.2 0).day) :
    b.trade.executedAt.day = (b.call.2 0).day := by
  obtain ⟨k, hexecuted, -⟩ := h.executed
  rcases List.mem_append.mp hexecuted with hreading | htime
  · obtain ⟨i, -, hi⟩ := Clock.mem_upTo.mp hreading
    rw [← hi]
    exact hwithin i
  · exact hevent _ (Option.mem_toList.mp htime)

end Days

end Booking

/-- The results that were recorded of trades on a day. -/
theorem recordings_filter_day (bookings : List Booking) (day : ℤ) :
    ((bookings.filterMap Booking.recording?).filter (·.1.day = day)).map Prod.snd =
      (bookings.filter (·.recordedOn day)).map (·.trade.realizedPnl) := by
  induction bookings with
  | nil => rfl
  | cons b bookings ih =>
    obtain ⟨call, trade, recordedAt?⟩ := b
    cases recordedAt? with
    | none => exact ih
    | some t =>
      by_cases hday : t.day = day
      · simpa [Booking.recording?, Booking.recordedOn, hday] using ih
      · simpa [Booking.recording?, Booking.recordedOn, hday] using ih

theorem stamped_map_snd (clock : Clock) (events : List LedgerEvent) :
    (stamped clock events).map Prod.snd = events := by
  induction events generalizing clock with
  | nil => rfl
  | cons event events ih => rw [stamped, List.map_cons, ih]

theorem mem_stamped {e : Instant × LedgerEvent} (h : e ∈ stamped clock events) :
    e.2 ∈ events ∧ ∃ i, e.1 = clock i := by
  induction events generalizing clock with
  | nil => exact nomatch h
  | cons event events ih =>
    rcases List.mem_cons.mp h with rfl | h
    · exact ⟨List.mem_cons_self, 0, rfl⟩
    · obtain ⟨hmem, i, hi⟩ := ih h
      exact ⟨List.mem_cons_of_mem event hmem, i + 3, hi⟩

/-- The trades that a call has told of when it comes to `sync` after `k` readings of its clock. -/
def bookingsOf (call : Call) (clock : Clock) (k : ℕ) (told : List LedgerEvent) : List Booking :=
  (stamped (clock.after k) told).filterMap fun e =>
    e.2.trade?.map fun t => ⟨(call, clock), t, e.2.exit?.map fun _ => e.1⟩

theorem bookingsOf_map_made (call : Call) (clock : Clock) (k : ℕ) (told : List LedgerEvent) :
    (bookingsOf call clock k told).map Booking.made =
      (told.filterMap LedgerEvent.trade?).map ((call, clock), ·) := by
  conv_rhs => rw [← stamped_map_snd (clock.after k) told]
  rw [bookingsOf, List.map_filterMap, List.filterMap_map, List.map_filterMap]
  refine List.filterMap_congr fun e _ => ?_
  rw [Option.map_map]
  rfl

/-- What the manager records in `sync` are the recordings of the bookings. -/
theorem bookingsOf_recordings (call : Call) (clock : Clock) (k : ℕ) (told : List LedgerEvent) :
    (bookingsOf call clock k told).filterMap Booking.recording? =
      recordings (clock.after k) told := by
  rw [bookingsOf, recordings, List.filterMap_filterMap]
  refine List.filterMap_congr fun e _ => ?_
  -- a trade that gives back is the one that the event tells of
  cases hexit : e.2.exit? with
  | some t =>
    rw [LedgerEvent.trade?_of_exit? hexit]
    rfl
  | none => cases e.2.trade? <;> rfl

theorem timely_bookingsOf {b : Booking}
    (hdated : ∀ event ∈ told, event.Dated (clock.upTo k ++ call.eventTime?.toList))
    (hb : b ∈ bookingsOf call clock k told) : b.Timely ∧ b.call = (call, clock) := by
  obtain ⟨e, he, hbooking⟩ := List.mem_filterMap.mp hb
  obtain ⟨t, htrade, rfl⟩ := Option.map_eq_some_iff.mp hbooking
  obtain ⟨hevent, i, hi⟩ := mem_stamped he
  obtain ⟨htime, hzero⟩ := hdated e.2 hevent t htrade
  refine ⟨⟨⟨k, htime, ?_⟩, ?_⟩, rfl⟩
  · intro t' ht'
    obtain ⟨_, -, rfl⟩ := Option.map_eq_some_iff.mp ht'
    exact ⟨i + k, Nat.le_add_left k i, hi⟩
  · intro hnone
    exact hzero (Option.map_eq_none_iff.mp hnone)

/-- The trades that a call makes. -/
def booked (call : Call) (clock : Clock) (s : Session) : List ((Call × Clock) × Trade) :=
  ((ended? (perform call clock) s).map fun s' =>
    (s'.ledger.trades.drop s.ledger.trades.length).map ((call, clock), ·)).getD []

theorem booked_eq {u : Unit} {trades : List Trade} (h : (perform call clock).run s = .ok u s')
    (htrades : s'.ledger.trades = s.ledger.trades ++ trades) :
    booked call clock s = trades.map ((call, clock), ·) := by
  rw [booked, ended?_eq_some.mpr ⟨u, h⟩, Option.map_some, Option.getD_some, htrades,
    List.drop_left]

/-! ## Runs -/

/-- What the monitor was told since it was new, at readings of the clocks of some calls; the results
among it are those of the bookings. -/
structure Informs (told : List DrawdownMonitor.Call) (start : Decimal) (begin : Instant)
    (calls : List (Call × Clock)) (bookings : List Booking) (m : DrawdownMonitor) : Prop where
  runCalls_eq : (DrawdownMonitor.new start begin).runCalls told = .ok m
  times : ∃ n, (told.map DrawdownMonitor.Call.time).Sublist (calls.flatMap (·.2.upTo n))
  recordings_eq :
    told.filterMap DrawdownMonitor.Call.recording? = bookings.filterMap Booking.recording?

/-- What a session has made of some calls: its trades were booked, each at its time, and the monitor
was told of them. -/
structure Booked (start : Decimal) (begin : Instant) (calls : List (Call × Clock))
    (bookings : List Booking) (s : Session) : Prop where
  trades_eq : bookings.map Booking.trade = s.ledger.trades
  timely : ∀ b ∈ bookings, b.Timely ∧ b.call ∈ calls
  informed : ∃ told, Informs told start begin calls bookings s.risk.monitor

section Booked

variable {bookings : List Booking} {risk : RiskManager} {m : DrawdownMonitor}

/-- If the clock has not gone back, the profit of the day is the sum of what was recorded on it. -/
theorem Informs.total_eq {told : List DrawdownMonitor.Call} {begin : Clock}
    (h : Informs told start (begin 0) calls bookings m)
    (hclock : Clock.InOrder (begin :: calls.map Prod.snd)) :
    Decimal.total ((bookings.filter (·.recordedOn m.day)).map (·.trade.realizedPnl)) =
      .ok m.dailyPnl := by
  obtain ⟨n, htimes⟩ := h.times
  -- the monitor was told everything at readings that are in order
  have hreadings : (begin 0 :: told.map DrawdownMonitor.Call.time).Sublist
      ((begin :: calls.map Prod.snd).flatMap (·.upTo (n + 1))) := by
    rw [List.flatMap_cons, List.flatMap_map]
    have hbegin : [begin 0].Sublist (begin.upTo (n + 1)) :=
      List.singleton_sublist.mpr (Clock.mem_upTo.mpr ⟨0, Nat.zero_lt_succ n, rfl⟩)
    refine hbegin.append (htimes.trans ?_)
    exact List.Sublist.flatMap_right calls fun c _ => c.2.upTo_sublist (Nat.le_succ n)
  have htotal : Decimal.total (DrawdownMonitor.results (told.filter (·.time.day = m.day))) =
      .ok m.dailyPnl :=
    DrawdownMonitor.total_of_forward_clock h.runCalls_eq
      ((hclock.pairwise_upTo (n + 1)).sublist hreadings) .day
  rw [DrawdownMonitor.results_filter_day, h.recordings_eq, recordings_filter_day] at htotal
  exact htotal

/-- The day of the monitor is that on which it was told something last. -/
theorem Informs.day_eq {told : List DrawdownMonitor.Call} {c : DrawdownMonitor.Call}
    (h : Informs (told ++ [c]) start begin calls bookings m) : m.day = c.time.day := by
  obtain ⟨m₁, -, hlast⟩ := DrawdownMonitor.runCalls_concat.mp h.runCalls_eq
  exact (DrawdownMonitor.window_perform hlast .day).1

namespace Booked

/-- A call that comes to `sync` tells the monitor of its trades, and last of an equity. -/
theorem informs_carried (h : Booked start begin calls bookings s)
    (hcarried : Carried call clock k s told risk s') :
    ∃ before equity i, Informs (before ++ [.update equity (clock i)]) start begin
      (calls ++ [(call, clock)]) (bookings ++ bookingsOf call clock k told) s'.risk.monitor := by
  obtain ⟨before, hrun, ⟨n, htimes⟩, hrecorded⟩ := h.informed
  obtain ⟨i, m, equity, ⟨new, hrun', htimes', hrecorded'⟩, hupdate⟩ := hcarried.revalued
  refine ⟨before ++ new, equity, i, ?_, ⟨max n (i + 1), ?_⟩, ?_⟩
  · rw [hcarried.risk_eq]
    refine DrawdownMonitor.runCalls_concat.mpr ⟨m, ?_, hupdate⟩
    rw [DrawdownMonitor.runCalls, List.foldlM_append]
    exact Calc.bind_eq_ok.mpr ⟨s.risk.monitor, hrun, hrun'⟩
  · have hbefore :
        (calls.flatMap (·.2.upTo n)).Sublist (calls.flatMap (·.2.upTo (max n (i + 1)))) :=
      List.Sublist.flatMap_right calls fun c _ => c.2.upTo_sublist (Nat.le_max_left n (i + 1))
    have hnew := (htimes'.append (.refl [clock i])).trans
      (clock.upTo_succ i ▸ clock.upTo_sublist (Nat.le_max_right n (i + 1)))
    rw [List.flatMap_append, List.flatMap_singleton, List.append_assoc, List.map_append,
      List.map_append]
    exact (htimes.trans hbefore).append hnew
  · -- an equity is no result
    rw [List.filterMap_append, List.filterMap_append, List.filterMap_append, hrecorded, hrecorded',
      bookingsOf_recordings]
    exact List.append_nil _

/-- A call that comes to `sync` books the trades that it tells of. -/
theorem carried (h : Booked start begin calls bookings s)
    (hcarried : Carried call clock k s told risk s') :
    Booked start begin (calls ++ [(call, clock)]) (bookings ++ bookingsOf call clock k told)
      s' where
  trades_eq := by
    have hmade := congrArg (List.map Prod.snd) (bookingsOf_map_made call clock k told)
    rw [List.map_map, List.map_map] at hmade
    rw [List.map_append, h.trades_eq, hcarried.trades_eq]
    exact congrArg _ (hmade.trans (List.map_id _))
  timely := by
    intro b hb
    rcases List.mem_append.mp hb with hb | hb
    · exact (h.timely b hb).imp_right (List.mem_append_left _)
    · obtain ⟨htimely, hcall⟩ := timely_bookingsOf hcarried.dated hb
      exact ⟨htimely, hcall ▸ List.mem_append_right _ (List.mem_singleton_self _)⟩
  informed := by
    obtain ⟨before, equity, i, hinforms⟩ := h.informs_carried hcarried
    exact ⟨_, hinforms⟩

/-- A call books its trades. -/
theorem step {u : Unit} (h : Booked start begin calls bookings s) (hs : s.AtRest limits)
    (hcall : (perform call clock).run s = .ok u s') :
    ∃ new, Booked start begin (calls ++ [(call, clock)]) (bookings ++ new) s' ∧
      new.map Booking.made = booked call clock s := by
  cases perform_cases hcall with
  | synced _ acted synced =>
    obtain ⟨told, risk, hcarried⟩ := hs.carried acted synced
    rw [booked_eq hcall hcarried.trades_eq]
    exact ⟨_, h.carried hcarried, bookingsOf_map_made ..⟩
  | apart _ _ risk_eq _ remarked _ =>
    have htrades := remarked.quiet.trades_eq
    refine ⟨[], ?_, (booked_eq hcall (htrades.trans (List.append_nil _).symm)).symm⟩
    rw [List.append_nil]
    refine ⟨h.trades_eq.trans htrades.symm, ?_, ?_⟩
    · intro b hb
      exact (h.timely b hb).imp_right (List.mem_append_left _)
    · obtain ⟨told, hrun, ⟨n, htimes⟩, hrecorded⟩ := h.informed
      rw [risk_eq]
      refine ⟨told, hrun, ⟨n, htimes.trans ?_⟩, hrecorded⟩
      rw [List.flatMap_append]
      exact List.sublist_append_left _ _

/-- A run of calls books the trades of its calls. -/
theorem runCalls {u : Unit} (h : Booked start begin done bookings s) (hs : s.AtRest limits)
    (hrun : (runCalls calls).run s = .ok u s') :
    ∃ new, Booked start begin (done ++ calls) (bookings ++ new) s' ∧
      new.map Booking.made = inOrder booked calls s := by
  induction calls generalizing s done bookings with
  | nil =>
    obtain ⟨-, rfl⟩ := pure_eq_ok.mp hrun
    refine ⟨[], ?_, rfl⟩
    rw [List.append_nil, List.append_nil]
    exact h
  | cons c calls ih =>
    obtain ⟨_, s₁, hcall, hcalls⟩ := bind_eq_ok.mp hrun
    obtain ⟨first, hfirst, hmade⟩ := h.step hs hcall
    obtain ⟨rest, hrest, hmade'⟩ := ih hfirst (hs.passedOn_perform hcall).atRest hcalls
    refine ⟨first ++ rest, ?_, ?_⟩
    · rw [← List.append_assoc, List.append_cons done]
      exact hrest
    · rw [List.map_append, hmade, hmade', inOrder_cons hcall]

end Booked

theorem booked_new {settings : Settings} {hub : Hub Message} {firstId : Uuid} {begin : Clock}
    (h : new settings hub firstId begin = .ok s) :
    Booked settings.account.initialBalance (begin 0) [] [] s := by
  simp only [new, Calc.bind_eq_ok, Calc.pure_eq_ok] at h
  obtain ⟨account, -, risk, -, rfl⟩ := h
  exact ⟨rfl, List.forall_mem_nil _, [], rfl, ⟨0, List.nil_sublist _⟩, rfl⟩

/-- After a run of a new session and a call that comes to `sync`, what the monitor was told last is
the equity in this `sync`. -/
theorem booked_run {settings : Settings} {hub : Hub Message} {firstId : Uuid} {begin : Clock}
    {s₀ : Session} (hnew : new settings hub firstId begin = .ok s₀)
    (hrun : (runCalls calls).run s₀ = .ok () s) (hcall : (perform call clock).run s = .ok () s')
    (hsync : call.endsInSync s.status) :
    ∃ bookings told equity i,
      Booked settings.account.initialBalance (begin 0) (calls ++ [(call, clock)]) bookings s' ∧
      bookings.map Booking.made = inOrder booked (calls ++ [(call, clock)]) s₀ ∧
      Informs (told ++ [.update equity (clock i)]) settings.account.initialBalance (begin 0)
        (calls ++ [(call, clock)]) bookings s'.risk.monitor := by
  obtain ⟨hs₀, -, -⟩ := atRest_new hnew
  obtain ⟨bookings, hbooked, hmade⟩ := (booked_new hnew).runCalls hs₀ hrun
  rw [List.nil_append, List.nil_append] at hbooked
  cases perform_cases hcall with
  | synced _ acted synced =>
    obtain ⟨told, risk, hcarried⟩ := (hs₀.passedOn_runCalls hrun).atRest.carried acted synced
    obtain ⟨before, equity, i, hinforms⟩ := hbooked.informs_carried hcarried
    refine ⟨_, before, equity, i, hbooked.carried hcarried, ?_, hinforms⟩
    rw [List.map_append, hmade, bookingsOf_map_made, inOrder_concat hrun,
      booked_eq hcall hcarried.trades_eq]
  | apart hapart => exact nomatch hsync.symm.trans hapart

/-! ## The days of calls and of trades -/

/-- The sum of what was recorded on a day is that of all trades of the day, by any rule for the day
of a trade that agrees with the time at which it was recorded. -/
theorem total_of_recorded {q : Booking → Bool} {c : Decimal} (htimely : ∀ b ∈ bookings, b.Timely)
    (hday : ∀ b ∈ bookings, ∀ t ∈ b.recordedAt?, (q b ↔ t.day = day))
    (h : Decimal.total ((bookings.filter (·.recordedOn day)).map (·.trade.realizedPnl)) = .ok c) :
    ∃ sum, Decimal.total ((bookings.filter q).map (·.trade.realizedPnl)) = .ok sum ∧
      c.SameValue sum := by
  have hsub : ∀ b ∈ bookings, b.recordedOn day → q b := by
    intro b hb hrecorded
    obtain ⟨t, ht, htday⟩ := (Option.any_eq_true _ _).mp hrecorded
    exact (hday b hb t ht).mpr (of_decide_eq_true htday)
  have hzero : ∀ b ∈ bookings, q b → ¬ b.recordedOn day → b.trade.realizedPnl = 0 := by
    intro b hb hq hrecorded
    apply (htimely b hb).realizedPnl_eq
    apply Option.eq_none_iff_forall_not_mem.mpr
    intro t ht
    have htday := (hday b hb t ht).mp hq
    exact hrecorded ((Option.any_eq_true _ _).mpr ⟨t, ht, decide_eq_true htday⟩)
  obtain ⟨sum, hsum, halike⟩ := Decimal.foldlM_filter_of_zeros hsub hzero (.refl 0) h
  exact ⟨sum, hsum, halike.sameValue⟩

/-- Where no call passes midnight, what was recorded on a day is what the calls of the day have
realized, and what was executed on it if no event has the time of another day. -/
theorem Booked.total_within_days {c : Decimal} (h : Booked start begin calls bookings s)
    (hwithin : ∀ c ∈ calls, c.2.WithinDay)
    (htotal : Decimal.total ((bookings.filter (·.recordedOn day)).map (·.trade.realizedPnl)) =
      .ok c) :
    (∃ sum, Decimal.total ((bookings.filter fun b => (b.call.2 0).day = day).map
        (·.trade.realizedPnl)) = .ok sum ∧ c.SameValue sum) ∧
    ((∀ c ∈ calls, ∀ t ∈ c.1.eventTime?, t.day = (c.2 0).day) →
      ∃ sum, Decimal.total ((bookings.filter (·.trade.executedAt.day = day)).map
        (·.trade.realizedPnl)) = .ok sum ∧ c.SameValue sum) := by
  have htimely : ∀ b ∈ bookings, b.Timely := fun b hb => (h.timely b hb).1
  have hrecorded : ∀ b ∈ bookings, ∀ t ∈ b.recordedAt?, t.day = (b.call.2 0).day := fun b hb =>
    (htimely b hb).recorded_day_eq (hwithin _ (h.timely b hb).2)
  constructor
  · refine total_of_recorded htimely ?_ htotal
    intro b hb t ht
    rw [hrecorded b hb t ht]
    exact decide_eq_true_iff
  · intro hevents
    refine total_of_recorded htimely ?_ htotal
    intro b hb t ht
    obtain ⟨hbooking, hcall⟩ := h.timely b hb
    rw [hrecorded b hb t ht, ← hbooking.executed_day_eq (hwithin _ hcall) (hevents _ hcall)]
    exact decide_eq_true_iff

end Booked

/-- After a call of a run that ends in `sync`, where the clock has not gone back:

* the trades of the account are those that the calls of the run have made, in order;
* each was executed at a reading of its call's clock, or at the time of the event that the call has
  brought; the risk manager has recorded it at a later reading, unless it has realized nothing, and
  has recorded nothing else;
* the profit of the day is the sum, in order, of what the trades have realized that were recorded on
  the date which the clock showed when the manager was told the equity in this `sync`;
* if no call has passed midnight, this is the sum over the trades of the calls of that day, and the
  sum over the trades executed on that day if moreover every event of the run has a time on the day
  on which it was brought. -/
theorem dailyPnl_booked (settings : Settings) (hub : Hub Message) (firstId : Uuid)
    (begin : Clock) (calls : List (Call × Clock)) (call : Call) (clock : Clock)
    {s₀ : Session} (hnew : new settings hub firstId begin = .ok s₀)
    (hclock : Clock.InOrder (begin :: (calls ++ [(call, clock)]).map Prod.snd))
    (hrun : (Session.runCalls calls).run s₀ = .ok () s)
    (hcall : (perform call clock).run s = .ok () s') (hsync : call.endsInSync s.status) :
    let made := inOrder booked (calls ++ [(call, clock)]) s₀
    made.map Prod.snd = s'.ledger.tradeList none ∧
    (∃ bookings told equity i,
      bookings.map Booking.made = made ∧ (∀ b ∈ bookings, b.Timely) ∧
      Informs (told ++ [.update equity (clock i)]) settings.account.initialBalance (begin 0)
        (calls ++ [(call, clock)]) bookings s'.risk.monitor ∧
      Decimal.total ((bookings.filter (·.recordedOn (clock i).day)).map (·.trade.realizedPnl)) =
        .ok s'.risk.monitor.dailyPnl) ∧
    ((∀ c ∈ calls ++ [(call, clock)], c.2.WithinDay) →
      (∃ sum, Decimal.total ((made.filter fun b => (b.1.2 0).day = (clock 0).day).map
          (·.2.realizedPnl)) = .ok sum ∧
        s'.risk.monitor.dailyPnl.SameValue sum) ∧
      ((∀ c ∈ calls ++ [(call, clock)], ∀ t ∈ c.1.eventTime?, t.day = (c.2 0).day) →
        ∃ sum, Decimal.total (((s'.ledger.tradeList none).filter
            (·.executedAt.day = (clock 0).day)).map Trade.realizedPnl) = .ok sum ∧
          s'.risk.monitor.dailyPnl.SameValue sum)) := by
  intro made
  obtain ⟨bookings, told, equity, i, hbooked, hmade, hinforms⟩ :=
    booked_run hnew hrun hcall hsync
  have hmade : bookings.map Booking.made = made := hmade
  have htrades : bookings.map Booking.trade = s'.ledger.tradeList none := hbooked.trades_eq
  have htotal := hinforms.total_eq hclock
  rw [hinforms.day_eq] at htotal
  refine ⟨?_, ?_, ?_⟩
  · rw [← htrades, ← hmade, List.map_map]
    rfl
  · exact ⟨bookings, told, equity, i, hmade, fun b hb => (hbooked.timely b hb).1, hinforms, htotal⟩
  · intro hwithin
    have hday : (clock i).day = (clock 0).day :=
      hwithin _ (List.mem_append_right _ (List.mem_singleton_self _)) i
    rw [← hmade, ← htrades, List.filter_map, List.filter_map, List.map_map, List.map_map, ← hday]
    exact hbooked.total_within_days hwithin htotal

/-- The second day. -/
def secondDay : Instant := ⟨86400, 0, by decide⟩

/-- Half of a position is closed at a profit on one day, and its price changes on the next. -/
def twoDays : List (Call × Clock) :=
  [(.price ⟨"A", .lit 100 0, default⟩, default),
    (.place (.market "A" .buy (.lit 2 0)), default),
    (.price ⟨"A", .lit 110 0, default⟩, default),
    (.place (.market "A" .sell (.lit 1 0)), default),
    (.price ⟨"A", .lit 130 0, secondDay⟩, .still secondDay)]

/-- The rest of the position is closed on the next day, whose profit is that of the rest alone. -/
theorem dailyPnl_booked_twoDays : ∃ s₀ s s',
    new freeSettings (.new 1) default default = .ok s₀ ∧
    Clock.InOrder (default :: (twoDays ++ [(Call.close 1, Clock.still secondDay)]).map Prod.snd) ∧
    (runCalls twoDays).run s₀ = .ok () s ∧
    (perform (.close 1) (.still secondDay)).run s = .ok () s' ∧
    (s'.ledger.tradeList none).map Trade.realizedPnl = [0, .lit 10 0, .lit 30 0] ∧
    s'.risk.monitor.dailyPnl = .lit 30 0 ∧
    ∃ sum, Decimal.total (((s'.ledger.tradeList none).filter
        (·.executedAt.day = secondDay.day)).map Trade.realizedPnl) = .ok sum ∧
      s'.risk.monitor.dailyPnl.SameValue sum := by
  have hclosed : ((new freeSettings (.new 1) default default).toOption.bind fun s₀ =>
      (ended? (runCalls twoDays) s₀).bind fun s =>
        (ended? (perform (.close 1) (.still secondDay)) s).map fun s' =>
          ((s'.ledger.tradeList none).map Trade.realizedPnl, s'.risk.monitor.dailyPnl)) =
      some ([0, .lit 10 0, .lit 30 0], .lit 30 0) := by decide +kernel
  obtain ⟨s₀, hnew, h⟩ := Calc.exists_eq_ok hclosed
  obtain ⟨s, hrun, h⟩ := Option.bind_eq_some_iff.mp h
  obtain ⟨s', hcall, h⟩ := Option.map_eq_some_iff.mp h
  obtain ⟨htrades, hdaily⟩ := Prod.mk.inj h
  obtain ⟨⟨⟩, hrun⟩ := ended?_eq_some.mp hrun
  obtain ⟨⟨⟩, hcall⟩ := ended?_eq_some.mp hcall
  have htimes : [default, default, default, default, default, secondDay, secondDay].Pairwise
      (· ≤ ·) := by decide
  have hclock : Clock.InOrder (default :: (twoDays ++ [(Call.close 1, Clock.still secondDay)]).map
      Prod.snd) := Clock.inOrder_still htimes
  obtain ⟨-, -, hdays⟩ := dailyPnl_booked freeSettings (.new 1) default default twoDays
    (.close 1) (.still secondDay) hnew hclock hrun hcall rfl
  -- no clock of the run passes midnight, and the price of the next day came on that day
  have hwithin : ∀ c ∈ twoDays ++ [(Call.close 1, Clock.still secondDay)], c.2.WithinDay := by
    simp only [twoDays, List.cons_append, List.nil_append, List.forall_mem_cons]
    exact ⟨Clock.withinDay_still _, Clock.withinDay_still _, Clock.withinDay_still _,
      Clock.withinDay_still _, Clock.withinDay_still _, Clock.withinDay_still _,
      List.forall_mem_nil _⟩
  have hevents : ∀ c ∈ twoDays ++ [(Call.close 1, Clock.still secondDay)],
      ∀ t ∈ c.1.eventTime?, t.day = (c.2 0).day := by decide
  obtain ⟨-, hexecuted⟩ := hdays hwithin
  exact ⟨s₀, s, s', hnew, hclock, hrun, hcall, htrades, hdaily, hexecuted hevents⟩

/-- A clock that passes midnight after its first reading. -/
def midnight : Clock := ⟨fun i => if i = 0 then default else secondDay⟩

/-- A position is closed at midnight: its trades were executed on the first day, and the loss is one
of the second. -/
example : ((new freeSettings (.new 1) default default).toOption.bind fun s₀ =>
    (ended? (runCalls losingCalls) s₀).bind fun s =>
      (ended? (perform (.close 1) midnight) s).map fun s' =>
        ((s'.ledger.tradeList none).map (·.executedAt.day), s'.risk.monitor.day,
          s'.risk.monitor.dailyPnl)) =
    some ([0, 0], 1, -.lit 10000 0) := by decide +kernel

/-- A position is opened that is closed at a price below 90. -/
def stoppedOut : List (Call × Clock) :=
  [(.price ⟨"A", .lit 100 0, default⟩, default),
    (.place { OrderRequest.market "A" .buy (.lit 1 0) with stopLoss := some (.lit 90 0) }, default)]

/-- A price with a time on the next day closes the position, while the clock shows the first day.
The loss is one of the day, and none was executed on it. -/
theorem dailyPnl_ne_executed : ∃ s₀ s s',
    new freeSettings (.new 1) default default = .ok s₀ ∧
    (runCalls stoppedOut).run s₀ = .ok () s ∧
    (perform (.price ⟨"A", .lit 80 0, secondDay⟩) default).run s = .ok () s' ∧
    (Call.price ⟨"A", .lit 80 0, secondDay⟩).endsInSync s.status ∧
    Clock.InOrder (default ::
      (stoppedOut ++ [(Call.price ⟨"A", .lit 80 0, secondDay⟩, default)]).map Prod.snd) ∧
    ∃ sum, Decimal.total (((s'.ledger.tradeList none).filter
        (·.executedAt.day = (default : Instant).day)).map Trade.realizedPnl) = .ok sum ∧
      ¬ s'.risk.monitor.dailyPnl.SameValue sum := by
  have hclosed : ((new freeSettings (.new 1) default default).toOption.bind fun s₀ =>
      (ended? (runCalls stoppedOut) s₀).bind fun s =>
        (ended? (perform (.price ⟨"A", .lit 80 0, secondDay⟩) default) s).bind fun s' =>
          (Decimal.total (((s'.ledger.tradeList none).filter
            (·.executedAt.day = (default : Instant).day)).map Trade.realizedPnl)).toOption.bind
              fun sum => some (decide (s'.risk.monitor.dailyPnl.SameValue sum))) =
      some false := by decide +kernel
  obtain ⟨s₀, hnew, h⟩ := Calc.exists_eq_ok hclosed
  obtain ⟨s, hrun, h⟩ := Option.bind_eq_some_iff.mp h
  obtain ⟨s', hcall, h⟩ := Option.bind_eq_some_iff.mp h
  obtain ⟨sum, hsum, hne⟩ := Calc.exists_eq_ok h
  obtain ⟨⟨⟩, hrun⟩ := ended?_eq_some.mp hrun
  obtain ⟨⟨⟩, hcall⟩ := ended?_eq_some.mp hcall
  have htimes : [default, default, default, (default : Instant)].Pairwise (· ≤ ·) := by decide
  exact ⟨s₀, s, s', hnew, hrun, hcall, rfl, Clock.inOrder_still htimes, sum, hsum,
    of_decide_eq_false (Option.some.inj hne)⟩

end Session

end SimBroker
