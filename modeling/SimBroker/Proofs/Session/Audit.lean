import SimBroker.Proofs.Session.Orders
import SimBroker.Proofs.Session.Signals

/-!
# The logs of signals and of errors

Every signal leaves one entry in the audit log, with what the answer to it says has become of it.
The errors of operations go to the other log: those of market data and of signals all, those of
orders by hand if they are fatal, and those that come from outside.  Both logs keep the last entries
only, so a log is what the calls of the whole run have reported, cut to its bound.

## Main definitions

* `audited`, `reported`: what a call adds to the two logs
* `inOrder`: what the calls of a run tell, in order
* `Call.dashboard`: what a call tells the dashboard
* `Noted`: what a call has published, and added to the logs
* `Kept`: what a run of calls leaves in the logs and on the dashboard

## Main results

* `noted_perform`: every call
* `kept_runCalls`, `kept_new`: every run of calls
* `signals_audited`: a signal after any run
-/

namespace SimBroker

namespace Session

open Session.Action

variable {α β : Type} {s s' s₁ : Session} {call : Call} {clock : Clock}
  {calls : List (Call × Clock)} {f : Call → Clock → Session → List β}

/-! ## What a call adds to the logs -/

/-- What an action tells by its answer, if it ends. -/
def told (x : Action α) (f : α → List β) (s : Session) : List β := ((answer? x s).map f).getD []

theorem told_eq {x : Action α} {a : α} (h : x.run s = .ok a s') (f : α → List β) :
    told x f s = f a := by
  rw [told, answer?_eq_some.mpr ⟨s', h⟩]
  rfl

/-- What a call adds to the audit log: a signal, with what has become of it. -/
def audited (call : Call) (clock : Clock) (s : Session) : List SignalRecord :=
  match call with
  | .signal signal => told (onSignal signal clock) (fun answer => [.ofAnswer signal answer clock]) s
  | _ => []

/-- The errors that a call reports, under its name or that of their source, each with the reading
of the clock at which it is reported. -/
def reported (call : Call) (clock : Clock) (s : Session) : List ErrorRecord :=
  match call with
  | .signal signal => told (onSignal signal clock) (fun answer =>
      match SignalOutcome.ofAnswer answer with
      | .failed message => [⟨"signal", message, clock 4⟩]
      | _ => []) s
  | .price tick => told (updatePrice tick clock) (errorsOf "price" (clock 1)) s
  | .finishPrice tick marked => told (finishPrice tick marked clock) (errorsOf "price" (clock 1)) s
  | .candle c => told (onCandle c clock) (errorsOf "candle" (clock 1)) s
  | .finishCandle c marked => told (finishCandle c marked clock) (errorsOf "candle" (clock 1)) s
  | .place request => told (placeOrder request clock) (fatalErrorsOf "place_order" (clock 2)) s
  | .cancel id => told (cancelOrder id clock) (fatalErrorsOf "cancel_order" (clock 2)) s
  | .close id => told (closePosition id clock) (fatalErrorsOf "close_position" (clock 2)) s
  | .setExit id kind price =>
    told (setExit id kind price clock) (fatalErrorsOf s!"update_{kind.name}" (clock 2)) s
  | .reportError source message => [⟨source, message, clock 0⟩]
  | _ => []

/-- What the calls of a run tell, in order. -/
def inOrder (f : Call → Clock → Session → List β) : List (Call × Clock) → Session → List β
  | [], _ => []
  | (call, clock) :: calls, s =>
    f call clock s ++ ((ended? (perform call clock) s).map (inOrder f calls)).getD []

theorem inOrder_cons {c : Call × Clock} (h : (perform c.1 c.2).run s = .ok () s₁) :
    inOrder f (c :: calls) s = f c.1 c.2 s ++ inOrder f calls s₁ := by
  rw [inOrder, ended?_eq_some.mpr ⟨(), h⟩]
  rfl

/-! ## The dashboard -/

namespace Call

/-- The strategies that a call names. -/
def strategies? : Call → Option (List String)
  | .strategies names => some names
  | _ => none

/-- The market regime that a call names, or takes back. -/
def regime? : Call → Option (Option String)
  | .regime label => some label
  | _ => none

/-- What a call tells the dashboard. -/
def dashboard (call : Call) (s : Session) : Session :=
  { s with
    strategies := call.strategies?.getD s.strategies
    regime := call.regime?.getD s.regime }

end Call

/-! ## The calls -/

theorem announced_onSignal {signal : Signal} {answer : Outcome SignalOutcome}
    (hrunning : s.status = .running) (h : (onSignal signal clock).run s = .ok answer s') :
    s.Announced clock (audited (.signal signal) clock s) (reported (.signal signal) clock s)
      s' := by
  obtain ⟨judged, s₁, hevaluate, rfl, -, hannounced⟩ := onSignal_of_running hrunning h
  have hreported : reported (.signal signal) clock s = errorsOf "signal" (clock 4) judged := by
    rw [reported, told_eq h, ofAnswer_answerTo]
    -- what is judged is no failure unless it is an error
    have hjudged := judged_evaluateAndPlace hrunning hevaluate
    generalize s₁.ledger = l at hjudged
    cases hjudged <;> rfl
  rw [audited, told_eq h, SignalRecord.ofAnswer, ofAnswer_answerTo, hreported]
  exact hannounced.after (sent_evaluateAndPlace hrunning hevaluate)

/-! ## All calls -/

/-- What a call has done: it has ended in `sync` with the entries of the two logs, or it has
published a signal at most. -/
inductive Noted (call : Call) (clock : Clock) (s s' : Session) : Prop
  | announced (endsInSync : call.endsInSync s.status)
      (announced : (call.dashboard s).Announced clock (audited call clock s)
        (reported call clock s) s')
  | apart (endsInSync : call.endsInSync s.status = false)
      (sent : ∃ ms, (call.dashboard s).Sent ms s' ∧
        ms.filterMap Message.signal? = audited call clock s ∧
        ms.filterMap Message.error? = reported call clock s)

theorem Noted.sent (h : Noted call clock s s') :
    ∃ ms, (call.dashboard s).Sent ms s' ∧ ms.filterMap Message.signal? = audited call clock s ∧
      ms.filterMap Message.error? = reported call clock s := by
  cases h with
  | announced _ announced =>
    obtain ⟨⟨ms, _, hsent, hsignals, herrors⟩, -⟩ := announced
    refine ⟨_, hsent, ?_, ?_⟩
    · rw [List.filterMap_append, hsignals]
      exact List.append_nil _
    · rw [List.filterMap_append, herrors]
      exact List.append_nil _
  | apart _ sent => exact sent

theorem Sent.noted {ms : List Message} (h : s.Sent ms s')
    (hsync : call.endsInSync s.status = false) (hdashboard : call.dashboard s = s)
    (hsignals : ms.filterMap Message.signal? = audited call clock s)
    (herrors : ms.filterMap Message.error? = reported call clock s) : Noted call clock s s' := by
  refine .apart hsync ⟨ms, ?_, hsignals, herrors⟩
  rw [hdashboard]
  exact h

theorem noted_transition {action : String} {sources : List TradingStatus}
    {target : TradingStatus} {outcome : Outcome TradingStatus}
    (hsync : call.endsInSync s.status = sources.contains s.status)
    (hdashboard : call.dashboard s = s) (haudited : audited call clock s = [])
    (hreported : reported call clock s = [])
    (h : (transition action sources target clock).run s = .ok outcome s') :
    Noted call clock s s' := by
  rcases transition_run h with ⟨hsource, -, hsyncs⟩ | ⟨hsource, rfl, -⟩
  · refine .announced (hsync.trans hsource) ?_
    rw [hdashboard, haudited, hreported]
    exact (announced_sync hsyncs).after { Sent.refl s with }
  · exact (Sent.refl _).noted (hsync.trans hsource) hdashboard haudited.symm hreported.symm

theorem noted_perform {u : Unit} (h : (perform call clock).run s = .ok u s') :
    Noted call clock s s' := by
  cases call with
  | start | pause | resume | stop =>
    obtain ⟨_, h⟩ := discard_eq_ok.mp h
    refine noted_transition ?_ rfl rfl rfl h
    cases s.status <;> rfl
  | resetCircuitBreaker =>
    obtain ⟨_, h⟩ := discard_eq_ok.mp h
    exact .announced rfl (announced_resetCircuitBreaker h)
  | signal signal =>
    obtain ⟨answer, h⟩ := discard_eq_ok.mp h
    by_cases hrunning : s.status = .running
    · exact .announced (decide_eq_true hrunning) (announced_onSignal hrunning h)
    · -- a signal that is ignored is recorded all the same
      obtain ⟨rfl, hsent, -⟩ := onSignal_of_not_running hrunning h
      refine hsent.noted (decide_eq_false hrunning) rfl ?_ ?_
      · rw [audited, told_eq h]
        rfl
      · rw [reported, told_eq h]
        rfl
  | price tick =>
    obtain ⟨outcome, h⟩ := discard_eq_ok.mp h
    refine .announced rfl ?_
    rw [reported, told_eq h]
    obtain ⟨marked, s₁, hmark, h⟩ := bind_eq_ok.mp h
    exact (announced_finishPrice h).after (sent_onLedger hmark)
  | candle c =>
    obtain ⟨outcome, h⟩ := discard_eq_ok.mp h
    refine .announced rfl ?_
    rw [reported, told_eq h]
    obtain ⟨marked, s₁, hmark, h⟩ := bind_eq_ok.mp h
    exact (announced_finishCandle h).after (sent_onLedger hmark)
  | mark tick =>
    obtain ⟨_, h⟩ := discard_eq_ok.mp h
    exact (sent_onLedger h).noted rfl rfl rfl rfl
  | finishPrice tick marked =>
    obtain ⟨outcome, h⟩ := discard_eq_ok.mp h
    refine .announced rfl ?_
    rw [reported, told_eq h]
    exact announced_finishPrice h
  | finishCandle c marked =>
    obtain ⟨outcome, h⟩ := discard_eq_ok.mp h
    refine .announced rfl ?_
    rw [reported, told_eq h]
    exact announced_finishCandle h
  | indicators v => exact (sent_publish ⟨rfl, rfl⟩ h).noted rfl rfl rfl rfl
  | place request =>
    obtain ⟨outcome, h⟩ := discard_eq_ok.mp h
    rcases placeOrder_run h with ⟨hhalted, rfl, rfl⟩ | ⟨hhalted, hmanual⟩
    · -- the refusal during a halt is no fatal error, and nothing is published
      refine (Sent.refl _).noted (decide_eq_false (not_not.mpr hhalted)) rfl rfl ?_
      rw [reported, told_eq h]
      rfl
    · refine .announced (decide_eq_true hhalted) ?_
      rw [reported, told_eq h]
      exact announced_manual hmanual
  | cancel | close | setExit =>
    obtain ⟨outcome, h⟩ := discard_eq_ok.mp h
    refine .announced rfl ?_
    rw [reported, told_eq h]
    exact announced_manual h
  | strategies | regime =>
    obtain ⟨_, s₁, hmodify, h⟩ := bind_eq_ok.mp h
    obtain rfl := modify_eq_ok.mp hmodify
    exact .announced rfl (announced_sync h)
  | reportError source message =>
    obtain ⟨_, s₁, hpush, h⟩ := bind_eq_ok.mp h
    exact .announced rfl ((sent_pushError hpush).announced (announced_sync h).of_after)

/-! ## Runs -/

/-- What a run of calls leaves in the logs and on the dashboard. -/
structure Kept (calls : List (Call × Clock)) (s s' : Session) : Prop where
  settings_eq : s'.settings = s.settings
  signals : Keeps (max s.settings.signalHistory 1) s.signals (inOrder audited calls s) s'.signals
  errors : Keeps (max s.settings.maxErrors 1) s.errors (inOrder reported calls s) s'.errors
  strategies_eq : s'.strategies = (calls.filterMap (·.1.strategies?)).getLastD s.strategies
  regime_eq : s'.regime = (calls.filterMap (·.1.regime?)).getLastD s.regime

theorem getLastD_filterMap_cons (g : α → Option β) (x : α) (xs : List α) (b : β) :
    ((x :: xs).filterMap g).getLastD b = (xs.filterMap g).getLastD ((g x).getD b) := by
  cases hx : g x with
  | none => rw [List.filterMap_cons_none hx, Option.getD_none]
  | some c => rw [List.filterMap_cons_some hx, List.getLastD_cons, Option.getD_some]

/-- One call after another: each adds its own entries. -/
theorem kept_runCalls {u : Unit} (h : (runCalls calls).run s = .ok u s') : Kept calls s s' := by
  induction calls generalizing s with
  | nil =>
    obtain ⟨-, rfl⟩ := pure_eq_ok.mp h
    exact ⟨rfl, .refl _ _, .refl _ _, rfl, rfl⟩
  | cons c calls ih =>
    obtain ⟨_, s₁, hcall, hcalls⟩ := bind_eq_ok.mp h
    obtain ⟨ms, hsent, hsignals, herrors⟩ := (noted_perform hcall).sent
    have hkept := ih hcalls
    -- the other calls find the same bounds of the logs
    have hsettings : s₁.settings = s.settings := hsent.settings_eq
    constructor
    · exact hkept.settings_eq.trans hsettings
    · rw [inOrder_cons hcall, ← hsignals]
      exact hsent.signals.trans (hsettings ▸ hkept.signals)
    · rw [inOrder_cons hcall, ← herrors]
      exact hsent.errors.trans (hsettings ▸ hkept.errors)
    · rw [hkept.strategies_eq, getLastD_filterMap_cons, hsent.strategies_eq]
      rfl
    · rw [hkept.regime_eq, getLastD_filterMap_cons, hsent.regime_eq]
      rfl

theorem inOrder_concat {c : Call × Clock} {u : Unit} (h : (runCalls calls).run s = .ok u s') :
    inOrder f (calls ++ [c]) s = inOrder f calls s ++ f c.1 c.2 s' := by
  induction calls generalizing s with
  | nil =>
    obtain ⟨-, rfl⟩ := pure_eq_ok.mp h
    rw [List.nil_append, inOrder, inOrder, List.nil_append]
    -- nothing comes after the call, whether it ends or not
    cases ended? (perform c.1 c.2) s <;> exact List.append_nil _
  | cons c' calls ih =>
    obtain ⟨_, s₁, hcall, hcalls⟩ := bind_eq_ok.mp h
    rw [List.cons_append, inOrder_cons hcall, inOrder_cons hcall, ih hcalls, List.append_assoc]

theorem runCalls_concat {c : Call × Clock} {u : Unit} (h : (runCalls calls).run s = .ok u s₁)
    (hcall : (perform c.1 c.2).run s₁ = .ok u s') : (runCalls (calls ++ [c])).run s = .ok u s' := by
  rw [runCalls, List.forM_eq_forM, List.forM_append]
  refine bind_eq_ok.mpr ⟨u, s₁, h, ?_⟩
  rw [List.forM_cons]
  exact bind_eq_ok.mpr ⟨u, s', hcall, rfl⟩

/-- The logs and the dashboard after a run of a new session. -/
theorem kept_new {settings : Settings} {hub : Hub Message} {firstId : Uuid} {begin : Clock}
    {s₀ : Session} {u : Unit} (hnew : new settings hub firstId begin = .ok s₀)
    (hrun : (runCalls calls).run s₀ = .ok u s) :
    s.signals = lastOf (max settings.session.signalHistory 1) (inOrder audited calls s₀) ∧
    s.errors = lastOf (max settings.session.maxErrors 1) (inOrder reported calls s₀) ∧
    s.strategies = (calls.filterMap (·.1.strategies?)).getLastD [] ∧
    s.regime = (calls.filterMap (·.1.regime?)).getLastD none := by
  obtain ⟨-, hsignals, herrors, hstrategies, hregime⟩ := kept_runCalls hrun
  simp only [new, Calc.bind_eq_ok, Calc.pure_eq_ok] at hnew
  obtain ⟨account, -, risk, -, rfl⟩ := hnew
  exact ⟨hsignals [] List.drop_nil.symm, herrors [] List.drop_nil.symm, hstrategies, hregime⟩

/-! ## Signals -/

/-- After every run, a signal that is answered leaves one more entry in the audit log, which keeps
the last entries of the signals of the run, and publishes it once, to whatever hub.  The entry has
what the answer says, and that the signal has failed if the answer is an error, which is a fatal
one.  A signal is executed if and only if it has added an order to the ledger, and then it has added
this one.  A session that does not run leaves the ledger and the risk manager as they are. -/
theorem signals_audited (settings : Settings) (hub : Hub Message) (firstId : Uuid)
    (begin : Clock) (calls : List (Call × Clock)) (signal : Signal)
    (answer : Outcome SignalOutcome) {s₀ : Session}
    (hnew : new settings hub firstId begin = .ok s₀) (hrun : (runCalls calls).run s₀ = .ok () s)
    (hsignal : (onSignal signal clock).run s = .ok answer s') :
    s.signals = lastOf (max settings.session.signalHistory 1) (inOrder audited calls s₀) ∧
    s'.signals = lastOf (max settings.session.signalHistory 1)
      (inOrder audited calls s₀ ++ [.ofAnswer signal answer clock]) ∧
    (∃ ms : List Message,
      (∀ hub', (onSignal signal clock).run { s with hub := hub' } =
        .ok answer { s' with hub := hub'.run (ms.map .publish) }) ∧
      ms.filterMap Message.signal? = [.ofAnswer signal answer clock]) ∧
    (∀ outcome, answer = .ok outcome →
      ((∃ id size, outcome = .executed id size) ↔ s'.ledger.orders ≠ s.ledger.orders) ∧
      ∀ id size, outcome = .executed id size →
        ∃ order, s'.ledger.orders = s.ledger.orders ++ [order] ∧ order.Executes signal id size) ∧
    (∀ e, answer = .error e → e.isFatal) ∧
    (s.status ≠ .running → s'.ledger = s.ledger ∧ s'.risk = s.risk) := by
  have hcall : (perform (.signal signal) clock).run s = .ok () s' :=
    discard_eq_ok.mpr ⟨answer, hsignal⟩
  have haudited := told_eq hsignal fun answer => [SignalRecord.ofAnswer signal answer clock]
  refine ⟨(kept_new hnew hrun).1, ?_, ?_, ?_, ?_, ?_⟩
  · have hkept := (kept_new hnew (runCalls_concat (c := (.signal signal, clock)) hrun hcall)).1
    rw [inOrder_concat hrun] at hkept
    exact hkept.trans (congrArg (fun new => lastOf _ (inOrder audited calls s₀ ++ new)) haudited)
  · have hlog := (atRest_run hnew hrun).length_le
    refine (alike_onSignal signal clock).exists_messages hlog hsignal ?_
    intro hub hub' h
    have hcall : (perform (.signal signal) clock).run { s with hub } =
        .ok () { s' with hub := hub' } := discard_eq_ok.mpr ⟨answer, h⟩
    obtain ⟨ms, hsent, hsignals, -⟩ := (noted_perform hcall).sent
    exact ⟨ms, hsent.hub_eq, hsignals.trans (told_eq h _)⟩
  · rintro outcome rfl
    exact order_of_onSignal hsignal
  · rintro e rfl
    exact isFatal_of_onSignal hsignal
  · intro hstatus
    obtain ⟨-, -, hlogged⟩ := onSignal_of_not_running hstatus hsignal
    exact ⟨hlogged.ledger_eq, hlogged.risk_eq⟩

/-- A signal at the price that it asks for is executed: it adds one order and is recorded and
published as executed. -/
theorem signals_audited_executed : ∃ s₀ s s' order, ∃ ms : List Message,
    new freeSettings (.new 1) default default = .ok s₀ ∧
    (runCalls [(.price ⟨"A", .lit 80 0, default⟩, default)]).run s₀ = .ok () s ∧
    (onSignal buySignal default).run s = .ok (.ok (.executed default (.lit 200000 3))) s' ∧
    s'.signals = [⟨buySignal, .executed default (.lit 200000 3), default⟩] ∧
    (∀ hub, (onSignal buySignal default).run { s with hub } =
      .ok (.ok (.executed default (.lit 200000 3))) { s' with hub := hub.run (ms.map .publish) }) ∧
    ms.filterMap Message.signal? = [⟨buySignal, .executed default (.lit 200000 3), default⟩] ∧
    s'.ledger.orders = s.ledger.orders ++ [order] ∧
    order.Executes buySignal default (.lit 200000 3) := by
  have hexecuted : ((new freeSettings (.new 1) default default).toOption.bind fun s₀ =>
      (ended? (runCalls [(.price ⟨"A", .lit 80 0, default⟩, default)]) s₀).bind fun s =>
        (answer? (onSignal buySignal default) s).map fun answer =>
          (inOrder audited [(.price ⟨"A", .lit 80 0, default⟩, default)] s₀, answer)) =
      some ([], .ok (.executed default (.lit 200000 3))) := by decide +kernel
  obtain ⟨s₀, hnew, h⟩ := Calc.exists_eq_ok hexecuted
  obtain ⟨s, hended, h⟩ := Option.bind_eq_some_iff.mp h
  obtain ⟨answer, hsignal, h⟩ := Option.map_eq_some_iff.mp h
  obtain ⟨hbefore, rfl⟩ := Prod.mk.inj h
  obtain ⟨⟨⟩, hrun⟩ := ended?_eq_some.mp hended
  obtain ⟨s', hsignal⟩ := answer?_eq_some.mp hsignal
  obtain ⟨-, hlog, ⟨ms, hms, hsent⟩, hordered, -⟩ :=
    signals_audited freeSettings (.new 1) default default _ buySignal _ hnew hrun hsignal
  rw [hbefore] at hlog
  obtain ⟨order, horders, horder⟩ := (hordered _ rfl).2 _ _ rfl
  exact ⟨s₀, s, s', order, ms, hnew, hrun, hsignal, hlog, hms, hsent, horders, horder⟩

end Session

end SimBroker
