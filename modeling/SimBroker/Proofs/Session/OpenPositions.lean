import SimBroker.Proofs.Ledger.Isolation
import SimBroker.Proofs.Session.Entries
import SimBroker.Proofs.Session.Snapshot

/-!
# The number of open positions

The evaluation of a signal reads the number of open positions in a summary, adds one if the symbol
has none, and refuses the signal if that is over the limit.  Whatever the order then does to its
symbol, no other symbol gets a position, so the number that was foreseen is an upper bound.  It
stays one if ticks, closes and exits come between the evaluation and the order, because these open
no position.

## Main definitions

* `Ledger.OpensNone`: no symbol has a position that had none before
* `Counted`: a session within the limit on open positions

## Main results

* `Approves.size_le`: the positions after the order of an approved signal
* `open_positions_within_limit`: the positions after a signal that was executed, and after a run
  without orders by hand
-/

namespace SimBroker

open Calc (bind_eq_ok pure_eq_ok)

namespace Ledger

variable {l l' l₁ l₂ : Ledger} {ts : List Turn}

/-- A summary counts the open positions. -/
theorem openPositions_of_summary {account : AccountSummary} {now : Instant}
    (h : l.summary now = .ok account) : account.openPositions = l.positions.size := by
  simp only [summary, bind_eq_ok, pure_eq_ok] at h
  obtain ⟨_, -, _, -, rfl⟩ := h
  rfl

/-- No symbol has a position that had none before. -/
def OpensNone (l l' : Ledger) : Prop :=
  ∀ s, (l'.positions.get? s).isSome → (l.positions.get? s).isSome

theorem OpensNone.refl (l : Ledger) : l.OpensNone l := fun _ => id

theorem OpensNone.trans (h₁ : l.OpensNone l₁) (h₂ : l₁.OpensNone l₂) : l.OpensNone l₂ :=
  fun s hs => h₁ s (h₂ s hs)

theorem Quiet.opensNone (h : l.Quiet l') : l.OpensNone l' := fun s hs => by
  rwa [← Option.isSome_map, ← h.holding_eq, Option.isSome_map]

/-- An order for all of a position opens none. -/
theorem Subdued.opensNone (h : l.Subdued l') : l.OpensNone l' := by
  cases h with
  | quiet quiet => exact quiet.opensNone
  | @exit l₁ request _ _ _ _ _ quiet exits filled =>
    refine quiet.opensNone.trans fun s hs => ?_
    by_cases hsymbol : s = request.symbol
    · obtain ⟨p, hp, -⟩ := exits
      rw [hsymbol, hp]
      rfl
    · rwa [← filled.get?_other s hsymbol]

/-- Turns that place no order of their own open no position. -/
theorem Consistent.opensNone_turns (hl : l.Consistent) (hts : ∀ t ∈ ts, ¬ t.Places)
    (h : l.turns ts = .ok l') : l.OpensNone l' :=
  (hl.turns_induction (.refl l) (fun t ht _ _ hl hopens hturn =>
    hopens.trans (hl.subdued_turn (hts t ht) hturn).opensNone) h).2

end Ledger

namespace Session

open Session.Action (ended? ended?_eq_some answer? run_eq_ok)

variable {s s' : Session} {call : Call} {signal : Signal} {approval : Approval} {clock : Clock}
  {now : Instant} {ts : List Ledger.Turn} {l l' : Ledger}

/-- An approval has foreseen a number of positions within the limit. -/
theorem Approves.size_add_le (h : s.Approves signal clock approval) :
    s.ledger.positions.size + (if (s.ledger.positions.get? signal.symbol).isSome then 0 else 1) ≤
      s.risk.limits.maxOpenPositions := by
  obtain ⟨account, risk, haccount, hevaluate⟩ := h
  obtain ⟨hadmits, -⟩ := RiskManager.evaluate_ok hevaluate
  have hopen := hadmits.open_le
  rwa [AccountSummary.exposure, Ledger.contains_openSymbols haccount,
    Ledger.openPositions_of_summary haccount] at hopen

/-- After the order of an approved signal the number of positions is within the limit, whatever the
order does, and also if turns without orders of their own have come before it. -/
theorem Approves.size_le (h : s.Approves signal clock approval) (hs : s.ledger.Consistent)
    (hts : ∀ t ∈ ts, ¬ t.Places) (hturns : s.ledger.turns ts = .ok l)
    (hplace : l.turn (.whole (.place approval.toOrderRequest now)) = .ok l') :
    l'.positions.size ≤ s.risk.limits.maxOpenPositions := by
  have hopens := hs.opensNone_turns hts hturns
  obtain ⟨outcome, hplace⟩ := Ledger.turn_place_eq_ok.mp hplace
  have hsymbol : approval.toOrderRequest.symbol = signal.symbol := by
    obtain ⟨_, _, -, hevaluate⟩ := h
    obtain ⟨-, _, _, -, -, hsized⟩ := RiskManager.evaluate_ok hevaluate
    exact congrArg Signal.symbol hsized.signal_eq
  have hisolated := Ledger.isolated_place hplace
  rw [hsymbol] at hisolated
  -- the symbol of the signal is the only one that may have got a position
  have hsize : l'.positions.size ≤ s.ledger.positions.size +
      (if (s.ledger.positions.get? signal.symbol).isSome then 0 else 1) := by
    refine Table.size_le_add fun symbol hheld => ?_
    by_cases hother : symbol = signal.symbol
    · exact .inl hother
    · rw [hisolated.get?_other symbol hother] at hheld
      exact .inr (hopens symbol hheld)
  exact hsize.trans h.size_add_le

/-- The number of open positions is within the limit. -/
structure Counted (limits : RiskSettings) (s : Session) : Prop where
  consistent : s.ledger.Consistent
  size_le : s.ledger.positions.size ≤ limits.maxOpenPositions
  limits_eq : s.risk.limits = limits

theorem counted_new {settings : Settings} {hub : Hub Message} {firstId : Uuid}
    (h : new settings hub firstId clock = .ok s) : s.Counted settings.risk := by
  simp only [new, bind_eq_ok, pure_eq_ok] at h
  obtain ⟨account, -, risk, -, rfl⟩ := h
  exact ⟨Ledger.consistent_new .., Nat.zero_le _, rfl⟩

/-- The turns of a call that places no order by hand keep the number within the limit. -/
theorem Counted.turns {limits : RiskSettings} (hs : s.Counted limits)
    (hplace : ∀ request, call ≠ .place request) (hturns : call.Turns s clock ts)
    (h : s.ledger.turns ts = .ok l) : l.positions.size ≤ limits.maxOpenPositions := by
  by_cases hsignal : ∃ signal, call = .signal signal
  · obtain ⟨signal, rfl⟩ := hsignal
    cases hturns with
    | none =>
      obtain rfl : s.ledger = l := pure_eq_ok.mp h
      exact hs.size_le
    | signal approves =>
      simp only [Ledger.turns, List.foldlM_cons, List.foldlM_nil, bind_pure] at h
      rw [← hs.limits_eq]
      exact approves.size_le hs.consistent (List.forall_mem_nil _) rfl h
  · have hopens := hs.consistent.opensNone_turns
      (hturns.not_places hplace fun signal hcall => hsignal ⟨signal, hcall⟩) h
    exact (Table.size_le hopens).trans hs.size_le

theorem Counted.performed {limits : RiskSettings} (hs : s.Counted limits)
    (hplace : ∀ request, call ≠ .place request) (h : Performed call clock s s') :
    s'.Counted limits := by
  obtain ⟨ts, l, hturns, hledger, hquiet, hlimits⟩ := h.exists_turns
  exact ⟨(hs.consistent.turns hledger).quiet hquiet,
    (Table.size_le hquiet.opensNone).trans (hs.turns hplace hturns hledger),
    hlimits.trans hs.limits_eq⟩

/-- A signal that was executed has been approved, and its order was the only turn with the book. -/
theorem approves_of_onSignal {id : Uuid} {size : Decimal}
    (h : (onSignal signal clock).run s = .ok (.ok (.executed id size)) s') :
    s'.Shown clock ∧ ∃ approval l, s.Approves signal clock approval ∧
      s.ledger.turn (.whole (.place approval.toOrderRequest (clock 2))) = .ok l ∧
      l.Quiet s'.ledger := by
  by_cases hrunning : s.status = .running
  · obtain ⟨_, _, -, -, -, hannounced⟩ := onSignal_of_running hrunning h
    obtain ⟨ts, hturns, hworked⟩ := (onSignal_run h).worked hrunning
    refine ⟨hannounced.shown, ?_⟩
    cases hturns with
    | none =>
      -- without a turn there is no new order, so the signal was not executed
      refine absurd ?_ ((order_of_onSignal h).1.mp ⟨id, size, rfl⟩)
      rw [hworked.ledger_eq]
      rfl
    | @signal _ approval approves =>
      obtain ⟨_, s₁, -, hworked, hsynced⟩ := hworked
      have hturn := hworked.turns_eq
      simp only [Ledger.turns, List.foldlM_cons, List.foldlM_nil, bind_pure] at hturn
      refine ⟨approval, _, approves, hturn, ?_⟩
      rw [hsynced.ledger_eq]
      exact .takeEvents _
  · obtain ⟨hignored, -⟩ := onSignal_of_not_running hrunning h
    cases hignored

/-- Right after a signal was executed the account has no more open positions than the limit allows,
whatever was done before by signals and by hand.  After a run in which all orders come from signals
it never has more. -/
theorem open_positions_within_limit (settings : Settings) (hub : Hub Message) (firstId : Uuid)
    (begin : Clock) (calls : List (Call × Clock)) {s₀ : Session}
    (hnew : new settings hub firstId begin = .ok s₀) (hrun : (runCalls calls).run s₀ = .ok () s) :
    (∀ signal clock id size s', (onSignal signal clock).run s = .ok (.ok (.executed id size)) s' →
      ∃ account : AccountSummary,
        (∀ t, s'.ledger.summary t = .ok { account with timestamp := t }) ∧
        account.openPositions = s'.ledger.positions.size ∧
        account.openPositions ≤ settings.risk.maxOpenPositions) ∧
    ((∀ c ∈ calls, ∀ request, c.1 ≠ .place request) →
      s.ledger.positions.size ≤ settings.risk.maxOpenPositions ∧
      ∀ t account, s.ledger.summary t = .ok account →
        account.openPositions ≤ settings.risk.maxOpenPositions) := by
  constructor
  · intro signal clock id size s' hsignal
    have hs := atRest_run hnew hrun
    obtain ⟨⟨account, -, _, _, _, haccount, -⟩, approval, l, happroves, hturn, hquiet⟩ :=
      approves_of_onSignal hsignal
    have hcount := Ledger.openPositions_of_summary haccount
    refine ⟨account, Ledger.summary_at haccount, hcount, ?_⟩
    rw [hcount, ← hs.limits_eq]
    exact (Table.size_le hquiet.opensNone).trans
      (happroves.size_le hs.consistent (List.forall_mem_nil _) rfl hturn)
  · intro hplace
    have hs : s.Counted settings.risk := runCalls_induction (counted_new hnew)
      (fun c hc _ _ hs hcall => hs.performed (hplace c hc) hcall) hrun
    refine ⟨hs.size_le, fun t account haccount => ?_⟩
    rw [Ledger.openPositions_of_summary haccount]
    exact hs.size_le

/-- Settings that allow one position, built by two entries. -/
def onePosition : Settings :=
  { freeSettings with risk := { maxOpenPositions := 1, maxPositionsPerSymbol := 2 } }

/-- A signal that is not sure of itself. -/
def weakSignals : List (Call × Clock) :=
  [(.price ⟨"A", .lit 100 0, default⟩, default), (.price ⟨"B", .lit 100 0, default⟩, default),
    (.signal ⟨"A", .long, .lit 100 0, .lit 90 0, .lit 120 0, "t", .lit 5 1, none, default⟩,
      default)]

/-- A signal the other way that is. -/
def strongSignal : Signal :=
  ⟨"A", .short, .lit 100 0, .lit 110 0, .lit 80 0, "t", .lit 1 0, none, default⟩

/-- The second signal turns the only position that is allowed into one the other way. -/
theorem open_positions_within_limit_flip : ∃ s₀ s s' id size, ∃ account : AccountSummary,
    new onePosition (.new 1) default default = .ok s₀ ∧
    (runCalls weakSignals).run s₀ = .ok () s ∧ s.ledger.positions.size ≤ 1 ∧
    (onSignal strongSignal default).run s = .ok (.ok (.executed id size)) s' ∧
    s'.ledger.trades.length = 3 ∧ s'.ledger.positions.size = account.openPositions ∧
    s'.ledger.summary default = .ok { account with timestamp := default } ∧
    account.openPositions ≤ 1 := by
  have hflips : ((new onePosition (.new 1) default default).toOption.bind fun s₀ =>
      (ended? (runCalls weakSignals) s₀).bind fun s =>
        (ended? (onSignal strongSignal default) s).bind fun s' =>
          (answer? (onSignal strongSignal default) s).map fun answer =>
            (s'.ledger.trades.length, answer)) =
      some (3, .ok (.executed (default : Uuid).next.next (.lit 2000000000 7))) := by decide +kernel
  obtain ⟨s₀, hnew, h⟩ := Calc.exists_eq_ok hflips
  obtain ⟨s, hended, h⟩ := Option.bind_eq_some_iff.mp h
  obtain ⟨s', hsignaled, h⟩ := Option.bind_eq_some_iff.mp h
  obtain ⟨answer, hanswer, h⟩ := Option.map_eq_some_iff.mp h
  obtain ⟨htrades, rfl⟩ := Prod.mk.inj h
  obtain ⟨⟨⟩, hrun⟩ := ended?_eq_some.mp hended
  have hsignal := run_eq_ok hsignaled hanswer
  have hplace : ∀ c ∈ weakSignals, ∀ request, c.1 ≠ .place request := by simp [weakSignals]
  obtain ⟨hexecuted, hnever⟩ := open_positions_within_limit onePosition (.new 1) default default
    weakSignals hnew hrun
  obtain ⟨account, haccount, hcount, hle⟩ := hexecuted strongSignal default _ _ s' hsignal
  exact ⟨s₀, s, s', _, _, account, hnew, hrun, (hnever hplace).1, hsignal, htrades, hcount.symm,
    haccount default, hle⟩

end Session

end SimBroker
