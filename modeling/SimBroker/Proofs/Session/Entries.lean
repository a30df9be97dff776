import SimBroker.Proofs.Ledger.Entries
import SimBroker.Proofs.Session.Status
import SimBroker.Proofs.Table

/-!
# Entries in one symbol

The evaluation of a signal counts a position that is held as one entry, however many trades have
built it.  So the limit on the entries in one symbol is kept where it is at most one: a position is
opened by one entry, and no signal for its symbol is approved while it is held.  A greater limit
refuses no signal at all.

## Main definitions

* `Limited`: no position was built by more entries than the limit allows
* `precedesSymbolLimit`: the refusals that an evaluation looks for before the limit on the symbol

## Main results

* `Limited.performed`: a call that places no order by hand keeps the limit
* `entries_within_limit`: the entries of positions, and the limit in evaluations, after any run
* `entries_exceed_limit`: a run of signals that exceeds a limit of two
-/

namespace SimBroker

open Calc (bind_eq_ok pure_eq_ok)

namespace Ledger

/-- The open symbols of a summary are those with a position. -/
theorem contains_openSymbols {l : Ledger} {account : AccountSummary} {now : Instant}
    (h : l.summary now = .ok account) (symbol : String) :
    account.openSymbols.contains symbol = (l.positions.get? symbol).isSome := by
  simp only [summary, bind_eq_ok, pure_eq_ok] at h
  obtain ⟨_, -, _, -, rfl⟩ := h
  rw [Bool.eq_iff_iff, List.contains_iff_mem, List.mem_mergeSort]
  exact Table.mem_keys_iff

end Ledger

namespace Session

open Session.Action (ended? ended?_eq_some)

variable {s s' : Session} {call : Call} {clock : Clock} {ts : List Ledger.Turn}
  {limits : RiskSettings}

/-- No position was built by more entries than the limit allows. -/
structure Limited (limits : RiskSettings) (s : Session) : Prop where
  consistent : s.ledger.Consistent
  entries : s.ledger.EntriesAtMost limits.maxPositionsPerSymbol
  limits_eq : s.risk.limits = limits

theorem limited_new {settings : Settings} {hub : Hub Message} {firstId : Uuid}
    (h : new settings hub firstId clock = .ok s) : s.Limited settings.risk := by
  simp only [new, bind_eq_ok, pure_eq_ok] at h
  obtain ⟨account, -, risk, -, rfl⟩ := h
  exact ⟨Ledger.consistent_new .., .new .., rfl⟩

/-- Only signals and orders by hand place orders. -/
theorem Call.Turns.not_places (h : call.Turns s clock ts)
    (hplace : ∀ request, call ≠ .place request) (hsignal : ∀ signal, call ≠ .signal signal) :
    ∀ t ∈ ts, ¬ t.Places := by
  induction h with
  | none => exact List.forall_mem_nil _
  | signal => exact absurd rfl (hsignal _)
  | place => exact absurd rfl (hplace _)
  | price _ ih | candle _ ih =>
    exact List.forall_mem_cons.mpr ⟨id, ih (fun _ h => nomatch h) (fun _ h => nomatch h)⟩
  | _ => exact List.forall_mem_singleton.mpr id

/-- With a limit of at most one, a signal is approved for a symbol without a position only. -/
theorem Limited.flat_of_approves (hs : s.Limited limits) (hlimit : limits.maxPositionsPerSymbol ≤ 1)
    {signal : Signal} {approval : Approval} (h : s.Approves signal clock approval) :
    1 ≤ limits.maxPositionsPerSymbol ∧
      s.ledger.positions.get? approval.toOrderRequest.symbol = none := by
  obtain ⟨account, risk, haccount, hevaluate⟩ := h
  obtain ⟨hadmits, m, ratio, -, -, hsized⟩ := RiskManager.evaluate_ok hevaluate
  have hsymbol := hadmits.symbol_le
  rw [hs.limits_eq, AccountSummary.exposure, Ledger.contains_openSymbols haccount] at hsymbol
  show _ ∧ s.ledger.positions.get? approval.signal.symbol = none
  rw [hsized.signal_eq]
  cases hget : s.ledger.positions.get? signal.symbol with
  | none =>
    rw [hget, Option.isSome_none, if_neg Bool.false_ne_true] at hsymbol
    exact ⟨hsymbol, rfl⟩
  | some p =>
    rw [hget, Option.isSome_some, if_pos rfl] at hsymbol
    omega

/-- The turns of a call that places no order by hand keep the limit, if it is at most one. -/
theorem Limited.turns (hs : s.Limited limits) (hlimit : limits.maxPositionsPerSymbol ≤ 1)
    (hplace : ∀ request, call ≠ .place request) (hturns : call.Turns s clock ts) {l : Ledger}
    (h : s.ledger.turns ts = .ok l) : l.EntriesAtMost limits.maxPositionsPerSymbol := by
  -- a signal is the only call here that places an order, and it does so on a flat symbol only
  by_cases hsignal : ∃ signal, call = .signal signal
  · obtain ⟨signal, rfl⟩ := hsignal
    cases hturns with
    | none =>
      obtain rfl : s.ledger = l := pure_eq_ok.mp h
      exact hs.entries
    | signal approves =>
      obtain ⟨hpos, hflat⟩ := hs.flat_of_approves hlimit approves
      simp only [Ledger.turns, List.foldlM_cons, List.foldlM_nil, bind_pure] at h
      exact hs.entries.place hs.consistent hpos hflat h
  · exact hs.entries.turns hs.consistent
      (hturns.not_places hplace fun signal hcall => hsignal ⟨signal, hcall⟩) h

/-- A call that places no order by hand keeps the limit, if it is at most one. -/
theorem Limited.performed (hs : s.Limited limits) (hlimit : limits.maxPositionsPerSymbol ≤ 1)
    (hplace : ∀ request, call ≠ .place request) (h : Performed call clock s s') :
    s'.Limited limits := by
  obtain ⟨ts, l, hturns, hledger, hquiet, hlimits⟩ := h.exists_turns
  exact ⟨(hs.consistent.turns hledger).quiet hquiet,
    (hs.turns hlimit hplace hturns hledger).quiet hquiet, hlimits.trans hs.limits_eq⟩

/-! ## The limit in evaluations -/

/-- The refusals that an evaluation looks for before the limit on the symbol. -/
def precedesSymbolLimit : TradingError → Bool
  | .riskRejected .tradingHalted | .circuitBreakerTripped _ | .invalidInput _
  | .riskRejected .belowMinRiskReward | .riskRejected .positionLimitExceeded => true
  | _ => false

section Evaluate

variable {m m' : RiskManager} {signal : Signal} {account : Exposure} {now : Instant}
  {outcome : Outcome Approval}

/-- A signal for a symbol with a position is refused, at the latest by a limit of at most one. -/
theorem refused_of_held (hlimit : m.limits.maxPositionsPerSymbol ≤ 1)
    (hheld : account.openSymbols.contains signal.symbol)
    (h : m.evaluate signal account now = .ok (m', outcome)) :
    ∃ e, outcome = .error e ∧
      (precedesSymbolLimit e ∨ e = .riskRejected .symbolLimitExceeded) := by
  obtain ⟨-, rfl | ⟨reason, rfl⟩ | ⟨m₁, hsame, hscreen⟩⟩ := RiskManager.evaluate_cases h
  · exact ⟨_, rfl, .inl rfl⟩
  · exact ⟨_, rfl, .inl rfl⟩
  · rcases RiskManager.screen_cases hscreen with ⟨e, he, rfl⟩ | ⟨ratio, -, ⟨-, rfl⟩ | ⟨-, rfl⟩ |
      ⟨-, rfl⟩ | ⟨hadmits, -⟩⟩
    · obtain ⟨message, rfl⟩ := RiskManager.checkSignal_error he
      exact ⟨_, rfl, .inl rfl⟩
    · exact ⟨_, rfl, .inl rfl⟩
    · exact ⟨_, rfl, .inl rfl⟩
    · exact ⟨_, rfl, .inr rfl⟩
    · have hsymbol := hadmits.symbol_le
      rw [hsame.limits_eq, if_pos hheld] at hsymbol
      omega

/-- No signal is refused by a limit of two or more. -/
theorem outcome_ne_symbolLimit (hlimit : 2 ≤ m.limits.maxPositionsPerSymbol)
    (h : m.evaluate signal account now = .ok (m', outcome)) :
    outcome ≠ .error (.riskRejected .symbolLimitExceeded) := by
  obtain ⟨-, rfl | ⟨reason, rfl⟩ | ⟨m₁, hsame, hscreen⟩⟩ := RiskManager.evaluate_cases h
  · exact nofun
  · exact nofun
  · rcases RiskManager.screen_cases hscreen with ⟨e, he, rfl⟩ | ⟨ratio, -, ⟨-, rfl⟩ | ⟨-, rfl⟩ |
      ⟨hsymbol, rfl⟩ | ⟨-, hsize⟩⟩
    · obtain ⟨message, rfl⟩ := RiskManager.checkSignal_error he
      exact nofun
    · exact nofun
    · exact nofun
    · -- a held position counts as one entry, so the count is two at most
      rw [hsame.limits_eq] at hsymbol
      split at hsymbol <;> omega
    · rcases RiskManager.sizeSignal_cases hsize with rfl | ⟨approval, rfl, -⟩
      · exact nofun
      · exact nofun

end Evaluate

/-! ## Runs -/

/-- After every run without orders by hand: if at most one entry is allowed in a symbol, then no
open position was built by more entries than that, and a signal for a symbol with a position is
refused, by the limit on the symbol unless an earlier check refuses it.  But if two or more are
allowed, then no signal is ever refused by the limit. -/
theorem entries_within_limit (settings : Settings) (hub : Hub Message) (firstId : Uuid)
    (begin : Clock) (calls : List (Call × Clock)) {s₀ : Session}
    (hnew : new settings hub firstId begin = .ok s₀)
    (hplace : ∀ c ∈ calls, ∀ request, c.1 ≠ .place request)
    (hrun : (runCalls calls).run s₀ = .ok () s) :
    (settings.risk.maxPositionsPerSymbol ≤ 1 → ∀ symbol p,
      s.ledger.positions.get? symbol = some p →
        (s.ledger.entriesOf p).length ≤ settings.risk.maxPositionsPerSymbol ∧
        ∀ signal t now account risk outcome, signal.symbol = symbol →
          s.ledger.summary t = .ok account →
          s.risk.evaluate signal account.exposure now = .ok (risk, outcome) →
            ∃ e, outcome = .error e ∧
              (precedesSymbolLimit e ∨ e = .riskRejected .symbolLimitExceeded)) ∧
    (2 ≤ settings.risk.maxPositionsPerSymbol → ∀ signal now account risk outcome,
      s.risk.evaluate signal account now = .ok (risk, outcome) →
        outcome ≠ .error (.riskRejected .symbolLimitExceeded)) := by
  constructor
  · intro hlimit symbol p hp
    have hlimited : s.Limited settings.risk := runCalls_induction (limited_new hnew)
      (fun c hc _ _ hs hcall => hs.performed hlimit (hplace c hc) hcall) hrun
    refine ⟨hlimited.entries.length_le hp, ?_⟩
    rintro signal t now account risk outcome rfl haccount hevaluate
    refine refused_of_held ?_ ?_ hevaluate
    · rw [hlimited.limits_eq]
      exact hlimit
    · rw [AccountSummary.exposure, Ledger.contains_openSymbols haccount, hp]
      rfl
  · intro hlimit signal now account risk outcome hevaluate
    refine outcome_ne_symbolLimit ?_ hevaluate
    rw [(gated_run hnew hrun).limits_eq]
    exact hlimit

/-- The same signal three times. -/
def threeSignals : List (Call × Clock) :=
  let signal : Signal :=
    ⟨"A", .long, .lit 100 0, .lit 90 0, .lit 120 0, "t", .lit 1 0, none, default⟩
  [(.price ⟨"A", .lit 100 0, default⟩, default), (.signal signal, default),
    (.signal signal, default), (.signal signal, default)]

theorem threeSignals_not_place : ∀ c ∈ threeSignals, ∀ request, c.1 ≠ .place request := by
  simp [threeSignals]

/-- The position at a symbol at the end of a run of a new session, and how many entries have built
it. -/
def entriesAfter? (settings : Settings) (calls : List (Call × Clock)) (symbol : String) :
    Option ℕ :=
  (new settings (.new 1) default default).toOption.bind fun s₀ =>
    (ended? (runCalls calls) s₀).bind fun s =>
      (s.ledger.positions.get? symbol).map fun p => (s.ledger.entriesOf p).length

theorem entriesAfter?_eq_some {settings : Settings} {calls : List (Call × Clock)}
    {symbol : String} {n : ℕ} (h : entriesAfter? settings calls symbol = some n) :
    ∃ s₀ s p, new settings (.new 1) default default = .ok s₀ ∧
      (runCalls calls).run s₀ = .ok () s ∧ s.ledger.positions.get? symbol = some p ∧
      (s.ledger.entriesOf p).length = n := by
  obtain ⟨s₀, hnew, h⟩ := Calc.exists_eq_ok h
  obtain ⟨s, hrun, h⟩ := Option.bind_eq_some_iff.mp h
  obtain ⟨p, hp, hn⟩ := Option.map_eq_some_iff.mp h
  obtain ⟨⟨⟩, hrun⟩ := ended?_eq_some.mp hrun
  exact ⟨s₀, s, p, hnew, hrun, hp, hn⟩

/-- Where one entry is allowed, the three signals make one. -/
theorem entries_within_limit_one : ∃ s₀ s p,
    new freeSettings (.new 1) default default = .ok s₀ ∧
    (runCalls threeSignals).run s₀ = .ok () s ∧ s.ledger.positions.get? "A" = some p ∧
    (s.ledger.entriesOf p).length ≤ 1 := by
  have hentries : entriesAfter? freeSettings threeSignals "A" = some 1 := by decide +kernel
  obtain ⟨s₀, s, p, hnew, hrun, hp, -⟩ := entriesAfter?_eq_some hentries
  obtain ⟨hone, -⟩ := entries_within_limit freeSettings (.new 1) default default threeSignals hnew
    threeSignals_not_place hrun
  exact ⟨s₀, s, p, hnew, hrun, hp, (hone le_rfl "A" p hp).1⟩

/-- Settings that allow two entries in a symbol. -/
def twoEntries : Settings :=
  { freeSettings with risk := { maxPositionsPerSymbol := 2 } }

/-- Where two entries are allowed, the three signals make three. -/
theorem entries_exceed_limit :
    twoEntries.fault? = none ∧ (∀ c ∈ threeSignals, ∀ request, c.1 ≠ .place request) ∧
    ∃ s₀ s p, new twoEntries (.new 1) default default = .ok s₀ ∧
      (runCalls threeSignals).run s₀ = .ok () s ∧ s.ledger.positions.get? "A" = some p ∧
      (s.ledger.entriesOf p).length = 3 ∧
      twoEntries.risk.maxPositionsPerSymbol < (s.ledger.entriesOf p).length := by
  have hentries : entriesAfter? twoEntries threeSignals "A" = some 3 := by decide +kernel
  obtain ⟨s₀, s, p, hnew, hrun, hp, hthree⟩ := entriesAfter?_eq_some hentries
  refine ⟨by decide +kernel, threeSignals_not_place, s₀, s, p, hnew, hrun, hp, hthree, ?_⟩
  rw [hthree]
  decide

end Session

end SimBroker
