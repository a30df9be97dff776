import SimBroker.Settings.Toml
import SimBroker.Proofs.Decimal.Reduced
import SimBroker.Proofs.Settings.Codec
import SimBroker.Proofs.Toml.Document

/-!
# Settings read back from TOML

The document that is written for settings gives every field but an absent port, and absence is what
the default of the port says.  So settings are read back from their document, equal by the values of
their decimals, and refused for the reason they were refused before.

## Main definitions

* `Settings.counters`: the counters of 64 bits

## Main results

* `Settings.fault?_eq_of_sameValues`: values decide whether settings are refused
* `Settings.ofToml?_toToml?`: settings are read back from the document written for them
-/

namespace SimBroker

open Json (Fits SameValues encode mapDecimals natBelow? natBelow?_int record sameValues_plain)
open Toml (AreKeys IsScalar IsTable isPresent present)

namespace Settings

/-! ## Sections as tables -/

section Fields

variable {n : Nat}

theorem isScalar_decimal (a : Decimal) : IsScalar (encode a) := .str _

theorem isScalar_string (s : String) : IsScalar (encode s) := .str s

theorem isScalar_sizingMethod (m : SizingMethod) : IsScalar (encode m) := .str m.name

theorem isScalar_bool (b : Bool) : IsScalar (encode b) := .bool b

theorem isScalar_nat (h : n < 2 ^ 63) : IsScalar (encode n) := .int h

theorem isScalar_port {port : Option Nat} (h : ∀ n ∈ port, n < UInt16.size) :
    IsScalar (encode port) := by
  cases port with
  | none => exact .null
  | some n => exact .int ((h n rfl).trans (by decide))

end Fields

/-- The counters of 64 bits. -/
def counters (s : Settings) : List Nat :=
  [s.risk.maxOpenPositions, s.risk.maxPositionsPerSymbol, s.risk.haltDurationSecs,
    s.risk.tradeHistory, s.session.signalHistory, s.session.maxErrors, s.broadcast.queueDepth]

/-! The names of the fields of a section are those of the default section. -/

theorem isTable_account (s : AccountSettings) : IsTable IsScalar (encode s).members where
  areKeys := (by decide : AreKeys ((encode ({} : AccountSettings)).members.map Prod.fst))
  kind := by
    show ∀ e ∈ (Json.obj _).members, _
    simp [Json.members, isScalar_decimal, isScalar_string]

theorem isTable_risk {s : RiskSettings} (hopen : s.maxOpenPositions < 2 ^ 63)
    (hsymbol : s.maxPositionsPerSymbol < 2 ^ 63) (hlosses : s.maxConsecutiveLosses < UInt32.size)
    (hhalt : s.haltDurationSecs < 2 ^ 63) (hhistory : s.tradeHistory < 2 ^ 63) :
    IsTable IsScalar (encode s).members where
  areKeys := (by decide : AreKeys ((encode ({} : RiskSettings)).members.map Prod.fst))
  kind := by
    have hlosses : s.maxConsecutiveLosses < 2 ^ 63 := hlosses.trans (by decide)
    show ∀ e ∈ (Json.obj _).members, _
    simp [Json.members, isScalar_decimal, isScalar_bool, isScalar_sizingMethod, isScalar_nat hopen,
      isScalar_nat hsymbol, isScalar_nat hlosses, isScalar_nat hhalt, isScalar_nat hhistory]

theorem isTable_session {s : SessionSettings} (hsignals : s.signalHistory < 2 ^ 63)
    (herrors : s.maxErrors < 2 ^ 63) : IsTable IsScalar (encode s).members where
  areKeys := (by decide : AreKeys ((encode ({} : SessionSettings)).members.map Prod.fst))
  kind := by
    show ∀ e ∈ (Json.obj _).members, _
    simp [Json.members, isScalar_bool, isScalar_nat hsignals, isScalar_nat herrors]

theorem isTable_broadcast {s : BroadcastSettings} (hdepth : s.queueDepth < 2 ^ 63) :
    IsTable IsScalar (encode s).members where
  areKeys := (by decide : AreKeys ((encode ({} : BroadcastSettings)).members.map Prod.fst))
  kind := by
    show ∀ e ∈ (Json.obj _).members, _
    simp [Json.members, isScalar_nat hdepth]

theorem isTable_telemetry {s : TelemetrySettings} (h : Fits s) :
    IsTable IsScalar (encode s).members where
  areKeys := (by decide : AreKeys ((encode ({} : TelemetrySettings)).members.map Prod.fst))
  kind := by
    show ∀ e ∈ (Json.obj _).members, _
    simp [Json.members, isScalar_port h, isScalar_string, isScalar_bool]

variable {s t : Settings}

theorem isTable (h : Fits s) (hcounters : ∀ n ∈ s.counters, n < 2 ^ 63) :
    IsTable (fun j => IsTable IsScalar j.members) (encode s).members where
  areKeys := (by decide : AreKeys ((encode ({} : Settings)).members.map Prod.fst))
  kind := by
    simp only [counters, List.forall_mem_cons] at hcounters
    obtain ⟨hopen, hsymbol, hhalt, hhistory, hsignals, herrors, hdepth, -⟩ := hcounters
    show ∀ e ∈ (Json.obj _).members, _
    simp only [Json.members, List.forall_mem_cons]
    exact ⟨isTable_account s.account, isTable_risk hopen hsymbol h.1.2.2.1 hhalt hhistory,
      isTable_session hsignals herrors, isTable_broadcast hdepth, isTable_telemetry h.2.2.2, nofun⟩

/-! ## Reading the tables -/

/-- Without a port, the section has no entry for it. -/
theorem read?_present_telemetry {s : TelemetrySettings} (h : Fits s) :
    Json.read? .settings (.obj (present (encode s).members)) = some s := by
  obtain ⟨port, logLevel, jsonLogs⟩ := s
  cases port with
  | none =>
    show record _ .settings
      (.obj [("log_level", encode logLevel), ("json_logs", encode jsonLogs)]) = _
    simp [record]
  | some port => exact Json.read?_encode .settings h

theorem read?_present (h : Fits s) :
    Json.read? .settings
      (.obj ((encode s).members.map fun e => (e.1, Json.obj (present e.2.members)))) =
        some (mapDecimals Decimal.plain s) := by
  obtain ⟨hrisk, hsession, hbroadcast, htelemetry⟩ := h
  show record _ .settings (.obj [("account", encode s.account), ("risk", encode s.risk),
    ("orchestrator", encode s.session), ("broadcast", encode s.broadcast),
    ("telemetry", .obj (present (encode s.telemetry).members))]) = _
  simp [record, hrisk, hsession, hbroadcast, read?_present_telemetry htelemetry]
  rfl

/-! ## What is refused -/

/-- Whether settings are refused, and why, depends on the values of their decimals alone. -/
theorem fault?_eq_of_sameValues (h : SameValues t s) : t.fault? = s.fault? := by
  have hfield {α : Type} (f : Settings → α) :
      f (mapDecimals Decimal.reduced t) = f (mapDecimals Decimal.reduced s) := congrArg f h
  have hbalance : t.account.initialBalance.SameValue s.account.initialBalance :=
    Decimal.reduced_eq_iff.mp (hfield fun s => s.account.initialBalance)
  have hcommission : t.account.commissionRate.SameValue s.account.commissionRate :=
    Decimal.reduced_eq_iff.mp (hfield fun s => s.account.commissionRate)
  have hslippage : t.account.slippage.SameValue s.account.slippage :=
    Decimal.reduced_eq_iff.mp (hfield fun s => s.account.slippage)
  have hrisk : t.risk.maxRiskPerTrade.SameValue s.risk.maxRiskPerTrade :=
    Decimal.reduced_eq_iff.mp (hfield fun s => s.risk.maxRiskPerTrade)
  have hdepth : t.broadcast.queueDepth = s.broadcast.queueDepth :=
    hfield fun s => s.broadcast.queueDepth
  rw [Decimal.sameValue_iff] at hbalance hcommission hslippage hrisk
  simp only [fault?, Decimal.lt_iff, Decimal.le_iff, hbalance, hcommission, hslippage, hrisk,
    hdepth]

/-- Settings are read back from the document that is written for them, equal by the values of their
decimals, and loaded unless they are refused themselves.  Their counters fit their widths, and those
of 64 bits fit a signed number too, which is what TOML has. -/
theorem ofToml?_toToml? (h : Fits s) (hcounters : ∀ n ∈ s.counters, n < 2 ^ 63) :
    ∃ text t, s.toToml? = some text ∧ ofToml? text = some t ∧ SameValues t s ∧
      t.fault? = s.fault? ∧ (load text = .ok t ↔ s.fault? = none) := by
  obtain ⟨text, document, hwrite, hparse, hdocument⟩ :=
    Toml.ofChars?_documentChars (isTable h hcounters)
  have hread : ofToml? text = some (mapDecimals Decimal.plain s) := by
    rw [ofToml?, hparse, Option.bind_some, hdocument, read?_present h]
  have hfault : (mapDecimals Decimal.plain s).fault? = s.fault? :=
    fault?_eq_of_sameValues (sameValues_plain s)
  refine ⟨text, _, hwrite, hread, sameValues_plain s, hfault, ?_⟩
  rw [load, hread]
  simp only [checked, hfault]
  cases s.fault? with
  | none => exact ⟨fun _ => rfl, fun _ => rfl⟩
  | some fault => exact ⟨nofun, nofun⟩

/-- Settings with a port, a negative zero and a name of two lines are read back. -/
theorem ofToml?_toToml?_port : ∃ s : Settings, s.telemetry.metricsPort = some 9090 ∧
    (Fits s ∧ ∀ n ∈ s.counters, n < 2 ^ 63) ∧
      ∃ text t, s.toToml? = some text ∧ ofToml? text = some t ∧ SameValues t s ∧
        t.fault? = s.fault? ∧ (load text = .ok t ↔ s.fault? = none) := by
  let s : Settings := {
    account := { quoteAsset := "US\n\"D\"", slippage := -.lit 0 2 }
    telemetry := { metricsPort := some 9090 } }
  have hsmall {n : Nat} (h : n < 10000) : Fits n := Nat.lt_trans h (by decide)
  have hrisk : Fits s.risk :=
    ⟨hsmall (by decide), hsmall (by decide), by decide, hsmall (by decide), hsmall (by decide)⟩
  have hport : Fits s.telemetry := by
    rintro port ⟨⟩
    decide
  have hfits : Fits s :=
    ⟨hrisk, ⟨hsmall (by decide), hsmall (by decide)⟩, hsmall (n := 256) (by decide), hport⟩
  have hcounters : ∀ n ∈ s.counters, n < 2 ^ 63 := by decide
  exact ⟨s, rfl, ⟨hfits, hcounters⟩, ofToml?_toToml? hfits hcounters⟩

end Settings

end SimBroker
