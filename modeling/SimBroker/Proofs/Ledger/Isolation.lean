import SimBroker.Proofs.Ledger.Close

/-!
# What concerns a symbol and what does not

The positions of a book are kept by symbol and asked for by symbol or by id.  Either way a turn has
one symbol that it is about: the one that it names, or the one whose position has the id, of which
there is at most one because no id is given twice.  Whatever becomes of the turn, the positions and
the reference prices of all other symbols are as they were, marks included, and trades and orders
are only added behind those made before.

A turn that names an id is about the position with that id and nothing else.  An order by symbol may
close a position and open another one in its place; an order by id is for all of its position, so it
never does, and where the id is not known the book stays as it is.

## Main definitions

* `Turn.Concerns`: the symbol that a turn is about
* `Turn.KeepTo`: a run of turns about one symbol
* `Turn.id?`: the id that a turn names
* `Isolated`: two books that differ in one symbol, and in trades and orders that are new
* `Selected`: two books that differ in the position with an id

## Main results

* `Consistent.isolated_turn`, `Consistent.isolated_turns`: a turn, and a run, about one symbol
* `Consistent.selected_turn`: a turn that names an id
* `symbol_isolation`: both, in every book of a run
-/

namespace SimBroker

open Calc (bind_eq_ok pure_eq_ok)

namespace Ledger

variable {l l' l₁ l₂ : Ledger} {request : OrderRequest} {price notional commission : Decimal}
  {now : Instant} {symbol : String} {legs : List Leg} {id : ℕ} {t : Turn} {ts : List Turn}

/-! ## Books that differ in one symbol -/

/-- Only one symbol has changed, and the trades and orders of before are still the first ones. -/
structure Isolated (l : Ledger) (symbol : String) (l' : Ledger) : Prop where
  get?_other : ∀ s, s ≠ symbol → l'.positions.get? s = l.positions.get? s
  lastPrice?_other : ∀ s, s ≠ symbol → l'.lastPrice? s = l.lastPrice? s
  trades_prefix : l.trades <+: l'.trades
  orders_prefix : l.orders <+: l'.orders

namespace Isolated

theorem refl (l : Ledger) (symbol : String) : l.Isolated symbol l :=
  ⟨fun _ _ => rfl, fun _ _ => rfl, List.prefix_rfl, List.prefix_rfl⟩

theorem trans (h₁ : l.Isolated symbol l₁) (h₂ : l₁.Isolated symbol l₂) :
    l.Isolated symbol l₂ where
  get?_other s hs := (h₂.get?_other s hs).trans (h₁.get?_other s hs)
  lastPrice?_other s hs := (h₂.lastPrice?_other s hs).trans (h₁.lastPrice?_other s hs)
  trades_prefix := h₁.trades_prefix.trans h₂.trades_prefix
  orders_prefix := h₁.orders_prefix.trans h₂.orders_prefix

theorem emit (l : Ledger) (symbol : String) (event : LedgerEvent) :
    l.Isolated symbol (l.emit event) :=
  ⟨fun _ _ => rfl, fun _ _ => rfl, List.prefix_rfl, List.prefix_rfl⟩

theorem withPrice (l : Ledger) (symbol : String) (price : Decimal) :
    l.Isolated symbol (l.withPrice symbol price) where
  get?_other _ _ := rfl
  lastPrice?_other _ hs := (Table.get?_insert ..).trans (if_neg (Ne.symm hs))
  trades_prefix := List.prefix_rfl
  orders_prefix := List.prefix_rfl

theorem insert (l : Ledger) (symbol : String) (p : Position) :
    l.Isolated symbol { l with positions := l.positions.insert symbol p } where
  get?_other _ hs := (Table.get?_insert ..).trans (if_neg (Ne.symm hs))
  lastPrice?_other _ _ := rfl
  trades_prefix := List.prefix_rfl
  orders_prefix := List.prefix_rfl

theorem marked (l : Ledger) (symbol : String) (price : Decimal) (p : Position) :
    l.Isolated symbol (l.marked symbol price p) :=
  (withPrice l symbol price).trans (insert (l.withPrice symbol price) symbol p)

/-- A fill reaches the symbol of its request only. -/
theorem of_filled (h : l.Filled request price notional commission now legs l') :
    l.Isolated request.symbol l' where
  get?_other := h.get?_other
  lastPrice?_other s _ := by
    unfold lastPrice?
    rw [h.prices_eq]
  trades_prefix := ⟨_, h.trades_eq.symm⟩
  orders_prefix := ⟨_, h.orders_eq.symm⟩

end Isolated

/-! ## The symbol of a turn -/

/-- A turn is about a symbol: it names the symbol, or no position of another symbol has the id that
it names. -/
def Turn.Concerns (l : Ledger) (symbol : String) : Turn → Prop
  | .whole (.place request _) => request.symbol = symbol
  | .whole (.updatePrice s ..) | .mark s .. => s = symbol
  | .finish trigger _ => trigger.symbol = symbol
  | .whole (.close id _) | .whole (.setExit id ..) =>
    ∀ s p, l.positions.get? s = some p → p.id = id → s = symbol
  | .whole (.cancel _) => True

theorem isolated_fillCounted {outcome : Outcome Execution} (hq : 0 < request.quantity)
    (h : l.fillCounted request price now = .ok (l', outcome)) : l.Isolated request.symbol l' := by
  rcases fillCounted_cases hq h with hrefused | ⟨_, _, _, hfilled, -⟩
  · rw [hrefused.ledger_eq]
    exact .refl l _
  · exact .of_filled hfilled

theorem isolated_place {outcome : Outcome Execution}
    (h : l.place request now = .ok (l', outcome)) : l.Isolated request.symbol l' := by
  rcases place_cases h with ⟨rfl, -⟩ | ⟨price, hfault, -, hfill⟩
  · exact .refl _ _
  · exact isolated_fillCounted (quantity_pos_of_fault?_eq_none hfault) hfill

theorem isolated_recordPrice {outcome : Outcome (Option Trigger)}
    (h : l.recordPrice symbol price now = .ok (l', outcome)) : l.Isolated symbol l' := by
  rcases recordPrice_cases h with ⟨-, rfl, -⟩ | ⟨-, -, rfl, -⟩ | ⟨_, p', -, -, -, rfl, -⟩
  · exact .refl _ _
  · exact .withPrice l symbol price
  · exact .marked l symbol price p'

/-- The order of an exit is for the symbol that the report names. -/
theorem Consistent.isolated_executeTrigger (hl : l.Consistent) {trigger : Trigger}
    {outcome : Outcome (Option Execution)}
    (h : l.executeTrigger trigger now = .ok (l', outcome)) : l.Isolated trigger.symbol l' := by
  rcases hl.executeTrigger_cases h with rfl | ⟨p, latest, kind, hlive, rfl | ⟨_, _, _, hfilled⟩⟩
  · exact .refl _ _
  · exact .emit l _ _
  · have hsymbol : (exitRequest p kind).symbol = trigger.symbol :=
      (hl.sound hlive.get?_eq).symbol_eq
    have hisolated := Isolated.of_filled hfilled
    rw [hsymbol] at hisolated
    exact (Isolated.emit l _ _).trans hisolated

/-- A report of a mark is for the symbol that was marked. -/
theorem Consistent.isolated_updatePrice (hl : l.Consistent)
    {outcome : Outcome (Option Execution)}
    (h : l.updatePrice symbol price now = .ok (l', outcome)) : l.Isolated symbol l' := by
  obtain ⟨l₁, reported, hrecord, rfl | ⟨trigger, rfl, hexecute⟩⟩ := updatePrice_eq_ok h
  · exact isolated_recordPrice hrecord
  · obtain ⟨rfl, -⟩ := holds_of_recordPrice hrecord
    have hl₁ := hl.quiet (quiet_recordPrice hrecord)
    exact (isolated_recordPrice hrecord).trans (hl₁.isolated_executeTrigger hexecute)

/-! ## Books that differ in the position with an id -/

/-- Only the position with an id has changed: no other position is another or new, and no reference
price has moved. -/
structure Selected (l : Ledger) (id : ℕ) (l' : Ledger) : Prop where
  /-- A symbol that has changed had the position with the id. -/
  changed : ∀ s, l'.positions.get? s ≠ l.positions.get? s →
    ∃ p, l.positions.get? s = some p ∧ p.id = id
  /-- A position that is open was open before, with the id that it has. -/
  open_before : ∀ s p', l'.positions.get? s = some p' →
    ∃ p, l.positions.get? s = some p ∧ p'.id = p.id
  prices_eq : l'.prices = l.prices
  trades_prefix : l.trades <+: l'.trades
  orders_prefix : l.orders <+: l'.orders

theorem Selected.refl (l : Ledger) (id : ℕ) : l.Selected id l where
  changed _ h := absurd rfl h
  open_before _ p' hp' := ⟨p', hp', rfl⟩
  prices_eq := rfl
  trades_prefix := List.prefix_rfl
  orders_prefix := List.prefix_rfl

/-- Where the position with the id is at a symbol, and the symbol keeps it or is flat. -/
theorem Isolated.selected {p : Position} (h : l.Isolated symbol l')
    (hp : l.positions.get? symbol = some p) (hid : p.id = id) (hprices : l'.prices = l.prices)
    (hafter : ∀ p', l'.positions.get? symbol = some p' → p'.id = p.id) : l.Selected id l' where
  changed s hs := by
    by_cases hsymbol : s = symbol
    · exact ⟨p, hsymbol ▸ hp, hid⟩
    · exact absurd (h.get?_other s hsymbol) hs
  open_before s p' hp' := by
    by_cases hsymbol : s = symbol
    · subst hsymbol
      exact ⟨p, hp, hafter p' hp'⟩
    · rw [h.get?_other s hsymbol] at hp'
      exact ⟨p', hp', rfl⟩
  prices_eq := hprices
  trades_prefix := h.trades_prefix
  orders_prefix := h.orders_prefix

/-- A close is for the position that the id leads to, all of it. -/
theorem Consistent.selected_close (hl : l.Consistent) {outcome : Outcome Execution}
    (h : l.close id now = .ok (l', outcome)) :
    l.Selected id l' ∧ ((∀ s p, l.positions.get? s = some p → p.id ≠ id) → l' = l) := by
  rcases close_cases h with ⟨-, rfl, -⟩ | ⟨p, hfound, hplace⟩
  · exact ⟨.refl _ id, fun _ => rfl⟩
  · have hid : p.id = id := by simpa using List.find?_some hfound
    obtain ⟨symbol, hp⟩ := Table.mem_values_iff.mp (List.mem_of_find?_eq_some hfound)
    have hsymbol : p.closing.symbol = symbol := (hl.sound hp).symbol_eq
    refine ⟨?_, fun hunknown => absurd hid (hunknown symbol p hp)⟩
    have hisolated := isolated_place hplace
    rw [hsymbol] at hisolated
    refine hisolated.selected hp hid (prices_place hplace) fun p' hp' => ?_
    -- the order is refused, or leaves nothing of the position
    rcases place_cases hplace with ⟨rfl, -⟩ | ⟨price, hfault, -, hfill⟩
    · rw [Option.some.inj (hp'.symm.trans hp)]
    · rcases fillCounted_cases (quantity_pos_of_fault?_eq_none hfault) hfill with
        hrefused | ⟨_, _, _, hfilled, -⟩
      · rw [hrefused.ledger_eq, hp] at hp'
        rw [Option.some.inj hp']
      · have hmeets := hfilled.meets
        rw [hsymbol, hp] at hmeets
        rw [(hmeets.whole rfl rfl).1] at hp'
        exact nomatch hp'

/-- An exit is set on the position that has the id. -/
theorem selected_setExit {kind : TriggerKind} {outcome : Outcome Position}
    (h : l.setExit id kind price now = (l', outcome)) :
    l.Selected id l' ∧ ((∀ s p, l.positions.get? s = some p → p.id ≠ id) → l' = l) := by
  rcases setExit_cases h with ⟨rfl, -⟩ | ⟨symbol, p, -, hp, hid, rfl, -⟩
  · exact ⟨.refl _ id, fun _ => rfl⟩
  · refine ⟨?_, fun hunknown => absurd hid (hunknown symbol p hp)⟩
    have hisolated := Isolated.insert l symbol (p.withExit kind price now)
    refine (hisolated.trans (.emit _ symbol _)).selected hp hid rfl fun p' hp' => ?_
    have hget : some (p.withExit kind price now) = some p' :=
      ((Table.get?_insert ..).trans (if_pos rfl)).symm.trans hp'
    obtain rfl := Option.some.inj hget
    exact (Position.holding_eq_iff.mp (Position.holding_withExit p kind price now)).1

/-- The id that a turn names. -/
def Turn.id? : Turn → Option ℕ
  | .whole (.close id _) | .whole (.setExit id ..) => some id
  | _ => none

/-- A turn that names an id is about the position with that id, and about nothing if there is
none. -/
theorem Consistent.selected_turn (hl : l.Consistent) (hid : t.id? = some id)
    (h : l.turn t = .ok l') :
    l.Selected id l' ∧ ((∀ s p, l.positions.get? s = some p → p.id ≠ id) → l' = l) := by
  cases t with
  | whole op =>
    cases op with
    | close named now =>
      obtain rfl : named = id := Option.some.inj hid
      obtain ⟨outcome, hclose⟩ := turn_close_eq_ok.mp h
      exact hl.selected_close hclose
    | setExit named kind price now =>
      obtain rfl : named = id := Option.some.inj hid
      obtain ⟨outcome, hset⟩ := turn_setExit_eq_ok.mp h
      exact selected_setExit hset
    | place | cancel | updatePrice => exact nomatch hid
  | mark | finish => exact nomatch hid

/-! ## Turns and runs about one symbol -/

/-- A turn that names the id of a position is about the symbol of the position. -/
theorem Selected.isolated (h : l.Selected id l')
    (hsymbol : ∀ s p, l.positions.get? s = some p → p.id = id → s = symbol) :
    l.Isolated symbol l' where
  get?_other s hs := by
    by_contra hchanged
    obtain ⟨p, hp, hid⟩ := h.changed s hchanged
    exact hs (hsymbol s p hp hid)
  lastPrice?_other s _ := by
    unfold lastPrice?
    rw [h.prices_eq]
  trades_prefix := h.trades_prefix
  orders_prefix := h.orders_prefix

/-- A turn leaves all other symbols than the one that it is about, and all that was recorded. -/
theorem Consistent.isolated_turn (hl : l.Consistent) (hconcerns : t.Concerns l symbol)
    (h : l.turn t = .ok l') : l.Isolated symbol l' := by
  cases t with
  | whole op =>
    cases op with
    | place request now =>
      obtain ⟨outcome, hplace⟩ := turn_place_eq_ok.mp h
      obtain rfl : request.symbol = symbol := hconcerns
      exact isolated_place hplace
    | close id now => exact (hl.selected_turn rfl h).1.isolated hconcerns
    | setExit id kind price now => exact (hl.selected_turn rfl h).1.isolated hconcerns
    | cancel id =>
      obtain rfl := hl.eq_of_turn_cancel h
      exact .refl l' symbol
    | updatePrice s price now =>
      obtain ⟨outcome, hupdate⟩ := turn_updatePrice_eq_ok.mp h
      obtain rfl : s = symbol := hconcerns
      exact hl.isolated_updatePrice hupdate
  | mark s price now =>
    obtain ⟨outcome, hrecord⟩ := turn_mark_eq_ok.mp h
    obtain rfl : s = symbol := hconcerns
    exact isolated_recordPrice hrecord
  | finish trigger now =>
    obtain ⟨outcome, hfinish⟩ := turn_finish_eq_ok.mp h
    obtain rfl : trigger.symbol = symbol := hconcerns
    exact hl.isolated_executeTrigger hfinish

/-- Every turn of a run is about the symbol, in the book that it meets. -/
def Turn.KeepTo (symbol : String) : Ledger → List Turn → Prop
  | _, [] => True
  | l, t :: ts => t.Concerns l symbol ∧ (l.turn t).All fun l => Turn.KeepTo symbol l ts

/-- So does a run of turns that are all about it. -/
theorem Consistent.isolated_turns (hl : l.Consistent) (hkeep : Turn.KeepTo symbol l ts)
    (h : l.turns ts = .ok l') : l.Isolated symbol l' := by
  induction ts generalizing l with
  | nil =>
    obtain rfl : l = l' := pure_eq_ok.mp h
    exact .refl l symbol
  | cons t ts ih =>
    rw [Ledger.turns, List.foldlM_cons, bind_eq_ok] at h
    obtain ⟨l₁, hturn, hrest⟩ := h
    obtain ⟨hconcerns, hlater⟩ := hkeep
    have hl₁ := (hl.moved_turn hturn).consistent hl
    exact (hl.isolated_turn hconcerns hturn).trans (ih hl₁ (hlater l₁ hturn) hrest)

/-- Symbols are isolated from each other.  In every book of a run, a turn about one symbol, whether
it succeeds or not, and so also a run of such turns, leaves the positions of all other symbols with
their marks, their reference prices, and all trades and orders made before.  A turn that names an id
is about the position with that id and no other: it changes nothing if there is none, and otherwise
it leaves that position open under its id, or closed. -/
theorem symbol_isolation (account : AccountSettings) (firstId : Uuid) (listened : Bool)
    (h : (new account firstId listened).turns ts = .ok l) :
    (∀ t symbol l', t.Concerns l symbol → l.turn t = .ok l' → l.Isolated symbol l') ∧
    (∀ later symbol l', Turn.KeepTo symbol l later → l.turns later = .ok l' →
      l.Isolated symbol l') ∧
    ∀ t id l', t.id? = some id → l.turn t = .ok l' →
      l.Selected id l' ∧ ((∀ s p, l.positions.get? s = some p → p.id ≠ id) → l' = l) := by
  have hl : l.Consistent := (consistent_new account firstId listened).turns h
  refine ⟨fun t symbol l' => hl.isolated_turn, fun later symbol l' => hl.isolated_turns, ?_⟩
  intro t id l' hid hturn
  exact hl.selected_turn hid hturn

/-- Positions in two symbols, the first of them with a stop. -/
def twoSymbols : List Turn :=
  [.mark "A" (.lit 100 0) default, .mark "B" (.lit 50 0) default,
    .whole (.place { OrderRequest.market "A" .buy (.lit 2 0) with stopLoss := some (.lit 90 0) }
      default),
    .whole (.place (.market "B" .sell (.lit 3 0)) default)]

/-- A price that stops the first position out leaves the second one, which no price but its own
marks, and closing the second by its id leaves the first. -/
theorem symbol_isolation_twoSymbols : ∃ l l₁ l₂ q,
    (new {} default true).turns twoSymbols = .ok l ∧
    l.turn (.whole (.updatePrice "A" (.lit 80 0) default)) = .ok l₁ ∧
    l.positions.get? "B" = some q ∧ l₁.positions.get? "A" = none ∧
    l₁.positions.get? "B" = some q ∧ l₁.lastPrice? "B" = l.lastPrice? "B" ∧
    l.turn (.whole (.close q.id default)) = .ok l₂ ∧ l₂.positions.get? "B" = none ∧
    l₂.positions.get? "A" = l.positions.get? "A" := by
  have hsome : ((new {} default true).turns twoSymbols).toOption.bind (fun l =>
      (l.turn (.whole (.updatePrice "A" (.lit 80 0) default))).toOption.bind fun l₁ =>
        (l.positions.get? "B").bind fun q =>
          (l.turn (.whole (.close q.id default))).toOption.bind fun l₂ =>
            some ((l₁.positions.get? "A").isNone, (l₂.positions.get? "B").isNone)) =
      some (true, true) := by decide +kernel
  obtain ⟨l, hrun, h⟩ := Calc.exists_eq_ok hsome
  obtain ⟨l₁, hupdate, h⟩ := Calc.exists_eq_ok h
  obtain ⟨q, hq, h⟩ := Option.bind_eq_some_iff.mp h
  obtain ⟨l₂, hclose, h⟩ := Calc.exists_eq_ok h
  obtain ⟨hA, hB⟩ := Prod.mk.inj (Option.some.inj h)
  obtain ⟨hisolated, -, hselected⟩ := symbol_isolation {} default true hrun
  have hconcerns : Turn.Concerns l "A" (.whole (.updatePrice "A" (.lit 80 0) default)) := rfl
  have hupdated := hisolated _ "A" l₁ hconcerns hupdate
  refine ⟨l, l₁, l₂, q, hrun, hupdate, hq, Option.isNone_iff_eq_none.mp hA,
    (hupdated.get?_other "B" (by decide)).trans hq, hupdated.lastPrice?_other "B" (by decide),
    hclose, Option.isNone_iff_eq_none.mp hB, ?_⟩
  -- the position of the first symbol has another id than the second
  obtain ⟨hsel, -⟩ := hselected _ q.id l₂ rfl hclose
  by_contra hchanged
  obtain ⟨p, hp, hid⟩ := hsel.changed "A" hchanged
  have hl : l.Consistent := (consistent_new {} default true).turns hrun
  exact absurd (hl.id_inj hp hq hid) (by decide)

end Ledger

end SimBroker
