import SimBroker.Proofs.Ledger.Interleaving

/-!
# The entries of a position

The trades that have built an open position are those in it on its entry side.  A turn that places
no order of its own adds none to any position, because what it fills closes a whole position.  An
order for a symbol without a position is the first entry of the position that it opens.

## Main definitions

* `entriesOf`: the trades that have built a position
* `Subdued`: a quiet change, or an order for all of a position
* `EntriesAtMost`: no position was built by more than so many entries

## Main results

* `Consistent.subdued_turn`: what a turn does that places no order
* `EntriesAtMost.subdued`, `EntriesAtMost.opens`: the entries stay within their number
-/

namespace SimBroker

/-- An order for a symbol without a position makes one trade. -/
theorem Meets.length_of_flat {order : Order} {request : OrderRequest} {price commission : Decimal}
    {now : Instant} {newId : ℕ} {legs : List Leg} {after : Option Position}
    (h : Meets order request price commission now newId none legs after) : legs.length = 1 := by
  cases h
  rfl

namespace Ledger

variable {l l' : Ledger} {request : OrderRequest} {price notional commission : Decimal}
  {now : Instant} {legs : List Leg} {n : ℕ}

/-- The trades that have built a position. -/
def entriesOf (l : Ledger) (p : Position) : List Trade :=
  (l.tradesOf p.id).filter fun t => t.side = p.side.entrySide

/-! ## Turns without orders of their own -/

/-- A turn places an order. -/
def Turn.Places : Turn → Prop
  | .whole (.place ..) => True
  | _ => False

/-- A book after a quiet change, or after an order for all of a position following one. -/
inductive Subdued (l l' : Ledger) : Prop
  | quiet (quiet : l.Quiet l')
  | exit {l₁ : Ledger} {request : OrderRequest} {price notional commission : Decimal}
      {now : Instant} {legs : List Leg} (quiet : l.Quiet l₁) (exits : l₁.Exits request)
      (filled : l₁.Filled request price notional commission now legs l')

theorem Consistent.subdued_turn (hl : l.Consistent) {t : Turn} (ht : ¬ t.Places)
    (h : l.turn t = .ok l') : l.Subdued l' := by
  cases t with
  | whole op =>
    simp only [turn, Calc.bind_eq_ok, Calc.pure_eq_ok] at h
    obtain ⟨⟨l₁, answer⟩, hop, rfl⟩ := h
    cases hl.step_cases hop with
    | quiet quiet _ => exact .quiet quiet
    | filled quiet fillOf_eq _ _ filled _ =>
      rcases hl.exits_of_fillOf fillOf_eq with ⟨now, rfl, -⟩ | hexits
      · exact absurd trivial ht
      · exact .exit quiet hexits filled
  | mark symbol price now =>
    obtain ⟨outcome, hrecord⟩ := turn_mark_eq_ok.mp h
    exact .quiet (quiet_recordPrice hrecord)
  | finish trigger now =>
    obtain ⟨outcome, hfinish⟩ := turn_finish_eq_ok.mp h
    rcases hl.executeTrigger_cases hfinish with
      rfl | ⟨p, latest, kind, hlive, rfl | ⟨_, _, _, hfilled⟩⟩
    · exact .quiet (.refl _)
    · exact .quiet (.emit _ _)
    · have hexits : l.Exits (exitRequest p kind) := hl.exits_closing hlive.get?_eq
      exact .exit (.emit _ _) hexits hfilled

/-! ## Trades have ids that were given -/

/-- Every trade is in a position whose id was given. -/
def TradesGiven (l : Ledger) : Prop :=
  ∀ t ∈ l.trades, ∀ id ∈ t.positionId, id < l.nextPositionId

theorem TradesGiven.filled (hgiven : l.TradesGiven) (hl : l.Consistent)
    (h : l.Filled request price notional commission now legs l') : l'.TradesGiven := by
  intro t ht id hid
  rw [h.trades_eq, List.mem_append] at ht
  rcases ht with ht | ht
  · exact (hgiven t ht id hid).trans_le h.nextPositionId_le
  · obtain ⟨leg, hleg, rfl⟩ := List.mem_map.mp ht
    -- the position that is met has an id that was given, and a new one has the next
    rcases h.meets.positionId_eq hleg with ⟨p, hp, heq⟩ | ⟨heq, hcount⟩
    · obtain rfl : p.id = id := Option.some.inj (heq.symm.trans hid)
      exact (hl.sound hp).id_lt.trans_le h.nextPositionId_le
    · obtain rfl : l.nextPositionId = id := Option.some.inj (heq.symm.trans hid)
      rw [h.nextPositionId_eq, hcount]
      exact Nat.lt_succ_self _

theorem TradesGiven.tradesOf_eq_nil (hgiven : l.TradesGiven) {id : ℕ}
    (hid : l.nextPositionId ≤ id) : l.tradesOf id = [] := by
  refine List.filter_eq_nil_iff.mpr fun t ht heq => ?_
  have := hgiven t ht id (of_decide_eq_true heq)
  omega

/-! ## The number of entries -/

/-- No open position was built by more than `n` entries. -/
structure EntriesAtMost (n : ℕ) (l : Ledger) : Prop where
  given : l.TradesGiven
  length_le : ∀ {s p}, l.positions.get? s = some p → (l.entriesOf p).length ≤ n

namespace EntriesAtMost

theorem quiet (hn : EntriesAtMost n l) (h : l.Quiet l') : EntriesAtMost n l' where
  given := by
    rw [TradesGiven, h.trades_eq, h.nextPositionId_eq]
    exact hn.given
  length_le hp' := by
    obtain ⟨p, hp, hholding⟩ := h.get?_eq_some hp'
    obtain ⟨hid, -, hside, -⟩ := Position.holding_eq_iff.mp hholding
    rw [entriesOf, tradesOf, h.trades_eq, hid, hside]
    exact hn.length_le hp

/-- An order leaves the entries of the positions of other symbols. -/
theorem length_le_other (hn : EntriesAtMost n l) (hl : l.Consistent)
    (h : l.Filled request price notional commission now legs l') {s : String} {p : Position}
    (hs : s ≠ request.symbol) (hp : l'.positions.get? s = some p) :
    (l'.entriesOf p).length ≤ n := by
  rw [h.get?_other s hs] at hp
  have htrades : l'.tradesOf p.id = l.tradesOf p.id := by
    refine h.tradesOf_eq (hl.sound hp).id_lt fun q hq hid => hs ?_
    exact hl.id_inj hp hq hid.symm
  rw [entriesOf, htrades]
  exact hn.length_le hp

/-- An order for all of a position adds an entry to none. -/
theorem subdued (hn : EntriesAtMost n l) (hl : l.Consistent) (h : l.Subdued l') :
    EntriesAtMost n l' := by
  cases h with
  | quiet quiet => exact hn.quiet quiet
  | @exit l₁ request _ _ _ _ _ quiet exits filled =>
    have hn₁ := hn.quiet quiet
    have hl₁ := hl.quiet quiet
    refine ⟨hn₁.given.filled hl₁ filled, fun {s p'} hp' => ?_⟩
    by_cases hs : s = request.symbol
    · obtain ⟨p, hp, hside, hquantity⟩ := exits
      -- the symbol has no position any more
      have hmeets := filled.meets
      rw [hp] at hmeets
      rw [hs, (hmeets.whole hside hquantity).1] at hp'
      exact nomatch hp'
    · exact hn₁.length_le_other hl₁ filled hs hp'

/-- An order for a symbol without a position is the only entry of the position that it opens. -/
theorem opens (hn : EntriesAtMost n l) (hl : l.Consistent) (hpos : 1 ≤ n)
    (hflat : l.positions.get? request.symbol = none)
    (h : l.Filled request price notional commission now legs l') : EntriesAtMost n l' := by
  refine ⟨hn.given.filled hl h, fun {s p'} hp' => ?_⟩
  by_cases hs : s = request.symbol
  · subst hs
    have hmeets := h.meets
    rw [hflat] at hmeets
    rcases hmeets.old_or_new hp' with ⟨p, hp, -⟩ | ⟨hid, -⟩
    · exact nomatch hp
    · -- no trade of before has the new id, and the order makes one trade
      calc (l'.entriesOf p').length ≤ (l'.tradesOf p'.id).length := List.length_filter_le _ _
        _ = (l.tradesOf p'.id).length +
            ((legs.map Leg.trade).filter fun t => t.positionId = some p'.id).length := by
          rw [tradesOf, h.trades_eq, List.filter_append, List.length_append, tradesOf]
        _ ≤ 0 + (legs.map Leg.trade).length := by
          rw [hn.given.tradesOf_eq_nil hid.ge]
          exact Nat.add_le_add_left (List.length_filter_le _ _) 0
        _ ≤ n := by rwa [Nat.zero_add, List.length_map, hmeets.length_of_flat]
  · exact hn.length_le_other hl h hs hp'

/-- Turns that place no order of their own add an entry to no position. -/
theorem turns (hn : EntriesAtMost n l) (hl : l.Consistent) {ts : List Turn}
    (hts : ∀ t ∈ ts, ¬ t.Places) (h : l.turns ts = .ok l') : EntriesAtMost n l' :=
  (hl.turns_induction hn (fun t ht _ _ hl hn hturn =>
    hn.subdued hl (hl.subdued_turn (hts t ht) hturn)) h).2

/-- An order that is placed for a symbol without a position leaves the entries within their
number. -/
theorem place (hn : EntriesAtMost n l) (hl : l.Consistent) (hpos : 1 ≤ n)
    (hflat : l.positions.get? request.symbol = none)
    (h : l.turn (.whole (.place request now)) = .ok l') : EntriesAtMost n l' := by
  simp only [turn, Calc.bind_eq_ok, Calc.pure_eq_ok] at h
  obtain ⟨⟨l₁, answer⟩, hop, rfl⟩ := h
  cases hl.step_cases hop with
  | quiet quiet _ => exact hn.quiet quiet
  | filled quiet fillOf_eq _ _ filled _ =>
    rw [fillOf] at fillOf_eq
    obtain ⟨rfl, rfl⟩ := fillOfRequest_eq_some fillOf_eq
    exact hn.opens hl hpos hflat filled

theorem new (n : ℕ) (account : AccountSettings) (firstId : Uuid) (listened : Bool) :
    EntriesAtMost n (Ledger.new account firstId listened) :=
  ⟨List.forall_mem_nil _, fun hp => absurd hp (Option.some_ne_none _).symm⟩

end EntriesAtMost

end Ledger

end SimBroker
