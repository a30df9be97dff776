import SimBroker.Market.Event
import SimBroker.Proofs.Json.Codec

/-!
# Market events read back

Prices, candles and signals are read back, alone and inside an event.  An event names its case
`kind`, which is the name of no field of a case.

## Main results

* `PriceTick.run?_read`, `Candle.run?_read`, `Signal.run?_read`: fields that were written
-/

namespace SimBroker

open Json (Atom LawfulCodec Parts Uncounted mapDecimals str_ne_null tagged_cons_map)

variable {place : Json.Place}

/-! ## Signals -/

instance : Atom Direction := ⟨fun _ d => by cases d <;> rfl, fun d => str_ne_null d.name⟩

instance : Parts Signal where
  mapDecimals f s :=
    { s with
      entryPrice := f s.entryPrice
      stopLoss := f s.stopLoss
      takeProfit := f s.takeProfit
      strength := f s.strength
      atr := s.atr.map f }

instance : Uncounted Signal := ⟨fun _ => trivial⟩

theorem Signal.run?_read (s : Signal) :
    (Json.Fields.named s.members).run? read place = some (mapDecimals Decimal.plain s) := by
  simp [members, read]
  rfl

instance : LawfulCodec Signal where
  mapDecimals_comp f g s := by simp [mapDecimals]
  read?_encode _ s _ := s.run?_read

/-! ## Prices and candles -/

instance : Parts PriceTick where
  mapDecimals f t := { t with price := f t.price }

instance : Uncounted PriceTick := ⟨fun _ => trivial⟩

theorem PriceTick.run?_read (t : PriceTick) :
    (Json.Fields.named t.members).run? read place = some (mapDecimals Decimal.plain t) := by
  simp [members, read]
  rfl

instance : LawfulCodec PriceTick where
  mapDecimals_comp _ _ _ := rfl
  read?_encode _ t _ := t.run?_read

instance : Parts Candle where
  mapDecimals f c :=
    { c with
      opening := f c.opening
      high := f c.high
      low := f c.low
      closing := f c.closing
      volume := f c.volume }

instance : Uncounted Candle := ⟨fun _ => trivial⟩

theorem Candle.run?_read (c : Candle) :
    (Json.Fields.named c.members).run? read place = some (mapDecimals Decimal.plain c) := by
  simp [members, read]
  rfl

instance : LawfulCodec Candle where
  mapDecimals_comp _ _ _ := rfl
  read?_encode _ c _ := c.run?_read

/-! ## Events -/

instance : Parts MarketEvent where
  mapDecimals f
    | .price t => .price (mapDecimals f t)
    | .candle c => .candle (mapDecimals f c)
    | .signal s => .signal (mapDecimals f s)

instance : Uncounted MarketEvent := ⟨fun _ => trivial⟩

instance : LawfulCodec MarketEvent where
  mapDecimals_comp f g e := by cases e <;> simp [mapDecimals]
  read?_encode _ e _ := by
    cases e with
    | price t =>
      exact tagged_cons_map (f := MarketEvent.price) (by simp [PriceTick.members]) rfl t.run?_read
    | candle c =>
      exact tagged_cons_map (f := MarketEvent.candle) (by simp [Candle.members]) rfl c.run?_read
    | signal s =>
      exact tagged_cons_map (f := MarketEvent.signal) (by simp [Signal.members]) rfl s.run?_read

end SimBroker
