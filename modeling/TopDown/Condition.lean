import TopDown.Context
import TopDown.Verdict

/-!
# Conditions

A condition reaches a verdict about a context. Conditions have names; in its verdict a condition
heeds the threshold that the context carries for its name.

The library knows fifteen conditions from the start (`TopDown.Condition.builtins`): on momentum,
trend strength, volume, liquidity, spread and volatility, and on the place of the price beside its
averages.
-/

namespace TopDown

/-- A condition: how it reaches its verdict. -/
abbrev Condition := Context → Verdict

namespace Condition

/-! ### A number against a threshold -/

/-- The first known of some fields compares with the threshold of the condition. -/
def onField (name : String) (fields : List String) (default : Float)
    (compare : Float → Float → Bool) : Condition := fun c =>
  let threshold := c.thresholdOr name default
  match c.firstNumber fields with
  | some x => .decided (compare x threshold) (Json.ofFloat x) (some threshold)
  | none => .undecided (fields.headD "" ++ " unavailable")

/-- The conditions that look at one number, with their names. -/
def onFields : List (String × Condition) :=
  let entry (name : String) (fields : List String) (default : Float)
      (compare : Float → Float → Bool) : String × Condition :=
    (name, onField name fields default compare)
  [entry "rsi_bullish" ["rsi"] 50.0 (fun x t => x > t),
   entry "rsi_bearish" ["rsi"] 50.0 (fun x t => x < t),
   entry "macd_hist_positive" ["macd_hist", "macd.hist"] 0.0 (fun x t => x > t),
   entry "macd_hist_negative" ["macd_hist", "macd.hist"] 0.0 (fun x t => x < t),
   entry "adx_trending" ["adx"] 20.0 (fun x t => x >= t),
   entry "volume_ratio_ok" ["volume_ratio"] 1.0 (fun x t => x >= t),
   entry "liquidity_ok" ["liquidity", "quote_volume_24h"] 1000000.0 (fun x t => x >= t),
   entry "spread_ok" ["spread_bps"] 10.0 (fun x t => x <= t)]

/-! ### Volatility and averages -/

/-- The average true range is at most a fraction of the price. -/
def atrBelow (name : String) : Condition := fun c =>
  let threshold := c.thresholdOr name 0.03
  let fraction :=
    match c.number "atr_pct" with
    | some x => some x
    | none => do
      let close ← (c.number "close").filter (· > 0.0)
      let atr ← c.number "atr"
      return atr / close
  match fraction with
  | some x => .decided (x <= threshold) (Json.ofFloat x) (some threshold)
  | none => .undecided "atr unavailable"

/-- The fast average is above or below the slow one, by more than a fraction of the slow one. -/
def averagesAligned (name : String) (above : Bool) : Condition := fun c =>
  let least := c.thresholdOr name 0.0
  let undecided := Verdict.undecided "ema fast/slow unavailable"
  match c.firstNumber ["ema_fast", "ema.20"], c.firstNumber ["ema_slow", "ema.50"] with
  | some fast, some slow =>
    if slow == 0.0 then undecided
    else
      let gap := (fast - slow) / slow
      .decided (if above then gap > least else -gap > least) (Json.ofFloat gap) (some least)
  | _, _ => undecided

/-- The price is above or below an average, whose period is the threshold of the condition. -/
def priceBesideAverage (name : String) (above : Bool) : Condition := fun c =>
  let period := (c.thresholdOr name 200.0).round.toInt64.toInt
  let shown := toString period
  match c.number "close", c.firstNumber ["ema." ++ shown, "ema_" ++ shown] with
  | some close, some average =>
    (Verdict.decided (if above then close > average else close < average) (Json.ofFloat close)
      (some average)).withDetail "period" (.int period)
  | _, _ => .undecided ("close or ema " ++ shown ++ " unavailable")

/-- The price is above or below the average weighted by volume. -/
def priceBesideVwap (above : Bool) : Condition := fun c =>
  match c.number "close", c.number "vwap" with
  | some close, some vwap =>
    .decided (if above then close > vwap else close < vwap) (Json.ofFloat close) (some vwap)
  | _, _ => .undecided "close or vwap unavailable"

/-- The conditions that are known from the start, with their names. -/
def builtins : List (String × Condition) :=
  onFields ++
    [("atr_pct_max", atrBelow "atr_pct_max"),
     ("ema_bullish_alignment", averagesAligned "ema_bullish_alignment" true),
     ("ema_bearish_alignment", averagesAligned "ema_bearish_alignment" false),
     ("close_above_ema", priceBesideAverage "close_above_ema" true),
     ("close_below_ema", priceBesideAverage "close_below_ema" false),
     ("close_above_vwap", priceBesideVwap true),
     ("close_below_vwap", priceBesideVwap false)]

end Condition

end TopDown
