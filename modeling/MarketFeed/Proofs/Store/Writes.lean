import MarketFeed.Store
import Mathlib.Data.List.Induction

/-!
# Writes to a store

What one write does to a store, and what runs of writes are. The cutoff of a write is the reading
of its clock less the retention; an entry is fresh if its time lies after that.

* `setCandle_eq_ok`, `setTrade_eq_ok`: a write to a list has a result if and only if its cutoff
  fits into 64 bits; then the new entry stands in front of the older ones that are still fresh.
* `write_frame`: a write leaves every list and ticker alone that it is not about.
* `fresh_after_write_iff`: after a write to a list all older entries are fresh, and all entries
  are if and only if the new one is.
-/

namespace MarketFeed

namespace Store

variable {α : Type}

/-- Does a time lie after the cutoff that a reading of the clock sets? -/
def Fresh (period now time : Int64) : Prop := now.toInt - period.toInt < time.toInt

instance (period now time : Int64) : Decidable (Fresh period now time) :=
  inferInstanceAs (Decidable (_ < _))

/-- Does the cutoff of a reading of the clock fit into 64 bits? -/
def CutoffFits (period now : Int64) : Prop := FitsInt64 (now.toInt - period.toInt)

instance (period now : Int64) : Decidable (CutoffFits period now) :=
  inferInstanceAs (Decidable (FitsInt64 _))

/-! ## One write to a list -/

/-- A table of lists with a new entry in front of one list, without the stale entries behind it. -/
def insertFresh (period now : Int64) (time : α → Int64) (key : String) (item : α)
    (t : Table (List α)) : Table (List α) :=
  t.put key (item :: ((t.get? key).getD []).filter fun a => Fresh period now (time a))

theorem get?_insertFresh (period now : Int64) (time : α → Int64) (key other : String) (item : α)
    (t : Table (List α)) :
    (insertFresh period now time key item t).get? other =
      if other = key then
        some (item :: ((t.get? other).getD []).filter fun a => Fresh period now (time a))
      else t.get? other := by
  unfold insertFresh
  rw [Table.get?_put]
  split
  · subst_vars
    rfl
  · rfl

theorem prependFresh_eq {period now cutoff : Int64} (h : cutoff.toInt = now.toInt - period.toInt)
    (time : α → Int64) (item : α) (list : List α) :
    prependFresh time cutoff item list =
      item :: list.filter fun a => Fresh period now (time a) := by
  unfold prependFresh
  congr 1
  refine List.filter_congr fun a _ => ?_
  rw [decide_eq_decide, Int64.lt_iff_toInt_lt, h]
  rfl

theorem cutoff_eq_ok {s : Store} {now cutoff : Int64} :
    s.cutoff now = .ok cutoff ↔ cutoff.toInt = now.toInt - s.period.toInt :=
  checkedSub_eq_ok

theorem exists_cutoff_iff {s : Store} {now : Int64} :
    (∃ cutoff, s.cutoff now = .ok cutoff) ↔ CutoffFits s.period now :=
  exists_checkedSub_iff

/-- A step that starts with the cutoff has a result if and only if the cutoff fits; then what
follows may be told for the exact cutoff. -/
private theorem cutoff_bind_eq_ok {s s' : Store} {now : Int64} {next : Int64 → Store} {r : Store}
    (hr : ∀ cutoff : Int64, cutoff.toInt = now.toInt - s.period.toInt → next cutoff = r) :
    (s.cutoff now >>= fun cutoff => .ok (next cutoff)) = Except.ok s' ↔
      CutoffFits s.period now ∧ s' = r := by
  rw [bind_eq_ok]
  constructor
  · rintro ⟨cutoff, hc, he⟩
    have hn := hr cutoff (cutoff_eq_ok.mp hc)
    rw [hn] at he
    exact ⟨exists_cutoff_iff.mp ⟨cutoff, hc⟩, (Except.ok.inj he).symm⟩
  · rintro ⟨hf, rfl⟩
    obtain ⟨cutoff, hc⟩ := exists_cutoff_iff.mpr hf
    exact ⟨cutoff, hc, by rw [hr cutoff (cutoff_eq_ok.mp hc)]⟩

theorem setCandle_eq_ok {s s' : Store} {symbol : String} {c : Candle} {now : Int64} :
    s.setCandle symbol c now = .ok s' ↔ CutoffFits s.period now ∧
      s' = { s with candles := insertFresh s.period now Candle.timestamp symbol c s.candles } := by
  refine cutoff_bind_eq_ok fun cutoff h => ?_
  rw [prependFresh_eq h]
  rfl

theorem setTrade_eq_ok {s s' : Store} {t : Trade} {now : Int64} :
    s.setTrade t now = .ok s' ↔ CutoffFits s.period now ∧
      s' = { s with trades := insertFresh s.period now Trade.timestamp t.symbol t s.trades } := by
  refine cutoff_bind_eq_ok fun cutoff h => ?_
  rw [prependFresh_eq h]
  rfl

/-! ## Runs of writes -/

/-- A write; a list takes it at a reading of the clock. -/
inductive Write where
  | ticker (symbol : String) (ticker : Ticker)
  | candle (symbol : String) (candle : Candle) (now : Int64)
  | trade (trade : Trade) (now : Int64)

namespace Write

/-- What a write puts in the place of the ticker of a symbol. -/
def ticker? (symbol : String) : Write → Option Ticker
  | .ticker s t => if s = symbol then some t else none
  | _ => none

/-- What a write adds to the candles of a symbol, and when. -/
def candle? (symbol : String) : Write → Option (Candle × Int64)
  | .candle s c now => if s = symbol then some (c, now) else none
  | _ => none

/-- What a write adds to the trades of a symbol, and when. -/
def trade? (symbol : String) : Write → Option (Trade × Int64)
  | .trade t now => if t.symbol = symbol then some (t, now) else none
  | _ => none

/-- Does the cutoff of a write fit into 64 bits? A ticker has none. -/
def InRange (period : Int64) : Write → Prop
  | .ticker .. => True
  | .candle _ _ now => CutoffFits period now
  | .trade _ now => CutoffFits period now

instance (period : Int64) : (w : Write) → Decidable (w.InRange period)
  | .ticker .. => inferInstanceAs (Decidable True)
  | .candle _ _ now => inferInstanceAs (Decidable (CutoffFits period now))
  | .trade _ now => inferInstanceAs (Decidable (CutoffFits period now))

end Write

/-- Makes a write. -/
def write (s : Store) : Write → Except Fault Store
  | .ticker symbol t => .ok (s.setTicker symbol t)
  | .candle symbol c now => s.setCandle symbol c now
  | .trade t now => s.setTrade t now

/-- Makes writes one after the other. -/
def writeAll (s : Store) (writes : List Write) : Except Fault Store := writes.foldlM write s

/-- A write has a result if and only if its cutoff fits. -/
theorem exists_write_iff {s : Store} {w : Write} :
    (∃ s', s.write w = .ok s') ↔ w.InRange s.period := by
  cases w with
  | ticker symbol t => simp [write, Write.InRange]
  | candle symbol c now => simp [write, Write.InRange, setCandle_eq_ok]
  | trade t now => simp [write, Write.InRange, setTrade_eq_ok]

theorem write_period {s s' : Store} {w : Write} (h : s.write w = .ok s') :
    s'.period = s.period ∧ s'.provider = s.provider := by
  cases w with
  | ticker symbol t =>
    obtain rfl := Except.ok.inj h
    exact ⟨rfl, rfl⟩
  | candle symbol c now =>
    obtain ⟨-, rfl⟩ := setCandle_eq_ok.mp h
    exact ⟨rfl, rfl⟩
  | trade t now =>
    obtain ⟨-, rfl⟩ := setTrade_eq_ok.mp h
    exact ⟨rfl, rfl⟩

theorem writeAll_append {s s' : Store} {ws more : List Write} :
    s.writeAll (ws ++ more) = .ok s' ↔
      ∃ mid, s.writeAll ws = .ok mid ∧ mid.writeAll more = .ok s' := by
  unfold writeAll
  rw [List.foldlM_append, bind_eq_ok]

theorem writeAll_concat {s s' : Store} {ws : List Write} {w : Write} :
    s.writeAll (ws ++ [w]) = .ok s' ↔ ∃ mid, s.writeAll ws = .ok mid ∧ mid.write w = .ok s' := by
  rw [writeAll_append]
  simp [writeAll]

theorem writeAll_period {s s' : Store} {ws : List Write} (h : s.writeAll ws = .ok s') :
    s'.period = s.period ∧ s'.provider = s.provider := by
  induction ws using List.reverseRecOn generalizing s' with
  | nil =>
    obtain rfl := Except.ok.inj h
    exact ⟨rfl, rfl⟩
  | append_singleton ws w ih =>
    obtain ⟨mid, hm, hw⟩ := writeAll_concat.mp h
    obtain ⟨hp, hq⟩ := write_period hw
    exact ⟨hp.trans (ih hm).1, hq.trans (ih hm).2⟩

/-- A run has a result if all of its cutoffs fit. -/
theorem exists_writeAll {s : Store} {ws : List Write} (h : ∀ w ∈ ws, w.InRange s.period) :
    ∃ s', s.writeAll ws = .ok s' := by
  induction ws using List.reverseRecOn with
  | nil => exact ⟨s, rfl⟩
  | append_singleton ws w ih =>
    obtain ⟨mid, hm⟩ := ih fun w hw => h w (List.mem_append_left _ hw)
    have hw : w.InRange mid.period := by
      rw [(writeAll_period hm).1]
      exact h w (by simp)
    obtain ⟨s', hs⟩ := exists_write_iff.mpr hw
    exact ⟨s', writeAll_concat.mpr ⟨mid, hm, hs⟩⟩

/-! ## What a write leaves alone -/

theorem ticker_congr {s s' : Store} {symbol : String} (hp : s'.provider = s.provider)
    (h : s'.tickers.get? symbol = s.tickers.get? symbol) : s'.ticker symbol = s.ticker symbol := by
  unfold ticker
  rw [h, hp]

theorem candlesOf_congr {s s' : Store} {symbol : String} (hp : s'.provider = s.provider)
    (h : s'.candles.get? symbol = s.candles.get? symbol) :
    s'.candlesOf symbol = s.candlesOf symbol := by
  unfold candlesOf
  rw [h, hp]

theorem tradesOf_congr {s s' : Store} {symbol : String} (hp : s'.provider = s.provider)
    (h : s'.trades.get? symbol = s.trades.get? symbol) :
    s'.tradesOf symbol = s.tradesOf symbol := by
  unfold tradesOf
  rw [h, hp]

/-- **Frame of a write.** Whatever a write is not about answers as before. -/
theorem write_frame {s s' : Store} {w : Write} (h : s.write w = .ok s') (symbol : String) :
    (w.ticker? symbol = none → s'.ticker symbol = s.ticker symbol) ∧
      (w.candle? symbol = none → s'.candlesOf symbol = s.candlesOf symbol) ∧
      (w.trade? symbol = none → s'.tradesOf symbol = s.tradesOf symbol) := by
  cases w with
  | ticker key t =>
    obtain rfl := Except.ok.inj h
    refine ⟨fun hn => ticker_congr rfl (Table.get?_put_of_ne _ ?_ _), fun _ => rfl, fun _ => rfl⟩
    rintro rfl
    simp [Write.ticker?] at hn
  | candle key c now =>
    obtain ⟨-, rfl⟩ := setCandle_eq_ok.mp h
    refine ⟨fun _ => rfl, fun hn => candlesOf_congr rfl (Table.get?_put_of_ne _ ?_ _), fun _ => rfl⟩
    rintro rfl
    simp [Write.candle?] at hn
  | trade t now =>
    obtain ⟨-, rfl⟩ := setTrade_eq_ok.mp h
    refine ⟨fun _ => rfl, fun _ => rfl, fun hn => tradesOf_congr rfl (Table.get?_put_of_ne _ ?_ _)⟩
    rintro rfl
    simp [Write.trade?] at hn

/-! ## Fresh entries -/

/-- The list of a key after a write: the new entry, then older entries that are all fresh. -/
theorem exists_get?_insertFresh (period now : Int64) (time : α → Int64) (key : String) (item : α)
    (t : Table (List α)) :
    ∃ older, (insertFresh period now time key item t).get? key = some (item :: older) ∧
      (∀ a ∈ older, Fresh period now (time a)) ∧
      ((∀ a ∈ item :: older, Fresh period now (time a)) ↔ Fresh period now (time item)) := by
  have hfresh : ∀ a ∈ ((t.get? key).getD []).filter (fun a => Fresh period now (time a)),
      Fresh period now (time a) := fun a ha => of_decide_eq_true (List.mem_filter.mp ha).2
  refine ⟨_, by rw [get?_insertFresh, if_pos rfl], hfresh, ?_⟩
  rw [List.forall_mem_cons]
  exact and_iff_left hfresh

/-- **The window after a write.** A write to a list whose cutoff fits has a result. In it the new
entry stands first and all older entries are fresh; so the whole list is fresh if and only if the
new entry is. -/
theorem fresh_after_write_iff (s : Store) (symbol : String) (c : Candle) (t : Trade) (now : Int64)
    (h : CutoffFits s.period now) :
    (∃ s' older, s.setCandle symbol c now = .ok s' ∧ s'.candlesOf symbol = .ok (c :: older) ∧
      (∀ a ∈ older, Fresh s.period now a.timestamp) ∧
      ((∀ a ∈ c :: older, Fresh s.period now a.timestamp) ↔ Fresh s.period now c.timestamp)) ∧
    (∃ s' older, s.setTrade t now = .ok s' ∧ s'.tradesOf t.symbol = .ok (t :: older) ∧
      (∀ a ∈ older, Fresh s.period now a.timestamp) ∧
      ((∀ a ∈ t :: older, Fresh s.period now a.timestamp) ↔ Fresh s.period now t.timestamp)) := by
  constructor
  · obtain ⟨older, hget, hrest⟩ :=
      exists_get?_insertFresh s.period now Candle.timestamp symbol c s.candles
    refine ⟨_, older, setCandle_eq_ok.mpr ⟨h, rfl⟩, ?_, hrest⟩
    simp only [candlesOf, hget]
  · obtain ⟨older, hget, hrest⟩ :=
      exists_get?_insertFresh s.period now Trade.timestamp t.symbol t s.trades
    refine ⟨_, older, setTrade_eq_ok.mpr ⟨h, rfl⟩, ?_, hrest⟩
    simp only [tradesOf, hget]

/-- A candle that is older than the retention when it arrives stands in its list all the same. -/
theorem fresh_after_write_iff_late :
    CutoffFits (Store.new .osmosisV2 900000).period 10000000 ∧
      ∃ s' older,
        (Store.new .osmosisV2 900000).setCandle "ATOMUSDT" ⟨.zero, .zero, 0⟩
          10000000 = .ok s' ∧
        s'.candlesOf "ATOMUSDT" = .ok (⟨.zero, .zero, 0⟩ :: older) ∧
        ¬ ∀ a ∈ (⟨.zero, .zero, 0⟩ : Candle) :: older,
          Fresh (Store.new .osmosisV2 900000).period 10000000 a.timestamp := by
  have hfits : CutoffFits (Store.new .osmosisV2 900000).period 10000000 := by decide
  obtain ⟨⟨s', older, hset, hget, -, hall⟩, -⟩ :=
    fresh_after_write_iff (Store.new .osmosisV2 900000) "ATOMUSDT"
      ⟨.zero, .zero, 0⟩ ⟨"", 0, .zero, .zero⟩ 10000000 hfits
  exact ⟨hfits, s', older, hset, hget, by rw [hall]; decide⟩

/-- Not every entry of a list is fresh after a write to it, however the store came about. -/
theorem not_all_fresh_after_write :
    ¬ ∀ (provider : Provider) (millis : Nat) (writes : List Write) (s s' : Store)
      (symbol : String) (c : Candle) (now : Int64) (list : List Candle),
      0 < (Int64.ofNat millis).toInt → (Store.new provider millis).writeAll writes = .ok s →
      CutoffFits s.period now → s.setCandle symbol c now = .ok s' →
      s'.candlesOf symbol = .ok list → ∀ a ∈ list, Fresh s.period now a.timestamp := by
  intro h
  have hfits : CutoffFits (Store.new .osmosisV2 900000).period 10000000 := by decide
  have hstale := h .osmosisV2 900000 [] (Store.new .osmosisV2 900000) _ "ATOMUSDT"
    ⟨.zero, .zero, 0⟩ 10000000 _ (by decide) rfl hfits
    (setCandle_eq_ok.mpr ⟨hfits, rfl⟩) rfl _ (List.mem_cons_self ..)
  revert hstale
  decide

end Store

end MarketFeed
