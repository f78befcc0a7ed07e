import MarketFeed.Candles
import Mathlib.Data.List.Chain
import Mathlib.Data.List.Forall2

/-!
# Windows

The windows that trades in the order of their times are cut into, told apart from the sums that go
into their candles.

* `windows`: the trades of each window. `windows_isCut` says what makes them windows.
* `candles_of_ofTrades`: if trades have candles, then these are the candles of their windows.
* `exists_ofTrades_iff`: trades whose times lie close together have candles if and only if the
  sizes in each window have a sum.
-/

namespace MarketFeed.Candles

/-! ## Cutting trades -/

/-- Is a trade early enough for a window that opened at a time? -/
def Within (start : Int64) (t : Trade) : Prop := t.timestamp.toInt - start.toInt ≤ windowMillis

instance (start : Int64) (t : Trade) : Decidable (Within start t) :=
  inferInstanceAs (Decidable (_ ≤ _))

/-- The trades that an open window still takes, and the windows behind it. -/
def cutOff (start : Int64) : List Trade → List Trade × List (List Trade)
  | [] => ([], [])
  | t :: rest =>
    if Within start t then (t :: (cutOff start rest).1, (cutOff start rest).2)
    else ([], (t :: (cutOff t.timestamp rest).1) :: (cutOff t.timestamp rest).2)

/-- The windows of trades in the order of their times. -/
def windows : List Trade → List (List Trade)
  | [] => []
  | t :: rest => (t :: (cutOff t.timestamp rest).1) :: (cutOff t.timestamp rest).2

/-- Lists of trades are the windows of trades: nothing is lost, a window holds its first trade and
those within a minute of it, and the next window opens later than that. -/
structure IsCut (trades : List Trade) (ws : List (List Trade)) : Prop where
  flatten : ws.flatten = trades
  nonempty : ∀ w ∈ ws, w ≠ []
  within : ∀ w ∈ ws, ∀ a ∈ w.head?, ∀ t ∈ w, Within a.timestamp t
  later : ws.IsChain fun w next => ∀ a ∈ w.head?, ∀ b ∈ next.head?, ¬ Within a.timestamp b

theorem IsCut.eq_nil_iff {trades : List Trade} {ws : List (List Trade)} (h : IsCut trades ws) :
    ws = [] ↔ trades = [] := by
  rw [← h.flatten, List.flatten_eq_nil_iff]
  constructor
  · rintro rfl
    simp
  · intro hnone
    exact List.eq_nil_iff_forall_not_mem.mpr fun w hw => h.nonempty w hw (hnone w hw)

theorem within_self (t : Trade) : Within t.timestamp t := by
  unfold Within windowMillis
  omega

theorem windows_cons_isCut (first : Trade) (rest : List Trade) :
    IsCut (first :: rest) (windows (first :: rest)) := by
  simp only [windows]
  induction rest generalizing first with
  | nil =>
    refine ⟨rfl, by simp [cutOff], ?_, .singleton _⟩
    simp [cutOff, within_self]
  | cons t rest ih =>
    by_cases hin : Within first.timestamp t
    · obtain ⟨hflatten, hnonempty, hwithin, hlater⟩ := ih first
      obtain ⟨hfirst, hrest⟩ := List.forall_mem_cons.mp hwithin
      simp only [cutOff, if_pos hin]
      refine ⟨by simpa using hflatten, by simpa using hnonempty, ?_, ?_⟩
      · refine List.forall_mem_cons.mpr ⟨?_, hrest⟩
        simpa [hin] using hfirst
      · rw [List.isChain_cons] at hlater ⊢
        exact hlater
    · obtain ⟨hflatten, hnonempty, hwithin, hlater⟩ := ih t
      simp only [cutOff, if_neg hin]
      refine ⟨by simpa using hflatten, by simpa using hnonempty, ?_, ?_⟩
      · refine List.forall_mem_cons.mpr ⟨?_, hwithin⟩
        simp [within_self]
      · rw [List.isChain_cons]
        exact ⟨by simpa using hin, hlater⟩

theorem windows_isCut (trades : List Trade) : IsCut trades (windows trades) := by
  cases trades with
  | nil => exact ⟨rfl, by simp [windows], by simp [windows], .nil⟩
  | cons t rest => exact windows_cons_isCut t rest

/-! ## The candle of a window -/

/-- The sum of the sizes of trades, from the first one on. -/
def volume? : List Trade → Option Decimal
  | [] => none
  | t :: rest => rest.foldlM (fun volume t => volume.add? t.size) t.size

/-- The candle of the trades of a window: the price and the time of the last one, and the volume. -/
def candle? (w : List Trade) : Option Candle := do
  let last ← w.getLast?
  let volume ← volume? w
  some ⟨last.price, volume, last.timestamp⟩

theorem candle?_eq_some {w : List Trade} {c : Candle} :
    candle? w = some c ↔ ∃ last, w.getLast? = some last ∧ volume? w = some c.volume ∧
      c.price = last.price ∧ c.timestamp = last.timestamp := by
  simp only [candle?, Option.bind_eq_bind, Option.bind_eq_some_iff]
  constructor
  · rintro ⟨last, hlast, volume, hvolume, hc⟩
    obtain rfl := Option.some.inj hc
    exact ⟨last, hlast, hvolume, rfl, rfl⟩
  · rintro ⟨last, hlast, hvolume, hprice, htime⟩
    exact ⟨last, hlast, c.volume, hvolume, by rw [← hprice, ← htime]⟩

theorem candle?_isSome {w : List Trade} : (candle? w).isSome ↔ (volume? w).isSome := by
  cases w with
  | nil => simp [candle?, volume?]
  | cons t rest => cases h : volume? (t :: rest) <;> simp [candle?, List.getLast?_cons, h]

theorem volume?_append {taken : List Trade} {v : Decimal} (h : volume? taken = some v)
    (more : List Trade) :
    volume? (taken ++ more) = more.foldlM (fun volume t => volume.add? t.size) v := by
  cases taken with
  | nil => cases h
  | cons t rest =>
    simp only [volume?, List.cons_append, List.foldlM_append] at h ⊢
    rw [h]
    rfl

/-- An open window has taken some trades. -/
structure Window.Took (w : Window) (taken : List Trade) : Prop where
  start : taken.head?.map (·.timestamp) = some w.start
  candle : candle? taken = some w.candle

theorem Window.open_took (t : Trade) : (Window.open t).Took [t] := ⟨rfl, rfl⟩

theorem Window.add_eq_ok {w w' : Window} {t : Trade} :
    w.add t = .ok w' ↔ ∃ volume, w.volume.add? t.size = some volume ∧
      w' = { w with price := t.price, volume := volume, last := t.timestamp } := by
  unfold Window.add
  cases w.volume.add? t.size with
  | none => simp
  | some volume => simp [eq_comm]

theorem Window.Took.add {w w' : Window} {taken : List Trade} {t : Trade} (h : w.Took taken)
    (hadd : w.add t = .ok w') : w'.start = w.start ∧ w'.Took (taken ++ [t]) := by
  obtain ⟨last, hlast, hvolume, -, -⟩ := candle?_eq_some.mp h.candle
  obtain ⟨volume, hsum, rfl⟩ := Window.add_eq_ok.mp hadd
  refine ⟨rfl, ?_, candle?_eq_some.mpr ⟨t, by simp, ?_, rfl, rfl⟩⟩
  · cases taken with
    | nil => cases hlast
    | cons a rest => exact h.start
  · rw [volume?_append hvolume]
    simpa [Window.candle] using hsum

/-- A window that has a candle with more trades takes the first of them. -/
theorem Window.Took.exists_add {w : Window} {taken more : List Trade} {t : Trade} {c : Candle}
    (h : w.Took taken) (hc : candle? (taken ++ t :: more) = some c) : ∃ w', w.add t = .ok w' := by
  obtain ⟨-, -, hvolume, -, -⟩ := candle?_eq_some.mp h.candle
  obtain ⟨-, -, hall, -, -⟩ := candle?_eq_some.mp hc
  rw [volume?_append hvolume, List.foldlM_cons, Option.bind_eq_bind,
    Option.bind_eq_some_iff] at hall
  obtain ⟨volume, hsum, -⟩ := hall
  exact ⟨_, Window.add_eq_ok.mpr ⟨volume, hsum, rfl⟩⟩

/-! ## The candles of trades -/

/-- Cutting goes on behind a trade if its age fits into 64 bits. -/
theorem cut_cons {w : Window} {t : Trade} {rest : List Trade} {candles : List Candle} :
    cut w (t :: rest) = .ok candles ↔ FitsInt64 (t.timestamp.toInt - w.start.toInt) ∧
      if Within w.start t then ∃ w', w.add t = .ok w' ∧ cut w' rest = .ok candles
      else ∃ later, cut (Window.open t) rest = .ok later ∧ w.candle :: later = candles := by
  simp only [cut, bind_eq_ok]
  rw [← exists_checkedSub_iff, ← exists_and_right]
  refine exists_congr fun age => and_congr_right fun hage => ?_
  have hwithin : Within w.start t ↔ age.toInt ≤ windowMillis := by
    rw [checkedSub_eq_ok.mp hage]
    rfl
  by_cases hin : Within w.start t
  · rw [if_pos hin, if_pos (hwithin.mp hin), bind_eq_ok]
  · rw [if_neg hin, if_neg (mt hwithin.mpr hin), bind_eq_ok]
    simp only [Except.ok.injEq]

/-- The candles that are cut from an open window on are its own and those of the windows behind. -/
theorem candles_of_cut {w : Window} {taken rest : List Trade} {candles : List Candle}
    (htook : w.Took taken) (h : cut w rest = .ok candles) :
    List.Forall₂ (candle? · = some ·)
      ((taken ++ (cutOff w.start rest).1) :: (cutOff w.start rest).2)
      candles := by
  induction rest generalizing w taken candles with
  | nil =>
    obtain rfl := Except.ok.inj h
    simpa [cutOff] using htook.candle
  | cons t rest ih =>
    obtain ⟨-, h⟩ := cut_cons.mp h
    by_cases hin : Within w.start t
    · rw [if_pos hin] at h
      obtain ⟨w', hadd, hcut⟩ := h
      obtain ⟨hstart, htook'⟩ := htook.add hadd
      simpa [cutOff, hin, hstart] using ih htook' hcut
    · rw [if_neg hin] at h
      obtain ⟨later, hlater, rfl⟩ := h
      simp only [cutOff, if_neg hin, List.append_nil]
      exact .cons htook.candle (ih (Window.open_took t) hlater)

/-- Do the differences of the times of trades fit into 64 bits? -/
def AgesFit (trades : List Trade) : Prop :=
  ∀ a ∈ trades, ∀ b ∈ trades, FitsInt64 (b.timestamp.toInt - a.timestamp.toInt)

theorem AgesFit.tail {t : Trade} {rest : List Trade} (h : AgesFit (t :: rest)) : AgesFit rest :=
  fun a ha b hb => h a (List.mem_cons_of_mem t ha) b (List.mem_cons_of_mem t hb)

theorem cut_of_candles {w : Window} {taken rest : List Trade} {candles : List Candle}
    (htook : w.Took taken) (hfit : AgesFit rest)
    (hstart : ∀ t ∈ rest, FitsInt64 (t.timestamp.toInt - w.start.toInt))
    (h : List.Forall₂ (candle? · = some ·)
      ((taken ++ (cutOff w.start rest).1) :: (cutOff w.start rest).2) candles) :
    cut w rest = .ok candles := by
  induction rest generalizing w taken candles with
  | nil =>
    simp only [cutOff, List.append_nil] at h
    obtain ⟨c, later, hfirst, hlater, rfl⟩ := List.forall₂_cons_left_iff.mp h
    obtain rfl := List.forall₂_nil_left_iff.mp hlater
    obtain rfl := Option.some.inj (htook.candle.symm.trans hfirst)
    rfl
  | cons t rest ih =>
    obtain ⟨ht, hrest⟩ := List.forall_mem_cons.mp hstart
    refine cut_cons.mpr ⟨ht, ?_⟩
    by_cases hin : Within w.start t
    · simp only [cutOff, if_pos hin] at h
      obtain ⟨c, later, hfirst, hlater, rfl⟩ := List.forall₂_cons_left_iff.mp h
      obtain ⟨w', hadd⟩ := htook.exists_add hfirst
      obtain ⟨hw', htook'⟩ := htook.add hadd
      rw [if_pos hin]
      refine ⟨w', hadd, ih htook' hfit.tail (hw' ▸ hrest) ?_⟩
      rw [hw', List.append_assoc]
      exact .cons hfirst hlater
    · simp only [cutOff, if_neg hin, List.append_nil] at h
      obtain ⟨c, later, hfirst, hlater, rfl⟩ := List.forall₂_cons_left_iff.mp h
      obtain rfl := Option.some.inj (htook.candle.symm.trans hfirst)
      rw [if_neg hin]
      refine ⟨later, ih (Window.open_took t) hfit.tail ?_ hlater, rfl⟩
      exact fun u hu => hfit t List.mem_cons_self u (List.mem_cons_of_mem t hu)

/-- The candles of trades are those of their windows. -/
theorem candles_of_ofTrades {trades : List Trade} {candles : List Candle}
    (h : ofTrades trades = .ok candles) :
    List.Forall₂ (candle? · = some ·) (windows (sorted trades)) candles := by
  unfold ofTrades at h
  split at h
  · rename_i hsorted
    obtain rfl := Except.ok.inj h
    rw [hsorted]
    exact .nil
  · rename_i t rest hsorted
    rw [hsorted]
    exact candles_of_cut (Window.open_took t) h

theorem sorted_perm (trades : List Trade) : (sorted trades).Perm trades :=
  List.mergeSort_perm trades _

/-- Each trade is in one window. -/
theorem flatten_windows_perm (trades : List Trade) :
    (windows (sorted trades)).flatten.Perm trades := by
  rw [(windows_isCut (sorted trades)).flatten]
  exact sorted_perm trades

/-- Trades have at least one candle. -/
theorem ofTrades_eq_nil_iff {trades : List Trade} {candles : List Candle}
    (h : ofTrades trades = .ok candles) : candles = [] ↔ trades = [] := by
  have hlength := (candles_of_ofTrades h).length_eq
  rw [← List.length_eq_zero_iff, ← hlength, List.length_eq_zero_iff,
    (windows_isCut (sorted trades)).eq_nil_iff, ← List.length_eq_zero_iff,
    (sorted_perm trades).length_eq, List.length_eq_zero_iff]

theorem ofTrades_of_candles {trades : List Trade} {candles : List Candle} (hfit : AgesFit trades)
    (h : List.Forall₂ (candle? · = some ·) (windows (sorted trades)) candles) :
    ofTrades trades = .ok candles := by
  have hsortedFit : AgesFit (sorted trades) :=
    fun a ha b hb => hfit a ((sorted_perm trades).subset ha) b ((sorted_perm trades).subset hb)
  unfold ofTrades
  split
  · rename_i hsorted
    rw [hsorted] at h
    obtain rfl := List.forall₂_nil_left_iff.mp h
    rfl
  · rename_i t rest hsorted
    rw [hsorted] at h hsortedFit
    refine cut_of_candles (Window.open_took t) hsortedFit.tail ?_ h
    exact fun u hu => hsortedFit t List.mem_cons_self u (List.mem_cons_of_mem t hu)

theorem exists_candles {ws : List (List Trade)} :
    (∃ candles, List.Forall₂ (candle? · = some ·) ws candles) ↔ ∀ w ∈ ws, (volume? w).isSome := by
  induction ws with
  | nil => simp
  | cons w ws ih =>
    rw [List.forall_mem_cons, ← ih, ← candle?_isSome, Option.isSome_iff_exists]
    constructor
    · rintro ⟨candles, h⟩
      obtain ⟨c, later, hfirst, hlater, -⟩ := List.forall₂_cons_left_iff.mp h
      exact ⟨⟨c, hfirst⟩, later, hlater⟩
    · rintro ⟨⟨c, hfirst⟩, later, hlater⟩
      exact ⟨c :: later, .cons hfirst hlater⟩

/-- Trades whose times lie close together have candles if and only if all volumes have sums. -/
theorem exists_ofTrades_iff {trades : List Trade} (hfit : AgesFit trades) :
    (∃ candles, ofTrades trades = .ok candles) ↔
      ∀ w ∈ windows (sorted trades), (volume? w).isSome := by
  rw [← exists_candles]
  exact exists_congr fun candles => ⟨candles_of_ofTrades, ofTrades_of_candles hfit⟩

end MarketFeed.Candles
