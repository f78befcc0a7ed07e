/-!
# Faults

A computation that leaves the range of its numbers stops with a fault. A fault is not an error of
the domain: nothing was refused, the step that raised it has no result.
-/

namespace MarketFeed

/-- A computation that left the range of its numbers. -/
inductive Fault where
  /-- A sum of machine integers. -/
  | sum
  /-- A difference of machine integers. -/
  | difference
  /-- A sum of decimals. -/
  | decimalSum
  /-- A multiple of a duration. -/
  | durationMultiple
deriving DecidableEq, Repr

/-- The wording of a fault. -/
def Fault.message : Fault → String
  | .sum => "attempt to add with overflow"
  | .difference => "attempt to subtract with overflow"
  | .decimalSum => "Addition overflowed"
  | .durationMultiple => "overflow when multiplying duration by scalar"

/-- Is this the value of an integer of 64 bits? -/
def FitsInt64 (n : Int) : Prop := Int64.minValue.toInt ≤ n ∧ n ≤ Int64.maxValue.toInt

instance (n : Int) : Decidable (FitsInt64 n) := inferInstanceAs (Decidable (_ ∧ _))

/-- The difference of two integers of 64 bits, where it is one. -/
def checkedSub (a b : Int64) : Except Fault Int64 :=
  let d := a.toInt - b.toInt
  if Int64.minValue.toInt ≤ d ∧ d ≤ Int64.maxValue.toInt then .ok (Int64.ofInt d)
  else .error .difference

theorem checkedSub_eq_ok {a b d : Int64} :
    checkedSub a b = .ok d ↔ d.toInt = a.toInt - b.toInt := by
  have hmin : Int64.minValue.toInt = -2 ^ 63 := rfl
  have hmax : Int64.maxValue.toInt = 2 ^ 63 - 1 := rfl
  have hlo := d.le_toInt
  have hhi := d.toInt_lt
  simp only [checkedSub]
  split
  · have h := Int64.toInt_ofInt_of_le (n := a.toInt - b.toInt) (by omega) (by omega)
    rw [Except.ok.injEq, ← Int64.toInt_inj, h]
    exact eq_comm
  · simp only [reduceCtorEq, false_iff]
    omega

theorem exists_checkedSub_iff {a b : Int64} :
    (∃ d, checkedSub a b = .ok d) ↔ FitsInt64 (a.toInt - b.toInt) := by
  simp only [checkedSub, FitsInt64]
  split <;> simp_all

/-- Two computations in a row have a result if the first has one with which the second has one. -/
theorem bind_eq_ok {ε α β : Type} {x : Except ε α} {f : α → Except ε β} {b : β} :
    x >>= f = .ok b ↔ ∃ a, x = .ok a ∧ f a = .ok b := by
  cases x with
  | error e => simp [bind, Except.bind]
  | ok a => simp [bind, Except.bind]

/-- They fail if the first does, or the second with what the first has come to. -/
theorem bind_eq_error {ε α β : Type} {x : Except ε α} {f : α → Except ε β} {e : ε} :
    x >>= f = .error e ↔ x = .error e ∨ ∃ a, x = .ok a ∧ f a = .error e := by
  cases x with
  | error e' => simp [bind, Except.bind]
  | ok a => simp [bind, Except.bind]

theorem map_eq_ok {ε α β : Type} {x : Except ε α} {f : α → β} {b : β} :
    x.map f = .ok b ↔ ∃ a, x = .ok a ∧ f a = b := by
  cases x <;> simp [Except.map]

theorem toOption_eq_some {ε α : Type} {x : Except ε α} {a : α} :
    x.toOption = some a ↔ x = .ok a := by
  cases x <;> simp [Except.toOption]

theorem toOption_map {ε α β : Type} (x : Except ε α) (f : α → β) :
    (x.map f).toOption = x.toOption.map f := by
  cases x <;> rfl

theorem toOption_bind {ε α β : Type} (x : Except ε α) (f : α → Except ε β) :
    (x >>= f).toOption = x.toOption.bind fun a => (f a).toOption := by
  cases x <;> rfl

end MarketFeed
