import MarketFeed.Connection.Controller

/-!
# Registered connections

Before the start all connections wait, and after it none does. So whether a connection is added
before or after the start, it comes last.

* `Settled`: once started, no connection waits. All operations keep this.
* `connections_add`: adding puts one connection behind the others.
* `connections_start`: a start changes no connection.
-/

namespace MarketFeed.Controller

/-- Once started, no connection waits. -/
def Settled (c : Controller) : Prop := c.started = true → c.pending = []

theorem new_settled (provider : Provider) (url : String) (settings : ConnectionSettings) :
    (new provider url settings).Settled := by
  intro hstarted
  cases hstarted

variable {c : Controller}

theorem Settled.add (h : c.Settled) (frames : List String) (keepAlive : KeepAlive) :
    (c.add frames keepAlive).1.Settled := by
  intro hstarted
  unfold Controller.add at hstarted ⊢
  dsimp only at hstarted ⊢
  split at hstarted
  · rename_i hc
    rw [if_pos hc]
    exact h hc
  · rename_i hc
    exact (hc hstarted).elim

/-- Adding puts one connection behind the others. -/
theorem Settled.connections_add (h : c.Settled) (frames : List String) (keepAlive : KeepAlive) :
    (c.add frames keepAlive).1.connections = c.connections ++ [⟨c.nextId, frames, keepAlive⟩] := by
  unfold Controller.add connections
  dsimp only
  split
  · rename_i hc
    simp [h hc]
  · simp

theorem Settled.start (h : c.Settled) : c.start.1.Settled := by
  unfold Controller.start
  split
  · exact h
  · exact fun _ => rfl

/-- A start changes no connection. -/
theorem connections_start (c : Controller) : c.start.1.connections = c.connections := by
  unfold start connections
  split
  · rfl
  · simp

theorem shutdown_settled (c : Controller) : c.shutdown.1.Settled := fun _ => rfl

theorem count_eq_length (c : Controller) : c.count = c.connections.length := by
  unfold count connections
  rw [List.length_append, Nat.add_comm]

end MarketFeed.Controller
