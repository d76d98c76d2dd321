import MappedNetlist.Netlist.Compact

/-!
# Edits

An `Edit` is one call that may change a netlist, with all its arguments, so that a history of a
netlist is a list of edits. `Edit.apply` gives the netlist afterwards, the handle that the edit
found or created, and the events it reported. A failed edit gives none of these: whoever holds the
netlist goes on with the one from before. `Edit.run` and `Edit.log` are what a history leaves and what it
reported on the way. Counters wrap in all of these. `Edit.applyWith` gives what an edit does where they
are checked.
-/

namespace MappedNetlist

/-- A call that may change a netlist. -/
inductive Edit
  | createBlock (name : String) (model : Model) (table : TruthTable)
  | createPort (block : BlockId) (name : String)
  | createPin (port : PortId) (bit : Nat) (net : Option NetId) (role : PinRole)
  | createNet (name : String)
  | addNet (name : String) (driver : Option PinId) (sinks : List PinId)
  | removeBlock (block : BlockId)
  | removePin (pin : PinId)
  | removeNet (net : NetId)
  | removeNetPin (net : NetId) (pin : PinId)
  | sweep
  | compact

/-- What a successful edit leaves and tells. -/
structure Edited where
  netlist : Netlist
  found : Option ((k : Kind) × Handle k) := none
  events : List Event := []

namespace Edited

/-- The result of an edit that finds or creates an entity. -/
def ofFound {k : Kind} (r : Handle k × Netlist) : Edited :=
  { netlist := r.2, found := some ⟨k, r.1⟩ }

/-- The result of an edit that reports events. -/
def ofEvents (r : Netlist × List Event) : Edited := { netlist := r.1, events := r.2 }

end Edited

namespace Edit

/-- Applies an edit to a netlist. -/
def apply (n : Netlist) : Edit → Except Failure Edited
  | createBlock name model table => return .ofFound (n.createBlock name model table)
  | createPort block name => return .ofFound (← n.createPort block name)
  | createPin port bit net role => return .ofFound (← n.createPin port bit net role)
  | createNet name => return .ofFound (n.createNet name)
  | addNet name driver sinks => return .ofFound (← n.addNet name driver sinks)
  | removeBlock block => return .ofEvents (← n.removeBlock block)
  | removePin pin => return .ofEvents (← n.removePin pin)
  | removeNet net => return .ofEvents (← n.removeNet net)
  | removeNetPin net pin => return { netlist := ← n.removeNetPin net pin }
  | sweep => return .ofEvents (← n.sweep)
  | compact => return .ofEvents (← n.compact)

/-- Applies an edit with counters that add in a given way. Only sweeps and compactions count. -/
def applyWith (a : Arithmetic) (n : Netlist) : Edit → Except Failure Edited
  | sweep => return .ofEvents (← n.sweepWith a)
  | compact => return .ofEvents (← n.compactWith a)
  | e => e.apply n

theorem applyWith_wrapping (n : Netlist) (e : Edit) : e.applyWith .wrapping n = e.apply n := by
  cases e <;> rfl

/-- The netlist after an edit. A failed edit leaves the netlist as it was. -/
def after (n : Netlist) (e : Edit) : Netlist :=
  match e.apply n with
  | .ok r => r.netlist
  | .error _ => n

theorem after_of_ok {n : Netlist} {e : Edit} {r : Edited} (h : e.apply n = .ok r) :
    e.after n = r.netlist := by
  rw [after, h]

theorem after_of_error {n : Netlist} {e : Edit} {err : Failure} (h : e.apply n = .error err) :
    e.after n = n := by
  rw [after, h]

/-- The events that an edit reports. A failed edit reports none. -/
def events (n : Netlist) (e : Edit) : List Event :=
  match e.apply n with
  | .ok r => r.events
  | .error _ => []

theorem events_of_ok {n : Netlist} {e : Edit} {r : Edited} (h : e.apply n = .ok r) :
    e.events n = r.events := by
  rw [events, h]

theorem events_of_error {n : Netlist} {e : Edit} {err : Failure} (h : e.apply n = .error err) :
    e.events n = [] := by
  rw [events, h]

/-- The netlist after edits in order. -/
def run (n : Netlist) (es : List Edit) : Netlist := es.foldl after n

@[simp] theorem run_nil (n : Netlist) : run n [] = n := rfl

@[simp] theorem run_cons (n : Netlist) (e : Edit) (es : List Edit) :
    run n (e :: es) = run (after n e) es := rfl

theorem run_append (n : Netlist) (es fs : List Edit) : run n (es ++ fs) = run (run n es) fs :=
  List.foldl_append

/-- The events that edits in order report. -/
def log (n : Netlist) : List Edit → List Event
  | [] => []
  | e :: es => e.events n ++ log (e.after n) es

@[simp] theorem log_nil (n : Netlist) : log n [] = [] := rfl

@[simp] theorem log_cons (n : Netlist) (e : Edit) (es : List Edit) :
    log n (e :: es) = e.events n ++ log (e.after n) es := rfl

theorem log_append (n : Netlist) (es fs : List Edit) :
    log n (es ++ fs) = log n es ++ log (run n es) fs := by
  induction es generalizing n with
  | nil => rfl
  | cons e es ih => simp [ih]

end Edit

/-- A netlist that some edits make from a new one. -/
def Netlist.Reachable (n : Netlist) : Prop := ∃ name es, Edit.run (.new name) es = n

theorem Netlist.Reachable.new (name : String) : (Netlist.new name).Reachable := ⟨name, [], rfl⟩

theorem Netlist.Reachable.run {n : Netlist} (h : n.Reachable) (es : List Edit) :
    (Edit.run n es).Reachable := by
  obtain ⟨name, fs, rfl⟩ := h
  exact ⟨name, fs ++ es, Edit.run_append ..⟩

end MappedNetlist
