import Stylesheet.Error

/-!
# Scopes

Variables live in nested scopes, the global one outermost.  All bindings ever
made are kept in one store, in the order of their creation; a scope maps names
to places in the store.  A name is looked up from the innermost scope outwards.
-/

namespace Stylesheet

/-- A variable, its value, how often it was read, and whether it was defined
with `!default`.  The readings are counted without bound; a counter of 32 bits
agrees up to 2 ^ 32 - 1 of them. -/
structure Binding where
  name : Text
  value : Text
  uses : Nat := 0
  fromDefault : Bool := false
  deriving DecidableEq, Repr

/-- The names of one scope, with the places of their bindings. -/
abbrev Frame := List (Text × Nat)

/-- Binds a name, in place of what it was bound to in this scope. -/
def Frame.bind (frame : Frame) (name : Text) (place : Nat) : Frame :=
  (name, place) :: frame.filter (·.1 != name)

/-- What is taken out of a table does not matter to the other keys. -/
theorem lookup_filter_ne {κ α : Type} [BEq κ] [LawfulBEq κ]
    {table : List (κ × α)} {key other : κ} (apart : other ≠ key) :
    (table.filter (·.1 != key)).lookup other = table.lookup other := by
  induction table with
  | nil => rfl
  | cons entry table ih =>
      by_cases same : entry.1 = key
      · have skipped : (other == entry.1) = false := by simpa [same] using apart
        rw [List.filter_cons_of_neg (by simp [same]), ih,
          List.lookup_cons, skipped]
      · rw [List.filter_cons_of_pos (by simpa using same), List.lookup_cons,
          List.lookup_cons, ih]

theorem Frame.lookup_bind (frame : Frame) (name other : Text) (place : Nat) :
    (frame.bind name place).lookup other =
      if other == name then some place else frame.lookup other := by
  unfold Frame.bind
  rw [List.lookup_cons]
  cases same : other == name with
  | true => rfl
  | false => exact lookup_filter_ne (beq_eq_false_iff_ne.mp same)

/-- The bindings and the open scopes; `outer` holds the enclosing ones, the
nearest first. -/
structure Scopes where
  bindings : Array Binding := #[]
  inner : Frame := []
  outer : List Frame := []
  deriving DecidableEq, Repr

namespace Scopes

/-- The open scopes, the innermost first. -/
def frames (scopes : Scopes) : List Frame :=
  scopes.inner :: scopes.outer

def depth (scopes : Scopes) : Nat :=
  scopes.frames.length

/-- Opens a scope. -/
def push (scopes : Scopes) : Scopes :=
  { scopes with inner := [], outer := scopes.inner :: scopes.outer }

/-- Closes the innermost scope; the global one stays. -/
def pop : EStateM Error Scopes Unit := fun scopes =>
  match scopes.outer with
  | [] => .error .noBlockOpen scopes
  | frame :: outer => .ok () { scopes with inner := frame, outer }

theorem pop_global {scopes : Scopes} (enclosing : scopes.outer = []) :
    pop scopes = .error .noBlockOpen scopes := by
  rw [pop, enclosing]

theorem pop_cons {scopes : Scopes} {frame : Frame} {outer : List Frame}
    (enclosing : scopes.outer = frame :: outer) :
    pop scopes = .ok () { scopes with inner := frame, outer } := by
  rw [pop, enclosing]

/-- The place of the binding that a name stands for. -/
def place? (scopes : Scopes) (name : Text) : Option Nat :=
  scopes.frames.findSome? (·.lookup name)

/-- The binding that a name stands for. -/
def get? (scopes : Scopes) (name : Text) : Option Binding := do
  scopes.bindings[← scopes.place? name]?

def contains (scopes : Scopes) (name : Text) : Bool :=
  (scopes.place? name).isSome

/-- Whether a `!default` definition of a name has no effect: the name stands for
a binding that was not made with `!default`. -/
def keeps (scopes : Scopes) (name : Text) : Bool :=
  match scopes.get? name with
  | some binding => !binding.fromDefault
  | none => false

/-- Adds a binding to the innermost scope. -/
def bind (scopes : Scopes) (binding : Binding) : Scopes :=
  { scopes with
    bindings := scopes.bindings.push binding
    inner := scopes.inner.bind binding.name scopes.bindings.size }

/-- Defines a variable in the innermost scope.  The answer tells whether the
definition took effect. -/
def define (scopes : Scopes) (name value : Text) (isDefault : Bool) :
    Bool × Scopes :=
  if isDefault && scopes.keeps name then (false, scopes)
  else (true, scopes.bind { name, value, fromDefault := isDefault })

/-- Reads a variable and counts the reading. -/
def read (name : Text) : EStateM Error Scopes Text := fun scopes =>
  match scopes.place? name with
  | none => .error (.undefinedVariable name) scopes
  | some place =>
      let value := ((scopes.bindings[place]?).map Binding.value).getD []
      .ok value { scopes with
        bindings := scopes.bindings.modify place fun binding =>
          { binding with uses := binding.uses + 1 } }

/-- The global scope. -/
def globalFrame (scopes : Scopes) : Frame :=
  scopes.outer.getLastD scopes.inner

/-- The global variables that were never read, in the order of their
definition. -/
def unused (scopes : Scopes) : List Binding :=
  scopes.bindings.toList.zipIdx.filterMap fun (binding, place) =>
    if scopes.globalFrame.any (·.2 == place) && binding.uses == 0 then
      some binding
    else none

end Scopes

end Stylesheet
