import Stylesheet.Scope

/-!
# Mixins

A mixin is a named piece of stylesheet text with parameters.  Including it binds
the parameters and gives the text to read in place of the inclusion.  The
registry keeps mixins in the order of their first definition and records where
they are used.
-/

namespace Stylesheet

/-- A mixin with the place of its definition and the record of its uses.  Lines
and uses are counted without bound; counters of 32 bits agree up to 2 ^ 32 -
1. -/
structure Mixin where
  name : Text
  parameters : List Text
  body : Text
  file : Option Text
  line : Nat
  uses : Nat := 0
  firstUse : Option Text := none
  usedInOneFile : Bool := true
  deriving DecidableEq, Repr

namespace Mixin

/-- Records one more use, from `file`.  Uses in the file of the first use and in
the mixin's own file count as one. -/
def recordUse (mixin : Mixin) (file : Option Text) : Mixin :=
  if mixin.uses == 0 then { mixin with uses := 1, firstUse := file }
  else
    { mixin with
      uses := mixin.uses + 1
      usedInOneFile :=
        mixin.usedInOneFile && (mixin.firstUse == file || mixin.file == file) }

end Mixin

/-- The text to read in place of an inclusion: the body and the brace that
closes the block of the inclusion, with the place where the body stands. -/
structure Expansion where
  text : Text
  file : Option Text
  line : Nat
  deriving DecidableEq, Repr

/-- The registered mixins in the order of their first definition, and the place
of each name among them. -/
structure Mixins where
  toList : List Mixin := []
  index : List (Text × Nat) := []
  deriving DecidableEq, Repr

namespace Mixins

/-- The place of the mixin with a name. -/
def place? (mixins : Mixins) (name : Text) : Option Nat :=
  mixins.index.lookup name

def get? (mixins : Mixins) (name : Text) : Option Mixin := do
  mixins.toList[← mixins.place? name]?

def contains (mixins : Mixins) (name : Text) : Bool :=
  (mixins.place? name).isSome

/-- Puts a mixin in the place of the one with the same name. -/
def replace (mixins : Mixins) (mixin : Mixin) : Mixins :=
  match mixins.place? mixin.name with
  | some place => { mixins with toList := mixins.toList.set place mixin }
  | none => mixins

/-- Registers a mixin; a mixin of the same name is replaced in its place. -/
def define (mixins : Mixins) (mixin : Mixin) : Mixins :=
  if mixins.contains mixin.name then mixins.replace mixin
  else
    { toList := mixins.toList ++ [mixin]
      index := (mixin.name, mixins.toList.length) :: mixins.index }

/-- Includes a mixin from `file`: records the use, and binds the parameters in
the innermost scope. -/
def expand (name : Text) (arguments : List Text) (file : Option Text) :
    EStateM Error (Mixins × Scopes) Expansion := do
  match (← get).1.get? name with
  | none => throw (.undefinedMixin name)
  | some mixin =>
      if arguments.length != mixin.parameters.length then
        throw (.argumentCount name mixin.parameters.length arguments.length)
      modify fun (mixins, scopes) =>
        (mixins.replace (mixin.recordUse file), scopes)
      modify fun (mixins, scopes) =>
        (mixins, (mixin.parameters.zip arguments).foldl
          (fun scopes (parameter, value) =>
            (scopes.define parameter value false).2) scopes)
      return { text := mixin.body ++ ['}'], file := mixin.file,
               line := mixin.line }

end Mixins

end Stylesheet
