import Stylesheet.Text.Basic

/-!
# Compiled sheets

A sheet is a list of rules and comments.  Properties that are added one after
the other for the same selectors share a rule.
-/

namespace Stylesheet

structure Property where
  name : Text
  value : Text
  deriving DecidableEq, Repr

inductive Definition where
  | rule (selectors : List Text) (properties : List Property)
  | comment (text : Text)
  deriving DecidableEq, Repr

/-- The definitions of a sheet, the newest first. -/
structure Sheet where
  newest : List Definition := []
  deriving DecidableEq, Repr

namespace Sheet

/-- The definitions in the order they were added. -/
def toList (sheet : Sheet) : List Definition :=
  sheet.newest.reverse

def size (sheet : Sheet) : Nat :=
  sheet.newest.length

/-- Whether a property for these selectors needs a rule of its own. -/
def startsRule (sheet : Sheet) (selectors : List Text) : Bool :=
  match sheet.newest with
  | .rule last _ :: _ => last != selectors
  | _ => true

/-- Adds a property to the last rule if that has the same selectors, and in a
new rule otherwise. -/
def addProperty (sheet : Sheet) (selectors : List Text)
    (property : Property) : Sheet :=
  match sheet.newest with
  | .rule last properties :: older =>
      if last == selectors then ⟨.rule last (properties ++ [property]) :: older⟩
      else ⟨.rule selectors [property] :: sheet.newest⟩
  | _ => ⟨.rule selectors [property] :: sheet.newest⟩

def addComment (sheet : Sheet) (text : Text) : Sheet :=
  ⟨.comment text :: sheet.newest⟩

/-- Takes all definitions out of a sheet. -/
def take (sheet : Sheet) : List Definition × Sheet :=
  (sheet.toList, {})

end Sheet

end Stylesheet
