import Stylesheet.Mixin

/-!
# Findings

Advice on mixins and variables that are hardly used.
-/

namespace Stylesheet

inductive Finding where
  | underusedMixin (name : Text) (uses : Nat)
  | singleFileMixin (name : Text) (usedIn definedIn : Option Text)
  | unusedVariable (name : Text)
  deriving DecidableEq, Repr

namespace Finding

def message : Finding → Text
  | .underusedMixin name uses =>
      "Usage count of mixin: ".toList ++ name ++ " is only: ".toList ++
        Text.ofNat uses
  | .singleFileMixin name usedIn definedIn =>
      "Mixin: ".toList ++ name ++ " is used only in one file: ".toList ++
        usedIn.getD [] ++
        "  ".toList ++ definedIn.getD []
  | .unusedVariable name => "Unused variable: ".toList ++ name

/-- A mixin is underused if it is used less than twice, unless its only use is
in its own file.  Otherwise a mixin without parameters that is used in one other
file only is reported. -/
def ofMixin? (mixin : Mixin) : Option Finding :=
  let usedElsewhere := mixin.firstUse != mixin.file
  if mixin.uses < 2 && (mixin.uses == 0 || usedElsewhere) then
    some (.underusedMixin mixin.name mixin.uses)
  else if mixin.usedInOneFile && mixin.parameters.isEmpty && usedElsewhere then
    some (.singleFileMixin mixin.name mixin.firstUse mixin.file)
  else none

/-- The findings on all mixins, and then on the global variables. -/
def check (mixins : Mixins) (scopes : Scopes) : List Finding :=
  mixins.toList.filterMap ofMixin? ++ scopes.unused.map fun binding =>
    .unusedVariable binding.name

end Finding

end Stylesheet
