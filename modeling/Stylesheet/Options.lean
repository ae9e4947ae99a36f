import Stylesheet.Function.Call

/-!
# Options
-/

namespace Stylesheet

/-- How stylesheets are compiled and rendered. -/
structure Options where
  functions : Functions := {}
  debugSelector : Text := "#debug".toList
  keepDebugStyle : Bool := false
  debugComments : Bool := false

end Stylesheet
