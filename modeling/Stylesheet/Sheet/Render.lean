import Stylesheet.Options
import Stylesheet.Sheet.Basic

/-!
# Rendering

Rules are written one declaration a line.  A selector with the debug marker is
left out, or written without the marker if debug styles are kept.  Comments are
written only on demand.
-/

namespace Stylesheet

namespace Options

/-- The marker counts where the selector ends or a blank, `.` or `#` follows. -/
def endsMarker : Text → Bool
  | [] => true
  | c :: _ => isBlank c || c == '.' || c == '#'

/-- Whether the marker counts somewhere, among its occurrences from left to
right, after skipping the first `pending` characters. -/
def markedAfter (marker : Text) : (pending : Nat) → Text → Bool
  | _, [] => false
  | pending + 1, _ :: rest => markedAfter marker pending rest
  | 0, c :: rest =>
      if marker.isPrefixOf (c :: rest) then
        endsMarker ((c :: rest).drop marker.length) ||
          markedAfter marker (marker.length - 1) rest
      else markedAfter marker 0 rest

/-- Whether a selector belongs to a debug rule. -/
def isDebug (options : Options) (selector : Text) : Bool :=
  !options.debugSelector.isEmpty && markedAfter options.debugSelector 0 selector

/-- What is written for a selector, if anything. -/
def filterSelector (options : Options) (selector : Text) : Option Text :=
  if !options.isDebug selector then some selector
  else if !options.keepDebugStyle then none
  else
    let stripped := (Text.erase options.debugSelector selector).trim
    if stripped.isEmpty then none else some stripped

def filterSelectors (options : Options) (selectors : List Text) : List Text :=
  selectors.filterMap options.filterSelector

end Options

def Property.render (property : Property) : Text :=
  '\t' :: property.name ++ ": ".toList ++ property.value ++ ";\n".toList

def Definition.render (options : Options) : Definition → Text
  | .comment text =>
      if options.debugComments then
        "/* ".toList ++ text ++ " */\n".toList
      else []
  | .rule selectors properties =>
      match options.filterSelectors selectors with
      | [] => []
      | kept =>
          ",\n".toList.intercalate kept ++ " \x7b\n".toList ++
            properties.flatMap Property.render ++
            "\x7d\n".toList

/-- The text of a sheet. -/
def Sheet.render (sheet : Sheet) (options : Options) : Text :=
  sheet.toList.flatMap (Definition.render options)

end Stylesheet
