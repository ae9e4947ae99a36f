import Stylesheet.Compile.Basic

/-!
# Descriptions

One-line descriptions of options, functions and compilations for debugging.
-/

namespace Stylesheet

namespace Describe

def bool (value : Bool) : Text :=
  if value then "true".toList else "false".toList

def list (texts : List Text) : Text :=
  '[' :: ", ".toList.intercalate (texts.map Text.describe) ++ [']']

/-- A named record with its fields; `more` says that there are others. -/
def record (name : String) (fields : List (String × Text))
    (more : Bool) : Text :=
  let shown := fields.map fun (label, value) =>
    label.toList ++ ": ".toList ++ value
  name.toList ++ " \x7b ".toList ++
    ", ".toList.intercalate (shown ++ if more then ["..".toList] else []) ++
      " \x7d".toList

end Describe

def UnknownCalls.describe (unknown : UnknownCalls) : Text :=
  Describe.record "UnknownFunctions" [("error", Describe.bool unknown.fail),
    ("warn", Describe.bool unknown.report),
    ("keep", Describe.bool unknown.keep)] false

/-- The names of the host functions in order. -/
def Functions.hostNames (functions : Functions) : List Text :=
  (functions.host.map (·.1)).mergeSort fun first second =>
    Text.compare first second != .gt

def Functions.describe (functions : Functions) : Text :=
  Describe.record "FunctionEngine"
    [("custom", Describe.list functions.hostNames),
      ("unknown", functions.unknown.describe)] false

def Options.describe (options : Options) : Text :=
  let unknown := options.functions.unknown
  Describe.record "CompilerConfig" [
    ("unknown_function_error", Describe.bool unknown.fail),
    ("unknown_function_warning", Describe.bool unknown.report),
    ("keep_unknown_function", Describe.bool unknown.keep),
    ("debug_selector", options.debugSelector.describe),
    ("keep_debug_style", Describe.bool options.keepDebugStyle),
    ("debug_comments", Describe.bool options.debugComments),
    ("functions", Describe.list options.functions.hostNames)] false

def Compilation.describe (compilation : Compilation)
    (options : Options) : Text :=
  Describe.record "Compiler" [
    ("config", options.describe),
    ("mixins", Text.ofNat compilation.mixins.toList.length),
    ("definitions", Text.ofNat compilation.sheet.size),
    ("dependencies", Describe.list compilation.dependencies)] true

end Stylesheet
