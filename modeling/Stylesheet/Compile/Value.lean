import Stylesheet.Compile.Basic
import Stylesheet.Template
import Stylesheet.Variable

/-!
# Resolving values

A value is resolved in four steps: the holes of its template are filled,
variable references are replaced, calls are resolved, and blanks are collapsed.
-/

namespace Stylesheet.Compile

/-- The last three steps. -/
def finishValue (environment : Environment) (text : Text) : Compile Text := do
  let substituted ← resolving (Variable.substitute text)
  let resolved ← check (environment.options.functions.resolve substituted)
  resolved.unknown.forM fun name => warn (.unknownFunction name)
  return resolved.value.normalize

/-- Fills the holes of a template with the values of their contents, without
quotes around them. -/
def fill (environment : Environment) : Template → Compile Text
  | .done => pure []
  | .char c rest => do
      let following ← fill environment rest
      return c :: following
  | .hole inner rest => do
      let contents ← fill environment inner
      let value ← finishValue environment contents
      let following ← fill environment rest
      return Text.unquote value ++ following
  | .broken => form .interpolationOpen

def interpolate (environment : Environment) (text : Text) : Compile Text :=
  fill environment (Template.ofText text)

def resolveValue (environment : Environment) (text : Text) : Compile Text := do
  finishValue environment (← interpolate environment text)

end Stylesheet.Compile
