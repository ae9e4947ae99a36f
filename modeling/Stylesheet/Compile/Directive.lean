import Stylesheet.Comment
import Stylesheet.Compile.Value

/-!
# Directives

Definitions and inclusions of mixins, imports and conditions.  Whatever text a
directive brings in is spliced in at the cursor and read from there.
-/

namespace Stylesheet.Compile

/-- A parameter without its `$`. -/
def parameterName (mixin parameter : Text) : Except Error Text :=
  match parameter with
  | '$' :: name =>
      if !name.isEmpty && name.all isNameChar then .ok name
      else .error (.form (.invalidParameter parameter mixin))
  | _ => .error (.form (.invalidParameter parameter mixin))

/-- The parameters between the parentheses of a definition. -/
def parameterNames (mixin list : Text) : Except Error (List Text) :=
  (((list.splitAt ',').map Text.trim).filter (!·.isEmpty)).mapM
    (parameterName mixin)

def mixinName : Compile Text := do
  let name ← reading Reader.readName
  if name.isEmpty then form .mixinNameExpected
  reading Reader.skipSpace
  return name

/-- The contents of the parentheses that follow, if there are any. -/
def argumentList? : Compile (Option Text) := do
  if (← get).cursor.isAt '(' then
    let list ← reading (Reader.readGroup '(' ')')
    reading Reader.skipSpace
    return some list
  else return none

/-- `@mixin name($a, $b) { body }` -/
def mixinDirective : Compile Unit := do
  let name ← mixinName
  let parameters ←
    if (← get).cursor.isAt '(' then do
      let list ← reading (Reader.readGroup '(' ')')
      let parameters ← check (parameterNames name list)
      reading Reader.skipSpace
      pure parameters
    else pure []
  let cursor := (← get).cursor
  let body ← reading (Reader.readGroup '{' '}')
  let duplicate := (← get).mixins.contains name
  let mixin :=
    { name, parameters, body, file := cursor.file, line := cursor.line : Mixin }
  modify fun state => { state with mixins := state.mixins.define mixin }
  record (.mixinDefined name)
  if duplicate then warn (.duplicateMixin name)

/-- The resolved arguments of an inclusion; empty ones are left out. -/
def resolveArguments (environment : Environment) (list : Option Text) :
    Compile (List Text) :=
  let arguments := ((list.map Text.splitCommas).getD []).map Text.trim
  (arguments.filter (!·.isEmpty)).mapM (resolveValue environment)

/-- Ends an inclusion: `;`, or the end of the block or text. -/
def endInclude (name : Text) : Compile Unit := do
  match (← get).cursor.current with
  | some ';' => reading (modify Cursor.advance)
  | some '}' | none => pure ()
  | some _ => form (.semicolonExpected name)

/-- `@include name(arguments);`

The inclusion opens a block of its own for the parameters, and the text spliced
in brings the brace that closes it. -/
def includeDirective (environment : Environment) : Compile Unit := do
  let name ← mixinName
  let list ← argumentList?
  endInclude name
  openBlock ((← get).blocks.headD {})
  let arguments ← resolveArguments environment list
  record (.including name)
  comment environment
    ("include mixin: ".toList ++ name ++ " args: ".toList ++
      [','].intercalate arguments)
  let file := (← get).cursor.file
  let expansion ← expanding (Mixins.expand name arguments file)
  record (.included name)
  splice
    { text := expansion.text, file := expansion.file, line := expansion.line }

/-- The paths of an import. -/
def importPaths (text : Text) : Except Error (List Text) :=
  text.splitCommas.mapM fun part =>
    let path := (Text.unquote part.trim).trim
    if path.isEmpty then .error (.form .emptyImport) else .ok path

/-- Splices in the text that a path stands for. -/
def importFile (environment : Environment) (path : Text) : Compile Unit := do
  record (.importing path)
  comment environment ("import: ".toList ++ path)
  let fetched := environment.loader.fetch path
  fetched.unreadable.forM fun (path, fault) =>
    record (.candidateUnreadable path fault)
  match fetched.content with
  | none => throw (.importNotFound path)
  | some content =>
      match environment.loader.locate path with
      | none => pure ()
      | some file =>
          modify fun state =>
            if state.dependencies.any (Path.same file) then state
            else { state with dependencies := state.dependencies ++ [file] }
      splice { text := Comment.strip content, file := some path, line := 1 }

/-- `@import 'a', 'b';`

The last path is spliced in first, so that the texts are read in order. -/
def importDirective (environment : Environment) : Compile Unit := do
  let raw ← reading (Reader.readUntil [';', '}'])
  reading (Reader.skipChar ';')
  let text ← interpolate environment raw
  let paths ← check (importPaths text)
  paths.reverse.forM (importFile environment)

def evaluateCondition (text : Text) : Compile Bool :=
  match Expr.evaluateCondition text with
  | .ok holds => pure holds
  | .error fault => throw (.expression text.trim fault)

/-- A braced body with the place where it stands. -/
def branchBody : Compile Source := do
  let cursor := (← get).cursor
  let text ← reading (Reader.readGroup '{' '}')
  return { text, file := cursor.file, line := cursor.line }

/-- `condition { body }`: the body, if the condition is asked for and holds. -/
def branch (environment : Environment) (asked : Bool) :
    Compile (Option Source) := do
  let condition ← reading (Reader.readUntil ['{'])
  if !(← get).cursor.isAt '{' then form .branchExpected
  let holds ←
    if asked then do
      let text ← resolveValue environment condition.trim
      evaluateCondition text
    else pure false
  let body ← branchBody
  return if holds then some body else none

/-- The `@else` branches that follow a branch; `chosen` is the body chosen so
far.  Every branch takes at least one character. -/
def elseBranches (environment : Environment) : (fuel : Nat) →
    (chosen : Option Source) →
    Compile (Option Source)
  | 0, chosen => pure chosen
  | fuel + 1, chosen => do
      reading Reader.skipSpace
      if ← reading (Reader.skipWord? "@else".toList) then
        reading Reader.skipSpace
        if ← reading (Reader.skipWord? "if".toList) then
          let body ← branch environment chosen.isNone
          elseBranches environment fuel (chosen.or body)
        else
          let body ← branchBody
          return chosen.or (some body)
      else return chosen

/-- `@if condition { } @else if condition { } @else { }`

The body of the first branch whose condition holds is spliced in. -/
def conditionDirective (environment : Environment) : Compile Unit := do
  let first ← branch environment true
  let chosen ← elseBranches environment
      ((← get).cursor.pending.length + 1) first
  match chosen with
  | none => pure ()
  | some body => if body.text.trim.isEmpty then pure () else splice body

/-- Any statement that starts with `@`. -/
def directive (environment : Environment) : Compile Unit := do
  reading (modify Cursor.advance)
  let name ← reading Reader.readName
  reading Reader.skipSpace
  let nested := !(← get).blocks.isEmpty
  if name == "mixin".toList then
    if nested then form .mixinNested else mixinDirective
  else if name == "include".toList then
    if nested then includeDirective environment else form .includeOutside
  else if name == "import".toList then importDirective environment
  else if name == "if".toList then conditionDirective environment
  else throw (.unsupportedDirective name)

end Stylesheet.Compile
