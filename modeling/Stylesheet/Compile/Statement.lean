import Stylesheet.Compile.Value
import Stylesheet.Selector

/-!
# Variables, blocks and declarations
-/

namespace Stylesheet.Compile

/-- Closes the innermost block. -/
def closeBlock : Compile Unit := do
  match (← get).blocks with
  | [] => throw .noBlockOpen
  | _ :: blocks =>
      modify fun state => { state with blocks }
      resolving Scopes.pop
      reading (modify Cursor.advance)

/-- The value of a definition without its `!default`, and whether it had one. -/
def splitDefault (raw : Text) : Text × Bool :=
  match "!default".toList.isSuffixOf? raw with
  | some value => (Text.trimEnd value, true)
  | none => (raw, false)

/-- `$name: value [!default];` -/
def variableStatement (environment : Environment) : Compile Unit := do
  reading (modify Cursor.advance)
  let name ← reading Reader.readName
  if name.isEmpty then form .variableNameExpected
  reading Reader.skipSpace
  reading (Cursor.expect ':')
  let raw ← reading (Reader.readUntil [';', '}'])
  let (raw, isDefault) := splitDefault raw.trim
  let value ← resolveValue environment raw
  let (taken, scopes) := (← get).scopes.define name value.unquote isDefault
  modify fun state => { state with scopes }
  if !taken then record (.variableKept name)
  reading (Reader.skipChar ';')

/-- The block that a head opens: `name:` continues property names, anything else
is a selector list. -/
def blockOf (environment : Environment) (head : Text) : Compile Block := do
  let enclosing := (← get).blocks.head?
  match [':'].isSuffixOf? head with
  | some name =>
      match enclosing with
      | none => form (.nestedPropertyOutside (Text.trim name))
      | some block =>
          let name ← interpolate environment (Text.trim name)
          return { block with stem := block.stem ++ name.trim ++ ['-'] }
  | none =>
      let text ← interpolate environment head
      let children ← check (Selector.parseList text)
      let selectors ← check
          (Selector.combine (enclosing.map Block.selectors) children)
      return { selectors }

/-- A head and the brace after it. -/
def blockStatement (environment : Environment) : Compile Unit := do
  let head ← reading (Reader.readUntil ['{'])
  let block ← blockOf environment head.trim
  reading (Cursor.expect '{')
  openBlock block

/-- Adds a property to the sheet; a rule that starts with it is looked over. -/
def addProperty (block : Block) (name value : Text) : Compile Unit := do
  let starts := (← get).sheet.startsRule block.selectors
  let property := { name := block.stem ++ name, value : Property }
  modify fun state =>
    { state with sheet := state.sheet.addProperty block.selectors property }
  if starts then
    (block.selectors.filter Selector.isHarmful).forM fun selector =>
      warn (.harmfulSelector selector)

/-- `name: value` up to `;` or the end of the block. -/
def declaration (environment : Environment) : Compile Unit := do
  let raw ← reading (Reader.readUntil [';', '}'])
  match (← get).blocks with
  | [] => form (.propertyOutside raw.trim)
  | block :: _ =>
      match splitDeclaration? raw with
      | none => form (.colonExpected raw.trim)
      | some (name, value) =>
          let name := (← interpolate environment name.trim).trim
          if name.isEmpty then form .propertyNameExpected
          let value ← resolveValue environment value
          if value.isEmpty then form (.valueExpected name)
          addProperty block name value
          reading (Reader.skipChar ';')

/-- A block or a declaration, whichever ends first. -/
def statement (environment : Environment) : Compile Unit := do
  match Boundary.ofText (← get).cursor.pending with
  | .opening => blockStatement environment
  | .semicolon | .closing | .ending => declaration environment

end Stylesheet.Compile
