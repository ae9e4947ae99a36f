import Stylesheet.Proofs.PlainText

/-!
# Trees of statements

A stylesheet made of variables, declarations, rules and nested properties is the
printed form of a tree.  This module has the trees, the texts that they are
printed as, and an evaluator that works on the tree alone: it keeps a stack of
scopes, one for every block around the statement, and lists the properties in
the order of their declarations.
-/

namespace Stylesheet.Tree

/-- Letters and digits.  Beyond ASCII, whatever is not blank counts as a
letter. -/
def isLetter (c : Char) : Bool :=
  c.isAlphanum || (0x7F < c.toNat && !isBlank c)

/-- The characters of selectors. -/
def isTargetChar (c : Char) : Bool :=
  isLetter c || ['.', '#', '_', '-', '&'].contains c

/-- The characters of values that stand for themselves. -/
def isValueChar (c : Char) : Bool :=
  isLetter c || ['#', '%', '.', '-', '_'].contains c

/-- The name of a property. -/
structure Name where
  text : Text
  nonempty : text ≠ []
  nameChars : ∀ c ∈ text, isNameChar c = true

/-- The name of a variable, which can be referred to. -/
structure VariableName extends Name where
  referable : Variable.startsReference text = true

/-- A single selector. -/
structure Target where
  text : Text
  tidy : Tidy isTargetChar text

/-- A character of a value, or a reference to a variable. -/
inductive Piece where
  | char (c : Char) (allowed : isValueChar c = true)
  | reference (name : VariableName)

namespace Piece

def text : Piece → Text
  | .char c _ => [c]
  | .reference name => '$' :: name.text

/-- Whether the piece would go on with a name that stands right before it. -/
def continuesName : Piece → Bool
  | .char c _ => isNameChar c
  | .reference _ => false

def isReference : Piece → Bool
  | .char _ _ => false
  | .reference _ => true

end Piece

/-- Pieces with single spaces between some of them.  The index tells whether the
value would go on with a name that stands right before it, so no reference is
followed by something that belongs to its name. -/
inductive Value : Bool → Type where
  | last (piece : Piece) : Value piece.continuesName
  | joined {continues : Bool} (piece : Piece) (rest : Value continues)
      (apart : piece.isReference = true → continues = false) :
        Value piece.continuesName
  | spaced {continues : Bool} (piece : Piece) (rest : Value continues) :
      Value piece.continuesName

def Value.text {continues : Bool} : Value continues → Text
  | .last piece => piece.text
  | .joined piece rest _ => piece.text ++ rest.text
  | .spaced piece rest => piece.text ++ ' ' :: rest.text

/-- Statements in a row; the index tells whether they stand inside of a rule. -/
inductive Statements : Bool → Type where
  | done {inside : Bool} : Statements inside
  | definition {inside continues : Bool} (name : VariableName)
      (value : Value continues)
      (isDefault : Bool) (next : Statements inside) : Statements inside
  | declaration {continues : Bool} (name : Name) (value : Value continues)
      (next : Statements true) : Statements true
  | rule {inside : Bool} (first : Target) (others : List Target)
      (body : Statements true) (next : Statements inside) : Statements inside
  | nested (name : Name) (body next : Statements true) : Statements true

/-- White space, or nothing. -/
def Spaces (gap : Text) : Prop :=
  ∀ c ∈ gap, isSpace c = true

/-- The selectors of a rule with commas between them. -/
inductive PrintsTargets : Target → List Target → Text → Prop where
  | one (only : Target) : PrintsTargets only [] only.text
  | more {first second : Target} {others : List Target}
      {before after text : Text} :
      Spaces before → Spaces after → PrintsTargets second others text →
      PrintsTargets first (second :: others)
        (first.text ++ before ++ ',' :: (after ++ text))

/-- What marks a definition as a default. -/
def defaultMark (gap : Text) (isDefault : Bool) : Text :=
  if isDefault then gap ++ "!default".toList else []

/-- The texts of statements.  White space is free but for the place before a
brace, where there has to be some. -/
inductive Prints : {inside : Bool} → Statements inside → Text → Prop where
  | done {inside : Bool} {gap : Text} : Spaces gap →
      Prints (.done : Statements inside) gap
  | definition {inside continues isDefault : Bool} {name : VariableName}
      {value : Value continues}
      {next : Statements inside} {lead before mark after text : Text} :
      Spaces lead → Spaces before → Spaces mark → Spaces after →
        Prints next text →
      Prints (.definition name value isDefault next)
        (lead ++ '$' :: (name.text ++ ':' ::
          (before ++ (value.text ++ defaultMark mark isDefault) ++ after ++
            ';' :: text)))
  | declaration {continues : Bool} {name : Name} {value : Value continues}
      {next : Statements true} {lead before after text : Text} :
      Spaces lead → Spaces before → Spaces after → Prints next text →
      Prints (.declaration name value next)
        (lead ++ (name.text ++ ':' :: (before ++ value.text ++ after)) ++
          ';' :: text)
  | rule {inside : Bool} {first : Target} {others : List Target}
      {body : Statements true}
      {next : Statements inside} {lead targets space contents text : Text} :
      Spaces lead → PrintsTargets first others targets →
        Spaces space → space ≠ [] →
      Prints body contents → Prints next text →
      Prints (.rule first others body next)
        (lead ++ (targets ++ space) ++ '{' :: (contents ++ '}' :: text))
  | nested {name : Name} {body next : Statements true}
      {lead space contents text : Text} :
      Spaces lead → Spaces space → space ≠ [] → Prints body contents →
        Prints next text →
      Prints (.nested name body next)
        (lead ++ (name.text ++ ':' :: space) ++ '{' ::
          (contents ++ '}' :: text))

/-- What a variable stands for, and whether it was defined with `!default`. -/
structure Entry where
  value : Text
  fromDefault : Bool
  deriving DecidableEq, Repr

/-- The variables of a block, the latest definitions first. -/
abbrev Scope := List (Text × Entry)

/-- The innermost variable of a name. -/
def find (scopes : List Scope) (name : Text) : Option Entry :=
  scopes.findSome? (·.lookup name)

/-- Defines a variable in the innermost scope, unless a default comes too
late. -/
def define (scopes : List Scope) (name value : Text)
    (isDefault : Bool) : List Scope :=
  match isDefault, find scopes name with
  | true, some ⟨_, false⟩ => scopes
  | _, _ => scopes.modifyHead ((name, { value, fromDefault := isDefault }) :: ·)

/-- A property under its selectors. -/
structure Emission where
  selectors : List Text
  property : Property
  deriving DecidableEq, Repr

/-- Puts properties in front of the first rule if that has the same selectors,
and in a rule of their own otherwise. -/
def attach (selectors : List Text) (properties : List Property) :
    List Definition → List Definition
  | .rule first others :: rest =>
      if first == selectors then .rule selectors (properties ++ others) :: rest
      else .rule selectors properties :: .rule first others :: rest
  | rest => .rule selectors properties :: rest

/-- The rules for a list of properties: neighbours under the same selectors
share one. -/
def gather : List Emission → List Definition
  | [] => []
  | emission :: rest =>
      attach emission.selectors [emission.property] (gather rest)

/-- The scopes around a statement, the innermost first, and what was declared
before. -/
structure Evaluation where
  scopes : List Scope := [[]]
  emitted : List Emission := []
  deriving DecidableEq, Repr

/-- The variables outside of all blocks. -/
def Evaluation.globals (evaluation : Evaluation) : Scope :=
  evaluation.scopes.getLastD []

/-- The selectors around a statement, and what is put in front of property
names. -/
inductive Context : Bool → Type where
  | outside : Context false
  | inside (selectors : List Text) (stem : Text) : Context true

def Context.selectors? {inside : Bool} : Context inside → Option (List Text)
  | .outside => none
  | .inside selectors _ => some selectors

def Piece.evaluate (scopes : List Scope) : Piece → Except Error Text
  | .char c _ => .ok [c]
  | .reference name =>
      match find scopes name.text with
      | some entry => .ok entry.value
      | none => .error (.undefinedVariable name.text)

/-- One text after the other. -/
def follow (first second : Except Error Text) : Except Error Text := do
  return (← first) ++ (← second)

def Value.evaluate {continues : Bool} (scopes : List Scope) :
    Value continues → Except Error Text
  | .last piece => piece.evaluate scopes
  | .joined piece rest _ =>
      follow (piece.evaluate scopes) (rest.evaluate scopes)
  | .spaced piece rest =>
      follow (piece.evaluate scopes) (follow (.ok [' ']) (rest.evaluate scopes))

/-- Work on an evaluation; what was done before an error stays done. -/
abbrev Evaluate := EStateM Error Evaluation

def attempt {α : Type} : Except Error α → Evaluate α
  | .ok value => pure value
  | .error error => throw error

/-- The effect of a variable definition. -/
def assign {continues : Bool} (name : VariableName) (value : Value continues)
    (isDefault : Bool) :
    Evaluate Unit := do
  let text ← attempt (value.evaluate (← get).scopes)
  modify fun evaluation =>
    { evaluation with
      scopes := define evaluation.scopes name.text text isDefault }

/-- The effect of a declaration. -/
def emit {continues : Bool} (selectors : List Text) (name : Text)
    (value : Value continues) :
    Evaluate Unit := do
  let text ← attempt (value.evaluate (← get).scopes)
  modify fun evaluation =>
    { evaluation with
      emitted := evaluation.emitted ++
        [{ selectors, property := { name, value := text } }] }

/-- Evaluates the statements of a block in a scope of their own. -/
def inScope (body : Evaluate Unit) : Evaluate Unit := do
  modify fun evaluation => { evaluation with scopes := [] :: evaluation.scopes }
  body
  modify fun evaluation => { evaluation with scopes := evaluation.scopes.tail }

def Statements.evaluate {inside : Bool} (context : Context inside) :
    Statements inside → Evaluate Unit
  | .done => pure ()
  | .definition name value isDefault next => do
      assign name value isDefault
      next.evaluate context
  | .declaration name value next =>
      match context with
      | .inside selectors stem => do
          emit selectors (stem ++ name.text) value
          next.evaluate (.inside selectors stem)
  | .rule first others body next => do
      let children := (first :: others).map Target.text
      let selectors ← attempt (Selector.combine context.selectors? children)
      inScope (body.evaluate (.inside selectors []))
      next.evaluate context
  | .nested name body next =>
      match context with
      | .inside selectors stem => do
          inScope
            (body.evaluate (.inside selectors (stem ++ name.text ++ ['-'])))
          next.evaluate (.inside selectors stem)

/-- The error that work ended with, if there was one. -/
def failure? {α : Type} : EStateM.Result Error Evaluation α → Option Error
  | .ok _ _ => none
  | .error error _ => some error

end Stylesheet.Tree
