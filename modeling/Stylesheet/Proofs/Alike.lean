import Mathlib.Data.List.Forall2
import Stylesheet.Proofs.Pending
import Stylesheet.Proofs.Footprint

/-!
# Positions make no difference

Where the text of a stylesheet comes from is noted for reports: the file and
line of a source, the index and the last characters of a cursor, the place and
the uses of a mixin.  Two states are `Alike` if they differ in nothing else.  A
run goes the same way from both: it ends with the same error or with none, and
with the same definitions and variables.
-/

namespace Stylesheet

/-- Results that are related, or the same error, in states that are alike. -/
def Paired {σ α : Type} (alike : σ → σ → Prop) (related : α → α → Prop) :
    EStateM.Result Error σ α → EStateM.Result Error σ α → Prop
  | .ok value after, .ok result final =>
      related value result ∧ alike after final
  | .error error after, .error fault final => error = fault ∧ alike after final
  | _, _ => False

theorem Paired.ok {σ α : Type} {alike : σ → σ → Prop}
    {related : α → α → Prop} {value : α} {after : σ}
    {result : EStateM.Result Error σ α}
    (paired : Paired alike related (.ok value after) result) :
    ∃ shown final, result = .ok shown final ∧ related value shown ∧
      alike after final := by
  cases result with
  | ok shown final => exact ⟨shown, final, rfl, paired⟩
  | error fault final => exact paired.elim

/-- The two actions give pairs on states that are alike. -/
def Parallel {σ α : Type} (alike : σ → σ → Prop) (related : α → α → Prop)
    (first second : EStateM Error σ α) : Prop :=
  ∀ state other, alike state other →
    Paired alike related (first state) (second other)

/-- An action that gives the same on states that are alike. -/
abbrev Steady {σ α : Type} (alike : σ → σ → Prop)
    (action : EStateM Error σ α) : Prop :=
  Parallel alike Eq action action

/-- Results that are related, or the same error. -/
def Agreeing {α : Type} (related : α → α → Prop) : Except Error α →
    Except Error α → Prop
  | .ok value, .ok result => related value result
  | .error error, .error fault => error = fault
  | _, _ => False

namespace Parallel

variable {σ α β : Type} {alike : σ → σ → Prop} {related : α → α → Prop}

theorem pure {value result : α} (same : related value result) :
    Parallel alike related (Pure.pure value) (Pure.pure result) :=
  fun _ _ standing => ⟨same, standing⟩

theorem throw (error : Error) :
    Parallel alike related (MonadExcept.throw error)
      (MonadExcept.throw error) :=
  fun _ _ standing => ⟨rfl, standing⟩

theorem bind {linked : β → β → Prop} {first second : EStateM Error σ α}
    {next further : α → EStateM Error σ β}
    (leading : Parallel alike related first second)
    (following : ∀ value result, related value result →
      Parallel alike linked (next value) (further result)) :
    Parallel alike linked (first >>= next) (second >>= further) := by
  intro state other standing
  have begun := leading state other standing
  rw [bind_apply, bind_apply]
  cases left : first state with
  | ok value after =>
      cases right : second other with
      | ok result final =>
          rw [left, right] at begun
          exact following value result begun.1 after final begun.2
      | error fault final =>
          rw [left, right] at begun
          exact begun.elim
  | error error after =>
      cases right : second other with
      | ok result final =>
          rw [left, right] at begun
          exact begun.elim
      | error fault final =>
          rw [left, right] at begun
          exact begun

/-- After a step that gives the same on both sides. -/
theorem after {linked : β → β → Prop} {first second : EStateM Error σ α}
    {next further : α → EStateM Error σ β}
    (leading : Parallel alike Eq first second)
    (following : ∀ value, Parallel alike linked (next value) (further value)) :
    Parallel alike linked (first >>= next) (second >>= further) :=
  leading.bind fun value _ same => same ▸ following value

theorem getThen {next further : σ → EStateM Error σ α}
    (following : ∀ seen shown, alike seen shown →
      Parallel alike related (next seen) (further shown)) :
    Parallel alike related (get >>= next) (get >>= further) :=
  fun state other standing =>
    following state other standing state other standing

theorem modifying {change shift : σ → σ}
    (same : ∀ state other, alike state other →
      alike (change state) (shift other)) :
    Parallel alike Eq (modify change : EStateM Error σ PUnit) (modify shift) :=
  fun state other standing => ⟨rfl, same state other standing⟩

theorem onlyIf {condition : Prop} [Decidable condition]
    {first second : EStateM Error σ PUnit}
    {next further : PUnit → EStateM Error σ α}
    (sometimes : Parallel alike Eq first second)
    (following : Parallel alike related (next ⟨⟩) (further ⟨⟩)) :
    Parallel alike related (if condition then first >>= next else next ⟨⟩)
      (if condition then second >>= further else further ⟨⟩) := by
  split
  · exact sometimes.after fun _ => following
  · exact following

theorem forM {items : List α} {first second : α → EStateM Error σ PUnit}
    (each : ∀ item, Parallel alike Eq (first item) (second item)) :
    Parallel alike Eq (items.forM first) (items.forM second) := by
  induction items with
  | nil => exact pure rfl
  | cons item items ih => exact (each item).after fun _ => ih

theorem mapM {items : List α} {first second : α → EStateM Error σ β}
    (each : ∀ item, Parallel alike Eq (first item) (second item)) :
    Parallel alike Eq (items.mapM first) (items.mapM second) := by
  induction items with
  | nil =>
      rw [List.mapM_nil, List.mapM_nil]
      exact pure rfl
  | cons item items ih =>
      rw [List.mapM_cons, List.mapM_cons]
      exact (each item).after fun _ => ih.after fun _ => pure rfl

end Parallel

namespace Cursor

/-- The same texts to read, source by source. -/
structure Alike (cursor other : Cursor) : Prop where
  current : cursor.current = other.current
  top : cursor.top.text = other.top.text
  below : cursor.below.map Source.text = other.below.map Source.text

variable {cursor other : Cursor}

theorem Alike.refl (cursor : Cursor) : cursor.Alike cursor :=
  ⟨rfl, rfl, rfl⟩

theorem alike_of_layers (ready : cursor.Ready) (shown : other.Ready)
    (same : cursor.layers = other.layers) : cursor.Alike other := by
  have current : cursor.current = other.current := by
    rw [current_eq_head? ready, current_eq_head? shown, ← flatten_layers, same,
      flatten_layers]
  unfold layers at same
  rw [current, List.cons.injEq, List.append_cancel_left_eq] at same
  exact ⟨current, same.1, same.2⟩

theorem Alike.pending (alike : cursor.Alike other) :
    cursor.pending = other.pending := by
  rw [← flatten_layers, ← flatten_layers, layers, layers, alike.current,
    alike.top, alike.below]

theorem Alike.isAt (alike : cursor.Alike other) (c : Char) :
    cursor.isAt c = other.isAt c := by
  rw [Cursor.isAt, Cursor.isAt, alike.current]

private theorem draw_alike {top high : Source} {below low : List Source}
    (tops : top.text = high.text)
    (lower : below.map Source.text = low.map Source.text) :
    (draw top below).1 = (draw high low).1 ∧
      (draw top below).2.1.text = (draw high low).2.1.text ∧
      (draw top below).2.2.map Source.text =
        (draw high low).2.2.map Source.text := by
  induction below generalizing top high low with
  | nil =>
      obtain rfl : low = [] := by simpa using lower.symm
      unfold draw
      rw [← tops]
      cases text : top.text with
      | nil => simp [text, ← tops]
      | cons c rest => simp
  | cons next below ih =>
      cases low with
      | nil => simp at lower
      | cons following low =>
          simp only [List.map_cons, List.cons.injEq] at lower
          cases text : top.text with
          | nil =>
              rw [tops] at text
              rw [draw.eq_def, draw.eq_def high, tops, text]
              exact ih lower.1 lower.2
          | cons c rest =>
              rw [tops] at text
              rw [draw.eq_def, draw.eq_def high, tops, text]
              simp [lower]

theorem Alike.advance (alike : cursor.Alike other) :
    cursor.advance.Alike other.advance := by
  obtain ⟨current, top, below⟩ := draw_alike alike.top alike.below
  exact ⟨current, top, below⟩

theorem Alike.advanceBy (alike : cursor.Alike other) (count : Nat) :
    (cursor.advanceBy count).Alike (other.advanceBy count) := by
  induction count generalizing cursor other with
  | zero => exact alike
  | succ count ih => exact ih alike.advance

theorem Alike.skipSpace (alike : cursor.Alike other) :
    cursor.skipSpace.Alike other.skipSpace := by
  unfold Cursor.skipSpace
  rw [alike.current, alike.pending]
  split
  · exact alike
  · exact alike.advanceBy _

theorem Alike.putBack (alike : cursor.Alike other) :
    cursor.putBack.Alike other.putBack := by
  unfold Cursor.putBack
  rw [alike.current]
  split
  · exact alike
  · exact ⟨rfl, congrArg (_ :: ·) alike.top, alike.below⟩

theorem Alike.insert (alike : cursor.Alike other) {source shown : Source}
    (same : source.text = shown.text) :
    Agreeing Alike (cursor.insert source) (other.insert shown) := by
  have depth : cursor.below.length = other.below.length := by
    simpa using congrArg List.length alike.below
  unfold Cursor.insert
  rw [depth]
  by_cases full : maxSources ≤ other.below.length + 1
  · rw [if_pos full, if_pos full]
    exact rfl
  · rw [if_neg full, if_neg full]
    have back := alike.putBack
    refine Alike.advance ⟨back.current, same, ?_⟩
    simp [back.top, back.below]

end Cursor

namespace Reader

variable {α : Type}

theorem steady_advance :
    Steady Cursor.Alike (modify Cursor.advance : Reader PUnit) :=
  .modifying fun _ _ alike => alike.advance

theorem steady_pass (text : Text) : Steady Cursor.Alike (pass text) :=
  .modifying fun _ _ alike => alike.advanceBy _

theorem steady_expect (c : Char) : Steady Cursor.Alike (Cursor.expect c) := by
  intro cursor other alike
  unfold Cursor.expect
  rw [alike.isAt, alike.current]
  by_cases standing : other.isAt c = true
  · rw [if_pos standing, if_pos standing]
    exact ⟨rfl, alike.advance⟩
  · rw [if_neg standing, if_neg standing]
    exact ⟨rfl, alike⟩

theorem steady_readUntil (stops : List Char) :
    Steady Cursor.Alike (readUntil stops) := by
  refine .getThen fun seen shown alike => ?_
  rw [alike.pending]
  refine (steady_pass _).after fun _ => ?_
  split
  · exact .pure rfl
  · exact .throw _

theorem steady_readGroup (opening closing : Char) :
    Steady Cursor.Alike (readGroup opening closing) := by
  refine (steady_expect opening).after fun _ =>
    .getThen fun seen shown alike => ?_
  rw [alike.pending]
  dsimp only
  split
  · exact (steady_pass _).after fun _ => steady_advance.after fun _ => .pure rfl
  · exact (steady_pass _).after fun _ => .throw _

theorem steady_readName : Steady Cursor.Alike readName := by
  refine .getThen fun seen shown alike => ?_
  rw [alike.pending]
  exact (steady_pass _).after fun _ => .pure rfl

theorem steady_skipSpace : Steady Cursor.Alike skipSpace :=
  .modifying fun _ _ alike => alike.skipSpace

theorem steady_skipChar (c : Char) : Steady Cursor.Alike (skipChar c) := by
  refine .modifying fun cursor other alike => ?_
  rw [alike.isAt]
  split
  · exact alike.advance
  · exact alike

theorem steady_skipWord? (word : Text) :
    Steady Cursor.Alike (skipWord? word) := by
  refine .getThen fun seen shown alike => ?_
  rw [alike.pending]
  split
  · exact .pure rfl
  · split
    · exact .pure rfl
    · exact (steady_pass _).after fun _ => .pure rfl

end Reader

/-- Mixins that are included in the same way. -/
structure Mixin.Alike (mixin other : Mixin) : Prop where
  name : mixin.name = other.name
  parameters : mixin.parameters = other.parameters
  body : mixin.body = other.body

theorem Mixin.Alike.recordUse {mixin other : Mixin} (alike : mixin.Alike other)
    (file second : Option Text) :
    (mixin.recordUse file).Alike (other.recordUse second) where
  name := by rw [name_recordUse, name_recordUse, alike.name]
  parameters := by
    rw [parameters_recordUse, parameters_recordUse, alike.parameters]
  body := by rw [body_recordUse, body_recordUse, alike.body]

/-- Lists stay related when both get related items in one place. -/
theorem forall₂_set {α : Type} {related : α → α → Prop} {items others : List α}
    (each : List.Forall₂ related items others) {item other : α}
    (same : related item other) (place : Nat) :
    List.Forall₂ related (items.set place item) (others.set place other) := by
  induction each generalizing place with
  | nil => exact .nil
  | cons here later ih =>
      cases place with
      | zero => exact .cons same later
      | succ place => exact .cons here (ih place)

namespace Mixins

/-- Registries of such mixins, under the same names. -/
structure Alike (mixins other : Mixins) : Prop where
  index : mixins.index = other.index
  each : List.Forall₂ Mixin.Alike mixins.toList other.toList

variable {mixins other : Mixins}

theorem Alike.refl (mixins : Mixins) : mixins.Alike mixins where
  index := rfl
  each := List.forall₂_same.mpr fun _ _ => ⟨rfl, rfl, rfl⟩

theorem Alike.place? (alike : mixins.Alike other) (name : Text) :
    mixins.place? name = other.place? name := by
  rw [Mixins.place?, Mixins.place?, alike.index]

theorem Alike.get? (alike : mixins.Alike other) (name : Text) :
    mixins.get? name = none ∧ other.get? name = none ∨
      ∃ mixin shown, mixins.get? name = some mixin ∧
        other.get? name = some shown ∧
        mixin.Alike shown := by
  have length := alike.each.length_eq
  unfold Mixins.get?
  rw [alike.place?]
  cases other.place? name with
  | none => exact .inl ⟨rfl, rfl⟩
  | some place =>
      change mixins.toList[place]? = none ∧ other.toList[place]? = none ∨
        ∃ mixin shown, mixins.toList[place]? = some mixin ∧
          other.toList[place]? = some shown ∧
          mixin.Alike shown
      rcases Nat.lt_or_ge place other.toList.length with inside | outside
      · have listed : place < mixins.toList.length := length ▸ inside
        exact .inr ⟨_, _, List.getElem?_eq_getElem listed,
          List.getElem?_eq_getElem inside, alike.each.get listed inside⟩
      · exact .inl ⟨List.getElem?_eq_none (length ▸ outside),
          List.getElem?_eq_none outside⟩

theorem Alike.contains (alike : mixins.Alike other) (name : Text) :
    mixins.contains name = other.contains name := by
  rw [Mixins.contains, Mixins.contains, alike.place?]

theorem Alike.replace (alike : mixins.Alike other) {mixin shown : Mixin}
    (same : mixin.Alike shown) :
    (mixins.replace mixin).Alike (other.replace shown) := by
  unfold Mixins.replace
  rw [alike.place?, same.name]
  split
  · exact ⟨alike.index, forall₂_set alike.each same _⟩
  · exact alike

theorem Alike.define (alike : mixins.Alike other) {mixin shown : Mixin}
    (same : mixin.Alike shown) :
    (mixins.define mixin).Alike (other.define shown) := by
  unfold Mixins.define
  rw [alike.contains, same.name]
  split
  · exact alike.replace same
  · refine ⟨?_, List.rel_append alike.each (.cons same .nil)⟩
    rw [alike.index, alike.each.length_eq]

/-- Inclusions from different places differ in nothing that is read. -/
theorem Alike.expanded (alike : mixins.Alike other) (name : Text)
    (arguments : List Text) (file second : Option Text) (scopes : Scopes) :
    Agreeing
      (fun result shown =>
        result.1.text = shown.1.text ∧ result.2.1.Alike shown.2.1 ∧
          result.2.2 = shown.2.2)
      (mixins.expanded name arguments file scopes)
        (other.expanded name arguments second scopes) := by
  unfold Mixins.expanded
  obtain ⟨none, missing⟩ | ⟨mixin, shown, found, present, same⟩ :=
    alike.get? name
  · rw [none, missing]
    exact rfl
  · rw [found, present]
    dsimp only
    rw [same.parameters, same.body]
    by_cases count : (arguments.length != shown.parameters.length) = true
    · rw [if_pos count, if_pos count]
      exact rfl
    · rw [if_neg count, if_neg count]
      exact ⟨rfl, alike.replace (same.recordUse file second), rfl⟩

end Mixins

/-- Related states have the same variables, and stay related when both get
others. -/
structure SharesScopes (alike : State → State → Prop) : Prop where
  scopes {state other : State} : alike state other → state.scopes = other.scopes
  resolved {state other : State} : alike state other → ∀ scopes log record,
    alike { state with scopes, log } { other with scopes, log := record }

/-- Related states have the same output too, and stay related when both get
another. -/
structure SharesSheet (alike : State → State → Prop) :
    Prop extends SharesScopes alike where
  sheet {state other : State} : alike state other → state.sheet = other.sheet
  printed {state other : State} : alike state other → ∀ sheet,
    alike { state with sheet } { other with sheet }

namespace Compile

section

variable {α : Type} {alike : State → State → Prop} {related : α → α → Prop}

theorem parallel_check {result other : Except Error α}
    (same : Agreeing related result other) :
    Parallel alike related (check result) (check other) := by
  cases result with
  | ok value =>
      cases other with
      | ok shown => exact .pure same
      | error fault => exact same.elim
  | error error =>
      cases other with
      | ok shown => exact same.elim
      | error fault =>
          obtain rfl : error = fault := same
          exact .throw error

theorem steady_check (result : Except Error α) :
    Steady alike (check result) := by
  cases result with
  | ok value => exact .pure rfl
  | error error => exact .throw error

theorem steady_form (fault : FormFault) :
    Steady alike (form fault : Compile α) :=
  .throw _

theorem steady_evaluateCondition (text : Text) :
    Steady alike (evaluateCondition text) := by
  unfold evaluateCondition
  split
  · exact .pure rfl
  · exact .throw _

end

section

variable {alike : State → State → Prop} (shares : SharesScopes alike)
include shares

theorem parallel_record (event happening : Event) :
    Parallel alike Eq (record event) (record happening) := by
  refine .modifying fun state other standing => ?_
  rw [shares.scopes standing]
  exact shares.resolved standing other.scopes _ _

theorem steady_warn (warning : Warning) : Steady alike (warn warning) :=
  .getThen fun _ _ _ => parallel_record shares _ _

theorem steady_resolving {α : Type} (action : EStateM Error Scopes α) :
    Steady alike (resolving action) := by
  intro state other standing
  unfold resolving
  rw [shares.scopes standing]
  cases action other.scopes with
  | ok value scopes =>
      exact ⟨rfl, shares.resolved standing scopes state.log other.log⟩
  | error error scopes =>
      exact ⟨rfl, shares.resolved standing scopes state.log other.log⟩

variable (environment : Environment)

theorem steady_finishValue (text : Text) :
    Steady alike (finishValue environment text) :=
  (steady_resolving shares _).after fun _ => (steady_check _).after fun _ =>
    (Parallel.forM fun _ => steady_warn shares _).after fun _ => .pure rfl

theorem steady_fill (template : Template) :
    Steady alike (fill environment template) := by
  induction template with
  | done => exact .pure rfl
  | char c rest ih => exact ih.after fun _ => .pure rfl
  | hole inner rest innerSteady restSteady =>
      exact innerSteady.after fun _ =>
        (steady_finishValue shares environment _).after fun _ =>
        restSteady.after fun _ => .pure rfl
  | broken => exact steady_form _

theorem steady_interpolate (text : Text) :
    Steady alike (interpolate environment text) :=
  steady_fill shares environment _

theorem steady_resolveValue (text : Text) :
    Steady alike (resolveValue environment text) :=
  (steady_interpolate shares environment text).after fun _ =>
    steady_finishValue shares environment _

theorem steady_resolveArguments (list : Option Text) :
    Steady alike (resolveArguments environment list) :=
  .mapM fun _ => steady_resolveValue shares environment _

theorem steady_blockOf
    (blocks : ∀ {state other : State}, alike state other →
      state.blocks = other.blocks)
    (head : Text) : Steady alike (blockOf environment head) := by
  refine .getThen fun seen shown standing => ?_
  rw [blocks standing]
  dsimp only
  split
  · split
    · exact steady_form _
    · exact (steady_interpolate shares environment _).after fun _ => .pure rfl
  · exact (steady_interpolate shares environment _).after fun _ =>
      (steady_check _).after fun _ => (steady_check _).after fun _ => .pure rfl

end

section

variable {alike : State → State → Prop} (shares : SharesSheet alike)
include shares

theorem steady_addProperty (block : Block) (name value : Text) :
    Steady alike (addProperty block name value) := by
  refine .getThen fun seen shown standing => ?_
  rw [shares.sheet standing]
  refine Parallel.bind (.modifying fun state other standing => ?_)
    fun _ _ _ => ?_
  · rw [shares.sheet standing]
    exact shares.printed standing _
  · split
    · exact .forM fun _ => steady_warn shares.toSharesScopes _
    · exact .pure rfl

theorem steady_comment (environment : Environment) (text : Text) :
    Steady alike (comment environment text) := by
  refine .modifying fun state other standing => ?_
  split
  · rw [shares.sheet standing]
    exact shares.printed standing _
  · exact standing

end

end Compile

/-- What an action that looks variables up gives, and how often it does. -/
def consult {α : Type} (action : Compile α) :
    EStateM Error Scopes α := fun scopes =>
  match action { scopes, cursor := Cursor.ofText [] none } with
  | .ok value state => .ok value state.scopes
  | .error error state => .error error state.scopes

section Consulting

variable {α : Type} {action : Compile α}

theorem consulted_consult (resolved : Always Compile.Resolved action) :
    Always Scopes.Consulted (consult action) := by
  intro scopes
  have looked := resolved { scopes, cursor := Cursor.ofText [] none }
  unfold consult
  split
  · rename_i result
    rw [result] at looked
    exact looked.scopes
  · rename_i result
    rw [result] at looked
    exact looked.scopes

theorem sharesScopes_scopes :
    SharesScopes fun state other : State => state.scopes = other.scopes where
  scopes := id
  resolved _ _ _ _ := rfl

theorem error_of_consult
    (steady : Steady (fun state other => state.scopes = other.scopes) action)
    {state : State} {error : Error} {scopes : Scopes}
    (failed : consult action state.scopes = .error error scopes) :
    ∃ final, action state = .error error final := by
  have same :=
    steady { scopes := state.scopes, cursor := Cursor.ofText [] none } state rfl
  unfold consult at failed
  split at failed
  · simp at failed
  · rename_i fault blank gives
    obtain ⟨rfl, -⟩ : fault = error ∧ blank.scopes = scopes := by
      simpa using failed
    rw [gives] at same
    cases given : action state with
    | ok value after =>
        rw [given] at same
        exact same.elim
    | error error after =>
        rw [given] at same
        exact ⟨after, by rw [same.1]⟩

/-- Nothing but the variables of a state tells what the action gives. -/
theorem of_consult
    (steady : Steady (fun state other => state.scopes = other.scopes) action)
    (resolved : Always Compile.Resolved action) {state : State} {value : α}
    {scopes : Scopes} (found : consult action state.scopes = .ok value scopes) :
    ∃ log, action state = .ok value (state.noting scopes log) := by
  have same :=
    steady { scopes := state.scopes, cursor := Cursor.ofText [] none } state rfl
  have looked := resolved state
  unfold consult at found
  split at found
  · rename_i result blank gives
    obtain ⟨rfl, rfl⟩ : result = value ∧ blank.scopes = scopes := by
      simpa using found
    rw [gives] at same
    obtain ⟨shown, after, here, rfl, scopes⟩ := same.ok
    rw [here] at looked
    refine ⟨after.log, ?_⟩
    rw [here, State.noting, scopes, ← looked.mixins, ← looked.sheet,
      ← looked.dependencies, ← looked.cursor, ← looked.blocks]
    rfl
  · simp at found

end Consulting

namespace State

/-- The same text to read, and the same but for positions, uses of mixins and
the log. -/
structure Alike (state other : State) : Prop where
  scopes : state.scopes = other.scopes
  sheet : state.sheet = other.sheet
  dependencies : state.dependencies = other.dependencies
  blocks : state.blocks = other.blocks
  mixins : state.mixins.Alike other.mixins
  cursor : state.cursor.Alike other.cursor

theorem shares_alike : SharesScopes Alike where
  scopes alike := alike.scopes
  resolved alike _ _ _ := { alike with scopes := rfl }

theorem sharesSheet_alike : SharesSheet Alike where
  toSharesScopes := shares_alike
  sheet alike := alike.sheet
  printed alike _ := { alike with sheet := rfl }

end State

namespace Compile

open Parallel State

variable {α : Type}

theorem steady_reading {reader : Reader α}
    (steady : Steady Cursor.Alike reader) :
    Steady State.Alike (reading reader) := by
  intro state other alike
  have read := steady _ _ alike.cursor
  unfold reading
  cases left : reader state.cursor with
  | ok value after =>
      cases right : reader other.cursor with
      | ok result final =>
          rw [left, right] at read
          exact ⟨read.1, { alike with cursor := read.2 }⟩
      | error fault final =>
          rw [left, right] at read
          exact read.elim
  | error error after =>
      cases right : reader other.cursor with
      | ok result final =>
          rw [left, right] at read
          exact read.elim
      | error fault final =>
          rw [left, right] at read
          exact ⟨read.1, { alike with cursor := read.2 }⟩

theorem steady_openBlock (block : Block) :
    Steady State.Alike (openBlock block) :=
  .modifying fun _ _ alike =>
    { alike with
      scopes := congrArg Scopes.push alike.scopes
      blocks := congrArg (block :: ·) alike.blocks }

theorem parallel_splice {source shown : Source}
    (same : source.text = shown.text) :
    Parallel State.Alike Eq (splice source) (splice shown) :=
  .getThen fun _ _ alike => (parallel_check (alike.cursor.insert same)).bind
    fun _ _ inserted =>
    .modifying fun _ _ alike => { alike with cursor := inserted }

section Statements

variable (environment : Environment)

theorem steady_closeBlock : Steady State.Alike closeBlock := by
  refine .getThen fun seen other alike => ?_
  rw [alike.blocks]
  split
  · exact .throw _
  · exact Parallel.bind
      (.modifying fun _ _ alike => { alike with blocks := rfl }) fun _ _ _ =>
        (steady_resolving shares_alike _).after fun _ =>
          steady_reading Reader.steady_advance

theorem steady_variableStatement :
    Steady State.Alike (variableStatement environment) := by
  refine (steady_reading Reader.steady_advance).after fun _ =>
    (steady_reading Reader.steady_readName).after fun name =>
      .onlyIf (steady_form _) ?_
  refine (steady_reading Reader.steady_skipSpace).after fun _ =>
    (steady_reading (Reader.steady_expect _)).after fun _ =>
      (steady_reading (Reader.steady_readUntil _)).after fun raw => ?_
  refine (steady_resolveValue shares_alike environment _).after fun value =>
    .getThen fun seen other alike => ?_
  rw [alike.scopes]
  refine Parallel.bind
    (.modifying fun _ _ alike => { alike with scopes := rfl }) fun _ _ _ => ?_
  exact .onlyIf (parallel_record shares_alike _ _)
    (steady_reading (Reader.steady_skipChar _))

theorem steady_blockStatement :
    Steady State.Alike (blockStatement environment) :=
  (steady_reading (Reader.steady_readUntil _)).after fun _ =>
    (steady_blockOf shares_alike environment State.Alike.blocks _).after
      fun _ =>
      (steady_reading (Reader.steady_expect _)).after fun _ =>
        steady_openBlock _

theorem steady_declaration : Steady State.Alike (declaration environment) := by
  refine (steady_reading (Reader.steady_readUntil _)).after fun raw =>
    .getThen fun seen other alike => ?_
  rw [alike.blocks]
  split
  · exact steady_form _
  · split
    · exact steady_form _
    · refine (steady_interpolate shares_alike environment _).after fun name =>
        .onlyIf (steady_form _) ?_
      refine (steady_resolveValue shares_alike environment _).after fun value =>
        .onlyIf (steady_form _) ?_
      exact (steady_addProperty sharesSheet_alike _ _ _).after fun _ =>
        steady_reading (Reader.steady_skipChar _)

theorem steady_statement : Steady State.Alike (statement environment) := by
  refine .getThen fun seen other alike => ?_
  rw [alike.cursor.pending]
  split
  · exact steady_blockStatement environment
  · exact steady_declaration environment
  · exact steady_declaration environment
  · exact steady_declaration environment

end Statements

section Directives

variable (environment : Environment)

theorem steady_mixinName : Steady State.Alike mixinName :=
  (steady_reading Reader.steady_readName).after fun _ => .onlyIf (steady_form _)
    ((steady_reading Reader.steady_skipSpace).after fun _ => .pure rfl)

theorem steady_mixinBody (name : Text) (parameters : List Text) :
    Steady State.Alike (mixinBody name parameters) := by
  refine .getThen fun seen other _ =>
    (steady_reading (Reader.steady_readGroup _ _)).after fun body =>
      .getThen fun before shown alike => ?_
  rw [alike.mixins.contains]
  refine Parallel.bind (.modifying fun _ _ alike =>
    { alike with mixins := alike.mixins.define ⟨rfl, rfl, rfl⟩ }) fun _ _ _ =>
      (parallel_record shares_alike _ _).after fun _ => ?_
  split
  · exact steady_warn shares_alike _
  · exact .pure rfl

theorem steady_mixinDirective : Steady State.Alike mixinDirective := by
  rw [mixinDirective_eq]
  refine steady_mixinName.after fun name => .getThen fun seen other alike => ?_
  rw [alike.cursor.isAt]
  split
  · exact (steady_reading (Reader.steady_readGroup _ _)).after fun list =>
      (steady_check _).after fun parameters =>
        (steady_reading Reader.steady_skipSpace).after fun _ =>
          steady_mixinBody name parameters
  · exact steady_mixinBody name []

theorem steady_argumentList? : Steady State.Alike argumentList? := by
  refine .getThen fun seen other alike => ?_
  rw [alike.cursor.isAt]
  split
  · exact (steady_reading (Reader.steady_readGroup _ _)).after fun list =>
      (steady_reading Reader.steady_skipSpace).after fun _ => .pure rfl
  · exact .pure rfl

theorem steady_endInclude (name : Text) :
    Steady State.Alike (endInclude name) := by
  refine .getThen fun seen other alike => ?_
  rw [alike.cursor.current]
  split
  · exact steady_reading Reader.steady_advance
  · exact .pure rfl
  · exact .pure rfl
  · exact steady_form _

theorem steady_expansion (name : Text) (list : Option Text) :
    Steady State.Alike (expansion environment name list) := by
  refine (steady_resolveArguments shares_alike environment list).after
    fun arguments =>
    (parallel_record shares_alike _ _).after fun _ =>
      (steady_comment sharesSheet_alike environment _).after fun _ =>
        .getThen fun seen other alike => ?_
  rw [alike.scopes]
  refine (parallel_check (alike.mixins.expanded ..)).bind
    fun result shown same => ?_
  obtain ⟨text, mixins, scopes⟩ := same
  exact Parallel.bind (.modifying fun _ _ alike =>
    { alike with mixins, scopes }) fun _ _ _ =>
      (parallel_record shares_alike _ _).after fun _ => parallel_splice text

theorem steady_includeDirective :
    Steady State.Alike (includeDirective environment) := by
  rw [includeDirective_eq]
  refine steady_mixinName.after fun name =>
    steady_argumentList?.after fun list =>
    (steady_endInclude name).after fun _ => .getThen fun seen other alike => ?_
  rw [alike.blocks]
  exact (steady_openBlock _).after fun _ =>
    steady_expansion environment name list

theorem steady_importFile (path : Text) :
    Steady State.Alike (importFile environment path) := by
  refine (parallel_record shares_alike _ _).after fun _ =>
    (steady_comment sharesSheet_alike environment _).after fun _ => ?_
  refine (Parallel.forM fun _ => parallel_record shares_alike _ _).after
    fun _ => ?_
  split
  · exact .throw _
  · split
    · exact parallel_splice rfl
    · refine Parallel.after (.modifying fun state other alike => ?_) fun _ =>
        parallel_splice rfl
      rw [alike.dependencies]
      split
      · exact alike
      · exact { alike with dependencies := rfl }

theorem steady_importDirective :
    Steady State.Alike (importDirective environment) :=
  (steady_reading (Reader.steady_readUntil _)).after fun _ =>
    (steady_reading (Reader.steady_skipChar _)).after fun _ =>
      (steady_interpolate shares_alike environment _).after fun _ =>
        (steady_check _).after fun _ =>
        .forM fun _ => steady_importFile environment _

/-- Bodies with the same text. -/
def SameText : Option Source → Option Source → Prop :=
  Option.Rel fun source other => source.text = other.text

theorem parallel_branchBody :
    Parallel State.Alike (fun source other => source.text = other.text)
    branchBody branchBody :=
  .getThen fun _ _ _ => (steady_reading (Reader.steady_readGroup _ _)).after
    fun _ => .pure rfl

theorem parallel_branch (asked : Bool) :
    Parallel State.Alike SameText (branch environment asked)
      (branch environment asked) := by
  refine (steady_reading (Reader.steady_readUntil _)).after fun condition =>
    .getThen fun seen other alike => ?_
  rw [alike.cursor.isAt]
  refine .onlyIf (steady_form _) ?_
  have ending : ∀ holds : Bool, Parallel State.Alike SameText
      (do let body ← branchBody; return if holds then some body else none)
      (do let body ← branchBody; return if holds then some body else none) := by
    intro holds
    refine parallel_branchBody.bind fun source shown same => .pure ?_
    split
    · exact .some same
    · exact .none
  dsimp only
  split
  · exact (steady_resolveValue shares_alike environment _).after fun text =>
      (steady_evaluateCondition text).after ending
  · exact Parallel.after (.pure rfl) ending

theorem SameText.or {chosen other body shown : Option Source}
    (same : SameText chosen other) (bodies : SameText body shown) :
    SameText (chosen.or body) (other.or shown) := by
  cases same with
  | some text => exact .some text
  | none => exact bodies

theorem SameText.isNone {chosen other : Option Source}
    (same : SameText chosen other) :
    chosen.isNone = other.isNone := by
  cases same with
  | some text => rfl
  | none => rfl

theorem parallel_elseBranches (fuel : Nat) {chosen other : Option Source}
    (same : SameText chosen other) : Parallel State.Alike SameText
      (elseBranches environment fuel chosen)
        (elseBranches environment fuel other) := by
  induction fuel generalizing chosen other with
  | zero => exact .pure same
  | succ fuel ih =>
      refine (steady_reading Reader.steady_skipSpace).after fun _ =>
        (steady_reading (Reader.steady_skipWord? _)).after fun another => ?_
      split
      · refine (steady_reading Reader.steady_skipSpace).after fun _ =>
          (steady_reading (Reader.steady_skipWord? _)).after
            fun conditional => ?_
        split
        · rw [same.isNone]
          exact (parallel_branch environment _).bind fun _ _ bodies =>
            ih (same.or bodies)
        · exact parallel_branchBody.bind fun _ _ text =>
            .pure (same.or (.some text))
      · exact .pure same

theorem parallel_spliceChosen {chosen shown : Option Source}
    (same : SameText chosen shown) :
    Parallel State.Alike Eq (spliceChosen chosen) (spliceChosen shown) := by
  cases same with
  | none => exact .pure rfl
  | some text =>
      unfold spliceChosen
      dsimp only
      rw [text]
      split
      · exact .pure rfl
      · exact parallel_splice text

/-- What a condition does after its first branch. -/
theorem parallel_afterBranch {chosen shown : Option Source}
    (same : SameText chosen shown) :
    Parallel State.Alike Eq
      (do
        spliceChosen
          (← elseBranches environment
            ((← get).cursor.pending.length + 1) chosen))
      (do
        spliceChosen
          (← elseBranches environment
            ((← get).cursor.pending.length + 1) shown)) := by
  refine .getThen fun seen other alike => ?_
  rw [alike.cursor.pending]
  exact (parallel_elseBranches environment _ same).bind fun _ _ bodies =>
    parallel_spliceChosen bodies

theorem steady_conditionDirective :
    Steady State.Alike (conditionDirective environment) := by
  rw [conditionDirective_eq]
  exact (parallel_branch environment true).bind fun _ _ same =>
    parallel_afterBranch environment same

theorem steady_directive : Steady State.Alike (directive environment) := by
  refine (steady_reading Reader.steady_advance).after fun _ =>
    (steady_reading Reader.steady_readName).after fun name =>
      (steady_reading Reader.steady_skipSpace).after fun _ =>
        .getThen fun seen other alike => ?_
  rw [alike.blocks]
  dsimp only
  split
  · split
    · exact steady_form _
    · exact steady_mixinDirective
  · split
    · split
      · exact steady_includeDirective environment
      · exact steady_form _
    · split
      · exact steady_importDirective environment
      · split
        · exact steady_conditionDirective environment
        · exact .throw _

/-- A statement goes the same way from states that are alike. -/
theorem steady_step : Steady State.Alike (step environment) := by
  refine (steady_reading Reader.steady_skipSpace).after fun _ =>
    .getThen fun seen other alike => ?_
  rw [alike.cursor.current]
  split
  · refine .getThen fun seen other alike => ?_
    rw [alike.blocks]
    split
    · exact .pure rfl
    · exact steady_form _
  · exact steady_closeBlock.after fun _ => .pure rfl
  · exact (steady_reading Reader.steady_advance).after fun _ => .pure rfl
  · exact (steady_variableStatement environment).after fun _ => .pure rfl
  · exact (steady_directive environment).after fun _ => .pure rfl
  · exact (steady_statement environment).after fun _ => .pure rfl

end Directives

end Compile

/-- The error of a run, or that it has none, without the place of the error. -/
inductive Outcome.Alike : Outcome → Outcome → Prop where
  | finished : Alike .finished .finished
  | failed {failure other : Failure} (same : failure.error = other.error) :
      Alike (.failed failure) (.failed other)
  | unfinished : Alike .unfinished .unfinished

/-- Runs that end in the same way, in states that are alike. -/
structure EndsAlike (first second : Outcome × State) : Prop where
  outcome : first.1.Alike second.1
  state : first.2.Alike second.2

/-- Runs end alike if their first steps are pairs and the rest ends alike. -/
theorem endsAlike_of_step {environment : Environment} {fuel : Nat}
    {state other : State}
    (taken : Paired State.Alike Eq (Compile.step environment state)
      (Compile.step environment other))
    (later : ∀ {next final : State}, next.Alike final →
      EndsAlike (next.run environment fuel) (final.run environment fuel)) :
    EndsAlike (state.run environment (fuel + 1))
      (other.run environment (fuel + 1)) := by
  rw [State.run, State.run]
  cases left : Compile.step environment state with
  | ok more after =>
      cases right : Compile.step environment other with
      | ok further final =>
          rw [left, right] at taken
          obtain ⟨rfl, next⟩ := taken
          cases more with
          | true => exact later next
          | false => exact ⟨.finished, next⟩
      | error fault final =>
          rw [left, right] at taken
          exact taken.elim
  | error error after =>
      cases right : Compile.step environment other with
      | ok further final =>
          rw [left, right] at taken
          exact taken.elim
      | error fault final =>
          rw [left, right] at taken
          exact ⟨.failed taken.1, taken.2⟩

/-- Runs from states that are alike end alike. -/
theorem State.Alike.run {state other : State} (alike : state.Alike other)
    (environment : Environment) (fuel : Nat) :
    EndsAlike (state.run environment fuel) (other.run environment fuel) := by
  induction fuel generalizing state other with
  | zero => exact ⟨.unfinished, alike⟩
  | succ fuel ih =>
      exact endsAlike_of_step (Compile.steady_step environment _ _ alike) ih

end Stylesheet
