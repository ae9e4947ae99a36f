import Mathlib.Data.List.Forall2
import Mathlib.Data.List.TakeWhile
import Stylesheet.Proofs.PlainText

/-!
# Complete statements

`complete` reads a text character by character and tells whether it consists of
whole statements, up to the brace that closes the outermost of the enclosures it
stands in.  A statement is whole if every string, parenthesis and interpolation
is closed in it, no brace stands in its parentheses, and it ends the way it
starts: the condition of an `@if` or `@else` with the brace of its branch, and a
definition without a brace of its own.

A branch that is chosen is read in front of what follows it.  So the last
statement of a branch may run on into the next one: a declaration or an
inclusion can, a definition has to end with its semicolon.
-/

namespace Stylesheet

/-- What a statement starts with: `$`, or `@if` or `@else`, or anything else. -/
inductive Lead where
  | definition
  | condition
  | other
  deriving DecidableEq, Repr

/-- What a brace has opened. -/
inductive Enclosure where
  | block
  | branch
  deriving DecidableEq, Repr

/-- Where a character stands: between statements, or in one. -/
inductive Standing where
  | between
  | within (lead : Lead) (nesting : Nesting)
  deriving DecidableEq, Repr

/-- What a character does: it goes on, or it opens or closes an enclosure. -/
inductive Turn where
  | goes (standing : Standing)
  | opens (enclosure : Enclosure)
  | closes
  deriving DecidableEq, Repr

/-- The lead of a statement with the first character `c`.  Imports have none,
and neither has a directive that is a mere name. -/
def Lead.of? (c : Char) (rest : Text) : Option Lead :=
  if c == '$' then some .definition
  else if c == '@' then
    let name := rest.takeWhile isNameChar
    if name == "import".toList || (rest.drop name.length).head? ==
      some '}' then none
    else if name == "if".toList || name == "else".toList then some .condition
    else some .other
  else some .other

/-- Whether a statement may end at the brace that closes an enclosure. -/
def Lead.mayEnd (lead : Lead) (nesting : Nesting) : Enclosure → Bool
  | .block => lead != .condition
  | .branch => lead == .other && !nesting.afterHash

/-- What the next character of a statement does. -/
def Nesting.turn? (nesting : Nesting) (lead : Lead)
    (enclosure : Enclosure) (c : Char) :
    Option Turn :=
  if nesting.isTop c && Boundary.isBoundary c then
    if c == ';' then
      if lead == .condition then none else some (.goes .between)
    else if c == '}' then
      if lead.mayEnd nesting enclosure then some .closes else none
    else
      match lead with
      | .definition => none
      | .condition => some (.opens .branch)
      | .other => some (.opens .block)
  else if nesting.quoting.isOutside && 0 < nesting.parens &&
    (c == '{' || c == '}') then none
  else some (.goes (.within lead (nesting.step c)))

/-- What the next character does, with the rest of the text behind it. -/
def Standing.turn? (standing : Standing) (enclosure : Enclosure) (c : Char)
    (rest : Text) :
    Option Turn :=
  match standing with
  | .within lead nesting => nesting.turn? lead enclosure c
  | .between =>
      if isSpace c then some (.goes .between)
      else
        match Lead.of? c rest with
        | none => none
        | some lead => Nesting.turn? {} lead enclosure c

/-- Whether the text consists of complete statements and ends with the brace
that closes the last of the enclosures. -/
def complete : Standing → List Enclosure → Text → Bool
  | standing, [], text => standing == .between && text.isEmpty
  | _, _ :: _, [] => false
  | standing, enclosure :: enclosures, c :: rest =>
      match standing.turn? enclosure c rest with
      | none => false
      | some (.goes standing) =>
          complete standing (enclosure :: enclosures) rest
      | some (.opens inner) =>
          complete .between (inner :: enclosure :: enclosures) rest
      | some .closes => complete .between enclosures rest

/-- The text is a sequence of complete statements. -/
def Complete (text : Text) : Prop :=
  complete .between [.block] (text ++ ['}']) = true

instance (text : Text) : Decidable (Complete text) :=
  inferInstanceAs (Decidable (_ = true))

example :
    Complete
      "a:b;@if x\x7bc:d\x7d @else\x7b$e:f;\x7dg \x7bh:#\x7bi\x7d\x7d".toList := by
  decide

example : ¬ Complete "@if true\x7b$x:1\x7dy\x7b\x7d".toList := by
  decide

/-- The string and the braces a standing stands in, with `enclosures` enclosures
open. -/
def Standing.bracing : Standing → (enclosures : Nat) → Bracing
  | .between, enclosures => ⟨.outside, enclosures⟩
  | .within _ nesting, enclosures =>
      ⟨nesting.quoting, enclosures + nesting.interpolations⟩

/-- The effect of a turn on the braces. -/
def Turn.Follows (standing : Standing) (c : Char) : Turn → Prop
  | .goes next =>
      ∀ enclosures, (standing.bracing enclosures).step c =
          next.bracing enclosures ∧
      ¬ ((standing.bracing enclosures).quoting.isOutside = true ∧ c = '}' ∧
        (standing.bracing enclosures).depth = 0)
  | .opens _ => c = '{' ∧ standing.bracing 0 = ⟨.outside, 0⟩
  | .closes => c = '}' ∧ standing.bracing 0 = ⟨.outside, 0⟩

/-- A character that stands at the top level and leaves a statement there. -/
def isIdle (c : Char) : Bool :=
  isFlat c && c != '#' && c != ';'

theorem idle_of_isSpace {c : Char} (space : isSpace c = true) :
    isIdle c = true := by
  simp only [isSpace, Bool.or_eq_true, beq_iff_eq] at space
  rcases space with ((((rfl | rfl) | rfl) | rfl) | rfl) | rfl
  all_goals decide

theorem idle_of_isNameChar {c : Char} (name : isNameChar c = true) :
    isIdle c = true := by
  have flat := flat_of_ordinary (ordinary_of_isNameChar name)
  have hash : c ≠ '#' := by
    rintro rfl
    exact absurd name (by decide)
  have semicolon : c ≠ ';' := by
    rintro rfl
    exact absurd name (by decide)
  simp [isIdle, flat, hash, semicolon]

theorem Nesting.step_idle {c : Char} (idle : isIdle c = true) :
    Nesting.step {} c = {} := by
  simp only [isIdle, Bool.and_eq_true, bne_iff_ne, ne_eq] at idle
  have stepped := @step_flat false c idle.1.1
  rwa [beq_false_of_ne idle.1.2] at stepped

theorem inside_of_idle {c : Char} (idle : isIdle c = true) :
    Boundary.isBoundary c = false := by
  simp only [isIdle, isFlat, Bool.and_eq_true, bne_iff_ne, ne_eq] at idle
  simp [Boundary.isBoundary, idle]

theorem Nesting.bracing_of_isTop {nesting : Nesting} {c : Char} (lead : Lead)
    (top : nesting.isTop c = true) (enclosures : Nat) :
    (Standing.within lead nesting).bracing enclosures =
      ⟨.outside, enclosures⟩ := by
  simp only [isTop, Bool.and_eq_true, beq_iff_eq] at top
  simp [Standing.bracing, Quoting.eq_outside top.1.1.1.1.1.1, top.1.1.1.1.2]

/-- Inside of a statement, braces outside of strings are those of
interpolations. -/
theorem Nesting.follows_step {nesting : Nesting} {c : Char} (lead : Lead)
    (inner : (nesting.isTop c && Boundary.isBoundary c) = false)
    (bare :
      (nesting.quoting.isOutside && 0 < nesting.parens &&
        (c == '{' || c == '}')) = false) :
    Turn.Follows (.within lead nesting) c
      (.goes (.within lead (nesting.step c))) := by
  intro enclosures
  by_cases outside : nesting.quoting.isOutside = true
  · by_cases opening : c = '{'
    · subst c
      have flat : nesting.parens = 0 := by simpa [outside] using bare
      have entering : nesting.afterHash = true ∨
          0 < nesting.interpolations := by
        rcases Nat.eq_zero_or_pos nesting.interpolations with none | deep
        · simpa [isTop, outside, flat, none, isQuote, Boundary.isBoundary]
            using inner
        · exact .inr deep
      simp [Standing.bracing, Bracing.step, step, outside, isQuote, entering,
        Nat.add_assoc]
    · by_cases closing : c = '}'
      · subst c
        have flat : nesting.parens = 0 := by simpa [outside] using bare
        have deep : 0 < nesting.interpolations := by
          rcases Nat.eq_zero_or_pos nesting.interpolations with none | deep
          · simp [isTop, outside, flat, none, isQuote, Boundary.isBoundary]
              at inner
          · exact deep
        simp only [Standing.bracing, Bracing.step, step, outside, deep]
        simp [isQuote]
        omega
      · have same : (nesting.step c).interpolations =
            nesting.interpolations := by
          unfold step
          dsimp only
          split
          · rfl
          · simp only [opening, closing, beq_iff_eq, Bool.and_eq_true,
              false_and, if_false]
            split
            · rfl
            · split
              · rfl
              · split
                · rfl
                · rfl
        simp [Standing.bracing, Bracing.step, outside, opening, closing,
          same, quoting_step]
  · have quoted : nesting.quoting.isOutside = false := by simpa using outside
    simp [Standing.bracing, Bracing.step, step, quoted]

theorem Nesting.turn?_follows {nesting : Nesting} {lead : Lead}
    {enclosure : Enclosure} {c : Char} {turn : Turn}
    (found : nesting.turn? lead enclosure c = some turn) :
    turn.Follows (.within lead nesting) c := by
  unfold turn? at found
  split at found
  · rename_i boundary
    simp only [Bool.and_eq_true] at boundary
    have outside := bracing_of_isTop lead boundary.1
    split at found
    · rename_i semicolon
      simp only [beq_iff_eq] at semicolon
      split at found
      · simp at found
      · cases found
        intro enclosures
        subst c
        rw [outside]
        exact ⟨rfl, by simp⟩
    · rename_i noSemicolon
      split at found
      · rename_i closing
        split at found
        · cases found
          exact ⟨by simpa using closing, outside 0⟩
        · simp at found
      · rename_i noClosing
        have opening : c = '{' := by
          simpa [Boundary.isBoundary, noSemicolon, noClosing] using boundary.2
        cases lead with
        | definition => simp at found
        | condition =>
            cases found
            exact ⟨opening, outside 0⟩
        | other =>
            cases found
            exact ⟨opening, outside 0⟩
  · rename_i inner
    split at found
    · simp at found
    · rename_i bare
      cases found
      exact follows_step lead (by simpa using inner) (by simpa using bare)

theorem Standing.turn?_follows {standing : Standing}
    {enclosure : Enclosure} {c : Char} {rest : Text} {turn : Turn}
    (found : standing.turn? enclosure c rest = some turn) :
    turn.Follows standing c := by
  cases standing with
  | within lead nesting => exact Nesting.turn?_follows found
  | between =>
      unfold turn? at found
      dsimp only at found
      split at found
      · rename_i space
        cases found
        intro enclosures
        have idle := idle_of_isSpace space
        have inner : (Nesting.isTop {} c && Boundary.isBoundary c) = false := by
          rw [inside_of_idle idle, Bool.and_false]
        have follows := Nesting.follows_step .other inner rfl enclosures
        rwa [Nesting.step_idle idle] at follows
      · split at found
        · simp at found
        · cases turn with
          | goes next => exact Nesting.turn?_follows found
          | opens inner => exact Nesting.turn?_follows found
          | closes => exact Nesting.turn?_follows found

theorem complete_nil {standing : Standing} {text : Text}
    (done : complete standing [] text = true) :
    standing = .between ∧ text = [] := by
  simpa [complete] using done

/-- A complete text in an enclosure has a first character, which does one of
three things. -/
theorem complete_cons {standing : Standing} {enclosure : Enclosure}
    {enclosures : List Enclosure} {text : Text}
    (done : complete standing (enclosure :: enclosures) text = true) :
    ∃ c rest, text = c :: rest ∧
      ((∃ next, standing.turn? enclosure c rest = some (.goes next) ∧
          complete next (enclosure :: enclosures) rest = true) ∨
        (∃ inner, standing.turn? enclosure c rest = some (.opens inner) ∧
          complete .between (inner :: enclosure :: enclosures) rest = true) ∨
        (standing.turn? enclosure c rest = some .closes ∧
          complete .between enclosures rest = true)) := by
  cases text with
  | nil => simp [complete] at done
  | cons c rest =>
      refine ⟨c, rest, rfl, ?_⟩
      rw [complete] at done
      cases turn : standing.turn? enclosure c rest with
      | none => simp [turn] at done
      | some result =>
          rw [turn] at done
          cases result with
          | goes next => exact .inl ⟨next, rfl, done⟩
          | opens inner => exact .inr (.inl ⟨inner, rfl, done⟩)
          | closes => exact .inr (.inr ⟨rfl, done⟩)

theorem closing_mem_of_complete {standing : Standing} {enclosure : Enclosure}
    {enclosures : List Enclosure} {text : Text}
    (done : complete standing (enclosure :: enclosures) text = true) :
    '}' ∈ text := by
  induction text generalizing standing enclosure enclosures with
  | nil => simp [complete] at done
  | cons c rest ih =>
      obtain ⟨_, _, same, cases⟩ := complete_cons done
      cases same
      rcases cases with ⟨next, -, later⟩ | ⟨inner, -, later⟩ | ⟨turn, -⟩
      · exact List.mem_cons_of_mem _ (ih later)
      · exact List.mem_cons_of_mem _ (ih later)
      · rw [(Standing.turn?_follows turn).1]
        exact List.mem_cons_self

theorem Lead.of?_apart {c : Char} (apart : c ≠ '@') (first second : Text) :
    of? c first = of? c second := by
  simp [of?, apart]

/-- The lead is settled by the front of the statement, once its name has ended
there. -/
theorem Lead.of?_front {front : Text}
    (stops : ∃ c ∈ front, isNameChar c = false) (c : Char)
    (first second : Text) :
    of? c (front ++ first) = of? c (front ++ second) := by
  obtain ⟨name, stop, behind, same, nameChars, noName⟩ : ∃ name stop behind,
      front = name ++ stop :: behind ∧ (∀ c ∈ name, isNameChar c = true) ∧
        isNameChar stop = false := by
    obtain ⟨other, member, noName⟩ := stops
    have nonempty : front.dropWhile isNameChar ≠ [] := by
      intro ended
      have all := List.dropWhile_eq_nil_iff.mp ended other member
      simp [noName] at all
    obtain ⟨stop, behind, dropped⟩ := List.exists_cons_of_ne_nil nonempty
    refine ⟨front.takeWhile isNameChar, stop, behind, ?_, ?_, ?_⟩
    · rw [← dropped, List.takeWhile_append_dropWhile]
    · exact fun c member => List.mem_takeWhile_imp member
    · have head := List.head_dropWhile_not isNameChar nonempty
      simpa [dropped] using head
  have taken (rest : Text) : (front ++ rest).takeWhile isNameChar = name := by
    rw [same, List.append_assoc]
    exact takeWhile_append nameChars (by simpa using noName)
  have next (rest : Text) : ((front ++ rest).drop name.length).head? =
      some stop := by
    rw [same, List.append_assoc, List.drop_left]
    rfl
  simp only [of?, taken, next]

theorem Lead.of?_append {c : Char} {text : Text} {lead : Lead}
    (found : of? c text = some lead) (closes : '}' ∈ text) (rest : Text) :
    of? c (text ++ rest) = some lead := by
  have front := of?_front ⟨_, closes, rfl⟩ c rest []
  rwa [List.append_nil, found] at front

/-- A directive at the end of a branch is more than its name, so another text
behind it makes no difference to its lead. -/
theorem Lead.of?_branch {c : Char} {body others : Text} {lead : Lead}
    (found : of? c (body ++ '}' :: others) = some lead) (rest : Text) :
    of? c (body ++ rest) = some lead := by
  by_cases directive : c = '@'
  · subst c
    by_cases stops : ∃ c ∈ body, isNameChar c = false
    · rw [← found]
      exact of?_front stops '@' _ _
    · have name : ∀ c ∈ body, isNameChar c = true := by simpa using stops
      have taken : (body ++ '}' :: others).takeWhile isNameChar = body :=
        takeWhile_append name (by simp [isNameChar])
      simp [of?, taken] at found
  · rw [of?_apart directive _ (body ++ '}' :: others), found]

theorem Standing.turn?_congr {standing : Standing} {c : Char}
    {first second : Text} (same : ∀ lead, Lead.of? c first = some lead →
      Lead.of? c second = some lead)
    {enclosure : Enclosure} {turn : Turn}
    (found : standing.turn? enclosure c first = some turn) :
    standing.turn? enclosure c second = some turn := by
  cases standing with
  | within lead nesting => exact found
  | between =>
      unfold turn? at found ⊢
      dsimp only at found ⊢
      split at found
      · rename_i space
        rw [if_pos space, found]
      · rename_i visible
        rw [if_neg visible]
        cases lead : Lead.of? c first with
        | none => simp [lead] at found
        | some lead' =>
            rw [lead] at found
            rw [same lead' lead]
            exact found

theorem complete_goes {standing next : Standing} {enclosure : Enclosure}
    {enclosures : List Enclosure} {c : Char} {rest : Text}
    (turn : standing.turn? enclosure c rest = some (.goes next))
    (done : complete next (enclosure :: enclosures) rest = true) :
    complete standing (enclosure :: enclosures) (c :: rest) = true := by
  rw [complete, turn]
  exact done

theorem complete_opens {standing : Standing} {enclosure inner : Enclosure}
    {enclosures : List Enclosure} {c : Char} {rest : Text}
    (turn : standing.turn? enclosure c rest = some (.opens inner))
    (done : complete .between (inner :: enclosure :: enclosures) rest = true) :
    complete standing (enclosure :: enclosures) (c :: rest) = true := by
  rw [complete, turn]
  exact done

theorem complete_closes {standing : Standing} {enclosure : Enclosure}
    {enclosures : List Enclosure} {c : Char} {rest : Text}
    (turn : standing.turn? enclosure c rest = some .closes)
    (done : complete .between enclosures rest = true) :
    complete standing (enclosure :: enclosures) (c :: rest) = true := by
  rw [complete, turn]
  exact done

theorem complete_append {standing : Standing}
    {enclosures outer : List Enclosure} {first second : Text}
    (done : complete standing enclosures first = true)
    (following : complete .between outer second = true) :
    complete standing (enclosures ++ outer) (first ++ second) = true := by
  induction first generalizing standing enclosures with
  | nil =>
      cases enclosures with
      | nil =>
          obtain ⟨rfl, -⟩ := complete_nil done
          exact following
      | cons enclosure enclosures => simp [complete] at done
  | cons c rest ih =>
      cases enclosures with
      | nil => simp [complete] at done
      | cons enclosure enclosures =>
          obtain ⟨_, _, same, cases⟩ := complete_cons done
          cases same
          rcases cases with ⟨next, turn, later⟩ | ⟨inner, turn, later⟩
            | ⟨turn, later⟩
          · refine complete_goes
              (Standing.turn?_congr (fun lead found => ?_) turn) (ih later)
            exact Lead.of?_append found (closing_mem_of_complete later) second
          · refine complete_opens
              (Standing.turn?_congr (fun lead found => ?_) turn) (ih later)
            exact Lead.of?_append found (closing_mem_of_complete later) second
          · refine complete_closes
              (Standing.turn?_congr (fun lead found => ?_) turn) (ih later)
            have closing := (Standing.turn?_follows turn).1
            rw [← found]
            exact Lead.of?_apart (by simp [closing]) _ _

/-- A block may end in every way in which a branch may. -/
def Enclosure.Widens (narrow wide : Enclosure) : Prop :=
  wide = narrow ∨ wide = .block

/-- Other statements may go on in every way in which one of a certain kind
may. -/
def Lead.Widens (narrow wide : Lead) : Prop :=
  wide = narrow ∨ wide = .other

/-- Every text may follow in a statement that is not of a certain kind, if it
may follow in one that is or between statements. -/
inductive Standing.Widens : Standing → Standing → Prop where
  | within {narrow wide : Lead} (nesting : Nesting) :
      narrow.Widens wide →
        Widens (.within narrow nesting) (.within wide nesting)
  | between : Widens .between .between
  | entering : Widens .between (.within .other {})

inductive Turn.Widens : Turn → Turn → Prop where
  | goes {narrow wide : Standing} : narrow.Widens wide →
      Widens (.goes narrow) (.goes wide)
  | opens {narrow wide : Enclosure} : narrow.Widens wide →
      Widens (.opens narrow) (.opens wide)
  | closes : Widens .closes .closes

private theorem Lead.mayEnd_widens {narrow wide : Lead}
    {inner outer : Enclosure} {nesting : Nesting} (leads : narrow.Widens wide)
    (enclosures : inner.Widens outer)
    (ends : narrow.mayEnd nesting inner = true) :
    wide.mayEnd nesting outer = true := by
  rcases leads with rfl | rfl
  · rcases enclosures with rfl | rfl
    · exact ends
    · cases inner with
      | block => exact ends
      | branch =>
          simp only [mayEnd, Bool.and_eq_true, beq_iff_eq] at ends
          simp [mayEnd, ends.1]
  · rcases enclosures with rfl | rfl
    · cases outer with
      | block => rfl
      | branch =>
          simp only [mayEnd, Bool.and_eq_true] at ends
          simpa [mayEnd] using ends.2
    · rfl

theorem Nesting.turn?_widens {nesting : Nesting} {narrow wide : Lead}
    {inner outer : Enclosure} {c : Char} {turn : Turn}
    (leads : narrow.Widens wide) (enclosures : inner.Widens outer)
    (found : nesting.turn? narrow inner c = some turn) :
    ∃ other, nesting.turn? wide outer c = some other ∧ turn.Widens other := by
  unfold turn? at found ⊢
  split at found
  · rename_i boundary
    rw [if_pos boundary]
    split at found
    · rename_i semicolon
      rw [if_pos semicolon]
      split at found
      · simp at found
      · rename_i noCondition
        cases found
        refine ⟨.goes .between, ?_, .goes .between⟩
        rcases leads with rfl | rfl
        · rw [if_neg noCondition]
        · rfl
    · rename_i noSemicolon
      rw [if_neg noSemicolon]
      split at found
      · rename_i closing
        rw [if_pos closing]
        split at found
        · rename_i ends
          cases found
          exact ⟨.closes,
            by rw [if_pos (Lead.mayEnd_widens leads enclosures ends)], .closes⟩
        · simp at found
      · rename_i noClosing
        rw [if_neg noClosing]
        rcases leads with rfl | rfl
        · cases wide with
          | definition => simp at found
          | condition =>
              cases found
              exact ⟨_, rfl, .opens (.inl rfl)⟩
          | other =>
              cases found
              exact ⟨_, rfl, .opens (.inl rfl)⟩
        · cases narrow with
          | definition => simp at found
          | condition =>
              cases found
              exact ⟨_, rfl, .opens (.inr rfl)⟩
          | other =>
              cases found
              exact ⟨_, rfl, .opens (.inl rfl)⟩
  · rename_i noBoundary
    rw [if_neg noBoundary]
    split at found
    · simp at found
    · rename_i bare
      rw [if_neg bare]
      cases found
      exact ⟨_, rfl, .goes (.within _ leads)⟩

theorem Standing.turn?_widens {narrow wide : Standing}
    {inner outer : Enclosure} {c : Char} {rest : Text} {turn : Turn}
    (standings : narrow.Widens wide) (enclosures : inner.Widens outer)
    (found : narrow.turn? inner c rest = some turn) :
    ∃ other, wide.turn? outer c rest = some other ∧ turn.Widens other := by
  cases standings with
  | within nesting leads => exact Nesting.turn?_widens leads enclosures found
  | between =>
      unfold turn? at found ⊢
      dsimp only at found ⊢
      split at found
      · rename_i space
        rw [if_pos space]
        cases found
        exact ⟨_, rfl, .goes .between⟩
      · rename_i visible
        rw [if_neg visible]
        split at found
        · simp at found
        · exact Nesting.turn?_widens (.inl rfl) enclosures found
  | entering =>
      unfold turn? at found ⊢
      dsimp only at found ⊢
      split at found
      · rename_i space
        cases found
        have idle := idle_of_isSpace space
        refine ⟨.goes (.within .other {}), ?_, .goes .entering⟩
        simp [Nesting.turn?, inside_of_idle idle, Nesting.step_idle idle]
      · split at found
        · simp at found
        · exact Nesting.turn?_widens (.inr rfl) enclosures found

theorem complete_widens {narrow wide : Standing}
    {inner outer : List Enclosure} {text : Text}
    (standings : narrow.Widens wide)
    (enclosures : List.Forall₂ Enclosure.Widens inner outer)
    (inside : inner ≠ [] ∨ wide = .between)
    (done : complete narrow inner text = true) :
    complete wide outer text = true := by
  induction text generalizing narrow wide inner outer with
  | nil =>
      cases enclosures with
      | nil =>
          obtain ⟨rfl, -⟩ := complete_nil done
          rcases inside with inside | rfl
          · exact absurd rfl inside
          · exact done
      | cons first others => simp [complete] at done
  | cons c rest ih =>
      cases enclosures with
      | nil => simp [complete] at done
      | cons first others =>
          obtain ⟨_, _, same, cases⟩ := complete_cons done
          cases same
          rcases cases with ⟨next, turn, later⟩ | ⟨inner, turn, later⟩
            | ⟨turn, later⟩
          · obtain ⟨other, found, wider⟩ :=
              Standing.turn?_widens standings first turn
            cases wider with
            | goes nexts =>
                exact complete_goes found
                  (ih nexts (.cons first others) (.inl (by simp)) later)
          · obtain ⟨other, found, wider⟩ :=
              Standing.turn?_widens standings first turn
            cases wider with
            | opens inners =>
                exact complete_opens found
                  (ih .between (.cons inners (.cons first others))
                    (.inr rfl) later)
          · obtain ⟨other, found, wider⟩ :=
              Standing.turn?_widens standings first turn
            cases wider with
            | closes =>
                exact complete_closes found
                  (ih .between others (.inr rfl) later)

/-- What is complete between statements is complete in one that is not of a
certain kind. -/
theorem complete_entering {enclosure : Enclosure}
    {enclosures : List Enclosure} {text : Text}
    (done : complete .between (enclosure :: enclosures) text = true) :
    complete (.within .other {}) (enclosure :: enclosures) text = true := by
  have same : List.Forall₂ Enclosure.Widens (enclosure :: enclosures)
      (enclosure :: enclosures) :=
    List.forall₂_same.mpr fun _ _ => .inl rfl
  exact complete_widens .entering same (.inl (by simp)) done

theorem Nesting.turn?_anywhere {nesting : Nesting} {lead : Lead}
    {enclosure : Enclosure} {c : Char} {turn : Turn}
    (found : nesting.turn? lead enclosure c = some turn)
    (stays : turn ≠ .closes) (other : Enclosure) :
    nesting.turn? lead other c = some turn := by
  unfold turn? at found ⊢
  split at found
  · rename_i boundary
    rw [if_pos boundary]
    split at found
    · rename_i semicolon
      rw [if_pos semicolon]
      exact found
    · rename_i noSemicolon
      rw [if_neg noSemicolon]
      split at found
      · split at found
        · cases found
          exact absurd rfl stays
        · simp at found
      · rename_i noClosing
        rw [if_neg noClosing]
        exact found
  · rename_i noBoundary
    rw [if_neg noBoundary]
    exact found

theorem Standing.turn?_anywhere {standing : Standing}
    {enclosure : Enclosure} {c : Char} {rest : Text} {turn : Turn}
    (found : standing.turn? enclosure c rest = some turn)
    (stays : turn ≠ .closes) (other : Enclosure) :
    standing.turn? other c rest = some turn := by
  cases standing with
  | within lead nesting => exact Nesting.turn?_anywhere found stays other
  | between =>
      unfold turn? at found ⊢
      dsimp only at found ⊢
      split at found
      · rename_i space
        rw [if_pos space]
        exact found
      · rename_i visible
        rw [if_neg visible]
        split at found
        · simp at found
        · exact Nesting.turn?_anywhere found stays other

theorem complete_goes_anywhere {standing next : Standing}
    {enclosure : Enclosure} {enclosures : List Enclosure} {c : Char}
    {rest : Text} (inside : enclosures ≠ [])
    (turn : standing.turn? enclosure c rest = some (.goes next))
    (done : complete next enclosures rest = true) :
    complete standing enclosures (c :: rest) = true := by
  obtain ⟨first, others, rfl⟩ := List.exists_cons_of_ne_nil inside
  exact complete_goes (Standing.turn?_anywhere turn (by simp) first) done

theorem complete_opens_anywhere {standing : Standing}
    {enclosure inner : Enclosure} {enclosures : List Enclosure} {c : Char}
    {rest : Text} (inside : enclosures ≠ [])
    (turn : standing.turn? enclosure c rest = some (.opens inner))
    (done : complete .between (inner :: enclosures) rest = true) :
    complete standing enclosures (c :: rest) = true := by
  obtain ⟨first, others, rfl⟩ := List.exists_cons_of_ne_nil inside
  exact complete_opens (Standing.turn?_anywhere turn (by simp) first) done

/-- A statement that a branch may end with is of no certain kind. -/
theorem Standing.free_of_closes {standing : Standing} {c : Char} {rest : Text}
    (found : standing.turn? .branch c rest = some .closes) :
    standing = .between ∨ standing = .within .other {} := by
  cases standing with
  | between => exact .inl rfl
  | within lead nesting =>
      obtain ⟨rfl, -⟩ := turn?_follows found
      unfold turn? Nesting.turn? at found
      dsimp only at found
      split at found
      · rename_i boundary
        by_cases ends : lead.mayEnd nesting .branch = true
        · simp only [Lead.mayEnd, Bool.and_eq_true, beq_iff_eq,
            Bool.not_eq_true'] at ends
          simp only [Nesting.isTop, Bool.and_eq_true, beq_iff_eq] at boundary
          obtain ⟨⟨⟨⟨⟨⟨⟨outside, parens⟩, interpolations⟩, -⟩, -⟩, -⟩, -⟩, -⟩ :=
            boundary
          obtain ⟨quoting, _, _, _⟩ := nesting
          have quoting := Quoting.eq_outside outside
          simp_all
        · simp [ends] at found
      · split at found
        · simp at found
        · simp at found

theorem Standing.bracing_eq {standing : Standing}
    (outside : standing.bracing 0 = ⟨.outside, 0⟩) (count : Nat) :
    standing.bracing count = ⟨.outside, count⟩ := by
  cases standing with
  | between => rfl
  | within lead nesting =>
      simp only [bracing, Bracing.mk.injEq, Nat.zero_add] at outside
      simp [bracing, outside]

theorem spanGroup_step {bracing : Bracing} {c : Char} {rest contents : Text}
    (inside :
      ¬ (bracing.quoting.isOutside = true ∧ c = '}' ∧ bracing.depth = 0))
    (found : spanGroup '{' '}' (bracing.step c).depth
      (bracing.step c).quoting rest =
      some contents) :
    spanGroup '{' '}' bracing.depth bracing.quoting (c :: rest) =
      some (c :: contents) := by
  obtain ⟨quoting, depth⟩ := bracing
  by_cases outside : quoting.isOutside = true
  · by_cases opening : c = '{'
    · subst c
      simp only [Bracing.step, outside] at found
      simp_all [spanGroup]
    · by_cases closing : c = '}'
      · subst c
        have deeper : depth ≠ 0 := by simpa [outside] using inside
        simp only [Bracing.step, outside] at found
        simp_all [spanGroup]
      · simp only [Bracing.step, outside] at found
        simp_all [spanGroup]
  · simp only [Bracing.step, outside] at found
    simp_all [spanGroup]

/-- A complete text goes on to the brace that closes any of its enclosures.
What stands before that brace is cut out by counting braces.  If it is the body
of a branch, any complete text may stand behind it. -/
theorem complete_cut {standing : Standing} {inner outer : List Enclosure}
    {enclosure : Enclosure} {text : Text}
    (done : complete standing (inner ++ enclosure :: outer) text = true) :
    ∃ body others, text = body ++ '}' :: others ∧
      spanGroup '{' '}' (standing.bracing inner.length).depth
        (standing.bracing inner.length).quoting text = some body ∧
      complete .between outer others = true ∧
      (enclosure = .branch → ∀ here around rest,
        complete .between (here :: around) rest = true →
        complete standing (inner ++ here :: around) (body ++ rest) = true) := by
  induction text generalizing standing inner with
  | nil =>
      obtain ⟨first, others, same⟩ := List.exists_cons_of_ne_nil
        (show inner ++ enclosure :: outer ≠ [] by simp)
      simp [same, complete] at done
  | cons c rest ih =>
      obtain ⟨first, others, same⟩ := List.exists_cons_of_ne_nil
        (show inner ++ enclosure :: outer ≠ [] by simp)
      rw [same] at done
      obtain ⟨_, _, text, cases⟩ := complete_cons done
      cases text
      rcases cases with ⟨next, turn, later⟩ | ⟨opened, turn, later⟩
        | ⟨turn, later⟩
      · rw [← same] at later
        obtain ⟨body, others, rfl, group, following, joins⟩ := ih later
        obtain ⟨braces, inside⟩ := Standing.turn?_follows turn inner.length
        refine ⟨c :: body, others, rfl, ?_, following,
          fun branch here around rest joined => ?_⟩
        · rw [← braces] at group
          exact spanGroup_step inside group
        · have again :=
            Standing.turn?_congr
              (fun _ found => Lead.of?_branch found rest) turn
          exact complete_goes_anywhere (by simp) again
            (joins branch here around rest joined)
      · rw [← same] at later
        obtain ⟨body, others, rfl, group, following, joins⟩ :=
          @ih .between (opened :: inner) later
        obtain ⟨rfl, braces⟩ := Standing.turn?_follows turn
        refine ⟨'{' :: body, others, rfl, ?_, following,
          fun branch here around rest joined => ?_⟩
        · rw [Standing.bracing_eq braces]
          exact @spanGroup_step ⟨.outside, inner.length⟩ _ _ _ (by simp) group
        · have again :=
            Standing.turn?_congr
              (fun _ found => Lead.of?_branch found rest) turn
          exact complete_opens_anywhere (by simp) again
            (joins branch here around rest joined)
      · obtain ⟨rfl, braces⟩ := Standing.turn?_follows turn
        rw [Standing.bracing_eq braces]
        cases inner with
        | nil =>
            cases same
            refine ⟨[], rest, rfl, rfl, later,
              fun branch here around rest joined => ?_⟩
            subst branch
            rcases Standing.free_of_closes turn with rfl | rfl
            · exact joined
            · exact complete_entering joined
        | cons level inner =>
            cases same
            obtain ⟨body, others, rfl, group, following, joins⟩ :=
              @ih .between inner later
            refine ⟨'}' :: body, others, rfl, ?_, following,
              fun branch here around rest joined => ?_⟩
            · exact @spanGroup_step ⟨.outside, inner.length + 1⟩ _ _ _
                (by simp) group
            · have again :=
                Standing.turn?_congr
                  (fun _ found => Lead.of?_branch found rest) turn
              exact complete_closes again (joins branch here around rest joined)

namespace Nesting

/-- The text is the rest of a statement that ends with the character `stop`. -/
def chunk (nesting : Nesting) (stop : Char) : Text → Bool
  | [] => nesting.isTop stop && Boundary.isBoundary stop
  | c :: rest =>
      !(nesting.isTop c && Boundary.isBoundary c) &&
        !(nesting.quoting.isOutside && 0 < nesting.parens &&
          (c == '{' || c == '}')) &&
        (nesting.step c).chunk stop rest

theorem chunk_cons {nesting : Nesting} {stop c : Char} {rest : Text}
    (chunk : nesting.chunk stop (c :: rest) = true) :
    (nesting.isTop c && Boundary.isBoundary c) = false ∧
      (nesting.quoting.isOutside && 0 < nesting.parens &&
        (c == '{' || c == '}')) = false ∧
      (nesting.step c).chunk stop rest = true := by
  rw [Nesting.chunk, Bool.and_eq_true, Bool.and_eq_true, Bool.not_eq_true',
    Bool.not_eq_true'] at chunk
  exact ⟨chunk.1.1, chunk.1.2, chunk.2⟩

theorem chunk_top {nesting : Nesting} {stop : Char} {text : Text}
    (chunk : nesting.chunk stop text = true) :
    (nesting.after text).isTop stop = true ∧
      Boundary.isBoundary stop = true := by
  induction text generalizing nesting with
  | nil =>
      rw [Nesting.chunk, Bool.and_eq_true] at chunk
      exact chunk
  | cons c rest ih => exact ih (chunk_cons chunk).2.2

/-- A reader that stops at some of the boundaries stops where the statement
ends. -/
theorem chunk_spans {nesting : Nesting} {stop : Char} {text : Text}
    {stops : Char → Bool} (chunk : nesting.chunk stop text = true)
    (boundaries : ∀ c, stops c = true → Boundary.isBoundary c = true)
    (last : stops stop = true) (rest : Text) :
    nesting.spanUntil stops (text ++ stop :: rest) = text := by
  induction text generalizing nesting with
  | nil =>
      have top : nesting.isTop stop = true := (chunk_top chunk).1
      simp [spanUntil, top, last]
  | cons c text ih =>
      obtain ⟨inside, -, later⟩ := chunk_cons chunk
      have passed : (nesting.isTop c && stops c) = false := by
        cases found : stops c with
        | false => simp
        | true => simpa [boundaries c found] using inside
      rw [List.cons_append, spanUntil, passed, if_neg (by simp), ih later]

theorem chunk_closed {nesting : Nesting} {stop : Char} {text : Text}
    (chunk : nesting.chunk stop text = true) :
    (nesting.after text).checkClosed = .ok () := by
  have top := (chunk_top chunk).1
  simp only [isTop, Bool.and_eq_true, beq_iff_eq] at top
  simp [checkClosed, top]

/-- Every brace that the text closes is one that it opened. -/
theorem chunk_contains {nesting : Nesting} {stop : Char} {text : Text}
    (chunk : nesting.chunk stop text = true) :
    Bracing.contains ⟨nesting.quoting, nesting.interpolations⟩ text = true := by
  induction text generalizing nesting with
  | nil => rfl
  | cons c rest ih =>
      obtain ⟨inside, bare, later⟩ := chunk_cons chunk
      obtain ⟨braces, kept⟩ := follows_step .other inside bare 0
      simp only [Standing.bracing, Nat.zero_add] at braces kept
      rw [Bracing.contains, braces, ih later, Bool.and_true, Bool.not_eq_true',
        Bool.eq_false_iff]
      intro closes
      simp only [Bool.and_eq_true, beq_iff_eq] at closes
      exact kept ⟨closes.1.1, closes.1.2, closes.2⟩

/-- Parentheses that are open in a statement are closed in it. -/
theorem chunk_group {nesting : Nesting} {stop : Char}
    {depth : Nat} {text : Text} (inside : nesting.parens = depth + 1)
    (flat : nesting.interpolations = 0)
    (chunk : nesting.chunk stop text = true) :
    ∃ contents tail, text = contents ++ ')' :: tail ∧
      Nesting.chunk {} stop tail = true ∧
      ∀ more, spanGroup '(' ')' depth nesting.quoting
        (contents ++ ')' :: more) = some contents := by
  induction text generalizing nesting depth with
  | nil =>
      have top := (chunk_top chunk).1
      simp [isTop, after, inside] at top
  | cons c rest ih =>
      obtain ⟨-, bare, later⟩ := chunk_cons chunk
      have kept := quoting_step nesting c
      by_cases outside : nesting.quoting.isOutside = true
      · have quoting := Quoting.eq_outside outside
        by_cases opening : c = '('
        · subst c
          have stepped : (nesting.step '(').parens = depth + 1 + 1 ∧
              (nesting.step '(').interpolations = 0 := by
            simp [step, outside, isQuote, flat, inside]
          obtain ⟨contents, tail, rfl, chunk, group⟩ :=
            ih stepped.1 stepped.2 later
          rw [kept, quoting, Quoting.step_outside rfl] at group
          refine ⟨'(' :: contents, tail, rfl, chunk, fun more => ?_⟩
          simp [spanGroup, quoting, Quoting.isOutside, group more]
        · by_cases closing : c = ')'
          · subst c
            cases depth with
            | zero =>
                have ended : nesting.step ')' = {} := by
                  simp [step, isQuote, flat, inside, quoting, Quoting.isOutside]
                rw [ended] at later
                exact ⟨[], rest, rfl, later,
                  fun more => by simp [spanGroup, outside]⟩
            | succ depth =>
                have stepped : (nesting.step ')').parens = depth + 1 ∧
                    (nesting.step ')').interpolations = 0 := by
                  simp [step, outside, isQuote, flat, inside]
                obtain ⟨contents, tail, rfl, chunk, group⟩ :=
                  ih stepped.1 stepped.2 later
                rw [kept, quoting, Quoting.step_outside rfl] at group
                refine ⟨')' :: contents, tail, rfl, chunk, fun more => ?_⟩
                simp [spanGroup, quoting, Quoting.isOutside, group more]
          · have braces : c ≠ '{' ∧ c ≠ '}' := by
              simpa [outside, inside] using bare
            have stepped : (nesting.step c).parens = depth + 1 ∧
                (nesting.step c).interpolations = 0 := by
              by_cases quote : isQuote c = true
              · simp [step, quote, flat, inside]
              · simp [step, outside, quote, braces, opening,
                  closing, flat, inside]
            obtain ⟨contents, tail, rfl, chunk, group⟩ :=
              ih stepped.1 stepped.2 later
            rw [kept] at group
            refine ⟨c :: contents, tail, rfl, chunk, fun more => ?_⟩
            simp [spanGroup, opening, closing, group more]
      · have quoted : nesting.quoting.isOutside = false := by
          simpa using outside
        have stepped : (nesting.step c).parens = depth + 1 ∧
            (nesting.step c).interpolations = 0 := by
          simp [step, quoted, flat, inside]
        obtain ⟨contents, tail, rfl, chunk, group⟩ :=
          ih stepped.1 stepped.2 later
        rw [kept] at group
        refine ⟨c :: contents, tail, rfl, chunk, fun more => ?_⟩
        simp [spanGroup, quoted, group more]

theorem chunk_idle {stop c : Char} {rest : Text} (idle : isIdle c = true)
    (chunk : Nesting.chunk {} stop (c :: rest) = true) :
    Nesting.chunk {} stop rest = true := by
  have later := (chunk_cons chunk).2.2
  rwa [step_idle idle] at later

theorem chunk_drop {stop : Char} {front rest : Text}
    (idle : ∀ c ∈ front, isIdle c = true)
    (chunk : Nesting.chunk {} stop (front ++ rest) = true) :
    Nesting.chunk {} stop rest = true := by
  induction front with
  | nil => exact chunk
  | cons c front ih =>
      exact ih (fun d member => idle d (by simp [member]))
        (chunk_idle (idle c (by simp)) chunk)

end Nesting

/-- How a statement ends, and what holds of the text behind it: as it held
before, or in one more block or branch. -/
inductive Ending (lead : Lead) (same block branch : Text → Prop) : Char →
    Text → Prop where
  | semicolon {rest : Text} (free : lead ≠ .condition) (done : same rest) :
      Ending lead same block branch ';' rest
  | closing {rest : Text} (free : lead ≠ .condition)
      (done : same ('}' :: rest)) :
      Ending lead same block branch '}' rest
  | block {rest : Text} (free : lead = .other) (done : block rest) :
      Ending lead same block branch '{' rest
  | branch {rest : Text} (condition : lead = .condition) (done : branch rest) :
      Ending lead same block branch '{' rest

/-- A statement in enclosures ends, and the text behind it is complete. -/
abbrev CompleteEnding (lead : Lead) (enclosures : List Enclosure) : Char →
    Text → Prop :=
  Ending lead (complete .between enclosures · = true)
    (complete .between (.block :: enclosures) · = true)
    (complete .between (.branch :: enclosures) · = true)

private theorem Lead.free_of_mayEnd {lead : Lead} {nesting : Nesting}
    {enclosure : Enclosure} (ends : lead.mayEnd nesting enclosure = true) :
    lead ≠ .condition := by
  rintro rfl
  cases enclosure with
  | block => simp [mayEnd] at ends
  | branch => simp [mayEnd] at ends

/-- Between statements every enclosure may be closed. -/
theorem Standing.turn?_closing (enclosure : Enclosure) (rest : Text) :
    Standing.between.turn? enclosure '}' rest = some .closes := by
  cases enclosure with
  | block => rfl
  | branch => rfl

theorem Nesting.ending {nesting : Nesting} {lead : Lead} {enclosure : Enclosure}
    {enclosures : List Enclosure} {c : Char} {rest : Text}
    (boundary : (nesting.isTop c && Boundary.isBoundary c) = true)
    (done : complete (.within lead nesting) (enclosure :: enclosures)
      (c :: rest) = true) :
    CompleteEnding lead (enclosure :: enclosures) c rest := by
  simp only [complete, Standing.turn?, turn?, boundary, if_true] at done
  have which : c = '{' ∨ c = ';' ∨ c = '}' := by
    simp only [Boundary.isBoundary, Bool.and_eq_true, Bool.or_eq_true,
      beq_iff_eq] at boundary
    exact or_assoc.mp boundary.2
  rcases which with rfl | rfl | rfl
  · cases lead with
    | definition => simp at done
    | condition => exact .branch rfl done
    | other => exact .block rfl done
  · by_cases condition : lead = .condition
    · simp [condition] at done
    · have free : (lead == .condition) = false := by simpa using condition
      simp only [beq_self_eq_true, if_true, free] at done
      exact .semicolon condition done
  · by_cases ends : lead.mayEnd nesting enclosure = true
    · simp only [ends] at done
      exact .closing (Lead.free_of_mayEnd ends)
        (complete_closes (Standing.turn?_closing enclosure rest) done)
    · simp [ends] at done

/-- A statement goes on to a boundary at its top level. -/
theorem complete_within {nesting : Nesting} {lead : Lead}
    {enclosure : Enclosure} {enclosures : List Enclosure} {text : Text}
    (done : complete (.within lead nesting) (enclosure :: enclosures)
      text = true) :
    ∃ front stop rest, text = front ++ stop :: rest ∧
      nesting.chunk stop front = true ∧
      CompleteEnding lead (enclosure :: enclosures) stop rest := by
  induction text generalizing nesting with
  | nil => simp [complete] at done
  | cons c rest ih =>
      by_cases boundary : (nesting.isTop c && Boundary.isBoundary c) = true
      · exact ⟨[], c, rest, rfl, boundary, Nesting.ending boundary done⟩
      · have inside : (nesting.isTop c && Boundary.isBoundary c) = false := by
          simpa using boundary
        by_cases braced : (nesting.quoting.isOutside && 0 < nesting.parens &&
            (c == '{' || c == '}')) = true
        · simp [complete, Standing.turn?, Nesting.turn?, inside, braced] at done
        · have bare : (nesting.quoting.isOutside && 0 < nesting.parens &&
              (c == '{' || c == '}')) = false := by simpa using braced
          simp only [complete, Standing.turn?, Nesting.turn?, inside, bare,
            Bool.false_eq_true, if_false] at done
          obtain ⟨front, stop, others, rfl, chunk, ending⟩ := ih done
          refine ⟨c :: front, stop, others, rfl, ?_, ending⟩
          rw [Nesting.chunk, inside, bare, chunk]
          rfl

/-- The statement at the start of a complete text. -/
theorem complete_statement {enclosure : Enclosure}
    {enclosures : List Enclosure} {c : Char} {rest : Text}
    (visible : isSpace c = false)
    (done : complete .between (enclosure :: enclosures) (c :: rest) = true) :
    ∃ lead front stop others, Lead.of? c rest = some lead ∧
      c :: rest = front ++ stop :: others ∧
      Nesting.chunk {} stop front = true ∧
        CompleteEnding lead (enclosure :: enclosures) stop others := by
  cases found : Lead.of? c rest with
  | none => simp [complete, Standing.turn?, visible, found] at done
  | some lead =>
      have same : complete (.within lead {}) (enclosure :: enclosures)
          (c :: rest) = true := by
        simpa [complete, Standing.turn?, visible, found] using done
      obtain ⟨front, stop, others, split, chunk, ending⟩ := complete_within same
      exact ⟨lead, front, stop, others, rfl, split, chunk, ending⟩

theorem complete_space {enclosure : Enclosure}
    {enclosures : List Enclosure} {text : Text}
    (done : complete .between (enclosure :: enclosures) text = true) :
    ∃ gap rest, text = gap ++ rest ∧ (∀ c ∈ gap, isSpace c = true) ∧
      (∀ c, rest.head? = some c → isSpace c = false) ∧
      complete .between (enclosure :: enclosures) rest = true := by
  induction text with
  | nil => simp [complete] at done
  | cons c rest ih =>
      by_cases space : isSpace c = true
      · have later :
            complete .between (enclosure :: enclosures) rest = true := by
          simpa [complete, Standing.turn?, space] using done
        obtain ⟨gap, others, rfl, spaces, stops, left⟩ := ih later
        exact
          ⟨c :: gap, others, rfl, by simpa using ⟨space, spaces⟩, stops, left⟩
      · exact ⟨[], c :: rest, rfl, by simp, by simpa using space, done⟩

/-- The lead of a statement with a name is settled by the name. -/
theorem Lead.of?_word {name rest : Text}
    (nameChars : ∀ c ∈ name, isNameChar c = true)
    (stops : ∀ c, rest.head? = some c → isNameChar c = false) {lead : Lead}
    (found : of? '@' (name ++ rest) = some lead) :
    name ≠ "import".toList ∧
      ((name = "if".toList ∨ name = "else".toList) ↔ lead = .condition) := by
  have taken : (name ++ rest).takeWhile isNameChar = name :=
    takeWhile_append nameChars stops
  rw [of?, if_neg (by decide), if_pos (by decide)] at found
  simp only [taken] at found
  split at found
  · simp at found
  · rename_i named
    simp only [Bool.or_eq_true, beq_iff_eq, not_or] at named
    refine ⟨named.1, ?_⟩
    split at found
    · rename_i conditional
      cases found
      simpa using conditional
    · rename_i free
      cases found
      simpa using free

/-- A statement goes on behind a word in it that does not hold its end. -/
theorem split_behind {word rest front others : Text} {stop : Char}
    (inside : stop ∉ word) (split : word ++ rest = front ++ stop :: others) :
    ∃ tail, front = word ++ tail ∧ rest = tail ++ stop :: others := by
  rcases List.append_eq_append_iff.mp split with ⟨tail, same, left⟩
    | ⟨tail, same, left⟩
  · exact ⟨tail, same, left⟩
  · cases tail with
    | nil => exact ⟨[], by simpa using same.symm, by simpa using left.symm⟩
    | cons c tail =>
        cases left
        exact absurd (by simp [same]) inside

end Stylesheet
