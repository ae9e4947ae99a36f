import Stylesheet.Proofs.VariableNames

/-!
# Simultaneous substitution

A text in which every `$` starts a reference is, in exactly one way, a row of
ordinary characters and references.  If no visible value has a `$`, substitution
replaces the references all at once: each one by the value its name has at the
start, with everything between them kept.  It fails at the first reference to a
name that is not visible.
-/

namespace Stylesheet

/-- A character other than `$`, or a reference to a variable. -/
inductive Part where
  | char (c : Char) (ordinary : c ≠ '$')
  | reference (name : Tree.VariableName)

namespace Part

/-- The name that is referred to. -/
def name? : Part → Option Text
  | char _ _ => none
  | reference name => some name.text

/-- What substitution puts in place of the part. -/
def value (scopes : Scopes) : Part → Text
  | char c _ => [c]
  | reference name => (scopes.value? name.text).getD []

end Part

/-- The text can not go on with a name that stands right before it. -/
def EndsName (text : Text) : Prop :=
  ∀ c, text.head? = some c → isNameChar c = false

/-- The text is made of the parts, and every reference takes all name characters
behind its `$`. -/
inductive Splits : Text → List Part → Prop where
  | nil : Splits [] []
  | char {c : Char} {rest : Text} {parts : List Part} (ordinary : c ≠ '$')
      (others : Splits rest parts) :
        Splits (c :: rest) (.char c ordinary :: parts)
  | reference {rest : Text} {parts : List Part} (name : Tree.VariableName)
      (longest : EndsName rest) (others : Splits rest parts) :
      Splits ('$' :: (name.text ++ rest)) (.reference name :: parts)

/-- Every `$` of the text starts a reference. -/
def Referring (text : Text) : Prop :=
  ∀ front rest, text = front ++ '$' :: rest →
    Variable.startsReference rest = true

theorem Referring.suffix (front : Text) {rest : Text}
    (referring : Referring (front ++ rest)) :
    Referring rest := by
  intro earlier later same
  apply referring (front ++ earlier) later
  rw [same, List.append_assoc]

private theorem referring_nil : Referring [] := by
  intro front rest same
  simp at same

theorem referring_cons {c : Char} {rest : Text} :
    Referring (c :: rest) ↔ (c = '$' → Variable.startsReference rest = true) ∧
      Referring rest := by
  constructor
  · intro referring
    constructor
    · rintro rfl
      exact referring [] rest rfl
    · exact Referring.suffix [c] referring
  · rintro ⟨first, others⟩ front later same
    cases front with
    | nil =>
        obtain ⟨rfl, rfl⟩ := List.cons.inj same
        exact first rfl
    | cons d front =>
        apply others front later
        exact (List.cons.inj same).2

instance decidableReferring : (text : Text) → Decidable (Referring text)
  | [] => isTrue referring_nil
  | _ :: rest =>
      have := decidableReferring rest
      decidable_of_iff _ referring_cons.symm

theorem isNameChar_of_startsReference {c : Char} {rest : Text}
    (starts : Variable.startsReference (c :: rest) = true) :
    isNameChar c = true := by
  simp only [Variable.startsReference, Bool.or_eq_true] at starts
  rcases starts with letter | underscore
  · simp [isNameChar, Char.isAlphanum, letter]
  · simp [isNameChar, underscore]

/-- What starts a reference starts with a name, and the name takes all it
can. -/
theorem exists_name {text : Text}
    (starts : Variable.startsReference text = true) :
    ∃ (name : Tree.VariableName) (rest : Text), text = name.text ++ rest ∧
      EndsName rest := by
  obtain ⟨front, rest, rfl, named, longest⟩ := split_while isNameChar text
  have nonempty : front ≠ [] := by
    rintro rfl
    rw [List.nil_append] at starts
    cases rest with
    | nil => simp [Variable.startsReference] at starts
    | cons c rest =>
        have stops := longest c rfl
        rw [isNameChar_of_startsReference starts] at stops
        contradiction
  rw [Variable.startsReference_append nonempty] at starts
  exact ⟨⟨⟨front, nonempty, named⟩, starts⟩, rest, rfl, longest⟩

/-- A text in which every `$` starts a reference has its parts. -/
theorem Referring.exists_splits {text : Text} (referring : Referring text) :
    ∃ parts, Splits text parts := by
  -- A reference takes more than one character, so the induction is on the
  -- length.
  induction bound : text.length using Nat.strong_induction_on
    generalizing text with
  | _ length ih =>
      cases text with
      | nil => exact ⟨[], .nil⟩
      | cons c rest =>
          obtain ⟨starts, others⟩ := referring_cons.mp referring
          by_cases dollar : c = '$'
          · subst dollar
            obtain ⟨name, behind, rfl, longest⟩ := exists_name (starts rfl)
            have later : Referring behind := Referring.suffix name.text others
            have shorter : behind.length < length := by
              rw [← bound, List.length_cons, List.length_append]
              omega
            obtain ⟨parts, splits⟩ := ih _ shorter later rfl
            exact ⟨_, .reference name longest splits⟩
          · have shorter : rest.length < length := by
              rw [← bound, List.length_cons]
              omega
            obtain ⟨parts, splits⟩ := ih _ shorter others rfl
            exact ⟨_, .char dollar splits⟩

private theorem Tree.VariableName.eq_of_text {first second : Tree.VariableName}
    (same : first.text = second.text) : first = second := by
  obtain ⟨⟨_, _, _⟩, _⟩ := first
  obtain ⟨⟨_, _, _⟩, _⟩ := second
  cases same
  rfl

/-- A text has its parts in one way only. -/
theorem Splits.unique {text : Text} {first second : List Part}
    (left : Splits text first) (right : Splits text second) :
    first = second := by
  induction left generalizing second with
  | nil =>
      cases right
      rfl
  | char ordinary others ih =>
      cases right with
      | char ordinary' others' => rw [ih others']
      | reference name longest others' => exact absurd rfl ordinary
  | @reference rest parts name longest others ih =>
      generalize whole : '$' :: (name.text ++ rest) = text at right
      cases right with
      | nil => contradiction
      | char ordinary others' =>
          exact absurd (List.cons.inj whole).1.symm ordinary
      | @reference rest' parts' name' longest' others' =>
          have same := (List.cons.inj whole).2
          -- Both names are all the name characters at the start.
          have names : name.text = name'.text := by
            rw [← takeWhile_append name.nameChars longest, same,
              takeWhile_append name'.nameChars longest']
          obtain rfl := Tree.VariableName.eq_of_text names
          obtain rfl := List.append_cancel_left same
          rw [ih others']

namespace Scopes

variable {scopes : Scopes} {name : Text} {parts : List Part}

/-- Every name that is referred to is visible. -/
def Covers (scopes : Scopes) (parts : List Part) : Prop :=
  ∀ part ∈ parts, ∀ name ∈ part.name?, scopes.contains name = true

/-- The number of references that stand for the binding at a place. -/
def references (scopes : Scopes) (parts : List Part) (place : Nat) : Nat :=
  parts.countP fun part => part.name?.bind scopes.place? == some place

/-- Every reference is counted as a use of the binding it stands for. -/
def counting (scopes : Scopes) (parts : List Part) : Scopes :=
  { scopes with
    bindings := scopes.bindings.mapIdx fun place binding =>
      { binding with uses := binding.uses + scopes.references parts place } }

theorem covers_nil : scopes.Covers [] := by
  intro part member
  cases member

theorem covers_char {c : Char} (ordinary : c ≠ '$') :
    scopes.Covers (.char c ordinary :: parts) ↔ scopes.Covers parts := by
  simp [Covers, Part.name?]

theorem covers_reference {name : Tree.VariableName} :
    scopes.Covers (.reference name :: parts) ↔
      scopes.contains name.text = true ∧ scopes.Covers parts := by
  simp [Covers, Part.name?]

theorem counting_nil (scopes : Scopes) : scopes.counting [] = scopes := by
  have same : scopes.bindings.mapIdx (fun place binding =>
      { binding with uses := binding.uses + scopes.references [] place }) =
        scopes.bindings := by
    apply Array.ext_getElem?
    intro place
    simp [references]
  rw [counting, same]

/-- A character is no use of anything. -/
theorem counting_char (scopes : Scopes) {c : Char} (ordinary : c ≠ '$')
    (parts : List Part) :
    scopes.counting (.char c ordinary :: parts) = scopes.counting parts := by
  simp [counting, references, Part.name?]

/-- The uses of one part after the other add up. -/
theorem counting_counting (scopes : Scopes) (part : Part) (parts : List Part) :
    (scopes.counting [part]).counting parts =
      scopes.counting (part :: parts) := by
  have same : (scopes.counting [part]).references parts =
      scopes.references parts := rfl
  simp only [counting] at same ⊢
  rw [same]
  congr 1
  rw [Array.mapIdx_mapIdx]
  congr 1
  funext place binding
  simp only [Function.comp_apply, references, List.countP_cons, List.countP_nil]
  congr 1
  omega

private theorem value?_counting (scopes : Scopes) (parts : List Part)
    (name : Text) :
    (scopes.counting parts).value? name = scopes.value? name := by
  have same : (scopes.counting parts).place? name = scopes.place? name := rfl
  simp only [value?, get?, same]
  cases scopes.place? name with
  | none => rfl
  | some place =>
      simp only [Option.bind_eq_bind, Option.bind_some, counting,
        Array.getElem?_mapIdx, Option.map_map]
      rfl

private theorem value_counting (scopes : Scopes) (counted parts : List Part) :
    parts.flatMap (Part.value (scopes.counting counted)) =
      parts.flatMap (Part.value scopes) := by
  congr 1
  funext part
  cases part with
  | char c ordinary => rfl
  | reference name => simp only [Part.value, value?_counting]

/-- Reading a visible variable gives its value and counts the use. -/
theorem read_visible {name : Tree.VariableName}
    (visible : scopes.contains name.text = true) :
    read name.text scopes =
      .ok (Part.value scopes (.reference name))
        (scopes.counting [.reference name]) := by
  obtain ⟨place, found⟩ := Option.isSome_iff_exists.mp visible
  have value : Part.value scopes (.reference name) =
      ((scopes.bindings[place]?).map Binding.value).getD [] := by
    simp [Part.value, value?, get?, found]
  have counted : scopes.bindings.modify place (fun binding =>
        { binding with uses := binding.uses + 1 }) =
      (scopes.counting [.reference name]).bindings := by
    apply Array.ext_getElem?
    intro other
    simp only [counting, references, Part.name?, Array.getElem?_modify,
      Array.getElem?_mapIdx, List.countP_cons, List.countP_nil,
      Option.bind_some, found]
    by_cases same : place = other
    · simp [same]
    · simp [same]
  rw [read, found, value]
  dsimp only
  rw [counted]
  rfl

private theorem read_invisible (invisible : scopes.contains name = false) :
    read name scopes = .error (.undefinedVariable name) scopes := by
  have missing : scopes.place? name = none := by
    simpa [contains] using invisible
  rw [read, missing]

end Scopes

namespace Variable

variable {scopes after : Scopes} {text result : Text} {parts : List Part}

/-- If all names are visible, every reference is replaced by its value. -/
theorem replace_covered (splits : Splits text parts)
    (covers : scopes.Covers parts) :
    replace text scopes =
      .ok (parts.flatMap (Part.value scopes)) (scopes.counting parts) := by
  rw [replace]
  induction splits generalizing scopes with
  | nil => rw [Scopes.counting_nil]; rfl
  | @char c rest parts ordinary others ih =>
      have later := ih ((Scopes.covers_char ordinary).mp covers)
      rw [replaceAfter_char ordinary, bind_apply, later, Scopes.counting_char]
      rfl
  | @reference rest parts name longest others ih =>
      obtain ⟨visible, covered⟩ := Scopes.covers_reference.mp covers
      have later := @ih (scopes.counting [.reference name]) covered
      rw [Scopes.value_counting, Scopes.counting_counting] at later
      rw [replaceAfter_reference name longest, bind_apply,
        Scopes.read_visible visible]
      dsimp only
      rw [bind_apply, later]
      rfl

/-- If some name is not visible, the first reference to such a name fails, after
those before it have been read. -/
theorem replace_uncovered (splits : Splits text parts)
    (uncovered : ¬ scopes.Covers parts) :
    ∃ front name back, parts = front ++ .reference name :: back ∧
      scopes.Covers front ∧
      scopes.contains name.text = false ∧
      replace text scopes =
        .error (.undefinedVariable name.text) (scopes.counting front) := by
  rw [replace]
  induction splits generalizing scopes with
  | nil => exact absurd Scopes.covers_nil uncovered
  | @char c rest parts ordinary others ih =>
      rw [Scopes.covers_char] at uncovered
      obtain ⟨front, name, back, rfl, covers, invisible, failed⟩ := ih uncovered
      refine ⟨.char c ordinary :: front, name, back, rfl, ?_, invisible, ?_⟩
      · exact (Scopes.covers_char ordinary).mpr covers
      · rw [replaceAfter_char ordinary, bind_apply, failed,
          Scopes.counting_char]
  | @reference rest parts name longest others ih =>
      rw [replaceAfter_reference name longest, bind_apply]
      cases visible : scopes.contains name.text with
      | false =>
          refine ⟨[], name, parts, rfl, Scopes.covers_nil, visible, ?_⟩
          rw [Scopes.read_invisible visible, Scopes.counting_nil]
      | true =>
          have later : ¬ (scopes.counting [.reference name]).Covers parts := by
            intro covers
            exact uncovered (Scopes.covers_reference.mpr ⟨visible, covers⟩)
          obtain ⟨front, missing, back, rfl, covers, invisible, failed⟩ :=
            ih later
          refine ⟨.reference name :: front, missing, back, rfl, ?_,
            invisible, ?_⟩
          · exact Scopes.covers_reference.mpr ⟨visible, covers⟩
          · rw [Scopes.read_visible visible]
            dsimp only
            rw [bind_apply, failed, Scopes.counting_counting]

/-- One round of replacement is enough if it leaves no reference. -/
theorem substitute_of_replace
    (replaced : replace text scopes = .ok result after)
    (closed : Closed result) : substitute text scopes = .ok result after := by
  rw [substitute, maxRounds, substituteWithin]
  cases occurs : occursIn text with
  | false =>
      rw [replace, replaceAfter_absent occurs] at replaced
      exact replaced
  | true =>
      rw [if_pos rfl, bind_apply, replaced]
      dsimp only
      rw [substituteWithin, closed]
      rfl

private theorem substitute_of_failed {error : Error}
    (failed : replace text scopes = .error error after) :
    substitute text scopes = .error error after := by
  rw [substitute, maxRounds, substituteWithin]
  cases occurs : occursIn text with
  | false =>
      rw [replace, replaceAfter_absent occurs] at failed
      contradiction
  | true => rw [if_pos rfl, bind_apply, failed]

end Variable

/-- No visible value has a `$`. -/
def Scopes.Plain (scopes : Scopes) : Prop :=
  ∀ name value, scopes.value? name = some value → '$' ∉ value

private theorem Scopes.plain_of_bindings {scopes : Scopes}
    (plain : ∀ binding ∈ scopes.bindings, '$' ∉ binding.value) :
    scopes.Plain := by
  intro name value shown
  obtain ⟨binding, found, rfl⟩ := Option.map_eq_some_iff.mp shown
  simp only [Scopes.get?, Option.bind_eq_bind, Option.bind_eq_some_iff] at found
  obtain ⟨place, -, present⟩ := found
  exact plain binding (Array.mem_of_getElem? present)

theorem Scopes.Plain.not_mem {scopes : Scopes} (plain : scopes.Plain)
    (parts : List Part) :
    '$' ∉ parts.flatMap (Part.value scopes) := by
  intro member
  obtain ⟨part, -, inside⟩ := List.mem_flatMap.mp member
  cases part with
  | char c ordinary => exact ordinary (List.mem_singleton.mp inside).symm
  | reference name =>
      cases shown : scopes.value? name.text with
      | none => simp [Part.value, shown] at inside
      | some value =>
          rw [Part.value, shown] at inside
          exact plain name.text value shown inside

/-- Substitution replaces all references of a text at once, if the values have
none themselves.  It succeeds exactly if every name is visible; then every
reference has become the innermost value of its name, no `$` is left, and all
that has changed in the scopes is that every reference counts as one use.
Otherwise the first name that is not visible is reported. -/
theorem substitution_simultaneous {scopes : Scopes} {text : Text}
    (plain : scopes.Plain) (referring : Referring text) :
    ∃ parts, Splits text parts ∧
      (∀ others, Splits text others → others = parts) ∧
      ((∃ result after, Variable.substitute text scopes = .ok result after) ↔
        scopes.Covers parts) ∧
      (scopes.Covers parts →
        Variable.substitute text scopes =
            .ok (parts.flatMap (Part.value scopes)) (scopes.counting parts) ∧
          '$' ∉ parts.flatMap (Part.value scopes)) ∧
      (¬ scopes.Covers parts →
        ∃ front name back, parts = front ++ .reference name :: back ∧
          scopes.Covers front ∧
          scopes.contains name.text = false ∧
          Variable.substitute text scopes =
            .error (.undefinedVariable name.text) (scopes.counting front)) := by
  obtain ⟨parts, splits⟩ := referring.exists_splits
  have succeeds : scopes.Covers parts →
      Variable.substitute text scopes =
        .ok (parts.flatMap (Part.value scopes)) (scopes.counting parts) := by
    intro covers
    exact Variable.substitute_of_replace
      (Variable.replace_covered splits covers)
      (Variable.closed_of_absent (plain.not_mem parts))
  have fails : ¬ scopes.Covers parts →
      ∃ front name back, parts = front ++ .reference name :: back ∧
        scopes.Covers front ∧
        scopes.contains name.text = false ∧
        Variable.substitute text scopes =
          .error (.undefinedVariable name.text) (scopes.counting front) := by
    intro uncovered
    obtain ⟨front, name, back, shape, covers, invisible, failed⟩ :=
      Variable.replace_uncovered splits uncovered
    exact ⟨front, name, back, shape, covers, invisible,
      Variable.substitute_of_failed failed⟩
  refine ⟨parts, splits, fun others other => other.unique splits,
    ⟨?_, ?_⟩, ?_, fails⟩
  · rintro ⟨result, after, substituted⟩
    by_contra uncovered
    obtain ⟨front, name, back, -, -, -, failed⟩ := fails uncovered
    rw [substituted] at failed
    contradiction
  · intro covers
    exact ⟨_, _, succeeds covers⟩
  · intro covers
    exact ⟨succeeds covers, plain.not_mem parts⟩

namespace SubstitutionSample

/-- The name of the one variable starts the name of the other, and its inner
binding hides an outer one. -/
def scopes : Scopes where
  bindings :=
    #[⟨['a'], ['1', 'p', 'x'], 4, false⟩,
      ⟨['a', '-', 'b'], ['y', ' ', 'z'], 0, true⟩,
    ⟨['a'], ['x'], 0, false⟩]
  inner := [(['a'], 2)]
  outer := [[(['a', '-', 'b'], 1), (['a'], 0)]]

def a : Tree.VariableName :=
  ⟨⟨['a'], by decide, by decide⟩, by decide⟩

def ab : Tree.VariableName :=
  ⟨⟨['a', '-', 'b'], by decide, by decide⟩, by decide⟩

def no : Tree.VariableName :=
  ⟨⟨['n', 'o'], by decide, by decide⟩, by decide⟩

theorem plain : scopes.Plain :=
  Scopes.plain_of_bindings (by decide)

/-- The text `$a$a-b,$a`. -/
theorem splits_covered :
    Splits ['$', 'a', '$', 'a', '-', 'b', ',', '$', 'a']
      [.reference a, .reference ab, .char ',' (by decide), .reference a] :=
  .reference a (by simp [EndsName, isNameChar]) <|
    .reference ab (by simp [EndsName, isNameChar]) <|
      .char (by decide) <| .reference a (by simp [EndsName]) .nil

/-- The text `$a$no$no`. -/
theorem splits_uncovered :
    Splits ['$', 'a', '$', 'n', 'o', '$', 'n', 'o']
      [.reference a, .reference no, .reference no] :=
  .reference a (by simp [EndsName, isNameChar]) <|
    .reference no (by simp [EndsName, isNameChar]) <|
      .reference no (by simp [EndsName]) .nil

end SubstitutionSample

open SubstitutionSample in
/-- Adjacent references are told apart, and the first name that is not visible
is reported. -/
theorem substitution_simultaneous_sample :
    scopes.Plain ∧
      Referring ['$', 'a', '$', 'a', '-', 'b', ',', '$', 'a'] ∧
      Referring ['$', 'a', '$', 'n', 'o', '$', 'n', 'o'] ∧
      (∃ after,
        Variable.substitute ['$', 'a', '$', 'a', '-', 'b', ',', '$', 'a']
          scopes =
          .ok ['x', 'y', ' ', 'z', ',', 'x'] after ∧
        after.bindings.map Binding.uses = #[4, 1, 2]) ∧
      ∃ after,
        Variable.substitute ['$', 'a', '$', 'n', 'o', '$', 'n', 'o'] scopes =
          .error (.undefinedVariable ['n', 'o']) after ∧
        after.bindings.map Binding.uses = #[4, 0, 1] := by
  refine ⟨plain, by decide, by decide, ?_, ?_⟩
  · obtain ⟨parts, -, unique, -, succeeds, -⟩ :=
      @substitution_simultaneous scopes
        ['$', 'a', '$', 'a', '-', 'b', ',', '$', 'a'] plain (by decide)
    obtain rfl := unique _ splits_covered
    have covers : scopes.Covers
        [.reference a, .reference ab, .char ',' (by decide), .reference a] := by
      simp only [Scopes.covers_reference, Scopes.covers_char]
      exact ⟨rfl, rfl, rfl, Scopes.covers_nil⟩
    exact ⟨_, (succeeds covers).1, by decide +kernel⟩
  · obtain ⟨parts, -, unique, -, -, fails⟩ :=
      @substitution_simultaneous scopes ['$', 'a', '$', 'n', 'o', '$', 'n', 'o']
        plain (by decide)
    obtain rfl := unique _ splits_uncovered
    have hidden : ∀ {parts},
        ¬ scopes.Covers (.reference a :: .reference no :: parts) := by
      intro parts covers
      have visible :=
        (Scopes.covers_reference.mp (Scopes.covers_reference.mp covers).2).1
      contradiction
    obtain ⟨front, name, back, shape, covers, invisible, failed⟩ := fails hidden
    -- The reference that fails is the first one to a name that is not visible.
    cases front with
    | nil =>
        obtain rfl : a = name := by simpa using (List.cons.inj shape).1
        contradiction
    | cons first front =>
        obtain ⟨rfl, rest⟩ := List.cons.inj shape
        cases front with
        | nil =>
            obtain rfl : no = name := by simpa using (List.cons.inj rest).1
            exact ⟨_, failed, by decide +kernel⟩
        | cons second front =>
            obtain ⟨rfl, -⟩ := List.cons.inj rest
            exact absurd covers hidden

end Stylesheet
