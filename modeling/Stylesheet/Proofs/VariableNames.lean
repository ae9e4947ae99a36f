import Mathlib.Data.List.Induction
import Stylesheet.Proofs.ClosedValues
import Stylesheet.Proofs.TreeValues

/-!
# Names of variables

Definitions and parameters take every name, that is every row of name
characters; references are only those to names that start with a letter or `_`.
Such a name can be referred to wherever it is bound, its reference fails where
it is not, and no reference is ever left over.  A name that starts with a digit
or `-` can be bound, but what looks like a reference to it is ordinary text.
-/

namespace Stylesheet

namespace Scopes

variable {scopes : Scopes} {name value : Text}

private theorem value?_bind_of_ne {binding : Binding}
    (other : name ≠ binding.name) (shown : scopes.value? name = some value) :
    (scopes.bind binding).value? name = some value := by
  simp only [value?, get?, place?_bind, beq_iff_eq, other, if_false] at shown ⊢
  cases found : scopes.place? name with
  | none => simp [found] at shown
  | some place =>
      simp only [found, Option.bind_eq_bind, Option.bind_some] at shown ⊢
      obtain ⟨bound, present, rfl⟩ := Option.map_eq_some_iff.mp shown
      obtain ⟨uses, kept⟩ := scopes.retains_bind binding place bound present
      rw [kept]
      rfl

/-- A parameter is bound to an argument that stands in its place. -/
theorem value?_bindAll {pairs : List (Text × Text)}
    (member : name ∈ pairs.map Prod.fst) :
    ∃ value, (name, value) ∈ pairs ∧
      (pairs.foldl (fun scopes (parameter, value) =>
        (scopes.define parameter value false).2)
        scopes).value? name = some value := by
  -- The last pair with the name counts.
  induction pairs using List.reverseRecOn with
  | nil => contradiction
  | append_singleton pairs last ih =>
      obtain ⟨parameter, argument⟩ := last
      rw [List.foldl_append, List.foldl_cons, List.foldl_nil]
      by_cases same : name = parameter
      · subst same
        exact ⟨argument, by simp, value?_bind _ _⟩
      · have earlier : name ∈ pairs.map Prod.fst := by simpa [same] using member
        obtain ⟨value, paired, shown⟩ := ih earlier
        exact ⟨value, by simp [paired], value?_bind_of_ne same shown⟩

private theorem read_of_value? (shown : scopes.value? name = some value) :
    ∃ after, read name scopes = .ok value after := by
  unfold value? get? at shown
  cases found : scopes.place? name with
  | none => simp [found] at shown
  | some place =>
      simp only [found, Option.bind_eq_bind, Option.bind_some] at shown
      simp only [read, found, shown, Option.getD_some]
      exact ⟨_, rfl⟩

end Scopes

/-- A reference to the name gives the value, whatever text follows that does not
lengthen the name. -/
def Scopes.Resolves (scopes : Scopes) (name value : Text) : Prop :=
  ∀ rest : Text, '$' ∉ rest →
    (∀ c, rest.head? = some c → isNameChar c = false) →
    ∃ after, Variable.substitute ('$' :: (name ++ rest)) scopes =
      .ok (value ++ rest) after

namespace Tree.VariableName

open Variable

variable (name : VariableName) {scopes : Scopes} {value rest : Text}

theorem occursIn_reference (rest : Text) :
    occursIn ('$' :: (name.text ++ rest)) = true := by
  simp [occursIn, startsReference_append name.nonempty, name.referable]

/-- A bound name can be referred to. -/
theorem resolves (shown : scopes.value? name.text = some value)
    (plain : '$' ∉ value) :
    scopes.Resolves name.text value := by
  intro rest ordinary apart
  obtain ⟨after, read⟩ := Scopes.read_of_value? shown
  have closed : occursIn (value ++ rest) = false :=
    closed_of_absent (by simp [plain, ordinary])
  have replaced : replace ('$' :: (name.text ++ rest)) scopes =
      .ok (value ++ rest) after := by
    rw [replace, replaceAfter_reference name apart,
      replaceAfter_absent (closed_of_absent ordinary)]
    simp [read]
  refine ⟨after, ?_⟩
  rw [substitute, maxRounds, substituteWithin,
    if_pos (name.occursIn_reference rest), bind_apply, replaced]
  dsimp only
  rw [substituteWithin, closed]
  rfl

/-- A reference to a name that is not bound fails. -/
theorem substitute_unbound (absent : scopes.contains name.text = false)
    (apart : ∀ c, rest.head? = some c → isNameChar c = false) :
    substitute ('$' :: (name.text ++ rest)) scopes =
      .error (.undefinedVariable name.text) scopes := by
  have missing : scopes.place? name.text = none := by
    simpa [Scopes.contains] using absent
  rw [substitute, maxRounds, substituteWithin,
    if_pos (name.occursIn_reference rest), bind_apply, replace,
    replaceAfter_reference name apart, bind_apply]
  simp [Scopes.read, missing]

/-- No reference to the name is left over. -/
theorem not_infix_substitute {text result : Text} {after : Scopes}
    (substituted : substitute text scopes = .ok result after) :
    ¬ ('$' :: name.text) <:+: result := by
  rintro ⟨front, back, rfl⟩
  have closed := Closed.middle front back (closed_substitute substituted)
  have occurs := name.occursIn_reference []
  rw [List.append_nil, closed] at occurs
  contradiction

end Tree.VariableName

namespace Compile

open State

/-- What is expected stands at the cursor. -/
theorem of_reading_expect {text : Text} {c : Char} {state after : State}
    (here : state.At text)
    (done : reading (Cursor.expect c) state = .ok ⟨⟩ after) :
    ∃ rest, text = c :: rest ∧ after = state.pass 1 := by
  cases text with
  | nil =>
      have current := here.current
      simp [reading, Cursor.expect, Cursor.isAt, current] at done
  | cons d rest =>
      by_cases same : d = c
      · subst same
        rw [reading_expect here] at done
        exact ⟨rest, rfl, (EStateM.Result.ok.inj done).2.symm⟩
      · have current := here.current
        simp [reading, Cursor.expect, Cursor.isAt, current, same] at done

/-- A definition takes every name, and binds it to the value that stands behind
the colon. -/
theorem variableStatement_scopes {environment : Environment} (name : Tree.Name)
    {rest : Text} {state after : State}
    (here : state.At ('$' :: (name.text ++ rest)))
    (apart : ∀ c, rest.head? = some c → isNameChar c = false)
    (done : variableStatement environment state = .ok ⟨⟩ after) :
    ∃ (gap tail raw given : Text) (behind reached resolved : State),
      rest = gap ++ ':' :: tail ∧ (∀ c ∈ gap, isSpace c = true) ∧
      behind = state.pass (name.text.length + gap.length + 2) ∧
      behind.At tail ∧
      reading (Reader.readUntil [';', '}']) behind = .ok raw reached ∧
      resolveValue environment (splitDefault raw.trim).1 reached =
        .ok given resolved ∧
      after.scopes = (resolved.scopes.define name.text given.unquote
        (splitDefault raw.trim).2).2 := by
  rw [variableStatement_eq, bind_apply, reading_advance] at done
  dsimp only at done
  rw [bind_apply, reading_readName here.passOne name.nameChars apart] at done
  dsimp only at done
  rw [if_neg (by simp [name.nonempty])] at done
  have named := here.passOne.pass
  have split := @List.takeWhile_append_dropWhile _ isSpace rest
  have spaces (c : Char) (member : c ∈ rest.takeWhile isSpace) :
      isSpace c = true :=
    List.mem_takeWhile_imp member
  rw [← split] at named
  rw [bind_apply, reading_skipSpace named spaces (visible_dropWhile rest)]
    at done
  dsimp only at done
  obtain ⟨_, colon, expected, done⟩ := bind_ok done
  obtain ⟨tail, found, rfl⟩ := of_reading_expect named.pass expected
  obtain ⟨raw, reached, read, done⟩ := bind_ok done
  obtain ⟨given, resolved, value, scopes⟩ := defineVariable_scopes done
  rw [found] at named split
  have moved : (((state.pass 1).pass name.text.length).pass
      (rest.takeWhile isSpace).length).pass 1 =
        state.pass
          (name.text.length + (rest.takeWhile isSpace).length + 2) := by
    simp only [State.pass_pass]
    congr 1
    omega
  exact ⟨_, tail, raw, given, _, reached, resolved, split.symm, spaces, moved,
    named.pass.passOne, read, value, scopes⟩

/-- A parameter list takes every name. -/
theorem parameterName_name (mixin : Text) (name : Tree.Name) :
    parameterName mixin ('$' :: name.text) = .ok name.text := by
  have named : name.text.all isNameChar = true :=
    List.all_eq_true.mpr name.nameChars
  simp [parameterName, named, name.nonempty]

end Compile

private theorem Mixins.value?_expand {mixins counted : Mixins}
    {included name : Text} {mixin : Mixin} {arguments : List Text}
    {file : Option Text} {scopes after : Scopes} {expansion : Expansion}
    (found : mixins.get? included = some mixin)
    (parameter : name ∈ mixin.parameters)
    (done : expand included arguments file (mixins, scopes) =
      .ok expansion (counted, after)) :
    ∃ value, (name, value) ∈ mixin.parameters.zip arguments ∧
      after.value? name = some value := by
  rw [expand_apply, expanded, found] at done
  dsimp only at done
  by_cases count : arguments.length = mixin.parameters.length
  · rw [if_neg (by simp [count])] at done
    simp only [EStateM.Result.ok.injEq, Prod.mk.injEq] at done
    rw [← done.2.2]
    refine Scopes.value?_bindAll ?_
    rwa [List.map_fst_zip count.ge]
  · rw [if_pos (by simp [count])] at done
    contradiction

/-- Every name that starts with a letter or `_` can be bound and referred to.
It is taken as a parameter and by definitions.  Once it is bound, by a
definition of any kind or as a parameter, a reference to it gives the value,
whatever follows the reference.  As long as it is not bound, a reference to it
fails.  No reference to it is left over in what substitution gives. -/
theorem definable_names_resolve (name : Tree.VariableName) :
    (∀ mixin, Compile.parameterName mixin ('$' :: name.text) = .ok name.text) ∧
    (∀ (scopes : Scopes) (value : Text) (isDefault : Bool) (after : Scopes),
      scopes.define name.text value isDefault = (true, after) → '$' ∉ value →
        after.Resolves name.text value) ∧
    (∀ (environment : Environment) (state after : State) (rest : Text),
      state.At ('$' :: (name.text ++ rest)) →
      (∀ c, rest.head? = some c → isNameChar c = false) →
      Compile.variableStatement environment state = .ok ⟨⟩ after →
        ∃ (gap tail raw given : Text) (behind reached resolved : State),
          rest = gap ++ ':' :: tail ∧ (∀ c ∈ gap, isSpace c = true) ∧
          behind = state.pass (name.text.length + gap.length + 2) ∧
          behind.At tail ∧
          Compile.reading (Reader.readUntil [';', '}']) behind =
            .ok raw reached ∧
          Compile.resolveValue environment (Compile.splitDefault raw.trim).1
            reached = .ok given resolved ∧
          let defined := resolved.scopes.define name.text given.unquote
            (Compile.splitDefault raw.trim).2
          after.scopes = defined.2 ∧
          ∃ value, after.scopes.value? name.text = some value ∧
            (defined.1 = true → value = given.unquote) ∧
            (defined.1 = false →
              resolved.scopes.value? name.text = some value) ∧
            ('$' ∉ value → after.scopes.Resolves name.text value)) ∧
    (∀ (mixins counted : Mixins) (included : Text) (mixin : Mixin)
      (arguments : List Text) (file : Option Text) (scopes after : Scopes)
      (expansion : Expansion),
      mixins.get? included = some mixin → name.text ∈ mixin.parameters →
      Mixins.expand included arguments file (mixins, scopes) =
          .ok expansion (counted, after) →
        ∃ value, (name.text, value) ∈ mixin.parameters.zip arguments ∧
          ('$' ∉ value → after.Resolves name.text value)) ∧
    (∀ (scopes : Scopes) (rest : Text), scopes.contains name.text = false →
      (∀ c, rest.head? = some c → isNameChar c = false) →
        Variable.substitute ('$' :: (name.text ++ rest)) scopes =
          .error (.undefinedVariable name.text) scopes) ∧
    (∀ (text result : Text) (scopes after : Scopes),
      Variable.substitute text scopes = .ok result after →
        ¬ ('$' :: name.text) <:+: result) := by
  refine ⟨fun mixin => Compile.parameterName_name mixin name.toName, ?_,
    ?_, ?_, ?_, ?_⟩
  · intro scopes value isDefault after defined plain
    obtain ⟨shown, bound, same, -⟩ :=
      scopes.value?_define name.text value isDefault
    rw [defined] at bound same
    exact name.resolves (same rfl ▸ bound) plain
  · intro environment state after rest here apart done
    obtain ⟨gap, tail, raw, given, behind, reached, resolved, split, spaces,
      moved, standing, read, value, scopes⟩ :=
        Compile.variableStatement_scopes name.toName here apart done
    refine ⟨gap, tail, raw, given, behind, reached, resolved, split,
      spaces, moved, standing, read, value, scopes, ?_⟩
    obtain ⟨value, bound, taken, kept⟩ :=
      resolved.scopes.value?_define name.text
      given.unquote (Compile.splitDefault raw.trim).2
    exact ⟨value, scopes ▸ bound, taken, kept, name.resolves (scopes ▸ bound)⟩
  · intro mixins counted included mixin arguments file scopes after expansion
      found parameter expanded
    obtain ⟨value, paired, bound⟩ :=
      Mixins.value?_expand found parameter expanded
    exact ⟨value, paired, name.resolves bound⟩
  · intro scopes rest absent apart
    exact name.substitute_unbound absent apart
  · intro text result scopes after substituted
    exact name.not_infix_substitute substituted

namespace NameSample

/-- A name with `-` and a digit behind its letter. -/
def name : Tree.VariableName :=
  ⟨⟨"a-1".toList, by decide, by decide⟩, by decide⟩

def mixin : Mixin :=
  { name := "m".toList, parameters := [name.text], body := [],
    file := none, line := 1 }

def state : State :=
  Compilation.start {} "$a-1: red;".toList none

/-- The scopes in which the parameter of the mixin is bound. -/
def bound : Scopes :=
  (Scopes.define {} name.text "blue".toList false).2

theorem accepted :
    ∃ after, Compile.variableStatement {} state = .ok ⟨⟩ after := by
  have succeeds : (match Compile.variableStatement {} state with
      | .ok _ _ => true
      | .error _ _ => false) = true := by decide +kernel
  cases result : Compile.variableStatement {} state with
  | ok value after => exact ⟨after, rfl⟩
  | error error after =>
      rw [result] at succeeds
      contradiction

end NameSample

open NameSample in
/-- The name is bound by a definition and as a parameter, and not bound at
all. -/
theorem definable_names_resolve_sample :
    (∃ after, Compile.variableStatement {} state = .ok ⟨⟩ after ∧
      ∃ value, after.scopes.value? name.text = some value ∧
        ('$' ∉ value → after.scopes.Resolves name.text value)) ∧
    (∃ after, Variable.substitute "$a-1;".toList bound =
      .ok "blue;".toList after) ∧
    (∃ value, (name.text, value) ∈ [(name.text, "blue".toList)] ∧
      ('$' ∉ value → bound.Resolves name.text value)) ∧
    Variable.substitute "$a-1;".toList {} =
      .error (.undefinedVariable name.text) {} := by
  obtain ⟨-, defined, stated, included, unbound, -⟩ :=
    definable_names_resolve name
  have here : state.At ('$' :: (name.text ++ ": red;".toList)) :=
    State.at_start rfl
  obtain ⟨after, done⟩ := accepted
  obtain ⟨-, -, -, -, -, -, -, -, -, -, -, -, -, -, value, shown, -,
      -, resolves⟩ :=
    stated {} state after _ here (by decide) done
  refine ⟨⟨after, done, value, shown, resolves⟩, ?_, ?_, ?_⟩
  · exact defined {} _ false _ rfl (by decide) [';'] (by decide) (by decide)
  · exact included (({} : Mixins).define mixin) _ mixin.name mixin
      ["blue".toList] none {} bound _
      rfl (by decide) rfl
  · exact unbound {} [';'] rfl (by decide)

/-- A name that starts with a digit is taken by definitions and as a parameter,
but what looks like a reference to it is copied. -/
theorem digit_name_copied :
    Compile.parameterName "m".toList "$1a".toList = .ok "1a".toList ∧
      (∃ after, Variable.substitute "$1a".toList
        (Scopes.define {} "1a".toList "red".toList false).2 =
          .ok "$1a".toList after) ∧
      (compile 9 "$1a: red; .a \x7b color: $1a; \x7d".toList).1.message? =
        none ∧
      (compile 9 "$1a: red; .a \x7b color: $1a; \x7d".toList).2 =
        ".a \x7b\n\tcolor: $1a;\n\x7d\n".toList :=
  ⟨rfl, ⟨_, rfl⟩, by decide +kernel, by decide +kernel⟩

end Stylesheet
