import Mathlib.Logic.Function.Iterate
import Stylesheet.Proofs.BuiltinResults
import Stylesheet.Proofs.Effect
import Stylesheet.Proofs.Footprint
import Stylesheet.Proofs.FunctionCalls

/-!
# Stored values are closed

Every value that a variable or a parameter is bound to has been resolved, so it
refers to no variable.  References are replaced until none is left; what remains
to be shown is that no later stage makes one.  A stage could do so only at a
seam, where a `$` that stands alone comes to stand before a letter: calls are
replaced by their results, blanks are collapsed, and quotes are taken off.
-/

namespace Stylesheet

namespace Scopes

/-- The value of the binding that a name stands for. -/
def value? (scopes : Scopes) (name : Text) : Option Text :=
  (scopes.get? name).map Binding.value

theorem place?_bind (scopes : Scopes) (binding : Binding) (name : Text) :
    (scopes.bind binding).place? name =
      if name == binding.name then some scopes.bindings.size
      else scopes.place? name := by
  simp only [place?, frames, bind, List.findSome?_cons, Frame.lookup_bind]
  cases name == binding.name with
  | true => rfl
  | false => rfl

theorem value?_bind (scopes : Scopes) (binding : Binding) :
    (scopes.bind binding).value? binding.name = some binding.value := by
  simp only [value?, get?, place?_bind, beq_self_eq_true, if_true]
  simp [bind]

/-- A definition leaves its name bound, to the new value if it takes effect. -/
theorem value?_define (scopes : Scopes) (name value : Text) (isDefault : Bool) :
    ∃ shown, (scopes.define name value isDefault).2.value? name = some shown ∧
      ((scopes.define name value isDefault).1 = true → shown = value) ∧
      ((scopes.define name value isDefault).1 = false →
        scopes.value? name = some shown) := by
  unfold define
  split
  · rename_i keeps
    rw [Bool.and_eq_true, Scopes.keeps] at keeps
    cases found : scopes.get? name with
    | none => simp [found] at keeps
    | some binding =>
        exact ⟨binding.value, by simp [value?, found], by simp,
          fun _ => by simp [value?, found]⟩
  · exact ⟨value, value?_bind _ _, fun _ => rfl, by simp⟩

/-- Every name has the value that it had. -/
def SameValues (before after : Scopes) : Prop :=
  after.value? = before.value?

instance : IsPreorder Scopes SameValues where
  refl _ := rfl
  trans _ _ _ first second := Eq.trans second first

theorem sameValues_read (name : Text) : Always SameValues (read name) := by
  intro scopes
  unfold read
  split
  · rfl
  · rename_i place found
    funext other
    -- The places are the same, and only a count is another.
    change ((do (scopes.bindings.modify place _)[← scopes.place? other]?) :
      Option Binding).map Binding.value = scopes.value? other
    unfold value? get?
    cases scopes.place? other with
    | none => rfl
    | some there =>
        simp only [Option.bind_eq_bind, Option.bind_some,
          Array.getElem?_modify]
        split
        · rw [Option.map_map]
          rfl
        · rfl

private theorem read_ok {scopes after : Scopes} {name value : Text}
    (done : read name scopes = .ok value after) :
    value = (scopes.value? name).getD [] := by
  unfold read at done
  split at done
  · contradiction
  · rename_i place found
    obtain ⟨rfl, -⟩ := EStateM.Result.ok.inj done
    simp [value?, get?, found]

end Scopes

namespace Variable

/-- A text that refers to no variable. -/
def Closed (text : Text) : Prop :=
  occursIn text = false

instance (text : Text) : Decidable (Closed text) :=
  inferInstanceAs (Decidable (occursIn text = false))

theorem startsReference_append {text : Text} (nonempty : text ≠ [])
    (more : Text) :
    startsReference (text ++ more) = startsReference text := by
  cases text with
  | nil => exact absurd rfl nonempty
  | cons c rest => rfl

/-- References stand in the parts of a text, or at the seam between them. -/
theorem occursIn_append (text more : Text) :
    occursIn (text ++ more) =
      (occursIn text || occursIn more ||
        (text.getLast? == some '$' && startsReference more)) := by
  induction text with
  | nil => simp [occursIn]
  | cons c rest ih =>
      cases rest with
      | nil => simp [occursIn, startsReference, Bool.or_comm]
      | cons d tail =>
          have begins : startsReference (d :: tail ++ more) =
              startsReference (d :: tail) := rfl
          have later : occursIn (c :: d :: tail) =
              (c == '$' && startsReference (d :: tail) ||
                occursIn (d :: tail)) := rfl
          rw [List.cons_append, occursIn, begins, ih, later,
            List.getLast?_cons_cons]
          simp only [Bool.or_assoc]

theorem closed_append {text more : Text} :
    Closed (text ++ more) ↔
      Closed text ∧ Closed more ∧
        (text.getLast? = some '$' → startsReference more = false) := by
  simp only [Closed, occursIn_append, Bool.or_eq_false_iff,
    Bool.and_eq_false_imp, beq_iff_eq, and_assoc]

theorem Closed.middle (before : Text) {text : Text} (after : Text)
    (closed : Closed (before ++ text ++ after)) : Closed text :=
  (closed_append.mp (closed_append.mp closed).1).2.1

theorem closed_of_absent {text : Text} (absent : '$' ∉ text) : Closed text := by
  induction text with
  | nil => rfl
  | cons c rest ih =>
      obtain ⟨other, later⟩ : '$' ≠ c ∧ '$' ∉ rest := by simpa using absent
      have plain : (c == '$') = false := by simpa using Ne.symm other
      rw [Closed, occursIn, plain, ih later]
      rfl

/-- A part of a text may be replaced if neither of its seams becomes a
reference. -/
theorem Closed.replace {before after other : Text} (text : Text)
    (closed : Closed (before ++ text ++ after))
    (inside : Closed other) (right : other.getLast? ≠ some '$')
    (left : before.getLast? = some '$' → other ≠ [] ∧
      startsReference other = false) :
    Closed (before ++ other ++ after) := by
  obtain ⟨outer, behind, -⟩ := closed_append.mp closed
  refine closed_append.mpr
    ⟨closed_append.mpr ⟨(closed_append.mp outer).1, inside,
    fun last => (left last).2⟩, behind, fun last => ?_⟩
  rw [List.getLast?_append] at last
  cases ending : other.getLast? with
  | none =>
      rw [ending, Option.none_or] at last
      exact absurd (List.getLast?_eq_none_iff.mp ending) (left last).1
  | some c =>
      rw [ending, Option.some_or] at last
      exact absurd (ending.trans last) right

theorem closed_trim {text : Text} (closed : Closed text) :
    Closed text.trim := by
  obtain ⟨before, after, -, -, whole⟩ := text.exists_trim
  apply Closed.middle before after
  rwa [← whole]

theorem closed_unquote {text : Text} (closed : Closed text) :
    Closed text.unquote := by
  unfold Text.unquote
  split
  · exact closed
  · rename_i mark rest
    split
    · exact closed
    · rename_i last ending
      dsimp only
      split
      · obtain ⟨contents, rfl⟩ := List.getLast?_eq_some_iff.mp ending
        rw [List.dropLast_concat]
        exact Closed.middle [mark] [last] (by simpa using closed)
      · exact closed

/-- After blanks, the collapsed text begins with a space. -/
theorem startsReference_normalizeAfter_gap (text : Text) :
    startsReference (Text.normalizeAfter .outside true text) = false := by
  induction text with
  | nil => rfl
  | cons c rest ih =>
      simp only [Text.normalizeAfter, Quoting.isOutside, if_true]
      split
      · exact ih
      · rfl

theorem startsReference_normalizeAfter {quoting : Quoting}
    {gap : Bool} {text : Text}
    (starts : startsReference (Text.normalizeAfter quoting gap text) = true) :
    startsReference text = true := by
  cases text with
  | nil => exact starts
  | cons c rest =>
      rw [Text.normalizeAfter] at starts
      split at starts
      · rename_i outside
        obtain rfl : quoting = .outside := by
          cases quoting with
          | outside => rfl
          | inside mark => simp [Quoting.isOutside] at outside
          | escaped mark => simp [Quoting.isOutside] at outside
        split at starts
        · rw [startsReference_normalizeAfter_gap] at starts
          exact absurd starts (by decide)
        · split at starts
          · simp [startsReference] at starts
          · exact starts
      · exact starts

theorem closed_cons {c : Char} {text : Text} :
    Closed (c :: text) ↔ (c = '$' → startsReference text = false) ∧
      Closed text := by
  simp only [Closed, occursIn, Bool.or_eq_false_iff,
    Bool.and_eq_false_imp, beq_iff_eq]

theorem closed_normalizeAfter (quoting : Quoting) (gap : Bool) {text : Text}
    (closed : Closed text) : Closed (Text.normalizeAfter quoting gap text) := by
  induction text generalizing quoting gap with
  | nil => exact closed
  | cons c rest ih =>
      obtain ⟨seam, later⟩ := closed_cons.mp closed
      have kept (quoting : Quoting) (gap : Bool) :
          Closed (c :: Text.normalizeAfter quoting gap rest) := by
        refine closed_cons.mpr ⟨fun dollar => ?_, ih quoting gap later⟩
        rw [Bool.eq_false_iff]
        intro starts
        rw [startsReference_normalizeAfter starts] at seam
        exact absurd (seam dollar) (by decide)
      rw [Text.normalizeAfter]
      split
      · split
        · exact ih _ _ later
        · split
          · exact closed_cons.mpr
              ⟨fun blank => absurd blank (by decide), kept _ _⟩
          · exact kept _ _
      · exact kept _ _

theorem closed_normalize {text : Text} (closed : Closed text) :
    Closed text.normalize :=
  closed_normalizeAfter _ _ (closed_trim closed)

/-- The names that a text refers to. -/
def references : Text → List Text
  | [] => []
  | c :: rest =>
      if c == '$' && startsReference rest then
        rest.takeWhile isNameChar :: references rest
      else references rest

/-- The characters of a name refer to nothing, so a reference is passed over
whole. -/
theorem references_drop_name (text : Text) :
    references (text.drop (text.takeWhile isNameChar).length) =
      references text := by
  induction text with
  | nil => rfl
  | cons c rest ih =>
      cases named : isNameChar c with
      | false => simp [named]
      | true =>
          have other : (c == '$') = false := by
            rw [beq_eq_false_iff_ne]
            rintro rfl
            exact absurd named (by decide)
          simp [references, named, other, ih]

theorem occursIn_of_references {text : Text} (some : references text ≠ []) :
    occursIn text = true := by
  induction text with
  | nil => exact absurd rfl some
  | cons c rest ih =>
      rw [occursIn, Bool.or_eq_true]
      cases starts : c == '$' && startsReference rest with
      | true => exact .inl rfl
      | false => exact .inr (ih (by simpa [references, starts] using some))

/-- References are replaced by the values of variables that there are, or there
is none. -/
theorem replaceAfter_references (pending : Nat) (text : Text)
    (scopes : Scopes) :
    (∀ name ∈ references (text.drop pending), scopes.contains name = true) ∨
      ∃ missing after, replaceAfter pending text scopes =
        .error (.undefinedVariable missing) after := by
  fun_induction replaceAfter pending text generalizing scopes with
  | case1 => exact .inl (by simp [references])
  | case2 pending c rest ih => exact ih scopes
  | case3 c rest reference name ih =>
      rw [bind_apply]
      cases place : scopes.place? name with
      | none =>
          refine .inr ⟨name, scopes, ?_⟩
          simp [Scopes.read, place]
      | some found =>
          have present : scopes.contains name = true := by
            simp [Scopes.contains, place]
          have same (other : Text) :
              (finalState (Scopes.read name scopes)).contains other =
                scopes.contains other := by
            rw [Scopes.contains, (Scopes.consulted_read name scopes).place?,
              Scopes.contains]
          have after := ih (finalState (Scopes.read name scopes))
          rw [references_drop_name] at after
          rcases after with bound | ⟨missing, last, failed⟩
          · refine .inl fun other member => ?_
            rw [List.drop_zero, references, if_pos reference, List.mem_cons]
              at member
            rcases member with rfl | later
            · exact present
            · rw [← same]
              exact bound other later
          · refine .inr ⟨missing, last, ?_⟩
            simp only [Scopes.read, place, finalState] at failed ⊢
            simp [failed]
  | case4 c rest plain ih =>
      rcases ih scopes with bound | ⟨missing, last, failed⟩
      · refine .inl fun other member => bound other ?_
        rw [List.drop_zero, references, if_neg plain] at member
        exact member
      · exact .inr ⟨missing, last, by simp [failed]⟩

/-- A value refers to variables that there are, or it cannot be had. -/
theorem substitute_references {name text : Text}
    (refers : name ∈ references text) (scopes : Scopes) :
    scopes.contains name = true ∨
      ∃ missing after,
        substitute text scopes = .error (.undefinedVariable missing) after := by
  have occurs := occursIn_of_references (List.ne_nil_of_mem refers)
  rcases replaceAfter_references 0 text scopes with bound
    | ⟨missing, after, failed⟩
  · exact .inl (bound name refers)
  · refine .inr ⟨missing, after, ?_⟩
    rw [substitute, maxRounds, substituteWithin, if_pos occurs, bind_apply,
      replace, failed]

/-- The text with each reference replaced by the value of its name, from left to
right after the first `pending` characters. -/
def replacedAfter (value? : Text → Option Text) : (pending : Nat) → Text → Text
  | _, [] => []
  | pending + 1, _ :: rest => replacedAfter value? pending rest
  | 0, c :: rest =>
      if c == '$' && startsReference rest then
        let name := rest.takeWhile isNameChar
        (value? name).getD [] ++ replacedAfter value? name.length rest
      else c :: replacedAfter value? 0 rest

/-- The text with each reference replaced once. -/
def replaced (value? : Text → Option Text) (text : Text) : Text :=
  replacedAfter value? 0 text

private theorem replaceAfter_ok {pending : Nat} {text result : Text}
    {scopes after : Scopes}
    (done : replaceAfter pending text scopes = .ok result after) :
    result = replacedAfter scopes.value? pending text := by
  fun_induction replaceAfter pending text generalizing scopes result after with
  | case1 =>
      obtain ⟨rfl, -⟩ := EStateM.Result.ok.inj done
      rw [replacedAfter]
  | case2 pending c rest ih =>
      rw [replacedAfter]
      exact ih done
  | case3 =>
      rename_i c rest reference name ih
      obtain ⟨value, middle, read, further⟩ := bind_ok done
      obtain ⟨following, last, later, whole⟩ := bind_ok further
      obtain ⟨rfl, -⟩ := EStateM.Result.ok.inj whole
      have same := (Scopes.sameValues_read _).of_ok read
      rw [replacedAfter, if_pos reference, ih later, Scopes.read_ok read, same]
  | case4 c rest plain ih =>
      obtain ⟨following, last, later, whole⟩ := bind_ok done
      obtain ⟨rfl, -⟩ := EStateM.Result.ok.inj whole
      rw [replacedAfter, if_neg plain, ih later]

/-- Substitution is some rounds of replacement by the values that there are at
the start. -/
theorem substituteWithin_ok {whole text result : Text} {rounds : Nat}
    {scopes after : Scopes}
    (done : substituteWithin whole rounds text scopes = .ok result after) :
    ∃ count, result = (replaced scopes.value?)^[count] text ∧
      (occursIn text = true → 0 < count) := by
  induction rounds generalizing text scopes with
  | zero =>
      unfold substituteWithin at done
      split at done
      · contradiction
      · rename_i absent
        obtain ⟨rfl, -⟩ := EStateM.Result.ok.inj done
        exact ⟨0, rfl, fun occurs => absurd occurs absent⟩
  | succ rounds ih =>
      unfold substituteWithin at done
      split at done
      · obtain ⟨round, between, first, further⟩ := bind_ok done
        obtain ⟨count, rfl, -⟩ := ih further
        have same : between.value? = scopes.value? :=
          (always_replaceAfter Scopes.sameValues_read 0 text).of_ok first
        refine ⟨count + 1, ?_, fun _ => Nat.succ_pos count⟩
        rw [Function.iterate_succ_apply, same, replaceAfter_ok first, replaced]
      · rename_i absent
        obtain ⟨rfl, -⟩ := EStateM.Result.ok.inj done
        exact ⟨0, rfl, fun occurs => absurd occurs absent⟩

theorem closed_substituteWithin {whole : Text} {rounds : Nat}
    {text value : Text} {scopes after : Scopes}
    (substituted : substituteWithin whole rounds text scopes =
      .ok value after) : Closed value := by
  induction rounds generalizing text scopes with
  | zero =>
      unfold substituteWithin at substituted
      split at substituted
      · simp at substituted
      · rename_i absent
        simp only [pure_apply, EStateM.Result.ok.injEq] at substituted
        rw [← substituted.1]
        exact Bool.eq_false_iff.mpr absent
  | succ rounds ih =>
      unfold substituteWithin at substituted
      split at substituted
      · obtain ⟨replaced, between, -, further⟩ := bind_ok substituted
        exact ih further
      · rename_i absent
        simp only [pure_apply, EStateM.Result.ok.injEq] at substituted
        rw [← substituted.1]
        exact Bool.eq_false_iff.mpr absent

theorem closed_substitute {text value : Text} {scopes after : Scopes}
    (substituted : substitute text scopes = .ok value after) : Closed value :=
  closed_substituteWithin substituted

end Variable

open Variable

namespace Builtin

private theorem Result.dollar_notMem {value : Text} (result : Result value) :
    '$' ∉ value := by
  cases result with
  | figures figures => exact figures.not_mem (by decide)
  | call fronted apart named arguments =>
      have before := fronted.not_mem (by decide : isFigure '$' = false)
      have between := arguments.not_mem (by decide : isFigure '$' = false)
      rcases named with rfl | rfl
      · simp [Functions.kept, before, between]
      · simp [Functions.kept, before, between]

/-- Every name begins with a letter. -/
theorem startsReference_name {name : Text} {function : Builtin}
    (found : ofName? name = some function) : startsReference name = true := by
  have named : function.name = name := by simpa using List.find?_some found
  rw [← named]
  cases function <;> rfl

end Builtin

namespace Functions

variable {functions : Functions}

/-- The result of a call can stand in the place of the call: it refers to
nothing, neither by itself nor together with what stands around it. -/
structure Fits (name value : Text) : Prop where
  inside : Closed value
  right : value.getLast? ≠ some '$'
  left : startsReference name = false → value ≠ [] ∧
    startsReference value = false

theorem fits_kept {name inner : Text} (nonempty : name ≠ [])
    (named : '$' ∉ name) (closed : Closed inner) :
    Fits name (kept name inner) := by
  have shape : kept name inner = name ++ ('(' :: (inner ++ [')'])) := by
    simp [kept]
  refine ⟨?_, ?_, fun plain => ?_⟩
  · rw [shape]
    refine closed_append.mpr ⟨closed_of_absent named, ?_, fun last =>
      absurd (List.mem_of_getLast? last) named⟩
    refine closed_cons.mpr ⟨fun other => absurd other (by decide), ?_⟩
    exact closed_append.mpr ⟨closed, by decide, fun _ => rfl⟩
  · rw [kept, List.getLast?_concat]
    decide
  · rw [shape, startsReference_append nonempty]
    exact ⟨by simp, plain⟩

private theorem fits_finish (hostless : functions.host = [])
    (keeping : functions.unknown.keep = true) {name : Text}
    {inner call : Resolved} (nonempty : name ≠ []) (named : '$' ∉ name)
    (closed : Closed inner.value)
    (finished : functions.finish name inner = .ok call) :
    Fits name call.value := by
  unfold finish at finished
  rw [hostless, keeping] at finished
  simp only [List.lookup_nil] at finished
  split at finished
  · rename_i function builtin
    split at finished
    · rename_i value applied
      obtain rfl : _ = call := by simpa using finished
      have absent := (function.yields_apply _ value applied).dollar_notMem
      refine ⟨closed_of_absent absent,
        fun last => absent (List.mem_of_getLast? last), fun plain => ?_⟩
      rw [Builtin.startsReference_name builtin] at plain
      exact absurd plain (by decide)
    · simp at finished
  · split at finished
    · obtain rfl : _ = call := by simpa using finished
      exact fits_kept nonempty named closed
    · split at finished
      · simp at finished
      · obtain rfl : _ = call := by simpa using finished
        exact fits_kept nonempty named closed

/-- The name of a call and what stands before it make up the output. -/
theorem reverse_eq_nameAfter (out : Text) :
    out.reverse = (out.drop (nameAfter out).length).reverse ++
      nameAfter out := by
  rw [nameAfter, List.length_reverse, ← List.reverse_append,
    List.prefix_iff_eq_append.mp ( List.takeWhile_prefix isNameChar)]

private theorem nameAfter_spec {quoting : Quoting} {out : Text} {c : Char}
    (starts : startsCall quoting out c = true) :
    c = '(' ∧ nameAfter out ≠ [] ∧ '$' ∉ nameAfter out := by
  simp only [startsCall, Bool.and_eq_true, beq_iff_eq, List.any_eq_true]
    at starts
  obtain ⟨⟨-, opening⟩, letter, member, -⟩ := starts
  refine ⟨opening, ?_, ?_⟩
  · simpa [nameAfter] using List.ne_nil_of_mem member
  · intro dollar
    rw [nameAfter, List.mem_reverse] at dollar
    exact absurd (List.all_eq_true.mp List.all_takeWhile '$' dollar) (by decide)

private theorem fits_call (hostless : functions.host = [])
    (keeping : functions.unknown.keep = true) {name inner : Text}
    {call : Resolved} (nonempty : name ≠ []) (named : '$' ∉ name)
    (closed : Closed inner)
    (resolving : ∀ {resolved : Resolved},
      functions.resolve inner = .ok resolved →
      Closed resolved.value)
    (called : functions.call name inner = .ok call) : Fits name call.value := by
  unfold Functions.call at called
  split at called
  · obtain rfl : _ = call := by simpa using called
    exact fits_kept nonempty named closed
  · split at called
    · rename_i resolved done
      exact fits_finish hostless keeping nonempty named (resolving done) called
    · simp at called

/-- A resolution that succeeds over a call. -/
theorem resolveAfter_call_ok {quoting : Quoting}
    {out rest inner after : Text} {c : Char} {resolved : Resolved}
    (starts : startsCall quoting out c = true)
    (spanned : spanCall 0 .outside rest = some (inner, after))
    (found : functions.resolveAfter quoting out (c :: rest) = .ok resolved) :
    ∃ call following, functions.call (nameAfter out) inner = .ok call ∧
      functions.resolveAfter .outside
        (call.value.reverse ++ out.drop (nameAfter out).length)
        after = .ok following ∧ resolved.value = following.value := by
  rw [resolveAfter_call _ starts spanned] at found
  split at found
  · rename_i call called
    unfold resolveBehind at found
    split at found
    · rename_i following done
      obtain rfl : _ = resolved := by simpa using found
      exact ⟨call, following, called, done, rfl⟩
    · simp at found
  · simp at found

/-- Resolving calls makes no references. -/
theorem closed_resolveAfter (hostless : functions.host = [])
    (keeping : functions.unknown.keep = true) (quoting : Quoting)
    (out text : Text) (closed : Closed (out.reverse ++ text))
    {resolved : Resolved}
    (found : functions.resolveAfter quoting out text = .ok resolved) :
    Closed resolved.value := by
  induction quoting, out, text using resolving_induction
    generalizing resolved with
  | nil quoting out =>
      rw [resolveAfter_nil] at found
      obtain rfl : _ = resolved := by simpa using found
      simpa using closed
  | char quoting out c rest plain ih =>
      rw [resolveAfter_char _ plain] at found
      exact ih (by simpa using closed) found
  | lost quoting out c rest starts unclosed =>
      rw [resolveAfter_open _ starts unclosed] at found
      simp at found
  | call quoting out c rest inner after starts spanned innerClosed
        afterClosed =>
      obtain ⟨rfl, nonempty, named⟩ := nameAfter_spec starts
      obtain ⟨shown, following, called, done, value⟩ :=
        resolveAfter_call_ok starts spanned found
      rw [eq_of_spanCall spanned, reverse_eq_nameAfter] at closed
      have between : Closed inner := by
        refine Closed.middle
          ((out.drop (nameAfter out).length).reverse ++ nameAfter out ++ ['('])
          (')' :: after) ?_
        simpa using closed
      have fits : Fits (nameAfter out) shown.value :=
        fits_call hostless keeping nonempty named between
          (innerClosed between) called
      -- The result stands in the place of the name, the parentheses and what is
      -- between them.
      rw [value]
      refine afterClosed _ ?_ done
      rw [List.reverse_append, List.reverse_reverse]
      refine Closed.replace (nameAfter out ++ ('(' :: (inner ++ [')'])))
        ?_ fits.inside fits.right fun last => fits.left ?_
      · simpa using closed
      · exact (closed_append.mp (closed_append.mp closed).1).2.2 last

end Functions

namespace Scopes

/-- No binding refers to a variable, whether it is visible or not. -/
def Closed (scopes : Scopes) : Prop :=
  ∀ binding ∈ scopes.bindings, Variable.Closed binding.value

variable {scopes : Scopes}

theorem Closed.read (closed : scopes.Closed) (name : Text) :
    (finalState (Scopes.read name scopes)).Closed := by
  unfold Scopes.read
  split
  · exact closed
  · intro binding member
    obtain ⟨place, found⟩ := Array.mem_iff_getElem?.mp member
    simp only [finalState, Array.getElem?_modify] at found
    split at found
    · obtain ⟨earlier, present, rfl⟩ := Option.map_eq_some_iff.mp found
      exact closed earlier (Array.mem_of_getElem? present)
    · exact closed binding (Array.mem_of_getElem? found)

theorem Closed.define (closed : scopes.Closed) (name : Text) {value : Text}
    (resolved : Variable.Closed value) (isDefault : Bool) :
    (scopes.define name value isDefault).2.Closed := by
  unfold Scopes.define
  split
  · exact closed
  · intro binding member
    rcases Array.mem_push.mp member with earlier | rfl
    · exact closed binding earlier
    · exact resolved

theorem Closed.pop (closed : scopes.Closed) :
    (finalState (Scopes.pop scopes)).Closed := by
  unfold Scopes.pop
  split
  · exact closed
  · exact closed

private theorem Closed.bindAll (closed : scopes.Closed)
    (pairs : List (Text × Text))
    (resolved : ∀ pair ∈ pairs, Variable.Closed pair.2) :
    (pairs.foldl
      (fun scopes (parameter, value) => (scopes.define parameter value false).2)
      scopes).Closed := by
  induction pairs generalizing scopes with
  | nil => exact closed
  | cons pair pairs ih =>
      exact ih
        (closed.define pair.1 (resolved pair (List.mem_cons_self ..)) false)
        fun other member => resolved other (List.mem_cons_of_mem _ member)

end Scopes

namespace Compile

/-- No binding is made that refers to a variable. -/
def KeepsClosed (before after : State) : Prop :=
  before.scopes.Closed → after.scopes.Closed

instance : IsPreorder State KeepsClosed where
  refl _ := id
  trans _ _ _ first second := second ∘ first

theorem allowsReading_keepsClosed : AllowsReading KeepsClosed where
  lookup name _ closed := closed.read name
  log _ _ _ closed := closed
  move _ _ closed := closed
  print _ _ closed := closed

/-- The steps of a value that is had. -/
theorem finishValue_ok {environment : Environment} {text value : Text}
    {state after : State}
    (finished : finishValue environment text state = .ok value after) :
    ∃ substituted looked resolved,
      Variable.substitute text state.scopes = .ok substituted looked ∧
      environment.options.functions.resolve substituted = .ok resolved ∧
      resolved.value.normalize = value := by
  obtain ⟨substituted, looked, substituting, further⟩ := bind_ok finished
  obtain ⟨resolved, checked, checking, rest⟩ := bind_ok further
  obtain ⟨-, warned, -, last⟩ := bind_ok rest
  have done : ∃ scopes,
      Variable.substitute text state.scopes = .ok substituted scopes := by
    unfold resolving at substituting
    split at substituting
    · rename_i scopes result
      obtain ⟨rfl, -⟩ := EStateM.Result.ok.inj substituting
      exact ⟨scopes, result⟩
    · contradiction
  have called :
      environment.options.functions.resolve substituted = .ok resolved := by
    cases found : environment.options.functions.resolve substituted with
    | ok shown =>
        rw [found] at checking
        rw [(EStateM.Result.ok.inj checking).1]
    | error error =>
        rw [found] at checking
        contradiction
  obtain ⟨scopes, done⟩ := done
  exact ⟨substituted, scopes, resolved, done, called,
    (EStateM.Result.ok.inj last).1⟩

section Statements

variable {environment : Environment}
  (hostless : environment.options.functions.host = [])
  (keeping : environment.options.functions.unknown.keep = true)
include hostless keeping

theorem closed_finishValue {text value : Text} {state after : State}
    (finished : finishValue environment text state = .ok value after) :
    Variable.Closed value := by
  obtain ⟨substituted, looked, resolved, done, called, rfl⟩ :=
    finishValue_ok finished
  exact closed_normalize (Functions.closed_resolveAfter hostless keeping
    .outside [] substituted (closed_substitute done) called)

theorem closed_resolveValue {text value : Text} {state after : State}
    (resolved : resolveValue environment text state = .ok value after) :
    Variable.Closed value := by
  obtain ⟨_, _, _, finished⟩ := bind_ok resolved
  exact closed_finishValue hostless keeping finished

theorem closed_resolveArguments {list : Option Text} {values : List Text}
    {state after : State}
    (resolved : resolveArguments environment list state = .ok values after) :
    ∀ value ∈ values, Variable.Closed value := by
  unfold resolveArguments at resolved
  generalize (((list.map Text.splitCommas).getD []).map Text.trim).filter
    (!·.isEmpty) = texts at resolved
  induction texts generalizing values state with
  | nil =>
      rw [List.mapM_nil] at resolved
      obtain ⟨rfl, -⟩ : [] = values ∧ _ = after := by simpa using resolved
      simp
  | cons text texts ih =>
      rw [List.mapM_cons] at resolved
      obtain ⟨value, middle, first, further⟩ := bind_ok resolved
      obtain ⟨others, last, later, done⟩ := bind_ok further
      obtain ⟨rfl, rfl⟩ : value :: others = values ∧ last = after := by
        simpa using done
      rw [List.forall_mem_cons]
      exact ⟨closed_resolveValue hostless keeping first, ih later⟩

private theorem keepsClosed_variableStatement :
    Always KeepsClosed (variableStatement environment) := by
  have allows := allowsReading_keepsClosed
  rw [variableStatement_eq]
  refine (allows.reading _).bind fun _ => (allows.reading _).bind fun name =>
    Always.onlyIf (.form _) ?_
  refine (allows.reading _).bind fun _ => (allows.reading _).bind fun _ =>
    (allows.reading _).bind fun raw => ?_
  refine .bindOk (allows.resolveValue environment _)
    fun {_ value after} resolved => ?_
  suffices following : Always KeepsClosed _ from following after
  refine .getBind fun state => Always.modifyAt (fun closed => ?_) fun _ =>
    Always.onlyIf (allows.record rfl) (allows.reading _)
  exact closed.define name
    (closed_unquote (closed_resolveValue hostless keeping resolved)) _

private theorem keepsClosed_expansion (name : Text) (list : Option Text) :
    Always KeepsClosed (expansion environment name list) := by
  have allows := allowsReading_keepsClosed
  refine .bindOk (allows.resolveArguments environment list)
    fun {_ arguments after} resolved => ?_
  suffices following : Always KeepsClosed _ from following after
  refine (allows.record rfl).bind fun _ =>
    (allows.comment environment _).bind fun _ =>
    .getBind fun state => ?_
  cases expanded :
    state.mixins.expanded name arguments state.cursor.file state.scopes with
  | error error => exact Std.Refl.refl state
  | ok result =>
      obtain ⟨expansion, mixins, scopes⟩ := result
      have binding : KeepsClosed state { state with mixins, scopes } := by
        intro closed
        obtain ⟨mixin, -, -, -, rfl⟩ := Mixins.expanded_ok expanded
        refine closed.bindAll _ fun pair member => ?_
        exact closed_resolveArguments hostless keeping resolved _
          (List.of_mem_zip member).2
      refine trans_of KeepsClosed binding ?_
      exact ((allows.record rfl).bind fun _ => allows.splice _) _

private theorem allowsStatements_keepsClosed :
    AllowsStatements environment KeepsClosed where
  toAllowsReading := allowsReading_keepsClosed
  opening _ _ closed := closed
  closing := by
    refine .getThen fun seen => ?_
    split
    · exact .throw _
    · exact Always.bind (fun _ closed => closed) fun _ =>
        (always_resolving fun _ closed => closed.pop).bind fun _ =>
          allowsReading_keepsClosed.reading _
  defining := keepsClosed_variableStatement hostless keeping
  registering := allowsReading_keepsClosed.mixinBody fun _ _ closed => closed
  including := keepsClosed_expansion hostless keeping
  importing :=
    allowsReading_keepsClosed.importFile environment (fun _ _ closed => closed)
    fun _ _ closed => closed

end Statements

/-- A definition whose value refers to a variable finds this variable, or fails
for want of one. -/
theorem defineVariable_references (environment : Environment)
    {name raw other text : Text} {state middle : State}
    (filled : interpolate environment (splitDefault raw.trim).1 state =
      .ok text middle)
    (refers : other ∈ Variable.references text) :
    state.scopes.contains other = true ∨
      ∃ missing after, defineVariable environment name raw state =
        .error (.undefinedVariable missing) after := by
  have looked := (resolved_interpolate environment _).of_ok filled
  rcases Variable.substitute_references refers middle.scopes with
    bound | ⟨missing, after, failed⟩
  · left
    rwa [Scopes.contains, looked.scopes.place?] at bound
  · refine .inr ⟨missing, { middle with scopes := after }, ?_⟩
    simp [defineVariable, resolveValue, filled, finishValue, resolving, failed]

/-- Every name has the value that it had. -/
def KeepsValues (before after : State) : Prop :=
  before.scopes.SameValues after.scopes

instance : IsPreorder State KeepsValues where
  refl state := Std.Refl.refl state.scopes
  trans _ _ _ first second := trans_of Scopes.SameValues first second

theorem allowsReading_keepsValues : AllowsReading KeepsValues where
  lookup name state := Scopes.sameValues_read name state.scopes
  log state _ _ := Std.Refl.refl state.scopes
  move state _ := Std.Refl.refl state.scopes
  print state _ := Std.Refl.refl state.scopes

/-- What a definition does to the scopes. -/
theorem defineVariable_scopes {environment : Environment} {name raw : Text}
    {state after : State}
    (done : defineVariable environment name raw state = .ok ⟨⟩ after) :
    ∃ given middle,
      resolveValue environment (splitDefault raw.trim).1 state =
        .ok given middle ∧
      after.scopes = (middle.scopes.define name given.unquote
        (splitDefault raw.trim).2).2 := by
  unfold defineVariable at done
  generalize splitDefault raw.trim = parts at done
  obtain ⟨value, middle, resolved, done⟩ := bind_ok done
  refine ⟨value, middle, resolved, ?_⟩
  simp only [bind_apply, get_apply, modify_apply] at done
  cases taken : (middle.scopes.define name value.unquote parts.2).1 with
  | true =>
      rw [taken] at done
      obtain ⟨-, rfl⟩ := EStateM.Result.ok.inj done
      rfl
  | false =>
      rw [taken] at done
      obtain ⟨-, rfl⟩ := EStateM.Result.ok.inj done
      rfl

/-- A definition takes the values of the variables that it refers to as they
were before it, whatever its own name is.  Its variable has the value that comes
of them, unless a `!default` has no effect. -/
theorem defineVariable_ok (environment : Environment) {name raw text : Text}
    {state middle after : State}
    (filled : interpolate environment (splitDefault raw.trim).1 state =
      .ok text middle)
    (defined : defineVariable environment name raw state = .ok () after) :
    ∃ count resolved,
      (Variable.occursIn text = true → 0 < count) ∧
      environment.options.functions.resolve
          ((Variable.replaced state.scopes.value?)^[count] text) =
        .ok resolved ∧
      (after.scopes.value? name = some resolved.value.normalize.unquote ∨
        (splitDefault raw.trim).2 = true ∧
          after.scopes.value? name = state.scopes.value? name) := by
  obtain ⟨value, found, resolving, defining⟩ := defineVariable_scopes defined
  have before : found.scopes.value? = state.scopes.value? :=
    (allowsReading_keepsValues.resolveValue environment _).of_ok resolving
  have between : middle.scopes.value? = state.scopes.value? :=
    (allowsReading_keepsValues.interpolate environment _).of_ok filled
  rw [resolveValue, bind_apply, filled] at resolving
  obtain ⟨substituted, looked, resolved, done, called, rfl⟩ :=
    finishValue_ok resolving
  obtain ⟨count, rfl, replacing⟩ := Variable.substituteWithin_ok done
  rw [between] at called
  refine ⟨count, resolved, replacing, called, ?_⟩
  obtain ⟨shown, after, taken, kept⟩ := found.scopes.value?_define name
    resolved.value.normalize.unquote (splitDefault raw.trim).2
  rw [defining, after]
  cases took : (found.scopes.define name resolved.value.normalize.unquote
      (splitDefault raw.trim).2).1 with
  | true => exact .inl (congrArg some (taken took))
  | false =>
      refine .inr ⟨?_, ?_⟩
      · by_contra plain
        rw [Bool.not_eq_true] at plain
        simp [Scopes.define, plain] at took
      · rw [← before, kept took]

end Compile

theorem Scopes.Closed.closeScopes {scopes : Scopes} (closed : scopes.Closed)
    (blocks : List Block) : (State.closeScopes scopes blocks).Closed := by
  induction blocks generalizing scopes with
  | nil => exact closed
  | cons block blocks ih =>
      rw [State.closeScopes]
      split
      · rename_i popped success
        have still := closed.pop
        rw [success] at still
        exact ih still
      · rename_i error left failed
        have still := closed.pop
        rw [failed] at still
        exact still

theorem Compilation.closed_process {environment : Environment}
    (hostless : environment.options.functions.host = [])
    (keeping : environment.options.functions.unknown.keep = true) (fuel : Nat)
    {compilation : Compilation} (source : Text) (file : Option Text)
    (closed : compilation.scopes.Closed) :
    (compilation.process environment fuel source file).2.scopes.Closed := by
  obtain ⟨log, result⟩ := process_eq environment fuel compilation source file
  obtain ⟨sheet, note, same⟩ := announce_eq environment compilation file
  have keeps :=
    State.run_always
      (Compile.allowsStatements_keepsClosed hostless keeping).step fuel
    ((compilation.announce environment file).start source file)
  rw [result]
  refine Scopes.Closed.closeScopes (keeps ?_) _
  rw [same]
  exact closed

/-- However many stylesheets are compiled, successfully or not, no variable and
no parameter is ever bound to a value that refers to a variable.  A definition
whose value refers to its own variable fails for want of a variable, or this one
was bound before; then the references are replaced by the values that the
variables had before, and the result is what the variable is bound to. -/
theorem stored_values_closed (environment : Environment)
    (hostless : environment.options.functions.host = [])
    (keeping : environment.options.functions.unknown.keep = true)
    (calls : List Compilation.Call) (compilation : Compilation)
    (closed : compilation.scopes.Closed) :
    (compilation.processAll environment calls).2.scopes.Closed ∧
      ∀ (state middle : State) (name raw text : Text),
        Compile.interpolate environment (Compile.splitDefault raw.trim).1
          state = .ok text middle →
        name ∈ references text →
        state.scopes.contains name = true ∧
          (∀ after, Compile.defineVariable environment name raw state =
              .ok () after →
            ∃ count resolved,
              0 < count ∧
              environment.options.functions.resolve
                  ((replaced state.scopes.value?)^[count] text) =
                .ok resolved ∧
              (after.scopes.value? name =
                  some resolved.value.normalize.unquote ∨
                (Compile.splitDefault raw.trim).2 = true ∧
                  after.scopes.value? name = state.scopes.value? name)) ∨
          ∃ missing after, Compile.defineVariable environment name raw state =
            .error (.undefinedVariable missing) after := by
  refine ⟨?_, fun state middle name raw text filled refers => ?_⟩
  case refine_2 =>
    have occurs := occursIn_of_references (List.ne_nil_of_mem refers)
    refine
      (Compile.defineVariable_references environment filled refers).imp_left
      fun bound => ⟨bound, fun after defined => ?_⟩
    obtain ⟨count, resolved, replacing, rest⟩ :=
      Compile.defineVariable_ok environment filled defined
    exact ⟨count, resolved, replacing occurs, rest⟩
  induction calls generalizing compilation with
  | nil => exact closed
  | cons call calls ih =>
      exact ih _
        (Compilation.closed_process hostless keeping call.fuel call.source
          call.file closed)

/-- A lone `$`, a value that is glued to it, and a definition that refers to
itself. -/
theorem stored_values_closed_glued :
    let calls : List Compilation.Call :=
      [⟨"$a: '$'; $b: ceil(1.5) c; $d: $a$b f($b); @mixin m($p) { x: $p; } .e { @include m($d); }".toList,
          none, 40⟩,
        ⟨"$g: $g 1;".toList, none, 10⟩]
    ({} : Compilation).scopes.Closed ∧
      (({} : Compilation).processAll {} calls).2.scopes.Closed := by
  have empty : ({} : Compilation).scopes.Closed := fun _ member => by
    simp at member
  exact ⟨empty, (stored_values_closed {} rfl rfl _ {} empty).1⟩

end Stylesheet
