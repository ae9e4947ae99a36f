import Stylesheet.Proofs.AddressCalls
import Stylesheet.Proofs.Alike

/-!
# Addresses in values

Resolving a value fills its holes, replaces its references, resolves its calls
and collapses its blanks.  Each of these steps goes around an address: what
stands in a `url()` of the value comes out as it is, and makes no difference to
anything else.  This is so for addresses without holes and references of their
own; these are filled and replaced in a `url()` as everywhere else.
-/

namespace Stylesheet

variable {environment : Environment} {text front back rest : Text}

private theorem spanHole_append {depth : Nat} {inner after : Text}
    (found : spanHole depth text = some (inner, after)) (rest : Text) :
    spanHole depth (text ++ rest) = some (inner, after ++ rest) := by
  induction text generalizing depth inner with
  | nil => contradiction
  | cons c text ih =>
      rw [List.cons_append]
      simp only [spanHole] at found ⊢
      grind [Option.map_eq_some_iff]

namespace Template

/-- One template after another; nothing follows a hole that is never closed. -/
def append : Template → Template → Template
  | .done, next => next
  | .char c rest, next => .char c (rest.append next)
  | .hole inner rest, next => .hole inner (rest.append next)
  | .broken, _ => .broken

/-- Every hole is closed, apart from those in other holes. -/
def closes : Template → Bool
  | .done => true
  | .char _ rest => rest.closes
  | .hole _ rest => rest.closes
  | .broken => false

theorem ofText_hole {inner after : Text}
    (found : spanHole 0 text = some (inner, after)) :
    ofText ('#' :: '{' :: text) = .hole (ofText inner) (ofText after) := by
  rw [ofText]
  split
  · rename_i same
    rw [found] at same
    obtain ⟨rfl, rfl⟩ := Prod.mk.inj (Option.some.inj same)
    rfl
  · rename_i lost
    rw [found] at lost
    contradiction

theorem ofText_broken (lost : spanHole 0 text = none) :
    ofText ('#' :: '{' :: text) = .broken := by
  rw [ofText]
  split
  · rename_i found
    rw [lost] at found
    contradiction
  · rfl

/-- A text with a hole ends with what stands behind the hole, or with its
brace. -/
theorem getLast?_hole {inner after : Text}
    (found : spanHole 0 text = some (inner, after)) :
    ('#' :: '{' :: text).getLast? = after.getLast?.or (some '}') := by
  have shape :
      '#' :: '{' :: text = ('#' :: '{' :: inner) ++ ['}'] ++ after := by
    rw [eq_of_spanHole found]
    simp
  rw [shape, List.getLast?_append, List.getLast?_concat]

theorem ofText_append (closes : (ofText text).closes = true)
    (seam : text.getLast? = some '#' → rest.head? ≠ some '{') :
    ofText (text ++ rest) = (ofText text).append (ofText rest) := by
  induction text using ofText.induct with
  | case1 =>
      rw [ofText]
      rfl
  | case2 text inner after found _ ih =>
      have whole : (ofText after).closes = true := by
        rw [ofText_hole found] at closes
        exact closes
      have later : after.getLast? = some '#' → rest.head? ≠ some '{' := by
        intro last
        apply seam
        rw [getLast?_hole found, last]
        rfl
      rw [List.cons_append, List.cons_append,
        ofText_hole (spanHole_append found rest), ofText_hole found,
        ih whole later]
      rfl
  | case3 text lost =>
      rw [ofText_broken lost] at closes
      contradiction
  | case4 c text other ih =>
      have whole : (ofText text).closes = true := by
        rw [ofText.eq_3 c text other] at closes
        exact closes
      have later : text.getLast? = some '#' → rest.head? ≠ some '{' := by
        intro last
        apply seam
        cases text with
        | nil => contradiction
        | cons d text => simpa using last
      have noHole : ∀ inner, c = '#' → text ++ rest = '{' :: inner → False := by
        rintro inner rfl opens
        cases text with
        | nil =>
            apply seam rfl
            rw [List.nil_append] at opens
            rw [opens]
            rfl
        | cons d text =>
            obtain ⟨rfl, -⟩ := List.cons.inj opens
            exact other _ rfl rfl
      rw [List.cons_append, ofText.eq_3 c _ noHole, ofText.eq_3 c text other,
        ih whole later]
      rfl

end Template

/-- Templates are filled one after the other. -/
theorem Compile.fill_append (environment : Environment)
    (first second : Template) :
    fill environment (first.append second) = do
      let left ← fill environment first
      let right ← fill environment second
      return left ++ right := by
  induction first with
  | done => simp [Template.append, fill]
  | char c rest ih => simp [Template.append, fill, ih]
  | hole inner rest innerFilled ih =>
      simp only [Template.append, fill, ih, bind_assoc, pure_bind,
        List.append_assoc]
  | broken => rfl

/-- A character behind all holes stays where it is. -/
theorem Compile.getLast?_fill {c : Char} {value : Text} {state final : State}
    (filled : fill environment (Template.ofText text) state = .ok value final)
    (last : text.getLast? = some c) (other : c ≠ '}') :
    value.getLast? = some c := by
  induction text using Template.ofText.induct
    generalizing value state final with
  | case1 => contradiction
  | case2 text inner after found _ ih =>
      rw [Template.ofText_hole found, fill] at filled
      obtain ⟨contents, first, -, filled⟩ := bind_ok filled
      obtain ⟨shown, second, -, filled⟩ := bind_ok filled
      obtain ⟨following, third, behind, filled⟩ := bind_ok filled
      obtain ⟨rfl, -⟩ := EStateM.Result.ok.inj filled
      rw [Template.getLast?_hole found] at last
      cases ending : after.getLast? with
      | none =>
          rw [ending] at last
          exact absurd (Option.some.inj last).symm other
      | some d =>
          rw [ending] at last
          rw [List.getLast?_append, ih behind (ending.trans last)]
          rfl
  | case3 text lost =>
      rw [Template.ofText_broken lost] at filled
      contradiction
  | case4 d text noHole ih =>
      rw [Template.ofText.eq_3 d text noHole, fill] at filled
      obtain ⟨following, middle, behind, filled⟩ := bind_ok filled
      obtain ⟨rfl, -⟩ := EStateM.Result.ok.inj filled
      cases text with
      | nil =>
          rw [Template.ofText, fill] at behind
          obtain ⟨rfl, -⟩ := EStateM.Result.ok.inj behind
          exact last
      | cons e text =>
          have later := ih behind (by simpa using last)
          rw [List.getLast?_cons, later]
          rfl

theorem occurs_hole_append (left : Text.occurs ['#', '{'] text = false)
    (right : Text.occurs ['#', '{'] rest = false)
    (seam : text.getLast? = some '#' → rest.head? ≠ some '{') :
    Text.occurs ['#', '{'] (text ++ rest) = false := by
  induction text with
  | nil => exact right
  | cons c text ih =>
      rw [Text.occurs, Bool.or_eq_false_iff] at left
      rw [List.cons_append, Text.occurs, Bool.or_eq_false_iff]
      cases text with
      | nil =>
          refine ⟨?_, right⟩
          cases rest with
          | nil => simp [List.isPrefixOf]
          | cons d rest =>
              rw [Bool.eq_false_iff, ne_eq, List.isPrefixOf_iff_prefix]
              intro starts
              obtain ⟨rfl, opens⟩ := List.cons_prefix_cons.mp starts
              obtain ⟨rfl, -⟩ := List.cons_prefix_cons.mp opens
              exact seam rfl rfl
      | cons d text => exact ⟨left.1, ih left.2 (by simpa using seam)⟩

theorem Address.whole_text (address : Address) :
    Text.occurs ['#', '{'] address.text = false := by
  rw [text_eq]
  apply occurs_hole_append
  · exact occurs_hole_append (by decide) address.whole (by simp)
  · decide
  · simp

private theorem Template.closes_whole
    (whole : Text.occurs ['#', '{'] text = false) :
    (ofText text).closes = true := by
  induction text with
  | nil =>
      rw [ofText]
      rfl
  | cons c rest ih =>
      rw [Text.occurs, Bool.or_eq_false_iff] at whole
      have noHole : ∀ inner, c = '#' → rest = '{' :: inner → False := by
        rintro inner rfl rfl
        simp at whole
      rw [ofText.eq_3 c rest noHole]
      exact ih whole.2

/-- The holes on both sides of an address are filled, and the address is
none. -/
theorem Compile.interpolate_around (environment : Environment)
    (closes : (Template.ofText front).closes = true) (address : Address)
    (back : Text) :
    interpolate environment (front ++ (address.text ++ back)) = do
      let left ← interpolate environment front
      let right ← interpolate environment back
      return left ++ (address.text ++ right) := by
  have address_filled : fill environment (Template.ofText address.text) =
      pure address.text := by
    funext state
    exact fill_whole environment address.whole_text state
  have first : (address.text ++ back).head? ≠ some '{' := by
    rw [Address.text_eq]
    simp
  have last : address.text.getLast? = some '#' → back.head? ≠ some '{' := by
    rw [Address.text_eq, List.getLast?_concat]
    simp
  rw [interpolate, Template.ofText_append closes fun _ => first,
    Template.ofText_append (Template.closes_whole address.whole_text) last,
    fill_append, fill_append, address_filled]
  simp [interpolate]

/-- No reference runs on behind the text. -/
def EndsReference (text : Text) : Prop :=
  ∀ c, text.getLast? = some c → isNameChar c = false ∧ c ≠ '$'

namespace Variable

theorem startsReference_endsName (ends : EndsName rest) (text : Text) :
    startsReference (text ++ rest) = startsReference text := by
  cases text with
  | cons c text => rfl
  | nil =>
      cases rest with
      | nil => rfl
      | cons c rest =>
          apply Bool.eq_false_iff.mpr
          intro starts
          have named := isNameChar_of_startsReference starts
          rw [ends c rfl] at named
          contradiction

/-- References are replaced on both sides of a place where no name goes on. -/
theorem replaceAfter_split {pending : Nat} (within : pending ≤ text.length)
    (ends : EndsName rest) :
    replaceAfter pending (text ++ rest) = do
      let left ← replaceAfter pending text
      let right ← replaceAfter 0 rest
      return left ++ right := by
  fun_induction replaceAfter pending text with
  | case1 pending =>
      obtain rfl : pending = 0 := by simpa using within
      simp
  | case2 pending c text ih =>
      rw [List.cons_append, replaceAfter]
      exact ih (by simpa using within)
  | case3 c text reference name ih =>
      have short : name.length ≤ text.length :=
        ( List.takeWhile_prefix _).length_le
      rw [List.cons_append, replaceAfter, startsReference_endsName ends,
        if_pos reference, takeWhile_endsName ends]
      dsimp only
      rw [ih short]
      simp only [name, bind_assoc, pure_bind, List.append_assoc]
  | case4 c text plain ih =>
      rw [List.cons_append, replaceAfter,
        startsReference_endsName ends, if_neg plain, ih (Nat.zero_le _)]
      simp

private theorem replace_append (ends : EndsReference front) (rest : Text) :
    replace (front ++ rest) = do
      let left ← replace front
      let right ← replace rest
      return left ++ right := by
  rcases List.eq_nil_or_concat' front with rfl | ⟨before, c, rfl⟩
  · simp [replace, replaceAfter]
  · obtain ⟨apart, other⟩ := ends c (by simp)
    have stops := endsName_cons apart
    rw [List.append_assoc, List.singleton_append, replace, replace, replace,
      replaceAfter_split (Nat.zero_le _) (stops rest),
      replaceAfter_split (Nat.zero_le _) (stops []), replaceAfter_char other,
      replaceAfter_char other]
    simp only [replaceAfter, bind_assoc, pure_bind, List.append_assoc,
      List.cons_append, List.nil_append]

/-- The character that ends all references stays where it is. -/
theorem endsReference_replace {value : Text} {scopes final : Scopes}
    (ends : EndsReference front)
    (replaced : replace front scopes = .ok value final) :
    EndsReference value := by
  rcases List.eq_nil_or_concat' front with rfl | ⟨before, c, rfl⟩
  · obtain ⟨rfl, -⟩ := EStateM.Result.ok.inj replaced
    exact ends
  · obtain ⟨apart, other⟩ := ends c (by simp)
    rw [replace, replaceAfter_split (Nat.zero_le _) (endsName_cons apart [])]
      at replaced
    obtain ⟨left, middle, -, replaced⟩ := bind_ok replaced
    obtain ⟨right, last, single, replaced⟩ := bind_ok replaced
    obtain ⟨rfl, -⟩ := EStateM.Result.ok.inj replaced
    rw [replaceAfter_char other] at single
    obtain ⟨rfl, -⟩ := EStateM.Result.ok.inj single
    intro d ending
    obtain rfl : c = d := by simpa using ending
    exact ⟨apart, other⟩

/-- A text without references is passed over. -/
theorem replace_closed {middle : Text} (closed : Closed middle)
    (last : middle.getLast? ≠ some '$') (back : Text) :
    replace (middle ++ back) = do return middle ++ (← replace back) := by
  rw [replace, replace]
  induction middle with
  | nil => simp
  | cons c middle ih =>
      obtain ⟨seam, later⟩ := closed_cons.mp closed
      have plain : (c == '$' && startsReference (middle ++ back)) = false := by
        rw [Bool.and_eq_false_imp, beq_iff_eq]
        rintro rfl
        cases middle with
        | nil => exact absurd rfl last
        | cons d middle => exact seam rfl
      have ending : middle.getLast? ≠ some '$' := by
        cases middle with
        | nil => simp
        | cons d middle => simpa using last
      rw [List.cons_append, replaceAfter, plain, ih later ending]
      simp

end Variable

namespace Address

variable (address : Address)

theorem closed_text : Variable.Closed address.text := by
  rw [text_eq]
  refine Variable.closed_append.mpr
    ⟨Variable.closed_append.mpr ⟨?_, address.closed, ?_⟩, ?_, ?_⟩
  · decide
  · simp
  · decide
  · simp [Variable.startsReference]

theorem getLast?_text : address.text.getLast? = some ')' := by
  rw [text_eq, List.getLast?_concat]

end Address

/-- The scopes with the values of their variables. -/
def Scopes.content (scopes : Scopes) : List Frame × Array Text :=
  (scopes.frames, scopes.bindings.map Binding.value)

/-- The variables are the same, but for how often they were read. -/
def Scopes.Agrees (scopes other : Scopes) : Prop :=
  scopes.content = other.content

instance : IsPreorder Scopes Scopes.Agrees where
  refl _ := rfl
  trans _ _ _ first second := Eq.trans first second

namespace Scopes

theorem agrees_read (name : Text) : Always Agrees (read name) := by
  intro scopes
  unfold read
  split
  · exact Std.Refl.refl scopes
  · rename_i place found
    refine Prod.ext rfl ?_
    apply Array.ext_getElem?
    intro other
    simp only [finalState, content, Array.getElem?_map, Array.getElem?_modify]
    split
    · cases scopes.bindings[other]? with
      | none => rfl
      | some binding => rfl
    · rfl

private theorem steady_read (name : Text) : Steady Agrees (read name) := by
  intro scopes other agrees
  have places : scopes.place? name = other.place? name := by
    have frames : scopes.frames = other.frames := congrArg Prod.fst agrees
    rw [place?, place?, frames]
  have values (place : Nat) : (scopes.bindings[place]?).map Binding.value =
      (other.bindings[place]?).map Binding.value := by
    have same := congrArg (fun content => content.2[place]?) agrees
    simpa [content] using same
  have left := agrees_read name scopes
  have right := agrees_read name other
  unfold read at left right ⊢
  rw [← places] at right ⊢
  cases found : scopes.place? name with
  | none => exact ⟨rfl, agrees⟩
  | some place =>
      simp only [found, finalState] at left right ⊢
      refine ⟨by rw [values], ?_⟩
      exact left.symm.trans (agrees.trans right)

end Scopes

namespace Variable

private theorem steady_replaceAfter (pending : Nat) (text : Text) :
    Steady Scopes.Agrees (replaceAfter pending text) := by
  fun_induction replaceAfter pending text with
  | case1 => exact .pure rfl
  | case2 pending c rest ih => exact ih
  | case3 c rest reference name ih =>
      apply (Scopes.steady_read name).after
      intro value
      apply ih.after
      intro following
      exact .pure rfl
  | case4 c rest plain ih =>
      apply ih.after
      intro following
      exact .pure rfl

theorem steady_substituteWithin (whole : Text) (rounds : Nat) (text : Text) :
    Steady Scopes.Agrees (substituteWithin whole rounds text) := by
  induction rounds generalizing text with
  | zero =>
      unfold substituteWithin
      split
      · exact .throw _
      · exact .pure rfl
  | succ rounds ih =>
      unfold substituteWithin
      split
      · exact (steady_replaceAfter 0 text).after ih
      · exact .pure rfl

theorem occursIn_around (ends : EndsReference front) (address : Address)
    (back : Text) :
    occursIn (front ++ (address.text ++ back)) =
      (occursIn front || occursIn back) := by
  have dollar : (front.getLast? == some '$') = false := by
    rw [beq_eq_false_iff_ne]
    intro last
    exact (ends '$' last).2 rfl
  have closed : occursIn address.text = false := address.closed_text
  rw [occursIn_append, occursIn_append, address.getLast?_text, closed, dollar]
  simp

theorem replace_around (ends : EndsReference front) (address : Address)
    (back : Text) :
    replace (front ++ (address.text ++ back)) = do
      let left ← replace front
      let right ← replace back
      return left ++ (address.text ++ right) := by
  have last : address.text.getLast? ≠ some '$' := by
    rw [address.getLast?_text]
    decide
  rw [replace_append ends, replace_closed address.closed_text last]
  simp only [bind_assoc, pure_bind]

theorem substituteWithin_absent {whole : Text} {rounds : Nat}
    (absent : occursIn text = false) :
    substituteWithin whole rounds text = pure text := by
  cases rounds with
  | zero => rw [substituteWithin, absent]; rfl
  | succ rounds => rw [substituteWithin, absent]; rfl

/-- References are replaced on both sides of an address, or it fails whatever
the address.  What becomes of the front is what becomes of it alone. -/
def GoesAround (front back : Text) (rounds : Nat) (scopes : Scopes) : Prop :=
  (∃ final, ∀ (whole : Text) (address : Address), ∃ error,
    substituteWithin whole rounds
    (front ++ (address.text ++ back)) scopes = .error error final) ∨
  ∃ left right final,
    (∀ (whole : Text) (address : Address),
      substituteWithin whole rounds (front ++ (address.text ++ back)) scopes =
        .ok (left ++ (address.text ++ right)) final) ∧
    ∀ whole, ∃ after, substituteWithin whole rounds front scopes =
      .ok left after

theorem goesAround_absent (ends : EndsReference front)
    (absent : (occursIn front || occursIn back) = false) (rounds : Nat)
    (scopes : Scopes) :
    GoesAround front back rounds scopes := by
  refine .inr ⟨front, back, scopes, ?_, ?_⟩
  · intro whole address
    rw [substituteWithin_absent]
    · rfl
    · rwa [occursIn_around ends]
  · intro whole
    rw [substituteWithin_absent (Bool.or_eq_false_iff.mp absent).1]
    exact ⟨scopes, rfl⟩

/-- One round goes around the address, and so do the others after it. -/
theorem goesAround_succ {left right : Text} {rounds : Nat}
    {scopes middle last : Scopes} (ends : EndsReference front)
    (occurs : (occursIn front || occursIn back) = true)
    (first : replace front scopes = .ok left middle)
    (second : replace back middle = .ok right last)
    (others : GoesAround left right rounds last) :
    GoesAround front back (rounds + 1) scopes := by
  have step (whole : Text) (address : Address) :
      substituteWithin whole (rounds + 1)
        (front ++ (address.text ++ back)) scopes =
        substituteWithin whole rounds
          (left ++ (address.text ++ right)) last := by
    rw [substituteWithin, occursIn_around ends, occurs, if_pos rfl,
      replace_around ends]
    simp only [bind_apply, first, second, pure_apply]
  rcases others with ⟨final, fails⟩ | ⟨shown, behind, final, succeeds, alone⟩
  · refine .inl ⟨final, ?_⟩
    intro whole address
    obtain ⟨error, failed⟩ := fails whole address
    exact ⟨error, by rw [step, failed]⟩
  · refine .inr ⟨shown, behind, final, ?_, ?_⟩
    · intro whole address
      rw [step, succeeds]
    · intro whole
      obtain ⟨after, found⟩ := alone whole
      cases refers : occursIn front with
      | true =>
          -- The front alone is read in other scopes, but with the same values.
          have agrees : last.Agrees middle :=
            Eq.symm
              ((always_replaceAfter Scopes.agrees_read 0 back).of_ok second)
          have paired :=
            steady_substituteWithin whole rounds left last middle agrees
          rw [found] at paired
          obtain ⟨same, final, substituted, rfl, -⟩ := paired.ok
          refine ⟨final, ?_⟩
          rw [substituteWithin, refers, if_pos rfl, bind_apply, first]
          exact substituted
      | false =>
          rw [replace, replaceAfter_absent refers] at first
          obtain ⟨rfl, rfl⟩ := EStateM.Result.ok.inj first
          rw [substituteWithin_absent refers] at found ⊢
          obtain ⟨rfl, -⟩ := EStateM.Result.ok.inj found
          exact ⟨_, rfl⟩

private theorem goesAround (ends : EndsReference front) (back : Text)
    (rounds : Nat) (scopes : Scopes) :
    GoesAround front back rounds scopes := by
  induction rounds generalizing front back scopes with
  | zero =>
      cases occurs : occursIn front || occursIn back with
      | false => exact goesAround_absent ends occurs 0 scopes
      | true =>
          refine .inl ⟨scopes, ?_⟩
          intro whole address
          refine ⟨.endless (.variables whole), ?_⟩
          rw [substituteWithin, occursIn_around ends, occurs]
          rfl
  | succ rounds ih =>
      cases occurs : occursIn front || occursIn back with
      | false => exact goesAround_absent ends occurs (rounds + 1) scopes
      | true =>
          have step (whole : Text) (address : Address) :
              substituteWithin whole (rounds + 1)
                (front ++ (address.text ++ back)) scopes =
                ((do
                  let left ← replace front
                  let right ← replace back
                  return left ++ (address.text ++ right)) >>=
                    substituteWithin whole rounds)
                  scopes := by
            rw [substituteWithin, occursIn_around ends, occurs, if_pos rfl,
              replace_around ends]
          cases first : replace front scopes with
          | error error middle =>
              refine .inl ⟨middle, ?_⟩
              intro whole address
              refine ⟨error, ?_⟩
              rw [step]
              simp only [bind_apply, first]
          | ok left middle =>
              cases second : replace back middle with
              | error error last =>
                  refine .inl ⟨last, ?_⟩
                  intro whole address
                  refine ⟨error, ?_⟩
                  rw [step]
                  simp only [bind_apply, first, second]
              | ok right last =>
                  exact goesAround_succ ends occurs first second
                    (ih (endsReference_replace ends first) right last)

end Variable

namespace Text

theorem dropWhile_visible {kind : Char → Bool} {c : Char}
    (visible : kind c = false) (text rest : Text) :
    (text ++ c :: rest).dropWhile kind = text.dropWhile kind ++ c :: rest := by
  induction text with
  | nil =>
      rw [List.nil_append, List.dropWhile_cons_of_neg (by simp [visible])]; rfl
  | cons d text ih =>
      rw [List.cons_append, List.dropWhile_cons, List.dropWhile_cons, ih]
      split
      · rfl
      · rfl

private theorem trim_address (front back : Text) (address : Address) :
    trim (front ++ (address.text ++ back)) =
      front.trimStart ++ (address.text ++ back.trimEnd) := by
  have starts : trimStart (front ++ (address.text ++ back)) =
      front.trimStart ++ (address.text ++ back) := by
    rw [Address.text_eq]
    exact dropWhile_visible (by decide) front _
  have shape : (front.trimStart ++ (address.text ++ back)).reverse =
      back.reverse ++
        ')' ::
          (front.trimStart ++
            (['u', 'r', 'l', '('] ++ address.contents)).reverse := by
    rw [Address.text_eq]
    simp
  rw [trim, starts, trimEnd, shape, dropWhile_visible (by decide),
    Address.text_eq, trimEnd]
  simp

theorem normalizeAfter_visible
    (visible : ∀ c ∈ text, isQuote c = false ∧ isBlank c = false)
    (back : Text) :
    normalizeAfter .outside false (text ++ back) =
      text ++ normalizeAfter .outside false back := by
  induction text with
  | nil => rfl
  | cons c text ih =>
      obtain ⟨unquoted, shown⟩ := visible c (by simp)
      have later := ih fun d member => visible d (by simp [member])
      rw [List.cons_append, normalizeAfter, shown,
        Quoting.step_outside unquoted, later]
      rfl

theorem normalizeAfter_inString {quoting : Quoting} {mark : Char}
    (inside : quoting.InString mark) (quote : isQuote mark = true)
    (plain : ∀ c ∈ text, isQuote c = false) (gap : Bool) (back : Text) :
    normalizeAfter quoting gap (text ++ back) =
      text ++ normalizeAfter (quoting.after text) gap back := by
  induction text generalizing quoting with
  | nil => rfl
  | cons c text ih =>
      have later := ih (inside.step quote (plain c (by simp)))
        fun d member => plain d (by simp [member])
      rw [List.cons_append, normalizeAfter, inside.isOutside, later]
      rfl

theorem normalizeAfter_address {quoting : Quoting}
    (marked : quoting.Marked) (gap : Bool) (back : Text) :
    ∃ left right, ∀ address : Address,
      normalizeAfter quoting gap (address.text ++ back) =
        left ++ (address.text ++ right) := by
  rcases marked.cases with rfl | ⟨mark, quote, inside⟩
  · cases gap with
    | false =>
        refine ⟨[], normalizeAfter .outside false back, ?_⟩
        intro address
        exact normalizeAfter_visible address.visible back
    | true =>
        refine ⟨[' '], normalizeAfter .outside false back, ?_⟩
        intro address
        have copied := normalizeAfter_visible address.visible back
        rw [List.singleton_append, ← copied, Address.text_eq]
        rfl
  · refine ⟨[], normalizeAfter quoting.pastCall gap back, ?_⟩
    intro address
    rw [normalizeAfter_inString inside quote address.unquoted,
      address.after_text marked]
    rfl

theorem normalizeAfter_around {quoting : Quoting}
    (marked : quoting.Marked) (gap : Bool) (front back : Text) :
    ∃ left right, ∀ address : Address,
      normalizeAfter quoting gap (front ++ (address.text ++ back)) =
        left ++ (address.text ++ right) := by
  induction front generalizing quoting gap with
  | nil => exact normalizeAfter_address marked gap back
  | cons c front ih =>
      have copied (gap : Bool) : ∃ left right, ∀ address : Address,
          c :: normalizeAfter (quoting.step c) gap
            (front ++ (address.text ++ back)) =
            left ++ (address.text ++ right) := by
        obtain ⟨left, right, around⟩ := ih (marked.step c) gap
        refine ⟨c :: left, right, ?_⟩
        intro address
        rw [around, List.cons_append]
      simp only [List.cons_append, normalizeAfter]
      split
      · split
        · exact ih marked true
        · split
          · obtain ⟨left, right, around⟩ := copied false
            refine ⟨' ' :: left, right, ?_⟩
            intro address
            rw [around, List.cons_append]
          · exact copied false
      · exact copied gap

private theorem normalize_around (front back : Text) :
    ∃ left right, ∀ address : Address,
      normalize (front ++ (address.text ++ back)) =
        left ++ (address.text ++ right) := by
  obtain ⟨left, right, around⟩ :=
    @normalizeAfter_around .outside trivial false front.trimStart back.trimEnd
  refine ⟨left, right, ?_⟩
  intro address
  rw [normalize, trim_address, around]

end Text

/-- The variables of two states are the same, but for how often they were
read. -/
def State.Agrees (state other : State) : Prop :=
  state.scopes.Agrees other.scopes

instance : IsPreorder State State.Agrees where
  refl _ := rfl
  trans _ _ _ first second := Eq.trans first second

namespace Compile

private theorem allowsLookups_agrees : AllowsLookups State.Agrees where
  lookup name state := Scopes.agrees_read name state.scopes
  log _ _ _ := rfl

/-- The text in which calls are looked for: holes are filled and references
replaced. -/
def spellOut (environment : Environment) (text : Text) : Compile Text := do
  resolving (Variable.substitute (← interpolate environment text))

/-- A `url()` behind the text is a call of its own: no hole is open there,
nothing in front of it runs into its name, and it is not among the arguments of
a host function or a builtin one. -/
structure Exposes (environment : Environment) (state : State)
    (text : Text) : Prop where
  closes : (Template.ofText text).closes = true
  apart : ∀ c, text.getLast? = some c → isNameChar c = false ∧ c ≠ '$' ∧ c ≠ '}'
  spares : ∀ shown final, spellOut environment text state = .ok shown final →
    environment.options.functions.Spares .outside [] shown

section

variable {state middle last : State} {before : Text}

private theorem Exposes.endsReference
    (exposes : Exposes environment state before)
    (filled : interpolate environment before state = .ok front middle) :
    EndsReference front := by
  intro c ending
  cases final : before.getLast? with
  | none =>
      obtain rfl := List.getLast?_eq_none_iff.mp final
      rw [interpolate, Template.ofText] at filled
      obtain ⟨rfl, -⟩ := EStateM.Result.ok.inj filled
      contradiction
  | some d =>
      obtain ⟨apart, dollar, brace⟩ := exposes.apart d final
      rw [getLast?_fill filled final brace] at ending
      obtain rfl := Option.some.inj ending
      exact ⟨apart, dollar⟩

/-- Variables that were read in between do not change what the text is spelled
out to. -/
theorem Exposes.spares_later (exposes : Exposes environment state before)
    (filled : interpolate environment before state = .ok front middle)
    (agrees : middle.Agrees last) {shown : Text} {final : Scopes}
    (substituted : Variable.substitute front last.scopes = .ok shown final) :
    environment.options.functions.Spares .outside [] shown := by
  have paired :=
    Variable.steady_substituteWithin front Variable.maxRounds front last.scopes
    middle.scopes (Eq.symm agrees)
  rw [Variable.substitute] at substituted
  rw [substituted] at paired
  obtain ⟨same, scopes, again, rfl, -⟩ := paired.ok
  apply exposes.spares shown { middle with scopes }
  simp only [spellOut, bind_apply, filled, resolving,
    Variable.substitute, again]

end

/-- Whatever the address, the same comes out around it in the same state, or
nothing does. -/
def Surrounds (results : Address → EStateM.Result Error State Text) : Prop :=
  (∃ final, ∀ address, ∃ error, results address = .error error final) ∨
    ∃ left right final, ∀ address : Address,
      results address = .ok (left ++ (address.text ++ right)) final

private theorem surrounds_finishValue (ends : EndsReference front)
    {state : State}
    (spares : ∀ shown final, Variable.substitute front state.scopes =
      .ok shown final →
      environment.options.functions.Spares .outside [] shown) (back : Text) :
    Surrounds fun address =>
      finishValue environment (front ++ (address.text ++ back)) state := by
  rcases Variable.goesAround ends back Variable.maxRounds state.scopes with
    ⟨scopes, fails⟩ | ⟨left, right, scopes, succeeds, alone⟩
  · refine .inl ⟨{ state with scopes }, ?_⟩
    intro address
    obtain ⟨error, failed⟩ := fails (front ++ (address.text ++ back)) address
    refine ⟨error, ?_⟩
    simp only [finishValue, bind_apply, resolving, Variable.substitute, failed]
  · obtain ⟨after, found⟩ := alone front
    obtain ⟨setting, framed⟩ := (spares left after found).framed trivial right
    have substituted (address : Address) :
        finishValue environment (front ++ (address.text ++ back)) state =
          (do
            let resolved ← check (environment.options.functions.resolve
              (left ++ (address.text ++ right)))
            resolved.unknown.forM fun name => warn (.unknownFunction name)
            return resolved.value.normalize : Compile Text) { state with
              scopes } := by
      rw [finishValue, bind_apply, resolving, Variable.substitute, succeeds]
    cases setting with
    | none =>
        refine .inl ⟨{ state with scopes }, ?_⟩
        intro address
        have failed := framed address
        simp only [substituted, Functions.resolve]
        generalize Functions.resolveAfter _ _ _ _ = result at failed
        cases failed with
        | failed error => exact ⟨error, rfl⟩
    | some setting =>
        obtain ⟨log, warned⟩ :=
          forM_warn Warning.unknownFunction setting.unknown
          { state with scopes }
        obtain ⟨shown, behind, normalized⟩ :=
          Text.normalize_around setting.front setting.back
        refine .inr ⟨shown, behind, { state with scopes, log }, ?_⟩
        intro address
        have resolved := framed address
        simp only [substituted, Functions.resolve]
        generalize Functions.resolveAfter _ _ _ _ = result at resolved
        cases resolved with
        | shown => simp only [check, bind_apply, warned, pure_apply, normalized]

/-- A `url()` that is a call of its own in a value comes out with its contents
as they are, and these make no difference.  Whatever they are, resolving the
value fails, or it succeeds with the same text around the `url()`; in either
case it ends in the same state, so that it has read the same variables and
reported the same functions. -/
theorem url_contents_kept {state : State} {before : Text}
    (exposes : Exposes environment state before) (after : Text) :
    (∃ final, ∀ address : Address, ∃ error,
      resolveValue environment (before ++ (address.text ++ after)) state =
        .error error final) ∨
    ∃ left right final, ∀ address : Address,
      resolveValue environment (before ++ (address.text ++ after)) state =
        .ok (left ++ (address.text ++ right)) final := by
  have around :=
    fun address => interpolate_around environment exposes.closes address after
  cases first : interpolate environment before state with
  | error error final =>
      refine .inl ⟨final, ?_⟩
      intro address
      refine ⟨error, ?_⟩
      simp only [resolveValue, around, bind_apply, first]
  | ok front middle =>
      cases second : interpolate environment after middle with
      | error error final =>
          refine .inl ⟨final, ?_⟩
          intro address
          refine ⟨error, ?_⟩
          simp only [resolveValue, around, bind_apply, first, second]
      | ok back last =>
          have filled (address : Address) :
              resolveValue environment
                (before ++ (address.text ++ after)) state =
                finishValue environment
                  (front ++ (address.text ++ back)) last := by
            simp only [resolveValue, around, bind_apply, first,
              second, pure_apply]
          simp only [filled]
          apply surrounds_finishValue (exposes.endsReference first)
          intro shown final substituted
          have agrees : middle.Agrees last :=
            (allowsLookups_agrees.interpolate environment after).of_ok second
          exact exposes.spares_later first agrees substituted

namespace AddressSample

def state : State :=
  { Compilation.start {} [] none with
    scopes :=
      ((Scopes.define {} "a".toList "red".toList false).2.define
        "b".toList "2px".toList
      false).2 }

/-- The `url()` is an argument of an unknown function. -/
def before : Text :=
  "$a f($b, ".toList

def after : Text :=
  ") #\x7b$b\x7d".toList

/-- An address with a `$` and a `#` that mean nothing. -/
def address : Address :=
  ⟨"../a.png?$1#c".toList, by decide, by decide, by decide⟩

theorem spelled : (match spellOut {} before state with
    | .ok shown _ => some shown
    | .error _ _ => none) = some ("red f".toList ++ '(' :: "2px, ".toList) := by
  decide +kernel

theorem exposes : Exposes {} state before where
  closes := by decide +kernel
  apart := by decide
  spares := by
    intro shown final found
    have same := spelled
    rw [found] at same
    obtain rfl := Option.some.inj same
    apply Functions.Spares.pass (by decide)
    apply Functions.Spares.arguments (by decide) (by decide) (by decide)
      rfl (by decide)
    rw [← List.append_nil "2px, ".toList]
    apply Functions.Spares.pass (by decide)
    apply Functions.Spares.done
    intro _
    exact endsName_cons (by decide : isNameChar ' ' = false) _

end AddressSample

open AddressSample in
theorem url_contents_kept_argument :
    Exposes {} state before ∧
      ∃ left right final,
        (∀ address : Address,
          resolveValue {} (before ++ (address.text ++ after)) state =
          .ok (left ++ (address.text ++ right)) final) ∧
        left ++ (address.text ++ right) =
          "red f(2px, url(../a.png?$1#c)) 2px".toList := by
  refine ⟨exposes, ?_⟩
  have computed :
      (match resolveValue {} (before ++ (address.text ++ after)) state with
      | .ok value _ => some value
      | .error _ _ =>
          none) = some "red f(2px, url(../a.png?$1#c)) 2px".toList := by
    decide +kernel
  rcases url_contents_kept exposes after with ⟨final, fails⟩
    | ⟨left, right, final, succeeds⟩
  · obtain ⟨error, failed⟩ := fails address
    rw [failed] at computed
    contradiction
  · refine ⟨left, right, final, succeeds, ?_⟩
    rw [succeeds] at computed
    exact Option.some.inj computed

/-- A reference in a `url()` is replaced like any other, and counted as a
use. -/
theorem url_reference_replaced :
    (compile 9 "$x: b; .a \x7b background: url($x); \x7d".toList).1.message? =
      none ∧
      (compile 9 "$x: b; .a \x7b background: url($x); \x7d".toList).2 =
        ".a \x7b\n\tbackground: url(b);\n\x7d\n".toList ∧
      ∃ final, Variable.substitute "url($x)".toList
          (Scopes.define {} "x".toList "b".toList false).2 =
            .ok "url(b)".toList final ∧
        final.bindings.map Binding.uses = #[1] :=
  ⟨by decide +kernel, by decide +kernel, _, rfl, by decide +kernel⟩

end Compile

end Stylesheet
