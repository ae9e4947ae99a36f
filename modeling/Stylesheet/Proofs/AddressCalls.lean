import Stylesheet.Proofs.ResolvedCalls
import Stylesheet.Proofs.Substitution

/-!
# Calls around an address

The calls of a text are resolved in the same way whatever stands between the
parentheses of a `url()` in it.  This is so wherever the `url()` is a call of
its own: no name runs into it, and it is not in the arguments of a host function
or a builtin one.  `Functions.Spares` follows the resolution of the text in
front of such a place.
-/

namespace Stylesheet

open Functions

/-- What can stand in a `url()` and be left alone there: no quotes, parentheses
or blanks, no holes, and no references to variables. -/
structure Address where
  contents : Text
  plain : ∀ c ∈ contents, isQuote c = false ∧ c ≠ '(' ∧ c ≠ ')' ∧
    isBlank c = false
  whole : Text.occurs ['#', '{'] contents = false
  closed : Variable.Closed contents

/-- The `url()` with the address in it. -/
def Address.text (address : Address) : Text :=
  kept "url".toList address.contents

variable {functions : Functions} {quoting : Quoting}
  {out text front back rest inner : Text}

theorem endsName_cons {c : Char} (apart : isNameChar c = false) (rest : Text) :
    EndsName (c :: rest) := by
  intro d first
  obtain rfl : c = d := by simpa using first
  exact apart

theorem takeWhile_endsName (ends : EndsName rest) (text : Text) :
    (text ++ rest).takeWhile isNameChar = text.takeWhile isNameChar := by
  induction text with
  | nil => exact takeWhile_append (by simp) ends
  | cons c text ih =>
      rw [List.cons_append, List.takeWhile_cons, List.takeWhile_cons, ih]

/-- Behind a call without quotes. -/
def Quoting.pastCall : Quoting → Quoting
  | .outside => .outside
  | .inside mark | .escaped mark => .inside mark

/-- The string that began with `mark` is not over. -/
def Quoting.InString (mark : Char) (quoting : Quoting) : Prop :=
  quoting = .inside mark ∨ quoting = .escaped mark

theorem Quoting.InString.step {mark c : Char} (inside : quoting.InString mark)
    (quote : isQuote mark = true) (plain : isQuote c = false) :
    (quoting.step c).InString mark := by
  rcases inside with rfl | rfl
  · have other : c ≠ mark := by
      rintro rfl
      rw [quote] at plain
      contradiction
    rw [Quoting.step]
    split
    · exact .inr rfl
    · rw [if_neg (by simpa using other)]
      exact .inl rfl
  · exact .inl rfl

theorem Quoting.InString.after {mark : Char} (inside : quoting.InString mark)
    (quote : isQuote mark = true) (plain : ∀ c ∈ text, isQuote c = false) :
    (quoting.after text).InString mark := by
  induction text generalizing quoting with
  | nil => exact inside
  | cons c rest ih =>
      apply ih (inside.step quote (plain c (by simp)))
      intro d member
      exact plain d (by simp [member])

theorem Quoting.InString.isOutside {mark : Char}
    (inside : quoting.InString mark) :
    quoting.isOutside = false := by
  rcases inside with rfl | rfl
  · rfl
  · rfl

theorem Quoting.Marked.after (marked : quoting.Marked) (text : Text) :
    (quoting.after text).Marked := by
  induction text generalizing quoting with
  | nil => exact marked
  | cons c rest ih => exact ih (marked.step c)

/-- A text without quotes is passed inside a string, or outside of them all. -/
theorem Quoting.Marked.cases (marked : quoting.Marked) :
    quoting = .outside ∨ ∃ mark, isQuote mark = true ∧
      quoting.InString mark := by
  cases quoting with
  | outside => exact .inl rfl
  | inside mark => exact .inr ⟨mark, marked, .inl rfl⟩
  | escaped mark => exact .inr ⟨mark, marked, .inr rfl⟩

namespace Address

variable (address : Address)

theorem text_eq :
    address.text = ['u', 'r', 'l', '('] ++ address.contents ++ [')'] := by
  rw [text, kept]
  simp

theorem visible : ∀ c ∈ address.text, isQuote c = false ∧
    isBlank c = false := by
  intro c member
  rw [text_eq, List.mem_append, List.mem_append] at member
  rcases member with (first | inside) | last
  · revert c
    decide
  · obtain ⟨unquoted, -, -, visible⟩ := address.plain c inside
    exact ⟨unquoted, visible⟩
  · rw [List.mem_singleton] at last
    rw [last]
    decide

theorem unquoted : ∀ c ∈ address.text, isQuote c = false := by
  intro c member
  exact (address.visible c member).1

theorem enclosed : Enclosed address.text := by
  apply enclosed_kept
  · decide
  · apply Enclosed.of_plain
    intro c member
    obtain ⟨unquoted, opening, closing, -⟩ := address.plain c member
    exact ⟨unquoted, opening, closing⟩

/-- The address makes no difference to the strings around it. -/
theorem after_text (marked : quoting.Marked) :
    quoting.after address.text = quoting.pastCall := by
  rcases marked.cases with rfl | ⟨mark, quote, inside⟩
  · exact address.enclosed.shut
  · have past : quoting.pastCall = .inside mark := by
      rcases inside with rfl | rfl
      · rfl
      · rfl
    have unquoted : ∀ c ∈ ['u', 'r', 'l', '('] ++ address.contents,
        isQuote c = false := by
      intro c member
      apply address.unquoted c
      rw [text_eq]
      exact List.mem_append_left _ member
    rw [past, text_eq, Quoting.after_append]
    rcases inside.after quote unquoted with same | same
    · have other : ')' ≠ mark := by
        rintro rfl
        contradiction
      rw [same, Quoting.after_cons, Quoting.step, if_neg (by decide),
        if_neg (by simpa using other)]
      rfl
    · rw [same]
      rfl

end Address

/-- A text that closes no more than is open belongs to the call. -/
theorem spanCall_covered {depth : Nat} (covered : Covered depth quoting text)
    (rest : Text) :
    spanCall depth quoting (text ++ rest) =
      (spanCall (depth + netParens quoting text).toNat
        (quoting.after text) rest).map
        fun parts => (text ++ parts.1, parts.2) := by
  induction text generalizing depth quoting with
  | nil => simp
  | cons c text ih =>
      obtain ⟨-, later⟩ := covered_cons.mp covered
      have inside : 0 ≤ (depth : Int) + parenWeight quoting c := by
        simpa using later [] List.nil_prefix
      have moved : (((depth : Int) + parenWeight quoting c).toNat : Int) =
          depth + parenWeight quoting c := Int.toNat_of_nonneg inside
      rw [← moved] at later
      rw [List.cons_append, spanCall_cons _ inside, ih later, moved,
        Option.map_map, netParens_cons, Int.add_assoc, Quoting.after_cons]
      rfl

/-- Where no end of the call is found, no more is closed than is open. -/
theorem covered_of_spanCall {depth : Nat}
    (lost : spanCall depth quoting text = none) :
    Covered depth quoting text := by
  induction text generalizing depth quoting with
  | nil => exact covered_nil.mpr (by omega)
  | cons c text ih =>
      by_cases inside : 0 ≤ (depth : Int) + parenWeight quoting c
      · rw [spanCall_cons _ inside, Option.map_eq_none_iff] at lost
        have later := ih lost
        rw [Int.toNat_of_nonneg inside] at later
        exact covered_cons.mpr ⟨by omega, later⟩
      · obtain ⟨rfl, rfl, rfl⟩ := closing_of_weight inside
        contradiction

/-- Parentheses in a string do not count. -/
theorem covered_of_inString {mark : Char} {depth : Int}
    (inside : quoting.InString mark) (quote : isQuote mark = true)
    (plain : ∀ c ∈ text, isQuote c = false) (positive : 0 ≤ depth) :
    netParens quoting text = 0 ∧ Covered depth quoting text := by
  induction text generalizing quoting with
  | nil => exact ⟨rfl, covered_nil.mpr positive⟩
  | cons c rest ih =>
      have weight : parenWeight quoting c = 0 := by
        rw [parenWeight, inside.isOutside]
        rfl
      obtain ⟨net, covered⟩ := ih (inside.step quote (plain c (by simp)))
        fun d member => plain d (by simp [member])
      constructor
      · rw [netParens_cons, weight, net]
        rfl
      · rw [covered_cons, weight, Int.add_zero]
        exact ⟨positive, covered⟩

theorem Address.covered (address : Address)
    (marked : quoting.Marked) {depth : Int} (positive : 0 ≤ depth) :
    netParens quoting address.text = 0 ∧
      Covered depth quoting address.text := by
  rcases marked.cases with rfl | ⟨mark, quote, inside⟩
  · exact ⟨address.enclosed.net, address.enclosed.covered.mono positive⟩
  · exact covered_of_inString inside quote address.unquoted positive

/-- The end of a call is found behind an address, in the same place whatever the
address. -/
theorem spanCall_around {depth : Nat}
    (lost : spanCall depth quoting text = none) (marked : quoting.Marked)
    (back : Text) :
    ∃ found : Option (Text × Text), ∀ address : Address,
      spanCall depth quoting (text ++ (address.text ++ back)) =
        found.map fun parts =>
          (text ++ (address.text ++ parts.1), parts.2) := by
  have covered := covered_of_spanCall lost
  have positive : 0 ≤ (depth : Int) + netParens quoting text :=
    covered text (List.prefix_refl text)
  refine
    ⟨spanCall (depth + netParens quoting text).toNat
      (quoting.after text).pastCall back, ?_⟩
  intro address
  obtain ⟨net, between⟩ := address.covered (marked.after text)
    (Int.natCast_nonneg (depth + netParens quoting text).toNat)
  rw [spanCall_covered covered, spanCall_covered between, net,
    address.after_text (marked.after text), Int.add_zero, Int.toNat_natCast,
    Option.map_map]
  rfl

namespace Functions

theorem resolveBehind_eq (out after : Text) (call : Resolved) :
    functions.resolveBehind out after call =
      (functions.resolveAfter .outside
        (call.value.reverse ++ out.drop (nameAfter out).length)
        after).map fun following =>
          { following with unknown := call.unknown ++ following.unknown } := by
  rw [resolveBehind]
  cases functions.resolveAfter .outside
      (call.value.reverse ++ out.drop (nameAfter out).length) after with
  | ok following => rfl
  | error error => rfl

/-- What stands in front of a character that belongs to no name does not matter
to the calls behind it. -/
theorem resolveAfter_recent (functions : Functions) {barrier : Char}
    (apart : isNameChar barrier = false) (quoting : Quoting)
    (recent text : Text) :
    ∃ result : Except Error Resolved, ∀ earlier,
      functions.resolveAfter quoting (recent ++ barrier :: earlier) text =
        result.map fun resolved =>
          { resolved with
            value := earlier.reverse ++ barrier :: resolved.value } := by
  have same (recent earlier : Text) :
      (recent ++ barrier :: earlier).takeWhile isNameChar =
      (recent ++ [barrier]).takeWhile isNameChar := by
    rw [takeWhile_endsName (endsName_cons apart _),
      takeWhile_endsName (endsName_cons apart _)]
  generalize shown : recent ++ [barrier] = out
  induction quoting, out, text using resolving_induction
    generalizing recent with
  | nil quoting out =>
      refine ⟨.ok { value := recent.reverse }, ?_⟩
      intro earlier
      rw [resolveAfter_nil]
      simp [Except.map]
  | char quoting out c rest plain ih =>
      obtain ⟨result, follows⟩ := ih (c :: recent) (by rw [← shown]; rfl)
      refine ⟨result, ?_⟩
      intro earlier
      have passed :
          startsCall quoting (recent ++ barrier :: earlier) c = false := by
        rw [startsCall, same, shown]
        exact plain
      rw [← follows, List.cons_append, resolveAfter_char _ passed]
  | lost quoting out c rest starts unclosed =>
      refine ⟨.error (.form (.callOpen (c :: rest))), ?_⟩
      intro earlier
      have begins :
          startsCall quoting (recent ++ barrier :: earlier) c = true := by
        rw [startsCall, same, shown]
        exact starts
      rw [resolveAfter_open _ begins unclosed]
      rfl
  | call quoting out c rest inner after starts spanned within behind =>
      have named (earlier : Text) : nameAfter (recent ++ barrier :: earlier) =
          nameAfter out := by
        rw [nameAfter, nameAfter, same, shown]
      have begins (earlier : Text) :
          startsCall quoting (recent ++ barrier :: earlier) c = true := by
        rw [startsCall, same, shown]
        exact starts
      have called :=
        fun earlier => functions.resolveAfter_call (begins earlier) spanned
      simp only [named] at called
      cases done : functions.call (nameAfter out) inner with
      | error error =>
          refine ⟨.error error, ?_⟩
          intro earlier
          rw [called, done]
          rfl
      | ok call =>
          have short : (nameAfter out).length ≤ recent.length := by
            rw [← shown, nameAfter, takeWhile_endsName (endsName_cons apart _),
              List.length_reverse]
            exact ( List.takeWhile_prefix _).length_le
          obtain ⟨result, follows⟩ := behind _
            (call.value.reverse ++ recent.drop (nameAfter out).length) rfl
          refine ⟨result.map fun following =>
            { following with unknown := call.unknown ++ following.unknown }, ?_⟩
          intro earlier
          rw [called, done]
          dsimp only
          rw [resolveBehind_eq, named, List.drop_append_of_le_length short,
            ← List.append_assoc, follows]
          cases result with
          | ok following => rfl
          | error error => rfl

/-- A text in which no call starts is copied. -/
theorem resolveAfter_copied
    (copied : ∀ front c back, text = front ++ c :: back →
      startsCall (quoting.after front) (front.reverse ++ out) c = false)
      (rest : Text) :
    functions.resolveAfter quoting out (text ++ rest) =
      functions.resolveAfter (quoting.after text)
        (text.reverse ++ out) rest := by
  induction text generalizing quoting out with
  | nil => rfl
  | cons c text ih =>
      have plain : startsCall quoting out c = false := copied [] c text rfl
      rw [List.cons_append, resolveAfter_char _ plain, ih, List.reverse_cons,
        List.append_assoc]
      · rfl
      · rintro front d back rfl
        have later := copied (c :: front) d back rfl
        rwa [List.reverse_cons, List.append_assoc] at later

theorem resolveAfter_address_outside (address : Address) (apart : EndsName out)
    (back : Text) :
    functions.resolveAfter .outside out (address.text ++ back) =
      functions.resolveAfter .outside (address.text.reverse ++ out) back := by
  have named : nameAfter ("url".toList.reverse ++ out) = "url".toList := by
    rw [nameAfter, takeWhile_append (by decide) apart, List.reverse_reverse]
  have starts :
      startsCall .outside ("url".toList.reverse ++ out) '(' = true := by
    rw [startsCall, takeWhile_append (by decide) apart]
    decide
  have shape : address.text ++ back =
      "url".toList ++ '(' :: (address.contents ++ ')' :: back) := by
    simp [Address.text, kept]
  have enclosed : Enclosed address.contents := by
    apply Enclosed.of_plain
    intro c member
    obtain ⟨unquoted, opening, closing, -⟩ := address.plain c member
    exact ⟨unquoted, opening, closing⟩
  have copied : ∀ front c back, "url".toList = front ++ c :: back →
      startsCall (Quoting.outside.after front) (front.reverse ++ out) c =
        false := by
    intro front c back split
    have member : c ∈ "url".toList := by simp [split]
    have other : c ≠ '(' := by
      rintro rfl
      contradiction
    simp [startsCall, other]
  have letters : Quoting.outside.after "url".toList = .outside := by decide
  have behind := kept_reverse ("url".toList.reverse ++ out) address.contents
  have reversed : address.text.reverse ++ out =
      ')' ::
        (address.contents.reverse ++ '(' :: ("url".toList.reverse ++ out)) := by
    simp [Address.text, kept]
  rw [named, ← reversed] at behind
  rw [shape, resolveAfter_copied copied, letters,
    resolveAfter_call _ starts (spanCall_enclosed enclosed back), named, call,
    if_pos (by decide)]
  dsimp only
  rw [resolveBehind_eq, named, behind]
  exact congrFun Except.map_id _

/-- No call starts in a string, and an address has no quotes that could end
one. -/
theorem resolveAfter_address_inString (address : Address) {mark : Char}
    (quote : isQuote mark = true) (inside : quoting.InString mark)
    (back : Text) :
    functions.resolveAfter quoting out (address.text ++ back) =
      functions.resolveAfter (quoting.after address.text)
        (address.text.reverse ++ out) back := by
  apply resolveAfter_copied
  intro front c back split
  have unquoted : ∀ d ∈ front, isQuote d = false := by
    intro d member
    apply address.unquoted d
    rw [split]
    exact List.mem_append_left _ member
  rw [startsCall, (inside.after quote unquoted).isOutside]
  rfl

/-- An address is copied, as a call of its own or as a part of a string. -/
theorem resolveAfter_address (address : Address) (marked : quoting.Marked)
    (apart : quoting = .outside → EndsName out) (back : Text) :
    functions.resolveAfter quoting out (address.text ++ back) =
      functions.resolveAfter quoting.pastCall
        (address.text.reverse ++ out) back := by
  rcases marked.cases with rfl | ⟨mark, quote, inside⟩
  · exact resolveAfter_address_outside address (apart rfl) back
  · rw [resolveAfter_address_inString address quote inside,
      address.after_text marked]

/-- What comes out around an address, and what is reported. -/
structure Setting where
  front : Text
  back : Text
  unknown : List Text

/-- The address stands in its setting, or there is none and nothing comes
out. -/
inductive Framed (address : Address) : Option Setting →
    Except Error Resolved → Prop where
  | failed (error : Error) : Framed address none (.error error)
  | shown (setting : Setting) : Framed address (some setting) (.ok {
      value := setting.front ++ (address.text ++ setting.back)
      unknown := setting.unknown })

/-- The setting with more to report in front. -/
def Setting.report (unknown : List Text) (setting : Setting) : Setting :=
  { setting with unknown := unknown ++ setting.unknown }

theorem Framed.report {address : Address} {setting : Option Setting}
    {result : Except Error Resolved} (framed : Framed address setting result)
    (unknown : List Text) :
    Framed address (setting.map (Setting.report unknown))
      (result.map fun resolved =>
      { resolved with unknown := unknown ++ resolved.unknown }) := by
  cases framed with
  | failed error => exact .failed error
  | shown setting => exact .shown (setting.report unknown)

/-- The address is part of the output. -/
theorem framed_behind (functions : Functions) (quoting : Quoting)
    (recent earlier text : Text) :
    ∃ setting, ∀ address : Address, Framed address setting
      (functions.resolveAfter quoting
        (recent ++ (address.text.reverse ++ earlier)) text) := by
  obtain ⟨result, follows⟩ :=
    functions.resolveAfter_recent (by decide : isNameChar ')' = false)
      quoting recent text
  have shape (address : Address) : address.text.reverse ++ earlier =
      ')' ::
        (address.contents.reverse ++ (['(', 'l', 'r', 'u'] ++ earlier)) := by
    rw [Address.text_eq]
    simp
  cases result with
  | error error =>
      refine ⟨none, ?_⟩
      intro address
      rw [shape, follows]
      exact .failed error
  | ok resolved =>
      refine ⟨some ⟨earlier.reverse, resolved.value, resolved.unknown⟩, ?_⟩
      intro address
      have value :
          (address.contents.reverse ++
            (['(', 'l', 'r', 'u'] ++ earlier)).reverse ++
          ')' :: resolved.value =
            earlier.reverse ++ (address.text ++ resolved.value) := by
        rw [Address.text_eq]
        simp
      rw [shape, follows, Except.map, value]
      exact .shown _

/-- A resolution goes on behind a call around an address. -/
theorem framed_resolveBehind (functions : Functions) (setting : Option Setting)
    (out after : Text) :
    ∃ next, ∀ (address : Address) (result : Except Error Resolved),
      Framed address setting result → Framed address next
        (match result with
        | .ok call => functions.resolveBehind out after call
        | .error error => .error error) := by
  cases setting with
  | none =>
      refine ⟨none, ?_⟩
      intro address result framed
      cases framed with
      | failed error => exact .failed error
  | some setting =>
      obtain ⟨next, follows⟩ :=
        framed_behind functions .outside setting.back.reverse
        (setting.front.reverse ++ out.drop (nameAfter out).length) after
      refine ⟨next.map (Setting.report setting.unknown), ?_⟩
      intro address result framed
      cases framed with
      | shown =>
          have shape :
              (setting.front ++ (address.text ++ setting.back)).reverse ++
              out.drop (nameAfter out).length =
                setting.back.reverse ++ (address.text.reverse ++
                (setting.front.reverse ++
                  out.drop (nameAfter out).length)) := by
            simp
          dsimp only
          rw [resolveBehind_eq, shape]
          exact (follows address).report setting.unknown

/-- A function that is neither a host function nor a builtin one puts something
around its arguments, or it fails whatever they are. -/
theorem finish_foreign {name : Text}
    (foreign : functions.host.lookup name = none)
    (other : Builtin.ofName? name = none) :
    (∃ error, ∀ inner, functions.finish name inner = .error error) ∨
      ∃ (left right : Text) (report : List Text → List Text), ∀ inner,
        functions.finish name inner =
          .ok { value := left ++ (inner.value ++ right),
                unknown := report inner.unknown } := by
  unfold finish
  rw [foreign, other]
  dsimp only
  split
  · right
    refine ⟨name ++ ['('], [')'], id, ?_⟩
    intro inner
    simp [kept]
  · split
    · exact .inl ⟨_, fun _ => rfl⟩
    · right
      cases functions.unknown.keep with
      | true =>
          refine ⟨name ++ ['('], [')'], fun unknown =>
            if functions.unknown.report then unknown ++ [name] else unknown, ?_⟩
          intro inner
          simp [kept]
      | false =>
          refine ⟨[], [], fun unknown =>
            if functions.unknown.report then unknown ++ [name] else unknown, ?_⟩
          intro inner
          simp

theorem framed_call {name : Text} (setting : Option Setting)
    (transparent : Text.sameLetters name "url".toList = false)
    (foreign : functions.host.lookup name = none)
    (other : Builtin.ofName? name = none) :
    ∃ next, ∀ (address : Address) (inner : Text),
      Framed address setting (functions.resolve inner) →
        Framed address next (functions.call name inner) := by
  have called (inner : Text) : functions.call name inner =
      match functions.resolve inner with
      | .ok resolved => functions.finish name resolved
      | .error error => .error error := by
    rw [call, transparent]
    rfl
  cases setting with
  | none =>
      refine ⟨none, ?_⟩
      intro address inner framed
      rw [called]
      generalize functions.resolve inner = result at framed
      cases framed with
      | failed error => exact .failed error
  | some setting =>
      rcases finish_foreign foreign other with ⟨error, fails⟩
        | ⟨left, right, report, succeeds⟩
      · refine ⟨none, ?_⟩
        intro address inner framed
        rw [called]
        generalize functions.resolve inner = result at framed
        cases framed with
        | shown =>
            dsimp only
            rw [fails]
            exact .failed error
      · refine
          ⟨some ⟨left ++ setting.front, setting.back ++ right,
            report setting.unknown⟩, ?_⟩
        intro address inner framed
        rw [called]
        generalize functions.resolve inner = result at framed
        cases framed with
        | shown =>
            have value : left ++
                (setting.front ++ (address.text ++ setting.back) ++ right) =
                left ++ setting.front ++
                  (address.text ++ (setting.back ++ right)) := by
              simp
            dsimp only
            rw [succeeds, value]
            exact .shown _

/-- A call that is not closed in front of the address is closed behind it, or
not at all. -/
theorem framed_around {c : Char} (starts : startsCall quoting out c = true)
    (unclosed : spanCall 0 .outside rest = none)
    (calls : ∀ first, ∃ setting, ∀ address : Address, Framed address setting
      (functions.call (nameAfter out) (rest ++ (address.text ++ first))))
      (back : Text) :
    ∃ setting, ∀ address : Address, Framed address setting
      (functions.resolveAfter quoting out
        (c :: rest ++ (address.text ++ back))) := by
  obtain ⟨found, spans⟩ := spanCall_around unclosed trivial back
  cases found with
  | none =>
      refine ⟨none, ?_⟩
      intro address
      rw [List.cons_append, resolveAfter_open _ starts (spans address)]
      exact .failed _
  | some parts =>
      obtain ⟨first, second⟩ := parts
      obtain ⟨result, called⟩ := calls first
      obtain ⟨setting, framed⟩ :=
        framed_resolveBehind functions result out second
      refine ⟨setting, ?_⟩
      intro address
      rw [List.cons_append, resolveAfter_call _ starts (spans address)]
      apply framed address
      exact called address

/-- What stands behind the text is a call of its own, if it starts with a name:
neither a name nor the arguments of a host function or a builtin one are open
there. -/
inductive Spares (functions : Functions) : Quoting → Text → Text → Prop where
  | done {quoting : Quoting} {out : Text}
      (apart : quoting = .outside → EndsName out) :
      Spares functions quoting out []
  | char {quoting : Quoting} {out rest : Text} {c : Char}
      (plain : startsCall quoting out c = false)
      (others : Spares functions (quoting.step c) (c :: out) rest) :
      Spares functions quoting out (c :: rest)
  | closed {quoting : Quoting} {out rest inner after : Text} {c : Char}
      (starts : startsCall quoting out c = true)
      (spanned : spanCall 0 .outside rest = some (inner, after))
      (behind : ∀ call, functions.call (nameAfter out) inner = .ok call →
        Spares functions .outside
          (call.value.reverse ++ out.drop (nameAfter out).length) after) :
      Spares functions quoting out (c :: rest)
  | address {quoting : Quoting} {out rest : Text} {c : Char}
      (starts : startsCall quoting out c = true)
      (unclosed : spanCall 0 .outside rest = none)
      (url : Text.sameLetters (nameAfter out) "url".toList = true) :
      Spares functions quoting out (c :: rest)
  | arguments {quoting : Quoting} {out rest : Text} {c : Char}
      (starts : startsCall quoting out c = true)
      (unclosed : spanCall 0 .outside rest = none)
      (transparent : Text.sameLetters (nameAfter out) "url".toList = false)
      (foreign : functions.host.lookup (nameAfter out) = none)
      (other : Builtin.ofName? (nameAfter out) = none)
      (inside : Spares functions .outside [] rest) :
      Spares functions quoting out (c :: rest)

/-- A text without opening parentheses is passed over. -/
theorem Spares.pass (plain : ∀ c ∈ text, c ≠ '(')
    (spares : functions.Spares (quoting.after text)
      (text.reverse ++ out) rest) :
    functions.Spares quoting out (text ++ rest) := by
  induction text generalizing quoting out with
  | nil => exact spares
  | cons c text ih =>
      have passed : startsCall quoting out c = false := by
        simp [startsCall, plain c (by simp)]
      apply Spares.char passed
      apply ih
      · intro d member
        exact plain d (by simp [member])
      · rwa [List.reverse_cons, List.append_assoc] at spares

theorem Spares.framed (spares : functions.Spares quoting out text)
    (marked : quoting.Marked) (back : Text) :
    ∃ setting, ∀ address : Address, Framed address setting
      (functions.resolveAfter quoting out
        (text ++ (address.text ++ back))) := by
  induction spares generalizing back with
  | @done quoting out apart =>
      obtain ⟨setting, framed⟩ :=
        framed_behind functions quoting.pastCall [] out back
      refine ⟨setting, ?_⟩
      intro address
      rw [List.nil_append, resolveAfter_address address marked apart]
      exact framed address
  | @char quoting out rest c plain others ih =>
      obtain ⟨setting, framed⟩ := ih (marked.step c) back
      refine ⟨setting, ?_⟩
      intro address
      rw [List.cons_append, resolveAfter_char _ plain]
      exact framed address
  | @closed quoting out rest inner after c starts spanned behind ih =>
      obtain ⟨rfl, enclosed⟩ := spanCall_eq_some_enclosed.mp spanned
      have spans (address : Address) :
          spanCall 0 .outside
            (inner ++ ')' :: after ++ (address.text ++ back)) =
            some (inner, after ++ (address.text ++ back)) := by
        rw [List.append_assoc, List.cons_append]
        exact spanCall_enclosed enclosed _
      cases called : functions.call (nameAfter out) inner with
      | error error =>
          refine ⟨none, ?_⟩
          intro address
          rw [List.cons_append,
            resolveAfter_call _ starts (spans address), called]
          exact .failed error
      | ok call =>
          obtain ⟨setting, framed⟩ := ih call called trivial back
          refine ⟨setting.map (Setting.report call.unknown), ?_⟩
          intro address
          rw [List.cons_append,
            resolveAfter_call _ starts (spans address), called]
          dsimp only
          rw [resolveBehind_eq]
          exact (framed address).report call.unknown
  | @address quoting out rest c starts unclosed url =>
      apply framed_around starts unclosed
      intro first
      refine ⟨some ⟨nameAfter out ++ '(' :: rest, first ++ [')'], []⟩, ?_⟩
      intro address
      have value : kept (nameAfter out) (rest ++ (address.text ++ first)) =
          nameAfter out ++ '(' :: rest ++
            (address.text ++ (first ++ [')'])) := by
        simp [kept]
      rw [call, if_pos url, value]
      exact .shown _
  | @arguments quoting out rest c starts unclosed transparent foreign
        other inside ih =>
      apply framed_around starts unclosed
      intro first
      obtain ⟨argument, resolves⟩ := ih trivial first
      obtain ⟨result, calls⟩ := framed_call argument transparent foreign other
      refine ⟨result, ?_⟩
      intro address
      apply calls address
      exact resolves address

end Functions

end Stylesheet
