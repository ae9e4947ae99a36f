import Stylesheet.Proofs.Branches
import Stylesheet.Proofs.Layout

/-!
# The last semicolon of a branch

The body of a chosen branch is read without its braces, in front of what follows
the chain.  So a last declaration without a semicolon ends where what follows
lets it end.  Before a closing brace the semicolon makes no difference, nor does
it in a branch that is not chosen.  Before another declaration it does: without
it, the two are read as one.
-/

namespace Stylesheet

/-- The lead of the statement at the start of a text. -/
def Lead.ofText? : Text → Option Lead
  | [] => none
  | c :: rest => of? c rest

/-- A statement up to the boundary that it ends with. -/
structure Leads (lead : Lead) (front : Text) (stop : Char) : Prop where
  visible : ∀ c, front.head? = some c → isSpace c = false
  found : Lead.ofText? (front ++ [stop]) = some lead
  chunk : Nesting.chunk {} stop front = true

/-- Statements that have all ended, each with a semicolon or with braces of its
own.  The brace of a block ends the last statement in it, the brace of a branch
does not. -/
inductive Ended : Text → Prop where
  | nil : Ended []
  | space {c : Char} {rest : Text} (blank : isSpace c = true)
      (later : Ended rest) :
      Ended (c :: rest)
  | semicolon {lead : Lead} {front rest : Text} (leads : Leads lead front ';')
      (free : lead ≠ .condition) (later : Ended rest) :
        Ended (front ++ ';' :: rest)
  | block {front body rest : Text} (leads : Leads .other front '{')
      (whole : Complete body)
      (later : Ended rest) : Ended (front ++ '{' :: (body ++ '}' :: rest))
  | branch {front body rest : Text} (leads : Leads .condition front '{')
      (inner : Ended body)
      (later : Ended rest) : Ended (front ++ '{' :: (body ++ '}' :: rest))

namespace Leads

variable {lead : Lead} {front others rest : Text} {stop c : Char}

theorem of? (leads : Leads lead front stop)
    (split : c :: rest = front ++ stop :: others) :
    Lead.of? c rest = some lead := by
  have found := leads.found
  have noName := (Nesting.plain_of_chunk leads.chunk).1
  cases front with
  | nil =>
      obtain ⟨rfl, rfl⟩ := List.cons.inj split
      have apart : c ≠ '@' := by
        rintro rfl
        exact absurd (Nesting.chunk_top leads.chunk).2 (by decide)
      rw [Lead.of?_apart apart rest []]
      exact found
  | cons d front =>
      rw [List.cons_append] at split
      obtain ⟨rfl, rfl⟩ := List.cons.inj split
      have same :=
        @Lead.of?_front (front ++ [stop]) ⟨stop, by simp, noName⟩ c others []
      rw [List.append_nil, List.append_assoc, List.singleton_append] at same
      rw [same]
      exact found

theorem stops (leads : Leads lead front stop) (others : Text) :
    ∀ c, (front ++ stop :: others).head? = some c → isSpace c = false :=
  head_append leads.visible (Nesting.plain_of_chunk leads.chunk).2

theorem closing (leads : Leads lead front stop)
    (split : '}' :: rest = front ++ stop :: others) :
    stop = '}' := by
  cases front with
  | nil =>
      cases split
      rfl
  | cons d front =>
      cases split
      exact absurd (Nesting.chunk_cons leads.chunk).1 (by decide)

end Leads

theorem Balanced.append {first second : Text} (left : Balanced first)
    (right : Balanced second) :
    Balanced (first ++ second) := by
  refine ⟨?_, ?_⟩
  · rw [Bracing.contains_append, left.1, left.2, right.1]
    rfl
  · rw [Bracing.after_append, left.2, right.2]

theorem balanced_of_isSpace {c : Char} (space : isSpace c = true) :
    Balanced [c] := by
  simp only [isSpace, Bool.or_eq_true, beq_iff_eq] at space
  rcases space with ((((rfl | rfl) | rfl) | rfl) | rfl) | rfl
  all_goals decide

theorem Balanced.braces {body : Text} (balanced : Balanced body) :
    Balanced ('{' :: (body ++ ['}'])) := by
  refine ⟨(contained_group (balanced.group [])).braces, ?_⟩
  have deeper : Bracing.after ⟨.outside, 1⟩ body = ⟨.outside, 1⟩ := by
    rw [Bracing.after_deeper balanced.1, balanced.2]
  have opened : Bracing.step {} '{' = ⟨.outside, 1⟩ := rfl
  rw [Bracing.after_cons, opened, Bracing.after_append, deeper]
  rfl

/-- A statement closes the braces of its interpolations. -/
theorem Nesting.chunk_after {nesting : Nesting} {stop : Char} {text : Text}
    (chunk : nesting.chunk stop text = true) :
    Bracing.after ⟨nesting.quoting, nesting.interpolations⟩ text = {} := by
  induction text generalizing nesting with
  | nil =>
      have top : nesting.isTop stop = true := (chunk_top chunk).1
      simpa [Standing.bracing] using bracing_of_isTop .other top 0
  | cons c rest ih =>
      obtain ⟨inside, bare, later⟩ := chunk_cons chunk
      obtain ⟨braces, -⟩ := follows_step .other inside bare 0
      simp only [Standing.bracing, Nat.zero_add] at braces
      rw [Bracing.after_cons, braces]
      exact ih later

theorem Leads.balanced {lead : Lead} {front : Text} {stop : Char}
    (leads : Leads lead front stop) :
    Balanced front :=
  ⟨Nesting.chunk_contains leads.chunk, Nesting.chunk_after leads.chunk⟩

theorem Complete.balanced {body : Text} (whole : Complete body) :
    Balanced body := by
  obtain ⟨contents, others, split, group, following, -⟩ :=
    @complete_cut .between [] [] .block _ whole
  obtain ⟨-, rfl⟩ := complete_nil following
  obtain rfl : body = contents := by simpa using split
  exact ⟨(spanGroup_braces group).2, (spanGroup_braces group).1⟩

namespace Ended

variable {first second text : Text}

theorem append (ended : Ended first) (following : Ended second) :
    Ended (first ++ second) := by
  induction ended with
  | nil => exact following
  | space blank _ ih => exact .space blank ih
  | semicolon leads free _ ih =>
      rw [List.append_assoc]
      exact .semicolon leads free ih
  | block leads whole _ ih =>
      rw [List.append_assoc, List.cons_append, List.append_assoc]
      exact .block leads whole ih
  | branch leads inner _ _ ih =>
      rw [List.append_assoc, List.cons_append, List.append_assoc]
      exact .branch leads inner ih

theorem balanced (ended : Ended text) : Balanced text := by
  have braced {front body rest : Text} (leading : Balanced front)
      (inner : Balanced body) (later : Balanced rest) :
        Balanced (front ++ '{' :: (body ++ '}' :: rest)) := by
    have whole := leading.append (inner.braces.append later)
    simpa using whole
  induction ended with
  | nil => exact ⟨rfl, rfl⟩
  | space blank _ ih => exact (balanced_of_isSpace blank).append ih
  | semicolon leads _ _ ih =>
      have ending : Balanced [';'] := by decide
      exact leads.balanced.append (ending.append ih)
  | block leads whole _ ih => exact braced leads.balanced whole.balanced ih
  | branch leads _ _ inner ih => exact braced leads.balanced inner ih

private theorem space_split (ended : Ended text) :
    ∃ gap rest, text = gap ++ rest ∧ (∀ c ∈ gap, isSpace c = true) ∧
      (∀ c, rest.head? = some c → isSpace c = false) ∧ Ended rest := by
  induction ended with
  | nil => exact ⟨[], [], rfl, by simp, by simp, .nil⟩
  | @space c _ blank _ ih =>
      obtain ⟨gap, rest, rfl, spaces, stops, later⟩ := ih
      exact ⟨c :: gap, rest, rfl, by simpa using ⟨blank, spaces⟩, stops, later⟩
  | semicolon leads free later =>
      exact ⟨[], _, rfl, by simp, leads.stops _, .semicolon leads free later⟩
  | block leads whole later =>
      exact ⟨[], _, rfl, by simp, leads.stops _, .block leads whole later⟩
  | branch leads inner later =>
      exact ⟨[], _, rfl, by simp, leads.stops _, .branch leads inner later⟩

end Ended

/-- Behind the blocks that are open and statements that have ended comes the
final text. -/
def Leading (final : Text) (depth : Nat) (text : Text) : Prop :=
  ∃ inner outer, complete .between (List.replicate depth .block) inner =
    true ∧ Ended outer ∧
    text = inner ++ (outer ++ final)

theorem Ended.leading {text : Text} (ended : Ended text) (final : Text) :
    Leading final 0 (text ++ final) :=
  ⟨[], text, rfl, ended, rfl⟩

namespace Leading

variable {final text rest : Text} {depth : Nat} {c : Char}

/-- Outside of all blocks, statements that have ended come first. -/
theorem ended (leading : Leading final 0 text) : ∃ outer, Ended outer ∧
    text = outer ++ final := by
  obtain ⟨inner, outer, done, ended, split⟩ := leading
  obtain ⟨-, rfl⟩ := complete_nil done
  exact ⟨outer, ended, split⟩

/-- What comes first in a block is complete there. -/
theorem inBlock (leading : Leading final (depth + 1) (c :: rest)) :
    ∃ inner tail, rest = inner ++ tail ∧
      complete .between (List.replicate (depth + 1) .block)
        (c :: inner) = true ∧
      ∀ depth text,
        complete .between (List.replicate depth .block) text = true →
        Leading final depth (text ++ tail) := by
  obtain ⟨inner, outer, done, ended, split⟩ := leading
  obtain ⟨d, inner, rfl⟩ :=
    List.exists_cons_of_ne_nil
      (List.ne_nil_of_mem (closing_mem_of_complete done))
  rw [List.cons_append] at split
  obtain ⟨rfl, rfl⟩ := List.cons.inj split
  exact ⟨inner, outer ++ final, rfl, done,
    fun depth text done => ⟨text, outer, done, ended, rfl⟩⟩

theorem space (more : final ≠ [])
    (visible : ∀ c, final.head? = some c → isSpace c = false)
    (leading : Leading final depth text) :
    ∃ gap rest, text = gap ++ rest ∧ (∀ c ∈ gap, isSpace c = true) ∧
      (∀ c, rest.head? = some c → isSpace c = false) ∧ rest ≠ [] ∧
        Leading final depth rest := by
  cases depth with
  | zero =>
      obtain ⟨outer, ended, rfl⟩ := leading.ended
      obtain ⟨gap, rest, rfl, spaces, stops, later⟩ := ended.space_split
      refine ⟨gap, rest ++ final, by simp, spaces, ?_, by simp [more],
        later.leading final⟩
      cases rest with
      | nil => exact visible
      | cons c rest => exact stops
  | succ depth =>
      obtain ⟨inner, outer, done, ended, rfl⟩ := leading
      obtain ⟨gap, rest, rfl, spaces, stops, later⟩ := complete_space done
      have nonempty := List.ne_nil_of_mem (closing_mem_of_complete later)
      refine ⟨gap, rest ++ (outer ++ final), by simp, spaces, ?_,
        by simp [nonempty], rest, outer, later, ended, rfl⟩
      obtain ⟨c, rest, rfl⟩ := List.exists_cons_of_ne_nil nonempty
      exact stops

theorem closing (leading : Leading final depth ('}' :: rest)) :
    depth = 0 ∧ '}' :: rest = final ∨ ∃ outer, depth = outer + 1 ∧
      Leading final outer rest := by
  cases depth with
  | zero =>
      obtain ⟨outer, ended, split⟩ := leading.ended
      left
      cases ended with
      | nil => exact ⟨rfl, split⟩
      | space blank later =>
          obtain ⟨rfl, -⟩ := List.cons.inj split
          exact absurd blank (by decide)
      | semicolon leads free later =>
          rw [List.append_assoc] at split
          exact absurd (leads.closing split) (by decide)
      | block leads whole later =>
          rw [List.append_assoc] at split
          exact absurd (leads.closing split) (by decide)
      | branch leads inner later =>
          rw [List.append_assoc] at split
          exact absurd (leads.closing split) (by decide)
  | succ depth =>
      obtain ⟨inner, tail, rfl, done, extend⟩ := leading.inBlock
      rw [List.replicate_succ, complete, Standing.turn?_closing] at done
      exact .inr ⟨depth, rfl, extend depth inner done⟩

theorem body {body : Text} (whole : Complete body)
    (leading : Leading final depth text) :
    Leading final (depth + 1) (body ++ ['}'] ++ text) := by
  obtain ⟨inner, outer, done, ended, rfl⟩ := leading
  have joined :=
    @complete_append .between [.block] (List.replicate depth .block)
      _ _ whole done
  exact ⟨body ++ ['}'] ++ inner, outer, joined, ended, by simp⟩

/-- How the statement at the start ends. -/
def Starts (final : Text) (depth : Nat) (c : Char) (rest : Text) : Prop :=
  ∃ lead front stop others, Lead.of? c rest = some lead ∧
    c :: rest = front ++ stop :: others ∧ Nesting.chunk {} stop front = true ∧
    Ending lead (Leading final depth) (Leading final (depth + 1))
      (ClosesBranch (Leading final depth)) stop others

private theorem starts_outside {outer : Text} (ended : Ended outer)
    (visible : isSpace c = false) (split : c :: rest = outer ++ final) :
    outer = [] ∨ Starts final 0 c rest := by
  cases ended with
  | nil => exact .inl rfl
  | space blank later =>
      obtain ⟨rfl, -⟩ := List.cons.inj split
      rw [blank] at visible
      simp at visible
  | semicolon leads free later =>
      rw [List.append_assoc] at split
      exact .inr ⟨_, _, _, _, leads.of? split, split, leads.chunk,
        .semicolon free (later.leading final)⟩
  | @block front body rest leads whole later =>
      rw [List.append_assoc, List.cons_append, List.append_assoc] at split
      refine .inr
        ⟨_, _, _, _, leads.of? split, split, leads.chunk, .block rfl ?_⟩
      exact ⟨body ++ ['}'], rest, whole, later, by simp⟩
  | @branch front body rest leads inner later =>
      rw [List.append_assoc, List.cons_append, List.append_assoc] at split
      refine .inr
        ⟨_, _, _, _, leads.of? split, split, leads.chunk, .branch rfl ?_⟩
      refine ⟨body, rest ++ final, rfl, ?_, later.leading final,
        fun text leading => ?_⟩
      · exact inner.balanced.group _
      · obtain ⟨outer, ended, rfl⟩ := leading.ended
        rw [← List.append_assoc]
        exact (inner.append ended).leading final

private theorem starts_inside (visible : isSpace c = false)
    (leading : Leading final (depth + 1) (c :: rest)) :
    Starts final (depth + 1) c rest := by
  obtain ⟨inner, tail, rfl, done, extend⟩ := leading.inBlock
  obtain ⟨lead, front, stop, others, found, split, chunk, ending⟩ :=
    complete_statement visible done
  have sameLead : Lead.of? c (inner ++ tail) = some lead := by
    rcases List.mem_cons.mp (closing_mem_of_complete done) with rfl | closes
    · rw [← found]
      exact Lead.of?_apart (by decide) _ _
    · exact Lead.of?_append found closes tail
  refine ⟨lead, front, stop, others ++ tail, sameLead, ?_, chunk, ?_⟩
  · rw [← List.cons_append, split]
    simp
  cases ending with
  | semicolon free done => exact .semicolon free (extend _ _ done)
  | closing free done =>
      exact .closing free (extend (depth + 1) ('}' :: _) done)
  | block free done => exact .block free (extend (depth + 2) _ done)
  | branch condition done =>
      obtain ⟨body, behind, rfl, group, later, joins⟩ :=
        closesBranch_of_complete done
      refine .branch condition
        ⟨body, behind ++ tail, by simp, ?_, extend _ _ later, ?_⟩
      · rw [List.append_assoc]
        exact spanGroup_following group _
      · rintro text ⟨inner, outer, done, ended, rfl⟩
        exact ⟨body ++ inner, outer, joins inner done, ended, by simp⟩

theorem statement (visible : isSpace c = false)
    (leading : Leading final depth (c :: rest)) :
    depth = 0 ∧ c :: rest = final ∨ Starts final depth c rest := by
  cases depth with
  | zero =>
      obtain ⟨outer, ended, split⟩ := leading.ended
      rcases starts_outside ended visible split with rfl | starts
      · exact .inl ⟨rfl, split⟩
      · exact .inr starts
  | succ depth => exact .inr (starts_inside visible leading)

end Leading

/-- A declaration without a semicolon: `name: value`. -/
structure Declaration where
  first : Char
  rest : Text
  visible : isBlank first = false
  plain : first ≠ '@' ∧ first ≠ '$'
  chunk : Nesting.chunk {} '}' (first :: rest) = true

namespace Declaration

def text (declaration : Declaration) : Text :=
  declaration.first :: declaration.rest

theorem noSpace (declaration : Declaration) :
    isSpace declaration.first = false := by
  cases space : isSpace declaration.first with
  | false => rfl
  | true => rw [← declaration.visible, isBlank_of_isSpace space]

theorem stops (declaration : Declaration) (tail : Text) :
    ∀ c, (declaration.text ++ tail).head? = some c → isSpace c = false := by
  simpa [text] using declaration.noSpace

/-- A text with the declaration in it is not blank. -/
theorem filled (declaration : Declaration) (lead tail : Text) :
    (lead ++ (declaration.text ++ tail)).trim.isEmpty = false :=
  Text.trim_filled (by simp [text]) declaration.visible

/-- Statements that have ended, and the declaration. -/
def layout (declaration : Declaration) : Layout where
  holds := Leading declaration.text
  final := declaration.text
  directive := by simpa [text] using declaration.plain.1
  space :=
    Leading.space (by simp [text]) (by simpa [text] using declaration.noSpace)
  statement := Leading.statement
  closing := Leading.closing
  body := Leading.body

end Declaration

theorem Nesting.chunk_semicolon {nesting : Nesting} {text : Text}
    (chunk : nesting.chunk '}' text = true) :
    nesting.chunk ';' text = true := by
  induction text generalizing nesting with
  | nil =>
      have top : nesting.isTop '}' = true := (chunk_top chunk).1
      have same : nesting.isTop ';' = nesting.isTop '}' := by
        simp [isTop, isQuote]
      rw [Nesting.chunk, same, top]
      rfl
  | cons c rest ih =>
      obtain ⟨inside, bare, later⟩ := chunk_cons chunk
      rw [Nesting.chunk, inside, bare, ih later]
      rfl

/-- On the right side there is a semicolon more. -/
def Fork.semicolon (below : List Text) : Fork where
  left := []
  leftBelow := below
  right := [';']
  rightBelow := below
  deeper := Nat.le_refl _

theorem skip_past (upper : List Text) (last tail : Text) (below : List Text) :
    skip (upper.flatten ++ last).length (upper ++ (last ++ tail) :: below) =
      skip 0 (tail :: below) := by
  induction upper with
  | nil =>
      cases below with
      | nil => simp [skip]
      | cons next below =>
          by_cases more : tail = []
          · simp [skip, more]
          · have positive := List.length_pos_of_ne_nil more
            simp [skip, positive]
  | cons text upper ih =>
      obtain ⟨next, lower, same⟩ := List.exists_cons_of_ne_nil
        (show upper ++ (last ++ tail) :: below ≠ [] by simp)
      rw [← ih, List.cons_append, same, skip, if_neg (by simp), ← same]
      congr 1
      simp

theorem Cursor.Shares.behind {below : List Text} {text : Text}
    {cursor other : Cursor}
    (shares : Shares (.semicolon below) text cursor other) :
    (cursor.advanceBy text.length).Alike
      (other.advanceBy (text.length + 1)) := by
  obtain ⟨upper, last, rfl, left, right⟩ := shares.layers
  refine alike_of_layers (ready_advanceBy shares.ready _)
    (ready_advanceBy shares.shown _) ?_
  have ended := skip_past upper last [] below
  have passed := skip_past upper (last ++ [';']) [] below
  have length : (upper.flatten ++ (last ++ [';'])).length =
      (upper.flatten ++ last).length + 1 := by
    simp [Nat.add_assoc]
  rw [length, List.append_nil] at passed
  rw [layers_advanceBy shares.ready, layers_advanceBy shares.shown, left, right]
  exact ended.trans passed.symm

/-- Behind the declaration, in front of its semicolon on the right side only. -/
structure Behind (rest : Text) (state other : State) : Prop where
  left : state.At ('}' :: rest)
  right : other.At (';' :: '}' :: rest)
  alike : state.Alike (other.pass 1)

theorem Behind.shares (rest : Text) : SharesSheet (Behind rest) where
  scopes behind := behind.alike.scopes
  resolved behind scopes log record :=
    { left := behind.left.noting scopes log
      right := behind.right.noting scopes record
      alike := { behind.alike with scopes := rfl } }
  sheet behind := behind.alike.sheet
  printed behind _ :=
    { left := ⟨behind.left.ready, behind.left.pending⟩
      right := ⟨behind.right.ready, behind.right.pending⟩
      alike := { behind.alike with sheet := rfl } }

namespace Compile

variable {environment : Environment} {declaration : Declaration}
  {below : List Text} {rest : Text} {blocks : List Block}

theorem lockstep_readLast (brace : below.flatten = '}' :: rest) :
    Lockstep (.semicolon below) (reading (Reader.readUntil [';', '}']))
      (reading (Reader.readUntil [';', '}']))
        (Twins (.semicolon below) declaration.text blocks)
      fun raw shown state other =>
        raw = declaration.text ∧ shown = declaration.text ∧
          Behind rest state other := by
  intro state other twins
  have ended := declaration.chunk
  have passed := Nesting.chunk_semicolon ended
  have left : state.At (declaration.text ++ '}' :: rest) := brace ▸ twins.left
  have right : other.At (declaration.text ++ ';' :: '}' :: rest) :=
    brace ▸ twins.right
  rw [reading_readUntil left
    (Nesting.chunk_spans ended boundary_of_end rfl rest)
      (Nesting.chunk_closed ended),
    reading_readUntil right (Nesting.chunk_spans passed boundary_of_end rfl _)
      (Nesting.chunk_closed passed)]
  refine ⟨rfl, rfl, left.pass, right.pass, ?_⟩
  rw [State.pass_pass]
  exact { twins with
    blocks := twins.blocks.trans twins.others.symm
    cursor := twins.cursor.behind }

theorem lockstep_lastSemicolon :
    Lockstep (.semicolon below) (reading (Reader.skipChar ';'))
      (reading (Reader.skipChar ';')) (Behind rest) fun _ _ => State.Alike := by
  intro state other behind
  have missing : state.cursor.isAt ';' = false := behind.left.not_isAt (by simp)
  have none : reading (Reader.skipChar ';') state = .ok ⟨⟩ state := by
    simp [reading, Reader.skipChar, missing]
  rw [none, reading_skipChar behind.right]
  exact behind.alike

theorem lockstep_lastDeclaration (brace : below.flatten = '}' :: rest) :
    Lockstep (.semicolon below) (Compile.declaration environment)
      (Compile.declaration environment)
        (Twins (.semicolon below) declaration.text blocks)
      fun _ _ => State.Alike := by
  rw [declaration_eq]
  refine (lockstep_readLast brace).bind ?_
  rintro raw shown state other ⟨rfl, rfl, behind⟩
  exact lockstep_declare (Behind.shares rest)
    (fun _ _ behind => behind.alike.blocks)
    declaration.text lockstep_lastSemicolon state other behind

theorem lockstep_lastStatement (brace : below.flatten = '}' :: rest) :
    Lockstep (.semicolon below) (statement environment) (statement environment)
      (Twins (.semicolon below) declaration.text blocks) fun _ _ =>
        State.Alike := by
  refine Lockstep.getThen fun seen shown twins => ?_
  have left : seen.At (declaration.text ++ '}' :: rest) := brace ▸ twins.left
  have right : shown.At (declaration.text ++ ';' :: '}' :: rest) :=
    brace ▸ twins.right
  have ended := declaration.chunk
  rw [left.pending, right.pending, Declaration.text, ofText_chunk ended,
    ofText_chunk (Nesting.chunk_semicolon ended)]
  exact lockstep_lastDeclaration brace

/-- The step that reads the declaration leads to states that are alike. -/
theorem step_arrived (brace : below.flatten = '}' :: rest) {state other : State}
    (arrived : Arrived (.semicolon below) declaration.layout blocks
      state other) :
    Matched (.semicolon below) (fun more further next final =>
        more = true ∧ further = true ∧ next.Alike final)
      (step environment state) (step environment other) := by
  obtain ⟨gap, spaces, twins⟩ := arrived
  have plain : declaration.first ∉ ['}', ';', '$', '@'] := by
    have inside := (Nesting.chunk_cons declaration.chunk).1
    have closing : declaration.first ≠ '}' := by
      intro same
      rw [same] at inside
      exact absurd inside (by decide)
    have semicolon : declaration.first ≠ ';' := by
      intro same
      rw [same] at inside
      exact absurd inside (by decide)
    simp [closing, semicolon, declaration.plain]
  have standing :
      Twins (.semicolon below) declaration.text blocks (state.pass gap.length)
      (other.pass gap.length) := twins.pass (List.cons_ne_nil _ _)
  have left := twins.left
  have right := twins.right
  rw [List.append_assoc] at left right
  rw [step_skip left spaces (declaration.stops _),
    step_skip right spaces (declaration.stops _),
    step_statement standing.left declaration.noSpace plain,
    step_statement standing.right declaration.noSpace plain]
  exact ((lockstep_lastStatement brace).bind fun _ _ => Lockstep.pure
    fun _ _ alike =>
    ⟨rfl, rfl, alike⟩) _ _ standing

end Compile

/-- Runs that end in the same way: in states that are alike, or with the same
error. -/
structure SameResult (first second : Outcome × State) : Prop where
  outcome : first.1.Alike second.1
  state : first.1 = .finished → first.2.Alike second.2

theorem EndsAlike.sameResult {first second : Outcome × State}
    (alike : EndsAlike first second) :
    SameResult first second :=
  ⟨alike.outcome, fun _ => alike.state⟩

section Runs

variable {environment : Environment} {declaration : Declaration}
  {below : List Text} {state other : State}

theorem sameResult_of_step {fuel : Nat}
    (taken : Matched (.semicolon below) (fun more further next final =>
        more = true ∧ further = true ∧
          SameResult (next.run environment fuel) (final.run environment fuel))
      (Compile.step environment state) (Compile.step environment other)) :
    SameResult (state.run environment (fuel + 1))
      (other.run environment (fuel + 1)) := by
  have even (error : Error) : ¬ (Fork.semicolon below).Overflows error :=
    fun overflows => Nat.lt_irrefl _ overflows.2
  rw [State.run, State.run]
  cases left : Compile.step environment state with
  | ok more next =>
      cases right : Compile.step environment other with
      | ok further final =>
          rw [left, right] at taken
          obtain ⟨rfl, rfl, same⟩ := taken
          exact same
      | error fault final =>
          rw [left, right] at taken
          exact absurd taken (even fault)
  | error error next =>
      cases right : Compile.step environment other with
      | ok further final =>
          rw [left, right] at taken
          exact taken.elim
      | error fault final =>
          rw [left, right] at taken
          obtain rfl := taken.resolve_right (even fault)
          exact ⟨.failed rfl, fun finished => by cases finished⟩

/-- From statements that have ended and a declaration in front of a brace, the
runs go the same way with the semicolon and without. -/
theorem sameResult_within {blocks : List Block} {rest : Text}
    (brace : below.flatten = '}' :: rest) (nested : blocks ≠ [])
    (within : Compile.Within (.semicolon below) declaration.layout
      blocks state other)
    (fuel : Nat) :
    SameResult (state.run environment fuel) (other.run environment fuel) := by
  induction fuel generalizing state other with
  | zero => exact ⟨.unfinished, fun finished => by cases finished⟩
  | succ fuel ih =>
      refine @sameResult_of_step _ below _ _ _ ?_
      rcases @Compile.step_within _ environment _ _ nested _ _ within with
        arrived | matched
      · refine (Compile.step_arrived brace arrived).mono ?_
        rintro more further next final ⟨rfl, rfl, alike⟩
        exact ⟨rfl, rfl, (alike.run environment fuel).sameResult⟩
      · refine matched.mono ?_
        rintro more further next final ⟨rfl, rfl, later⟩
        exact ⟨rfl, rfl, ih later⟩

end Runs

/-- The chains differ in the body of the first branch only: it ends with a
declaration, which has a semicolon in the second chain. -/
structure Terminates (lead : Text) (declaration : Declaration)
    (chain closed : Chain) :
    Prop where
  ended : Ended lead
  body : chain.body = lead ++ declaration.text
  closedBody : closed.body = lead ++ (declaration.text ++ [';'])
  condition : closed.condition = chain.condition
  others : closed.others = chain.others
  last : closed.last = chain.last

namespace Compile

variable {environment : Environment} {declaration : Declaration} {lead : Text}
  {state other : State}

/-- Alike behind a chain, with the sources `below`. -/
structure BehindChain (below : List Text) (blocks : List Block)
    (state other : State) : Prop where
  alike : state.Alike other
  bodies : state.mixins.Bodies Complete
  blocks : state.blocks = blocks
  layers : state.cursor.layers = below

theorem lockstep_splice_apart {source shown : Source} {below : List Text}
    {blocks : List Block} (ended : Ended lead)
    (text : source.text = lead ++ declaration.text)
    (shownText : shown.text = lead ++ (declaration.text ++ [';'])) :
    Lockstep (.semicolon below) (splice source) (splice shown)
      (BehindChain below blocks)
      fun _ _ => Within (.semicolon below) declaration.layout blocks := by
  rintro state other ⟨alike, bodies, rfl, rfl⟩
  have layers : other.cursor.layers = state.cursor.layers := by
    simp only [Cursor.layers, alike.cursor.current, alike.cursor.top,
      alike.cursor.below]
  by_cases room : state.cursor.layers.length < Cursor.maxSources
  · obtain ⟨cursor, spliced, ready, pushed⟩ := splice_room source room
    obtain ⟨final, shownSpliced, shownReady, shownPushed⟩ :=
      @splice_room other shown (by rwa [layers])
    rw [spliced, shownSpliced]
    refine ⟨[], lead ++ declaration.text, ended.leading _, ?_⟩
    refine { alike with
      bodies
      others := alike.blocks.symm
      blocks := rfl
      cursor := ⟨ready, shownReady, [], lead ++ declaration.text, rfl, ?_, ?_⟩ }
    · rw [pushed, text, skip_zero_cons (by simp [Declaration.text])]
      simp [Fork.semicolon]
    · rw [shownPushed, shownText, layers, skip_zero_cons (by simp)]
      simp [Fork.semicolon]
  · have full : Cursor.maxSources ≤ state.cursor.below.length + 1 := by
      simpa [Cursor.layers] using room
    have shownFull : Cursor.maxSources ≤ other.cursor.below.length + 1 := by
      rw [← layers] at room
      simpa [Cursor.layers] using room
    rw [splice_full full, splice_full shownFull]
    exact .inl rfl

/-- The body of the branch is read in front of what follows the chain. -/
theorem step_chosen {chain closed : Chain} {rest : Text} {scopes : Scopes}
    (terminates : Terminates lead declaration chain closed)
    (here : state.At (chain.text ++ rest))
    (there : other.At (closed.text ++ rest))
    (alike : (state.pass chain.text.length).Alike
      (other.pass closed.text.length))
    (bodies : state.mixins.Bodies Complete) (ends : Ends chain.last rest)
    (holds : ask environment chain.condition state.scopes = .ok true scopes) :
    ∃ below : List Text, below.flatten = leftOver chain.last rest ∧
      Matched (.semicolon below)
        (fun more further next final => more = true ∧ further = true ∧
          Within (.semicolon below) declaration.layout state.blocks next final)
        (step environment state) (step environment other) := by
  have choice : choose environment chain.branches chain.lastBody state.scopes =
      .ok (some chain.body) scopes := by
    simp [Chain.branches, choose, holds]
  have shownChoice :
      choose environment closed.branches closed.lastBody other.scopes =
      .ok (some closed.body) scopes := by
    have same : other.scopes = state.scopes := alike.scopes.symm
    simp [Chain.branches, choose, terminates.condition, same, holds]
  obtain ⟨_, log, chosen, stepped⟩ := step_chain here ends choice
  obtain ⟨_, record, shown, shownStepped⟩ :=
    step_chain there (terminates.last ▸ ends) shownChoice
  obtain ⟨body, rfl, text⟩ := Option.map_eq_some_iff.mp chosen
  obtain ⟨shownBody, rfl, shownText⟩ := Option.map_eq_some_iff.mp shown
  rw [terminates.body] at text
  rw [terminates.closedBody] at shownText
  have splicing : spliceChosen (some body) = splice body := by
    have filled := declaration.filled lead []
    rw [List.append_nil, ← text] at filled
    simp [spliceChosen, filled]
  have shownSplicing : spliceChosen (some shownBody) = splice shownBody := by
    simp [spliceChosen, shownText, declaration.filled lead [';']]
  have further :
      (state.pass (chain.text.length + (skipped chain.last rest).length)).Alike
      (other.pass
        (closed.text.length + (skipped closed.last rest).length)) := by
    rw [terminates.last, ← State.pass_pass, ← State.pass_pass]
    exact { alike with cursor := alike.cursor.advanceBy _ }
  have passed :
      (state.pass (chain.text.length + (skipped chain.last rest).length)).At
      (leftOver chain.last rest) := by
    rw [← skipped_append_leftOver chain.last rest] at here
    rw [← State.pass_pass]
    exact here.pass.pass
  refine ⟨_, (Cursor.flatten_layers _).trans passed.pending, ?_⟩
  rw [stepped, shownStepped, splicing, shownSplicing]
  refine
    ((lockstep_splice_apart terminates.ended text shownText).bind fun _ _ =>
    Lockstep.pure fun _ _ within => ⟨rfl, rfl, within⟩) _ _ ?_
  exact ⟨State.shares_alike.resolved further scopes log record,
    bodies, rfl, rfl⟩

/-- In front of branches that are not chosen, alike behind them. -/
structure Unchosen (environment : Environment)
    (clause closing : Branch) (rest : Text) (state other : State) : Prop where
  here : state.At (clause.text ++ rest)
  there : other.At (closing.text ++ rest)
  alike : (state.pass clause.text.length).Alike (other.pass closing.text.length)
  fails : ∀ scopes,
    ask environment clause.condition state.scopes ≠ .ok true scopes

theorem lockstep_unchosen {clause closing : Branch} {rest : Text}
    {below : List Text} (same : closing.condition = clause.condition) :
    Lockstep (.semicolon below) (conditionDirective environment)
      (conditionDirective environment)
      (Unchosen environment clause closing rest) fun _ _ => State.Alike := by
  rintro state other ⟨here, there, alike, fails⟩
  have shown : ask environment closing.condition other.scopes =
      ask environment clause.condition state.scopes :=
    congrArg₂ (ask environment) same alike.scopes.symm
  rw [conditionDirective_eq, bind_apply, bind_apply]
  cases asked : ask environment clause.condition state.scopes with
  | error error scopes =>
      obtain ⟨final, refused⟩ := branch_refused here asked
      obtain ⟨last, shownRefused⟩ := branch_refused there (shown.trans asked)
      rw [refused, shownRefused]
      exact .inl rfl
  | ok holds scopes =>
      cases holds with
      | true => exact absurd asked (fails scopes)
      | false =>
          obtain ⟨_, log, -, passed⟩ := branch_asked here asked
          obtain ⟨_, record, -, shownPassed⟩ :=
            branch_asked there (shown.trans asked)
          rw [passed, shownPassed]
          exact (Lockstep.of_parallel (parallel_afterBranch environment .none)
            fun _ _ _ _ _ alike => alike) _ _
            (State.shares_alike.resolved alike scopes log record)

/-- A chain with such a branch comes first in both. -/
theorem step_unchosen {chain closed : Chain} {rest : Text} {below : List Text}
    (terminates : Terminates lead declaration chain closed)
    (here : state.At (chain.text ++ rest))
    (there : other.At (closed.text ++ rest))
    (alike : (state.pass chain.opening.length).Alike
      (other.pass closed.opening.length))
    (fails : ∀ scopes,
      ask environment chain.condition state.scopes ≠ .ok true scopes) :
    Matched (.semicolon below)
      (fun more further next final => more = true ∧ further = true ∧
        next.Alike final)
      (step environment state) (step environment other) := by
  obtain ⟨count, standing, length, stepped⟩ := @step_if environment _ _ _ here
  obtain ⟨shownCount, shownStanding, shownLength, shownStepped⟩ :=
    @step_if environment _ _ _ there
  rw [terminates.others, terminates.last] at shownStanding
  rw [Chain.text_eq, List.length_append] at length shownLength
  have opening : count + chain.toBranch.text.length =
      chain.opening.length := by omega
  have shownOpening : shownCount + closed.toBranch.text.length =
      closed.opening.length := by omega
  rw [← opening, ← shownOpening, ← State.pass_pass, ← State.pass_pass] at alike
  have unchosen : Unchosen environment chain.toBranch closed.toBranch
      (elseText chain.others chain.last ++ rest) (state.pass count)
        (other.pass shownCount) :=
    ⟨standing, shownStanding, alike, fails⟩
  rw [stepped, shownStepped]
  exact ((lockstep_unchosen terminates.condition).bind fun _ _ =>
    Lockstep.pure fun _ _ alike => ⟨rfl, rfl, alike⟩) _ _ unchosen

end Compile

/-- The last semicolon of a branch makes no difference if the branch is not
chosen, or if a closing brace is left behind the chain: the run gives the same
result, or the same error. -/
theorem last_semicolon_optional (environment : Environment)
    (chain closed : Chain) (lead : Text) (declaration : Declaration)
    (rest : Text) (state other : State)
    (terminates : Terminates lead declaration chain closed)
    (here : state.At (chain.text ++ rest))
    (there : other.At (closed.text ++ rest))
    (alike : (state.pass chain.opening.length).Alike
      (other.pass closed.opening.length))
    (nested : state.blocks ≠ []) (bodies : state.mixins.Bodies Complete)
    (ends : Ends chain.last rest)
    (closes : (∃ scopes, ask environment chain.condition state.scopes =
      .ok true scopes) →
      (leftOver chain.last rest).head? = some '}') (fuel : Nat) :
    SameResult (state.run environment fuel) (other.run environment fuel) := by
  cases fuel with
  | zero => exact ⟨.unfinished, fun finished => by cases finished⟩
  | succ fuel =>
      by_cases chosen : ∃ scopes, ask environment chain.condition state.scopes =
        .ok true scopes
      · obtain ⟨scopes, holds⟩ := chosen
        obtain ⟨tail, brace⟩ :=
          List.head?_eq_some_iff.mp (closes ⟨scopes, holds⟩)
        have behind : (state.pass chain.text.length).Alike
            (other.pass closed.text.length) := by
          rw [Chain.text_eq, Chain.text_eq, List.length_append,
            List.length_append, terminates.others, terminates.last,
            ← State.pass_pass, ← State.pass_pass]
          exact { alike with cursor := alike.cursor.advanceBy _ }
        obtain ⟨below, left, matched⟩ :=
          Compile.step_chosen terminates here there behind bodies ends holds
        refine sameResult_of_step (matched.mono ?_)
        rintro more further next final ⟨rfl, rfl, within⟩
        exact
          ⟨rfl, rfl, sameResult_within (left.trans brace) nested within fuel⟩
      · have fails : ∀ scopes,
            ask environment chain.condition state.scopes ≠ .ok true scopes :=
          fun scopes holds => chosen ⟨scopes, holds⟩
        have matched :=
          @Compile.step_unchosen environment declaration lead state other chain
          closed rest [] terminates here there alike fails
        refine sameResult_of_step (matched.mono ?_)
        rintro more further next final ⟨rfl, rfl, alike⟩
        exact ⟨rfl, rfl, (alike.run environment fuel).sameResult⟩

namespace SemicolonSample

/-- `color: $x ` -/
def declaration : Declaration where
  first := 'c'
  rest := "olor: $x ".toList
  visible := by decide
  plain := by decide
  chunk := by decide

/-- `$x: 1; ` -/
def lead : Text :=
  "$x: 1".toList ++ ';' :: [' ']

/-- `@if $on { … }` -/
def chain (body : Text) (balanced : Balanced body) : Chain where
  condition := "$on ".toList
  body
  accepted := by decide
  balanced
  gap := [' ']
  space := Sample.left.space
  apart := by decide
  visible := by decide
  others := []
  last := none

def left : Chain :=
  chain (lead ++ declaration.text) (by decide)

def right : Chain :=
  chain (lead ++ (declaration.text ++ [';'])) (by decide)

theorem terminates : Terminates lead declaration left right where
  ended := .semicolon ⟨by decide, rfl, by decide⟩ (by decide) (.space rfl .nil)
  body := rfl
  closedBody := rfl
  condition := rfl
  others := rfl
  last := rfl

theorem asked (text : Text) :
    ask {} left.condition (Sample.state text).scopes =
      .ok true Sample.counted := by
  change ask {} left.condition (Sample.state []).scopes =
    .ok true Sample.counted
  decide +kernel

theorem alike (rest : Text) :
    ((Sample.state (left.text ++ rest)).pass left.opening.length).Alike
      ((Sample.state (right.text ++ rest)).pass right.opening.length) := by
  rw [Chain.text_eq, Chain.text_eq, List.append_assoc, List.append_assoc]
  exact Sample.alike left.opening right.opening _

end SemicolonSample

theorem last_semicolon_optional_sample :
    let start (chain : Chain) := Sample.state (chain.text ++ " \x7d".toList)
    (∃ scopes, ask {} SemicolonSample.left.condition
      (start SemicolonSample.left).scopes =
      .ok true scopes) ∧
    ∀ fuel, SameResult ((start SemicolonSample.left).run {} fuel)
      ((start SemicolonSample.right).run {} fuel) :=
  ⟨⟨_, SemicolonSample.asked _⟩,
    last_semicolon_optional {} SemicolonSample.left SemicolonSample.right
      SemicolonSample.lead
      SemicolonSample.declaration " \x7d".toList _ _ SemicolonSample.terminates
      (Sample.state_at _) (Sample.state_at _) (SemicolonSample.alike _)
        (by simp [Sample.state])
      (fun _ member => by cases member) (fun _ => by decide) (fun _ => rfl)⟩

namespace SemicolonSample

/-- A declaration at the end of a branch, and another one behind the branch. -/
def sheet (ending : Text) : Text :=
  ".a \x7b @if true \x7b color: red".toList ++ ending ++
    " \x7d width: 1px; \x7d".toList

end SemicolonSample

/-- Before another declaration the semicolon makes a difference: without it, the
two become one. -/
theorem last_semicolon_needed :
    (compile 9 (SemicolonSample.sheet [])).2 =
        ".a \x7b\n\tcolor: red width: 1px;\n\x7d\n".toList ∧
      (compile 9 (SemicolonSample.sheet [';'])).2 =
        ".a \x7b\n\tcolor: red;\n\twidth: 1px;\n\x7d\n".toList := by
  decide +kernel

end Stylesheet
