import Stylesheet.Proofs.Lockstep

/-!
# Statements in a common text

A `Layout` tells which texts consist of statements that end in them, up to a
final text at which the comparison stops.  In front of such a text, states that
differ only in what is behind it take the same steps, until both arrive at the
final text.
-/

namespace Stylesheet

/-- The text closes a branch.  The body of the branch may be read in front of
every text of the kind that is behind it. -/
def ClosesBranch (holds : Text → Prop) (rest : Text) : Prop :=
  ∃ body others, rest = body ++ '}' :: others ∧
    spanGroup '{' '}' 0 .outside rest = some body ∧ holds others ∧
    ∀ text, holds text → holds (body ++ text)

/-- Texts of complete statements, with the number of blocks they close on the
way to the final text. -/
structure Layout where
  holds : (depth : Nat) → Text → Prop
  final : Text
  directive : final.head? ≠ some '@'
  space {depth : Nat} {text : Text} : holds depth text →
    ∃ gap rest, text = gap ++ rest ∧ (∀ c ∈ gap, isSpace c = true) ∧
      (∀ c, rest.head? = some c → isSpace c = false) ∧ rest ≠ [] ∧
        holds depth rest
  statement {depth : Nat} {c : Char} {rest : Text} : isSpace c = false →
    holds depth (c :: rest) → depth = 0 ∧ c :: rest = final ∨
      ∃ lead front stop others, Lead.of? c rest = some lead ∧
        c :: rest = front ++ stop :: others ∧
          Nesting.chunk {} stop front = true ∧
        Ending lead (holds depth) (holds (depth + 1))
          (ClosesBranch (holds depth)) stop others
  closing {depth : Nat} {rest : Text} : holds depth ('}' :: rest) →
    depth = 0 ∧ '}' :: rest = final ∨ ∃ outer, depth = outer + 1 ∧
      holds outer rest
  body {depth : Nat} {body text : Text} : Complete body → holds depth text →
    holds (depth + 1) (body ++ ['}'] ++ text)

theorem Ending.behind {same block branch : Text → Prop} {lead : Lead}
    {stop : Char} {rest : Text}
    (ending : Ending lead same block branch stop rest) (free : stop ≠ '{') :
    same (afterStop stop rest) := by
  cases ending with
  | semicolon _ done => exact done
  | closing _ done => exact done
  | block _ _ => exact absurd rfl free
  | branch _ _ => exact absurd rfl free

theorem closesBranch_of_complete {enclosure : Enclosure}
    {enclosures : List Enclosure} {rest : Text}
    (done : complete .between (.branch :: enclosure :: enclosures)
      rest = true) :
    ClosesBranch (complete .between (enclosure :: enclosures) · = true)
      rest := by
  obtain ⟨body, others, split, group, later, joins⟩ :=
    @complete_cut .between [] (enclosure :: enclosures) .branch rest done
  exact ⟨body, others, split, group, later, joins rfl enclosure enclosures⟩

/-- How a statement ends in a layout. -/
abbrev Layout.Ending (layout : Layout) (lead : Lead) (depth : Nat) : Char →
    Text → Prop :=
  Stylesheet.Ending lead (layout.holds depth) (layout.holds (depth + 1))
    (ClosesBranch (layout.holds depth))

namespace Layout

variable {layout : Layout} {depth : Nat} {text rest : Text}

theorem nonempty (holds : layout.holds depth text) : text ≠ [] := by
  obtain ⟨gap, rest, rfl, -, -, more, -⟩ := layout.space holds
  simp [more]

/-- The statement at the start of a text with a directive. -/
theorem statement_directive (holds : layout.holds depth ('@' :: rest)) :
    ∃ lead front stop others, Lead.of? '@' rest = some lead ∧
      rest = front ++ stop :: others ∧
        Nesting.chunk {} stop ('@' :: front) = true ∧
      layout.Ending lead depth stop others := by
  rcases layout.statement (by decide) holds with ⟨-, same⟩ |
    ⟨lead, front, stop, others, found, split, chunk, ending⟩
  · have head := layout.directive
    rw [← same] at head
    exact absurd rfl head
  · cases front with
    | nil =>
        cases split
        exact absurd (Nesting.chunk_top chunk).2 (by decide)
    | cons c front =>
        cases split
        exact ⟨lead, front, stop, others, found, rfl, chunk, ending⟩

/-- A text tells whether it starts with a directive, whatever follows it. -/
theorem settled {word : Text}
    (plain : ∀ c ∈ word, Boundary.isBoundary c = false)
    (holds : layout.holds depth text) (following : Text)
    (found : '@' :: word <+: text ++ following) :
    ∃ c tail, text = '@' :: word ++ c :: tail := by
  obtain ⟨c, rest, rfl⟩ := List.exists_cons_of_ne_nil (layout.nonempty holds)
  obtain rfl : c = '@' := by
    obtain ⟨others, same⟩ := found
    simpa using (congrArg List.head? same).symm
  obtain ⟨lead, front, stop, others, -, rfl, chunk, -⟩ :=
    layout.statement_directive holds
  have outside : stop ∉ '@' :: word := by
    intro member
    have boundary := (Nesting.chunk_top chunk).2
    rcases List.mem_cons.mp member with rfl | member
    · exact absurd boundary (by decide)
    · rw [plain stop member] at boundary
      simp at boundary
  exact settled_of_mem outside (by simp) following found

/-- A statement that starts with `@if` or `@else` has a condition and a
branch. -/
theorem condition {name : Text}
    (word : name = "if".toList ∨ name = "else".toList)
    (stops : ∀ c, rest.head? = some c → isNameChar c = false)
    (holds : layout.holds depth ('@' :: (name ++ rest))) :
    ∃ front others, rest = front ++ '{' :: others ∧
      Nesting.chunk {} '{' front = true ∧
      ClosesBranch (layout.holds depth) others := by
  have nameChars : ∀ c ∈ name, isNameChar c = true := by
    rcases word with rfl | rfl
    · decide
    · decide
  obtain ⟨lead, front, stop, others, found, split, chunk, ending⟩ :=
    layout.statement_directive holds
  have condition : lead = .condition :=
    (Lead.of?_word nameChars stops found).2.mp word
  cases ending with
  | semicolon free => exact absurd condition free
  | closing free => exact absurd condition free
  | block free => simp [condition] at free
  | branch _ later =>
      have inside : '{' ∉ name := by
        intro member
        exact absurd (nameChars _ member) (by decide)
      obtain ⟨tail, rfl, left⟩ := split_behind inside split
      refine ⟨tail, others, left, ?_, later⟩
      exact Nesting.chunk_drop
        (fun c member => idle_of_isNameChar (nameChars c member))
        (Nesting.chunk_idle (by decide) chunk)

end Layout

namespace Compile

variable {fork : Fork} {environment : Environment} {layout : Layout}
  {front rest text : Text}
  {stop : Char} {blocks : List Block} {depth bound : Nat}

/-- The chosen body may be read in front of every text that may be read here. -/
def Joins (layout : Layout) (depth : Nat) (chosen : Option Source) : Prop :=
  ∀ source, chosen = some source → ∀ text, layout.holds depth text →
    layout.holds depth (source.text ++ text)

theorem Joins.or {chosen other : Option Source}
    (first : Joins layout depth chosen) (second : Joins layout depth other) :
    Joins layout depth (chosen.or other) := by
  cases chosen with
  | none => exact second
  | some source => exact first

/-- In front of a text of fewer than `bound` characters. -/
def Bounded (fork : Fork) (layout : Layout) (depth : Nat) (bound : Nat)
    (blocks : List Block) (state other : State) : Prop :=
  ∃ text, layout.holds depth text ∧ text.length < bound ∧
    Twins fork text blocks state other

theorem Bounded.mono {short long : Nat} (fewer : short ≤ long)
    {state other : State}
    (inside : Bounded fork layout depth short blocks state other) :
    Bounded fork layout depth long blocks state other := by
  obtain ⟨text, holds, bounded, twins⟩ := inside
  exact ⟨text, holds, by omega, twins⟩

/-- A branch was read, and its body was chosen on both sides or on none. -/
def Branched (fork : Fork) (layout : Layout) (depth : Nat) (bound : Nat)
    (blocks : List Block) (chosen shown : Option Source)
    (state other : State) : Prop :=
  SameText chosen shown ∧ Joins layout depth chosen ∧
    Bounded fork layout depth bound blocks state other

theorem lockstep_branchBody (chunk : Nesting.chunk {} '{' front = true)
    (closes : ClosesBranch (layout.holds depth) rest)
    (short : (front ++ '{' :: rest).length ≤ bound) :
    Lockstep fork branchBody branchBody
      (Twins fork (front ++ '{' :: rest) blocks)
      fun source shown => Branched fork layout depth bound blocks (some source)
        (some shown) := by
  obtain ⟨body, others, rfl, group, later, joins⟩ := closes
  refine Lockstep.getThen fun seen shown _ => ?_
  cases front with
  | nil =>
      refine Lockstep.readGroup (layout.nonempty later)
        (spanGroup_following group) ?_
      refine Lockstep.pure fun state other twins =>
        ⟨.some rfl, ?_, others, later, ?_, twins⟩
      · rintro source ⟨⟩ text holds
        exact joins text holds
      · simp only [List.nil_append, List.length_cons, List.length_append]
          at short
        omega
  | cons c front =>
      have different : c ≠ '{' := by
        rintro rfl
        exact absurd (Nesting.chunk_cons chunk).1 (by decide)
      refine @Lockstep.failThen _ _ _ _ _ _ _ _ _
        (.form (.charExpected '{' (some c))) fun state following here => ?_
      have missing : state.cursor.isAt '{' = false :=
        here.not_isAt (by simpa using different)
      have current : state.cursor.current = some c := here.current
      simp [reading, Reader.readGroup, Cursor.expect, missing, current]

theorem lockstep_branch (asked : Bool)
    (chunk : Nesting.chunk {} '{' front = true)
    (closes : ClosesBranch (layout.holds depth) rest)
    (short : (front ++ '{' :: rest).length ≤ bound) :
    Lockstep fork (branch environment asked) (branch environment asked)
      (Twins fork (front ++ '{' :: rest) blocks)
      (Branched fork layout depth bound blocks) := by
  have body :
      Lockstep fork branchBody branchBody (Twins fork ('{' :: rest) blocks)
      fun source shown => Branched fork layout depth bound blocks (some source)
        (some shown) := by
    refine @lockstep_branchBody fork layout [] rest blocks depth
      bound rfl closes ?_
    simp only [List.nil_append, List.length_cons, List.length_append] at short ⊢
    omega
  have choosing (chosen : Bool) : Lockstep fork
      (do let source ← branchBody; return if chosen then some source else none)
      (do let source ← branchBody; return if chosen then some source else none)
      (Twins fork ('{' :: rest) blocks)
        (Branched fork layout depth bound blocks) := by
    refine body.bind fun source shown => Lockstep.pure
      fun state other branched => ?_
    cases chosen with
    | true => exact branched
    | false =>
        exact ⟨.none, fun _ impossible => by simp at impossible, branched.2.2⟩
  refine Lockstep.readUntil chunk boundary_of_opening rfl ?_
  refine Lockstep.getThen fun seen shown twins => ?_
  rw [twins.isAt (by simp)]
  refine Lockstep.guarded fun _ => ?_
  cases asked with
  | true =>
      exact Lockstep.still (twins_resolveValue _) fun text =>
        Lockstep.still (steady_evaluateCondition text) choosing
  | false => exact choosing false

/-- The work takes as many rounds as there are branches, so any number that is
large enough gives the same. -/
theorem lockstep_elseBranches {fuel rounds : Nat} {chosen other : Option Source}
    (enough : bound ≤ fuel) (plenty : bound ≤ rounds)
    (same : SameText chosen other) (joins : Joins layout depth chosen) :
    Lockstep fork (elseBranches environment fuel chosen)
      (elseBranches environment rounds other)
      (Bounded fork layout depth bound blocks)
      (Branched fork layout depth bound blocks) := by
  induction bound generalizing fuel rounds chosen other with
  | zero =>
      rintro state shown ⟨text, -, impossible, -⟩
      simp at impossible
  | succ bound ih =>
      obtain ⟨fuel, rfl⟩ : ∃ less, fuel = less + 1 := ⟨fuel - 1, by omega⟩
      obtain ⟨rounds, rfl⟩ : ∃ less, rounds = less + 1 := ⟨rounds - 1, by omega⟩
      rintro state shown ⟨text, holds, short, twins⟩
      obtain ⟨gap, rest, rfl, spaces, stops, more, later⟩ := layout.space holds
      rw [elseBranches, elseBranches]
      refine (Lockstep.skipGap more spaces stops ?_) state shown twins
      rw [List.length_append] at short
      refine Lockstep.skipWord more (layout.settled (by decide) later)
        (fun tail split apart => ?_) ?_
      · subst rest
        obtain ⟨front, others, rfl, chunk, inner⟩ :=
          layout.condition (.inr rfl) apart later
        have fewer : (front ++ '{' :: others).length ≤ bound := by
          rw [List.length_append] at short
          omega
        refine Lockstep.skipSpace chunk
          fun space condition split _ conditional => ?_
        subst front
        have bounded : (condition ++ '{' :: others).length ≤ bound := by
          rw [List.append_assoc, List.length_append] at fewer
          omega
        have brace : '{' ∈ condition ++ '{' :: others := by simp
        refine Lockstep.skipWord (by simp) (settled_of_mem (by decide) brace)
          (fun tail split _ => ?_) ?_
        · obtain ⟨front, rfl, rfl⟩ := split_behind (by decide) split.symm
          have few : (front ++ '{' :: others).length ≤ bound := by
            rw [List.append_assoc, List.length_append] at bounded
            omega
          have first :=
            @lockstep_branch fork environment layout _ _ blocks _ _ other.isNone
            (Nesting.chunk_drop (by decide) conditional) inner few
          rw [same.isNone]
          refine first.bind ?_
          rintro body result state shown ⟨bodies, joining, inside⟩
          refine
            ((ih (by omega) (by omega) (same.or bodies) (joins.or joining)).mono
              ?_)
            state shown inside
          rintro chosen other state shown ⟨same, joined, inside⟩
          exact ⟨same, joined, inside.mono (Nat.le_succ _)⟩
        · have last := @lockstep_branchBody fork layout _ _ blocks _ _
            conditional inner bounded
          refine last.bind fun body result => Lockstep.pure ?_
          rintro state shown ⟨bodies, joining, inside⟩
          exact ⟨same.or bodies, joins.or joining, inside.mono (Nat.le_succ _)⟩
      · exact Lockstep.pure fun state shown twins =>
          ⟨same, joins, rest, later, by omega, twins⟩

/-- In front of a text that may be read here. -/
def Inside (fork : Fork) (layout : Layout) (depth : Nat) (blocks : List Block)
    (state other : State) : Prop :=
  ∃ text, layout.holds depth text ∧ Twins fork text blocks state other

theorem Bounded.inside {state other : State}
    (bounded : Bounded fork layout depth bound blocks state other) :
    Inside fork layout depth blocks state other := by
  obtain ⟨text, holds, -, twins⟩ := bounded
  exact ⟨text, holds, twins⟩

theorem lockstep_spliceChosen {chosen shown : Option Source} :
    Lockstep fork (spliceChosen chosen) (spliceChosen shown)
      (Branched fork layout depth bound blocks chosen shown)
      fun _ _ => Inside fork layout depth blocks := by
  rintro state other ⟨same, joins, bounded⟩
  cases same with
  | none => exact bounded.inside
  | @some source shown same =>
      unfold spliceChosen
      dsimp only
      rw [← same]
      by_cases blank : source.text.trim.isEmpty = true
      · rw [if_pos blank, if_pos blank]
        exact bounded.inside
      · have nonempty : source.text ≠ [] := by
          intro empty
          rw [empty] at blank
          exact blank rfl
        rw [if_neg blank, if_neg blank]
        obtain ⟨text, holds, -, twins⟩ := bounded
        refine ((lockstep_splice same nonempty).mono fun _ _ _ _ twins => ?_)
          state other twins
        exact ⟨source.text ++ text, joins source rfl text holds, twins⟩

theorem lockstep_conditionDirective (chunk : Nesting.chunk {} '{' front = true)
    (closes : ClosesBranch (layout.holds depth) rest) :
    Lockstep fork (conditionDirective environment)
      (conditionDirective environment)
      (Twins fork (front ++ '{' :: rest) blocks)
      fun _ _ => Inside fork layout depth blocks := by
  have first :=
    @lockstep_branch fork environment layout _ _ blocks _ _ true chunk closes
    (Nat.le_refl _)
  rw [conditionDirective_eq]
  refine first.bind
    fun body shown state other ⟨same, joins, text, later, _, twins⟩ => ?_
  -- The two runs count rounds by the text they see, so they start with
  -- different numbers.
  have left : text.length + 1 ≤ state.cursor.pending.length + 1 := by
    rw [twins.left.pending, List.length_append]
    omega
  have right : text.length + 1 ≤ other.cursor.pending.length + 1 := by
    rw [twins.right.pending, List.length_append]
    omega
  have others := @lockstep_elseBranches fork environment layout blocks depth
    (text.length + 1) _ _ body shown left right same joins
  exact others.bind (fun chosen shown => lockstep_spliceChosen) state other
    ⟨text, later, Nat.lt_succ_self _, twins⟩

/-- In blocks that were opened above others, all of which are closed in the
text. -/
def Within (fork : Fork) (layout : Layout) (outer : List Block)
    (state other : State) : Prop :=
  ∃ inner : List Block,
    Inside fork layout inner.length (inner ++ outer) state other

/-- In front of the final text. -/
def Arrived (fork : Fork) (layout : Layout) (outer : List Block)
    (state other : State) : Prop :=
  ∃ gap, (∀ c ∈ gap, isSpace c = true) ∧
    Twins fork (gap ++ layout.final) outer state other

theorem lockstep_closeBlock {block : Block} (more : rest ≠ []) :
    Lockstep fork closeBlock closeBlock
      (Twins fork ('}' :: rest) (block :: blocks))
      fun _ _ => Twins fork rest blocks := by
  refine Lockstep.getThen fun seen shown twins => ?_
  rw [twins.blocks, twins.others]
  refine Lockstep.modifyThen (Twins fork ('}' :: rest) blocks)
    (fun _ _ twins => { twins with blocks := rfl, others := rfl }) ?_
  refine Lockstep.still (steady_resolving (Twins.sharesScopes fork _ _) _)
    fun _ => ?_
  intro state other twins
  have split : '}' :: rest = ['}'] ++ rest := rfl
  rw [split] at twins
  exact { twins with cursor := twins.cursor.advanceBy more }

variable {inner outer : List Block}

theorem lockstep_directive {lead : Lead} (nested : blocks ≠ [])
    (found : Lead.of? '@' (front ++ stop :: rest) = some lead)
    (chunk : Nesting.chunk {} stop ('@' :: front) = true)
    (ending : layout.Ending lead depth stop rest) :
    Lockstep fork (directive environment) (directive environment)
      (Twins fork ('@' :: (front ++ stop :: rest)) blocks)
      fun _ _ state other => Inside fork layout depth blocks state other ∨
        ∃ block,
          Inside fork layout (depth + 1) (block :: blocks) state other := by
  refine Lockstep.advance (by simp) ?_
  refine Lockstep.readName (Nesting.chunk_idle (by decide) chunk)
    fun name afterName split nameChars stops chunk => ?_
  have plain := (Nesting.plain_of_chunk chunk).1
  rw [split, List.append_assoc] at found
  obtain ⟨noImport, conditional⟩ :=
    Lead.of?_word nameChars (head_append stops plain) found
  refine Lockstep.skipSpace chunk fun gap afterGap _ _ chunk => ?_
  refine Lockstep.getThen fun seen shown twins => ?_
  have inBlock : (!blocks.isEmpty) = true := by simpa using nested
  rw [twins.blocks, twins.others, inBlock]
  by_cases mixin : name = "mixin".toList
  · rw [mixin]
    exact Lockstep.throw _
  by_cases inclusion : name = "include".toList
  · subst name
    have more : stop = ';' → rest ≠ [] := by
      rintro rfl
      exact layout.nonempty (ending.behind (by decide))
    intro state other twins
    refine (lockstep_includeDirective more).mono ?_ state other
      ⟨afterGap, chunk, twins⟩
    rintro _ _ state other ⟨free, block, body, done, twins⟩
    exact .inr ⟨block, _, layout.body done (ending.behind free), twins⟩
  by_cases condition : name = "if".toList
  · have isCondition : lead = .condition := conditional.mp (.inl condition)
    subst name
    cases ending with
    | semicolon free _ => exact absurd isCondition free
    | closing free _ => exact absurd isCondition free
    | block free _ => simp [isCondition] at free
    | branch _ closes =>
        exact (lockstep_conditionDirective chunk closes).mono
          fun _ _ _ _ inside => .inl inside
  · have others : (name == "mixin".toList) = false ∧
        (name == "include".toList) = false ∧
        (name == "import".toList) = false ∧ (name == "if".toList) = false := by
      simp only [beq_eq_false_iff_ne]
      exact ⟨mixin, inclusion, noImport, condition⟩
    simp only [others]
    exact Lockstep.throw _

/-- Both steps succeed, and lead to states in front of a text that may be
read. -/
def Goes (fork : Fork) (layout : Layout) (outer : List Block)
    (more further : Bool) (state other : State) : Prop :=
  more = true ∧ further = true ∧ Within fork layout outer state other

theorem lockstep_goes {action : Compile Unit} {before : State → State → Prop}
    (lockstep : Lockstep fork action action before
      fun _ _ state other => Within fork layout outer state other) :
    Lockstep fork (do action; return true) (do action; return true) before
      (Goes fork layout outer) :=
  lockstep.bind fun _ _ => Lockstep.pure fun _ _ within => ⟨rfl, rfl, within⟩

theorem first_of_chunk {c : Char} (inside : Boundary.isBoundary c = false)
    (chunk : Nesting.chunk {} stop front = true) {others : Text}
    (split : c :: rest = front ++ stop :: others) :
    ∃ tail, front = c :: tail ∧ rest = tail ++ stop :: others := by
  cases front with
  | nil =>
      cases split
      rw [(Nesting.chunk_top chunk).2] at inside
      simp at inside
  | cons d tail =>
      cases split
      exact ⟨tail, rfl, rfl⟩

theorem lockstep_definition {lead : Lead}
    (found : Lead.of? '$' (front ++ stop :: rest) = some lead)
    (chunk : Nesting.chunk {} stop ('$' :: front) = true)
    (ending : layout.Ending lead inner.length stop rest) :
    Lockstep fork (variableStatement environment)
      (variableStatement environment)
      (Twins fork ('$' :: (front ++ stop :: rest)) (inner ++ outer))
      fun _ _ => Within fork layout outer := by
  obtain rfl : Lead.definition = lead := by simpa [Lead.of?] using found
  cases ending with
  | semicolon _ holds =>
      refine
        (lockstep_variableStatement chunk
          (.inl ⟨rfl, layout.nonempty holds⟩)).mono ?_
      exact fun _ _ _ _ twins => ⟨inner, rest, holds, twins⟩
  | closing _ holds =>
      refine (lockstep_variableStatement chunk (.inr rfl)).mono ?_
      exact fun _ _ _ _ twins => ⟨inner, '}' :: rest, holds, twins⟩
  | block free _ => simp at free
  | branch condition _ => simp at condition

theorem lockstep_other {lead : Lead} (free : lead = .other)
    (chunk : Nesting.chunk {} stop front = true)
    (ending : layout.Ending lead inner.length stop rest) :
    Lockstep fork (statement environment) (statement environment)
      (Twins fork (front ++ stop :: rest) (inner ++ outer))
      fun _ _ => Within fork layout outer := by
  cases ending with
  | semicolon _ holds =>
      refine (lockstep_statement chunk (.inl ⟨rfl, layout.nonempty holds⟩)).mono
        ?_
      exact fun _ _ _ _ twins => ⟨inner, rest, holds, twins⟩
  | closing _ holds =>
      refine (lockstep_statement chunk (.inr rfl)).mono ?_
      exact fun _ _ _ _ twins => ⟨inner, '}' :: rest, holds, twins⟩
  | block _ holds =>
      refine (lockstep_statement_block chunk (layout.nonempty holds)).mono ?_
      exact fun _ _ _ _ ⟨block, twins⟩ => ⟨block :: inner, rest, holds, twins⟩
  | branch condition _ => simp [free] at condition

/-- A brace closes a block that was opened above the others. -/
theorem lockstep_step_closing {block : Block} {gap : Text}
    (spaces : ∀ c ∈ gap, isSpace c = true)
    (left : layout.holds inner.length rest) :
    Lockstep fork (step environment) (step environment)
      (Twins fork (gap ++ '}' :: rest) (block :: inner ++ outer))
        (Goes fork layout outer) := by
  have more : '}' :: rest ≠ [] := List.cons_ne_nil _ _
  refine Lockstep.skipGap more spaces (by simp [isSpace]) ?_
  refine Lockstep.getThen fun seen shown twins => ?_
  rw [(twins.current more).1, (twins.current more).2]
  refine lockstep_goes ((lockstep_closeBlock (layout.nonempty left)).mono ?_)
  exact fun _ _ _ _ twins => ⟨inner, rest, left, twins⟩

private theorem alone_of_chunk (chunk : Nesting.chunk {} stop front = true)
    {others : Text} (split : ';' :: rest = front ++ stop :: others) :
    front = [] ∧ stop = ';' ∧ others = rest := by
  cases front with
  | nil =>
      cases split
      exact ⟨rfl, rfl, rfl⟩
  | cons d front =>
      cases split
      exact absurd (Nesting.chunk_cons chunk).1 (by decide)

/-- A statement, up to the character that ends it. -/
theorem lockstep_step_statement (nested : outer ≠ []) {c : Char}
    {gap others : Text} {lead : Lead} (spaces : ∀ c ∈ gap, isSpace c = true)
    (visible : isSpace c = false) (unclosed : c ≠ '}')
    (found : Lead.of? c rest = some lead)
    (split : c :: rest = front ++ stop :: others)
    (chunk : Nesting.chunk {} stop front = true)
    (ending : layout.Ending lead inner.length stop others) :
    Lockstep fork (step environment) (step environment)
      (Twins fork (gap ++ c :: rest) (inner ++ outer))
        (Goes fork layout outer) := by
  have more : c :: rest ≠ [] := List.cons_ne_nil _ _
  refine Lockstep.skipGap more spaces (by simpa using visible) ?_
  refine Lockstep.getThen fun seen shown twins => ?_
  rw [(twins.current more).1, (twins.current more).2, List.head?_cons]
  by_cases semicolon : c = ';'
  · subst c
    obtain ⟨rfl, rfl, rfl⟩ := alone_of_chunk chunk split
    have left := ending.behind (by decide)
    refine Lockstep.advance (layout.nonempty left)
      (Lockstep.pure fun _ _ twins => ?_)
    exact ⟨rfl, rfl, inner, _, left, twins⟩
  by_cases definition : c = '$'
  · subst c
    obtain ⟨front, rfl, rfl⟩ := first_of_chunk (by decide) chunk split
    exact lockstep_goes (lockstep_definition found chunk ending)
  by_cases directive : c = '@'
  · subst c
    obtain ⟨front, rfl, rfl⟩ := first_of_chunk (by decide) chunk split
    have inBlock : inner ++ outer ≠ [] := by simp [nested]
    refine lockstep_goes
      ((lockstep_directive inBlock found chunk ending).mono ?_)
    rintro _ _ state other (inside | ⟨block, inside⟩)
    · exact ⟨inner, inside⟩
    · exact ⟨block :: inner, inside⟩
  · have free : lead = .other := by
      have of : Lead.of? c rest = some .other := by
        simp [Lead.of?, definition, directive]
      exact Option.some.inj (found.symm.trans of)
    rw [split]
    split
    all_goals rename_i same
    · simp at same
    · exact absurd (Option.some.inj same) unclosed
    · exact absurd (Option.some.inj same) semicolon
    · exact absurd (Option.some.inj same) definition
    · exact absurd (Option.some.inj same) directive
    · exact lockstep_goes (lockstep_other free chunk ending)

/-- States in front of a text that may be read take the same step, unless they
have arrived. -/
theorem step_within (nested : outer ≠ []) {state other : State}
    (within : Within fork layout outer state other) :
    Arrived fork layout outer state other ∨
      Matched fork (Goes fork layout outer) (step environment state)
        (step environment other) := by
  obtain ⟨inner, text, holds, twins⟩ := within
  obtain ⟨gap, rest, rfl, spaces, stops, more, later⟩ := layout.space holds
  obtain ⟨c, rest, rfl⟩ := List.exists_cons_of_ne_nil more
  have arriving (same : c :: rest = layout.final) (empty : inner.length = 0) :
      Arrived fork layout outer state other := by
    obtain rfl := List.eq_nil_of_length_eq_zero empty
    exact ⟨gap, spaces, same ▸ twins⟩
  by_cases closing : c = '}'
  · subst c
    rcases layout.closing later with ⟨empty, same⟩ | ⟨depth, same, left⟩
    · exact .inl (arriving same empty)
    · right
      cases inner with
      | nil => simp at same
      | cons block inner =>
          obtain rfl : inner.length = depth := by simpa using same
          exact lockstep_step_closing spaces left state other twins
  · rcases layout.statement (stops c rfl) later with ⟨empty, same⟩ |
      ⟨lead, front, stop, others, found, split, chunk, ending⟩
    · exact .inl (arriving same empty)
    · right
      exact lockstep_step_statement nested spaces (stops c rfl) closing found
        split chunk ending state other twins

/-- States that two runs reach on the way to the final text, with a property
that the first run keeps on that way. -/
structure Along (environment : Environment) (fork : Fork) (layout : Layout)
    (outer : List Block) (kept : State → Prop)
    (state other first second : State) : Prop where
  left : state.Reaches environment first
  right : other.Reaches environment second
  within : Within fork layout outer first second
  kept : kept first

section Runs

variable {kept : State → Prop} {state other : State} (nested : outer ≠ [])
  (keeps : ∀ first next second, kept first →
    step environment first = .ok true next →
    Within fork layout outer next second → kept next)
include nested keeps

/-- The step after states on the way. -/
theorem Along.next {first second : State}
    (along : Along environment fork layout outer kept state other
      first second) :
    Arrived fork layout outer first second ∨
      Matched fork
        (fun more further next following => more = true ∧ further = true ∧
        Along environment fork layout outer kept state other next following)
        (step environment first) (step environment second) := by
  rcases @step_within fork environment layout outer nested _ _ along.within with
    arrived | matched
  · exact .inl arrived
  · right
    cases left : step environment first with
    | ok more next =>
        cases right : step environment second with
        | ok further following =>
            rw [left, right] at matched
            obtain ⟨rfl, rfl, within⟩ := matched
            exact
              ⟨rfl, rfl, .step along.left left, .step along.right right, within,
              keeps first next following along.kept left within⟩
        | error fault final =>
            rw [left, right] at matched
            exact matched
    | error error final =>
        cases right : step environment second with
        | ok further following =>
            rw [left, right] at matched
            exact matched
        | error fault final =>
            rw [left, right] at matched
            exact matched

variable (within : Within fork layout outer state other) (start : kept state)
include within start

/-- Each state of the second run is on the way, or behind the arrival. -/
theorem along_right {last : State} (reached : other.Reaches environment last) :
    (∃ first, Along environment fork layout outer kept state other first last) ∨
      ∃ first second,
        Along environment fork layout outer kept state other first second ∧
        Arrived fork layout outer first second ∧
        second.Reaches environment last := by
  induction reached with
  | refl => exact .inl ⟨state, .refl, .refl, within, start⟩
  | @step middle last _ taken ih =>
      rcases ih with ⟨first, along⟩ | ⟨first, second, along, arrived, behind⟩
      · rcases along.next nested keeps with arrived | matched
        · exact .inr ⟨first, middle, along, arrived, .step .refl taken⟩
        · rw [taken] at matched
          cases left : step environment first with
          | ok more next =>
              rw [left] at matched
              exact .inl ⟨next, matched.2.2⟩
          | error error final =>
              rw [left] at matched
              exact matched.elim
      · exact .inr ⟨first, second, along, arrived, .step behind taken⟩

/-- Each state of the first run is on the way, or behind the arrival, unless
there are too many sources in the second run. -/
theorem along_left {last : State} (reached : state.Reaches environment last) :
    (∃ second,
      Along environment fork layout outer kept state other last second) ∨
      (∃ first second,
        Along environment fork layout outer kept state other first second ∧
        Arrived fork layout outer first second ∧
        first.Reaches environment last) ∨
      ∃ second fault final, other.Reaches environment second ∧
        step environment second = .error fault final ∧
          fork.Overflows fault := by
  induction reached with
  | refl => exact .inl ⟨other, .refl, .refl, within, start⟩
  | @step middle last _ taken ih =>
      rcases ih with ⟨second, along⟩
        | ⟨first, second, along, arrived, behind⟩ | overflowed
      · rcases along.next nested keeps with arrived | matched
        · exact .inr (.inl ⟨middle, second, along, arrived, .step .refl taken⟩)
        · rw [taken] at matched
          cases right : step environment second with
          | ok further following =>
              rw [right] at matched
              exact .inl ⟨following, matched.2.2⟩
          | error fault final =>
              rw [right] at matched
              exact .inr
                (.inr ⟨second, fault, final, along.right, right, matched⟩)
      · exact .inr (.inl ⟨first, second, along, arrived, .step behind taken⟩)
      · exact .inr (.inr overflowed)

end Runs

end Compile

end Stylesheet
