import Stylesheet.Compile.Directive

/-!
# The grammar of expressions

The grammar has one stratum for every level of operators, and one for the
operands: what stands to the left of an operator may be of the operator's own
stratum, what stands to the right of it is of a tighter one.  The parser accepts
exactly the lists of symbols that the grammar derives, with the tree that they
are derived for; every other list is refused.
-/

namespace Stylesheet.Expr

/-- The strata of the grammar, those of the loosest operators first. -/
inductive Stratum where
  | disjunction
  | conjunction
  | equality
  | comparison
  | sum
  | product
  | operand
  deriving DecidableEq, Repr

namespace Stratum

/-- The operators of a stratum. -/
def operators : Stratum → List Operator
  | disjunction => [.or]
  | conjunction => [.and]
  | equality => [.eq, .ne]
  | comparison => [.lt, .le, .gt, .ge]
  | sum => [.add, .sub]
  | product => [.mul, .div, .rem]
  | operand => []

/-- The next tighter stratum. -/
def tighter : Stratum → Stratum
  | disjunction => conjunction
  | conjunction => equality
  | equality => comparison
  | comparison => sum
  | sum => product
  | product => operand
  | operand => operand

/-- The place of a stratum in their order. -/
def level : Stratum → Nat
  | disjunction => 1
  | conjunction => 2
  | equality => 3
  | comparison => 4
  | sum => 5
  | product => 6
  | operand => 7

theorem one_le_level (stratum : Stratum) : 1 ≤ stratum.level := by
  cases stratum <;> decide

theorem level_injective {first second : Stratum}
    (same : first.level = second.level) :
    first = second := by
  revert same
  cases first <;> cases second <;> decide

theorem level_tighter_le (stratum : Stratum) :
    stratum.tighter.level ≤ stratum.level + 1 := by
  cases stratum <;> decide

theorem level_le_tighter (stratum : Stratum) :
    stratum.level ≤ stratum.tighter.level := by
  cases stratum <;> decide

theorem level_tighter {stratum other : Stratum}
    (looser : stratum.level < other.level) :
    stratum.tighter.level = stratum.level + 1 := by
  revert looser
  cases stratum <;> cases other <;> decide

theorem level_of_mem {stratum : Stratum} {operator : Operator}
    (member : operator ∈ stratum.operators) :
    operator.level = stratum.level := by
  revert member
  cases stratum <;> cases operator <;> decide

end Stratum

/-- The stratum that an operator belongs to. -/
def stratumOf : Operator → Stratum
  | .or => .disjunction
  | .and => .conjunction
  | .eq | .ne => .equality
  | .lt | .le | .gt | .ge => .comparison
  | .add | .sub => .sum
  | .mul | .div | .rem => .product

theorem mem_operators_stratumOf (operator : Operator) :
    operator ∈ (stratumOf operator).operators := by
  cases operator <;> decide

theorem level_stratumOf (operator : Operator) :
    (stratumOf operator).level = operator.level :=
  (Stratum.level_of_mem (mem_operators_stratumOf operator)).symm

private theorem stratumOf_of_mem {stratum : Stratum} {operator : Operator}
    (member : operator ∈ stratum.operators) : stratumOf operator = stratum := by
  apply Stratum.level_injective
  rw [level_stratumOf, Stratum.level_of_mem member]

/-- The symbols are derived for the tree in a stratum.  Operators associate to
the left; parentheses make an operand of any expression and leave no trace in
the tree. -/
inductive Derives : Stratum → List Symbol → Expr → Prop where
  | literal (value : Value) : Derives .operand [.literal value] (.literal value)
  | not {symbols : List Symbol} {tree : Expr}
      (inner : Derives .operand symbols tree) :
      Derives .operand (.not :: symbols) (.not tree)
  | negate {symbols : List Symbol} {tree : Expr}
      (inner : Derives .operand symbols tree) :
      Derives .operand (.operator .sub :: symbols) (.negate tree)
  | plus {symbols : List Symbol} {tree : Expr}
      (inner : Derives .operand symbols tree) :
      Derives .operand (.operator .add :: symbols) (.plus tree)
  | group {symbols : List Symbol} {tree : Expr}
      (inner : Derives .disjunction symbols tree) :
      Derives .operand (.opening :: (symbols ++ [.closing])) tree
  | operation {stratum : Stratum} {operator : Operator}
      {front back : List Symbol}
      {left right : Expr} (member : operator ∈ stratum.operators)
      (first : Derives stratum front left)
        (second : Derives stratum.tighter back right) :
      Derives stratum (front ++ .operator operator :: back)
        (.binary operator left right)
  | tighter {stratum : Stratum} {symbols : List Symbol} {tree : Expr}
      (inner : Derives stratum.tighter symbols tree) :
        Derives stratum symbols tree

/-- What is derived in a stratum is derived in every looser one. -/
theorem Derives.loosen {stratum looser : Stratum}
    {symbols : List Symbol} {tree : Expr}
    (derived : Derives stratum symbols tree)
    (below : looser.level ≤ stratum.level) :
    Derives looser symbols tree := by
  induction distance : stratum.level - looser.level generalizing looser with
  | zero =>
      obtain rfl : looser = stratum := Stratum.level_injective (by omega)
      exact derived
  | succ distance ih =>
      have next := Stratum.level_tighter
        (by omega : looser.level < stratum.level)
      apply Derives.tighter
      apply ih
      · omega
      · omega

/-- An expression with operators of at least the level `least` ends in front of
these symbols. -/
def Ends (least : Nat) : List Symbol → Prop
  | .not :: _ => False
  | .operator operator :: _ => operator.level < least
  | _ => True

theorem ends_operator {least : Nat} {operator : Operator}
    {symbols : List Symbol} :
    Ends least (.operator operator :: symbols) ↔ operator.level < least :=
  Iff.rfl

theorem ends_closing (least : Nat) (symbols : List Symbol) :
    Ends least (.closing :: symbols) :=
  trivial

theorem Ends.mono {least more : Nat} {symbols : List Symbol}
    (ends : Ends least symbols) (below : least ≤ more) : Ends more symbols := by
  unfold Ends at ends ⊢
  split at ends
  · contradiction
  · exact Nat.lt_of_lt_of_le ends below
  · trivial

/-- The symbols up to `rest` are derived for the tree in every stratum that a
parser for the level `least` has to take. -/
def Accepts (least : Nat) (symbols : List Symbol) (tree : Expr)
    (rest : List Symbol) : Prop :=
  Ends least rest ∧ ∃ taken, symbols = taken ++ rest ∧
    ∀ stratum : Stratum, stratum.level ≤ max 1 least →
      Derives stratum taken tree

/-- An operand is followed by the symbols `rest`. -/
def TakesOperand (symbols : List Symbol) (tree : Expr)
    (rest : List Symbol) : Prop :=
  ∃ taken, symbols = taken ++ rest ∧ Derives .operand taken tree

/-- An operand `left` that has been taken before is continued up to `rest`. -/
def Continues (least : Nat) (left : Expr) (symbols : List Symbol) (tree : Expr)
    (rest : List Symbol) : Prop :=
  ∀ (stratum : Stratum) (before : List Symbol), Derives stratum before left →
    least ≤ stratum.level → Ends (stratum.level + 1) symbols →
    Accepts least (before ++ symbols) tree rest

private theorem ends_of_parseTail {fuel least : Nat} {left tree : Expr}
    {symbols rest : List Symbol}
    (parsed : parseTail fuel least left symbols = .ok (tree, rest)) :
    Ends (Stratum.operand.level + 1) symbols := by
  unfold Ends
  split
  · cases fuel <;> simp [parseTail] at parsed
  · rename_i operator _
    cases operator <;> decide
  · trivial

/-- An operator of a level that is asked for joins what stands before it with
what is parsed behind it. -/
theorem continues_operator {least : Nat} {operator : Operator}
    {left right tree : Expr} {symbols middle rest : List Symbol}
    (asked : least ≤ operator.level)
    (second : Accepts (operator.level + 1) symbols right middle)
    (further : Continues least (.binary operator left right) middle tree rest) :
    Continues least left (.operator operator :: symbols) tree rest := by
  intro stratum before derived _ ends
  have within : operator.level ≤ stratum.level := Nat.le_of_lt_succ ends
  obtain ⟨follows, taken, rfl, operand⟩ := second
  have front : Derives (stratumOf operator) before left := by
    apply derived.loosen
    rw [level_stratumOf]
    exact within
  have back : Derives (stratumOf operator).tighter taken right := by
    apply operand
    have next := (stratumOf operator).level_tighter_le
    rw [level_stratumOf] at next
    omega
  have whole := Derives.operation (mem_operators_stratumOf operator) front back
  have result :=
    further _ _ whole (by rwa [level_stratumOf]) (by rwa [level_stratumOf])
  simpa using result

/-- What is taken so far is the result if no operator of an asked level
follows. -/
theorem continues_stop {least : Nat} {left : Expr} {symbols : List Symbol}
    (ends : Ends least symbols) :
    Continues least left symbols left symbols := by
  intro stratum before derived asked _
  refine ⟨ends, before, rfl, ?_⟩
  intro looser below
  apply derived.loosen
  have positive := stratum.one_le_level
  omega

private theorem accepts_of_operand {least : Nat}
    {symbols middle rest : List Symbol} {left tree : Expr}
    (within : least ≤ Stratum.operand.level)
    (first : TakesOperand symbols left middle)
    (ends : Ends (Stratum.operand.level + 1) middle)
    (further : Continues least left middle tree rest) :
    Accepts least symbols tree rest := by
  obtain ⟨taken, rfl, derived⟩ := first
  exact further .operand taken derived within ends

/-- A sign or `not` in front of an operand makes another operand. -/
theorem TakesOperand.signed {symbol : Symbol} {sign : Expr → Expr}
    (rule : ∀ {symbols tree}, Derives .operand symbols tree →
      Derives .operand (symbol :: symbols) (sign tree))
    {parsed : Except Fault (Expr × List Symbol)}
    {symbols rest : List Symbol} {tree : Expr}
    (inner : ∀ {tree rest}, parsed = .ok (tree, rest) →
      TakesOperand symbols tree rest)
    (found : (do let (operand, rest) ← parsed; return (sign operand, rest)) =
      .ok (tree, rest)) :
    TakesOperand (symbol :: symbols) tree rest := by
  cases parsed with
  | error fault => contradiction
  | ok result =>
      obtain ⟨operand, behind⟩ := result
      obtain ⟨rfl, rfl⟩ : sign operand = tree ∧ behind = rest := by
        simpa [bind, Except.bind, pure, Except.pure] using found
      obtain ⟨taken, rfl, derived⟩ := inner rfl
      exact ⟨symbol :: taken, rfl, rule derived⟩

/-- Parentheses around an expression make an operand. -/
theorem TakesOperand.group {least : Nat}
    {symbols rest : List Symbol} {tree : Expr}
    (inner : Accepts least symbols tree (.closing :: rest)) :
    TakesOperand (.opening :: symbols) tree rest := by
  obtain ⟨-, taken, rfl, derived⟩ := inner
  refine ⟨.opening :: (taken ++ [.closing]), by simp, ?_⟩
  apply Derives.group
  apply derived
  exact Nat.le_max_left ..

-- The three parsers call each other with less fuel, and so do their three
-- statements.
mutual

theorem accepts_parseBinary {fuel least : Nat}
    {symbols rest : List Symbol} {tree : Expr}
    (within : least ≤ Stratum.operand.level)
    (parsed : parseBinary fuel least symbols = .ok (tree, rest)) :
    Accepts least symbols tree rest := by
  cases fuel with
  | zero => contradiction
  | succ fuel =>
      rw [parseBinary] at parsed
      split at parsed
      · contradiction
      · rename_i left middle operand
        exact accepts_of_operand within (takesOperand_parseUnary operand)
          (ends_of_parseTail parsed) (continues_parseTail parsed)

theorem continues_parseTail {fuel least : Nat} {symbols rest : List Symbol}
    {left tree : Expr}
    (parsed : parseTail fuel least left symbols = .ok (tree, rest)) :
    Continues least left symbols tree rest := by
  cases fuel with
  | zero => contradiction
  | succ fuel =>
      cases symbols with
      | nil =>
          obtain ⟨rfl, rfl⟩ : left = tree ∧ [] = rest := by
            simpa [parseTail] using parsed
          exact continues_stop trivial
      | cons symbol symbols =>
          cases symbol with
          | not => contradiction
          | operator operator =>
              rw [parseTail] at parsed
              split at parsed
              · rename_i looser
                obtain ⟨rfl, rfl⟩ : left = tree ∧ _ = rest := by
                  simpa using parsed
                exact continues_stop looser
              · rename_i asked
                split at parsed
                · contradiction
                · rename_i right middle second
                  have within : operator.level + 1 ≤ Stratum.operand.level := by
                    cases operator <;> decide
                  exact continues_operator (Nat.le_of_not_lt asked)
                    (accepts_parseBinary within second)
                      (continues_parseTail parsed)
          | literal value | opening | closing =>
              obtain ⟨rfl, rfl⟩ : left = tree ∧ _ = rest := by
                simpa [parseTail] using parsed
              exact continues_stop trivial

theorem takesOperand_parseUnary {fuel : Nat}
    {symbols rest : List Symbol} {tree : Expr}
    (parsed : parseUnary fuel symbols = .ok (tree, rest)) :
    TakesOperand symbols tree rest := by
  cases fuel with
  | zero => contradiction
  | succ fuel =>
      cases symbols with
      | nil => contradiction
      | cons symbol symbols =>
          cases symbol with
          | literal value =>
              obtain ⟨rfl, rfl⟩ : .literal value = tree ∧ symbols = rest := by
                simpa [parseUnary] using parsed
              exact ⟨[.literal value], rfl, .literal value⟩
          | not => exact TakesOperand.signed .not takesOperand_parseUnary parsed
          | operator operator =>
              cases operator with
              | sub =>
                  exact TakesOperand.signed .negate
                    takesOperand_parseUnary parsed
              | add =>
                  exact TakesOperand.signed .plus takesOperand_parseUnary parsed
              | _ => contradiction
          | opening =>
              rw [parseUnary] at parsed
              split at parsed
              · contradiction
              · rename_i inner behind found
                obtain ⟨rfl, rfl⟩ : inner = tree ∧ behind = rest := by
                  simpa using parsed
                exact TakesOperand.group
                  (accepts_parseBinary (Nat.zero_le _) found)
              · contradiction
          | closing => contradiction

end

/-- With enough fuel the parser takes the symbols as an operand. -/
def ParsesOperand (taken : List Symbol) (tree : Expr) : Prop :=
  ∀ (rest : List Symbol) (fuel : Nat), 2 * (taken ++ rest).length + 1 ≤ fuel →
    parseUnary fuel (taken ++ rest) = .ok (tree, rest)

/-- With enough fuel the parser takes the symbols as an expression of the
stratum, and goes on behind them with enough fuel. -/
def Parses (stratum : Stratum) (taken : List Symbol) (tree : Expr) : Prop :=
  ∀ (least : Nat) (rest : List Symbol) (fuel : Nat), least ≤ stratum.level →
    Ends (stratum.level + 1) rest → 2 * (taken ++ rest).length + 2 ≤ fuel →
    ∃ left, 2 * rest.length + 1 ≤ left ∧
      parseBinary fuel least (taken ++ rest) = parseTail left least tree rest

theorem parseTail_stop {fuel least : Nat} {left : Expr} {symbols : List Symbol}
    (enough : 0 < fuel) (ends : Ends least symbols) :
    parseTail fuel least left symbols = .ok (left, symbols) := by
  obtain ⟨fuel, rfl⟩ := Nat.exists_eq_succ_of_ne_zero (Nat.ne_of_gt enough)
  cases symbols with
  | nil => rfl
  | cons symbol symbols =>
      cases symbol with
      | not => contradiction
      | operator operator => rw [parseTail, if_pos (ends_operator.mp ends)]
      | literal value | opening | closing => rfl

private theorem Parses.of_operand {stratum : Stratum}
    {taken : List Symbol} {tree : Expr} (operand : ParsesOperand taken tree) :
    Parses stratum taken tree := by
  intro least rest fuel _ _ enough
  obtain ⟨fuel, rfl⟩ := Nat.exists_eq_succ_of_ne_zero (by omega : fuel ≠ 0)
  refine ⟨fuel, ?_, ?_⟩
  · rw [List.length_append] at enough
    omega
  · rw [parseBinary, operand rest fuel (by omega)]

theorem ParsesOperand.signed {symbol : Symbol} {sign : Expr → Expr}
    {taken : List Symbol} {tree : Expr}
    (step : ∀ fuel symbols, parseUnary (fuel + 1) (symbol :: symbols) =
      do
    let (operand, rest) ← parseUnary fuel symbols; return (sign operand, rest))
    (inner : ParsesOperand taken tree) :
    ParsesOperand (symbol :: taken) (sign tree) := by
  intro rest fuel enough
  obtain ⟨fuel, rfl⟩ := Nat.exists_eq_succ_of_ne_zero (by omega : fuel ≠ 0)
  rw [List.cons_append, List.length_cons] at enough
  rw [List.cons_append, step, inner rest fuel (by omega)]
  rfl

theorem ParsesOperand.group {stratum : Stratum}
    {taken : List Symbol} {tree : Expr} (inner : Parses stratum taken tree) :
    ParsesOperand (.opening :: (taken ++ [.closing])) tree := by
  intro rest fuel enough
  obtain ⟨fuel, rfl⟩ := Nat.exists_eq_succ_of_ne_zero (by omega : fuel ≠ 0)
  have shape : .opening :: (taken ++ [.closing]) ++ rest =
      .opening :: (taken ++ .closing :: rest) := by simp
  rw [shape, List.length_cons] at enough
  obtain ⟨left, positive, found⟩ :=
    inner 0 (.closing :: rest) fuel (Nat.zero_le _)
      (ends_closing _ _) (by omega)
  rw [shape, parseUnary, found, parseTail_stop (by omega) (ends_closing _ _)]

theorem Parses.operation {stratum : Stratum} {operator : Operator}
    {front back : List Symbol} {left right : Expr}
    (member : operator ∈ stratum.operators) (first : Parses stratum front left)
    (second : Parses stratum.tighter back right) :
    Parses stratum (front ++ .operator operator :: back)
      (.binary operator left right) := by
  intro least rest fuel asked ends enough
  have level := Stratum.level_of_mem member
  have shape : front ++ .operator operator :: back ++ rest =
      front ++ .operator operator :: (back ++ rest) := by simp
  rw [shape] at enough ⊢
  have reached :
      Ends (stratum.level + 1) (.operator operator :: (back ++ rest)) := by
    rw [ends_operator]
    omega
  obtain ⟨between, room, taken⟩ := first least _ fuel asked reached enough
  obtain ⟨between, rfl⟩ :=
    Nat.exists_eq_succ_of_ne_zero (by omega : between ≠ 0)
  rw [List.length_cons] at room
  -- What follows the right operand ends it, whatever the stratum of the operand
  -- is.
  have tight := stratum.level_le_tighter
  have next : operator.level + 1 ≤ stratum.tighter.level := by
    rw [level]
    revert member
    cases stratum <;> simp [Stratum.operators, Stratum.level, Stratum.tighter]
  obtain ⟨last, behind, found⟩ := second (operator.level + 1) rest between next
    (ends.mono (by omega)) (by omega)
  refine ⟨between, ?_, ?_⟩
  · rw [List.length_append] at room
    omega
  · rw [taken, parseTail, if_neg (by omega), found,
      parseTail_stop (by omega) (by rwa [level])]

theorem Derives.parses {stratum : Stratum} {taken : List Symbol} {tree : Expr}
    (derived : Derives stratum taken tree) :
    Parses stratum taken tree ∧
      (stratum = .operand → ParsesOperand taken tree) := by
  have operand {stratum : Stratum} {taken : List Symbol} {tree : Expr}
      (parses : ParsesOperand taken tree) :
      Parses stratum taken tree ∧
        (stratum = .operand → ParsesOperand taken tree) :=
    ⟨.of_operand parses, fun _ => parses⟩
  induction derived with
  | literal value =>
      apply operand
      intro rest fuel enough
      obtain ⟨fuel, rfl⟩ := Nat.exists_eq_succ_of_ne_zero (by omega : fuel ≠ 0)
      rfl
  | not inner ih => exact operand (.signed (fun _ _ => rfl) (ih.2 rfl))
  | negate inner ih => exact operand (.signed (fun _ _ => rfl) (ih.2 rfl))
  | plus inner ih => exact operand (.signed (fun _ _ => rfl) (ih.2 rfl))
  | group inner ih => exact operand (.group ih.1)
  | operation member first second left right =>
      refine ⟨.operation member left.1 right.1, ?_⟩
      rintro rfl
      contradiction
  | @tighter stratum symbols tree inner ih =>
      constructor
      · intro least rest fuel asked ends enough
        have tight := stratum.level_le_tighter
        exact ih.1 least rest fuel (by omega) (ends.mono (by omega)) enough
      · rintro rfl
        exact ih.2 rfl

/-- The symbols of a tree where an expression of the stratum is wanted, with
parentheses around an operation exactly if it is of a looser stratum. -/
def written (stratum : Stratum) : Expr → List Symbol
  | .literal value => [.literal value]
  | .not operand => .not :: written .operand operand
  | .negate operand => .operator .sub :: written .operand operand
  | .plus operand => .operator .add :: written .operand operand
  | .binary operator left right =>
      let operation := written (stratumOf operator) left ++
        .operator operator :: written (stratumOf operator).tighter right
      if stratum.level ≤ (stratumOf operator).level then operation
      else .opening :: (operation ++ [.closing])

private theorem derives_written (stratum : Stratum) (tree : Expr) :
    Derives stratum (written stratum tree) tree := by
  have operand {symbols : List Symbol} {tree : Expr} {stratum : Stratum}
      (derived : Derives .operand symbols tree) :
        Derives stratum symbols tree := by
    apply derived.loosen
    cases stratum <;> decide
  induction tree generalizing stratum with
  | literal value => exact operand (.literal value)
  | not inner ih => exact operand (.not (ih .operand))
  | negate inner ih => exact operand (.negate (ih .operand))
  | plus inner ih => exact operand (.plus (ih .operand))
  | binary operator left right first second =>
      have operation := Derives.operation (mem_operators_stratumOf operator)
        (first (stratumOf operator)) (second (stratumOf operator).tighter)
      rw [written]
      split
      · rename_i within
        exact operation.loosen within
      · apply operand
        apply Derives.group
        exact operation.loosen (stratumOf operator).one_le_level

/-- Where a tighter stratum is wanted, the tree is written with the same
parentheses or with one more pair. -/
theorem written_sublist_tighter (stratum : Stratum) (tree : Expr) :
    (written stratum tree).Sublist (written stratum.tighter tree) := by
  cases tree with
  | binary operator left right =>
      have tight := stratum.level_le_tighter
      simp only [written]
      split
      · split
        · exact .refl _
        · exact .cons _ (List.sublist_append_left _ _)
      · split
        · omega
        · exact .refl _
  | _ => exact .refl _

private theorem written_sublist_group (stratum : Stratum) (tree : Expr) :
    (written stratum tree).Sublist
      (.opening :: (written .disjunction tree ++ [.closing])) := by
  cases tree with
  | binary operator left right =>
      have loosest : Stratum.disjunction.level ≤ (stratumOf operator).level :=
        (stratumOf operator).one_le_level
      simp only [written]
      rw [if_pos loosest]
      split
      · exact .cons _ (List.sublist_append_left _ _)
      · exact .refl _
  | _ => exact .cons _ (List.sublist_append_left _ _)

/-- No derivation of a tree gets by with fewer parentheses. -/
theorem Derives.written_sublist {stratum : Stratum}
    {symbols : List Symbol} {tree : Expr}
    (derived : Derives stratum symbols tree) :
    (written stratum tree).Sublist symbols := by
  induction derived with
  | literal value => exact .refl _
  | not inner ih => exact ih.cons_cons _
  | negate inner ih => exact ih.cons_cons _
  | plus inner ih => exact ih.cons_cons _
  | @group symbols tree inner ih =>
      apply (written_sublist_group .operand tree).trans
      exact (ih.append (.refl _)).cons_cons _
  | @operation stratum operator front back left right member first second
        leftIh rightIh =>
      obtain rfl := stratumOf_of_mem member
      rw [written, if_pos (Nat.le_refl _)]
      exact leftIh.append (rightIh.cons_cons _)
  | @tighter stratum symbols tree inner ih =>
      exact (written_sublist_tighter stratum tree).trans ih

theorem parseBinary_iff_derives (symbols : List Symbol) (tree : Expr)
    (spare : Nat) :
    parseBinary (2 * symbols.length + 2 + spare) 0 symbols = .ok (tree, []) ↔
      Derives .disjunction symbols tree := by
  constructor
  · intro parsed
    obtain ⟨-, taken, rfl, derived⟩ :=
      accepts_parseBinary (Nat.zero_le _) parsed
    rw [List.append_nil]
    exact derived .disjunction (Nat.le_max_left ..)
  · intro derived
    obtain ⟨left, room, found⟩ :=
      derived.parses.1 0 [] (2 * symbols.length + 2 + spare)
      (Nat.zero_le _) trivial (by rw [List.append_nil]; omega)
    rw [List.append_nil] at found
    rw [found]
    exact parseTail_stop (by omega) trivial

theorem Derives.ne_nil {stratum : Stratum} {symbols : List Symbol} {tree : Expr}
    (derived : Derives stratum symbols tree) : symbols ≠ [] := by
  induction derived with
  | tighter inner ih => exact ih
  | _ => simp

theorem ofSymbols_iff_derives (symbols : List Symbol) (tree : Expr) :
    ofSymbols symbols = .ok tree ↔ Derives .disjunction symbols tree := by
  rw [← parseBinary_iff_derives symbols tree 0, ofSymbols]
  split
  · rename_i empty
    obtain rfl := List.isEmpty_iff.mp empty
    constructor
    · intro parsed
      contradiction
    · intro parsed
      exact absurd rfl ((parseBinary_iff_derives [] tree 0).mp parsed).ne_nil
  · rw [Nat.add_zero]
    cases found : parseBinary (2 * symbols.length + 2) 0 symbols with
    | error fault => simp
    | ok result =>
        obtain ⟨shown, rest⟩ := result
        cases rest with
        | nil => simp
        | cons symbol rest => simp

private theorem parse_of_symbols {text : Text} {symbols : List Symbol}
    (read : Expr.symbols text = .ok symbols) :
    parse text = ofSymbols symbols := by
  rw [parse, read]
  rfl

private theorem evaluateCondition_of_parse {text : Text} {fault : Fault}
    (failed : parse text = .error fault) (state : State) :
    Compile.evaluateCondition text state =
      .error (.expression text.trim fault) state := by
  rw [Compile.evaluateCondition, evaluateCondition, evaluate, failed]
  rfl

/-- The parser accepts exactly what the grammar derives, and returns the tree it
is derived for.  A tree that is written with parentheses only around operations
of a looser stratum than the one wanted is parsed back, and no other way to
write it has fewer symbols.  Every list of symbols that is not derived is
refused, which is an error of the expression. -/
theorem parser_accepts_grammar :
    (∀ (symbols : List Symbol) (tree : Expr) (spare : Nat),
      parseBinary (2 * symbols.length + 2 + spare) 0 symbols = .ok (tree, []) ↔
        Derives .disjunction symbols tree) ∧
    (∀ tree : Expr, ofSymbols (written .disjunction tree) = .ok tree ∧
      ∀ symbols, Derives .disjunction symbols tree →
        (written .disjunction tree).Sublist symbols) ∧
    ∀ symbols : List Symbol, (∀ tree, ¬ Derives .disjunction symbols tree) →
      ∃ fault, ofSymbols symbols = .error fault ∧
        ∀ text, Expr.symbols text = .ok symbols → parse text = .error fault ∧
          ∀ state, Compile.evaluateCondition text state =
            .error (.expression text.trim fault) state := by
  refine ⟨parseBinary_iff_derives, ?_, ?_⟩
  · intro tree
    constructor
    · exact (ofSymbols_iff_derives _ tree).mpr
        (derives_written .disjunction tree)
    · intro symbols derived
      exact derived.written_sublist
  · intro symbols refused
    cases parsed : ofSymbols symbols with
    | ok tree =>
        exact absurd ((ofSymbols_iff_derives symbols tree).mp parsed)
          (refused tree)
    | error fault =>
        refine ⟨fault, rfl, ?_⟩
        intro text read
        have failed : parse text = .error fault := by
          rw [parse_of_symbols read, parsed]
        exact ⟨failed, evaluateCondition_of_parse failed⟩

namespace GrammarSample

/-- The symbols of `((true or false)) and null`, with a pair of parentheses more
than they need. -/
def doubled : List Symbol :=
  [.opening, .opening, .literal (.bool true), .operator .or,
    .literal (.bool false), .closing, .closing, .operator .and, .literal .null]

def tree : Expr :=
  .binary .and (.binary .or (.literal (.bool true)) (.literal (.bool false)))
    (.literal .null)

/-- The symbols of `true not null`; `not` only stands in front of an operand. -/
def misplaced : List Symbol :=
  [.literal (.bool true), .not, .literal .null]

end GrammarSample

open GrammarSample in
theorem parser_accepts_grammar_samples :
    Derives .disjunction doubled tree ∧
      ofSymbols (written .disjunction tree) = .ok tree ∧
      (written .disjunction tree).Sublist doubled ∧
      (∀ tree, ¬ Derives .disjunction misplaced tree) ∧
      Expr.symbols "true not null".toList = .ok misplaced ∧
      ∃ fault, parse "true not null".toList = .error fault := by
  have derived : Derives .disjunction doubled tree :=
    (parser_accepts_grammar.1 doubled tree 0).mp rfl
  have refused : ∀ tree, ¬ Derives .disjunction misplaced tree := by
    intro tree derived
    have parsed := (parser_accepts_grammar.1 misplaced tree 0).mpr derived
    contradiction
  have read : Expr.symbols "true not null".toList = .ok misplaced := by
    rfl
  obtain ⟨parsed, shortest⟩ := parser_accepts_grammar.2.1 tree
  obtain ⟨fault, -, fails⟩ := parser_accepts_grammar.2.2 misplaced refused
  exact ⟨derived, parsed, shortest doubled derived, refused, read, fault,
    (fails _ read).1⟩

end Stylesheet.Expr
