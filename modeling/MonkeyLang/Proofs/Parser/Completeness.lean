import Mathlib.Tactic
import MonkeyLang.Proofs.Grammar
import MonkeyLang.Proofs.Parser.Outcome

/-!
# The parser reads every sentence of the grammar

Whatever the grammar derives, the parser reads, as the tree of the derivation and without a
diagnostic, provided that what stands behind it does not go on with it. What may stand behind an
expression of a given floor is `Stops`: an operator that does not bind tighter than the floor, or
no operator at all, and no `else`. What may stand behind a statement is `Closes`: a semicolon, which
belongs to it, or anything that stops it.

The proof is by induction on the number of nested calls that are allowed. `CompleteAt` collects
what every parsing function reads at a given number, and each `..._succ` lemma derives one entry
for the next number from the entries that its function calls. Within a function the derivation is
only taken apart, never inducted on; the loops are followed by induction on the tokens that bound
their rounds. The loop over operators is `reads_climb_links`: its left operand is the tree of the
links read so far, all of which bind at least as tightly as the next one.
-/

set_option autoImplicit false

namespace MonkeyLang.Parser

open Grammar

/-! ### Lookahead -/

/-- The tokens do not go on with an expression whose operators bind tighter than `floor`. -/
def Stops (floor : Nat) (after : List Token) : Prop :=
  precedence (after.headD .endOfInput).kind ≤ floor ∧
    (after.headD .endOfInput).kind ≠ .elseWord

theorem lowest_lt_precedence_iff (kind : Kind) :
    lowest < precedence kind ↔ isContinuation kind := by
  cases kind <;> decide

theorem lowest_lt_precedence_of_isBinaryOperator {kind : Kind} (hkind : isBinaryOperator kind) :
    lowest < precedence kind := by
  rw [lowest_lt_precedence_iff, isContinuation, hkind]
  rfl

theorem precedence_lt_unaryPrecedence {kind : Kind} (hkind : isBinaryOperator kind) :
    precedence kind < unaryPrecedence := by
  cases kind <;> first | decide | cases hkind

theorem Stops.mono {floor floor' : Nat} {after : List Token} (hstops : Stops floor after)
    (hle : floor ≤ floor') : Stops floor' after :=
  ⟨hstops.1.trans hle, hstops.2⟩

/-- A closing bracket, a separator or a semicolon stops every expression. -/
theorem stops_of_kind {floor : Nat} {token : Token} {rest : List Token} (hfloor : lowest ≤ floor)
    (hkind : ¬ isContinuation token.kind) (helse : token.kind ≠ .elseWord) :
    Stops floor (token :: rest) :=
  ⟨(not_lt.mp (mt (lowest_lt_precedence_iff _).mp hkind)).trans hfloor, helse⟩

/-- What may stand behind a statement, and what is left of it behind the semicolon. -/
inductive Closes : List Token → List Token → Prop
  | semicolon {semicolon : Token} {after : List Token} :
    semicolon.kind = .semicolon → Closes (semicolon :: after) after
  | nothing {after : List Token} :
    Stops lowest after → (after.headD .endOfInput).kind ≠ .semicolon → Closes after after

theorem Closes.stops {behind after : List Token} (hcloses : Closes behind after) :
    Stops lowest behind := by
  cases hcloses with
  | semicolon hkind =>
    refine stops_of_kind le_rfl ?_ ?_ <;> rw [hkind] <;> decide
  | nothing hstops => exact hstops

theorem reads_semicolon {α : Type} {value : α} {last : Token} {behind after : List Token}
    (hcloses : Closes behind after) :
    (accept .semicolon >>= fun _ ↦ (pure value : Attempt α)).Reads (last :: behind) value
      after := by
  cases hcloses with
  | semicolon hkind => exact reads_accept_true hkind reads_pure
  | nothing hstops hkind => exact reads_accept_false hkind reads_pure

/-- The links of a chain up to the first operator that does not bind tighter than a floor, and the
others. -/
theorem exists_split_links {tokens after : List Token} {links : List Link} (floor : Nat)
    (hlinks : Links tokens links) (hstops : Stops floor after) :
    ∃ first second before behind, tokens = first ++ second ∧ links = before ++ behind ∧
      Links first before ∧ Links second behind ∧
      (∀ link ∈ before, floor < precedence link.1.kind) ∧ Stops floor (second ++ after) ∧
      ∀ link ∈ behind.head?, precedence link.1.kind ≤ floor := by
  induction links generalizing tokens with
  | nil =>
    cases hlinks
    exact ⟨[], [], [], [], rfl, rfl, .nil, .nil, nofun, hstops, nofun⟩
  | cons link rest ih =>
    cases hlinks with
    | @cons operator own others operand _ hoperator hoperand hrest =>
      by_cases htight : floor < precedence operator.kind
      · obtain ⟨first, second, before, behind, rfl, rfl, hfirst, hsecond, hbefore, hstop, hhead⟩ :=
          ih hrest
        refine ⟨operator :: (own ++ first), second, (operator, operand) :: before, behind, ?_, rfl,
          .cons hoperator hoperand hfirst, hsecond, ?_, hstop, hhead⟩
        · rw [List.cons_append, List.append_assoc]
        · rintro other (_ | ⟨_, hother⟩)
          · exact htight
          · exact hbefore other hother
      · have hloose : precedence operator.kind ≤ floor := not_lt.mp htight
        refine ⟨[], _, [], _, rfl, rfl, .nil, .cons hoperator hoperand hrest, nofun, ⟨hloose, ?_⟩,
          ?_⟩
        · intro helse
          change operator.kind = .elseWord at helse
          rw [helse] at hoperator
          cases hoperator
        · rintro other ⟨⟩
          exact hloose

/-! ### What every parsing function reads -/

/-- What the parsing functions read when `depth` nested calls are allowed. -/
structure CompleteAt (depth : Nat) : Prop where
  statement : ∀ {tokens behind after : List Token} {tree : Stmt},
    Statement tokens tree → Closes behind after →
      (statement depth).Reads (tokens ++ behind) tree after
  letStatement : ∀ {word name assign : Token} {tokens behind after : List Token} {value : Expr},
    name.kind = .identifier → assign.kind = .assign → Expression tokens value →
      Closes behind after →
        (letStatement depth).Reads (word :: name :: assign :: (tokens ++ behind))
          (.binding word.origin ⟨name.origin, name.literal⟩ value) after
  returnStatement : ∀ {word : Token} {tokens behind after : List Token} {value : Expr},
    Expression tokens value → Closes behind after →
      (returnStatement depth).Reads (word :: (tokens ++ behind)) (.returning word.origin value)
        after
  expressionStatement : ∀ {first : Token} {tokens behind after : List Token} {tree : Expr},
    Expression (first :: tokens) tree → Closes behind after →
      (expressionStatement depth).Reads (first :: (tokens ++ behind))
        (.expression first.origin tree) after
  block : ∀ {tokens after : List Token} {tree : MonkeyLang.Block},
    Grammar.Block tokens tree → (block depth).Reads (tokens ++ after) tree after
  expression : ∀ {floor : Nat} {tokens rest after : List Token} {operand : Expr}
      {links : List Link},
    Operand tokens operand → Links rest links →
      (∀ link ∈ links, floor < precedence link.1.kind) → floor ≤ unaryPrecedence →
        Stops floor after →
          (expression depth floor).Reads (tokens ++ (rest ++ after)) (chainTree operand links) after
  required : ∀ {tokens after : List Token} {tree : Expr},
    Expression tokens tree → Stops lowest after →
      (required depth).Reads (tokens ++ after) tree after
  unary : ∀ {operator : Token} {tokens after : List Token} {right : Expr},
    Operand tokens right → Stops unaryPrecedence after →
      (unary depth operator).Reads (operator :: (tokens ++ after))
        (.unary operator.origin operator.literal right) after
  binary : ∀ {operator : Token} {tokens rest after : List Token} {left operand : Expr}
      {links : List Link},
    isBinaryOperator operator.kind → Operand tokens operand → Links rest links →
      (∀ link ∈ links, precedence operator.kind < precedence link.1.kind) →
        Stops (precedence operator.kind) after →
          (binary depth operator left).Reads (operator :: (tokens ++ (rest ++ after)))
            (.binary operator.origin left operator.literal (chainTree operand links)) after
  grouped : ∀ {opening closing : Token} {inner after : List Token} {tree : Expr},
    Expression inner tree → closing.kind = .rparen →
      (grouped depth).Reads (opening :: (inner ++ closing :: after)) tree after
  conditional : ∀ {word opening closing : Token} {inner tokens after : List Token}
      {condition : Expr} {consequence : MonkeyLang.Block},
    opening.kind = .lparen → Expression inner condition → closing.kind = .rparen →
      Grammar.Block tokens consequence → (after.headD .endOfInput).kind ≠ .elseWord →
        (conditional depth word).Reads (word :: opening :: (inner ++ closing :: (tokens ++ after)))
          (.conditional word.origin condition consequence none) after
  conditionalElse : ∀ {word opening closing otherwise : Token}
      {inner first second after : List Token} {condition : Expr}
      {consequence alternative : MonkeyLang.Block},
    opening.kind = .lparen → Expression inner condition → closing.kind = .rparen →
      Grammar.Block first consequence → otherwise.kind = .elseWord →
        Grammar.Block second alternative →
          (Parser.conditional depth word).Reads
            (word :: opening :: (inner ++ closing :: (first ++ otherwise :: (second ++ after))))
            (.conditional word.origin condition consequence (some alternative)) after
  functionLiteral : ∀ {word opening closing : Token} {inner tokens after : List Token}
      {names : List Identifier} {body : MonkeyLang.Block},
    opening.kind = .lparen → Names inner names → closing.kind = .rparen →
      Grammar.Block tokens body →
        (functionLiteral depth word).Reads
          (word :: opening :: (inner ++ closing :: (tokens ++ after)))
          (.function word.origin names body) after
  items : ∀ {close : Kind} {opening closing : Token} {inner after : List Token}
      {trees : List Expr},
    ¬ isContinuation close → ¬ startsExpression close → close ≠ .elseWord → close ≠ .comma →
      Items inner trees → closing.kind = close →
        (items depth close).Reads (opening :: (inner ++ closing :: after)) trees after
  call : ∀ {opening closing : Token} {inner after : List Token} {callee : Expr}
      {arguments : List Expr},
    Items inner arguments → closing.kind = .rparen →
      (call depth opening callee).Reads (opening :: (inner ++ closing :: after))
        (.call opening.origin callee arguments) after
  arrayLiteral : ∀ {opening closing : Token} {inner after : List Token} {elements : List Expr},
    Items inner elements → closing.kind = .rbracket →
      (arrayLiteral depth opening).Reads (opening :: (inner ++ closing :: after))
        (.array opening.origin elements) after
  index : ∀ {opening closing : Token} {inner after : List Token} {left place : Expr},
    Expression inner place → closing.kind = .rbracket →
      (index depth opening left).Reads (opening :: (inner ++ closing :: after))
        (.index opening.origin left place) after
  hashLiteral : ∀ {opening closing : Token} {inner after : List Token}
      {pairs : List (Expr × Expr)},
    Pairs inner pairs → closing.kind = .rbrace →
      (hashLiteral depth opening).Reads (opening :: (inner ++ closing :: after))
        (.hash opening.origin pairs) after

/-- With no nested call allowed every parse is cut off. -/
theorem completeAt_zero : CompleteAt 0 := by
  constructor
  all_goals
    intros
    intro problems
    trivial

/-! ### Loops -/

section Lists

variable {item : Attempt Expr}
  (hitem : ∀ {tokens after : List Token} {tree : Expr},
    Expression tokens tree → Stops lowest after → item.Reads (tokens ++ after) tree after)

theorem stops_of_moreItems {tokens after : List Token} {trees : List Expr}
    (hitems : MoreItems tokens trees) (hstops : Stops lowest after) :
    Stops lowest (tokens ++ after) := by
  cases hitems with
  | nil => exact hstops
  | cons hcomma => refine stops_of_kind le_rfl ?_ ?_ <;> rw [hcomma] <;> decide

include hitem in
theorem reads_itemsAfterComma (bound : List Token) {last : Token} {tokens after : List Token}
    {trees done : List Expr} (hitems : MoreItems tokens trees) (hstops : Stops lowest after)
    (hcomma : (after.headD .endOfInput).kind ≠ .comma) (hbound : tokens.length ≤ bound.length) :
    (itemsAfterComma item bound done).Reads (last :: (tokens ++ after)) (trees.reverse ++ done)
      after := by
  induction bound generalizing last tokens trees done with
  | nil =>
    cases hitems with
    | nil => exact reads_pure
    | cons => simp at hbound
  | cons first bound ih =>
    rw [itemsAfterComma]
    cases hitems with
    | nil => exact reads_accept_false hcomma reads_pure
    | @cons comma own rest tree trees hkind htree hrest =>
      rw [List.cons_append, List.append_assoc]
      refine reads_accept_true hkind (reads_advance ?_)
      refine reads_bind (hitem htree (stops_of_moreItems hrest hstops)) fun last ↦ ?_
      rw [List.reverse_cons, List.append_assoc]
      refine ih hrest ?_
      simp only [List.length_cons, List.length_append] at hbound
      omega

include hitem in
theorem reads_pairsToBrace (bound : List Token) {last closing : Token} {tokens after : List Token}
    {pairs done : List (Expr × Expr)} (hpairs : Pairs tokens pairs)
    (hclosing : closing.kind = .rbrace) (hbound : tokens.length ≤ bound.length) :
    (pairsToBrace item bound done).Reads (last :: (tokens ++ closing :: after))
      (pairs.reverse ++ done) (closing :: after) := by
  have hcolon (colon : Token) (rest : List Token) (hkind : colon.kind = .colon) :
      Stops lowest (colon :: rest) := by
    refine stops_of_kind le_rfl ?_ ?_ <;> rw [hkind] <;> decide
  induction bound generalizing last tokens pairs done with
  | nil =>
    cases hpairs with
    | nil => exact reads_pure
    | last | cons => simp at hbound
  | cons first bound ih =>
    rw [pairsToBrace]
    refine reads_peekKind ?_
    cases hpairs with
    | nil =>
      rw [List.nil_append, List.headD_cons, if_pos hclosing]
      exact reads_pure
    | @last colon first second key value hkey hkind hvalue =>
      obtain ⟨token, rest, rfl, hstart⟩ := hkey.exists_cons
      have hbrace : token.kind ≠ .rbrace := by
        intro heq
        rw [heq] at hstart
        cases hstart
      rw [List.append_assoc, List.cons_append, List.cons_append, List.headD_cons, if_neg hbrace]
      refine reads_advance (reads_bind (hitem hkey (hcolon _ _ hkind)) fun last ↦ ?_)
      refine reads_expect hkind (reads_advance ?_)
      have hstops : Stops lowest (closing :: after) := by
        refine stops_of_kind le_rfl ?_ ?_ <;> rw [hclosing] <;> decide
      refine reads_bind (hitem hvalue hstops) fun last ↦ reads_peekKind ?_
      rw [List.headD_cons, if_neg (not_not.mpr hclosing)]
      exact ih .nil (Nat.zero_le _)
    | @cons colon comma first second rest key value pairs hkey hkind hvalue hcomma hrest =>
      obtain ⟨token, others, rfl, hstart⟩ := hkey.exists_cons
      have hbrace : token.kind ≠ .rbrace := by
        intro heq
        rw [heq] at hstart
        cases hstart
      simp only [List.append_assoc, List.cons_append, List.headD_cons]
      rw [if_neg hbrace]
      refine reads_advance (reads_bind (hitem hkey (hcolon _ _ hkind)) fun last ↦ ?_)
      refine reads_expect hkind (reads_advance ?_)
      have hstops : Stops lowest (comma :: (rest ++ closing :: after)) := by
        refine stops_of_kind le_rfl ?_ ?_ <;> rw [hcomma] <;> decide
      refine reads_bind (hitem hvalue hstops) fun last ↦ reads_peekKind ?_
      have hne : comma.kind ≠ .rbrace := by
        rw [hcomma]
        decide
      rw [List.headD_cons, if_pos hne, List.reverse_cons, List.append_assoc]
      refine reads_expect hcomma (ih hrest ?_)
      simp only [List.length_cons, List.length_append] at hbound
      omega

end Lists

theorem reads_namesAfterComma (bound : List Token) {last : Token} {tokens after : List Token}
    {names done : List Identifier} (hnames : MoreNames tokens names)
    (hcomma : (after.headD .endOfInput).kind ≠ .comma) (hbound : tokens.length ≤ bound.length) :
    (namesAfterComma bound done).Reads (last :: (tokens ++ after)) (names.reverse ++ done)
      after := by
  induction bound generalizing last tokens names done with
  | nil =>
    cases hnames with
    | nil => exact reads_pure
    | cons => simp at hbound
  | cons first bound ih =>
    rw [namesAfterComma]
    cases hnames with
    | nil => exact reads_accept_false hcomma reads_pure
    | cons hkind hname hrest =>
      refine reads_accept_true hkind (reads_expect hname (reads_current ?_))
      rw [List.reverse_cons, List.append_assoc]
      refine ih hrest ?_
      simp only [List.length_cons] at hbound
      omega

theorem reads_parameters {opening closing : Token} {tokens after : List Token}
    {names : List Identifier} (hnames : Names tokens names) (hclosing : closing.kind = .rparen) :
    parameters.Reads (opening :: (tokens ++ closing :: after)) names after := by
  rw [parameters]
  cases hnames with
  | nil => exact reads_accept_true hclosing reads_pure
  | @cons name rest names hname hrest =>
    have hparen : name.kind ≠ .rparen := by
      rw [hname]
      decide
    have hcomma : closing.kind ≠ .comma := by
      rw [hclosing]
      decide
    rw [List.cons_append]
    refine reads_accept_false hparen (reads_expect hname (reads_current (reads_remaining ?_)))
    refine reads_bind (reads_namesAfterComma _ hrest hcomma ?_) fun last ↦ ?_
    · simp only [List.length_cons, List.length_append]
      omega
    · refine reads_expect hclosing ?_
      rw [List.reverse_append, List.reverse_reverse]
      exact reads_pure

/-- A list of statements is empty, starts with a semicolon, or starts with a statement. -/
theorem statements_head_cases {tokens : List Token} {trees : List Stmt}
    (hstatements : Statements tokens trees) :
    (tokens = [] ∧ trees = []) ∨
      (∃ semicolon rest, tokens = semicolon :: rest ∧ semicolon.kind = .semicolon ∧
        Statements rest trees) ∨
      ∃ token rest, tokens = token :: rest ∧ startsStatement token.kind := by
  cases hstatements with
  | nil => exact .inl ⟨rfl, rfl⟩
  | empty hkind hrest => exact .inr (.inl ⟨_, _, rfl, hkind, hrest⟩)
  | closed hstatement | unclosed hstatement =>
    obtain ⟨token, rest, rfl, hstart⟩ := hstatement.exists_cons
    exact .inr (.inr ⟨token, _, rfl, hstart⟩)

namespace CompleteAt

variable {depth : Nat}

/-- An empty statement is skipped without a diagnostic. -/
theorem reads_empty (depth : Nat) {semicolon : Token} {rest : List Token}
    (hkind : semicolon.kind = .semicolon) :
    (Parser.statement depth).optional.Reads (semicolon :: rest) none rest := by
  intro problems
  cases depth with
  | zero => trivial
  | succ depth =>
    have hfailed : Parser.statement (depth + 1) ⟨semicolon :: rest, problems⟩ =
        .failed ⟨semicolon :: rest, problems⟩ := by
      rw [Parser.statement, current_bind_apply, Input.current_cons, hkind]
      rfl
    rw [Attempt.optional, hfailed]
    exact ⟨rfl, semicolon, rfl⟩

/-- The first round of a loop over statements: either there are none left, or one statement, perhaps
an empty one, is read, and the derivation goes on behind it. -/
theorem reads_first_statement (h : CompleteAt depth) {tokens after : List Token}
    {trees : List Stmt} (hstatements : Statements tokens trees) (hstops : Stops lowest after)
    (hafter : (after.headD .endOfInput).kind ≠ .semicolon) :
    (tokens = [] ∧ trees = []) ∨
      ∃ token others found rest trees', tokens = token :: others ∧
        (startsStatement token.kind ∨ token.kind = .semicolon) ∧
        (Parser.statement depth).optional.Reads (tokens ++ after) found (rest ++ after) ∧
        trees = found.toList ++ trees' ∧ Statements rest trees' ∧ rest.length < tokens.length := by
  cases hstatements with
  | nil => exact .inl ⟨rfl, rfl⟩
  | empty hkind hrest =>
    exact .inr ⟨_, _, none, _, _, rfl, .inr hkind, reads_empty depth hkind, rfl, hrest, by simp⟩
  | @closed semicolon own rest tree _ hstatement hkind hrest =>
    obtain ⟨token, others, rfl, hstart⟩ := hstatement.exists_cons
    refine .inr ⟨token, _, some tree, rest, _, rfl, .inl hstart, ?_, rfl, hrest, ?_⟩
    · rw [List.append_assoc]
      exact reads_optional (h.statement hstatement (.semicolon hkind))
    · simp only [List.length_cons, List.length_append]
      omega
  | @unclosed own rest tree _ hstatement hnext hrest =>
    obtain ⟨token, others, rfl, hstart⟩ := hstatement.exists_cons
    rw [List.append_assoc]
    rcases statements_head_cases hrest with ⟨rfl, rfl⟩ | ⟨semicolon, rest, rfl, hkind, hrest⟩ |
      ⟨next, rest, rfl, hkind⟩
    · refine .inr ⟨token, _, some tree, [], _, rfl, .inl hstart, ?_, rfl, .nil, by simp⟩
      exact reads_optional (h.statement hstatement (.nothing hstops hafter))
    · refine .inr ⟨token, _, some tree, rest, _, rfl, .inl hstart, ?_, rfl, hrest, ?_⟩
      · exact reads_optional (h.statement hstatement (.semicolon hkind))
      · simp only [List.length_cons, List.length_append]
        omega
    · refine .inr ⟨token, _, some tree, next :: rest, _, rfl, .inl hstart, ?_, rfl, hrest, ?_⟩
      · refine reads_optional (h.statement hstatement (.nothing ?_ ?_))
        · refine stops_of_kind le_rfl (hnext next rfl) ?_
          intro heq
          rw [heq] at hkind
          cases hkind
        · intro heq
          change next.kind = .semicolon at heq
          rw [heq] at hkind
          cases hkind
      · simp only [List.length_cons, List.length_append]
        omega

theorem reads_statementsToBrace (h : CompleteAt depth) (bound : List Token) {closing : Token}
    {tokens after : List Token} {trees done : List Stmt} (hstatements : Statements tokens trees)
    (hclosing : closing.kind = .rbrace) (hbound : tokens.length < bound.length) :
    (statementsToBrace (Parser.statement depth) bound done).Reads (tokens ++ closing :: after)
      (trees.reverse ++ done) after := by
  have hstops : Stops lowest (closing :: after) := by
    refine stops_of_kind le_rfl ?_ ?_ <;> rw [hclosing] <;> decide
  have hsemicolon : closing.kind ≠ .semicolon := by
    rw [hclosing]
    decide
  induction bound generalizing tokens trees done with
  | nil => simp at hbound
  | cons first bound ih =>
    rw [statementsToBrace]
    rcases h.reads_first_statement hstatements hstops hsemicolon with ⟨rfl, rfl⟩ |
      ⟨token, others, found, rest, trees, rfl, hkind, hreads, rfl, hrest, hlength⟩
    · refine reads_current ?_
      rw [hclosing]
      exact reads_pure
    · refine reads_current ?_
      split
      · rename_i heq
        rw [heq] at hkind
        rcases hkind with hkind | hkind <;> cases hkind
      · rename_i heq
        rw [heq] at hkind
        rcases hkind with hkind | hkind <;> cases hkind
      · refine reads_bind hreads fun last ↦ reads_advance ?_
        have hreverse : (found.toList ++ trees).reverse ++ done =
            trees.reverse ++ (found.toList ++ done) := by
          cases found <;> simp
        rw [hreverse]
        refine ih hrest ?_
        simp only [List.length_cons] at hbound hlength
        omega

/-! ### Operator chains -/

theorem reads_extend_binary (h : CompleteAt depth) {operator : Token}
    {tokens rest after : List Token} {left operand : Expr} {links : List Link}
    (hoperator : isBinaryOperator operator.kind) (hoperand : Operand tokens operand)
    (hlinks : Links rest links)
    (htight : ∀ link ∈ links, precedence operator.kind < precedence link.1.kind)
    (hstops : Stops (precedence operator.kind) after) :
    (extend depth left).Reads (operator :: (tokens ++ (rest ++ after)))
      (.binary operator.origin left operator.literal (chainTree operand links)) after := by
  rw [extend]
  refine reads_current ?_
  split
  · rename_i heq
    rw [heq] at hoperator
    cases hoperator
  · rename_i heq
    rw [heq] at hoperator
    cases hoperator
  · exact h.binary hoperator hoperand hlinks htight hstops

/-- The loop over operators. The left operand is the tree of the links read before, and none of
them binds more loosely than the next one, so each new operator goes to the root. -/
theorem reads_climb_links (h : CompleteAt depth) {floor : Nat} {after : List Token}
    {operand : Expr} (hstops : Stops floor after) (bound : List Token) {last : Token}
    {tokens : List Token} {links done : List Link} (hlinks : Links tokens links)
    (htight : ∀ link ∈ links, floor < precedence link.1.kind)
    (hdone : ∀ link ∈ done, ∀ next ∈ links.head?,
      precedence next.1.kind ≤ precedence link.1.kind)
    (hbound : tokens.length < bound.length) :
    (climb (extend depth) floor bound (chainTree operand done)).Reads (last :: (tokens ++ after))
      (chainTree operand (done ++ links)) after := by
  induction bound generalizing last tokens links done with
  | nil => simp at hbound
  | cons first bound ih =>
    rw [climb]
    refine reads_peekKind ?_
    cases hlinks with
    | nil =>
      rw [List.nil_append, if_neg (not_lt.mpr hstops.1), List.append_nil]
      exact reads_pure
    | @cons operator own rest right links hoperator hright hrest =>
      have hfloor : floor < precedence operator.kind := htight (operator, right) (.head _)
      obtain ⟨before, behind, linksBefore, linksBehind, rfl, rfl, hbefore, hbehind, htighter,
        hstop, hhead⟩ := exists_split_links (precedence operator.kind) hrest
          (hstops.mono hfloor.le)
      rw [List.cons_append, List.headD_cons, if_pos hfloor, List.append_assoc, List.append_assoc]
      refine reads_advance (reads_bind (h.reads_extend_binary hoperator hright hbefore htighter
        hstop) fun last ↦ ?_)
      have hroot : Expr.binary operator.origin (chainTree operand done) operator.literal
          (chainTree right linksBefore) =
            chainTree operand (done ++ (operator, right) :: linksBefore) :=
        (chainTree_append operand (operator, right)
          (fun link hlink ↦ hdone link hlink _ rfl) htighter).symm
      have hlist : done ++ (operator, right) :: (linksBefore ++ linksBehind) =
          (done ++ (operator, right) :: linksBefore) ++ linksBehind := by
        rw [List.append_assoc, List.cons_append]
      rw [hroot, hlist]
      refine ih hbehind (fun link hlink ↦ htight link ?_) (fun link hlink next hnext ↦ ?_) ?_
      · exact .tail _ (List.mem_append_right _ hlink)
      · have hloose := hhead next hnext
        rcases List.mem_append.mp hlink with hlink | hlink
        · exact hloose.trans (hdone link hlink _ rfl)
        · rcases List.mem_cons.mp hlink with rfl | hlink
          · exact hloose
          · exact hloose.trans (htighter link hlink).le
      · simp only [List.length_cons, List.length_append] at hbound
        omega

/-- The loop over calls and indices, which every floor lets through. -/
theorem reads_climb_suffixes (h : CompleteAt depth) {floor : Nat}
    (hfloor : floor ≤ unaryPrecedence) {after final : List Token} {tree value : Expr}
    (hnext : ∀ (bound : List Token) (last : Token), after.length < bound.length →
      (climb (extend depth) floor bound tree).Reads (last :: after) value final)
    (bound : List Token) {last : Token} {tokens : List Token} {base : Expr}
    (hsuffixes : Suffixes tokens base tree) (hbound : (tokens ++ after).length < bound.length) :
    (climb (extend depth) floor bound base).Reads (last :: (tokens ++ after)) value final := by
  induction bound generalizing last tokens base with
  | nil => simp at hbound
  | cons first bound ih =>
    cases hsuffixes with
    | nil => exact hnext _ last hbound
    | @call opening closing inner rest _ _ arguments hopening hitems hclosing hrest =>
      have htight : floor < precedence opening.kind := by
        rw [hopening]
        exact Nat.lt_succ_of_le hfloor
      have hread : (extend depth base).Reads (opening :: (inner ++ closing :: (rest ++ after)))
          (.call opening.origin base arguments) (rest ++ after) := by
        rw [extend]
        refine reads_current ?_
        rw [hopening]
        exact h.call hitems hclosing
      rw [climb, List.cons_append, List.append_assoc, List.cons_append]
      refine reads_peekKind ?_
      rw [List.headD_cons, if_pos htight]
      refine reads_advance (reads_bind hread fun last ↦ ih hrest ?_)
      simp only [List.length_cons, List.length_append] at hbound ⊢
      omega
    | @index opening closing inner rest _ place _ hopening hplace hclosing hrest =>
      have htight : floor < precedence opening.kind := by
        rw [hopening]
        exact Nat.lt_succ_of_le (Nat.le_succ_of_le hfloor)
      have hread : (extend depth base).Reads (opening :: (inner ++ closing :: (rest ++ after)))
          (.index opening.origin base place) (rest ++ after) := by
        rw [extend]
        refine reads_current ?_
        rw [hopening]
        exact h.index hplace hclosing
      rw [climb, List.cons_append, List.append_assoc, List.cons_append]
      refine reads_peekKind ?_
      rw [List.headD_cons, if_pos htight]
      refine reads_advance (reads_bind hread fun last ↦ ih hrest ?_)
      simp only [List.length_cons, List.length_append] at hbound ⊢
      omega

/-- The shortest expression at a token, without the calls and indices behind it. -/
theorem reads_start (h : CompleteAt depth) {token : Token} {tokens after : List Token}
    {base : Expr} (hprimary : Primary (token :: tokens) base)
    (helse : (after.headD .endOfInput).kind ≠ .elseWord) :
    (start depth token).Reads (token :: (tokens ++ after)) base after := by
  rw [start]
  cases hprimary with
  | identifier hkind | string hkind =>
    rw [hkind]
    exact reads_pure
  | integer hkind hread hmax =>
    simp only [hkind, integerLiteral, hread, if_pos hmax]
    exact reads_pure
  | @boolean _ value hkind hliteral =>
    have hboolean : booleanLiteral token = pure (.boolean token.origin value) := by
      rw [booleanLiteral, hliteral]
      cases value <;> rfl
    rcases hkind with hkind | hkind <;>
      · simp only [hkind, hboolean]
        exact reads_pure
  | grouped hkind hinner hclosing =>
    rw [hkind, List.append_assoc]
    exact h.grouped hinner hclosing
  | conditional hkind hopening hcondition hclosing hblock =>
    rw [hkind, List.cons_append, List.append_assoc, List.cons_append]
    exact h.conditional hopening hcondition hclosing hblock helse
  | conditionalElse hkind hopening hcondition hclosing hfirst hotherwise hsecond =>
    rw [hkind, List.cons_append, List.append_assoc, List.cons_append, List.append_assoc,
      List.cons_append]
    exact h.conditionalElse hopening hcondition hclosing hfirst hotherwise hsecond
  | function hkind hopening hnames hclosing hblock =>
    rw [hkind, List.cons_append, List.append_assoc, List.cons_append]
    exact h.functionLiteral hopening hnames hclosing hblock
  | array hkind hitems hclosing =>
    rw [hkind, List.append_assoc]
    exact h.arrayLiteral hitems hclosing
  | hash hkind hpairs hclosing =>
    rw [hkind, List.append_assoc]
    exact h.hashLiteral hpairs hclosing

/-- What stands behind an operand of a chain stops the unary operators in front of it. -/
theorem stops_of_links {floor : Nat} {tokens after : List Token} {links : List Link}
    (hlinks : Links tokens links) (hstops : Stops floor after) (hfloor : floor ≤ unaryPrecedence) :
    Stops unaryPrecedence (tokens ++ after) := by
  cases hlinks with
  | nil => exact hstops.mono hfloor
  | @cons operator _ _ _ _ hoperator =>
    refine ⟨(precedence_lt_unaryPrecedence hoperator).le, fun helse ↦ ?_⟩
    change operator.kind = .elseWord at helse
    rw [helse] at hoperator
    cases hoperator

theorem suffixes_head_ne_else {tokens after : List Token} {base tree : Expr}
    (hsuffixes : Suffixes tokens base tree)
    (helse : (after.headD .endOfInput).kind ≠ .elseWord) :
    ((tokens ++ after).headD .endOfInput).kind ≠ .elseWord := by
  cases hsuffixes with
  | nil => exact helse
  | call hopening | index hopening =>
    rw [List.cons_append, List.headD_cons, hopening]
    decide

theorem expression_succ (h : CompleteAt depth) {floor : Nat} {tokens rest after : List Token}
    {operand : Expr} {links : List Link} (hoperand : Operand tokens operand)
    (hlinks : Links rest links) (htight : ∀ link ∈ links, floor < precedence link.1.kind)
    (hfloor : floor ≤ unaryPrecedence) (hstops : Stops floor after) :
    (Parser.expression (depth + 1) floor).Reads (tokens ++ (rest ++ after))
      (chainTree operand links) after := by
  have hunary := stops_of_links hlinks hstops hfloor
  have hchain (bound : List Token) (last : Token)
      (hbound : (rest ++ after).length < bound.length) :
      (climb (extend depth) floor bound operand).Reads (last :: (rest ++ after))
        (chainTree operand links) after := by
    have hclimb : (climb (extend depth) floor bound (chainTree operand [])).Reads
        (last :: (rest ++ after)) (chainTree operand ([] ++ links)) after := by
      refine h.reads_climb_links hstops bound hlinks htight nofun ?_
      rw [List.length_append] at hbound
      omega
    rwa [chainTree_nil, List.nil_append] at hclimb
  intro problems
  rw [Parser.expression_succ]
  cases hoperand with
  | @unary operator own right hkind hright =>
    have hstart : (start depth operator).Reads (operator :: (own ++ (rest ++ after)))
        (.unary operator.origin operator.literal right) (rest ++ after) := by
      rw [start]
      rcases hkind with hkind | hkind <;>
        · rw [hkind]
          exact h.unary hright hunary
    exact reads_bind hstart (fun last ↦ reads_remaining (hchain _ last (by simp))) problems
  | @plain own suffixes base _ hprimary hsuffixes =>
    obtain ⟨token, others, rfl, -⟩ := hprimary.exists_cons
    have hstart := h.reads_start hprimary (suffixes_head_ne_else hsuffixes hunary.2)
    rw [List.append_assoc, List.cons_append]
    refine reads_bind hstart (fun last ↦ reads_remaining ?_) problems
    exact h.reads_climb_suffixes hfloor hchain _ hsuffixes (by simp)

/-- The expression without a floor, as the statements and the required expressions call it. -/
theorem reads_expression_lowest (h : CompleteAt depth) {tokens after : List Token} {tree : Expr}
    (hexpression : Expression tokens tree) (hstops : Stops lowest after) :
    (Parser.expression depth lowest).Reads (tokens ++ after) tree after := by
  cases hexpression with
  | chain hoperand hlinks =>
    rw [List.append_assoc]
    refine h.expression hoperand hlinks (fun link hlink ↦ ?_) (by decide) hstops
    exact lowest_lt_precedence_of_isBinaryOperator (isBinaryOperator_of_mem_links hlinks hlink)

theorem required_succ (h : CompleteAt depth) {tokens after : List Token} {tree : Expr}
    (hexpression : Expression tokens tree) (hstops : Stops lowest after) :
    (Parser.required (depth + 1)).Reads (tokens ++ after) tree after := by
  rw [Parser.required]
  exact reads_reportSilence (h.reads_expression_lowest hexpression hstops)

theorem unary_succ (h : CompleteAt depth) {operator : Token} {tokens after : List Token}
    {right : Expr} (hright : Operand tokens right) (hstops : Stops unaryPrecedence after) :
    (Parser.unary (depth + 1) operator).Reads (operator :: (tokens ++ after))
      (.unary operator.origin operator.literal right) after := by
  have hread : (Parser.expression depth unaryPrecedence).Reads (tokens ++ ([] ++ after))
      (chainTree right []) after :=
    h.expression hright .nil nofun le_rfl hstops
  rw [chainTree_nil, List.nil_append] at hread
  rw [Parser.unary]
  exact reads_advance (reads_bind (reads_optional hread) fun last ↦ reads_pure)

theorem binary_succ (h : CompleteAt depth) {operator : Token} {tokens rest after : List Token}
    {left operand : Expr} {links : List Link} (hoperator : isBinaryOperator operator.kind)
    (hoperand : Operand tokens operand) (hlinks : Links rest links)
    (htight : ∀ link ∈ links, precedence operator.kind < precedence link.1.kind)
    (hstops : Stops (precedence operator.kind) after) :
    (Parser.binary (depth + 1) operator left).Reads (operator :: (tokens ++ (rest ++ after)))
      (.binary operator.origin left operator.literal (chainTree operand links)) after := by
  have hread := h.expression hoperand hlinks htight
    (precedence_lt_unaryPrecedence hoperator).le hstops
  rw [Parser.binary]
  exact reads_advance (reads_bind (reads_optional hread) fun last ↦ reads_pure)

/-! ### Statements and bracketed constructs -/

theorem letStatement_succ (h : CompleteAt depth) {word name assign : Token}
    {tokens behind after : List Token} {value : Expr} (hname : name.kind = .identifier)
    (hassign : assign.kind = .assign) (hvalue : Expression tokens value)
    (hcloses : Closes behind after) :
    (Parser.letStatement (depth + 1)).Reads (word :: name :: assign :: (tokens ++ behind))
      (.binding word.origin ⟨name.origin, name.literal⟩ value) after := by
  have hread := reads_optional (h.reads_expression_lowest hvalue hcloses.stops)
  rw [Parser.letStatement]
  refine reads_current (reads_expect hname (reads_current (reads_expect hassign ?_)))
  exact reads_advance (reads_bind hread fun last ↦ reads_semicolon hcloses)

theorem returnStatement_succ (h : CompleteAt depth) {word : Token}
    {tokens behind after : List Token} {value : Expr} (hvalue : Expression tokens value)
    (hcloses : Closes behind after) :
    (Parser.returnStatement (depth + 1)).Reads (word :: (tokens ++ behind))
      (.returning word.origin value) after := by
  have hread := reads_optional (h.reads_expression_lowest hvalue hcloses.stops)
  rw [Parser.returnStatement]
  exact reads_current (reads_advance (reads_bind hread fun last ↦ reads_semicolon hcloses))

theorem expressionStatement_succ (h : CompleteAt depth) {first : Token}
    {tokens behind after : List Token} {tree : Expr} (htree : Expression (first :: tokens) tree)
    (hcloses : Closes behind after) :
    (Parser.expressionStatement (depth + 1)).Reads (first :: (tokens ++ behind))
      (.expression first.origin tree) after := by
  rw [Parser.expressionStatement]
  exact reads_current (reads_bind (h.required htree hcloses.stops) fun last ↦
    reads_semicolon hcloses)

theorem statement_succ (h : CompleteAt depth) {tokens behind after : List Token} {tree : Stmt}
    (hstatement : Statement tokens tree) (hcloses : Closes behind after) :
    (Parser.statement (depth + 1)).Reads (tokens ++ behind) tree after := by
  rw [Parser.statement]
  cases hstatement with
  | binding hword hname hassign hvalue =>
    refine reads_current ?_
    rw [hword]
    exact h.letStatement hname hassign hvalue hcloses
  | returning hword hvalue =>
    refine reads_current ?_
    rw [hword]
    exact h.returnStatement hvalue hcloses
  | @expression first others tree htree =>
    obtain ⟨token, rest, heq, hstart⟩ := htree.exists_cons
    obtain ⟨rfl, rfl⟩ := List.cons.inj heq
    have hread : (Parser.expressionStatement depth).Reads (first :: (others ++ behind))
        (.expression first.origin tree) after :=
      h.expressionStatement htree hcloses
    refine reads_current ?_
    split
    · rename_i hkind
      rw [hkind] at hstart
      cases hstart
    · rename_i hkind
      rw [hkind] at hstart
      cases hstart
    · rename_i hkind
      rw [hkind] at hstart
      cases hstart
    · exact hread

theorem block_succ (h : CompleteAt depth) {tokens after : List Token} {tree : MonkeyLang.Block}
    (hblock : Grammar.Block tokens tree) :
    (Parser.block (depth + 1)).Reads (tokens ++ after) tree after := by
  cases hblock with
  | @mk opening closing inner statements hopening hstatements hclosing =>
    rw [Parser.block, List.cons_append, List.append_assoc]
    refine reads_current (reads_advance (reads_remaining ?_))
    refine reads_bind (h.reads_statementsToBrace _ hstatements hclosing ?_) fun last ↦ ?_
    · simp
    · rw [List.append_nil, List.reverse_reverse]
      exact reads_pure

/-- A closing token of the given kind stops the expression in front of it. -/
theorem stops_rparen {closing : Token} {after : List Token} (hclosing : closing.kind = .rparen) :
    Stops lowest (closing :: after) := by
  refine stops_of_kind le_rfl ?_ ?_ <;> rw [hclosing] <;> decide

theorem grouped_succ (h : CompleteAt depth) {opening closing : Token} {inner after : List Token}
    {tree : Expr} (hinner : Expression inner tree) (hclosing : closing.kind = .rparen) :
    (Parser.grouped (depth + 1)).Reads (opening :: (inner ++ closing :: after)) tree after := by
  rw [Parser.grouped]
  refine reads_advance (reads_bind (h.required hinner (stops_rparen hclosing)) fun last ↦ ?_)
  exact reads_expect hclosing reads_pure

theorem conditional_succ (h : CompleteAt depth) {word opening closing : Token}
    {inner tokens after : List Token} {condition : Expr} {consequence : MonkeyLang.Block}
    (hopening : opening.kind = .lparen) (hcondition : Expression inner condition)
    (hclosing : closing.kind = .rparen) (hblock : Grammar.Block tokens consequence)
    (helse : (after.headD .endOfInput).kind ≠ .elseWord) :
    (Parser.conditional (depth + 1) word).Reads
      (word :: opening :: (inner ++ closing :: (tokens ++ after)))
      (.conditional word.origin condition consequence none) after := by
  rw [Parser.conditional]
  refine reads_expect hopening (reads_advance ?_)
  refine reads_bind (h.required hcondition (stops_rparen hclosing)) fun last ↦ ?_
  refine reads_expect hclosing ?_
  obtain ⟨brace, rest, rfl, hbrace⟩ := hblock.exists_cons
  refine reads_expect hbrace (reads_bind (h.block hblock) fun last ↦ ?_)
  exact reads_accept_false helse reads_pure

theorem conditionalElse_succ (h : CompleteAt depth) {word opening closing otherwise : Token}
    {inner first second after : List Token} {condition : Expr}
    {consequence alternative : MonkeyLang.Block} (hopening : opening.kind = .lparen)
    (hcondition : Expression inner condition) (hclosing : closing.kind = .rparen)
    (hfirst : Grammar.Block first consequence) (hotherwise : otherwise.kind = .elseWord)
    (hsecond : Grammar.Block second alternative) :
    (Parser.conditional (depth + 1) word).Reads
      (word :: opening :: (inner ++ closing :: (first ++ otherwise :: (second ++ after))))
      (.conditional word.origin condition consequence (some alternative)) after := by
  rw [Parser.conditional]
  refine reads_expect hopening (reads_advance ?_)
  refine reads_bind (h.required hcondition (stops_rparen hclosing)) fun last ↦ ?_
  refine reads_expect hclosing ?_
  obtain ⟨brace, rest, rfl, hbrace⟩ := hfirst.exists_cons
  refine reads_expect hbrace (reads_bind (h.block hfirst) fun last ↦ ?_)
  refine reads_accept_true hotherwise ?_
  obtain ⟨brace', rest', rfl, hbrace'⟩ := hsecond.exists_cons
  exact reads_expect hbrace' (reads_bind (h.block hsecond) fun last ↦ reads_pure)

theorem functionLiteral_succ (h : CompleteAt depth) {word opening closing : Token}
    {inner tokens after : List Token} {names : List Identifier} {body : MonkeyLang.Block}
    (hopening : opening.kind = .lparen) (hnames : Names inner names)
    (hclosing : closing.kind = .rparen) (hblock : Grammar.Block tokens body) :
    (Parser.functionLiteral (depth + 1) word).Reads
      (word :: opening :: (inner ++ closing :: (tokens ++ after)))
      (.function word.origin names body) after := by
  rw [Parser.functionLiteral]
  refine reads_expect hopening (reads_bind (reads_parameters hnames hclosing) fun last ↦ ?_)
  obtain ⟨brace, rest, rfl, hbrace⟩ := hblock.exists_cons
  exact reads_expect hbrace (reads_bind (h.block hblock) fun last ↦ reads_pure)

theorem items_succ (h : CompleteAt depth) {close : Kind} {opening closing : Token}
    {inner after : List Token} {trees : List Expr} (hcontinuation : ¬ isContinuation close)
    (hstart : ¬ startsExpression close) (helse : close ≠ .elseWord) (hcomma : close ≠ .comma)
    (hitems : Items inner trees) (hclosing : closing.kind = close) :
    (Parser.items (depth + 1) close).Reads (opening :: (inner ++ closing :: after)) trees
      after := by
  subst hclosing
  rw [Parser.items]
  cases hitems with
  | nil => exact reads_accept_true rfl reads_pure
  | @cons own rest tree trees htree hrest =>
    obtain ⟨token, others, rfl, hkind⟩ := htree.exists_cons
    have hne : token.kind ≠ closing.kind := by
      intro heq
      rw [heq] at hkind
      exact hstart hkind
    have hstops : Stops lowest (closing :: after) := stops_of_kind le_rfl hcontinuation helse
    rw [List.append_assoc]
    refine reads_accept_false hne (reads_advance ?_)
    refine reads_bind (h.required htree (stops_of_moreItems hrest hstops)) fun last ↦ ?_
    refine reads_remaining (reads_bind
      (reads_itemsAfterComma h.required _ hrest hstops hcomma ?_) fun last ↦ ?_)
    · simp only [List.length_cons, List.length_append]
      omega
    · rw [List.reverse_append, List.reverse_reverse]
      exact reads_expect rfl reads_pure

theorem call_succ (h : CompleteAt depth) {opening closing : Token} {inner after : List Token}
    {callee : Expr} {arguments : List Expr} (hitems : Items inner arguments)
    (hclosing : closing.kind = .rparen) :
    (Parser.call (depth + 1) opening callee).Reads (opening :: (inner ++ closing :: after))
      (.call opening.origin callee arguments) after := by
  rw [Parser.call]
  refine reads_bind (h.items ?_ ?_ ?_ ?_ hitems hclosing) fun last ↦ reads_pure
  all_goals decide

theorem arrayLiteral_succ (h : CompleteAt depth) {opening closing : Token}
    {inner after : List Token} {elements : List Expr} (hitems : Items inner elements)
    (hclosing : closing.kind = .rbracket) :
    (Parser.arrayLiteral (depth + 1) opening).Reads (opening :: (inner ++ closing :: after))
      (.array opening.origin elements) after := by
  rw [Parser.arrayLiteral]
  refine reads_bind (h.items ?_ ?_ ?_ ?_ hitems hclosing) fun last ↦ reads_pure
  all_goals decide

theorem index_succ (h : CompleteAt depth) {opening closing : Token} {inner after : List Token}
    {left place : Expr} (hplace : Expression inner place) (hclosing : closing.kind = .rbracket) :
    (Parser.index (depth + 1) opening left).Reads (opening :: (inner ++ closing :: after))
      (.index opening.origin left place) after := by
  have hstops : Stops lowest (closing :: after) := by
    refine stops_of_kind le_rfl ?_ ?_ <;> rw [hclosing] <;> decide
  rw [Parser.index]
  refine reads_advance (reads_bind (h.required hplace hstops) fun last ↦ ?_)
  exact reads_expect hclosing reads_pure

theorem hashLiteral_succ (h : CompleteAt depth) {opening closing : Token}
    {inner after : List Token} {pairs : List (Expr × Expr)} (hpairs : Pairs inner pairs)
    (hclosing : closing.kind = .rbrace) :
    (Parser.hashLiteral (depth + 1) opening).Reads (opening :: (inner ++ closing :: after))
      (.hash opening.origin pairs) after := by
  rw [Parser.hashLiteral]
  refine reads_remaining (reads_bind (reads_pairsToBrace h.required _ hpairs hclosing ?_)
    fun last ↦ ?_)
  · simp only [List.length_cons, List.length_append]
    omega
  · rw [List.append_nil, List.reverse_reverse]
    exact reads_expect hclosing reads_pure

theorem succ (h : CompleteAt depth) : CompleteAt (depth + 1) where
  statement := h.statement_succ
  letStatement := h.letStatement_succ
  returnStatement := h.returnStatement_succ
  expressionStatement := h.expressionStatement_succ
  block := h.block_succ
  expression := h.expression_succ
  required := h.required_succ
  unary := h.unary_succ
  binary := h.binary_succ
  grouped := h.grouped_succ
  conditional := h.conditional_succ
  conditionalElse := h.conditionalElse_succ
  functionLiteral := h.functionLiteral_succ
  items := h.items_succ
  call := h.call_succ
  arrayLiteral := h.arrayLiteral_succ
  index := h.index_succ
  hashLiteral := h.hashLiteral_succ

end CompleteAt

theorem completeAt (depth : Nat) : CompleteAt depth := by
  induction depth with
  | zero => exact completeAt_zero
  | succ depth ih => exact ih.succ

/-! ### Programs -/

/-- The statements of a sentence are read one after the other, unless the parse is cut off. -/
theorem statements_complete (limit : Nat) (bound : List Token) {tokens after : List Token}
    {trees done : List Stmt} {problems : Array Diagnostic} (hstatements : Statements tokens trees)
    (hafter : (after.headD .endOfInput).kind = .endOfInput)
    (hbound : tokens.length ≤ bound.length) :
    (∃ rest, statements limit bound done ⟨tokens ++ after, problems⟩ =
        (trees.reverse ++ done, ⟨rest, problems⟩)) ∨
      Diagnostic.nestingTooDeep ∈
        (statements limit bound done ⟨tokens ++ after, problems⟩).2.problems := by
  have hstops : Stops lowest after := by
    rw [Stops, hafter]
    decide
  have hsemicolon : (after.headD .endOfInput).kind ≠ .semicolon := by
    rw [hafter]
    decide
  induction bound generalizing tokens trees done with
  | nil =>
    rcases statements_head_cases hstatements with ⟨rfl, rfl⟩ | ⟨_, _, rfl, -⟩ | ⟨_, _, rfl, -⟩
    · exact .inl ⟨after, rfl⟩
    · simp at hbound
    · simp at hbound
  | cons first bound ih =>
    rcases (completeAt limit).reads_first_statement hstatements hstops hsemicolon with ⟨rfl, rfl⟩ |
      ⟨token, others, found, rest, trees, rfl, hkind, hreads, rfl, hrest, hlength⟩
    · have hend : (Input.current ⟨[] ++ after, problems⟩).kind = .endOfInput := hafter
      exact .inl ⟨after, statements_of_end limit _ done hend⟩
    · have hend : (Input.current ⟨token :: others ++ after, problems⟩).kind ≠ .endOfInput := by
        rw [List.cons_append, Input.current_cons]
        intro heq
        rw [heq] at hkind
        rcases hkind with hkind | hkind <;> cases hkind
      rw [statements_cons limit first bound done hend]
      have hshorter : rest.length ≤ bound.length := by
        simp only [List.length_cons] at hbound hlength
        omega
      have hyields := hreads problems
      rw [Attempt.optional] at hyields
      cases houtcome : statement limit ⟨token :: others ++ after, problems⟩ with
      | done tree input =>
        rw [houtcome] at hyields
        obtain ⟨rfl, last, rfl⟩ := hyields
        rw [Option.toList_some, List.singleton_append, List.reverse_cons, List.append_assoc]
        exact ih hrest hshorter
      | failed input =>
        rw [houtcome] at hyields
        obtain ⟨rfl, last, rfl⟩ := hyields
        exact ih hrest hshorter
      | cutOff input =>
        exact .inr (Array.mem_push_self)

/-- A sentence is parsed as the statements that the grammar derives, without a diagnostic, unless
the parse is cut off. -/
theorem ofTokens_complete (limit : Nat) {tokens after : List Token} {trees : List Stmt}
    (hstatements : Statements tokens trees)
    (hafter : (after.headD .endOfInput).kind = .endOfInput) :
    Program.ofTokens limit (tokens ++ after) = ⟨⟨trees⟩, []⟩ ∨
      Diagnostic.nestingTooDeep ∈ (Program.ofTokens limit (tokens ++ after)).problems := by
  have hlength : tokens.length ≤ (tokens ++ after).length := by
    rw [List.length_append]
    exact Nat.le_add_right _ _
  rcases statements_complete limit (tokens ++ after) hstatements hafter hlength with
    ⟨rest, heq⟩ | hmem
  · left
    rw [Program.ofTokens, heq, List.append_nil]
    show (⟨⟨trees.reverse.reverse⟩, []⟩ : Parsed) = ⟨⟨trees⟩, []⟩
    rw [List.reverse_reverse]
  · right
    exact Array.mem_toList_iff.mpr hmem

end MonkeyLang.Parser
