import Mathlib.Tactic
import MonkeyLang.Proofs.Parser.Completeness
import MonkeyLang.Proofs.Parser.Progress

/-!
# What the parser accepts is a sentence of the grammar

An attempt that ends with a tree and has added no diagnostic has read tokens from which the grammar
derives that tree. The tokens read are those between the two inputs (`Input.After`).

The proof is by induction on the number of nested calls that are allowed, as for completeness:
`SoundAt` collects the parsing functions, and each `..._succ` lemma takes a run of one of them
apart into the runs that it consists of. That none of these added a diagnostic follows from the
order of the inputs, because diagnostics are never taken away. The loop over operators is
`climb_links`; it shows in addition that the operator behind the chain does not bind tighter than
the floor, which is what places the next operator at the root.
-/

set_option autoImplicit false

namespace MonkeyLang.Parser

open Grammar Attempt

/-! ### The tokens between two inputs -/

/-- The tokens of the first input are the ones read and then those behind the current token of the
second one. -/
def Input.After (input : Input) (read : List Token) (rest : Input) : Prop :=
  input.tokens = read ++ rest.advance.tokens

namespace Input.After

variable {input middle rest : Input} {read more : List Token}

theorem nothing (input : Input) : input.advance.After [] input :=
  rfl

theorem append (h : input.After read middle) (h' : middle.advance.After more rest) :
    input.After (read ++ more) rest := by
  rw [Input.After] at h h' ⊢
  rw [h, h', List.append_assoc]

theorem cons (hkind : input.current.kind ≠ .endOfInput) (h : input.advance.After more rest) :
    input.After (input.current :: more) rest := by
  rw [Input.After] at h ⊢
  rw [Input.tokens_eq_cons hkind, h, List.cons_append]

theorem single (hkind : input.current.kind ≠ .endOfInput) : input.After [input.current] input :=
  .cons hkind (.nothing input)

/-- The token behind an input, once it is known not to be the end token. -/
theorem snoc (h : input.After read middle) (hkind : middle.peek.kind ≠ .endOfInput) :
    input.After (read ++ [middle.peek]) middle.advance :=
  h.append (.single hkind)

theorem current_eq {token : Token} (h : input.After (token :: read) rest) :
    input.current = token := by
  rw [Input.current, h]
  rfl

theorem length_eq (h : input.After read rest) :
    input.tokens.length = read.length + rest.advance.tokens.length := by
  rw [h, List.length_append]

end Input.After

/-- A kind that is known is not that of the end token. -/
theorem kind_ne_end {token : Token} {kind : Kind} (hkind : token.kind = kind)
    (hne : kind ≠ .endOfInput := by decide) : token.kind ≠ .endOfInput :=
  hkind ▸ hne

/-- The tokens of a statement have been read, and either the semicolon behind them too, or there is
none and the next token does not go on with the statement. -/
def Input.Finished (input : Input) (read : List Token) (rest : Input) : Prop :=
  (∃ semicolon, semicolon.kind = .semicolon ∧ input.After (read ++ [semicolon]) rest) ∨
    (input.After read rest ∧ ¬ isContinuation rest.peek.kind)

/-! ### What every parsing function accepts -/

/-- What the parsing functions have read when `depth` nested calls are allowed and they end with a
value and without a new diagnostic. -/
structure SoundAt (depth : Nat) : Prop where
  statement : ∀ {input rest : Input} {tree : Stmt}, statement depth input = .done tree rest →
    rest.problems.size ≤ input.problems.size →
      ∃ read, Statement read tree ∧ input.Finished read rest
  letStatement : ∀ {input rest : Input} {tree : Stmt}, input.current.kind = .letWord →
    letStatement depth input = .done tree rest → rest.problems.size ≤ input.problems.size →
      ∃ read, Statement read tree ∧ input.Finished read rest
  returnStatement : ∀ {input rest : Input} {tree : Stmt}, input.current.kind = .returnWord →
    returnStatement depth input = .done tree rest → rest.problems.size ≤ input.problems.size →
      ∃ read, Statement read tree ∧ input.Finished read rest
  expressionStatement : ∀ {input rest : Input} {tree : Stmt},
    expressionStatement depth input = .done tree rest →
      rest.problems.size ≤ input.problems.size →
        ∃ read, Statement read tree ∧ input.Finished read rest
  block : ∀ {input rest : Input} {tree : MonkeyLang.Block}, input.current.kind = .lbrace →
    block depth input = .done tree rest → rest.problems.size ≤ input.problems.size →
      ∃ read, Grammar.Block read tree ∧ input.After read rest
  expression : ∀ {floor : Nat} {input rest : Input} {tree : Expr},
    lowest ≤ floor → floor ≤ unaryPrecedence → expression depth floor input = .done tree rest →
      rest.problems.size ≤ input.problems.size →
        ∃ own others operand links, Operand own operand ∧ Links others links ∧
          (∀ link ∈ links, floor < precedence link.1.kind) ∧ tree = chainTree operand links ∧
          input.After (own ++ others) rest ∧ precedence rest.peek.kind ≤ floor
  required : ∀ {input rest : Input} {tree : Expr}, required depth input = .done tree rest →
    rest.problems.size ≤ input.problems.size →
      ∃ read, Expression read tree ∧ input.After read rest ∧ ¬ isContinuation rest.peek.kind
  unary : ∀ {input rest : Input} {tree : Expr},
    input.current.kind = .bang ∨ input.current.kind = .minus →
      unary depth input.current input = .done tree rest →
        rest.problems.size ≤ input.problems.size →
          ∃ read, Operand read tree ∧ input.After read rest ∧
            precedence rest.peek.kind ≤ unaryPrecedence
  binary : ∀ {input rest : Input} {left tree : Expr}, isBinaryOperator input.current.kind →
    binary depth input.current left input = .done tree rest →
      rest.problems.size ≤ input.problems.size →
        ∃ own others operand links, Operand own operand ∧ Links others links ∧
          (∀ link ∈ links, precedence input.current.kind < precedence link.1.kind) ∧
          tree = .binary input.current.origin left input.current.literal
            (chainTree operand links) ∧
          input.After (input.current :: (own ++ others)) rest ∧
          precedence rest.peek.kind ≤ precedence input.current.kind
  grouped : ∀ {input rest : Input} {tree : Expr}, input.current.kind = .lparen →
    grouped depth input = .done tree rest → rest.problems.size ≤ input.problems.size →
      ∃ read, Primary read tree ∧ input.After read rest
  conditional : ∀ {input rest : Input} {tree : Expr}, input.current.kind = .ifWord →
    conditional depth input.current input = .done tree rest →
      rest.problems.size ≤ input.problems.size →
        ∃ read, Primary read tree ∧ input.After read rest
  functionLiteral : ∀ {input rest : Input} {tree : Expr}, input.current.kind = .functionWord →
    functionLiteral depth input.current input = .done tree rest →
      rest.problems.size ≤ input.problems.size →
        ∃ read, Primary read tree ∧ input.After read rest
  items : ∀ {close : Kind} {input rest : Input} {trees : List Expr}, close ≠ .endOfInput →
    items depth close input = .done trees rest → rest.problems.size ≤ input.problems.size →
      ∃ inner closing, Items inner trees ∧ closing.kind = close ∧
        input.advance.After (inner ++ [closing]) rest
  call : ∀ {input rest : Input} {callee tree : Expr}, input.current.kind = .lparen →
    call depth input.current callee input = .done tree rest →
      rest.problems.size ≤ input.problems.size →
        ∃ inner closing arguments, Items inner arguments ∧ closing.kind = .rparen ∧
          tree = .call input.current.origin callee arguments ∧
          input.After (input.current :: (inner ++ [closing])) rest
  arrayLiteral : ∀ {input rest : Input} {tree : Expr}, input.current.kind = .lbracket →
    arrayLiteral depth input.current input = .done tree rest →
      rest.problems.size ≤ input.problems.size →
        ∃ read, Primary read tree ∧ input.After read rest
  index : ∀ {input rest : Input} {left tree : Expr}, input.current.kind = .lbracket →
    index depth input.current left input = .done tree rest →
      rest.problems.size ≤ input.problems.size →
        ∃ inner closing place, Expression inner place ∧ closing.kind = .rbracket ∧
          tree = .index input.current.origin left place ∧
          input.After (input.current :: (inner ++ [closing])) rest
  hashLiteral : ∀ {input rest : Input} {tree : Expr}, input.current.kind = .lbrace →
    hashLiteral depth input.current input = .done tree rest →
      rest.problems.size ≤ input.problems.size →
        ∃ read, Primary read tree ∧ input.After read rest

theorem soundAt_zero : SoundAt 0 := by
  constructor
  all_goals
    intros
    rename_i hdone _
    cases hdone

/-! ### Loops -/

theorem namesAfterComma_sound (bound : List Token) {input rest : Input}
    {done found : List Identifier} (hdone : namesAfterComma bound done input = .done found rest) :
    ∃ read names, MoreNames read names ∧ found = names.reverse ++ done ∧
      input.advance.After read rest := by
  induction bound generalizing done input with
  | nil =>
    obtain ⟨rfl, rfl⟩ := pure_eq_done_iff.mp hdone
    exact ⟨[], [], .nil, rfl, .nothing _⟩
  | cons first bound ih =>
    rw [namesAfterComma] at hdone
    rcases accept_ite_eq_done_iff.mp hdone with ⟨hcomma, hdone⟩ | ⟨-, hdone⟩
    · obtain ⟨hname, hdone⟩ := expect_bind_eq_done_iff.mp hdone
      obtain ⟨read, names, hnames, rfl, hafter⟩ := ih hdone
      refine ⟨_, _, .cons hcomma hname hnames, ?_, ?_⟩
      · rw [List.reverse_cons, List.append_assoc]
        rfl
      · exact .cons (kind_ne_end hcomma) (.cons (kind_ne_end hname) hafter)
    · obtain ⟨rfl, rfl⟩ := pure_eq_done_iff.mp hdone
      exact ⟨[], [], .nil, rfl, .nothing _⟩

theorem parameters_sound {input rest : Input} {names : List Identifier}
    (hdone : parameters input = .done names rest) :
    ∃ inner closing, Names inner names ∧ closing.kind = .rparen ∧
      input.advance.After (inner ++ [closing]) rest := by
  rw [parameters] at hdone
  rcases accept_ite_eq_done_iff.mp hdone with ⟨hparen, hdone⟩ | ⟨-, hdone⟩
  · obtain ⟨rfl, rfl⟩ := pure_eq_done_iff.mp hdone
    exact ⟨[], _, .nil, hparen, .single (kind_ne_end hparen)⟩
  · obtain ⟨hname, hdone⟩ := expect_bind_eq_done_iff.mp hdone
    rw [current_bind_apply, remaining_bind_apply] at hdone
    obtain ⟨found, middle, hfound, hdone⟩ := bind_eq_done_iff.mp hdone
    obtain ⟨hclosing, hdone⟩ := expect_bind_eq_done_iff.mp hdone
    obtain ⟨rfl, rfl⟩ := pure_eq_done_iff.mp hdone
    obtain ⟨read, names, hnames, rfl, hafter⟩ := namesAfterComma_sound _ hfound
    have hread : input.advance.After (input.peek :: read) middle :=
      .cons (kind_ne_end hname) hafter
    refine ⟨input.peek :: read, middle.peek, ?_, hclosing, hread.snoc (kind_ne_end hclosing)⟩
    rw [List.reverse_append, List.reverse_reverse]
    exact .cons hname hnames

/-- With the closing brace next, no more pairs are read. -/
theorem pairsToBrace_of_brace {item : Attempt Expr} (bound : List Token) {input rest : Input}
    {done found : List (Expr × Expr)}
    (hdone : pairsToBrace item bound done input = .done found rest)
    (hbrace : input.peek.kind = .rbrace) : found = done ∧ rest = input := by
  cases bound with
  | nil =>
    obtain ⟨rfl, rfl⟩ := pure_eq_done_iff.mp hdone
    exact ⟨rfl, rfl⟩
  | cons first bound =>
    rw [pairsToBrace, peekKind_bind_apply, if_pos hbrace] at hdone
    obtain ⟨rfl, rfl⟩ := pure_eq_done_iff.mp hdone
    exact ⟨rfl, rfl⟩

section Lists

variable {item : Attempt Expr} (horderly : item.Orderly)
  (hitem : ∀ {input rest : Input} {tree : Expr}, item input = .done tree rest →
    rest.problems.size ≤ input.problems.size →
      ∃ read, Expression read tree ∧ input.After read rest ∧ ¬ isContinuation rest.peek.kind)

include horderly hitem

theorem itemsAfterComma_sound (bound : List Token) {input rest : Input} {done found : List Expr}
    (hdone : itemsAfterComma item bound done input = .done found rest)
    (hclean : rest.problems.size ≤ input.problems.size) :
    ∃ read trees, MoreItems read trees ∧ found = trees.reverse ++ done ∧
      input.advance.After read rest := by
  induction bound generalizing done input with
  | nil =>
    obtain ⟨rfl, rfl⟩ := pure_eq_done_iff.mp hdone
    exact ⟨[], [], .nil, rfl, .nothing _⟩
  | cons first bound ih =>
    rw [itemsAfterComma] at hdone
    rcases accept_ite_eq_done_iff.mp hdone with ⟨hcomma, hdone⟩ | ⟨-, hdone⟩
    · rw [advance_bind_apply] at hdone
      obtain ⟨tree, middle, htree, hrest⟩ := bind_eq_done_iff.mp hdone
      have hstart := (horderly.forward.of_done htree).size_le
      have hend := ((horderly.itemsAfterComma bound _).forward.of_done hrest).size_le
      obtain ⟨own, hown, hafter, -⟩ := hitem htree (hend.trans hclean)
      obtain ⟨read, trees, htrees, rfl, hafter'⟩ := ih hrest (hclean.trans hstart)
      refine ⟨_, _, .cons hcomma hown htrees, ?_, ?_⟩
      · rw [List.reverse_cons, List.append_assoc]
        rfl
      · exact .cons (kind_ne_end hcomma) (hafter.append hafter')
    · obtain ⟨rfl, rfl⟩ := pure_eq_done_iff.mp hdone
      exact ⟨[], [], .nil, rfl, .nothing _⟩

theorem pairsToBrace_sound (bound : List Token) {input rest : Input}
    {done found : List (Expr × Expr)}
    (hdone : pairsToBrace item bound done input = .done found rest)
    (hclean : rest.problems.size ≤ input.problems.size) :
    ∃ read pairs, Pairs read pairs ∧ found = pairs.reverse ++ done ∧
      input.advance.After read rest := by
  induction bound generalizing done input with
  | nil =>
    obtain ⟨rfl, rfl⟩ := pure_eq_done_iff.mp hdone
    exact ⟨[], [], .nil, rfl, .nothing _⟩
  | cons first bound ih =>
    by_cases hbrace : input.peek.kind = .rbrace
    · obtain ⟨rfl, rfl⟩ := pairsToBrace_of_brace _ hdone hbrace
      exact ⟨[], [], .nil, rfl, .nothing _⟩
    rw [pairsToBrace, peekKind_bind_apply, if_neg hbrace, advance_bind_apply] at hdone
    obtain ⟨key, middle, hkey, hdone⟩ := bind_eq_done_iff.mp hdone
    obtain ⟨hcolon, hdone⟩ := expect_bind_eq_done_iff.mp hdone
    rw [advance_bind_apply] at hdone
    obtain ⟨value, last, hvalue, hdone⟩ := bind_eq_done_iff.mp hdone
    rw [peekKind_bind_apply] at hdone
    have hfirst : input.problems.size ≤ middle.problems.size :=
      (horderly.forward.of_done hkey).size_le
    have hsecond : middle.problems.size ≤ last.problems.size :=
      (horderly.forward.of_done hvalue).size_le
    split_ifs at hdone with hlast
    · obtain ⟨hcomma, hrest⟩ := expect_bind_eq_done_iff.mp hdone
      have hend : last.problems.size ≤ rest.problems.size :=
        ((horderly.pairsToBrace bound _).forward.of_done hrest).size_le
      obtain ⟨own, hown, hafter, -⟩ := hitem hkey (hsecond.trans (hend.trans hclean))
      obtain ⟨own', hown', hafter', -⟩ :=
        hitem hvalue (hend.trans (hclean.trans hfirst))
      obtain ⟨read, pairs, hpairs, rfl, hafter''⟩ :=
        ih hrest (hclean.trans (hfirst.trans hsecond))
      refine ⟨_, _, .cons hown hcolon hown' hcomma hpairs, ?_, ?_⟩
      · rw [List.reverse_cons, List.append_assoc]
        rfl
      · refine hafter.append (.cons (kind_ne_end hcolon) (hafter'.append ?_))
        exact .cons (kind_ne_end hcomma) hafter''
    · obtain ⟨rfl, rfl⟩ := pairsToBrace_of_brace _ hdone (not_not.mp hlast)
      obtain ⟨own, hown, hafter, -⟩ := hitem hkey (hsecond.trans hclean)
      obtain ⟨own', hown', hafter', -⟩ := hitem hvalue (hclean.trans hfirst)
      refine ⟨_, _, .last hown hcolon hown', rfl, ?_⟩
      exact hafter.append (.cons (kind_ne_end hcolon) hafter')

end Lists

namespace SoundAt

variable {depth : Nat}

/-- A statement that gives none and reports nothing is an empty one. -/
theorem empty_statement {input rest : Input}
    (hfailed : Parser.statement depth input = .failed rest)
    (hclean : rest.problems.size ≤ input.problems.size) :
    rest = input ∧ input.current.kind = .semicolon :=
  ((orderlyAt depth).statement_reports hfailed).resolve_left (not_lt.mpr hclean)

/-- A statement that has been read, put together with the statements behind it. -/
theorem statements_of_finished {input middle : Input} {own read after : List Token} {tree : Stmt}
    {trees : List Stmt} (hown : Statement own tree) (hfinished : input.Finished own middle)
    (htrees : Statements read trees) (hrest : middle.advance.tokens = read ++ after) :
    ∃ all, Statements all (tree :: trees) ∧ input.tokens = all ++ after := by
  rcases hfinished with ⟨semicolon, hsemicolon, hafter⟩ | ⟨hafter, hnext⟩
  · refine ⟨_, .closed hown hsemicolon htrees, ?_⟩
    rw [hafter, hrest]
    simp
  · refine ⟨_, .unclosed hown ?_ htrees, ?_⟩
    · intro next hhead
      obtain ⟨others, rfl⟩ := List.head?_eq_some_iff.mp hhead
      rw [Input.peek_eq_current_advance, Input.current, hrest] at hnext
      exact hnext
    · rw [hafter, hrest, List.append_assoc]

theorem statementsToBrace_sound (h : SoundAt depth) (bound : List Token) {input rest : Input}
    {done found : List Stmt}
    (hdone : statementsToBrace (Parser.statement depth) bound done input = .done found rest)
    (hclean : rest.problems.size ≤ input.problems.size) :
    ∃ read closing trees, Statements read trees ∧ closing.kind = .rbrace ∧
      found = trees.reverse ++ done ∧ input.After (read ++ [closing]) rest := by
  induction bound generalizing done input with
  | nil => cases hdone
  | cons first bound ih =>
    rw [statementsToBrace_cons_apply] at hdone
    split at hdone
    · rename_i hbrace
      injection hdone with hfound hrest
      subst hfound hrest
      exact ⟨[], input.current, [], .nil, hbrace, rfl, .single (kind_ne_end hbrace)⟩
    · cases hdone
    · obtain ⟨statement, middle, hstatement, hdone⟩ := bind_eq_done_iff.mp hdone
      rw [advance_bind_apply] at hdone
      have hforward := (orderlyAt depth).statement
      have hfirst := (hforward.optional.forward.of_done hstatement).size_le
      have hend : middle.problems.size ≤ rest.problems.size :=
        ((hforward.statementsToBrace bound _).forward.of_done hdone).size_le
      obtain ⟨read, closing, trees, htrees, hclosing, rfl, hafter⟩ :=
        ih hdone (hclean.trans hfirst)
      cases statement with
      | none =>
        obtain ⟨rfl, hsemicolon⟩ :=
          empty_statement (optional_eq_none_iff.mp hstatement) (hend.trans hclean)
        refine ⟨_, closing, trees, .empty hsemicolon htrees, hclosing, rfl, ?_⟩
        exact .cons (kind_ne_end hsemicolon) hafter
      | some tree =>
        obtain ⟨own, hown, hfinished⟩ :=
          h.statement (optional_eq_some_iff.mp hstatement) (hend.trans hclean)
        obtain ⟨all, hall, hread⟩ := statements_of_finished hown hfinished htrees
          (hafter.trans (List.append_assoc ..))
        refine ⟨all, closing, tree :: trees, hall, hclosing, ?_, ?_⟩
        · rw [List.reverse_cons, List.append_assoc]
          rfl
        · rw [Input.After, hread, List.append_assoc]

/-! ### Operator chains -/

/-- An operator that binds less tightly than the unary ones is a binary one. -/
theorem isBinaryOperator_of_precedence {kind : Kind} (hlowest : lowest < precedence kind)
    (hunary : precedence kind ≤ unaryPrecedence) : isBinaryOperator kind := by
  revert hlowest hunary
  cases kind <;> decide

theorem extend_of_isBinaryOperator (depth : Nat) (left : Expr) {input : Input}
    (hoperator : isBinaryOperator input.current.kind) :
    extend depth left input = Parser.binary depth input.current left input := by
  rw [extend_apply]
  split
  · rename_i hkind
    rw [hkind] at hoperator
    cases hoperator
  · rename_i hkind
    rw [hkind] at hoperator
    cases hoperator
  · rfl

/-- With no tokens behind the current one the next one is the end token. -/
theorem peek_eq_end {input : Input} (hlength : input.advance.tokens.length ≤ 0) :
    input.peek = .endOfInput := by
  rw [Input.peek_eq_current_advance, Input.current,
    List.eq_nil_of_length_eq_zero (Nat.le_zero.mp hlength)]
  rfl

/-- With links in front that bind at least as tightly as an operator, and links behind it that bind
tighter, all of them bind at least as tightly. -/
theorem precedence_le_of_mem {before after : List Link} {operator : Token} {right : Expr}
    (hbefore : ∀ link ∈ before, precedence operator.kind ≤ precedence link.1.kind)
    (hafter : ∀ link ∈ after, precedence operator.kind < precedence link.1.kind) {link : Link}
    (hlink : link ∈ before ++ (operator, right) :: after) :
    precedence operator.kind ≤ precedence link.1.kind := by
  rcases List.mem_append.mp hlink with hlink | hlink
  · exact hbefore link hlink
  · rcases List.mem_cons.mp hlink with rfl | hlink
    · exact le_rfl
    · exact (hafter link hlink).le

/-- The loop over operators. The left operand is the tree of the links read before, and the next
operator binds no tighter than any of them. -/
theorem climb_links (h : SoundAt depth) {floor : Nat} (hlowest : lowest ≤ floor)
    {operand : Expr} (bound : List Token) {input rest : Input} {done : List Link} {tree : Expr}
    (hdone : climb (extend depth) floor bound (chainTree operand done) input = .done tree rest)
    (hclean : rest.problems.size ≤ input.problems.size)
    (hnext : precedence input.peek.kind ≤ unaryPrecedence)
    (hloose : ∀ link ∈ done, precedence input.peek.kind ≤ precedence link.1.kind)
    (hbound : input.advance.tokens.length ≤ bound.length) :
    ∃ read links, Links read links ∧ (∀ link ∈ links, floor < precedence link.1.kind) ∧
      tree = chainTree operand (done ++ links) ∧ input.advance.After read rest ∧
      precedence rest.peek.kind ≤ floor := by
  induction bound generalizing input done with
  | nil =>
    have hend := peek_eq_end hbound
    obtain ⟨rfl, rfl⟩ := pure_eq_done_iff.mp hdone
    refine ⟨[], [], .nil, nofun, by rw [List.append_nil], .nothing _, ?_⟩
    rw [hend]
    exact hlowest
  | cons first bound ih =>
    rw [climb, peekKind_bind_apply] at hdone
    split_ifs at hdone with htight
    · have hoperator : isBinaryOperator input.advance.current.kind :=
        isBinaryOperator_of_precedence (hlowest.trans_lt htight) hnext
      rw [advance_bind_apply] at hdone
      obtain ⟨left, middle, hleft, hdone⟩ := bind_eq_done_iff.mp hdone
      have hfirst : input.problems.size ≤ middle.problems.size :=
        (((orderlyAt depth).extend_orderly _).forward.of_done hleft).size_le
      have hend : middle.problems.size ≤ rest.problems.size :=
        ((orderly_climb (orderlyAt depth).extend_orderly floor bound left).forward.of_done
          hdone).size_le
      rw [extend_of_isBinaryOperator depth _ hoperator] at hleft
      obtain ⟨own, others, right, links, hright, hlinks, htighter, rfl, hafter, hstop⟩ :=
        h.binary hoperator hleft (hend.trans hclean)
      rw [← chainTree_append operand (input.advance.current, right) hloose htighter] at hdone
      have hlength := hafter.length_eq
      simp only [List.length_cons] at hlength hbound
      obtain ⟨read, more, hmore, hmoreTight, rfl, hafter', hrest⟩ :=
        ih hdone (hclean.trans hfirst)
          (hstop.trans (precedence_lt_unaryPrecedence hoperator).le)
          (fun link hlink ↦ hstop.trans (precedence_le_of_mem hloose htighter hlink)) (by omega)
      refine ⟨_, _, (Links.cons hoperator hright hlinks).append hmore, ?_, ?_, ?_, hrest⟩
      · intro link hlink
        rcases List.mem_append.mp hlink with hlink | hlink
        · rcases List.mem_cons.mp hlink with rfl | hlink
          · exact htight
          · exact htight.trans (htighter link hlink)
        · exact hmoreTight link hlink
      · rw [List.append_assoc]
      · exact hafter.append hafter'
    · obtain ⟨rfl, rfl⟩ := pure_eq_done_iff.mp hdone
      exact ⟨[], [], .nil, nofun, by rw [List.append_nil], .nothing _, not_lt.mp htight⟩

theorem climb_operand (h : SoundAt depth) {floor : Nat} (hlowest : lowest ≤ floor)
    (bound : List Token) {input rest : Input} {operand tree : Expr}
    (hdone : climb (extend depth) floor bound operand input = .done tree rest)
    (hclean : rest.problems.size ≤ input.problems.size)
    (hnext : precedence input.peek.kind ≤ unaryPrecedence)
    (hbound : input.advance.tokens.length ≤ bound.length) :
    ∃ read links, Links read links ∧ (∀ link ∈ links, floor < precedence link.1.kind) ∧
      tree = chainTree operand links ∧ input.advance.After read rest ∧
      precedence rest.peek.kind ≤ floor := by
  rw [← chainTree_nil operand] at hdone
  exact h.climb_links hlowest bound hdone hclean hnext nofun hbound

/-- A token that binds tighter than a unary operator opens a call or an index. -/
theorem suffix_kind {kind : Kind} (hkind : ¬ precedence kind ≤ unaryPrecedence) :
    kind = .lparen ∨ kind = .lbracket := by
  revert hkind
  cases kind <;> decide

/-- The loop over calls and indices, and then over operators. -/
theorem climb_suffixes (h : SoundAt depth) {floor : Nat} (hlowest : lowest ≤ floor)
    (hfloor : floor ≤ unaryPrecedence) (bound : List Token) {input rest : Input}
    {base tree : Expr} (hdone : climb (extend depth) floor bound base input = .done tree rest)
    (hclean : rest.problems.size ≤ input.problems.size)
    (hbound : input.advance.tokens.length ≤ bound.length) :
    ∃ own others operand links, Suffixes own base operand ∧ Links others links ∧
      (∀ link ∈ links, floor < precedence link.1.kind) ∧ tree = chainTree operand links ∧
      input.advance.After (own ++ others) rest ∧ precedence rest.peek.kind ≤ floor := by
  induction bound generalizing input base with
  | nil =>
    have hnext : precedence input.peek.kind ≤ unaryPrecedence := by
      rw [peek_eq_end hbound]
      decide
    obtain ⟨read, links, hlinks, htight, rfl, hafter, hstop⟩ :=
      h.climb_operand hlowest _ hdone hclean hnext hbound
    exact ⟨[], read, base, links, .nil, hlinks, htight, rfl, hafter, hstop⟩
  | cons first bound ih =>
    by_cases hnext : precedence input.peek.kind ≤ unaryPrecedence
    · obtain ⟨read, links, hlinks, htight, rfl, hafter, hstop⟩ :=
        h.climb_operand hlowest _ hdone hclean hnext hbound
      exact ⟨[], read, base, links, .nil, hlinks, htight, rfl, hafter, hstop⟩
    rw [climb, peekKind_bind_apply, if_pos (hfloor.trans_lt (not_le.mp hnext)),
      advance_bind_apply] at hdone
    obtain ⟨left, middle, hleft, hdone⟩ := bind_eq_done_iff.mp hdone
    have hfirst : input.problems.size ≤ middle.problems.size :=
      (((orderlyAt depth).extend_orderly _).forward.of_done hleft).size_le
    have hend : middle.problems.size ≤ rest.problems.size :=
      ((orderly_climb (orderlyAt depth).extend_orderly floor bound left).forward.of_done
        hdone).size_le
    rw [extend_apply] at hleft
    rcases suffix_kind hnext with hkind | hkind
    · have hopening : input.advance.current.kind = .lparen := hkind
      rw [hopening] at hleft
      obtain ⟨inner, closing, arguments, harguments, hclosing, rfl, hafter⟩ :=
        h.call hopening hleft (hend.trans hclean)
      have hlength := hafter.length_eq
      simp only [List.length_cons] at hlength hbound
      obtain ⟨own, others, operand, links, hown, hlinks, htight, rfl, hafter', hstop⟩ :=
        ih hdone (hclean.trans hfirst) (by omega)
      refine ⟨_, others, operand, links, .call hopening harguments hclosing hown, hlinks, htight,
        rfl, ?_, hstop⟩
      have hall := hafter.append hafter'
      simpa using hall
    · have hopening : input.advance.current.kind = .lbracket := hkind
      rw [hopening] at hleft
      obtain ⟨inner, closing, place, hplace, hclosing, rfl, hafter⟩ :=
        h.index hopening hleft (hend.trans hclean)
      have hlength := hafter.length_eq
      simp only [List.length_cons] at hlength hbound
      obtain ⟨own, others, operand, links, hown, hlinks, htight, rfl, hafter', hstop⟩ :=
        ih hdone (hclean.trans hfirst) (by omega)
      refine ⟨_, others, operand, links, .index hopening hplace hclosing hown, hlinks, htight,
        rfl, ?_, hstop⟩
      have hall := hafter.append hafter'
      simpa using hall

theorem integerLiteral_sound {input rest : Input} {tree : Expr}
    (hkind : input.current.kind = .integer)
    (hdone : integerLiteral input.current input = .done tree rest) :
    Primary [input.current] tree ∧ rest = input := by
  rw [integerLiteral] at hdone
  cases hread : Text.Numeral.read input.current.literal with
  | ok value =>
    simp only [hread] at hdone
    split_ifs at hdone with hmax
    · obtain ⟨rfl, rfl⟩ := pure_eq_done_iff.mp hdone
      exact ⟨.integer hkind hread hmax, rfl⟩
    · cases hdone
  | error reason =>
    rw [hread] at hdone
    cases hdone

theorem booleanLiteral_sound {input rest : Input} {tree : Expr}
    (hkind : input.current.kind = .trueWord ∨ input.current.kind = .falseWord)
    (hdone : booleanLiteral input.current input = .done tree rest) :
    Primary [input.current] tree ∧ rest = input := by
  rw [booleanLiteral] at hdone
  split_ifs at hdone with htrue hfalse
  · obtain ⟨rfl, rfl⟩ := pure_eq_done_iff.mp hdone
    exact ⟨.boolean hkind htrue, rfl⟩
  · obtain ⟨rfl, rfl⟩ := pure_eq_done_iff.mp hdone
    exact ⟨.boolean hkind hfalse, rfl⟩
  · cases hdone

/-- The shortest expression at a token is a primary one, or an operand behind which nothing binds
tighter than its unary operator. -/
theorem start_sound (h : SoundAt depth) {input rest : Input} {tree : Expr}
    (hdone : start depth input.current input = .done tree rest)
    (hclean : rest.problems.size ≤ input.problems.size) :
    ∃ read, input.After read rest ∧
      (Primary read tree ∨
        (Operand read tree ∧ precedence rest.peek.kind ≤ unaryPrecedence)) := by
  have hprimary (hread : ∃ read, Primary read tree ∧ input.After read rest) :
      ∃ read, input.After read rest ∧
        (Primary read tree ∨
          (Operand read tree ∧ precedence rest.peek.kind ≤ unaryPrecedence)) := by
    obtain ⟨read, htree, hafter⟩ := hread
    exact ⟨read, hafter, .inl htree⟩
  have hunary (hkind : input.current.kind = .bang ∨ input.current.kind = .minus)
      (hdone : Parser.unary depth input.current input = .done tree rest) :
      ∃ read, input.After read rest ∧
        (Primary read tree ∨
          (Operand read tree ∧ precedence rest.peek.kind ≤ unaryPrecedence)) := by
    obtain ⟨read, htree, hafter, hstop⟩ := h.unary hkind hdone hclean
    exact ⟨read, hafter, .inr ⟨htree, hstop⟩⟩
  rw [start_apply] at hdone
  split at hdone
  · rename_i hkind
    injection hdone with htree hrest
    subst htree hrest
    exact hprimary ⟨_, .identifier hkind, .single (kind_ne_end hkind)⟩
  · rename_i hkind
    obtain ⟨htree, rfl⟩ := integerLiteral_sound hkind hdone
    exact hprimary ⟨_, htree, .single (kind_ne_end hkind)⟩
  · rename_i hkind
    injection hdone with htree hrest
    subst htree hrest
    exact hprimary ⟨_, .string hkind, .single (kind_ne_end hkind)⟩
  · rename_i hkind
    obtain ⟨htree, rfl⟩ := booleanLiteral_sound (.inl hkind) hdone
    exact hprimary ⟨_, htree, .single (kind_ne_end hkind)⟩
  · rename_i hkind
    obtain ⟨htree, rfl⟩ := booleanLiteral_sound (.inr hkind) hdone
    exact hprimary ⟨_, htree, .single (kind_ne_end hkind)⟩
  · rename_i hkind
    exact hunary (.inl hkind) hdone
  · rename_i hkind
    exact hunary (.inr hkind) hdone
  · rename_i hkind
    exact hprimary (h.grouped hkind hdone hclean)
  · rename_i hkind
    exact hprimary (h.conditional hkind hdone hclean)
  · rename_i hkind
    exact hprimary (h.functionLiteral hkind hdone hclean)
  · rename_i hkind
    exact hprimary (h.arrayLiteral hkind hdone hclean)
  · rename_i hkind
    exact hprimary (h.hashLiteral hkind hdone hclean)
  · cases hdone

theorem expression_succ (h : SoundAt depth) {floor : Nat} {input rest : Input} {tree : Expr}
    (hlowest : lowest ≤ floor) (hfloor : floor ≤ unaryPrecedence)
    (hdone : Parser.expression (depth + 1) floor input = .done tree rest)
    (hclean : rest.problems.size ≤ input.problems.size) :
    ∃ own others operand links, Operand own operand ∧ Links others links ∧
      (∀ link ∈ links, floor < precedence link.1.kind) ∧ tree = chainTree operand links ∧
      input.After (own ++ others) rest ∧ precedence rest.peek.kind ≤ floor := by
  rw [Parser.expression_succ] at hdone
  obtain ⟨base, middle, hbase, hdone⟩ := bind_eq_done_iff.mp hdone
  have hfirst := (((orderlyAt depth).start_forward input.current).of_done hbase).size_le
  have hend := (((orderlyAt depth).rest_orderly floor base).forward.of_done hdone).size_le
  rw [remaining_bind_apply] at hdone
  have hbound : middle.advance.tokens.length ≤ middle.tokens.length :=
    (Input.Precedes.advance middle).tokens.length_le
  obtain ⟨read, hafter, hprimary | ⟨hoperand, hnext⟩⟩ := h.start_sound hbase (hend.trans hclean)
  · obtain ⟨own, others, operand, links, hown, hlinks, htight, rfl, hafter', hstop⟩ :=
      h.climb_suffixes hlowest hfloor _ hdone (hclean.trans hfirst) hbound
    refine ⟨_, others, operand, links, .plain hprimary hown, hlinks, htight, rfl, ?_, hstop⟩
    rw [List.append_assoc]
    exact hafter.append hafter'
  · obtain ⟨others, links, hlinks, htight, rfl, hafter', hstop⟩ :=
      h.climb_operand hlowest _ hdone (hclean.trans hfirst) hnext hbound
    exact ⟨read, others, base, links, hoperand, hlinks, htight, rfl, hafter.append hafter', hstop⟩

/-- The expression without a floor, as the statements and the required expressions call it. -/
theorem expression_lowest (h : SoundAt depth) {input rest : Input} {tree : Expr}
    (hdone : Parser.expression depth lowest input = .done tree rest)
    (hclean : rest.problems.size ≤ input.problems.size) :
    ∃ read, Expression read tree ∧ input.After read rest ∧ ¬ isContinuation rest.peek.kind := by
  obtain ⟨own, others, operand, links, hoperand, hlinks, -, rfl, hafter, hstop⟩ :=
    h.expression le_rfl (by decide) hdone hclean
  refine ⟨_, .chain hoperand hlinks, hafter, ?_⟩
  rw [← lowest_lt_precedence_iff]
  exact not_lt.mpr hstop

theorem required_succ (h : SoundAt depth) {input rest : Input} {tree : Expr}
    (hdone : Parser.required (depth + 1) input = .done tree rest)
    (hclean : rest.problems.size ≤ input.problems.size) :
    ∃ read, Expression read tree ∧ input.After read rest ∧ ¬ isContinuation rest.peek.kind := by
  rw [Parser.required, reportSilence_eq_done_iff] at hdone
  exact h.expression_lowest hdone hclean

theorem unary_succ (h : SoundAt depth) {input rest : Input} {tree : Expr}
    (hkind : input.current.kind = .bang ∨ input.current.kind = .minus)
    (hdone : Parser.unary (depth + 1) input.current input = .done tree rest)
    (hclean : rest.problems.size ≤ input.problems.size) :
    ∃ read, Operand read tree ∧ input.After read rest ∧
      precedence rest.peek.kind ≤ unaryPrecedence := by
  rw [Parser.unary, advance_bind_apply] at hdone
  obtain ⟨found, middle, hfound, hdone⟩ := bind_eq_done_iff.mp hdone
  cases found with
  | none => cases hdone
  | some right =>
    obtain ⟨rfl, rfl⟩ := pure_eq_done_iff.mp hdone
    obtain ⟨own, others, operand, links, hoperand, hlinks, htight, rfl, hafter, hstop⟩ :=
      h.expression (by decide) le_rfl (optional_eq_some_iff.mp hfound) hclean
    -- No binary operator binds tighter than a unary one, so the chain is a single operand.
    have hnone : links = [] := by
      refine List.eq_nil_iff_forall_not_mem.mpr fun link hlink ↦ ?_
      have hoperator := isBinaryOperator_of_mem_links hlinks hlink
      exact lt_asymm (htight link hlink) (precedence_lt_unaryPrecedence hoperator)
    subst hnone
    cases hlinks
    rw [List.append_nil] at hafter
    rw [chainTree_nil]
    have hend : input.current.kind ≠ .endOfInput := by
      rcases hkind with hkind | hkind
      · exact kind_ne_end hkind
      · exact kind_ne_end hkind
    exact ⟨_, .unary hkind hoperand, .cons hend hafter, hstop⟩

theorem binary_succ (h : SoundAt depth) {input rest : Input} {left tree : Expr}
    (hoperator : isBinaryOperator input.current.kind)
    (hdone : Parser.binary (depth + 1) input.current left input = .done tree rest)
    (hclean : rest.problems.size ≤ input.problems.size) :
    ∃ own others operand links, Operand own operand ∧ Links others links ∧
      (∀ link ∈ links, precedence input.current.kind < precedence link.1.kind) ∧
      tree = .binary input.current.origin left input.current.literal (chainTree operand links) ∧
      input.After (input.current :: (own ++ others)) rest ∧
      precedence rest.peek.kind ≤ precedence input.current.kind := by
  rw [Parser.binary, advance_bind_apply] at hdone
  obtain ⟨found, middle, hfound, hdone⟩ := bind_eq_done_iff.mp hdone
  cases found with
  | none => cases hdone
  | some right =>
    obtain ⟨rfl, rfl⟩ := pure_eq_done_iff.mp hdone
    obtain ⟨own, others, operand, links, hoperand, hlinks, htight, rfl, hafter, hstop⟩ :=
      h.expression (lowest_lt_precedence_of_isBinaryOperator hoperator).le
        (precedence_lt_unaryPrecedence hoperator).le (optional_eq_some_iff.mp hfound) hclean
    have hend : input.current.kind ≠ .endOfInput := by
      intro heq
      rw [heq] at hoperator
      cases hoperator
    exact ⟨own, others, operand, links, hoperand, hlinks, htight, rfl, .cons hend hafter, hstop⟩

/-! ### Statements and bracketed constructs -/

/-- The optional semicolon behind a statement. -/
theorem accept_semicolon_sound {α : Type} {value found : α} {middle rest : Input}
    (hdone : (accept .semicolon >>= fun _ ↦ (pure value : Attempt α)) middle =
      .done found rest) :
    found = value ∧ middle.problems.size ≤ rest.problems.size ∧
      ∀ {input : Input} {read : List Token}, input.After read middle →
        ¬ isContinuation middle.peek.kind → input.Finished read rest := by
  rw [accept_bind_apply] at hdone
  split_ifs at hdone with hsemicolon
  · obtain ⟨rfl, rfl⟩ := pure_eq_done_iff.mp hdone
    refine ⟨rfl, le_rfl, fun hafter _ ↦ ?_⟩
    exact .inl ⟨_, hsemicolon, hafter.snoc (kind_ne_end hsemicolon)⟩
  · obtain ⟨rfl, rfl⟩ := pure_eq_done_iff.mp hdone
    exact ⟨rfl, le_rfl, fun hafter hstop ↦ .inr ⟨hafter, hstop⟩⟩

theorem letStatement_succ (h : SoundAt depth) {input rest : Input} {tree : Stmt}
    (hkind : input.current.kind = .letWord)
    (hdone : Parser.letStatement (depth + 1) input = .done tree rest)
    (hclean : rest.problems.size ≤ input.problems.size) :
    ∃ read, Statement read tree ∧ input.Finished read rest := by
  rw [Parser.letStatement, current_bind_apply] at hdone
  obtain ⟨hname, hdone⟩ := expect_bind_eq_done_iff.mp hdone
  rw [current_bind_apply] at hdone
  obtain ⟨hassign, hdone⟩ := expect_bind_eq_done_iff.mp hdone
  rw [advance_bind_apply] at hdone
  obtain ⟨found, middle, hfound, hdone⟩ := bind_eq_done_iff.mp hdone
  cases found with
  | none => cases hdone
  | some value =>
    obtain ⟨rfl, hend, hfinish⟩ := accept_semicolon_sound hdone
    obtain ⟨read, hread, hafter, hstop⟩ :=
      h.expression_lowest (optional_eq_some_iff.mp hfound) (hend.trans hclean)
    refine ⟨_, .binding hkind hname hassign hread, hfinish ?_ hstop⟩
    exact .cons (kind_ne_end hkind) (.cons (kind_ne_end hname) (.cons (kind_ne_end hassign) hafter))

theorem returnStatement_succ (h : SoundAt depth) {input rest : Input} {tree : Stmt}
    (hkind : input.current.kind = .returnWord)
    (hdone : Parser.returnStatement (depth + 1) input = .done tree rest)
    (hclean : rest.problems.size ≤ input.problems.size) :
    ∃ read, Statement read tree ∧ input.Finished read rest := by
  rw [Parser.returnStatement, current_bind_apply, advance_bind_apply] at hdone
  obtain ⟨found, middle, hfound, hdone⟩ := bind_eq_done_iff.mp hdone
  cases found with
  | none => cases hdone
  | some value =>
    obtain ⟨rfl, hend, hfinish⟩ := accept_semicolon_sound hdone
    obtain ⟨read, hread, hafter, hstop⟩ :=
      h.expression_lowest (optional_eq_some_iff.mp hfound) (hend.trans hclean)
    exact ⟨_, .returning hkind hread, hfinish (.cons (kind_ne_end hkind) hafter) hstop⟩

theorem expressionStatement_succ (h : SoundAt depth) {input rest : Input} {tree : Stmt}
    (hdone : Parser.expressionStatement (depth + 1) input = .done tree rest)
    (hclean : rest.problems.size ≤ input.problems.size) :
    ∃ read, Statement read tree ∧ input.Finished read rest := by
  rw [Parser.expressionStatement, current_bind_apply] at hdone
  obtain ⟨value, middle, hvalue, hdone⟩ := bind_eq_done_iff.mp hdone
  obtain ⟨rfl, hend, hfinish⟩ := accept_semicolon_sound hdone
  obtain ⟨read, hread, hafter, hstop⟩ := h.required hvalue (hend.trans hclean)
  obtain ⟨first, others, rfl, -⟩ := hread.exists_cons
  obtain rfl : input.current = first := hafter.current_eq
  exact ⟨_, .expression hread, hfinish hafter hstop⟩

theorem statement_succ (h : SoundAt depth) {input rest : Input} {tree : Stmt}
    (hdone : Parser.statement (depth + 1) input = .done tree rest)
    (hclean : rest.problems.size ≤ input.problems.size) :
    ∃ read, Statement read tree ∧ input.Finished read rest := by
  rw [statement_succ_apply] at hdone
  split at hdone
  · rename_i hkind
    exact h.letStatement hkind hdone hclean
  · rename_i hkind
    exact h.returnStatement hkind hdone hclean
  · cases hdone
  · exact h.expressionStatement hdone hclean

theorem block_succ (h : SoundAt depth) {input rest : Input} {tree : MonkeyLang.Block}
    (hkind : input.current.kind = .lbrace)
    (hdone : Parser.block (depth + 1) input = .done tree rest)
    (hclean : rest.problems.size ≤ input.problems.size) :
    ∃ read, Grammar.Block read tree ∧ input.After read rest := by
  rw [Parser.block, current_bind_apply, advance_bind_apply, remaining_bind_apply] at hdone
  obtain ⟨found, middle, hfound, hdone⟩ := bind_eq_done_iff.mp hdone
  obtain ⟨rfl, rfl⟩ := pure_eq_done_iff.mp hdone
  obtain ⟨read, closing, trees, htrees, hclosing, rfl, hafter⟩ :=
    h.statementsToBrace_sound _ hfound hclean
  rw [List.append_nil, List.reverse_reverse]
  exact ⟨_, .mk hkind htrees hclosing, .cons (kind_ne_end hkind) hafter⟩

theorem grouped_succ (h : SoundAt depth) {input rest : Input} {tree : Expr}
    (hkind : input.current.kind = .lparen)
    (hdone : Parser.grouped (depth + 1) input = .done tree rest)
    (hclean : rest.problems.size ≤ input.problems.size) :
    ∃ read, Primary read tree ∧ input.After read rest := by
  rw [Parser.grouped, advance_bind_apply] at hdone
  obtain ⟨inner, middle, hinner, hdone⟩ := bind_eq_done_iff.mp hdone
  obtain ⟨hclosing, hdone⟩ := expect_bind_eq_done_iff.mp hdone
  obtain ⟨rfl, rfl⟩ := pure_eq_done_iff.mp hdone
  obtain ⟨read, hread, hafter, -⟩ := h.required hinner hclean
  refine ⟨_, .grouped hkind hread hclosing, ?_⟩
  exact .cons (kind_ne_end hkind) (hafter.snoc (kind_ne_end hclosing))

theorem conditional_succ (h : SoundAt depth) {input rest : Input} {tree : Expr}
    (hkind : input.current.kind = .ifWord)
    (hdone : Parser.conditional (depth + 1) input.current input = .done tree rest)
    (hclean : rest.problems.size ≤ input.problems.size) :
    ∃ read, Primary read tree ∧ input.After read rest := by
  rw [Parser.conditional] at hdone
  obtain ⟨hopening, hdone⟩ := expect_bind_eq_done_iff.mp hdone
  rw [advance_bind_apply] at hdone
  obtain ⟨condition, middle, hcondition, hdone⟩ := bind_eq_done_iff.mp hdone
  obtain ⟨hclosing, hdone⟩ := expect_bind_eq_done_iff.mp hdone
  obtain ⟨hbrace, hdone⟩ := expect_bind_eq_done_iff.mp hdone
  rw [Input.peek_eq_current_advance] at hbrace
  obtain ⟨consequence, last, hconsequence, hdone⟩ := bind_eq_done_iff.mp hdone
  have hfirst : input.problems.size ≤ middle.problems.size :=
    ((orderlyAt depth).required.forward.of_done hcondition).size_le
  have hsecond : middle.problems.size ≤ last.problems.size :=
    ((orderlyAt depth).block.forward.of_done hconsequence).size_le
  rcases accept_ite_eq_done_iff.mp hdone with ⟨helse, hdone⟩ | ⟨-, hdone⟩
  · obtain ⟨hbrace', hdone⟩ := expect_bind_eq_done_iff.mp hdone
    rw [Input.peek_eq_current_advance] at hbrace'
    obtain ⟨alternative, final, halternative, hdone⟩ := bind_eq_done_iff.mp hdone
    obtain ⟨rfl, rfl⟩ := pure_eq_done_iff.mp hdone
    have hthird : last.problems.size ≤ final.problems.size :=
      ((orderlyAt depth).block.forward.of_done halternative).size_le
    obtain ⟨inner, hinner, hafter, -⟩ := h.required hcondition (hsecond.trans (hthird.trans hclean))
    obtain ⟨first, hblock, hafter'⟩ :=
      h.block hbrace hconsequence (hthird.trans (hclean.trans hfirst))
    obtain ⟨second, hblock', hafter''⟩ :=
      h.block hbrace' halternative (hclean.trans (hfirst.trans hsecond))
    refine ⟨_, .conditionalElse hkind hopening hinner hclosing hblock helse hblock', ?_⟩
    refine .cons (kind_ne_end hkind) (.cons (kind_ne_end hopening) (hafter.append ?_))
    refine .cons (kind_ne_end hclosing) (hafter'.append (.cons (kind_ne_end helse) hafter''))
  · obtain ⟨rfl, rfl⟩ := pure_eq_done_iff.mp hdone
    obtain ⟨inner, hinner, hafter, -⟩ := h.required hcondition (hsecond.trans hclean)
    obtain ⟨first, hblock, hafter'⟩ := h.block hbrace hconsequence (hclean.trans hfirst)
    refine ⟨_, .conditional hkind hopening hinner hclosing hblock, ?_⟩
    refine .cons (kind_ne_end hkind) (.cons (kind_ne_end hopening) (hafter.append ?_))
    exact .cons (kind_ne_end hclosing) hafter'

theorem functionLiteral_succ (h : SoundAt depth) {input rest : Input} {tree : Expr}
    (hkind : input.current.kind = .functionWord)
    (hdone : Parser.functionLiteral (depth + 1) input.current input = .done tree rest)
    (hclean : rest.problems.size ≤ input.problems.size) :
    ∃ read, Primary read tree ∧ input.After read rest := by
  rw [Parser.functionLiteral] at hdone
  obtain ⟨hopening, hdone⟩ := expect_bind_eq_done_iff.mp hdone
  obtain ⟨names, middle, hnames, hdone⟩ := bind_eq_done_iff.mp hdone
  obtain ⟨hbrace, hdone⟩ := expect_bind_eq_done_iff.mp hdone
  rw [Input.peek_eq_current_advance] at hbrace
  obtain ⟨body, last, hbody, hdone⟩ := bind_eq_done_iff.mp hdone
  obtain ⟨rfl, rfl⟩ := pure_eq_done_iff.mp hdone
  have hfirst : input.problems.size ≤ middle.problems.size :=
    (orderly_parameters.forward.of_done hnames).size_le
  obtain ⟨inner, closing, hinner, hclosing, hafter⟩ := parameters_sound hnames
  obtain ⟨tokens, hblock, hafter'⟩ := h.block hbrace hbody (hclean.trans hfirst)
  refine ⟨_, .function hkind hopening hinner hclosing hblock, ?_⟩
  refine .cons (kind_ne_end hkind) (.cons (kind_ne_end hopening) ?_)
  have hall := hafter.append hafter'
  rwa [List.append_assoc, List.singleton_append] at hall

theorem items_succ (h : SoundAt depth) {close : Kind} {input rest : Input} {trees : List Expr}
    (hclose : close ≠ .endOfInput)
    (hdone : Parser.items (depth + 1) close input = .done trees rest)
    (hclean : rest.problems.size ≤ input.problems.size) :
    ∃ inner closing, Items inner trees ∧ closing.kind = close ∧
      input.advance.After (inner ++ [closing]) rest := by
  rw [Parser.items] at hdone
  rcases accept_ite_eq_done_iff.mp hdone with ⟨hclosing, hdone⟩ | ⟨-, hdone⟩
  · obtain ⟨rfl, rfl⟩ := pure_eq_done_iff.mp hdone
    exact ⟨[], _, .nil, hclosing, .single (kind_ne_end hclosing hclose)⟩
  · rw [advance_bind_apply] at hdone
    obtain ⟨first, middle, hfirst, hdone⟩ := bind_eq_done_iff.mp hdone
    rw [remaining_bind_apply] at hdone
    obtain ⟨found, last, hfound, hdone⟩ := bind_eq_done_iff.mp hdone
    obtain ⟨hclosing, hdone⟩ := expect_bind_eq_done_iff.mp hdone
    obtain ⟨rfl, rfl⟩ := pure_eq_done_iff.mp hdone
    have horderly := (orderlyAt depth).required
    have hstart : input.problems.size ≤ middle.problems.size :=
      (horderly.forward.of_done hfirst).size_le
    have hend : middle.problems.size ≤ last.problems.size :=
      ((horderly.itemsAfterComma _ _).forward.of_done hfound).size_le
    obtain ⟨own, hown, hafter, -⟩ := h.required hfirst (hend.trans hclean)
    obtain ⟨read, trees, htrees, rfl, hafter'⟩ :=
      itemsAfterComma_sound horderly h.required _ hfound (hclean.trans hstart)
    refine ⟨own ++ read, last.peek, ?_, hclosing, ?_⟩
    · rw [List.reverse_append, List.reverse_reverse]
      exact .cons hown htrees
    · exact (hafter.append hafter').snoc (kind_ne_end hclosing hclose)

theorem call_succ (h : SoundAt depth) {input rest : Input} {callee tree : Expr}
    (hkind : input.current.kind = .lparen)
    (hdone : Parser.call (depth + 1) input.current callee input = .done tree rest)
    (hclean : rest.problems.size ≤ input.problems.size) :
    ∃ inner closing arguments, Items inner arguments ∧ closing.kind = .rparen ∧
      tree = .call input.current.origin callee arguments ∧
      input.After (input.current :: (inner ++ [closing])) rest := by
  rw [Parser.call] at hdone
  obtain ⟨arguments, middle, harguments, hdone⟩ := bind_eq_done_iff.mp hdone
  obtain ⟨rfl, rfl⟩ := pure_eq_done_iff.mp hdone
  obtain ⟨inner, closing, hitems, hclosing, hafter⟩ := h.items (by decide) harguments hclean
  exact ⟨inner, closing, arguments, hitems, hclosing, rfl, .cons (kind_ne_end hkind) hafter⟩

theorem arrayLiteral_succ (h : SoundAt depth) {input rest : Input} {tree : Expr}
    (hkind : input.current.kind = .lbracket)
    (hdone : Parser.arrayLiteral (depth + 1) input.current input = .done tree rest)
    (hclean : rest.problems.size ≤ input.problems.size) :
    ∃ read, Primary read tree ∧ input.After read rest := by
  rw [Parser.arrayLiteral] at hdone
  obtain ⟨elements, middle, helements, hdone⟩ := bind_eq_done_iff.mp hdone
  obtain ⟨rfl, rfl⟩ := pure_eq_done_iff.mp hdone
  obtain ⟨inner, closing, hitems, hclosing, hafter⟩ := h.items (by decide) helements hclean
  exact ⟨_, .array hkind hitems hclosing, .cons (kind_ne_end hkind) hafter⟩

theorem index_succ (h : SoundAt depth) {input rest : Input} {left tree : Expr}
    (hkind : input.current.kind = .lbracket)
    (hdone : Parser.index (depth + 1) input.current left input = .done tree rest)
    (hclean : rest.problems.size ≤ input.problems.size) :
    ∃ inner closing place, Expression inner place ∧ closing.kind = .rbracket ∧
      tree = .index input.current.origin left place ∧
      input.After (input.current :: (inner ++ [closing])) rest := by
  rw [Parser.index, advance_bind_apply] at hdone
  obtain ⟨place, middle, hplace, hdone⟩ := bind_eq_done_iff.mp hdone
  obtain ⟨hclosing, hdone⟩ := expect_bind_eq_done_iff.mp hdone
  obtain ⟨rfl, rfl⟩ := pure_eq_done_iff.mp hdone
  obtain ⟨inner, hinner, hafter, -⟩ := h.required hplace hclean
  refine ⟨inner, _, place, hinner, hclosing, rfl, ?_⟩
  exact .cons (kind_ne_end hkind) (hafter.snoc (kind_ne_end hclosing))

theorem hashLiteral_succ (h : SoundAt depth) {input rest : Input} {tree : Expr}
    (hkind : input.current.kind = .lbrace)
    (hdone : Parser.hashLiteral (depth + 1) input.current input = .done tree rest)
    (hclean : rest.problems.size ≤ input.problems.size) :
    ∃ read, Primary read tree ∧ input.After read rest := by
  rw [Parser.hashLiteral, remaining_bind_apply] at hdone
  obtain ⟨found, middle, hfound, hdone⟩ := bind_eq_done_iff.mp hdone
  obtain ⟨hclosing, hdone⟩ := expect_bind_eq_done_iff.mp hdone
  obtain ⟨rfl, rfl⟩ := pure_eq_done_iff.mp hdone
  obtain ⟨read, pairs, hpairs, rfl, hafter⟩ :=
    pairsToBrace_sound (orderlyAt depth).required h.required _ hfound hclean
  rw [List.append_nil, List.reverse_reverse]
  refine ⟨_, .hash hkind hpairs hclosing, ?_⟩
  exact .cons (kind_ne_end hkind) (hafter.snoc (kind_ne_end hclosing))

theorem succ (h : SoundAt depth) : SoundAt (depth + 1) where
  statement := h.statement_succ
  letStatement := h.letStatement_succ
  returnStatement := h.returnStatement_succ
  expressionStatement := h.expressionStatement_succ
  block := h.block_succ
  expression := h.expression_succ
  required := h.required_succ
  unary := h.unary_succ
  binary := h.binary_succ
  grouped := h.grouped_succ
  conditional := h.conditional_succ
  functionLiteral := h.functionLiteral_succ
  items := h.items_succ
  call := h.call_succ
  arrayLiteral := h.arrayLiteral_succ
  index := h.index_succ
  hashLiteral := h.hashLiteral_succ

end SoundAt

theorem soundAt (depth : Nat) : SoundAt depth := by
  induction depth with
  | zero => exact soundAt_zero
  | succ depth ih => exact ih.succ

/-! ### Programs -/

theorem statements_size_le {limit : Nat} {bound : List Token} {input rest : Input}
    {done found : List Stmt} (hdone : statements limit bound done input = (found, rest)) :
    input.problems.size ≤ rest.problems.size := by
  have hforward := statements_forward limit bound done input
  rw [hdone] at hforward
  exact hforward.size_le

/-- The statements of a program read without a diagnostic, up to the end. -/
theorem statements_sound (limit : Nat) (bound : List Token) {input rest : Input}
    {done found : List Stmt} (hdone : statements limit bound done input = (found, rest))
    (hclean : rest.problems.size ≤ input.problems.size)
    (hbound : input.tokens.length ≤ bound.length) :
    ∃ read trees, Statements read trees ∧ found = trees.reverse ++ done ∧
      input.tokens = read ++ rest.tokens ∧ rest.current.kind = .endOfInput := by
  induction bound generalizing input done with
  | nil =>
    obtain ⟨rfl, rfl⟩ := Prod.mk.inj hdone
    have hnil := List.eq_nil_of_length_eq_zero (Nat.le_zero.mp hbound)
    refine ⟨[], [], .nil, rfl, rfl, ?_⟩
    rw [Input.current, hnil]
    rfl
  | cons first bound ih =>
    by_cases hend : input.current.kind = .endOfInput
    · rw [statements_of_end limit _ done hend] at hdone
      obtain ⟨rfl, rfl⟩ := Prod.mk.inj hdone
      exact ⟨[], [], .nil, rfl, rfl, hend⟩
    rw [statements_cons limit first bound done hend] at hdone
    have hshorter {middle : Input} (hprecedes : input.Precedes middle) :
        middle.advance.tokens.length ≤ bound.length := by
      have hlength := hprecedes.tokens.length_le
      have htail : middle.advance.tokens.length = middle.tokens.length - 1 := List.length_tail
      rw [List.length_cons] at hbound
      omega
    cases hstatement : statement limit input with
    | done tree middle =>
      rw [hstatement] at hdone
      have hprecedes := (orderlyAt limit).statement.of_done hstatement
      have hrest := statements_size_le hdone
      obtain ⟨own, hown, hfinished⟩ := (soundAt limit).statement hstatement (hrest.trans hclean)
      obtain ⟨read, trees, htrees, rfl, htokens, hlast⟩ :=
        ih hdone (hclean.trans hprecedes.size_le) (hshorter hprecedes)
      obtain ⟨all, hall, hread⟩ := SoundAt.statements_of_finished hown hfinished htrees htokens
      refine ⟨all, tree :: trees, hall, ?_, hread, hlast⟩
      rw [List.reverse_cons, List.append_assoc]
      rfl
    | failed middle =>
      rw [hstatement] at hdone
      have hrest := statements_size_le hdone
      obtain ⟨rfl, hsemicolon⟩ := SoundAt.empty_statement hstatement (hrest.trans hclean)
      obtain ⟨read, trees, htrees, rfl, htokens, hlast⟩ :=
        ih hdone hclean (hshorter (.refl middle))
      refine ⟨_, trees, .empty hsemicolon htrees, rfl, ?_, hlast⟩
      rw [Input.tokens_eq_cons hend, htokens, List.cons_append]
    | cutOff middle =>
      rw [hstatement] at hdone
      obtain ⟨-, rfl⟩ := Prod.mk.inj hdone
      have hprecedes := (orderlyAt limit).statement input
      rw [hstatement] at hprecedes
      rw [Input.problems_report, Array.size_push] at hclean
      exact absurd (hclean.trans hprecedes.size_le) (Nat.not_succ_le_self _)

/-- A program parsed without a diagnostic is a sentence, up to the first end token, and its
statements are those that the grammar derives. -/
theorem ofTokens_sound (limit : Nat) {tokens : List Token}
    (hclean : (Program.ofTokens limit tokens).problems = []) :
    ∃ read after, tokens = read ++ after ∧ (after.headD .endOfInput).kind = .endOfInput ∧
      Statements read (Program.ofTokens limit tokens).program.statements := by
  obtain ⟨⟨found, rest⟩, hrun⟩ : ∃ result, statements limit tokens [] ⟨tokens, #[]⟩ = result :=
    ⟨_, rfl⟩
  rw [Program.ofTokens, hrun] at hclean ⊢
  have hsize : rest.problems.size ≤ 0 := by
    rw [← Array.length_toList, show rest.problems.toList = [] from hclean]
    exact le_rfl
  obtain ⟨read, trees, htrees, rfl, htokens, hend⟩ :=
    statements_sound limit tokens hrun hsize le_rfl
  refine ⟨read, rest.tokens, htokens, hend, ?_⟩
  show Statements read (trees.reverse ++ []).reverse
  rwa [List.append_nil, List.reverse_reverse]

/-! ### The accepted programs -/

/-- Tokens without an end token are parsed without a diagnostic exactly if they are a sentence of
the grammar, and the program is then the one that the grammar derives.

Assumes: the parse has not been cut off. -/
theorem accepts_iff_sentence (limit : Nat) (tokens : List Token)
    (htokens : ∀ token ∈ tokens, token.kind ≠ .endOfInput)
    (hdepth : Diagnostic.nestingTooDeep ∉ (Program.ofTokens limit tokens).problems) :
    ((Program.ofTokens limit tokens).problems = [] ↔ ∃ trees, Statements tokens trees) ∧
      ∀ trees, Statements tokens trees → (Program.ofTokens limit tokens).program = ⟨trees⟩ := by
  have hcomplete (trees : List Stmt) (htrees : Statements tokens trees) :
      Program.ofTokens limit tokens = ⟨⟨trees⟩, []⟩ := by
    have hend : (([] : List Token).headD .endOfInput).kind = .endOfInput := rfl
    have hparsed := ofTokens_complete limit htrees hend
    rw [List.append_nil] at hparsed
    exact hparsed.resolve_right hdepth
  refine ⟨⟨fun hclean ↦ ?_, ?_⟩, fun trees htrees ↦ ?_⟩
  · obtain ⟨read, after, rfl, hend, hread⟩ := ofTokens_sound limit hclean
    cases after with
    | nil =>
      rw [List.append_nil] at hread ⊢
      exact ⟨_, hread⟩
    | cons last after =>
      exact absurd hend (htokens last (List.mem_append_right _ (.head _)))
  · rintro ⟨trees, htrees⟩
    rw [hcomplete trees htrees]
  · rw [hcomplete trees htrees]

/-- A block and a hash may follow an expression without a semicolon, an array may not. -/
theorem sentence_of_hash_behind_name :
    (∃ trees,
        Statements (tokenize "if (a) \x7b [1][0] \x7d else \x7b ; \x7d a \x7bb: -1,\x7d").dropLast
          trees) ∧
      ¬ ∃ trees, Statements (tokenize "a [1, 2]").dropLast trees := by
  constructor
  · exact (accepts_iff_sentence 100 _ (by decide +kernel) (by decide +kernel)).1.mp
      (by decide +kernel)
  · refine mt (accepts_iff_sentence 100 _ (by decide +kernel) (by decide +kernel)).1.mpr ?_
    decide +kernel

end MonkeyLang.Parser
