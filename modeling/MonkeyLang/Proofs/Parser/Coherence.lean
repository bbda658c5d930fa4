import Mathlib.Tactic
import MonkeyLang.Proofs.Parser.Completeness
import MonkeyLang.Proofs.Token.Scanning

/-!
# Parsed trees are coherent

A tree is coherent if every node has the token that belongs to it and the fields that this token
gives: a name is the text of its identifier token, a number the value of its digits, an operator the
text of its own token. The tree of a source text is coherent, whether or not there are diagnostics.

`Attempt.Gives` says that an attempt on scanned tokens, started at a token of the right kind, ends
only with values of a property. It is kept by chains and loops, also behind failures, which leave
scanned tokens too. `CoherentAt` collects the parsing functions, and the proof is by induction on
the number of nested calls that are allowed.
-/

set_option autoImplicit false

namespace MonkeyLang

/-! ### Integer literals -/

theorem Text.Numeral.read_nonneg {text : String} {value : Int} (hsign : '-' ∉ text.toList)
    (hread : Text.Numeral.read text = .ok value) : 0 ≤ value := by
  have hbody : (splitSign (text.toList.dropWhile isPadding)).1 = false := by
    unfold splitSign
    split
    · rename_i rest hrest
      exact absurd ((List.dropWhile_sublist _).mem (hrest ▸ List.mem_cons_self)) hsign
    · rfl
    · rfl
  simp only [Text.Numeral.read, ofChars, hbody, Bool.false_eq_true, if_false] at hread
  split_ifs at hread
  obtain rfl := Except.ok.inj hread
  exact Int.natCast_nonneg _

/-- A number that was scanned has no sign. -/
theorem Token.Lexed.read_nonneg {literal : String} {value : Int}
    (hlexed : Token.Lexed .unicode ⟨.integer, literal⟩)
    (hread : Text.Numeral.read literal = .ok value) : 0 ≤ value := by
  have hsign : '-' ∉ literal.toList := fun hmem ↦ absurd (hlexed.2 _ hmem) (by decide)
  exact Text.Numeral.read_nonneg hsign hread

/-! ### Coherent trees -/

/-- What a node made from the token of a kind with a fixed text keeps of it. -/
def Kind.origin (kind : Kind) : Origin :=
  kind.token.origin

def Identifier.Coherent (name : Identifier) : Prop :=
  name.origin = Token.origin ⟨.identifier, name.value⟩ ∧
    Token.Lexed .unicode ⟨.identifier, name.value⟩

mutual

def Expr.Coherent : Expr → Prop
  | .identifier name => name.Coherent
  | .integer origin value =>
    ∃ literal, origin = Token.origin ⟨.integer, literal⟩ ∧
      Token.Lexed .unicode ⟨.integer, literal⟩ ∧ Text.Numeral.read literal = .ok value ∧
      value ≤ int64Max
  | .boolean origin value => origin = (if value then Kind.trueWord else .falseWord).origin
  | .string origin value => origin = Token.origin ⟨.string, value⟩ ∧ '"' ∉ value.toList
  | .unary origin operator right =>
    (∃ kind : Kind, (kind = .bang ∨ kind = .minus) ∧ origin = kind.origin ∧ operator = kind.text) ∧
      right.Coherent
  | .binary origin left operator right =>
    (∃ kind : Kind, Grammar.isBinaryOperator kind ∧ origin = kind.origin ∧ operator = kind.text) ∧
      left.Coherent ∧ right.Coherent
  | .conditional origin condition consequence none =>
    origin = Kind.ifWord.origin ∧ condition.Coherent ∧ consequence.Coherent
  | .conditional origin condition consequence (some alternative) =>
    origin = Kind.ifWord.origin ∧ condition.Coherent ∧ consequence.Coherent ∧ alternative.Coherent
  | .function origin parameters body =>
    origin = Kind.functionWord.origin ∧ (∀ name ∈ parameters, name.Coherent) ∧ body.Coherent
  | .call origin callee arguments =>
    origin = Kind.lparen.origin ∧ callee.Coherent ∧ Expr.CoherentEach arguments
  | .array origin elements => origin = Kind.lbracket.origin ∧ Expr.CoherentEach elements
  | .index origin left place =>
    origin = Kind.lbracket.origin ∧ left.Coherent ∧ place.Coherent
  | .hash origin pairs => origin = Kind.lbrace.origin ∧ Expr.CoherentPairs pairs

def Expr.CoherentEach : List Expr → Prop
  | [] => True
  | expression :: rest => expression.Coherent ∧ Expr.CoherentEach rest

def Expr.CoherentPairs : List (Expr × Expr) → Prop
  | [] => True
  | (key, value) :: rest => key.Coherent ∧ value.Coherent ∧ Expr.CoherentPairs rest

/-- A parsed statement is never a block by itself. -/
def Stmt.Coherent : Stmt → Prop
  | .binding origin name value => origin = Kind.letWord.origin ∧ name.Coherent ∧ value.Coherent
  | .returning origin value => origin = Kind.returnWord.origin ∧ value.Coherent
  | .expression origin tree => (∃ token : Token, origin = token.origin) ∧ tree.Coherent
  | .block _ => False

def Stmt.CoherentEach : List Stmt → Prop
  | [] => True
  | statement :: rest => statement.Coherent ∧ Stmt.CoherentEach rest

def Block.Coherent : Block → Prop
  | .mk origin statements => origin = Kind.lbrace.origin ∧ Stmt.CoherentEach statements

end

theorem Expr.coherentEach_iff {expressions : List Expr} :
    Expr.CoherentEach expressions ↔ ∀ expression ∈ expressions, expression.Coherent := by
  induction expressions with
  | nil => simp [Expr.CoherentEach]
  | cons expression rest ih => rw [Expr.CoherentEach, ih, List.forall_mem_cons]

theorem Expr.coherentPairs_iff {pairs : List (Expr × Expr)} :
    Expr.CoherentPairs pairs ↔ ∀ pair ∈ pairs, pair.1.Coherent ∧ pair.2.Coherent := by
  induction pairs with
  | nil => simp [Expr.CoherentPairs]
  | cons pair rest ih => rw [Expr.CoherentPairs, ih, List.forall_mem_cons, and_assoc]

theorem Stmt.coherentEach_iff {statements : List Stmt} :
    Stmt.CoherentEach statements ↔ ∀ statement ∈ statements, statement.Coherent := by
  induction statements with
  | nil => simp [Stmt.CoherentEach]
  | cons statement rest ih => rw [Stmt.CoherentEach, ih, List.forall_mem_cons]

theorem Identifier.coherent_of_lexed {token : Token} (hlexed : token.Lexed .unicode)
    (hkind : token.kind = .identifier) : Identifier.Coherent ⟨token.origin, token.literal⟩ := by
  obtain ⟨kind, literal⟩ := token
  obtain rfl : kind = .identifier := hkind
  exact ⟨rfl, hlexed⟩

namespace Parser

open Grammar

variable {α β : Type}

/-! ### Attempts on scanned tokens -/

/-- All tokens have come from a scanner. -/
def Input.Lexed (input : Input) : Prop :=
  ∀ token ∈ input.tokens, token.Lexed .unicode

theorem Input.Lexed.current {input : Input} (h : input.Lexed) :
    input.current.Lexed .unicode := by
  obtain ⟨tokens, problems⟩ := input
  cases tokens with
  | nil => rfl
  | cons token tokens => exact h token (.head _)

theorem Input.Lexed.advance {input : Input} (h : input.Lexed) : input.advance.Lexed :=
  fun token hmem ↦ h token (List.mem_of_mem_tail hmem)

/-- A value has the property, and the tokens left are scanned ones. -/
def Outcome.Gives (property : α → Prop) : Outcome α → Prop
  | .done value rest => property value ∧ rest.Lexed
  | .failed rest => rest.Lexed
  | .cutOff _ => True

namespace Attempt

/-- From scanned tokens, the first of which is a possible start, only values with the property. -/
def Gives (start : Token → Prop) (property : α → Prop) (construct : Attempt α) : Prop :=
  ∀ input : Input, input.Lexed → start input.current → (construct input).Gives property

variable {start : Token → Prop} {property : α → Prop}

theorem Gives.of_start {construct : Attempt α} {stronger : Token → Prop}
    (h : construct.Gives start property) (hstart : ∀ token, stronger token → start token) :
    construct.Gives stronger property :=
  fun input hlexed hstronger ↦ h input hlexed (hstart _ hstronger)

theorem gives_pure {value : α} (hvalue : property value) :
    (pure value : Attempt α).Gives start property :=
  fun _ hlexed _ ↦ ⟨hvalue, hlexed⟩

theorem gives_refuse (problem : Diagnostic) : (refuse problem : Attempt α).Gives start property :=
  fun _ hlexed _ ↦ hlexed

theorem gives_failed : (failed : Attempt α).Gives start property :=
  fun _ hlexed _ ↦ hlexed

theorem gives_cutOff : (cutOff : Attempt α).Gives start property :=
  fun _ _ _ ↦ trivial

theorem Gives.bind {first : Attempt β} {next : β → Attempt α} {middle : β → Prop}
    (hfirst : first.Gives start middle)
    (hnext : ∀ value, middle value → (next value).Gives (fun _ ↦ True) property) :
    (first >>= next).Gives start property := by
  intro input hlexed hstart
  have hgives := hfirst input hlexed hstart
  rw [bind_apply]
  cases houtcome : first input with
  | done value rest =>
    rw [houtcome] at hgives
    exact hnext value hgives.1 rest hgives.2 trivial
  | failed rest => rwa [houtcome] at hgives
  | cutOff rest => trivial

theorem gives_current {next : Token → Attempt α}
    (hnext : ∀ token, token.Lexed .unicode → start token →
      (next token).Gives (fun current ↦ current = token) property) :
    (current >>= next).Gives start property :=
  fun input hlexed hstart ↦ hnext input.current hlexed.current hstart input hlexed rfl

theorem gives_remaining {next : List Token → Attempt α}
    (hnext : ∀ tokens, (next tokens).Gives start property) :
    (remaining >>= next).Gives start property :=
  fun input hlexed hstart ↦ hnext input.tokens input hlexed hstart

theorem gives_peekKind {next : Kind → Attempt α}
    (hnext : ∀ kind, (next kind).Gives start property) :
    (peekKind >>= next).Gives start property :=
  fun input hlexed hstart ↦ hnext input.peek.kind input hlexed hstart

theorem gives_advance {next : Unit → Attempt α}
    (hnext : (next ()).Gives (fun _ ↦ True) property) :
    (advance >>= next).Gives start property :=
  fun input hlexed _ ↦ hnext input.advance hlexed.advance trivial

theorem gives_expect {kind : Kind} {next : Unit → Attempt α}
    (hnext : (next ()).Gives (fun token ↦ token.kind = kind) property) :
    (expect kind >>= next).Gives start property := by
  intro input hlexed _
  rw [expect_bind_apply]
  split_ifs with hkind
  · exact hnext input.advance hlexed.advance hkind
  · exact hlexed

theorem gives_accept {kind : Kind} {next : Bool → Attempt α}
    (hyes : (next true).Gives (fun token ↦ token.kind = kind) property)
    (hno : (next false).Gives start property) :
    (accept kind >>= next).Gives start property := by
  intro input hlexed hstart
  rw [accept_bind_apply]
  split_ifs with hkind
  · exact hyes input.advance hlexed.advance hkind
  · exact hno input hlexed hstart

theorem Gives.optional {construct : Attempt α} (h : construct.Gives start property) :
    construct.optional.Gives start fun found ↦ ∀ value ∈ found, property value := by
  intro input hlexed hstart
  have hgives := h input hlexed hstart
  unfold Attempt.optional
  cases houtcome : construct input with
  | done value rest =>
    rw [houtcome] at hgives
    refine ⟨?_, hgives.2⟩
    rintro other ⟨⟩
    exact hgives.1
  | failed rest =>
    rw [houtcome] at hgives
    exact ⟨by simp, hgives⟩
  | cutOff rest => trivial

theorem Gives.reportSilence {construct : Attempt α} (h : construct.Gives start property) :
    (reportSilence construct).Gives start property := by
  intro input hlexed hstart
  have hgives := h input hlexed hstart
  unfold Parser.reportSilence
  cases houtcome : construct input with
  | done value rest => rwa [houtcome] at hgives
  | failed rest =>
    rw [houtcome] at hgives
    dsimp only
    split_ifs
    · exact hgives
    · exact hgives
  | cutOff rest => trivial

/-- Moves on to a token that was looked at, or stays. -/
theorem gives_peekKind_ite {condition : Kind → Prop} [DecidablePred condition]
    {yes no : Attempt α} (hyes : yes.Gives (fun token ↦ condition token.kind) property)
    (hno : no.Gives start property) :
    (peekKind >>= fun kind ↦ if condition kind then advance >>= fun _ ↦ yes else no).Gives
      start property := by
  intro input hlexed hstart
  rw [peekKind_bind_apply]
  split_ifs with hcondition
  · exact hyes input.advance hlexed.advance hcondition
  · exact hno input hlexed hstart

/-! ### Loops -/

theorem Gives.statementsToBrace {statement : Attempt Stmt}
    (h : statement.Gives (fun _ ↦ True) Stmt.Coherent) (bound : List Token) {done : List Stmt}
    (hdone : ∀ tree ∈ done, tree.Coherent) :
    (statementsToBrace statement bound done).Gives (fun _ ↦ True)
      fun found ↦ ∀ tree ∈ found, tree.Coherent := by
  induction bound generalizing done with
  | nil => exact gives_refuse _
  | cons first bound ih =>
    rw [Parser.statementsToBrace]
    refine gives_current fun token _ _ ↦ ?_
    split
    · exact gives_pure hdone
    · exact gives_refuse _
    · refine .bind (h.optional.of_start fun _ _ ↦ trivial) fun found hfound ↦ ?_
      refine gives_advance (ih fun tree hmem ↦ ?_)
      rcases List.mem_append.mp hmem with hmem | hmem
      · exact hfound tree (Option.mem_toList.mp hmem)
      · exact hdone tree hmem

theorem gives_namesAfterComma (bound : List Token) {done : List Identifier}
    (hdone : ∀ name ∈ done, name.Coherent) :
    (namesAfterComma bound done).Gives start fun found ↦ ∀ name ∈ found, name.Coherent := by
  induction bound generalizing done start with
  | nil => exact gives_pure hdone
  | cons first bound ih =>
    rw [namesAfterComma]
    refine gives_accept ?_ (gives_pure hdone)
    refine gives_expect (gives_current fun token hlexed hkind ↦ ih ?_)
    exact List.forall_mem_cons.mpr ⟨Identifier.coherent_of_lexed hlexed hkind, hdone⟩

theorem gives_parameters :
    parameters.Gives start fun found ↦ ∀ name ∈ found, name.Coherent := by
  rw [parameters]
  refine gives_accept (gives_pure (List.forall_mem_nil _)) ?_
  refine gives_expect (gives_current fun token hlexed hkind ↦ gives_remaining fun bound ↦ ?_)
  have hfirst := Identifier.coherent_of_lexed hlexed hkind
  refine .bind (gives_namesAfterComma bound (List.forall_mem_singleton.mpr hfirst)) ?_
  intro names hnames
  exact gives_expect (gives_pure fun name hmem ↦ hnames name (List.mem_reverse.mp hmem))

theorem Gives.itemsAfterComma {item : Attempt Expr}
    (h : item.Gives (fun _ ↦ True) Expr.Coherent) (bound : List Token) {done : List Expr}
    (hdone : ∀ tree ∈ done, tree.Coherent) :
    (itemsAfterComma item bound done).Gives start fun found ↦ ∀ tree ∈ found, tree.Coherent := by
  induction bound generalizing done start with
  | nil => exact gives_pure hdone
  | cons first bound ih =>
    rw [Parser.itemsAfterComma]
    refine gives_accept ?_ (gives_pure hdone)
    refine gives_advance (.bind h fun next hnext ↦ ih ?_)
    exact List.forall_mem_cons.mpr ⟨hnext, hdone⟩

theorem Gives.pairsToBrace {item : Attempt Expr}
    (h : item.Gives (fun _ ↦ True) Expr.Coherent) (bound : List Token)
    {done : List (Expr × Expr)} (hdone : ∀ pair ∈ done, pair.1.Coherent ∧ pair.2.Coherent) :
    (pairsToBrace item bound done).Gives start
      fun found ↦ ∀ pair ∈ found, pair.1.Coherent ∧ pair.2.Coherent := by
  induction bound generalizing done start with
  | nil => exact gives_pure hdone
  | cons first bound ih =>
    rw [Parser.pairsToBrace]
    refine gives_peekKind fun kind ↦ ?_
    split_ifs
    · exact gives_pure hdone
    · refine gives_advance (.bind h fun key hkey ↦ gives_expect (gives_advance ?_))
      refine .bind h fun value hvalue ↦ gives_peekKind fun kind ↦ ?_
      have hmore : ∀ pair ∈ (key, value) :: done, pair.1.Coherent ∧ pair.2.Coherent :=
        List.forall_mem_cons.mpr ⟨⟨hkey, hvalue⟩, hdone⟩
      split_ifs
      · exact gives_expect (ih hmore)
      · exact ih hmore

theorem gives_climb {extend : Expr → Attempt Expr} {floor : Nat} (hfloor : lowest ≤ floor)
    (h : ∀ {left}, Expr.Coherent left →
      (extend left).Gives (fun token ↦ isContinuation token.kind) Expr.Coherent)
    (bound : List Token) {left : Expr} (hleft : left.Coherent) :
    (climb extend floor bound left).Gives start Expr.Coherent := by
  induction bound generalizing left start with
  | nil => exact gives_pure hleft
  | cons first bound ih =>
    rw [climb]
    -- The operator is looked at before it is moved to, so its kind is known when it is extended.
    refine gives_peekKind_ite (.bind (.of_start (h hleft) ?_) fun tree htree ↦ ih htree)
      (gives_pure hleft)
    exact fun token htighter ↦ (lowest_lt_precedence_iff _).mp (hfloor.trans_lt htighter)

theorem gives_integerLiteral {token : Token} (hlexed : token.Lexed .unicode)
    (hkind : token.kind = .integer) : (integerLiteral token).Gives start Expr.Coherent := by
  obtain ⟨kind, literal⟩ := token
  obtain rfl : kind = .integer := hkind
  rw [integerLiteral]
  split
  · rename_i value hread
    split_ifs with hle
    · exact gives_pure ⟨literal, rfl, hlexed, hread, hle⟩
    · exact gives_refuse _
  · exact gives_refuse _

theorem gives_booleanLiteral {kind : Kind} (hkind : kind = .trueWord ∨ kind = .falseWord) :
    (booleanLiteral kind.token).Gives start Expr.Coherent := by
  rcases hkind with rfl | rfl
  · exact gives_pure rfl
  · exact gives_pure rfl

end Attempt

/-! ### The parsing functions -/

open Attempt

/-- The parsing functions give coherent trees when `depth` nested calls are allowed. A function that
is given its first token is given the one of the right kind. -/
structure CoherentAt (depth : Nat) : Prop where
  statement : (statement depth).Gives (fun _ ↦ True) Stmt.Coherent
  letStatement : (letStatement depth).Gives (fun token ↦ token.kind = .letWord) Stmt.Coherent
  returnStatement :
    (returnStatement depth).Gives (fun token ↦ token.kind = .returnWord) Stmt.Coherent
  expressionStatement : (expressionStatement depth).Gives (fun _ ↦ True) Stmt.Coherent
  block : (block depth).Gives (fun token ↦ token.kind = .lbrace) Block.Coherent
  expression : ∀ {floor}, lowest ≤ floor →
    (expression depth floor).Gives (fun _ ↦ True) Expr.Coherent
  required : (required depth).Gives (fun _ ↦ True) Expr.Coherent
  unary : ∀ {kind : Kind}, kind = .bang ∨ kind = .minus →
    (unary depth kind.token).Gives (fun _ ↦ True) Expr.Coherent
  binary : ∀ {kind : Kind} {left : Expr}, isBinaryOperator kind → Expr.Coherent left →
    (binary depth kind.token left).Gives (fun _ ↦ True) Expr.Coherent
  grouped : (grouped depth).Gives (fun _ ↦ True) Expr.Coherent
  conditional : (conditional depth Kind.ifWord.token).Gives (fun _ ↦ True) Expr.Coherent
  functionLiteral :
    (functionLiteral depth Kind.functionWord.token).Gives (fun _ ↦ True) Expr.Coherent
  items : ∀ close,
    (items depth close).Gives (fun _ ↦ True) fun found ↦ ∀ tree ∈ found, tree.Coherent
  call : ∀ {callee}, Expr.Coherent callee →
    (call depth Kind.lparen.token callee).Gives (fun _ ↦ True) Expr.Coherent
  arrayLiteral : (arrayLiteral depth Kind.lbracket.token).Gives (fun _ ↦ True) Expr.Coherent
  index : ∀ {left}, Expr.Coherent left →
    (index depth Kind.lbracket.token left).Gives (fun _ ↦ True) Expr.Coherent
  hashLiteral : (hashLiteral depth Kind.lbrace.token).Gives (fun _ ↦ True) Expr.Coherent

theorem coherentAt_zero : CoherentAt 0 where
  statement := gives_cutOff
  letStatement := gives_cutOff
  returnStatement := gives_cutOff
  expressionStatement := gives_cutOff
  block := gives_cutOff
  expression _ := gives_cutOff
  required := gives_cutOff
  unary _ := gives_cutOff
  binary _ _ := gives_cutOff
  grouped := gives_cutOff
  conditional := gives_cutOff
  functionLiteral := gives_cutOff
  items _ := gives_cutOff
  call _ := gives_cutOff
  arrayLiteral := gives_cutOff
  index _ := gives_cutOff
  hashLiteral := gives_cutOff

namespace CoherentAt

variable {depth : Nat}

theorem statement_succ (h : CoherentAt depth) :
    (Parser.statement (depth + 1)).Gives (fun _ ↦ True) Stmt.Coherent := by
  rw [Parser.statement]
  refine gives_current fun token _ _ ↦ ?_
  split
  · rename_i hkind
    exact h.letStatement.of_start fun current hcurrent ↦ hcurrent ▸ hkind
  · rename_i hkind
    exact h.returnStatement.of_start fun current hcurrent ↦ hcurrent ▸ hkind
  · exact gives_failed
  · exact h.expressionStatement.of_start fun _ _ ↦ trivial

theorem letStatement_succ (h : CoherentAt depth) :
    (Parser.letStatement (depth + 1)).Gives (fun token ↦ token.kind = .letWord) Stmt.Coherent := by
  rw [Parser.letStatement]
  refine gives_current fun token hlexed hkind ↦ gives_expect ?_
  obtain rfl := Token.eq_of_lexed hlexed hkind (.inr rfl)
  refine gives_current fun name hname hidentifier ↦ gives_expect (gives_advance ?_)
  refine .bind (h.expression le_rfl).optional fun found hfound ↦ ?_
  cases found with
  | none => exact gives_refuse _
  | some value =>
    have hcoherent : Stmt.Coherent
        (.binding Kind.letWord.token.origin ⟨name.origin, name.literal⟩ value) := by
      rw [Stmt.Coherent]
      exact ⟨rfl, Identifier.coherent_of_lexed hname hidentifier, hfound value rfl⟩
    exact gives_accept (gives_pure hcoherent) (gives_pure hcoherent)

theorem returnStatement_succ (h : CoherentAt depth) :
    (Parser.returnStatement (depth + 1)).Gives (fun token ↦ token.kind = .returnWord)
      Stmt.Coherent := by
  rw [Parser.returnStatement]
  refine gives_current fun token hlexed hkind ↦ gives_advance ?_
  obtain rfl := Token.eq_of_lexed hlexed hkind (.inr rfl)
  refine .bind (h.expression le_rfl).optional fun found hfound ↦ ?_
  cases found with
  | none => exact gives_refuse _
  | some value =>
    have hcoherent : Stmt.Coherent (.returning Kind.returnWord.token.origin value) := by
      rw [Stmt.Coherent]
      exact ⟨rfl, hfound value rfl⟩
    exact gives_accept (gives_pure hcoherent) (gives_pure hcoherent)

theorem expressionStatement_succ (h : CoherentAt depth) :
    (Parser.expressionStatement (depth + 1)).Gives (fun _ ↦ True) Stmt.Coherent := by
  rw [Parser.expressionStatement]
  refine gives_current fun token _ _ ↦ .bind (h.required.of_start fun _ _ ↦ trivial) ?_
  intro value hvalue
  have hcoherent : Stmt.Coherent (.expression token.origin value) := by
    rw [Stmt.Coherent]
    exact ⟨⟨token, rfl⟩, hvalue⟩
  exact gives_accept (gives_pure hcoherent) (gives_pure hcoherent)

theorem block_succ (h : CoherentAt depth) :
    (Parser.block (depth + 1)).Gives (fun token ↦ token.kind = .lbrace) Block.Coherent := by
  rw [Parser.block]
  refine gives_current fun token hlexed hkind ↦ gives_advance (gives_remaining fun bound ↦ ?_)
  obtain rfl := Token.eq_of_lexed hlexed hkind (.inl rfl)
  refine .bind (h.statement.statementsToBrace bound (List.forall_mem_nil _)) fun found hfound ↦
    gives_pure ?_
  rw [Block.Coherent, Stmt.coherentEach_iff]
  exact ⟨rfl, fun tree hmem ↦ hfound tree (List.mem_reverse.mp hmem)⟩

theorem start_gives (h : CoherentAt depth) {token : Token} (hlexed : token.Lexed .unicode) :
    (start depth token).Gives (fun _ ↦ True) Expr.Coherent := by
  rw [start]
  split
  · rename_i hkind
    refine gives_pure ?_
    rw [Expr.Coherent]
    exact Identifier.coherent_of_lexed hlexed hkind
  · rename_i hkind
    exact gives_integerLiteral hlexed hkind
  · rename_i hkind
    obtain ⟨kind, literal⟩ := token
    obtain rfl : kind = .string := hkind
    exact gives_pure ⟨rfl, hlexed⟩
  · rename_i hkind
    obtain rfl := Token.eq_of_lexed hlexed hkind (.inr rfl)
    exact gives_booleanLiteral (.inl rfl)
  · rename_i hkind
    obtain rfl := Token.eq_of_lexed hlexed hkind (.inr rfl)
    exact gives_booleanLiteral (.inr rfl)
  · rename_i hkind
    obtain rfl := Token.eq_of_lexed hlexed hkind (.inl rfl)
    exact h.unary (.inl rfl)
  · rename_i hkind
    obtain rfl := Token.eq_of_lexed hlexed hkind (.inl rfl)
    exact h.unary (.inr rfl)
  · exact h.grouped
  · rename_i hkind
    obtain rfl := Token.eq_of_lexed hlexed hkind (.inr rfl)
    exact h.conditional
  · rename_i hkind
    obtain rfl := Token.eq_of_lexed hlexed hkind (.inr rfl)
    exact h.functionLiteral
  · rename_i hkind
    obtain rfl := Token.eq_of_lexed hlexed hkind (.inl rfl)
    exact h.arrayLiteral
  · rename_i hkind
    obtain rfl := Token.eq_of_lexed hlexed hkind (.inl rfl)
    exact h.hashLiteral
  · exact gives_failed

theorem extend_gives (h : CoherentAt depth) {left : Expr} (hleft : left.Coherent) :
    (extend depth left).Gives (fun token ↦ isContinuation token.kind) Expr.Coherent := by
  rw [extend]
  refine gives_current fun token hlexed hcontinues ↦ ?_
  split
  · rename_i hkind
    obtain rfl := Token.eq_of_lexed hlexed hkind (.inl rfl)
    exact (h.call hleft).of_start fun _ _ ↦ trivial
  · rename_i hkind
    obtain rfl := Token.eq_of_lexed hlexed hkind (.inl rfl)
    exact (h.index hleft).of_start fun _ _ ↦ trivial
  · -- What goes on with an expression and opens no bracket is a binary operator.
    rename_i hlparen hlbracket
    have hoperator : isBinaryOperator token.kind := by
      rw [isContinuation, decide_eq_false hlparen, decide_eq_false hlbracket, Bool.or_false,
        Bool.or_false] at hcontinues
      exact hcontinues
    have hsymbol : token.kind.isSymbol := by
      revert hoperator
      cases token.kind <;> decide
    rw [Token.eq_of_lexed hlexed rfl (.inl hsymbol)]
    exact (h.binary hoperator hleft).of_start fun _ _ ↦ trivial

theorem expression_succ (h : CoherentAt depth) {floor : Nat} (hfloor : lowest ≤ floor) :
    (Parser.expression (depth + 1) floor).Gives (fun _ ↦ True) Expr.Coherent := by
  intro input hlexed _
  rw [Parser.expression_succ]
  refine Gives.bind (h.start_gives hlexed.current) (fun left hleft ↦ ?_) input hlexed trivial
  exact gives_remaining fun bound ↦ gives_climb hfloor h.extend_gives bound hleft

theorem required_succ (h : CoherentAt depth) :
    (Parser.required (depth + 1)).Gives (fun _ ↦ True) Expr.Coherent := by
  rw [Parser.required]
  exact (h.expression le_rfl).reportSilence

theorem unary_succ (h : CoherentAt depth) {kind : Kind} (hkind : kind = .bang ∨ kind = .minus) :
    (Parser.unary (depth + 1) kind.token).Gives (fun _ ↦ True) Expr.Coherent := by
  rw [Parser.unary]
  refine gives_advance (.bind (h.expression (by decide)).optional fun found hfound ↦ ?_)
  cases found with
  | none => exact gives_refuse _
  | some right =>
    refine gives_pure ?_
    rw [Expr.Coherent]
    exact ⟨⟨kind, hkind, rfl, rfl⟩, hfound right rfl⟩

theorem binary_succ (h : CoherentAt depth) {kind : Kind} {left : Expr}
    (hkind : isBinaryOperator kind) (hleft : left.Coherent) :
    (Parser.binary (depth + 1) kind.token left).Gives (fun _ ↦ True) Expr.Coherent := by
  rw [Parser.binary]
  have hfloor := (lowest_lt_precedence_of_isBinaryOperator hkind).le
  refine gives_advance (.bind (h.expression hfloor).optional fun found hfound ↦ ?_)
  cases found with
  | none => exact gives_refuse _
  | some right =>
    refine gives_pure ?_
    rw [Expr.Coherent]
    exact ⟨⟨kind, hkind, rfl, rfl⟩, hleft, hfound right rfl⟩

theorem grouped_succ (h : CoherentAt depth) :
    (Parser.grouped (depth + 1)).Gives (fun _ ↦ True) Expr.Coherent := by
  rw [Parser.grouped]
  refine gives_advance (.bind h.required fun inner hinner ↦ ?_)
  exact gives_expect (gives_pure hinner)

theorem conditional_succ (h : CoherentAt depth) :
    (Parser.conditional (depth + 1) Kind.ifWord.token).Gives (fun _ ↦ True) Expr.Coherent := by
  rw [Parser.conditional]
  refine gives_expect (gives_advance (.bind h.required fun condition hcondition ↦ ?_))
  refine gives_expect (gives_expect (.bind h.block fun consequence hconsequence ↦ ?_))
  refine gives_accept ?_ ?_
  · refine gives_expect (.bind h.block fun alternative halternative ↦ gives_pure ?_)
    rw [Expr.Coherent]
    exact ⟨rfl, hcondition, hconsequence, halternative⟩
  · refine gives_pure ?_
    rw [Expr.Coherent]
    exact ⟨rfl, hcondition, hconsequence⟩

theorem functionLiteral_succ (h : CoherentAt depth) :
    (Parser.functionLiteral (depth + 1) Kind.functionWord.token).Gives (fun _ ↦ True)
      Expr.Coherent := by
  rw [Parser.functionLiteral]
  refine gives_expect (.bind gives_parameters fun names hnames ↦ gives_expect ?_)
  refine .bind h.block fun body hbody ↦ gives_pure ?_
  rw [Expr.Coherent]
  exact ⟨rfl, hnames, hbody⟩

theorem items_succ (h : CoherentAt depth) (close : Kind) :
    (Parser.items (depth + 1) close).Gives (fun _ ↦ True)
      fun found ↦ ∀ tree ∈ found, tree.Coherent := by
  rw [Parser.items]
  refine gives_accept (gives_pure (List.forall_mem_nil _)) ?_
  refine gives_advance (.bind h.required fun first hfirst ↦ gives_remaining fun bound ↦ ?_)
  refine .bind (h.required.itemsAfterComma bound (List.forall_mem_singleton.mpr hfirst)) ?_
  intro found hfound
  exact gives_expect (gives_pure fun tree hmem ↦ hfound tree (List.mem_reverse.mp hmem))

theorem call_succ (h : CoherentAt depth) {callee : Expr} (hcallee : callee.Coherent) :
    (Parser.call (depth + 1) Kind.lparen.token callee).Gives (fun _ ↦ True) Expr.Coherent := by
  rw [Parser.call]
  refine .bind (h.items _) fun arguments harguments ↦ gives_pure ?_
  rw [Expr.Coherent, Expr.coherentEach_iff]
  exact ⟨rfl, hcallee, harguments⟩

theorem arrayLiteral_succ (h : CoherentAt depth) :
    (Parser.arrayLiteral (depth + 1) Kind.lbracket.token).Gives (fun _ ↦ True) Expr.Coherent := by
  rw [Parser.arrayLiteral]
  refine .bind (h.items _) fun elements helements ↦ gives_pure ?_
  rw [Expr.Coherent, Expr.coherentEach_iff]
  exact ⟨rfl, helements⟩

theorem index_succ (h : CoherentAt depth) {left : Expr} (hleft : left.Coherent) :
    (Parser.index (depth + 1) Kind.lbracket.token left).Gives (fun _ ↦ True) Expr.Coherent := by
  rw [Parser.index]
  refine gives_advance (.bind h.required fun place hplace ↦ gives_expect (gives_pure ?_))
  rw [Expr.Coherent]
  exact ⟨rfl, hleft, hplace⟩

theorem hashLiteral_succ (h : CoherentAt depth) :
    (Parser.hashLiteral (depth + 1) Kind.lbrace.token).Gives (fun _ ↦ True) Expr.Coherent := by
  rw [Parser.hashLiteral]
  refine gives_remaining fun bound ↦
    .bind (h.required.pairsToBrace bound (List.forall_mem_nil _)) ?_
  intro pairs hpairs
  refine gives_expect (gives_pure ?_)
  rw [Expr.Coherent, Expr.coherentPairs_iff]
  exact ⟨rfl, fun pair hmem ↦ hpairs pair (List.mem_reverse.mp hmem)⟩

theorem succ (h : CoherentAt depth) : CoherentAt (depth + 1) where
  statement := h.statement_succ
  letStatement := h.letStatement_succ
  returnStatement := h.returnStatement_succ
  expressionStatement := h.expressionStatement_succ
  block := h.block_succ
  expression := h.expression_succ
  required := h.required_succ
  unary := h.unary_succ
  binary := h.binary_succ
  grouped := h.grouped_succ
  conditional := h.conditional_succ
  functionLiteral := h.functionLiteral_succ
  items := h.items_succ
  call := h.call_succ
  arrayLiteral := h.arrayLiteral_succ
  index := h.index_succ
  hashLiteral := h.hashLiteral_succ

end CoherentAt

theorem coherentAt (depth : Nat) : CoherentAt depth := by
  induction depth with
  | zero => exact coherentAt_zero
  | succ depth ih => exact ih.succ

/-- The statements that are read from scanned tokens are coherent, up to where the parse is cut
off. -/
theorem statements_coherent (limit : Nat) (bound : List Token) {done : List Stmt} {input : Input}
    (hdone : ∀ tree ∈ done, tree.Coherent) (hlexed : input.Lexed) :
    ∀ tree ∈ (statements limit bound done input).1, tree.Coherent := by
  induction bound generalizing done input with
  | nil => exact hdone
  | cons first bound ih =>
    by_cases hend : input.current.kind = .endOfInput
    · rwa [statements_of_end limit _ done hend]
    · rw [statements_cons limit first bound done hend]
      have hgives := (coherentAt limit).statement input hlexed trivial
      cases houtcome : statement limit input with
      | done tree rest =>
        rw [houtcome] at hgives
        exact ih (List.forall_mem_cons.mpr ⟨hgives.1, hdone⟩) hgives.2.advance
      | failed rest =>
        -- The tree is lost, and the statements go on behind it with scanned tokens.
        rw [houtcome] at hgives
        exact ih hdone (Input.Lexed.advance hgives)
      | cutOff rest => exact hdone

end Parser

/-- The program of a source text is coherent, whatever diagnostics there are. -/
theorem Program.ofTokens_coherent (limit : Nat) (source : String) :
    ∀ tree ∈ (Program.ofTokens limit (tokenize source)).program.statements, tree.Coherent := by
  intro tree hmem
  have hlexed : Parser.Input.Lexed ⟨tokenize source, #[]⟩ := Scanner.tokens_lexed .unicode _
  exact Parser.statements_coherent limit _ (List.forall_mem_nil _) hlexed tree
    (List.mem_reverse.mp hmem)

end MonkeyLang
