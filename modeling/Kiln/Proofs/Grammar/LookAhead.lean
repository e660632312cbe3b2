/-
Module: Kiln.Proofs.Grammar.LookAhead
Purpose: What can be seen at the edges of printed tokens. The levels of the parser are those that the printer
  has. Parentheses come in pairs, so that the search for the one that closes an expression ends where it
  should; a tree begins with one of a few tokens, and no arrow is in sight there; and what may follow an
  expression is told by the next tokens.
Main exports: Connective.rank_level, Connective.bare_join, Balanced, Expr.balanced, Stmt.balancedAll,
  Stops, Expr.exists_bare_eq_cons, Expr.isArrowNext_bare
-/
import Kiln.Parser.Grammar
import Kiln.Proofs.Grammar.Printing

namespace Kiln

open Kiln.Parser

/-! ### Levels -/

/-- The place of a level among all levels of the parser. -/
def Level.rank : Level → Nat
  | .disjunction => 0
  | .conjunction => 1
  | .equality => 2
  | .relational => 3
  | .additive => 4
  | .multiplicative => 5

/-- How tightly an operator between two operands binds. -/
def Connective.rank : Connective → Nat
  | .binary op => op.rank
  | .logical op => op.rank

/-- The token for an operator between two operands. -/
def Connective.token : Connective → Token
  | .binary op => op.token
  | .logical op => op.token

theorem BinaryOp.rank_lt (op : BinaryOp) : op.rank < 6 := by
  cases op <;> decide

theorem LogicalOp.rank_lt (op : LogicalOp) : op.rank < 6 := by
  cases op <;> decide

/-- The level of the parser on which an operator stands is as tight as the printer has it. -/
theorem Connective.rank_level (c : Connective) : c.level.rank = c.rank := by
  cases c with
  | binary op => cases op <;> rfl
  | logical op => cases op <;> rfl

theorem Connective.rank_join (c : Connective) (left right : Expr) : (c.join left right).rank = c.rank := by
  cases c <;> rfl

theorem Connective.bare_join (c : Connective) (left right : Expr) :
    (c.join left right).bare
      = left.printed c.rank ++ c.token :: right.printed (c.rank + 1) := by
  cases c <;> rw [Connective.join, Expr.bare] <;> rfl

theorem Level.rank_lt (level : Level) : level.rank < 6 := by
  cases level <;> decide

theorem Level.rank_injective {first second : Level} (h : first.rank = second.rank) : first = second := by
  cases first <;> cases second <;> first | rfl | cases h

theorem Level.exists_rank_eq {rank : Nat} (h : rank < 6) : ∃ level : Level, level.rank = rank := by
  match rank, h with
  | 0, _ => exact ⟨.disjunction, rfl⟩
  | 1, _ => exact ⟨.conjunction, rfl⟩
  | 2, _ => exact ⟨.equality, rfl⟩
  | 3, _ => exact ⟨.relational, rfl⟩
  | 4, _ => exact ⟨.additive, rfl⟩
  | 5, _ => exact ⟨.multiplicative, rfl⟩

theorem Level.drop_rank (level : Level) :
    Level.all.drop level.rank = level :: Level.all.drop (level.rank + 1) := by
  cases level <;> rfl

/-! ### Pairs of parentheses -/

/-- Whether a kind of token is no parenthesis and not the end of the source. -/
def TokenKind.isPlain : TokenKind → Bool
  | .openParen | .closeParen | .endOfFile => false
  | _ => true

/-- Inside open parentheses, the search for the closing one passes over the tokens. -/
def Balanced (tokens : List Token) : Prop :=
  ∀ opened rest, isArrowAfter (opened + 1) (tokens ++ rest) = isArrowAfter (opened + 1) rest

namespace Balanced

theorem nil : Balanced [] := fun _ _ => rfl

theorem append {first second : List Token} (h : Balanced first) (h' : Balanced second) :
    Balanced (first ++ second) := by
  intro opened rest
  rw [List.append_assoc, h, h']

theorem cons {t : Token} {rest : List Token} (ht : t.kind.isPlain = true) (h : Balanced rest) :
    Balanced (t :: rest) := by
  intro opened after
  have hpass : isArrowAfter (opened + 1) (t :: (rest ++ after))
      = isArrowAfter (opened + 1) (rest ++ after) := by
    rw [isArrowAfter]
    cases hkind : t.kind <;> first | rfl | (rw [hkind] at ht; cases ht)
  rw [List.cons_append, hpass, h]

theorem paren {tokens rest : List Token} (h : Balanced tokens) (h' : Balanced rest) :
    Balanced (.openParen :: tokens ++ .closeParen :: rest) := by
  intro opened after
  have hclose : isArrowAfter (opened + 2) (.closeParen :: rest ++ after)
      = isArrowAfter (opened + 1) (rest ++ after) := by
    simp [isArrowAfter, Token.closeParen, Token.printed]
  calc isArrowAfter (opened + 1) (.openParen :: tokens ++ .closeParen :: rest ++ after)
      = isArrowAfter (opened + 2) (tokens ++ (.closeParen :: rest ++ after)) := by
        simp [isArrowAfter, Token.openParen, Token.printed]
    _ = isArrowAfter (opened + 2) (.closeParen :: rest ++ after) := h (opened + 1) _
    _ = isArrowAfter (opened + 1) after := by rw [hclose, h']

theorem parenthesized {tokens : List Token} (h : Balanced tokens) (needed : Bool) :
    Balanced (Kiln.parenthesized needed tokens) := by
  cases needed with
  | true => exact h.paren .nil
  | false => exact h

end Balanced

theorem typeTokens_balanced (type : Option String) : Balanced (typeTokens type) := by
  cases type with
  | none => exact .nil
  | some type => exact .cons rfl .nil

theorem Param.balanced (p : Param) : Balanced p.tokens := .cons rfl (typeTokens_balanced p.type)

theorem Param.balancedMore (ps : List Param) : Balanced (Param.tokensOfMore ps) := by
  induction ps with
  | nil => exact .nil
  | cons p rest ih => exact .cons rfl (p.balanced.append ih)

theorem Param.balancedAll (ps : List Param) : Balanced (Param.tokensOfAll ps) := by
  cases ps with
  | nil => exact .nil
  | cons p rest => exact p.balanced.append (Param.balancedMore rest)

theorem headTokens_balanced (params : List Param) (returnType : Option String) :
    Balanced (headTokens params returnType) :=
  (Param.balancedAll params).paren (typeTokens_balanced returnType)

theorem UnaryOp.isPlain_token (op : UnaryOp) : op.token.kind.isPlain = true := by
  cases op <;> rfl

theorem UpdateOp.isPlain_token (op : UpdateOp) : op.token.kind.isPlain = true := by
  cases op <;> rfl

mutual

theorem Expr.balanced : ∀ e : Expr, Balanced e.bare
  | .number _ => .cons rfl .nil
  | .text _ => .cons rfl .nil
  | .bool true => .cons rfl .nil
  | .bool false => .cons rfl .nil
  | .var _ _ => .cons rfl .nil
  | .this _ => .cons rfl .nil
  | .binary op left right => ((Expr.balanced left).parenthesized _).append
      (.cons rfl ((Expr.balanced right).parenthesized _))
  | .logical op left right => ((Expr.balanced left).parenthesized _).append
      (.cons rfl ((Expr.balanced right).parenthesized _))
  | .unary op operand => .cons op.isPlain_token ((Expr.balanced operand).parenthesized _)
  | .member object _ => ((Expr.balanced object).parenthesized _).append
      (.cons rfl (.cons rfl .nil))
  | .call callee args => by
      rw [Expr.bare, List.append_assoc]
      exact ((Expr.balanced callee).parenthesized _).append ((Expr.balancedArgs args).paren .nil)
  | .lambda f => (headTokens_balanced _ _).append (.cons rfl (Function.balancedBody f))

theorem Expr.balancedArgs : ∀ es : List Expr, Balanced (Expr.printArgs es)
  | [] => .nil
  | e :: rest => (Expr.balanced e).append (Expr.balancedMoreArgs rest)

theorem Expr.balancedMoreArgs : ∀ es : List Expr, Balanced (Expr.printMoreArgs es)
  | [] => .nil
  | e :: rest => .cons rfl ((Expr.balanced e).append (Expr.balancedMoreArgs rest))

theorem Stmt.balanced : ∀ s : Stmt, Balanced s.print
  | .expr e => Expr.balanced e
  | .declare _ value => .cons rfl (.cons rfl (Expr.balanced value))
  | .assign _ value => .cons rfl (.cons rfl (Expr.balanced value))
  | .update _ op => .cons rfl (.cons op.isPlain_token .nil)
  | .setMember object _ value => ((Expr.balanced object).parenthesized _).append
      (.cons rfl (.cons rfl (.cons rfl (Expr.balanced value))))
  | .block body => .cons rfl ((Stmt.balancedAll body).append (.cons rfl .nil))
  | .ifElse test thenBranch none =>
      .cons rfl ((Expr.balanced test).append (Stmt.balanced thenBranch))
  | .ifElse test thenBranch (some elseBranch) =>
      .append (.cons rfl ((Expr.balanced test).append (Stmt.balanced thenBranch)))
        (.cons rfl (Stmt.balanced elseBranch))
  | .whileLoop test body => .cons rfl ((Expr.balanced test).append (Stmt.balanced body))
  | .function f => .cons rfl (Function.balancedNamed f)
  | .ret none => .cons rfl .nil
  | .ret (some value) => .cons rfl (Expr.balanced value)
  | .classDecl _ methods => .cons rfl (.cons rfl (.cons rfl
      ((Function.balancedAll methods).append (.cons rfl .nil))))

theorem Stmt.balancedAll : ∀ ss : List Stmt, Balanced (Stmt.printAll ss)
  | [] => .nil
  | s :: rest => (Stmt.balanced s).append (Stmt.balancedAll rest)

theorem Function.balancedBody : ∀ f : Function, Balanced f.printBody
  | ⟨_, _, _, body⟩ => .cons rfl ((Stmt.balancedAll body).append (.cons rfl .nil))

theorem Function.balancedNamed : ∀ f : Function, Balanced f.printNamed
  | ⟨_, params, returnType, body⟩ => by
      rw [Function.printNamed, List.append_assoc]
      exact .cons rfl ((headTokens_balanced params returnType).append
        (.cons rfl ((Stmt.balancedAll body).append (.cons rfl .nil))))

theorem Function.balancedAll : ∀ fs : List Function, Balanced (Function.printAll fs)
  | [] => .nil
  | f :: rest => (Function.balancedNamed f).append (Function.balancedAll rest)

end

/-! ### The first tokens of a tree -/

/-- Whether a token can begin an expression. -/
def Token.opensExpr (t : Token) : Bool :=
  match t.kind with
  | .number | .text | .trueWord | .falseWord | .identifier | .thisWord | .openParen | .bang => true
  | .binaryOperator => t.value == "-"
  | _ => false

/-- Whether a token can begin a statement. -/
def Token.opensStmt (t : Token) : Bool :=
  match t.kind with
  | .funcWord | .classWord | .returnWord | .ifWord | .whileWord | .openBrace => true
  | _ => t.opensExpr

theorem Token.opensStmt_of_opensExpr {t : Token} (h : t.opensExpr = true) : t.opensStmt = true := by
  unfold Token.opensStmt
  split <;> first | rfl | exact h

/-- Whether a kind of token goes on with a statement, wherever it stands after one. -/
def TokenKind.goesOn : TokenKind → Bool
  | .arrow | .dot | .declare | .equals | .increment | .decrement | .elseWord | .logicalOperator => true
  | _ => false

theorem Token.goesOn_eq_false {t : Token} (h : t.opensStmt = true) : t.kind.goesOn = false := by
  obtain ⟨kind, value, line⟩ := t
  cases kind <;> first | rfl | cases h

theorem TokenKind.ne_of_goesOn {kind other : TokenKind} (h : kind.goesOn = false)
    (hother : other.goesOn = true) : kind ≠ other := by
  rintro rfl
  rw [h] at hother
  cases hother

/-- A kind of token that begins no statement. -/
theorem Token.kind_ne_of_opensStmt {t : Token} {kind : TokenKind} (h : t.opensStmt = true)
    (hkind : ∀ value line, Token.opensStmt ⟨kind, value, line⟩ = false) : t.kind ≠ kind := by
  rintro rfl
  rw [hkind t.value t.line] at h
  cases h

@[simp]
theorem front_cons (t : Token) (rest : List Token) : front (t :: rest) = t := rfl

theorem parenthesized_eq_cons {tokens : List Token} {t : Token} {ts : List Token} (needed : Bool)
    (h : tokens = t :: ts) (ht : t.opensExpr = true) :
    ∃ u us, parenthesized needed tokens = u :: us ∧ u.opensExpr = true := by
  cases needed with
  | true => exact ⟨_, _, rfl, rfl⟩
  | false => exact ⟨t, ts, h, ht⟩

theorem UnaryOp.opensExpr_token (op : UnaryOp) : op.token.opensExpr = true := by
  cases op <;> rfl

/-- The first token of an expression. -/
theorem Expr.exists_bare_eq_cons : ∀ e : Expr, ∃ t ts, e.bare = t :: ts ∧ t.opensExpr = true
  | .number _ => ⟨_, _, rfl, rfl⟩
  | .text _ => ⟨_, _, rfl, rfl⟩
  | .bool true => ⟨_, _, rfl, rfl⟩
  | .bool false => ⟨_, _, rfl, rfl⟩
  | .var _ _ => ⟨_, _, rfl, rfl⟩
  | .this _ => ⟨_, _, rfl, rfl⟩
  | .binary _ left _ | .logical _ left _ | .member left _ => by
      obtain ⟨t, ts, hts, ht⟩ := Expr.exists_bare_eq_cons left
      obtain ⟨u, us, hus, hu⟩ := parenthesized_eq_cons _ hts ht
      rw [Expr.bare, hus]
      exact ⟨u, _, rfl, hu⟩
  | .call callee _ => by
      obtain ⟨t, ts, hts, ht⟩ := Expr.exists_bare_eq_cons callee
      obtain ⟨u, us, hus, hu⟩ := parenthesized_eq_cons _ hts ht
      rw [Expr.bare, hus]
      exact ⟨u, _, rfl, hu⟩
  | .unary op _ => ⟨op.token, _, rfl, op.opensExpr_token⟩
  | .lambda _ => ⟨_, _, rfl, rfl⟩

theorem Expr.exists_printed_eq_cons (rank : Nat) (e : Expr) :
    ∃ t ts, e.printed rank = t :: ts ∧ t.opensExpr = true := by
  obtain ⟨t, ts, hts, ht⟩ := e.exists_bare_eq_cons
  exact parenthesized_eq_cons _ hts ht

theorem Expr.length_printed_pos (rank : Nat) (e : Expr) : 0 < (e.printed rank).length := by
  obtain ⟨t, ts, hts, -⟩ := e.exists_printed_eq_cons rank
  rw [hts]
  exact Nat.succ_pos _

/-- The target of a write to a field is printed as a member access. -/
theorem Stmt.print_setMember (object : Expr) (property : String) (value : Expr) :
    (Stmt.setMember object property value).print
      = (Expr.member object property).bare ++ .printed .equals "=" :: value.bare := by
  rw [Stmt.print, Expr.bare, List.append_assoc]
  rfl

/-- The first token of a statement. -/
theorem Stmt.exists_print_eq_cons (s : Stmt) : ∃ t ts, s.print = t :: ts ∧ t.opensStmt = true := by
  cases s with
  | expr e =>
      obtain ⟨t, ts, hts, ht⟩ := e.exists_bare_eq_cons
      exact ⟨t, ts, hts, Token.opensStmt_of_opensExpr ht⟩
  | setMember object property value =>
      obtain ⟨t, ts, hts, ht⟩ := (Expr.member object property).exists_bare_eq_cons
      rw [Stmt.print_setMember, hts]
      exact ⟨t, _, rfl, Token.opensStmt_of_opensExpr ht⟩
  | ifElse test thenBranch elseBranch => cases elseBranch <;> exact ⟨_, _, rfl, rfl⟩
  | ret value => cases value <;> exact ⟨_, _, rfl, rfl⟩
  | _ => exact ⟨_, _, rfl, rfl⟩

theorem isArrowNext_parenthesized {tokens rest : List Token} (needed : Bool)
    (h : isArrowNext (tokens ++ rest) = false) :
    isArrowNext (parenthesized needed tokens ++ rest) = false := by
  cases needed with
  | true => rfl
  | false => exact h

theorem Connective.kind_token_ne_arrow (c : Connective) : c.token.kind ≠ .arrow := by
  cases c <;> exact nofun

/-- An expression does not begin as what follows the parameters of an unnamed function does. -/
theorem Expr.isArrowNext_bare : ∀ (e : Expr) {rest : List Token}, (front rest).kind ≠ .arrow →
    isArrowNext (e.bare ++ rest) = false
  | .number _, _, _ => rfl
  | .text _, _, _ => rfl
  | .bool true, _, _ => rfl
  | .bool false, _, _ => rfl
  | .var _ _, [], _ => rfl
  | .var _ _, t :: _, h => by simpa [Expr.bare, isArrowNext, Token.name, Token.printed] using h
  | .this _, _, _ => rfl
  | .binary op left _, _, _ => by
      rw [Expr.bare, List.append_assoc]
      exact isArrowNext_parenthesized _
        (Expr.isArrowNext_bare left (Connective.binary op).kind_token_ne_arrow)
  | .logical op left _, _, _ => by
      rw [Expr.bare, List.append_assoc]
      exact isArrowNext_parenthesized _
        (Expr.isArrowNext_bare left (Connective.logical op).kind_token_ne_arrow)
  | .member object _, _, _ => by
      rw [Expr.bare, List.append_assoc]
      exact isArrowNext_parenthesized _ (Expr.isArrowNext_bare object nofun)
  | .call callee _, _, _ => by
      rw [Expr.bare, List.append_assoc, List.append_assoc]
      exact isArrowNext_parenthesized _ (Expr.isArrowNext_bare callee nofun)
  | .unary op _, _, _ => by cases op <;> rfl
  | .lambda _, _, _ => rfl

theorem Stmt.isArrowNext_print (s : Stmt) {rest : List Token} (h : (front rest).kind ≠ .arrow) :
    isArrowNext (s.print ++ rest) = false := by
  cases s with
  | expr e => exact e.isArrowNext_bare h
  | setMember object property value =>
      rw [Stmt.print_setMember, List.append_assoc]
      exact (Expr.member object property).isArrowNext_bare nofun
  | ifElse test thenBranch elseBranch => cases elseBranch <;> rfl
  | ret value => cases value <;> rfl
  | update target op => cases op <;> rfl
  | _ => rfl

/-! ### What can follow an expression -/

/-- An expression of operators that bind at least as tightly as `rank` does not go on with these tokens. -/
structure Ends (rank : Nat) (rest : List Token) : Prop where
  paren : (front rest).kind ≠ .openParen
  dot : (front rest).kind ≠ .dot
  operator : ∀ c, Connective.ofToken? (front rest) = some c → c.level.rank < rank

/-- Such an expression does not go on, nor do the tokens make parameters of a parenthesis at its end. -/
structure Stops (rank : Nat) (rest : List Token) : Prop extends Ends rank rest where
  arrow : isArrowNext rest = false

theorem Stops.mono {low high : Nat} {rest : List Token} (h : Stops low rest) (hle : low ≤ high) :
    Stops high rest :=
  { h with operator := fun c hc => Nat.lt_of_lt_of_le (h.operator c hc) hle }

/-- Whether a kind of token only stands after the end of an expression. -/
def TokenKind.closes : TokenKind → Bool
  | .closeParen | .openBrace | .closeBrace | .comma | .declare | .equals | .increment | .decrement
  | .endOfFile => true
  | _ => false

theorem Connective.ofToken?_eq_none {t : Token} (hbinary : t.kind ≠ .binaryOperator)
    (hlogical : t.kind ≠ .logicalOperator) : Connective.ofToken? t = none := by
  unfold Connective.ofToken?
  split
  · contradiction
  · contradiction
  · rfl

theorem Stops.of_closes {t : Token} {rest : List Token} (h : t.kind.closes = true) (rank : Nat) :
    Stops rank (t :: rest) := by
  have hne : ∀ kind, kind.closes = false → t.kind ≠ kind := by
    rintro kind hkind rfl
    rw [h] at hkind
    cases hkind
  refine ⟨⟨hne _ rfl, hne _ rfl, fun c hc => ?_⟩, ?_⟩
  · have hnone : Connective.ofToken? t = none :=
      Connective.ofToken?_eq_none (hne _ rfl) (hne _ rfl)
    rw [front_cons, hnone] at hc
    cases hc
  · simp [isArrowNext, hne .arrow rfl, hne .identifier rfl]

theorem Connective.ofToken?_token (c : Connective) : Connective.ofToken? c.token = some c := by
  cases c with
  | binary op => cases op <;> rfl
  | logical op => cases op <;> rfl

/-- An operator ends an expression of tighter operators. -/
theorem Stops.of_connective (c : Connective) (rest : List Token) :
    Stops (c.level.rank + 1) (c.token :: rest) where
  arrow := by cases c <;> rfl
  paren := by cases c <;> exact nofun
  dot := by cases c <;> exact nofun
  operator := by
    intro d hd
    rw [front_cons, Connective.ofToken?_token] at hd
    cases hd
    exact Nat.lt_succ_self _

end Kiln
