/-
Module: Kiln.Proofs.Grammar.RoundTrip
Purpose: Parsing undoes printing. A statement is read up to the token where the next one begins, provided
  that this token does not go on with the statement; in a well-formed list it never does. Expressions
  and statements are read in one induction over the tree, because unnamed functions have bodies.
Main exports: Stmt.Closes, Stmt.Reads, Stmt.ReadsBody, Expr.reads, Stmt.reads, program_printAll,
  parse_printAll
-/
import Kiln.Proofs.Grammar.Reading

namespace Kiln

open Kiln.Parser Kiln.Grammar

variable {rest : List Token}

/-! ### Bodies and functions -/

/-- The other statement is the same one up to ids. -/
def Stmt.Like (s other : Stmt) : Prop := other.skeleton = s.skeleton

/-- The statements are the same ones up to ids. -/
def Stmt.LikeAll (ss others : List Stmt) : Prop := Stmt.skeletonOfAll others = Stmt.skeletonOfAll ss

/-- The other function is the same one up to ids. -/
def Function.Like (f other : Function) : Prop := other.skeleton = f.skeleton

/-- The functions are the same ones up to ids. -/
def Function.LikeAll (fs others : List Function) : Prop :=
  Function.skeletonOfAll others = Function.skeletonOfAll fs

/-- The statements are read up to the brace that closes them. -/
def Stmt.ReadsBody (body : List Stmt) : Prop :=
  ∀ n rest, 16 * (Stmt.printAll body).length + 1 < n →
    Yields (statements n) (Stmt.printAll body ++ .closeBrace :: rest) rest (Stmt.LikeAll body)

namespace Stmt.ReadsBody

variable {body : List Stmt}

theorem braced (h : ReadsBody body) {n : Nat} {owner : String}
    (hn : 16 * (Stmt.printAll body).length + 2 < n) :
    Yields (Grammar.braced n owner) (.openBrace :: (Stmt.printAll body ++ .closeBrace :: rest)) rest
      (Stmt.LikeAll body) := by
  obtain ⟨n, rfl⟩ : ∃ k, n = k + 1 := ⟨n - 1, by omega⟩
  exact .expect rfl (h n rest (by omega))

/-- A function without a name is read as an expression. -/
theorem lambda {params : List Param} {returnType : Option String} (h : ReadsBody body) :
    (Expr.lambda ⟨none, params, returnType, body⟩).Reads := by
  refine Expr.ReadsAt.reads ?_
  intro n rest hn harrow
  have hprinted : (Expr.lambda ⟨none, params, returnType, body⟩).printed 8
      = headTokens params returnType ++ .printed .arrow "=>"
        :: .openBrace :: (Stmt.printAll body ++ [.closeBrace]) := rfl
  have hahead : ∀ ts, isArrowAhead (headTokens params returnType ++ .printed .arrow "=>" :: ts)
      = true := by
    intro ts
    rw [headTokens, List.append_assoc]
    refine Eq.trans (Param.balancedAll params 0 _) ?_
    cases returnType <;> rfl
  rw [hprinted] at hn
  simp only [List.length_append, List.length_cons, List.length_nil] at hn
  obtain ⟨n, rfl⟩ : ∃ k, n = k + 2 := ⟨n - 2, by omega⟩
  rw [hprinted, List.append_assoc, Grammar.primary]
  refine .peek (.atFunction ?_)
  rw [List.cons_append, hahead, if_pos rfl, Grammar.lambda]
  refine .bind (parameters_yields params returnType (by omega)) ?_
  rintro _ rfl
  refine .bind (optionalType_yields returnType fun harrow => by cases harrow) ?_
  rintro _ rfl
  refine .expect rfl ?_
  rw [List.cons_append, List.append_assoc]
  refine .map (h.braced (by omega)) fun body' hbody' => ?_
  exact congrArg (fun ss => Expr.lambda ⟨none, _, _, ss⟩) hbody'

/-- A function with a name is read from its parameters on. -/
theorem named {name : String} {params : List Param} {returnType : Option String}
    (h : ReadsBody body) {n : Nat}
    (hn : 16 * (headTokens params returnType ++ Stmt.printAll body).length + 3 < n) :
    Yields (Grammar.named n name)
      (headTokens params returnType ++ .openBrace :: (Stmt.printAll body ++ .closeBrace :: rest)) rest
      (Function.Like ⟨some name, params, returnType, body⟩) := by
  obtain ⟨n, rfl⟩ : ∃ k, n = k + 1 := ⟨n - 1, by omega⟩
  rw [List.length_append] at hn
  rw [Grammar.named]
  refine .bind (parameters_yields params returnType (by omega)) ?_
  rintro _ rfl
  refine .bind (optionalType_yields returnType nofun) ?_
  rintro _ rfl
  refine .map (h.braced (by omega)) fun body' hbody' => ?_
  exact congrArg (Function.mk (some name) _ _) hbody'

end Stmt.ReadsBody

/-- Methods are read up to the brace that closes them. -/
theorem Function.yields_methods (fs : List Function) (hname : ∀ f ∈ fs, f.name.isSome = true)
    (h : ∀ f ∈ fs, Stmt.ReadsBody f.body) {n : Nat}
    (hn : 16 * (Function.printAll fs).length < n) :
    Yields (methods n) (Function.printAll fs ++ .closeBrace :: rest) rest (Function.LikeAll fs) := by
  induction fs generalizing n with
  | nil =>
      obtain ⟨n, rfl⟩ : ∃ k, n = k + 1 := ⟨n - 1, by omega⟩
      exact .peek (.skip (.pure rfl))
  | cons f more ih =>
      obtain ⟨n, rfl⟩ : ∃ k, n = k + 1 := ⟨n - 1, by omega⟩
      obtain ⟨_ | name, params, returnType, body⟩ := f
      · exact absurd (hname _ List.mem_cons_self) Bool.false_ne_true
      have hprinted : Function.printAll (⟨some name, params, returnType, body⟩ :: more)
            ++ .closeBrace :: rest
          = .name name :: (headTokens params returnType
            ++ .openBrace :: (Stmt.printAll body ++ .closeBrace
            :: (Function.printAll more ++ .closeBrace :: rest))) := by
        simp [Function.printAll, Function.printNamed]
      have hlength : (Function.printAll (⟨some name, params, returnType, body⟩ :: more)).length
          = (headTokens params returnType ++ Stmt.printAll body).length
            + (Function.printAll more).length + 3 := by
        simp only [Function.printAll, Function.printNamed, List.length_append, List.length_cons,
          List.length_nil]
        omega
      have hbody : Stmt.ReadsBody body := h _ List.mem_cons_self
      rw [hlength] at hn
      rw [hprinted, methods]
      refine .peek (.skip (.bind (hbody.named (by omega)) fun f' hf' => ?_))
      refine .map (ih (fun f hf => hname f (List.mem_cons_of_mem _ hf))
        (fun f hf => h f (List.mem_cons_of_mem _ hf)) (by omega)) fun fs' hfs' => ?_
      exact congrArg₂ (· :: ·) hf' hfs'

/-! ### Statements -/

namespace Stmt

variable {s : Stmt}

/-- The statement ends before these tokens. -/
structure Closes (s : Stmt) (rest : List Token) : Prop where
  stops : s.endsInExpr = true → Stops 0 rest
  goesOn : (front rest).kind.goesOn = false
  bareReturn : s.isBareReturn = true →
    (front rest).kind = .closeBrace ∨ (front rest).kind = .endOfFile

/-- The statement is read, and where it is a block or a conditional, so is what it is made of. -/
structure Reads (s : Stmt) : Prop where
  statement : ∀ n rest, 16 * s.print.length < n → s.Closes rest →
    Yields (Grammar.statement n) (s.print ++ rest) rest s.Like
  body : ∀ body, s = .block body → ReadsBody body
  conditional : ∀ test thenBranch elseBranch, s = .ifElse test thenBranch elseBranch →
    ∀ n rest, 16 * s.print.length ≤ n → s.Closes rest →
      Yields (Grammar.conditional n) (s.print.tail ++ rest) rest s.Like

theorem yields_statement_of_simple {t : Token} {ts after : List Token} {n : Nat} {P : Stmt → Prop}
    (ht : t.opensExpr = true) (h : Yields (simple n) (t :: ts) after P) :
    Yields (Grammar.statement (n + 1)) (t :: ts) after P := by
  rw [Grammar.statement]
  refine .peek ?_
  rw [front_cons]
  unfold Token.opensExpr at ht
  split <;> first | exact h | (rename_i hkind; rw [hkind] at ht; cases ht)

/-- Statements that begin with an expression. -/
theorem reads_of_simple (hblock : ∀ body, s ≠ .block body)
    (hif : ∀ test thenBranch elseBranch, s ≠ .ifElse test thenBranch elseBranch)
    (hfirst : ∃ t ts, s.print = t :: ts ∧ t.opensExpr = true)
    (h : ∀ n rest, 16 * s.print.length ≤ n + 1 → s.Closes rest →
      Yields (simple (n + 1)) (s.print ++ rest) rest s.Like) : s.Reads where
  statement := by
    intro n rest hn hcloses
    obtain ⟨t, ts, hts, ht⟩ := hfirst
    have hlength : s.print.length = ts.length + 1 := by rw [hts, List.length_cons]
    obtain ⟨n, rfl⟩ : ∃ k, n = k + 2 := ⟨n - 2, by omega⟩
    have := h n rest (by omega) hcloses
    rw [hts] at this ⊢
    exact yields_statement_of_simple ht this
  body := fun body heq => absurd heq (hblock body)
  conditional := fun test thenBranch elseBranch heq => absurd heq (hif test thenBranch elseBranch)

/-- The name that a declaration, an assignment or an update begins with. -/
theorem yields_target (name : String) {t : Token} {n : Nat} (hn : 16 ≤ n + 1)
    (ht : t.kind.closes = true) :
    Yields (Grammar.expression n) (.name name :: t :: rest) (t :: rest)
      (fun e => ∃ id, e = .var name id) := by
  have hread := (Expr.reads_var name ⟨0⟩).expression hn (.of_closes ht 0 : Stops 0 (t :: rest))
  refine hread.mono fun e he => ?_
  cases e with
  | var name' id' =>
      cases he
      exact ⟨id', rfl⟩
  | _ => cases he

theorem exists_member_of_like {object : Expr} {property : String} {e : Expr}
    (h : (Expr.member object property).Like e) :
    ∃ object', e = .member object' property ∧ object.Like object' := by
  cases e with
  | member object' property' =>
      injection h with hobject hproperty
      exact ⟨object', by rw [hproperty], hobject⟩
  | _ => cases h

theorem reads_expr {e : Expr} (h : e.Reads) : (Stmt.expr e).Reads := by
  refine reads_of_simple nofun nofun e.exists_bare_eq_cons fun n rest hn hcloses => ?_
  rw [simple]
  refine .bind (h.expression hn (hcloses.stops rfl)) fun e' he' => .peek ?_
  split
  · next heq => exact absurd heq (TokenKind.ne_of_goesOn hcloses.goesOn rfl)
  · next heq => exact absurd heq (TokenKind.ne_of_goesOn hcloses.goesOn rfl)
  · next heq => exact absurd heq (TokenKind.ne_of_goesOn hcloses.goesOn rfl)
  · next heq => exact absurd heq (TokenKind.ne_of_goesOn hcloses.goesOn rfl)
  · exact .pure (congrArg Stmt.expr he')

theorem reads_declare {name : String} {value : Expr} (h : value.Reads) :
    (Stmt.declare name value).Reads := by
  refine reads_of_simple nofun nofun ⟨_, _, rfl, rfl⟩ fun n rest hn hcloses => ?_
  rw [Stmt.print, List.length_cons, List.length_cons] at hn
  rw [simple]
  refine .bind (yields_target name (by omega) rfl) ?_
  rintro _ ⟨id, rfl⟩
  refine .peek (.skip (.map (h.expression (by omega) (hcloses.stops rfl)) fun value' hvalue' => ?_))
  exact congrArg (Stmt.declare name) hvalue'

theorem reads_assign {target : Variable} {value : Expr} (h : value.Reads) :
    (Stmt.assign target value).Reads := by
  refine reads_of_simple nofun nofun ⟨_, _, rfl, rfl⟩ fun n rest hn hcloses => ?_
  rw [Stmt.print, List.length_cons, List.length_cons] at hn
  rw [simple]
  refine .bind (yields_target target.name (by omega) rfl) ?_
  rintro _ ⟨id, rfl⟩
  refine .peek (.skip (.bind (h.expression (by omega) (hcloses.stops rfl)) fun value' hvalue' => ?_))
  exact .pure (congrArg (Stmt.assign _) hvalue')

theorem reads_update (target : Variable) (op : UpdateOp) : (Stmt.update target op).Reads := by
  refine reads_of_simple nofun nofun ⟨_, _, rfl, rfl⟩ fun n rest hn hcloses => ?_
  rw [Stmt.print, List.length_cons, List.length_cons] at hn
  rw [simple]
  refine .bind (yields_target target.name (by omega) (by cases op <;> rfl)) ?_
  rintro _ ⟨id, rfl⟩
  cases op with
  | increment => exact .peek (.skip (.pure rfl))
  | decrement => exact .peek (.skip (.pure rfl))

theorem reads_setMember {object value : Expr} {property : String} (hobject : object.Reads)
    (hvalue : value.Reads) : (Stmt.setMember object property value).Reads := by
  have hmember : (Expr.member object property).Reads := Expr.ReadsAt.reads (hobject.select property)
  refine reads_of_simple nofun nofun ?_ fun n rest hn hcloses => ?_
  · obtain ⟨t, ts, hts, ht⟩ := (Expr.member object property).exists_bare_eq_cons
    rw [print_setMember, hts]
    exact ⟨t, _, rfl, ht⟩
  rw [print_setMember, List.length_append, List.length_cons] at hn
  rw [print_setMember, List.append_assoc, simple]
  refine .bind (hmember.expression (by omega) (.of_closes rfl 0)) fun left hleft => ?_
  obtain ⟨object', rfl, hobject'⟩ := exists_member_of_like hleft
  refine .peek (.skip (.bind (hvalue.expression (by omega) (hcloses.stops rfl)) ?_))
  exact fun value' hvalue' => .pure (congrArg₂ (Stmt.setMember · property ·) hobject' hvalue')

/-- Statements that a keyword or a brace begins, conditionals apart. -/
theorem reads_of_word (hblock : ∀ body, s ≠ .block body)
    (hif : ∀ test thenBranch elseBranch, s ≠ .ifElse test thenBranch elseBranch)
    (h : ∀ n rest, 16 * s.print.length ≤ n → s.Closes rest →
      Yields (Grammar.statement (n + 1)) (s.print ++ rest) rest s.Like) : s.Reads where
  statement := by
    intro n rest hn hcloses
    obtain ⟨n, rfl⟩ : ∃ k, n = k + 1 := ⟨n - 1, by omega⟩
    exact h n rest (by omega) hcloses
  body := fun body heq => absurd heq (hblock body)
  conditional := fun test thenBranch elseBranch heq => absurd heq (hif test thenBranch elseBranch)

theorem reads_block {body : List Stmt} (h : ReadsBody body) : (Stmt.block body).Reads where
  statement := by
    intro n rest hn hcloses
    have hprinted : (Stmt.block body).print = .openBrace :: (Stmt.printAll body ++ [.closeBrace]) := rfl
    rw [hprinted, List.length_cons, List.length_append, List.length_singleton] at hn
    obtain ⟨n, rfl⟩ : ∃ k, n = k + 1 := ⟨n - 1, by omega⟩
    rw [hprinted, List.cons_append, List.append_assoc, Grammar.statement]
    refine .peek (.map (h.braced (by omega)) fun body' hbody' => ?_)
    exact congrArg Stmt.block hbody'
  body := by
    rintro _ ⟨⟩
    exact h
  conditional := nofun

theorem reads_whileLoop {test : Expr} {body : Stmt} (htest : test.Reads) (hbody : body.Reads)
    (hblock : body.isBlock = true) : (Stmt.whileLoop test body).Reads := by
  refine reads_of_word nofun nofun fun n rest hn hcloses => ?_
  cases body with
  | block body =>
      have hprinted : (Stmt.whileLoop test (.block body)).print = .printed .whileWord "while"
          :: (test.bare ++ .openBrace :: (Stmt.printAll body ++ [.closeBrace])) := rfl
      rw [hprinted] at hn
      simp only [List.length_cons, List.length_append, List.length_nil] at hn
      rw [hprinted, Grammar.statement]
      simp only [List.cons_append, List.append_assoc, List.nil_append]
      refine .peek (.skip (.bind (htest.expression (by omega) (.of_closes rfl 0)) ?_))
      intro test' htest'
      refine .map ((hbody.body body rfl).braced (by omega)) fun body' hbody' => ?_
      exact congrArg₂ Stmt.whileLoop htest' (congrArg Stmt.block hbody')
  | _ => cases hblock

theorem reads_ret {value : Option Expr} (h : ∀ e, value = some e → e.Reads) :
    (Stmt.ret value).Reads := by
  refine reads_of_word nofun nofun fun n rest hn hcloses => ?_
  rw [Grammar.statement]
  cases value with
  | none =>
      rw [Stmt.print, List.singleton_append]
      refine .peek (.skip (.peek ?_))
      rw [if_pos (hcloses.bareReturn rfl)]
      exact .pure rfl
  | some e =>
      rw [Stmt.print, List.length_cons] at hn
      obtain ⟨t, ts, hts, ht⟩ := e.exists_bare_eq_cons
      have hfirst : ¬(t.kind = .closeBrace ∨ t.kind = .endOfFile) := by
        rintro (hkind | hkind) <;> (rw [Token.opensExpr, hkind] at ht; cases ht)
      have hfront : front (e.bare ++ rest) = t := by
        rw [hts]
        rfl
      rw [Stmt.print, List.cons_append]
      refine .peek (.skip (.peek ?_))
      rw [hfront, if_neg hfirst]
      refine .map ((h e rfl).expression (by omega) (hcloses.stops rfl)) fun e' he' => ?_
      exact congrArg (fun e => Stmt.ret (some e)) he'

theorem reads_function {f : Function} (hname : f.name.isSome = true) (hbody : ReadsBody f.body) :
    (Stmt.function f).Reads := by
  refine reads_of_word nofun nofun fun n rest hn hcloses => ?_
  obtain ⟨_ | name, params, returnType, body⟩ := f
  · cases hname
  have hprinted : (Stmt.function ⟨some name, params, returnType, body⟩).print ++ rest
      = .printed .funcWord "func" :: .name name :: (headTokens params returnType
        ++ .openBrace :: (Stmt.printAll body ++ .closeBrace :: rest)) := by
    simp [Stmt.print, Function.printNamed]
  have hbody : ReadsBody body := hbody
  simp only [Stmt.print, Function.printNamed, List.length_cons, List.length_append,
    List.length_nil] at hn
  rw [hprinted, Grammar.statement]
  refine .peek (.skip (.expect rfl (.map (hbody.named ?_) fun f' hf' => congrArg Stmt.function hf')))
  rw [List.length_append]
  omega

theorem reads_classDecl {name : String} {fs : List Function}
    (hname : ∀ f ∈ fs, f.name.isSome = true) (h : ∀ f ∈ fs, ReadsBody f.body) :
    (Stmt.classDecl name fs).Reads := by
  refine reads_of_word nofun nofun fun n rest hn hcloses => ?_
  have hprinted : (Stmt.classDecl name fs).print ++ rest
      = .printed .classWord "class" :: .name name :: .openBrace
        :: (Function.printAll fs ++ .closeBrace :: rest) := by
    simp [Stmt.print]
  simp only [Stmt.print, List.length_cons, List.length_append, List.length_nil] at hn
  rw [hprinted, Grammar.statement]
  refine .peek (.skip (.expect rfl (.expect rfl (.map
    (Function.yields_methods fs hname h (by omega)) fun fs' hfs' => ?_))))
  exact congrArg (Stmt.classDecl name) hfs'

/-- A conditional is read when what follows the word `if` is. -/
theorem reads_ifElse {test : Expr} {thenBranch : Stmt} {elseBranch : Option Stmt}
    (h : ∀ n rest, 16 * (Stmt.ifElse test thenBranch elseBranch).print.length ≤ n →
      (Stmt.ifElse test thenBranch elseBranch).Closes rest →
      Yields (Grammar.conditional n) ((Stmt.ifElse test thenBranch elseBranch).print.tail ++ rest) rest
        (Stmt.ifElse test thenBranch elseBranch).Like) :
    (Stmt.ifElse test thenBranch elseBranch).Reads where
  statement := by
    intro n rest hn hcloses
    obtain ⟨n, rfl⟩ : ∃ k, n = k + 1 := ⟨n - 1, by omega⟩
    have hread := h n rest (by omega) hcloses
    rw [Grammar.statement]
    cases elseBranch with
    | none => exact .peek (.skip hread)
    | some elseBranch => exact .peek (.skip hread)
  body := nofun
  conditional := by
    rintro _ _ _ ⟨⟩
    exact h

theorem reads_if {test : Expr} {thenBranch : Stmt} (htest : test.Reads) (hthen : thenBranch.Reads)
    (hblock : thenBranch.isBlock = true) : (Stmt.ifElse test thenBranch none).Reads := by
  refine reads_ifElse fun n rest hn hcloses => ?_
  cases thenBranch with
  | block body =>
      have hprinted : (Stmt.ifElse test (.block body) none).print.tail ++ rest
          = test.bare ++ .openBrace :: (Stmt.printAll body ++ .closeBrace :: rest) := by
        simp [Stmt.print]
      simp only [Stmt.print, List.length_cons, List.length_append, List.length_nil] at hn
      obtain ⟨n, rfl⟩ : ∃ k, n = k + 1 := ⟨n - 1, by omega⟩
      rw [hprinted, Grammar.conditional]
      refine .bind (htest.expression (by omega) (.of_closes rfl 0)) fun test' htest' => ?_
      refine .bind ((hthen.body body rfl).braced (by omega)) fun body' hbody' => ?_
      refine .accept_false (TokenKind.ne_of_goesOn hcloses.goesOn rfl) (.pure ?_)
      exact congrArg₂ (Stmt.ifElse · · none) htest' (congrArg Stmt.block hbody')
  | _ => cases hblock

theorem Closes.of_alternative {other : Stmt} (h : s.Closes rest) (halt : other.isAlternative = true) :
    other.Closes rest := by
  cases other with
  | block body => exact ⟨nofun, h.goesOn, nofun⟩
  | ifElse test thenBranch elseBranch => exact ⟨nofun, h.goesOn, nofun⟩
  | _ => cases halt

theorem reads_else {test : Expr} {thenBranch elseBranch : Stmt} (htest : test.Reads)
    (hthen : thenBranch.Reads) (hblock : thenBranch.isBlock = true) (helse : elseBranch.Reads)
    (halt : elseBranch.isAlternative = true) :
    (Stmt.ifElse test thenBranch (some elseBranch)).Reads := by
  refine reads_ifElse fun n rest hn hcloses => ?_
  have helseCloses : elseBranch.Closes rest := hcloses.of_alternative halt
  cases thenBranch with
  | block body =>
      have hprinted : (Stmt.ifElse test (.block body) (some elseBranch)).print.tail ++ rest
          = test.bare ++ .openBrace :: (Stmt.printAll body ++ .closeBrace
            :: .printed .elseWord "else" :: (elseBranch.print ++ rest)) := by
        simp [Stmt.print]
      simp only [Stmt.print, List.length_cons, List.length_append, List.length_nil] at hn
      obtain ⟨n, rfl⟩ : ∃ k, n = k + 1 := ⟨n - 1, by omega⟩
      rw [hprinted, Grammar.conditional]
      refine .bind (htest.expression (by omega) (.of_closes rfl 0)) fun test' htest' => ?_
      refine .bind ((hthen.body body rfl).braced (by omega)) fun body' hbody' => ?_
      have hjoin : ∀ {s'}, elseBranch.Like s' → (Stmt.ifElse test (.block body) (some elseBranch)).Like
          (.ifElse test' (.block body') (some s')) := by
        intro s' hs'
        have htest' : test'.skeleton = test.skeleton := htest'
        have hbody' : Stmt.skeletonOfAll body' = Stmt.skeletonOfAll body := hbody'
        have hs' : s'.skeleton = elseBranch.skeleton := hs'
        simp only [Like, Stmt.skeleton, htest', hbody', hs']
      refine .accept_true rfl ?_
      cases elseBranch with
      | block other =>
          have hother : 16 * (Stmt.printAll other).length + 2 < n := by
            simp only [Stmt.print, List.length_cons, List.length_append, List.length_nil] at hn
            omega
          rw [Stmt.print, List.cons_append, List.cons_append, List.append_assoc]
          refine .accept_false (fun hbrace => by cases hbrace) (.map ((helse.body other rfl).braced hother) ?_)
          exact fun other' hother' => hjoin (congrArg Stmt.block hother')
      | ifElse test₂ thenBranch₂ elseBranch₂ =>
          have hread := helse.conditional _ _ _ rfl n rest (by omega) helseCloses
          have hword : (Stmt.ifElse test₂ thenBranch₂ elseBranch₂).print
              = .printed .ifWord "if" :: (Stmt.ifElse test₂ thenBranch₂ elseBranch₂).print.tail := by
            cases elseBranch₂ <;> rfl
          rw [hword]
          exact .accept_true rfl (.map hread fun s' hs' => hjoin hs')
      | _ => cases halt
  | _ => cases hblock

/-! ### Lists of statements -/

/-- The token after a statement in a list begins another one or ends the list. -/
theorem front_printAll (ss : List Stmt) (t : Token) :
    front (Stmt.printAll ss ++ t :: rest) = t
      ∨ (front (Stmt.printAll ss ++ t :: rest)).opensStmt = true := by
  cases ss with
  | nil => exact .inl rfl
  | cons s more =>
      obtain ⟨u, us, hus, hu⟩ := s.exists_print_eq_cons
      rw [Stmt.printAll, hus]
      exact .inr hu

/-- A statement that does not begin with a parenthesis or a minus sign ends an expression. -/
theorem stops_print (s : Stmt) (htight : opensTight s.print = false)
    (hrest : (front rest).kind ≠ .arrow) : Stops 0 (s.print ++ rest) := by
  have harrow := s.isArrowNext_print hrest
  obtain ⟨u, us, hus, hu⟩ := s.exists_print_eq_cons
  rw [hus] at harrow htight ⊢
  simp only [opensTight, List.head?_cons, Bool.or_eq_false_iff, beq_eq_false_iff_ne,
    Bool.and_eq_false_iff] at htight
  refine ⟨⟨htight.1, Token.kind_ne_of_opensStmt hu fun _ _ => rfl, fun c hc => ?_⟩, harrow⟩
  -- The only operator that begins a statement is the minus sign.
  rw [List.cons_append, front_cons, Connective.ofToken?_eq_none] at hc
  · cases hc
  · intro hbinary
    rw [Token.opensStmt, Token.opensExpr, hbinary] at hu
    exact htight.2.elim (absurd hbinary) (absurd (eq_of_beq hu))
  · exact Token.kind_ne_of_opensStmt hu fun _ _ => rfl

theorem goesOn_front_printAll (ss : List Stmt) {t : Token}
    (ht : t.kind = .closeBrace ∨ t.kind = .endOfFile) (rest : List Token) :
    (front (Stmt.printAll ss ++ t :: rest)).kind.goesOn = false := by
  rcases front_printAll ss t with heq | hopens
  · rw [heq]
    rcases ht with ht | ht <;> (rw [ht]; rfl)
  · exact Token.goesOn_eq_false hopens

/-- What may follow in a well-formed list, up to the token that ends it, does not go on with a statement. -/
theorem closes_of_precedes {ss : List Stmt} {t : Token} (h : s.precedes ss = true)
    (ht : t.kind = .closeBrace ∨ t.kind = .endOfFile) :
    s.Closes (Stmt.printAll ss ++ t :: rest) := by
  have hgoesOn := goesOn_front_printAll ss ht rest
  cases ss with
  | nil =>
      have hcloses : t.kind.closes = true := by
        rcases ht with ht | ht <;> (rw [ht]; rfl)
      exact ⟨fun _ => .of_closes hcloses 0, hgoesOn, fun _ => ht⟩
  | cons next more =>
      simp only [precedes, Bool.and_eq_true, Bool.not_eq_true', Bool.and_eq_false_iff] at h
      refine ⟨fun hends => ?_, hgoesOn, fun hret => ?_⟩
      · have htight : opensTight next.print = false :=
          h.2.resolve_left fun hfalse => Bool.false_ne_true (hfalse.symm.trans hends)
        rw [Stmt.printAll, List.append_assoc]
        exact next.stops_print htight
          (TokenKind.ne_of_goesOn (goesOn_front_printAll more ht rest) rfl)
      · exact absurd (h.1.symm.trans hret) Bool.false_ne_true

theorem precedes_of_wellFormedAll {ss : List Stmt} (h : Stmt.wellFormedAll (s :: ss) = true) :
    s.wellFormed = true ∧ s.precedes ss = true ∧ Stmt.wellFormedAll ss = true := by
  simpa [Stmt.wellFormedAll, and_assoc] using h

/-- Statements that can be read are read one after the other. -/
theorem readsBody_of_reads {ss : List Stmt} (hform : Stmt.wellFormedAll ss = true)
    (h : ∀ s ∈ ss, s.Reads) : ReadsBody ss := by
  induction ss with
  | nil =>
      intro n rest hn
      obtain ⟨n, rfl⟩ : ∃ k, n = k + 1 := ⟨n - 1, by omega⟩
      exact .peek (.skip (.pure rfl))
  | cons s more ih =>
      intro n rest hn
      obtain ⟨-, hprecedes, hmore⟩ := precedes_of_wellFormedAll hform
      obtain ⟨u, us, hus, hu⟩ := s.exists_print_eq_cons
      have hlength : s.print.length = us.length + 1 := by rw [hus, List.length_cons]
      rw [Stmt.printAll, List.length_append] at hn
      obtain ⟨n, rfl⟩ : ∃ k, n = k + 1 := ⟨n - 1, by omega⟩
      have hread := (h s List.mem_cons_self).statement n (Stmt.printAll more ++ .closeBrace :: rest)
        (by omega) (closes_of_precedes hprecedes (.inl rfl))
      rw [Stmt.printAll, List.append_assoc, statements]
      refine .peek ?_
      have hfront : front (s.print ++ (Stmt.printAll more ++ .closeBrace :: rest)) = u := by
        rw [hus]
        rfl
      rw [hfront]
      split
      · next heq => exact absurd heq (Token.kind_ne_of_opensStmt hu fun _ _ => rfl)
      · next heq => exact absurd heq (Token.kind_ne_of_opensStmt hu fun _ _ => rfl)
      · refine .bind hread fun s' hs' => ?_
        refine .map (ih hmore (fun s hs => h s (List.mem_cons_of_mem _ hs)) n rest (by omega)) ?_
        exact fun ss' hss' => congrArg₂ (· :: ·) hs' hss'

end Stmt

/-! ### All trees -/

theorem Function.isSome_of_wellFormedAll {fs : List Function}
    (h : Function.wellFormedAll fs = true) : ∀ f ∈ fs, f.name.isSome = true := by
  induction fs with
  | nil => exact nofun
  | cons f more ih =>
      simp only [Function.wellFormedAll, Bool.and_eq_true] at h
      rintro g (_ | ⟨_, hg⟩)
      · exact h.1.1
      · exact ih h.2 g hg

mutual

/-- A well-formed expression is read back wherever it is printed. -/
theorem Expr.reads : ∀ {e : Expr}, e.wellFormed = true → e.Reads
  | .number _, h => Expr.reads_number (of_decide_eq_true h)
  | .text value, _ => Expr.reads_text value
  | .bool value, _ => Expr.reads_bool value
  | .var name id, _ => Expr.reads_var name id
  | .this id, _ => Expr.reads_this id
  | .binary op left right, h => by
      rw [Expr.wellFormed, Bool.and_eq_true] at h
      exact Expr.Reads.join (.binary op) (Expr.reads h.1) (Expr.reads h.2)
  | .logical op left right, h => by
      rw [Expr.wellFormed, Bool.and_eq_true] at h
      exact Expr.Reads.join (.logical op) (Expr.reads h.1) (Expr.reads h.2)
  | .unary op operand, h => Expr.ReadsAt.reads (Expr.Reads.sign op (Expr.reads h))
  | .member object property, h => Expr.ReadsAt.reads (Expr.Reads.select property (Expr.reads h))
  | .call callee args, h => by
      rw [Expr.wellFormed, Bool.and_eq_true] at h
      exact Expr.ReadsAt.reads ((Expr.reads h.1).apply (Expr.readsAll h.2))
  | .lambda ⟨name, params, returnType, body⟩, h => by
      rw [Expr.wellFormed, Bool.and_eq_true, Option.isNone_iff_eq_none] at h
      obtain ⟨rfl, hbody⟩ := h
      exact (Stmt.readsBody hbody).lambda

theorem Expr.readsAll : ∀ {es : List Expr}, Expr.wellFormedAll es = true → ∀ e ∈ es, e.Reads
  | [], _ => nofun
  | e :: more, h => by
      rw [Expr.wellFormedAll, Bool.and_eq_true] at h
      rintro a (_ | ⟨_, ha⟩)
      · exact Expr.reads h.1
      · exact Expr.readsAll h.2 a ha

/-- A well-formed statement is read back wherever it is printed. -/
theorem Stmt.reads : ∀ {s : Stmt}, s.wellFormed = true → s.Reads
  | .expr _, h => Stmt.reads_expr (Expr.reads h)
  | .declare _ _, h => Stmt.reads_declare (Expr.reads h)
  | .assign _ _, h => Stmt.reads_assign (Expr.reads h)
  | .update target op, _ => Stmt.reads_update target op
  | .setMember _ _ _, h => by
      rw [Stmt.wellFormed, Bool.and_eq_true] at h
      exact Stmt.reads_setMember (Expr.reads h.1) (Expr.reads h.2)
  | .block _, h => Stmt.reads_block (Stmt.readsBody h)
  | .ifElse _ _ none, h => by
      simp only [Stmt.wellFormed, Bool.and_eq_true] at h
      obtain ⟨⟨htest, hblock⟩, hthen⟩ := h
      exact Stmt.reads_if (Expr.reads htest) (Stmt.reads hthen) hblock
  | .ifElse _ _ (some _), h => by
      simp only [Stmt.wellFormed, Bool.and_eq_true] at h
      obtain ⟨⟨⟨⟨htest, hblock⟩, hthen⟩, halt⟩, helse⟩ := h
      exact Stmt.reads_else (Expr.reads htest) (Stmt.reads hthen) hblock (Stmt.reads helse) halt
  | .whileLoop _ _, h => by
      simp only [Stmt.wellFormed, Bool.and_eq_true] at h
      obtain ⟨⟨htest, hblock⟩, hbody⟩ := h
      exact Stmt.reads_whileLoop (Expr.reads htest) (Stmt.reads hbody) hblock
  | .function ⟨_, _, _, _⟩, h => by
      rw [Stmt.wellFormed, Bool.and_eq_true] at h
      exact Stmt.reads_function h.1 (Stmt.readsBody h.2)
  | .ret none, _ => Stmt.reads_ret nofun
  | .ret (some _), h => Stmt.reads_ret fun _ heq => by
      cases heq
      exact Expr.reads h
  | .classDecl _ _, h =>
      Stmt.reads_classDecl (Function.isSome_of_wellFormedAll h) (Function.readsBodies h)

theorem Stmt.readsAll : ∀ {ss : List Stmt}, Stmt.wellFormedAll ss = true → ∀ s ∈ ss, s.Reads
  | [], _ => nofun
  | s :: more, h => by
      obtain ⟨hs, -, hmore⟩ := Stmt.precedes_of_wellFormedAll h
      rintro a (_ | ⟨_, ha⟩)
      · exact Stmt.reads hs
      · exact Stmt.readsAll hmore a ha

theorem Stmt.readsBody : ∀ {ss : List Stmt}, Stmt.wellFormedAll ss = true → Stmt.ReadsBody ss
  | ss, h => Stmt.readsBody_of_reads h (Stmt.readsAll h)

theorem Function.readsBodies : ∀ {fs : List Function}, Function.wellFormedAll fs = true →
    ∀ f ∈ fs, Stmt.ReadsBody f.body
  | [], _ => nofun
  | ⟨_, _, _, _⟩ :: more, h => by
      simp only [Function.wellFormedAll, Bool.and_eq_true] at h
      rintro g (_ | ⟨_, hg⟩)
      · exact Stmt.readsBody h.1.2
      · exact Function.readsBodies h.2 g hg

end

/-! ### Programs -/

/-- The statements of a program are read up to the end of the source. -/
theorem program_printAll (ss : List Stmt) (hform : Stmt.wellFormedAll ss = true) (line : Nat) {n : Nat}
    (hn : 16 * (Stmt.printAll ss).length + 1 < n) (drawn : Nat) :
    ∃ p drawn', program n ⟨Stmt.printAll ss ++ [.eof line], drawn⟩ = .ok p ⟨[.eof line], drawn'⟩
      ∧ p.skeleton = Stmt.skeletonOfAll ss := by
  induction ss generalizing n drawn with
  | nil =>
      obtain ⟨n, rfl⟩ : ∃ k, n = k + 1 := ⟨n - 1, by omega⟩
      exact ⟨[], drawn, rfl, rfl⟩
  | cons s more ih =>
      obtain ⟨hs, hprecedes, hmore⟩ := Stmt.precedes_of_wellFormedAll hform
      obtain ⟨u, us, hus, hu⟩ := s.exists_print_eq_cons
      have hlength : s.print.length = us.length + 1 := by rw [hus, List.length_cons]
      rw [Stmt.printAll, List.length_append] at hn
      obtain ⟨n, rfl⟩ : ∃ k, n = k + 1 := ⟨n - 1, by omega⟩
      obtain ⟨s', drawn₁, hs', hlike⟩ := (Stmt.reads hs).statement n
        (Stmt.printAll more ++ [.eof line]) (by omega)
        (Stmt.closes_of_precedes hprecedes (.inr rfl)) drawn
      obtain ⟨p, drawn₂, hp, hskeleton⟩ := ih hmore (n := n) (by omega) drawn₁
      have hfront : front (s.print ++ (Stmt.printAll more ++ [.eof line])) = u := by
        rw [hus]
        rfl
      refine ⟨⟨u.line, s'⟩ :: p, drawn₂, ?_, congrArg₂ (· :: ·) hlike hskeleton⟩
      rw [Stmt.printAll, List.append_assoc, program_succ]
      have hopen : u.kind ≠ .endOfFile := Token.kind_ne_of_opensStmt hu fun _ _ => rfl
      simp [Bind.bind, EStateM.bind, hfront, hopen,
        EStateM.adaptExcept, hs', hp, pure, EStateM.pure]

theorem program_depthFor {ss : List Stmt} (h : Stmt.wellFormedAll ss = true) (line drawn : Nat) :
    ∃ p c, program (depthFor (Stmt.printAll ss ++ [.eof line])) ⟨Stmt.printAll ss ++ [.eof line], drawn⟩
      = .ok p c ∧ p.skeleton = Stmt.skeletonOfAll ss := by
  have hdepth : 16 * (Stmt.printAll ss).length + 1 < depthFor (Stmt.printAll ss ++ [.eof line]) := by
    rw [depthFor, List.length_append, List.length_singleton]
    omega
  obtain ⟨p, drawn', hp, hskeleton⟩ := program_printAll ss h line hdepth drawn
  exact ⟨p, _, hp, hskeleton⟩

/-- Parsing undoes printing: a well-formed list of statements is read back from its tokens, up to ids and
    lines. -/
theorem parse_printAll (ss : List Stmt) (h : Stmt.wellFormedAll ss = true) (line drawn : Nat) :
    ∃ p, (parse (Stmt.printAll ss ++ [.eof line]) drawn).result = .ok p
      ∧ p.skeleton = Stmt.skeletonOfAll ss := by
  obtain ⟨p, c, hp, hskeleton⟩ := program_depthFor h line drawn
  refine ⟨p, ?_, hskeleton⟩
  rw [parse, hp]

/-- A member of a parenthesis, an unnamed function as an argument, a `return` without a value inside an
    `else if`, and operators of one level on the right. -/
theorem parse_printAll_of_nested :
    let nested : List Stmt :=
      [.setMember (.logical .or (.var "a" ⟨0⟩) (.this ⟨1⟩)) "b"
          (.call (.var "f" ⟨2⟩) [.lambda ⟨none, [⟨"y", some "T"⟩], none, [.ret (some (.var "y" ⟨3⟩))]⟩]),
        .ifElse (.bool true) (.block [])
          (some (.ifElse (.unary .not (.var "x" ⟨4⟩)) (.block [.ret none]) none)),
        .declare "x" (.binary .sub (.number 1) (.binary .sub (.number 2) (.unary .negate (.number 3))))]
    Stmt.wellFormedAll nested = true ∧
      ∃ p, (parse (Stmt.printAll nested ++ [.eof 1]) 7).result = .ok p
        ∧ p.skeleton = Stmt.skeletonOfAll nested :=
  ⟨by decide +kernel, parse_printAll _ (by decide +kernel) 1 7⟩

end Kiln
