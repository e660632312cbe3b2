/-
Module: Kiln.Proofs.Grammar.Triples
Purpose: Two ways to speak about a parser. It yields something on some tokens if it succeeds there, whatever
  ids have been drawn before, and leaves exactly the tokens that are said to be left; it ensures
  something if that holds of every success. Each step from which the grammar is built has one rule of
  either kind, and what is said about a rule of the grammar is put together from them.
Main exports: Parser.Yields, Parser.Ensures, Yields.bind, Ensures.bind
-/
import Kiln.Parser.Grammar

namespace Kiln.Parser

variable {α β : Type}

/-- The parser succeeds on the tokens `before`, leaves `after` of them, and gives something with the property
    `P`. -/
def Yields (p : Parser α) (before after : List Token) (P : α → Prop) : Prop :=
  ∀ drawn, ∃ a drawn', p ⟨before, drawn⟩ = .ok a ⟨after, drawn'⟩ ∧ P a

namespace Yields

variable {ts before after : List Token} {P : α → Prop} {Q : β → Prop}

theorem pure {a : α} (h : P a) : Yields (pure a) ts ts P :=
  fun drawn => ⟨a, drawn, rfl, h⟩

theorem mono {p : Parser α} {P' : α → Prop} (h : Yields p before after P) (hP : ∀ a, P a → P' a) :
    Yields p before after P' := by
  intro drawn
  obtain ⟨a, drawn', ha, hPa⟩ := h drawn
  exact ⟨a, drawn', ha, hP a hPa⟩

theorem bind {p : Parser α} {f : α → Parser β} (hp : Yields p before ts P)
    (hf : ∀ a, P a → Yields (f a) ts after Q) : Yields (p >>= f) before after Q := by
  intro drawn
  obtain ⟨a, drawn', ha, hP⟩ := hp drawn
  obtain ⟨b, drawn'', hb, hQ⟩ := hf a hP drawn'
  refine ⟨b, drawn'', ?_, hQ⟩
  simp only [Bind.bind, EStateM.bind, ha, hb]

/-- A parser whose result is only wrapped. -/
theorem map {p : Parser α} {f : α → β} (hp : Yields p before after P) (hf : ∀ a, P a → Q (f a)) :
    Yields (do return f (← p)) before after Q :=
  hp.bind fun a ha => pure (hf a ha)

theorem peek {f : Token → Parser β} (h : Yields (f (front ts)) ts after Q) :
    Yields (Parser.peek >>= f) ts after Q := h

theorem skip {t : Token} {f : Unit → Parser β} (h : Yields (f ()) ts after Q) :
    Yields (Parser.skip >>= f) (t :: ts) after Q := h

theorem take {t : Token} {f : Token → Parser β} (h : Yields (f t) ts after Q) :
    Yields (Parser.take >>= f) (t :: ts) after Q := h

theorem atFunction {f : Bool → Parser β} (h : Yields (f (isArrowAhead ts)) ts after Q) :
    Yields (Parser.atFunction >>= f) ts after Q := h

theorem expect {kind : TokenKind} {cause : Token → ParseError} {t : Token} {f : Token → Parser β}
    (hkind : t.kind = kind) (h : Yields (f t) ts after Q) :
    Yields (Parser.expect kind cause >>= f) (t :: ts) after Q := by
  intro drawn
  have ht : Parser.expect kind cause ⟨t :: ts, drawn⟩ = .ok t ⟨ts, drawn⟩ := by
    simp only [Parser.expect, Bind.bind, EStateM.bind, Parser.peek, front, List.headD_cons, hkind,
      if_true, Parser.take]
  obtain ⟨b, drawn', hb, hQ⟩ := h drawn
  refine ⟨b, drawn', ?_, hQ⟩
  simp only [Bind.bind, EStateM.bind, ht, hb]

theorem accept_true {kind : TokenKind} {t : Token} {f : Bool → Parser β} (hkind : t.kind = kind)
    (h : Yields (f true) ts after Q) : Yields (Parser.accept kind >>= f) (t :: ts) after Q := by
  intro drawn
  have ht : Parser.accept kind ⟨t :: ts, drawn⟩ = .ok true ⟨ts, drawn⟩ := by
    simp only [Parser.accept, Bind.bind, EStateM.bind, Parser.peek, front, List.headD_cons, hkind,
      if_true]
    rfl
  obtain ⟨b, drawn', hb, hQ⟩ := h drawn
  refine ⟨b, drawn', ?_, hQ⟩
  simp only [Bind.bind, EStateM.bind, ht, hb]

theorem accept_false {kind : TokenKind} {f : Bool → Parser β} (hkind : (front ts).kind ≠ kind)
    (h : Yields (f false) ts after Q) : Yields (Parser.accept kind >>= f) ts after Q := by
  intro drawn
  have ht : Parser.accept kind ⟨ts, drawn⟩ = .ok false ⟨ts, drawn⟩ := by
    simp only [Parser.accept, Bind.bind, EStateM.bind, Parser.peek, if_neg hkind]
    rfl
  obtain ⟨b, drawn', hb, hQ⟩ := h drawn
  refine ⟨b, drawn', ?_, hQ⟩
  simp only [Bind.bind, EStateM.bind, ht, hb]

theorem freshId {f : NodeId → Parser β} (h : ∀ id, Yields (f id) ts after Q) :
    Yields (Parser.freshId >>= f) ts after Q :=
  fun drawn => h _ (drawn + 1)

end Yields

/-- Whenever the parser succeeds on the tokens `before`, what it gives and the tokens it leaves are related by
    `Q`. -/
def Ensures (p : Parser α) (before : List Token) (Q : α → List Token → Prop) : Prop :=
  ∀ drawn a c, p ⟨before, drawn⟩ = .ok a c → Q a c.tokens

namespace Ensures

variable {ts : List Token} {P : α → List Token → Prop} {Q : β → List Token → Prop}

theorem pure {a : α} (h : P a ts) : Ensures (pure a) ts P := by
  rintro drawn _ _ ⟨⟩
  exact h

theorem throw {e : ParseError} : Ensures (throw e) ts P := nofun

theorem mono {p : Parser α} {P' : α → List Token → Prop} (h : Ensures p ts P)
    (hP : ∀ a after, P a after → P' a after) : Ensures p ts P' :=
  fun drawn a c ha => hP a c.tokens (h drawn a c ha)

theorem bind {p : Parser α} {f : α → Parser β} (hp : Ensures p ts P)
    (hf : ∀ a after, P a after → Ensures (f a) after Q) : Ensures (p >>= f) ts Q := by
  intro drawn b c h
  simp only [Bind.bind, EStateM.bind] at h
  split at h
  · next a c' ha => exact hf a c'.tokens (hp drawn a c' ha) c'.drawn b c h
  · cases h

/-- A parser whose result is only wrapped. -/
theorem map {p : Parser α} {f : α → β} (hp : Ensures p ts P) (hf : ∀ a after, P a after → Q (f a) after) :
    Ensures (do return f (← p)) ts Q :=
  hp.bind fun a after ha => pure (hf a after ha)

theorem peek {f : Token → Parser β} (h : Ensures (f (front ts)) ts Q) :
    Ensures (Parser.peek >>= f) ts Q := h

theorem atFunction {f : Bool → Parser β} (h : Ensures (f (isArrowAhead ts)) ts Q) :
    Ensures (Parser.atFunction >>= f) ts Q := h

theorem freshId {f : NodeId → Parser β} (h : ∀ id, Ensures (f id) ts Q) :
    Ensures (Parser.freshId >>= f) ts Q :=
  fun drawn b c hb => h _ (drawn + 1) b c hb

theorem take {f : Token → Parser β} (h : ∀ t rest, ts = t :: rest → Ensures (f t) rest Q) :
    Ensures (Parser.take >>= f) ts Q := by
  cases ts with
  | nil => exact nofun
  | cons t rest => exact h t rest rfl

theorem skip {f : Unit → Parser β} (h : ∀ t rest, ts = t :: rest → Ensures (f ()) rest Q) :
    Ensures (Parser.skip >>= f) ts Q := by
  cases ts with
  | nil => exact nofun
  | cons t rest => exact h t rest rfl

theorem expect {kind : TokenKind} {cause : Token → ParseError} {f : Token → Parser β}
    (h : ∀ t rest, ts = t :: rest → t.kind = kind → Ensures (f t) rest Q) :
    Ensures (Parser.expect kind cause >>= f) ts Q := by
  have htake : Ensures (Parser.expect kind cause) ts
      fun t rest => ts = t :: rest ∧ t.kind = kind := by
    refine .peek ?_
    split
    · next hkind =>
      cases ts with
      | nil => exact nofun
      | cons t rest =>
          rintro drawn _ _ ⟨⟩
          exact ⟨rfl, hkind⟩
    · exact .throw
  exact htake.bind fun t rest ht => h t rest ht.1 ht.2

theorem accept {kind : TokenKind} {f : Bool → Parser β}
    (htrue : ∀ t rest, ts = t :: rest → t.kind = kind → Ensures (f true) rest Q)
    (hfalse : (front ts).kind ≠ kind → Ensures (f false) ts Q) :
    Ensures (Parser.accept kind >>= f) ts Q := by
  have htake : Ensures (Parser.accept kind) ts fun b rest =>
      (b = true ∧ ∃ t, ts = t :: rest ∧ t.kind = kind)
        ∨ (b = false ∧ rest = ts ∧ (front ts).kind ≠ kind) := by
    refine .peek ?_
    split
    · next hkind =>
      refine .skip ?_
      rintro t rest rfl
      exact .pure (.inl ⟨rfl, t, rfl, hkind⟩)
    · next hkind => exact .pure (.inr ⟨rfl, rfl, hkind⟩)
  refine htake.bind ?_
  rintro b rest (⟨rfl, t, ht, hkind⟩ | ⟨rfl, rfl, hkind⟩)
  · exact htrue t rest ht hkind
  · exact hfalse hkind

end Ensures

end Kiln.Parser
