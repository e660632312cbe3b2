/-
Module: Kiln.Proofs.Evaluation.Operands
Purpose: What operators see of their operands, and what they give. They see the kind of a value, and more of it
  only if it is a number, a text or a truth value; comparisons for equality apart, operands that look the same in
  this way give the same. What operators give is a number, a text or a truth value.
Main exports: Value.Looks, Operators.binary_eq_of_looks, Operators.unary_eq_of_looks, Value.isPlain,
  Operators.isPlain_of_binary, Operators.isPlain_of_unary, Operators.exists_number_of_update
-/
import Kiln.Eval.Operators

namespace Kiln

/-! ### What operators see -/

/-- The second value looks to operators as the first does. -/
structure Value.Looks (v v' : Value) : Prop where
  kind : v'.kind = v.kind
  number : ∀ n, v' = .number n ↔ v = .number n
  text : ∀ s, v' = .text s ↔ v = .text s
  bool : ∀ b, v' = .bool b ↔ v = .bool b

namespace Operators

variable {v v' u u' result : Value}

theorem binary_eq_of_looks (op : BinaryOp) (hv : v.Looks v') (hu : u.Looks u')
    (same : v'.same u' = v.same u) : binary op v' u' = binary op v u := by
  fun_cases binary op v u with
  | case1 => rw [binary, same]
  | case2 => rw [binary, same]
  | case3 s r => rw [(hv.text s).2 rfl, (hu.text r).2 rfl, binary]
  | case4 op m n hequal hunequal =>
      rw [(hv.number m).2 rfl, (hu.number n).2 rfl]
      rw [binary] <;> assumption
  | case5 op v u hequal hunequal hnumbers htexts =>
      -- the other operands are no numbers or texts either
      rw [binary, hv.kind, hu.kind]
      · exact hequal
      · exact hunequal
      · intro m n hm hn
        exact hnumbers m n ((hv.number m).1 hm) ((hu.number n).1 hn)
      · intro s r hop hs hr
        exact htexts s r hop ((hv.text s).1 hs) ((hu.text r).1 hr)

theorem unary_eq_of_looks (op : UnaryOp) (hv : v.Looks v') : unary op v' = unary op v := by
  fun_cases unary op v with
  | case1 b => rw [(hv.bool b).2 rfl, unary]
  | case2 n => rw [(hv.number n).2 rfl, unary]
  | case3 op v hbool hnumber =>
      rw [unary, hv.kind]
      · intro b hop hb
        exact hbool b hop ((hv.bool b).1 hb)
      · intro n hop hn
        exact hnumber n hop ((hv.number n).1 hn)

end Operators

/-! ### What operators give -/

/-- Whether a value is a number, a text or a truth value. -/
def Value.isPlain : Value → Bool
  | .number _ => true
  | .text _ => true
  | .bool _ => true
  | _ => false

namespace Operators

variable {v u result : Value}

theorem isPlain_of_arithmetic {op : BinaryOp} {m n : Int64} (h : arithmetic op m n = .ok result) :
    result.isPlain = true := by
  unfold arithmetic at h
  split at h
  case h_4 | h_5 =>
    split at h
    · cases h
    · cases h
      rfl
  all_goals
    cases h
    rfl

theorem isPlain_of_binary {op : BinaryOp} (h : binary op v u = .ok result) : result.isPlain = true := by
  unfold binary at h
  split at h
  · cases h
    rfl
  · cases h
    rfl
  · cases h
    rfl
  · exact isPlain_of_arithmetic h
  · cases h

theorem isPlain_of_unary {op : UnaryOp} (h : unary op v = .ok result) : result.isPlain = true := by
  unfold unary at h
  split at h
  · cases h
    rfl
  · cases h
    rfl
  · cases h

/-- An update gives its variable a number, if it gives it anything. -/
theorem exists_number_of_update {op : UpdateOp} {old new : Value}
    (h : binary op.binary old (.number 1) = .ok new) : ∃ n, new = .number n := by
  cases old with
  | number m =>
      cases op with
      | increment =>
          cases h
          exact ⟨_, rfl⟩
      | decrement =>
          cases h
          exact ⟨_, rfl⟩
  | _ => cases op <;> cases h

end Operators

end Kiln
