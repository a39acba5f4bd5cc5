import Argand.Proofs.Grammar
import Argand.Postfix.Read

namespace Argand.Postfix

variable {op : Operator} {leaves : Nat → Bool} {pending : List Pending}

def items (output : List (Located (Item Float))) : List (Item Float) := output.map (·.value)

@[simp] theorem items_nil : items [] = [] := rfl

@[simp] theorem items_cons (i : Item Float) (p : Nat) (output : List (Located (Item Float))) :
    items (⟨i, p⟩ :: output) = i :: items output := rfl

@[simp] theorem items_append (output output' : List (Located (Item Float))) :
    items (output ++ output') = items output ++ items output' := List.map_append

/-- The latest of what is pending does not leave under the condition. -/
def Blocked (leaves : Nat → Bool) : List Pending → Prop
  | .operator op _ :: _ => leaves op.precedence = false
  | .negation _ :: _ => leaves negationPrecedence = false
  | .opening _ _ _ :: _ | [] => True

theorem release_of_blocked (h : Blocked leaves pending) (output : List (Located (Item Float))) :
    release leaves pending output = (pending, output) := by
  cases pending with
  | nil => rfl
  | cons top rest => cases top <;> simp_all [Blocked, release]

theorem blocked_release (leaves : Nat → Bool) (pending : List Pending)
    (output : List (Located (Item Float))) : Blocked leaves (release leaves pending output).1 := by
  fun_induction Postfix.release leaves pending output with
  | case1 op position rest output leaf ih | case3 position rest output leaf ih => exact ih
  | case2 op position rest output stays => exact Bool.eq_false_iff.mpr stays
  | case4 position rest output stays => exact Bool.eq_false_iff.mpr stays
  | case5 pending output other other' =>
    rcases pending with _ | ⟨_ | _ | _, _⟩
    · trivial
    · exact absurd rfl (other _ _ _)
    · exact absurd rfl (other' _ _)
    · trivial

theorem release_operator (h : leaves op.precedence = true) (p : Nat) (pending : List Pending)
    (output : List (Located (Item Float))) :
    release leaves (.operator op p :: pending) output =
      release leaves pending (⟨.binary op, p⟩ :: output) := by
  simp [release, h]

theorem release_negation (h : leaves negationPrecedence = true) (p : Nat) (pending : List Pending)
    (output : List (Located (Item Float))) :
    release leaves (.negation p :: pending) output =
      release leaves pending (⟨.negate, p⟩ :: output) := by
  simp [release, h]

theorem blocked_pow (pending : List Pending) : Blocked (goesBefore .pow) pending := by
  rcases pending with _ | ⟨⟨⟨⟩, _⟩ | _ | _, _⟩ <;> trivial

end Argand.Postfix
