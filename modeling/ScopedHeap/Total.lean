/-!
# Totals

The sum of a number taken from each element of a list, and how it changes with one element.
-/
namespace ScopedHeap

variable {α β : Type}

def total (f : α → Nat) : List α → Nat
  | [] => 0
  | a :: rest => f a + total f rest

@[simp] theorem total_nil (f : α → Nat) : total f [] = 0 := rfl

@[simp] theorem total_cons (f : α → Nat) (a : α) (l : List α) :
    total f (a :: l) = f a + total f l := rfl

@[simp] theorem total_append (f : α → Nat) (l k : List α) :
    total f (l ++ k) = total f l + total f k := by
  induction l with
  | nil => exact (Nat.zero_add _).symm
  | cons a l ih => rw [List.cons_append, total_cons, total_cons, ih, Nat.add_assoc]

theorem total_modify (f : α → Nat) (g : α → α) (l : List α) (i : Nat) :
    total f (l.modify i g) + l[i]?.elim 0 f = total f l + l[i]?.elim 0 fun a => f (g a) := by
  induction l generalizing i with
  | nil => cases i <;> rfl
  | cons a l ih =>
    cases i with
    | zero =>
      simp only [List.modify_zero_cons, total_cons, List.getElem?_cons_zero, Option.elim]
      omega
    | succ i =>
      have rest := ih i
      simp only [List.modify_succ_cons, total_cons, List.getElem?_cons_succ]
      omega

theorem total_set (f : α → Nat) (b : α) (l : List α) (i : Nat) :
    total f (l.set i b) + l[i]?.elim 0 f = total f l + l[i]?.elim 0 fun _ => f b := by
  induction l generalizing i with
  | nil => rfl
  | cons a l ih =>
    cases i with
    | zero =>
      simp only [List.set_cons_zero, total_cons, List.getElem?_cons_zero, Option.elim]
      omega
    | succ i =>
      have rest := ih i
      simp only [List.set_cons_succ, total_cons, List.getElem?_cons_succ]
      omega

end ScopedHeap
