/-!
Lists of texts in the order of their code points.
-/

namespace Storefront.Text

def sorted (texts : List String) : List String := texts.mergeSort fun a b => decide (a ≤ b)

theorem sorted_perm (texts : List String) : (sorted texts).Perm texts := List.mergeSort_perm _ _

end Storefront.Text
