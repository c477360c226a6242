import Reckoner.Json

/-!
# Limits

How long a formula may be and how deep it may nest, and the JSON form of these limits.

Main definitions:

* `Limits` — the limits, with their usual values;
* `Limits.ofJson?` — reads limits: an object that may name either of them, or a list of up to two
  values in the order of the fields. What is not given keeps its usual value.
-/

namespace Reckoner

/-- Limits on formulas. -/
structure Limits where
  /-- The most characters a formula may have. -/
  maxLength : Nat := 4096
  /-- The most levels a formula may nest. -/
  maxDepth : Nat := 256
  deriving DecidableEq

namespace Limits

/-- A count: an integer that fits into 64 bits. -/
def count? : Json → Option Nat
  | .int n => if 0 ≤ n ∧ n < UInt64.size then some n.toNat else none
  | _ => none

/-- Sets the limit of a name; other names are ignored. -/
def setField? (limits : Limits) : String × Json → Option Limits
  | (name, value) =>
    if name = "max_length" then (count? value).map ({ limits with maxLength := · })
    else if name = "max_depth" then (count? value).map ({ limits with maxDepth := · })
    else some limits

/-- Reads limits from their JSON form. -/
def ofJson? : Json → Option Limits
  | .obj fields => fields.foldlM setField? {}
  | .arr [] => some {}
  | .arr [length] => do
    let length ← count? length
    some { maxLength := length }
  | .arr [length, depth] => do
    let length ← count? length
    let depth ← count? depth
    some ⟨length, depth⟩
  | _ => none

end Limits

end Reckoner
