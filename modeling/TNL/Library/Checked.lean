import Mathlib.Algebra.Group.Nat.Defs
import Mathlib.Logic.Function.Basic
import Mathlib.Tactic.Common

/-!
# Checked arithmetic and slices

An operation that overflows, or an index outside of a slice, has no result.
-/
namespace TNL.Library

/-- The sum of two numbers of `w` bits. -/
def checkedAdd (w a b : ℕ) : Option ℕ := if a + b < 2 ^ w then some (a + b) else none

/-- The amount of a shift has to be less than the width. -/
def checkedShl {w : ℕ} (x : BitVec w) (n : ℕ) : Option (BitVec w) :=
  if n < w then some (x <<< n) else none

def checkedShr {w : ℕ} (x : BitVec w) (n : ℕ) : Option (BitVec w) :=
  if n < w then some (x >>> n) else none

section arithmetic

variable {w a b n : ℕ} {x : BitVec w}

theorem checkedAdd_of_lt (h : a + b < 2 ^ w) : checkedAdd w a b = some (a + b) := if_pos h

theorem checkedShl_of_lt (h : n < w) : checkedShl x n = some (x <<< n) := if_pos h

theorem checkedShl_of_le (h : w ≤ n) : checkedShl x n = none := if_neg (Nat.not_lt.mpr h)

theorem checkedShr_of_lt (h : n < w) : checkedShr x n = some (x >>> n) := if_pos h

end arithmetic

/-- Elements with their indices. Only the first `len` can be used. -/
structure Slice (α : Type*) where
  len : ℕ
  elems : ℕ → α

namespace Slice

variable {α : Type*} {s : Slice α} {i : ℕ}

def get (s : Slice α) (i : ℕ) : Option α := if i < s.len then some (s.elems i) else none

def set (s : Slice α) (i : ℕ) (a : α) : Option (Slice α) :=
  if i < s.len then some { s with elems := Function.update s.elems i a } else none

/-- Keep the first elements, and fill up with a value. -/
def resize (s : Slice α) (len : ℕ) (a : α) : Slice α where
  len := len
  elems i := if i < s.len then s.elems i else a

theorem get_of_lt (h : i < s.len) : s.get i = some (s.elems i) := if_pos h

theorem set_of_lt (h : i < s.len) (a : α) :
    s.set i a = some { s with elems := Function.update s.elems i a } := if_pos h

/-- The same where the length and the elements are at hand. -/
theorem get_mk {len : ℕ} {elems : ℕ → α} (h : i < len) : get ⟨len, elems⟩ i = some (elems i) :=
  if_pos h

theorem set_mk {len : ℕ} {elems : ℕ → α} (h : i < len) (a : α) :
    set ⟨len, elems⟩ i a = some ⟨len, Function.update elems i a⟩ := if_pos h

end Slice

end TNL.Library
