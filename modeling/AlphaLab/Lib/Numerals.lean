/-
  The instances behind numerals above one, each a constant: a definition over any field that
  uses one as a local instance holds no proof of its own.
-/
import Mathlib.Data.Nat.Init
import Mathlib.Algebra.GroupWithZero.Nat

namespace Numerals

theorem two : Nat.AtLeastTwo 2 := ⟨by decide⟩
theorem three : Nat.AtLeastTwo 3 := ⟨by decide⟩
theorem four : Nat.AtLeastTwo 4 := ⟨by decide⟩
theorem hundred : Nat.AtLeastTwo 100 := ⟨by decide⟩
theorem two_ne_zero : NeZero 2 := ⟨by decide⟩

end Numerals
