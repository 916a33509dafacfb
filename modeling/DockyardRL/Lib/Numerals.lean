import Mathlib.Algebra.GroupWithZero.Nat
import Mathlib.Data.Nat.Init

/-! What numerals rest on, under names. -/
namespace DockyardRL
namespace Numerals

scoped instance neZero_two : NeZero 2 := ⟨Nat.succ_ne_zero 1⟩

scoped instance atLeastTwo_ten : Nat.AtLeastTwo 10 := ⟨Nat.le_add_left 2 8⟩

end Numerals
end DockyardRL
