/-! # Reference counting

Objects with strong references: those from outside, and those that an object holds. An object is destroyed when the
last strong reference to it is gone, and what it holds goes with it. So what is left is not what can be reached from
outside: a cycle keeps itself. -/

namespace Lib
variable {O : Type} {root : O → Prop} {holds : O → O → Prop} {y : O}

/-- The objects that are destroyed: nothing outside holds them, and all objects that hold them are destroyed. -/
inductive Released (root : O → Prop) (holds : O → O → Prop) : O → Prop
  | mk {y : O} (hroot : ¬ root y) (hholders : ∀ x, holds x y → Released root holds x) : Released root holds y

namespace Released

/-- Objects of which each is held from outside or by one of them are kept. -/
theorem kept {group : O → Prop} (hgroup : ∀ y, group y → root y ∨ ∃ x, group x ∧ holds x y) (hy : group y) :
    ¬ Released root holds y := by
  intro hreleased
  induction hreleased with
  | mk hroot _ ih =>
    rcases hgroup _ hy with hheld | ⟨x, hx, hxy⟩
    · exact hroot hheld
    · exact ih x hxy hx

theorem kept_of_root (hy : root y) : ¬ Released root holds y := by
  rintro ⟨hroot, -⟩
  exact hroot hy

/-- An object that nothing holds. -/
theorem of_unheld (hroot : ¬ root y) (hholds : ∀ x, ¬ holds x y) : Released root holds y := by
  refine .mk hroot ?_
  intro x hx
  exact absurd hx (hholds x)

end Released
end Lib
