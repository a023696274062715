import Mathlib.Data.List.Nodup
import Mathlib.Logic.Function.Basic

/-! # Queues that hold what is due

A family of queues, and a relation that says which entries are due in which of them. The queues hold what is due when
each has exactly the entries that are due in it, each once: then an entry that is taken out was due, and taking it out
is its only execution. -/

namespace Lib
variable {L F : Type} {queues : L → List F} {due due' : L → F → Prop} {l : L} {f : F}

structure Holds (queues : L → List F) (due : L → F → Prop) : Prop where
  nodup : ∀ l, (queues l).Nodup
  mem : ∀ l f, f ∈ queues l ↔ due l f

namespace Holds

theorem congr (h : Holds queues due) (hdue : ∀ l f, due' l f ↔ due l f) : Holds queues due' where
  nodup := h.nodup
  mem l f := (h.mem l f).trans (hdue l f).symm

theorem due_head {rest : List F} (h : Holds queues due) (hqueue : queues l = f :: rest) : due l f := by
  rw [← h.mem, hqueue]
  exact List.mem_cons_self

variable [DecidableEq L]

/-- The head of a queue is taken out and is not due any more. -/
theorem pop {rest : List F} (h : Holds queues due) (hqueue : queues l = f :: rest)
    (hdue : ∀ l' g, due' l' g ↔ due l' g ∧ ¬ (l' = l ∧ g = f)) : Holds (Function.update queues l rest) due' := by
  have hnodup := h.nodup l
  rw [hqueue, List.nodup_cons] at hnodup
  refine ⟨?_, ?_⟩
  · intro l'
    by_cases hl : l' = l
    · subst hl
      rw [Function.update_self]
      exact hnodup.2
    · rw [Function.update_of_ne hl]
      exact h.nodup l'
  · intro l' g
    rw [hdue, ← h.mem]
    by_cases hl : l' = l
    · subst hl
      rw [Function.update_self, hqueue, List.mem_cons]
      constructor
      · intro hg
        refine ⟨.inr hg, ?_⟩
        rintro ⟨-, rfl⟩
        exact hnodup.1 hg
      · rintro ⟨rfl | hg, hne⟩
        · exact absurd ⟨rfl, rfl⟩ hne
        · exact hg
    · rw [Function.update_of_ne hl]
      exact ⟨fun hg => ⟨hg, fun heq => hl heq.1⟩, fun hg => hg.1⟩

/-- An entry that was not due is queued and is due. -/
theorem push (h : Holds queues due) (hnew : ¬ due l f) (hdue : ∀ l' g, due' l' g ↔ due l' g ∨ l' = l ∧ g = f) :
    Holds (Function.update queues l (queues l ++ [f])) due' := by
  refine ⟨?_, ?_⟩
  · intro l'
    by_cases hl : l' = l
    · subst hl
      rw [Function.update_self]
      refine List.nodup_append.mpr ⟨h.nodup l', List.nodup_singleton f, ?_⟩
      intro g hg g' hg' heq
      obtain rfl := List.mem_singleton.mp hg'
      subst heq
      exact hnew ((h.mem l' g).mp hg)
    · rw [Function.update_of_ne hl]
      exact h.nodup l'
  · intro l' g
    rw [hdue, ← h.mem]
    by_cases hl : l' = l
    · subst hl
      rw [Function.update_self, List.mem_append, List.mem_singleton]
      exact ⟨fun hg => hg.imp_right fun heq => ⟨rfl, heq⟩, fun hg => hg.imp_right fun heq => heq.2⟩
    · rw [Function.update_of_ne hl]
      exact ⟨.inl, fun hg => hg.resolve_right fun heq => hl heq.1⟩

end Holds
end Lib
