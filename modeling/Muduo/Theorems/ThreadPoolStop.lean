import Muduo.Theorems.ThreadPoolTasks

/-! # Stopping the thread pool

`stop` wakes the producers it has counted and joins the workers, but it waits for no producer. So the slots are
destroyed under a producer that was past its first test of `running_` when `stop` has stored it, and under no other. -/

namespace Muduo
open Lib

namespace ThreadPool
variable {n : Nat} {Task : Type} {s t : ThreadPool n Task}

/-- `stop` stores `running_` while no producer is between its first test and its last access to the slots. -/
def StopsQuietly (s : ThreadPool n Task) : Event n Task → Prop
  | .stop => s.stopAt = .clearRunning → ∀ p ∈ s.producers, p.usesSlots = false
  | _ => True

instance (s : ThreadPool n Task) : ∀ e, Decidable (StopsQuietly s e)
  | .stop => inferInstanceAs (Decidable (s.stopAt = .clearRunning → ∀ p ∈ s.producers, p.usesSlots = false))
  | .run _ | .producer _ | .worker _ _ => inferInstanceAs (Decidable True)

/-- Once `running_` is stored, no producer uses the slots. -/
structure SlotsUnused (s : ThreadPool n Task) : Prop where
  hasWorkers : HasWorkers s
  cleared : s.stopAt.cleared = true → s.isRunning = false
  unused : s.isRunning = false → ∀ p ∈ s.producers, p.usesSlots = false

namespace SlotsUnused

theorem producer {p p' : ProducerAt n Task} (hrunning : s.isRunning = false) (hp : p.usesSlots = false)
    (h : ProducerMoves s p p' t) : p'.usesSlots = false := by
  cases h with
  | goes p' waiting next queued hslot howes huses =>
    cases huses' : p'.usesSlots with
    | false => rfl
    | true =>
      rcases huses huses' with hp' | hrunning'
      · exact absurd (hp'.symm.trans hp) Bool.noConfusion
      · exact absurd (hrunning'.symm.trans hrunning) Bool.noConfusion
  | acquires task free hacquire hfree =>
    subst hacquire
    cases hp
  | releases hrelease => rfl
  | pushes task i hpush => rfl
  | signals i hsignal => rfl

theorem unused_moves (hs : SlotsUnused s) (h : Moves s t) (hrunning : t.isRunning = false) :
    ∀ p ∈ t.producers, p.usesSlots = false := by
  rw [(isRunning_of_moves h).1] at hrunning
  have hunused := hs.unused hrunning
  cases h with
  | run task => exact List.forall_mem_append.mpr ⟨hunused, List.forall_mem_singleton.mpr rfl⟩
  | producer p p' t producers hreplaces hmoves =>
    exact hreplaces.forall_mem hunused (producer hrunning (hunused p hreplaces.mem) hmoves)
  | worker i t hmoves =>
    rw [producers_of_worker hmoves]
    exact hunused

theorem step {e : Event n Task} (hs : SlotsUnused s) (hc : StopsQuietly s e) (h : s.step e = some t) :
    SlotsUnused t := by
  rcases moves_of_step hs.hasWorkers h with hmoves | ⟨rfl, hstop⟩
  · obtain ⟨hrunning, hat⟩ := isRunning_of_moves hmoves
    refine ⟨hs.hasWorkers.step h, ?_, hs.unused_moves hmoves⟩
    rw [hrunning, hat]
    exact hs.cleared
  · have hmoves := stopMoves_of_stop hstop
    refine ⟨hs.hasWorkers.step h, ?_, ?_⟩
    · intro hafter
      rcases hmoves.cleared hafter with hrunning | ⟨hbefore, hrunning⟩
      · exact hrunning
      · rw [hrunning]
        exact hs.cleared hbefore
    · intro hrunning
      rw [hmoves.producers]
      rcases hmoves.isRunning with hsame | ⟨hat, -⟩
      · exact hs.unused (hsame.symm.trans hrunning)
      · exact hc hat

end SlotsUnused

/-- If `stop` stores `running_` while no producer is using the slots, none is when they are destroyed. -/
theorem stop_strands_no_producer {maxQueueSize : Nat} {es : List (Event n Task)}
    (hrun : (system n Task).Run StopsQuietly (started n Task maxQueueSize) es s) (hat : s.stopAt = .reset) :
    ∀ p ∈ s.producers, p.usesSlots = false := by
  have hs : SlotsUnused s := by
    refine hrun.invariant (fun hs hc h => hs.step hc h) ⟨?_, ?_, ?_⟩
    · intro p hp
      cases hp
    · intro hcleared
      cases hcleared
    · intro hrunning
      cases hrunning
  refine hs.unused (hs.cleared ?_)
  rw [hat]
  rfl

/-- One worker and one slot; the producer has pushed its task before `stop` is called, and the worker runs it. -/
def stoppedQuietly (i : Fin n) : List (Event n Nat) :=
  .run 7 :: List.replicate 10 (.producer 0) ++ List.replicate 3 (.worker i true) ++ List.replicate 6 .stop ++
    [.worker i true] ++ List.replicate 2 .stop

theorem stopped_quietly :
    ∃ s, (system 1 Nat).Run StopsQuietly (started 1 Nat 1) (stoppedQuietly 0) s ∧ s.stopAt = .reset ∧
      ∀ p ∈ s.producers, p.usesSlots = false := by
  refine Stepper.Run.replay rfl ?_
  intro hrun
  exact ⟨rfl, stop_strands_no_producer hrun rfl⟩

/-- The producer has passed its first test and is not counted when `stop` takes the number of those that wait. -/
def strandedProducer (i : Fin n) : List (Event n Nat) :=
  .run 7 :: List.replicate 2 (.producer 0) ++ List.replicate 6 .stop ++ [.worker i true] ++ List.replicate 2 .stop ++
    [.producer 0]

theorem producer_stranded :
    ∃ s, (system 1 Nat).Run (fun _ _ => True) (started 1 Nat 1) (strandedProducer 0) s ∧ s.stopAt = .reset ∧
      s.producers = [.acquireSlot 7] ∧ ∃ p ∈ s.producers, p.usesSlots = true := by
  refine Stepper.Run.replay rfl ?_
  intro _
  exact ⟨rfl, rfl, _, List.mem_singleton_self _, rfl⟩

end ThreadPool
end Muduo
