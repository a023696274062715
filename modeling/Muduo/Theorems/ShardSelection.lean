import Mathlib.Algebra.Group.Nat.Defs
import Muduo.LoggerShards

/-! # Which shard a thread uses

The number of shards is a power of two, so the mask takes any thread id to the index of a shard. The index that a
thread has kept is one of the object that it appended to first, and is in range for another if that one has as many
shards. -/

namespace Muduo

theorem bitCeil_eq_two_pow {x : Nat} (hx : 2 ≤ x) (hle : x ≤ 2 ^ 63) : ∃ k, k ≤ 63 ∧ bitCeil x = 2 ^ k := by
  have hlog : Nat.log2 (x - 1) < 63 := (Nat.log2_lt (by omega)).mpr (by omega)
  exact ⟨Nat.log2 (x - 1) + 1, hlog, if_neg (by omega)⟩

theorem LoggerShards.shardCount_eq_two_pow (o : LoggerShards) : ∃ k, k ≤ 63 ∧ o.shardCount = 2 ^ k := by
  have hle := o.requested_le
  rw [LoggerShards.shardCount, normalizeShardCount]
  split
  · exact bitCeil_eq_two_pow (by omega) (by omega)
  · exact bitCeil_eq_two_pow (by omega) (by omega)

/-- The mask leaves the remainder of the thread id. -/
theorem LoggerShards.and_shardMask (o : LoggerShards) (x : Nat) : x &&& o.shardMask = x % o.shardCount := by
  obtain ⟨k, -, hcount⟩ := o.shardCount_eq_two_pow
  rw [shardMask, hcount, Nat.and_two_pow_sub_one_eq_mod]

/-- The thread id −1 has the last shard. -/
theorem LoggerShards.minus_one_and_shardMask (o : LoggerShards) :
    ((-1 : BitVec 32).signExtend 64).toNat &&& o.shardMask = o.shardCount - 1 := by
  obtain ⟨k, hk, hcount⟩ := o.shardCount_eq_two_pow
  have hones : ((-1 : BitVec 32).signExtend 64).toNat = 2 ^ 64 - 1 := by decide
  have hsplit : 2 ^ 64 = 2 ^ k * 2 ^ (64 - k) := by
    rw [← Nat.pow_add, Nat.add_sub_cancel' (by omega)]
  have hpos : 0 < 2 ^ k := Nat.two_pow_pos k
  have hpos' : 0 < 2 ^ (64 - k) := Nat.two_pow_pos _
  have hlast : 2 ^ 64 - 1 = 2 ^ k * (2 ^ (64 - k) - 1) + (2 ^ k - 1) := by
    rw [Nat.mul_sub, Nat.mul_one, ← hsplit]
    have hle : 2 ^ k ≤ 2 ^ 64 := Nat.pow_le_pow_right (by decide) (by omega)
    omega
  rw [o.and_shardMask, hcount, hones, hlast, Nat.mul_add_mod, Nat.mod_eq_of_lt (by omega)]

namespace ShardThreads
variable {O : Type} {objects : O → LoggerShards} {tid : Nat → BitVec 32} {s t : ShardThreads O}

/-- A thread has kept the index that it has always used, and has it from one of the objects. -/
structure Inv (objects : O → LoggerShards) (tid : Nat → BitVec 32) (s : ShardThreads O) : Prop where
  kept : ∀ u ∈ s.uses, s.cached u.thread = some u.index
  thrown : ∀ u ∈ s.uses, u.thrown = decide ((objects u.object).shardCount ≤ u.index)
  first : ∀ thread index, s.cached thread = some index →
    ∃ o, index = ((tid thread).signExtend 64).toNat &&& (objects o).shardMask

theorem Inv.new : Inv objects tid {} :=
  ⟨fun _ hu => absurd hu List.not_mem_nil, fun _ hu => absurd hu List.not_mem_nil, fun _ _ h => by cases h⟩

/-- `shardIndex` keeps the index of the thread, and changes no other. -/
theorem Inv.shardIndex (h : Inv objects tid s) (thread : Nat) (o : O) :
    Inv objects tid (s.shardIndex objects tid thread o).2 ∧
      (s.shardIndex objects tid thread o).2.cached thread = some (s.shardIndex objects tid thread o).1 := by
  cases hc : s.cached thread with
  | some index =>
    rw [shardIndex_of_some hc]
    exact ⟨h, hc⟩
  | none =>
    rw [shardIndex_of_none hc]
    refine ⟨⟨fun u hu => ?_, h.thrown, fun thread' index hindex => ?_⟩, Function.update_self ..⟩
    · have hkept := h.kept u hu
      have hne : u.thread ≠ thread := fun heq => by
        rw [heq, hc] at hkept
        cases hkept
      exact (Function.update_of_ne hne ..).trans hkept
    · by_cases heq : thread' = thread
      · subst heq
        exact ⟨o, Option.some.inj (hindex.symm.trans (Function.update_self ..))⟩
      · exact h.first thread' index ((Function.update_of_ne heq ..).symm.trans hindex)

theorem Inv.append (h : Inv objects tid s) (thread : Nat) (o : O) : Inv objects tid (s.append objects tid thread o) := by
  obtain ⟨h', hcached⟩ := h.shardIndex thread o
  refine ⟨fun u hu => ?_, fun u hu => ?_, h'.first⟩
  · rcases List.mem_cons.mp hu with rfl | hu
    · exact hcached
    · exact h'.kept u hu
  · rcases List.mem_cons.mp hu with rfl | hu
    · rfl
    · exact h'.thrown u hu

theorem Inv.run {calls : List (Append O)} (run : (system objects tid).Run (fun _ _ => True) {} calls s) :
    Inv objects tid s := by
  refine run.invariant (fun {_ _ call} h _ hstep => ?_) Inv.new
  cases hstep
  exact h.append call.thread call.object

/-- An index that a thread has used is in range if all objects have as many shards. -/
theorem Inv.in_range (h : Inv objects tid s) (hsame : ∀ o o', (objects o).shardCount = (objects o').shardCount)
    {u : ShardUse O} (hu : u ∈ s.uses) : u.index < (objects u.object).shardCount := by
  obtain ⟨o, hindex⟩ := h.first u.thread u.index (h.kept u hu)
  obtain ⟨k, -, hcount⟩ := (objects o).shardCount_eq_two_pow
  rw [hindex, LoggerShards.and_shardMask, hsame u.object o]
  refine Nat.mod_lt _ ?_
  rw [hcount]
  exact Nat.two_pow_pos k

/-- A thread with the id −1 appends to one object, and then to another. -/
theorem uses_after_two (objects : O → LoggerShards) (o o' : O) :
    ∃ s : ShardThreads O, (system objects fun _ => -1).Run (fun _ _ => True) {} [⟨0, o⟩, ⟨0, o'⟩] s ∧
      ∃ u ∈ s.uses, u.object = o' ∧ u.index = (objects o).shardCount - 1 := by
  refine ⟨_, .cons trivial rfl (.cons trivial rfl (.nil _)), ?_⟩
  exact ⟨_, List.mem_cons_self, rfl, (objects o).minus_one_and_shardMask⟩

/-- Every index that `append` uses, in whatever order threads of whatever ids call it, is below the number of shards
of the object exactly if all objects have the same number of them. A thread uses the same index always. -/
theorem shard_index_in_range (objects : O → LoggerShards) :
    ((∀ tid calls s, (system objects tid).Run (fun _ _ => True) {} calls s →
        ∀ u ∈ s.uses, u.index < (objects u.object).shardCount ∧ u.thrown = false) ↔
      ∀ o o', (objects o).shardCount = (objects o').shardCount) ∧
    ∀ tid calls s, (system objects tid).Run (fun _ _ => True) {} calls s →
      ∀ u ∈ s.uses, ∀ u' ∈ s.uses, u.thread = u'.thread → u.index = u'.index := by
  refine ⟨⟨fun hrange => ?_, fun hsame tid calls s run u hu => ?_⟩, fun tid calls s run u hu u' hu' heq => ?_⟩
  · have hle : ∀ o o', (objects o).shardCount ≤ (objects o').shardCount := fun o o' => by
      obtain ⟨s, run, u, hu, hobject, hindex⟩ := uses_after_two objects o o'
      have hlt := (hrange _ _ s run u hu).1
      rw [hobject, hindex] at hlt
      omega
    exact fun o o' => Nat.le_antisymm (hle o o') (hle o' o)
  · have hlt := (Inv.run run).in_range hsame hu
    refine ⟨hlt, ?_⟩
    rw [(Inv.run run).thrown u hu]
    exact decide_eq_false (Nat.not_le.mpr hlt)
  · have hkept := (Inv.run run).kept u hu
    rw [heq, (Inv.run run).kept u' hu'] at hkept
    exact (Option.some.inj hkept).symm

/-- A thread with the id 7 logs to an object with eight shards, and then to one with two. -/
theorem shard_index_out_of_range :
    ∃ objects : Bool → LoggerShards, (objects true).requested = 8 ∧ (objects false).requested = 2 ∧
      (objects false).shardCount = 2 ∧
      ∃ s, (system objects fun _ => 7).Run (fun _ _ => True) {} [⟨0, true⟩, ⟨0, false⟩] s ∧
        ∃ u ∈ s.uses, u.object = false ∧ u.index = 7 ∧ u.thrown = true := by
  refine ⟨fun big => ⟨if big then 8 else 2, 16, by cases big <;> decide⟩, rfl, rfl, by decide, ?_⟩
  refine ⟨_, .cons trivial rfl (.cons trivial rfl (.nil _)), ?_⟩
  exact ⟨_, List.mem_cons_self, rfl, by decide, by decide⟩

end ShardThreads
end Muduo
