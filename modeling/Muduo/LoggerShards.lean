import Mathlib.Algebra.Group.Nat.Defs
import Mathlib.Logic.Function.Basic
import Muduo.Lib.Stepper

/-! # The shard of a thread

`AsyncLogging::append` takes the shard with the index `shardIndex()`, which is computed once in each thread and kept
in a `thread_local` variable of the function, one for all the objects. The model has any number of objects and of
threads; what `append` does in the shard is in `Muduo.AsyncLogging`. -/

namespace Muduo

/-- `std::bit_ceil`, defined as long as the result is a `size_t`. -/
def bitCeil (x : Nat) : Nat := if x ≤ 1 then 1 else 2 ^ (Nat.log2 (x - 1) + 1)

/-- `hw` is `std::thread::hardware_concurrency()`. -/
def computeDefaultShardCount (hw : Nat) : Nat :=
  let half := if hw = 0 then 4 else hw / 2
  let bounded := min 8 (max 2 half)
  bitCeil bounded

def normalizeShardCount (hw requested : Nat) : Nat :=
  if requested = 0 then computeDefaultShardCount hw
  else
    let bounded := max 2 requested
    bitCeil bounded

/-- What the constructor of an `AsyncLogging` makes its shards from. -/
structure LoggerShards where
  requested : Nat
  hardwareConcurrency : Nat
  /-- Where `std::bit_ceil` is defined. -/
  requested_le : requested ≤ 2 ^ 63

namespace LoggerShards

def shardCount (o : LoggerShards) : Nat := normalizeShardCount o.hardwareConcurrency o.requested

def shardMask (o : LoggerShards) : Nat := o.shardCount - 1

end LoggerShards

/-- A call of `shards_.at(index)` on an object. -/
structure ShardUse (O : Type) where
  thread : Nat
  object : O
  index : Nat
  /-- `std::out_of_range` was thrown. -/
  thrown : Bool

structure ShardThreads (O : Type) where
  /-- The `thread_local` variable of each thread, once it is initialised. -/
  cached : Nat → Option Nat := fun _ => none
  /-- The shards used so far, newest first. -/
  uses : List (ShardUse O) := []

namespace ShardThreads
variable {O : Type} (objects : O → LoggerShards) (tid : Nat → BitVec 32)

/-- The thread's `tid()` is an `int`; the cast to `size_t` extends its sign. -/
def shardIndex (thread : Nat) (o : O) (s : ShardThreads O) : Nat × ShardThreads O :=
  match s.cached thread with
  | some index => (index, s)
  | none =>
    let index := ((tid thread).signExtend 64).toNat &&& (objects o).shardMask
    (index, { s with cached := Function.update s.cached thread (some index) })

variable {objects tid} in
theorem shardIndex_of_some {thread index : Nat} {o : O} {s : ShardThreads O} (h : s.cached thread = some index) :
    s.shardIndex objects tid thread o = (index, s) := by
  simp only [shardIndex, h]

variable {objects tid} in
theorem shardIndex_of_none {thread : Nat} {o : O} {s : ShardThreads O} (h : s.cached thread = none) :
    s.shardIndex objects tid thread o =
      (((tid thread).signExtend 64).toNat &&& (objects o).shardMask,
        { s with
          cached := Function.update s.cached thread
            (some (((tid thread).signExtend 64).toNat &&& (objects o).shardMask)) }) := by
  simp only [shardIndex, h]

def append (thread : Nat) (o : O) (s : ShardThreads O) : ShardThreads O :=
  let (index, s) := s.shardIndex objects tid thread o
  { s with uses := ⟨thread, o, index, (objects o).shardCount ≤ index⟩ :: s.uses }

/-- A thread calls `append` of an object. -/
structure Append (O : Type) where
  thread : Nat
  object : O

def system : Lib.Stepper (ShardThreads O) (Append O) :=
  ⟨fun s call => some (s.append objects tid call.thread call.object)⟩

end ShardThreads
end Muduo
