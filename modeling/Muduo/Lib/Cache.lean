/-! # A cache of one entry

The value for the key asked for last is kept and computed anew for another key. What is kept is right as long as the
function it was computed by is the one that is asked for now. -/

namespace Lib

structure Cache (K V : Type) where
  key : K
  value : V
  deriving DecidableEq

namespace Cache
variable {K V : Type} [DecidableEq K] {compute : K → V} {c : Cache K V} {k : K}

/-- The entry after the value for `k` is asked for. -/
def fetch (compute : K → V) (k : K) (c : Cache K V) : Cache K V := if k = c.key then c else ⟨k, compute k⟩

@[simp] theorem key_fetch : (c.fetch compute k).key = k := by
  unfold fetch
  split
  · rename_i hkey
    exact hkey.symm
  · rfl

/-- The value is the direct one if the entry is for another key or holds it already. -/
theorem value_fetch (h : k = c.key → c.value = compute k) : (c.fetch compute k).value = compute k := by
  unfold fetch
  split
  · exact h ‹_›
  · rfl

end Cache
end Lib
