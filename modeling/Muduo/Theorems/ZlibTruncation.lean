import Muduo.Theorems.ZlibStream

/-! # Truncated compressed streams

At the end of the input `inflate` returns `Z_BUF_ERROR` if it is not the end of the stream, and `finish` takes this for
success. -/

namespace Muduo
open Lib

namespace ZlibInputStream
variable {σ : Type} {z : Zlib σ} {s : ZlibStream σ} {fuel : Nat}
open ZlibStream

/-- If the first call with `Z_FINISH` returns `Z_BUF_ERROR`, then `finish` returns true. -/
theorem finish_of_bufError (hfinished : s.finished = false) (hzerror : s.zerror = .ok)
    (hbuf : (resultOf z .finish s).status = .bufError) (hend : z.finalize (resultOf z .finish s).state = .ok) :
    ∃ t, finish z (fuel + 1) s = some (true, t) ∧ t.returned = (.finish, .bufError) :: s.returned := by
  have hstatus : (decompress z .finish s).zerror = .bufError := hbuf
  have hstate : z.finalize (decompress z .finish s).zstream = .ok := hend
  have hreturned : (decompress z .finish s).returned = (.finish, .bufError) :: s.returned := by
    rw [← hbuf]
    rfl
  have hloop : flushAll (decompress z) (fuel + 1) s = some (decompress z .finish s) := by
    refine whileLoop_of_not_after (decide_eq_true hzerror) ?_
    rw [hstatus]
    rfl
  refine ⟨{ decompress z .finish s with finished := true, zerror := .streamEnd, ends := s.ends + 1 }, ?_, hreturned⟩
  rw [finish, hfinished, hzerror, hloop]
  simp only [Bool.false_eq_true, ↓reduceIte, ne_eq, not_true_eq_false, false_and, Option.map_some, hstatus, hstate,
    or_true, decide_true, Bool.and_self, and_self]
  rfl

end ZlibInputStream

/-- For every payload, every proper beginning of its compressed form and every way of cutting it, if `inflate` with `Z_FINISH`
reports `Z_BUF_ERROR` when the input ends before the stream does: all calls of `write` return true, and so does `finish`,
although no `inflate` has reported `Z_STREAM_END`. -/
theorem zlib_truncated_succeeds {ι : Type} {zi : Zlib ι} {y payload : Bytes} (hi : zi.Inflates y payload)
    (hfinish : ∀ {s fed out n}, zi.Reached .noFlush s fed out → fed <+: y → fed ≠ y →
      (zi.run .finish [] n s).status = .bufError)
    (hend : ∀ s, zi.finalize s = .ok) {output : Buffer} (hfree : output.free < 2 ^ 32) {inputs : List ZlibInput}
    (hbegin : inputs.flatMap (·.handed) <+: y) (hproper : inputs.flatMap (·.handed) ≠ y) :
    ∃ fuel₀, ∀ fuel ≥ fuel₀, ∃ results s t,
      ZlibStream.writeAll (ZlibInputStream.write zi fuel) inputs (ZlibStream.new zi output.raw) = some (results, s) ∧
      (∀ r ∈ results, r.1) ∧ ZlibInputStream.finish zi fuel s = some (true, t) ∧
      ∀ p ∈ t.returned, p.2 ≠ .streamEnd := by
  refine ⟨y.length + payload.length + 1, fun fuel hfuel => ?_⟩
  obtain ⟨s, out, hwrites, hrun, hnil⟩ :=
    ZlibInputStream.writeAll_before hi (Nat.le_of_succ_le hfuel) hfree hbegin hproper
  obtain ⟨fuel, rfl⟩ : ∃ k, fuel = k + 1 := ⟨fuel - 1, by omega⟩
  have hbuf : (ZlibStream.resultOf zi .finish s).status = .bufError := by
    rw [ZlibStream.resultOf, hnil]
    exact hfinish hrun.reached hbegin hproper
  obtain ⟨t, hreturns, hreturned⟩ : ∃ t, ZlibInputStream.finish zi (fuel + 1) s = some (true, t) ∧ _ :=
    ZlibInputStream.finish_of_bufError hrun.finished hrun.zerror hbuf (hend _)
  refine ⟨_, s, t, hwrites, fun r hr => (ZlibStream.used_of_mem_map r hr).1, hreturns, fun p hp => ?_⟩
  rw [hreturned] at hp
  rcases List.mem_cons.mp hp with rfl | hp
  · exact fun h => ZStatus.noConfusion h
  · rw [hrun.returned p hp]
    exact fun h => ZStatus.noConfusion h

/-- The first three of nine bytes, in two pieces. -/
theorem zlib_truncated_succeeds_letter :
    ∃ fuel₀, ∀ fuel ≥ fuel₀, ∃ results s t,
      ZlibStream.writeAll (ZlibInputStream.write Zlib.sampleInflate fuel) [.string [0x78, 0x9c], .string [0x4b]]
        (ZlibStream.new Zlib.sampleInflate (Buffer.new 0).raw) = some (results, s) ∧
      (∀ r ∈ results, r.1) ∧ ZlibInputStream.finish Zlib.sampleInflate fuel s = some (true, t) ∧
      ∀ p ∈ t.returned, p.2 ≠ .streamEnd :=
  zlib_truncated_succeeds Zlib.inflates_sampleInflate (fun h _ _ => Zlib.finish_sampleInflate h) (fun _ => rfl)
    (by decide) (by decide) (by decide)

/-- `inflate` was called three times: the last time it had no more input and reported `Z_BUF_ERROR`, and `finish` returned
true. -/
theorem zlib_truncated_letter :
    ((ZlibStream.writeAll (ZlibInputStream.write Zlib.sampleInflate 20) [.string [0x78, 0x9c], .string [0x4b]]
        (ZlibStream.new Zlib.sampleInflate (Buffer.new 0).raw)).bind fun (results, s) =>
      (ZlibInputStream.finish Zlib.sampleInflate 20 s).map fun (ok, t) => (results.map (·.1), ok, t.returned)) =
    some ([true, true], true, [(.finish, .bufError), (.noFlush, .ok), (.noFlush, .ok)]) := by
  decide +kernel

end Muduo
