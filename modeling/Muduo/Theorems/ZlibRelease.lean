import Muduo.Theorems.ZlibContract

/-! # The end of compressed streams

`finish` ends a stream at most once, and not at all if a `write` has seen anything but `Z_OK`: on an error `zerror_` stays,
and at the end of the stream `finished_` is set, and `finish` returns early in both cases. -/

namespace Muduo
open Lib

namespace ZlibStream
variable {σ : Type} {z : Zlib σ} {s t : ZlibStream σ} {fuel : Nat} {flush : ZFlush}

/-- All calls of `inflate` or `deflate` that were made by a `write` returned `Z_OK`. -/
def WritesOk (s : ZlibStream σ) : Prop := ∀ p ∈ s.returned, p.1 = .noFlush → p.2 = .ok

theorem writesOk_transfer : (s.transfer z flush).WritesOk ↔
    (flush = .noFlush → (s.transfer z flush).zerror = .ok) ∧ s.WritesOk := List.forall_mem_cons

/-- The loop of a `write` stops at the first call that does not return `Z_OK`. -/
theorem writesOk_of_loop (hopen : s.finished = false ∧ s.ends = 0 ∧ (s.zerror = .ok ↔ s.WritesOk))
    (h : whileLoop goesOn (transfer z .noFlush) fuel s = some t) :
    t.finished = false ∧ t.ends = 0 ∧ (t.zerror = .ok ↔ t.WritesOk) := by
  refine (whileLoop_keeps (I := fun s => s.finished = false ∧ s.ends = 0 ∧ (s.zerror = .ok ↔ s.WritesOk))
    (fun {s} hs hcond => ?_) hopen h).1
  obtain ⟨hfinished, hends, hok⟩ := hs
  obtain ⟨-, hzerror⟩ := of_decide_eq_true hcond
  refine ⟨hfinished, hends, ?_⟩
  rw [writesOk_transfer, and_iff_left (hok.mp hzerror)]
  exact ⟨fun h _ => h, fun h => h rfl⟩

theorem writesOk_of_flushAll (hends : s.ends = 0) (hok : s.WritesOk) (h : flushAll (transfer z) fuel s = some t) :
    t.ends = 0 ∧ t.WritesOk := by
  rw [flushAll] at h
  refine (whileLoop_keeps (I := fun s : ZlibStream σ => s.ends = 0 ∧ s.WritesOk) (fun hs _ => ?_) ⟨hends, hok⟩ h).1
  exact ⟨hs.1, writesOk_transfer.mpr ⟨fun hflush => ZFlush.noConfusion hflush, hs.2⟩⟩

/-- Where a stream is: nothing has gone wrong, or `finish` will do nothing, or it was ended. -/
inductive Lifetime (stuck : Bool → ZStatus → Prop) (s : ZlibStream σ) : Prop where
  | usable (hfinished : s.finished = false) (hzerror : s.zerror = .ok) (hok : s.WritesOk) (hends : s.ends = 0)
  | stuck (hstuck : stuck s.finished s.zerror) (hok : ¬ s.WritesOk) (hends : s.ends = 0)
  | ended (hfinished : s.finished = true) (hok : s.WritesOk) (hends : s.ends = 1)

variable {stuck : Bool → ZStatus → Prop} {input input' : ZlibInput} {ok : Bool} {output : RawBuffer}

theorem Lifetime.new (hinit : z.init.1 = .ok) : Lifetime stuck (new z output) :=
  .usable rfl hinit (fun _ hp => absurd hp List.not_mem_nil) rfl

/-- If `close` leaves a stream stuck whenever the loop was left with an error, so does `write`. -/
theorem Lifetime.writeWith {close : ZlibStream σ → ZlibStream σ} (hstuck : ∀ {f e}, stuck f e → f ∨ e ≠ .ok)
    (hclose : ∀ {u : ZlibStream σ}, u.finished = false → u.ends = 0 → (u.zerror = .ok ↔ u.WritesOk) →
      Lifetime stuck (close u))
    (h : Lifetime stuck s) (hwrite : writeWith (transfer z) close fuel input s = some (ok, input', t)) :
    Lifetime stuck t := by
  simp only [ZlibStream.writeWith] at hwrite
  split at hwrite
  · cases hwrite
    exact h
  · rename_i hgo
    obtain ⟨u, hloop, heq⟩ := Option.map_eq_some_iff.mp hwrite
    cases heq
    cases h with
    | usable hfinished hzerror hok hends =>
      obtain ⟨hfinished', hends', hok'⟩ := writesOk_of_loop (s := s.setInput input.bytes)
        ⟨hfinished, hends, iff_of_true hzerror hok⟩ hloop
      exact hclose hfinished' hends' hok'
    | stuck hs _ _ => exact absurd (hstuck hs) hgo
    | ended hfinished _ _ => exact absurd (.inl hfinished) hgo

/-- `finish` ends a stream that is not stuck and was not ended. -/
theorem Lifetime.finish {u : ZlibStream σ} (h : Lifetime stuck s) (hstuck : ¬ stuck s.finished s.zerror)
    (hfinished : ¬ s.finished) (hloop : flushAll (transfer z) fuel s = some u) (e : ZStatus) :
    Lifetime stuck { u with finished := true, zerror := e, ends := u.ends + 1 } := by
  cases h with
  | usable _ _ hok hends =>
    obtain ⟨hends', hok'⟩ := writesOk_of_flushAll hends hok hloop
    exact .ended rfl hok' (congrArg (· + 1) hends')
  | stuck hs _ _ => exact absurd hs hstuck
  | ended hfinished' _ _ => exact absurd hfinished' hfinished

theorem Lifetime.useOutput (h : Lifetime stuck s) : Lifetime stuck { s with output } := by
  cases h with
  | usable hfinished hzerror hok hends => exact .usable hfinished hzerror hok hends
  | stuck hs hok hends => exact .stuck hs hok hends
  | ended hfinished hok hends => exact .ended hfinished hok hends

/-- After a call that ends the stream or finds it stuck: it was ended exactly if all went well. -/
theorem Lifetime.ended_iff (h : Lifetime stuck s) (hclosed : s.finished ∨ s.zerror ≠ .ok) : s.ends = 1 ↔ s.WritesOk := by
  cases h with
  | usable hfinished hzerror _ _ => simp [hfinished, hzerror] at hclosed
  | stuck _ hok hends => exact iff_of_false (by omega) hok
  | ended _ hok hends => exact iff_of_true hends hok

/-- What each call keeps holds at the end of a lifetime. -/
theorem Lifetime.run {write : ZlibInput → ZlibStream σ → Option (Bool × ZlibInput × ZlibStream σ)}
    {finish : ZlibStream σ → Option (Bool × ZlibStream σ)} {calls : List ZlibCall}
    (hwrite : ∀ {s input ok input' t}, Lifetime stuck s → write input s = some (ok, input', t) → Lifetime stuck t)
    (hfinish : ∀ {s ok t}, Lifetime stuck s → finish s = some (ok, t) →
      Lifetime stuck t ∧ (t.finished ∨ t.zerror ≠ .ok))
    (h : Lifetime stuck s) (hrun : (calls ++ [ZlibCall.finish]).foldlM (ZlibCall.perform write finish) s = some t) :
    t.ends = 1 ↔ t.WritesOk := by
  induction calls generalizing s with
  | nil =>
    rw [List.nil_append, List.foldlM_cons] at hrun
    obtain ⟨u, hu, hnil⟩ := Option.bind_eq_some_iff.mp hrun
    cases hnil
    obtain ⟨⟨ok, u'⟩, hu', rfl⟩ := Option.map_eq_some_iff.mp hu
    obtain ⟨hlife, hclosed⟩ := hfinish h hu'
    exact hlife.ended_iff hclosed
  | cons call calls ih =>
    rw [List.cons_append, List.foldlM_cons] at hrun
    obtain ⟨u, hu, hrest⟩ := Option.bind_eq_some_iff.mp hrun
    refine ih ?_ hrest
    cases call with
    | write input =>
      obtain ⟨⟨ok, input', u'⟩, hu', rfl⟩ := Option.map_eq_some_iff.mp hu
      exact hwrite h hu'
    | finish =>
      obtain ⟨⟨ok, u'⟩, hu', rfl⟩ := Option.map_eq_some_iff.mp hu
      exact (hfinish h hu').1
    | useOutput output =>
      cases hu
      exact h.useOutput

end ZlibStream

open ZlibStream

variable {σ : Type} {z : Zlib σ} {s t : ZlibStream σ} {fuel : Nat} {ok : Bool} {output : RawBuffer}
variable {calls : List ZlibCall}

namespace ZlibInputStream

/-- What makes `finish` return at once, unless the stream was ended. -/
def Stuck (finished : Bool) (zerror : ZStatus) : Prop := finished ∨ zerror ≠ .ok ∧ zerror ≠ .streamEnd

theorem Stuck.closed {f : Bool} {e : ZStatus} (h : Stuck f e) : f ∨ e ≠ .ok := h.imp_right And.left

theorem lifetime_markEnd (hfinished : s.finished = false) (hends : s.ends = 0) (hok : s.zerror = .ok ↔ s.WritesOk) :
    Lifetime Stuck (markEnd s) := by
  rw [markEnd]
  split
  · rename_i hend
    refine .stuck (.inl rfl) (fun hwrites => ?_) hends
    rw [hok.mpr hwrites] at hend
    cases hend
  · rename_i hend
    by_cases hzerror : s.zerror = .ok
    · exact .usable hfinished hzerror (hok.mp hzerror) hends
    · exact .stuck (.inr ⟨hzerror, hend⟩) (fun hwrites => hzerror (hok.mpr hwrites)) hends

theorem lifetime_finish (h : Lifetime Stuck s) (hfinish : finish z fuel s = some (ok, t)) :
    Lifetime Stuck t ∧ (t.finished ∨ t.zerror ≠ .ok) := by
  simp only [finish] at hfinish
  split at hfinish
  · rename_i hfinished
    cases hfinish
    exact ⟨h, .inl hfinished⟩
  · rename_i hfinished
    split at hfinish
    · rename_i hzerror
      cases hfinish
      exact ⟨h, .inr hzerror.1⟩
    · rename_i hzerror
      obtain ⟨u, hloop, heq⟩ := Option.map_eq_some_iff.mp hfinish
      cases heq
      exact ⟨h.finish (not_or_intro hfinished hzerror) hfinished hloop _, .inl rfl⟩

theorem ended_iff (hinit : z.init.1 = .ok) (h : lifetime z fuel output calls = some t) : t.ends = 1 ↔ t.WritesOk :=
  Lifetime.run (fun hs hwrite => hs.writeWith Stuck.closed lifetime_markEnd hwrite) lifetime_finish (Lifetime.new hinit) h

end ZlibInputStream

namespace ZlibOutputStream

def Stuck (_ : Bool) (zerror : ZStatus) : Prop := zerror ≠ .ok

theorem lifetime_finish (h : Lifetime Stuck s) (hfinish : finish z fuel s = some (ok, t)) :
    Lifetime Stuck t ∧ (t.finished ∨ t.zerror ≠ .ok) := by
  simp only [finish] at hfinish
  split at hfinish
  · rename_i hfinished
    cases hfinish
    exact ⟨h, .inl hfinished⟩
  · rename_i hfinished
    split at hfinish
    · rename_i hzerror
      cases hfinish
      exact ⟨h, .inr hzerror⟩
    · rename_i hzerror
      obtain ⟨u, hloop, heq⟩ := Option.map_eq_some_iff.mp hfinish
      cases heq
      exact ⟨h.finish hzerror hfinished hloop _, .inl rfl⟩

theorem ended_iff (hinit : z.init.1 = .ok) (h : lifetime z fuel output calls = some t) : t.ends = 1 ↔ t.WritesOk := by
  refine Lifetime.run (fun hs hwrite => hs.writeWith .inr (fun {u} hfinished hends hok => ?_) hwrite) lifetime_finish
    (Lifetime.new hinit) h
  by_cases hzerror : u.zerror = .ok
  · exact .usable hfinished hzerror (hok.mp hzerror) hends
  · exact .stuck hzerror (fun hwrites => hzerror (hok.mpr hwrites)) hends

end ZlibOutputStream

/-- For every behaviour of zlib and every use of a stream that was begun without an error: a `ZlibInputStream` calls
`inflateEnd` exactly once if and only if each `inflate` of a `write` returned `Z_OK`, and a `ZlibOutputStream` calls
`deflateEnd` exactly once if and only if each `deflate` of a `write` did. -/
theorem zlib_ended_once_iff {ι δ : Type} {zi : Zlib ι} {zd : Zlib δ} (hi : zi.init.1 = .ok) (hd : zd.init.1 = .ok) :
    (∀ fuel output calls s, ZlibInputStream.lifetime zi fuel output calls = some s → (s.ends = 1 ↔ s.WritesOk)) ∧
    (∀ fuel output calls s, ZlibOutputStream.lifetime zd fuel output calls = some s → (s.ends = 1 ↔ s.WritesOk)) :=
  ⟨fun _ _ _ _ => ZlibInputStream.ended_iff hi, fun _ _ _ _ => ZlibOutputStream.ended_iff hd⟩

/-- A stream that is left before its end, and one that is finished twice. -/
theorem zlib_ended_once_iff_letter :
    (∃ s, ZlibInputStream.lifetime Zlib.sampleInflate 20 (RawBuffer.new 0) [.write (.string [0x78, 0x9c])] = some s ∧
      (s.ends = 1 ↔ s.WritesOk)) ∧
    (∃ s, ZlibOutputStream.lifetime Zlib.sampleDeflate 20 (RawBuffer.new 0)
        [.write (.string Zlib.samplePayload), .finish, .finish] = some s ∧ (s.ends = 1 ↔ s.WritesOk)) := by
  obtain ⟨hinput, houtput⟩ : (∀ fuel output calls s, ZlibInputStream.lifetime Zlib.sampleInflate fuel output calls = some s →
      (s.ends = 1 ↔ s.WritesOk)) ∧ (∀ fuel output calls s, ZlibOutputStream.lifetime Zlib.sampleDeflate fuel output calls =
        some s → (s.ends = 1 ↔ s.WritesOk)) := zlib_ended_once_iff rfl rfl
  have hleft : (ZlibInputStream.lifetime Zlib.sampleInflate 20 (RawBuffer.new 0)
      [.write (.string [0x78, 0x9c])]).isSome := by decide +kernel
  have htwice : (ZlibOutputStream.lifetime Zlib.sampleDeflate 20 (RawBuffer.new 0)
      [.write (.string Zlib.samplePayload), .finish, .finish]).isSome := by decide +kernel
  obtain ⟨s, hs⟩ := Option.isSome_iff_exists.mp hleft
  obtain ⟨t, ht⟩ := Option.isSome_iff_exists.mp htwice
  exact ⟨⟨s, hs, hinput _ _ _ s hs⟩, ⟨t, ht, houtput _ _ _ t ht⟩⟩

/-- A complete stream is written and finished, and `inflateEnd` is not called. -/
theorem zlib_never_ended :
    Zlib.sampleInflate.init.1 = .ok ∧
    (ZlibInputStream.lifetime Zlib.sampleInflate 20 (RawBuffer.new 0)
      [.write (.string Zlib.sampleStream), .finish]).map (fun s => (s.returned, s.ends)) =
    some ([(.noFlush, .streamEnd)], 0) := by
  decide +kernel

end Muduo
