import Mathlib.Data.List.Range
import Muduo.Acceptor
import Muduo.Lib.Simulation

/-! # Accepting without descriptors

Between two system calls of `handleRead` other threads open and close descriptors, and a number that the acceptor has closed
may be another file's at once. The acceptor still closes only what it owns and leaks nothing, and each connection is passed
on or closed at most once. If the other threads leave it the descriptor that it gives up, it always has one in reserve again
after `handleRead`, and so can always take a connection off the queue. -/

namespace Muduo
open Lib

namespace Acceptor
variable {s t : Acceptor} {slots : List (Option Descriptor)} {idle : Option Nat} {accepted : Option (Nat × Nat)} {fd : Nat}

/-! ## What the acceptor owns -/

/-- The descriptors of the acceptor are the one in reserve and that of a connection, if there are such. -/
structure Owns (slots : List (Option Descriptor)) (idle : Option Nat) (accepted : Option (Nat × Nat)) : Prop where
  idle : ∀ fd, slot slots fd = some .idle ↔ idle = some fd
  accepted : ∀ fd c, slot slots fd = some (.accepted c) ↔ accepted = some (fd, c)

/-- One slot is changed, and what the acceptor owns with it. -/
theorem Owns.set {x : Option Descriptor} {idle' : Option Nat} {accepted' : Option (Nat × Nat)}
    (h : Owns slots idle accepted) (hlt : fd < slots.length) (hidle : x = some .idle ↔ idle' = some fd)
    (haccepted : ∀ c, x = some (.accepted c) ↔ accepted' = some (fd, c))
    (hidles : ∀ i ≠ fd, idle = some i ↔ idle' = some i)
    (haccepteds : ∀ i ≠ fd, ∀ c, accepted = some (i, c) ↔ accepted' = some (i, c)) :
    Owns (slots.set fd x) idle' accepted' := by
  constructor
  · intro i
    rw [slot_set hlt]
    split
    · rename_i heq
      rwa [heq]
    · rename_i hne
      rw [h.idle i, hidles i hne]
  · intro i c
    rw [slot_set hlt]
    split
    · rename_i heq
      rw [heq, haccepted c]
    · rename_i hne
      rw [h.accepted i c, haccepteds i hne c]

/-- A slot that is not the acceptor's gets something that is not the acceptor's. -/
theorem Owns.set_foreign {x : Option Descriptor} (h : Owns slots idle accepted) (hlt : fd < slots.length)
    (hold : ∀ d, slot slots fd = some d → d.isOwn = false) (hnew : ∀ d, x = some d → d.isOwn = false) :
    Owns (slots.set fd x) idle accepted := by
  refine h.set hlt (iff_of_false ?_ ?_) (fun c => iff_of_false ?_ ?_) (fun _ _ => Iff.rfl) fun _ _ _ => Iff.rfl
  · exact fun hx => Bool.noConfusion (hnew _ hx)
  · exact fun hidle => Bool.noConfusion (hold _ ((h.idle fd).mpr hidle))
  · exact fun hx => Bool.noConfusion (hnew _ hx)
  · exact fun haccepted => Bool.noConfusion (hold _ ((h.accepted fd c).mpr haccepted))

/-- The acceptor gets a connection in a free slot. -/
theorem Owns.accept (h : Owns slots idle none) (hfree : lowestFree slots = some fd) (c : Nat) :
    Owns (slots.set fd (some (.accepted c))) idle (some (fd, c)) := by
  obtain ⟨hlt, hslot⟩ := of_lowestFree hfree
  refine h.set hlt (iff_of_false (by simp) ?_) (by simp) (fun _ _ => Iff.rfl) ?_
  · intro hidle
    rw [(h.idle fd).mpr hidle] at hslot
    cases hslot
  · simp only [reduceCtorEq, false_iff, Option.some.injEq, Prod.mk.injEq, not_and]
    exact fun i hne _ heq => absurd heq.symm hne

/-- The acceptor gets the descriptor that it keeps in reserve. -/
theorem Owns.reserve (h : Owns slots none none) (hfree : lowestFree slots = some fd) :
    Owns (slots.set fd (some .idle)) (some fd) none := by
  obtain ⟨hlt, -⟩ := of_lowestFree hfree
  refine h.set hlt (by simp) (by simp) ?_ fun _ _ _ => Iff.rfl
  simp only [reduceCtorEq, false_iff, Option.some.injEq]
  exact fun i hne heq => hne heq.symm

/-- What is not the acceptor's is put where its connection was. -/
theorem Owns.drop_accepted {c : Nat} {x : Option Descriptor} (h : Owns slots idle (some (fd, c)))
    (hnew : ∀ d, x = some d → d.isOwn = false) : Owns (slots.set fd x) idle none := by
  have hslot : slot slots fd = some (.accepted c) := (h.accepted fd c).mpr rfl
  refine h.set (lt_length_of_slot hslot) (iff_of_false ?_ ?_) (fun c => iff_of_false ?_ (by simp)) (fun _ _ => Iff.rfl) ?_
  · exact fun hx => Bool.noConfusion (hnew _ hx)
  · intro hidle
    rw [(h.idle fd).mpr hidle] at hslot
    cases hslot
  · exact fun hx => Bool.noConfusion (hnew _ hx)
  · simp only [reduceCtorEq, iff_false, Option.some.injEq, Prod.mk.injEq, not_and]
    exact fun i hne _ heq => absurd heq.symm hne

/-- The descriptor in reserve is closed. -/
theorem Owns.drop_idle (h : Owns slots (some fd) accepted) : Owns (slots.set fd none) none accepted := by
  have hslot : slot slots fd = some .idle := (h.idle fd).mpr rfl
  refine h.set (lt_length_of_slot hslot) (by simp) (fun c => iff_of_false (by simp) ?_) ?_ fun _ _ _ => Iff.rfl
  · intro haccepted
    rw [(h.accepted fd c).mpr haccepted] at hslot
    cases hslot
  · simp only [reduceCtorEq, iff_false, Option.some.injEq]
    exact fun i hne heq => hne heq.symm

/-! ## What `close` does -/

theorem close_idle (h : Owns s.descriptors s.idleFd accepted) :
    Owns (s.close s.idleFd).descriptors none accepted ∧ (s.close s.idleFd).settled = s.settled ∧
      (s.close s.idleFd).foreignCloses = s.foreignCloses := by
  cases hidle : s.idleFd with
  | none =>
    rw [hidle] at h
    exact ⟨h, rfl, rfl⟩
  | some fd =>
    rw [hidle] at h
    have hslot : slot s.descriptors fd = some .idle := (h.idle fd).mpr rfl
    unfold close
    simp only [hslot]
    exact ⟨h.drop_idle, trivial, trivial⟩

theorem close_accepted {c : Nat} (h : Owns s.descriptors idle (some (fd, c))) :
    Owns (s.close (some fd)).descriptors idle none ∧ (s.close (some fd)).settled = .closed c :: s.settled ∧
      (s.close (some fd)).foreignCloses = s.foreignCloses := by
  have hslot : slot s.descriptors fd = some (.accepted c) := (h.accepted fd c).mpr rfl
  unfold close
  simp only [hslot]
  exact ⟨h.drop_accepted (by simp), trivial, trivial⟩

/-- `close` leaves the rest alone. -/
theorem close_keeps (fd : Option Nat) (s : Acceptor) :
    (s.close fd).idleFd = s.idleFd ∧ (s.close fd).pending = s.pending ∧ (s.close fd).arrived = s.arrived ∧
      (s.close fd).resets = s.resets := by
  unfold close
  split
  · exact ⟨rfl, rfl, rfl, rfl⟩
  · split <;> exact ⟨rfl, rfl, rfl, rfl⟩

/-! ## Every interleaving -/

/-- What the acceptor owns at each point of `handleRead`. -/
inductive Holding (s : Acceptor) : Option (Nat × Nat) → Prop where
  | waiting (hstage : s.stage = .waiting ∨ s.stage = .closeIdle) (h : Owns s.descriptors s.idleFd none) : Holding s none
  | accepted {fd c : Nat} (hstage : s.stage = .accepted fd) (h : Owns s.descriptors s.idleFd (some (fd, c))) :
      Holding s (some (fd, c))
  | nothing (hstage : s.stage = .acceptIdle ∨ s.stage = .openIdle ∨ s.stage = .destroyed ∨
      s.stage = .closeAccepted ∧ s.idleFd = none) (h : Owns s.descriptors none none) : Holding s none
  | dropping {fd c : Nat} (hstage : s.stage = .closeAccepted) (hidle : s.idleFd = some fd)
      (h : Owns s.descriptors none (some (fd, c))) : Holding s (some (fd, c))

/-- The connections that were accepted, the one that the acceptor has now, and those that wait, in this order. -/
def inOrder (s : Acceptor) (held : Option (Nat × Nat)) : List Nat :=
  s.settled.reverse.map Settled.connection ++ (held.map Prod.snd).toList ++ s.pending

structure Accounted (s : Acceptor) (held : Option (Nat × Nat)) : Prop where
  holding : Holding s held
  own : s.foreignCloses = []
  ordered : (s.inOrder held).Sublist (List.range s.arrived)
  complete : (s.inOrder held ++ s.resets).Perm (List.range s.arrived)

section Steps
variable {held held' : Option (Nat × Nat)}

theorem Accounted.of_inOrder (h : Accounted s held) (hholding : Holding t held')
    (hown : t.foreignCloses = s.foreignCloses) (horder : t.inOrder held' = s.inOrder held)
    (harrived : t.arrived = s.arrived) (hresets : t.resets = s.resets) : Accounted t held' := by
  refine ⟨hholding, hown.trans h.own, ?_, ?_⟩
  · rw [horder, harrived]
    exact h.ordered
  · rw [horder, harrived, hresets]
    exact h.complete

theorem accept_eq_some (h : s.accept = some (fd, t)) :
    ∃ c pending, s.pending = c :: pending ∧ lowestFree s.descriptors = some fd ∧
      t = { s with pending, descriptors := s.descriptors.set fd (some (.accepted c)) } := by
  unfold accept at h
  split at h
  · rename_i c pending fd' hpending hfree
    cases h
    exact ⟨c, pending, hpending, hfree, rfl⟩
  · cases h

theorem Holding.transfer (h : Holding s held) (hstage : t.stage = s.stage) (hidle : t.idleFd = s.idleFd)
    (howns : ∀ idle accepted, Owns s.descriptors idle accepted → Owns t.descriptors idle accepted) : Holding t held := by
  cases h with
  | waiting hs h => exact .waiting (hstage ▸ hs) (hidle ▸ howns _ _ h)
  | accepted hs h => exact .accepted (hstage.trans hs) (hidle ▸ howns _ _ h)
  | nothing hs h => exact .nothing (hstage ▸ hidle ▸ hs) (howns _ _ h)
  | dropping hs hi h => exact .dropping (hstage.trans hs) (hidle.trans hi) (howns _ _ h)

theorem Holding.of_waiting (h : Holding s held) (hstage : s.stage = .waiting) :
    held = none ∧ Owns s.descriptors s.idleFd none := by
  cases h with
  | waiting _ howns => exact ⟨rfl, howns⟩
  | accepted hs _ => simp [hstage] at hs
  | nothing hs _ => simp [hstage] at hs
  | dropping hs _ _ => simp [hstage] at hs

theorem Accounted.connect (h : Accounted s held) :
    Accounted { s with pending := s.pending ++ [s.arrived], arrived := s.arrived + 1 } held := by
  have horder : inOrder { s with pending := s.pending ++ [s.arrived], arrived := s.arrived + 1 } held =
      s.inOrder held ++ [s.arrived] := (List.append_assoc _ _ _).symm
  refine ⟨h.holding.transfer rfl rfl fun _ _ howns => howns, h.own, ?_, ?_⟩
  · rw [horder, List.range_succ]
    exact h.ordered.append (List.Sublist.refl _)
  · rw [horder, List.range_succ]
    refine List.Perm.trans ?_ (h.complete.append_right [s.arrived])
    rw [List.append_assoc, List.append_assoc]
    exact List.perm_append_comm.append_left _

theorem Accounted.reset {c : Nat} (h : Accounted s held) (hc : c ∈ s.pending) :
    Accounted { s with pending := s.pending.erase c, resets := c :: s.resets } held := by
  refine ⟨h.holding.transfer rfl rfl fun _ _ howns => howns, h.own, ?_, ?_⟩
  · exact ((List.Sublist.refl _).append List.erase_sublist).trans h.ordered
  · refine List.Perm.trans ?_ h.complete
    simp only [inOrder, List.append_assoc]
    refine (List.Perm.append_left _ ?_).append_left _
    exact List.perm_middle.trans ((List.perm_cons_erase hc).symm.append_right s.resets)

theorem Accounted.handleRead {result : AcceptResult} (h : Accounted s held) (hstage : s.stage = .waiting)
    (hstep : s.handleRead result = some t) : ∃ held', Accounted t held' := by
  obtain ⟨rfl, howns⟩ := h.holding.of_waiting hstage
  cases result with
  | accepted =>
    obtain ⟨⟨connfd, t⟩, haccept, rfl⟩ := Option.map_eq_some_iff.mp hstep
    obtain ⟨c, pending, hpending, hfree, rfl⟩ := accept_eq_some haccept
    refine ⟨some (connfd, c), h.of_inOrder (.accepted rfl (howns.accept hfree c)) rfl ?_ rfl rfl⟩
    simp [inOrder, hpending]
  | emfile =>
    obtain ⟨-, ⟨⟩⟩ := Option.ite_none_right_eq_some.mp hstep
    exact ⟨none, h.of_inOrder (.waiting (.inr rfl) howns) rfl rfl rfl rfl⟩
  | failed =>
    obtain rfl := Option.some.inj hstep
    exact ⟨none, h⟩

theorem Accounted.newConnection {c : Nat} (h : Accounted s (some (fd, c)))
    (howns : Owns s.descriptors s.idleFd (some (fd, c))) :
    Accounted { s.newConnection fd with stage := .waiting } none := by
  have hslot : slot s.descriptors fd = some (.accepted c) := (howns.accepted fd c).mpr rfl
  unfold Acceptor.newConnection
  split
  · simp only [hslot]
    have howns' : Owns (s.descriptors.set fd (some (.passed c))) s.idleFd none := by
      refine howns.drop_accepted ?_
      rintro _ ⟨⟩
      rfl
    refine h.of_inOrder (.waiting (.inl rfl) howns') rfl ?_ rfl rfl
    simp [inOrder, Settled.connection]
  · obtain ⟨howns', hsettled, hown⟩ := close_accepted howns
    obtain ⟨hidle, hpending, harrived, hresets⟩ := close_keeps (some fd) s
    refine h.of_inOrder (.waiting (.inl rfl) (hidle ▸ howns')) hown ?_ harrived hresets
    simp [inOrder, hsettled, hpending, Settled.connection]

theorem Accounted.closeIdle {stage : AcceptStage} (h : Accounted s none) (howns : Owns s.descriptors s.idleFd none)
    (hstage : stage = .acceptIdle ∨ stage = .destroyed) : Accounted { s.close s.idleFd with stage } none := by
  obtain ⟨howns', hsettled, hown⟩ := close_idle howns
  obtain ⟨-, hpending, harrived, hresets⟩ := close_keeps s.idleFd s
  refine h.of_inOrder (.nothing ?_ howns') hown ?_ harrived hresets
  · rcases hstage with rfl | rfl
    · exact .inl rfl
    · exact .inr (.inr (.inl rfl))
  · simp [inOrder, hsettled, hpending]

theorem Accounted.proceed {succeeds : Bool} (h : Accounted s held) (hstep : s.proceed succeeds = some t) :
    ∃ held', Accounted t held' := by
  unfold Acceptor.proceed at hstep
  cases h.holding with
  | waiting hstage howns =>
    rcases hstage with hstage | hstage
    · simp [hstage] at hstep
    · simp only [hstage] at hstep
      obtain rfl := Option.some.inj hstep
      exact ⟨none, h.closeIdle howns (.inl rfl)⟩
  | accepted hstage howns =>
    simp only [hstage] at hstep
    obtain rfl := Option.some.inj hstep
    exact ⟨none, h.newConnection howns⟩
  | nothing hstage howns =>
    rcases hstage with hstage | hstage | hstage | ⟨hstage, hidle⟩
    · simp only [hstage] at hstep
      split at hstep
      · obtain ⟨⟨fd, t⟩, haccept, rfl⟩ := Option.map_eq_some_iff.mp hstep
        obtain ⟨c, pending, hpending, hfree, rfl⟩ := accept_eq_some haccept
        refine ⟨some (fd, c), h.of_inOrder (.dropping rfl rfl (howns.accept hfree c)) rfl ?_ rfl rfl⟩
        simp [inOrder, hpending]
      · obtain rfl := Option.some.inj hstep
        exact ⟨none, h.of_inOrder (.nothing (.inr (.inr (.inr ⟨rfl, rfl⟩))) howns) rfl rfl rfl rfl⟩
    · simp only [hstage] at hstep
      split at hstep
      · obtain ⟨fd, hfree, rfl⟩ := Option.map_eq_some_iff.mp hstep
        exact ⟨none, h.of_inOrder (.waiting (.inl rfl) (howns.reserve hfree)) rfl rfl rfl rfl⟩
      · obtain rfl := Option.some.inj hstep
        exact ⟨none, h.of_inOrder (.waiting (.inl rfl) howns) rfl rfl rfl rfl⟩
    · simp [hstage] at hstep
    · simp only [hstage, hidle, Acceptor.close] at hstep
      obtain rfl := Option.some.inj hstep
      exact ⟨none, h.of_inOrder (.nothing (.inr (.inl rfl)) howns) rfl rfl rfl rfl⟩
  | dropping hstage hidle howns =>
    simp only [hstage, hidle] at hstep
    obtain rfl := Option.some.inj hstep
    obtain ⟨howns', hsettled, hown⟩ := close_accepted howns
    obtain ⟨-, hpending, harrived, hresets⟩ := close_keeps s.idleFd s
    rw [hidle] at hpending harrived hresets
    refine ⟨none, h.of_inOrder (.nothing (.inr (.inl rfl)) howns') hown ?_ harrived hresets⟩
    simp [inOrder, hsettled, hpending, Settled.connection]

theorem Accounted.step {e : AcceptorEvent} (h : Accounted s held) (hstep : s.step e = some t) :
    ∃ held', Accounted t held' := by
  cases e with
  | connect =>
    obtain rfl := Option.some.inj hstep
    exact ⟨held, h.connect⟩
  | reset c =>
    obtain ⟨hc, ⟨⟩⟩ := Option.ite_none_right_eq_some.mp hstep
    exact ⟨held, h.reset hc⟩
  | openOther =>
    obtain ⟨fd, hfree, rfl⟩ := Option.map_eq_some_iff.mp hstep
    obtain ⟨hlt, hslot⟩ := of_lowestFree hfree
    refine ⟨held, h.of_inOrder (h.holding.transfer rfl rfl fun _ _ howns => ?_) rfl rfl rfl rfl⟩
    refine howns.set_foreign hlt (by simp [hslot]) ?_
    rintro _ ⟨⟩
    rfl
  | closeOther fd =>
    simp only [Acceptor.step] at hstep
    split at hstep
    · rename_i d hslot
      obtain ⟨hother, ⟨⟩⟩ := Option.ite_none_left_eq_some.mp hstep
      refine ⟨held, h.of_inOrder (h.holding.transfer rfl rfl fun _ _ howns => ?_) rfl rfl rfl rfl⟩
      refine howns.set_foreign (lt_length_of_slot hslot) ?_ (by simp)
      intro d' hd'
      rw [hslot] at hd'
      obtain rfl := Option.some.inj hd'
      simpa using hother
    · cases hstep
  | handleRead result =>
    obtain ⟨hstage, hstep⟩ := Option.ite_none_right_eq_some.mp hstep
    exact h.handleRead hstage hstep
  | proceed succeeds => exact h.proceed hstep
  | destroy =>
    obtain ⟨hstage, ⟨⟩⟩ := Option.ite_none_right_eq_some.mp hstep
    obtain ⟨rfl, howns⟩ := h.holding.of_waiting hstage
    exact ⟨none, h.closeIdle howns (.inr rfl)⟩

end Steps
theorem accounted_new (limit : Nat) (callback : Bool) : Accounted (new limit callback) none where
  holding := by
    have hfree : ∀ fd, slot (new limit callback).descriptors (fd + 2) = none := fun fd => slot_replicate_none limit
    refine .waiting (.inl rfl) ⟨fun fd => ?_, fun fd c => ?_⟩
    · match fd with
      | 0 | 1 => simp [new, slot]
      | fd + 2 =>
        rw [hfree]
        simp [new]
    · match fd with
      | 0 | 1 => simp [new, slot]
      | fd + 2 => simp [hfree]
  own := rfl
  ordered := List.Sublist.refl _
  complete := List.Perm.refl _

/-- For every interleaving of `handleRead` with peers that connect and reset and with other threads that open and close
descriptors: the acceptor closes no descriptor that is not its own. Between two calls of `handleRead` it owns the
descriptor in `idleFd_`, which is the file that it keeps in reserve, and no other. And every connection that arrived
waits, is reset, is the one in hand, was passed on, or was closed, each only once, and in the order of their arrival. -/
theorem descriptors_accounted {limit : Nat} {callback : Bool} {es : List AcceptorEvent}
    (h : system.Run (fun _ _ => True) (new limit callback) es s) :
    s.foreignCloses = [] ∧
      (s.stage = .waiting → ∀ fd d,
        slot s.descriptors fd = some d ∧ d.isOwn = true ↔ d = .idle ∧ s.idleFd = some fd) ∧
      ∃ inHand : Option Nat, (s.stage = .waiting → inHand = none) ∧
        (s.settled.reverse.map Settled.connection ++ inHand.toList ++ s.pending).Sublist (List.range s.arrived) ∧
        (s.settled.reverse.map Settled.connection ++ inHand.toList ++ s.pending ++ s.resets).Perm
          (List.range s.arrived) := by
  obtain ⟨held, haccounted⟩ : ∃ held, Accounted s held :=
    h.invariant (I := fun s => ∃ held, Accounted s held) (fun ⟨_, hs⟩ _ hstep => hs.step hstep)
      ⟨none, accounted_new limit callback⟩
  refine ⟨haccounted.own, ?_, held.map Prod.snd, ?_, haccounted.ordered, haccounted.complete⟩
  · intro hstage fd d
    obtain ⟨-, howns⟩ := haccounted.holding.of_waiting hstage
    constructor
    · rintro ⟨hslot, hown⟩
      cases d with
      | idle => exact ⟨rfl, (howns.idle fd).mp hslot⟩
      | accepted c => cases (howns.accepted fd c).mp hslot
      | passed c => cases hown
      | other => cases hown
    · rintro ⟨rfl, hidle⟩
      exact ⟨(howns.idle fd).mpr hidle, rfl⟩
  · intro hstage
    rw [(haccounted.holding.of_waiting hstage).1]
    rfl

/-- The table is full, and another thread takes the descriptor that the acceptor gives up. -/
def stolen : List AcceptorEvent :=
  [.connect, .connect, .openOther, .handleRead .emfile, .proceed true, .openOther, .proceed false, .proceed true,
    .proceed false, .closeOther 1, .handleRead .accepted, .proceed true]

theorem descriptors_accounted_stolen :
    ∃ s, system.Run (fun _ _ => True) (new 1 true) stolen s ∧ s.idleFd = none ∧ s.settled = [.passed 0 1] ∧
      s.foreignCloses = [] := by
  have hreplay : (system.checked (fun _ _ => True) (new 1 true) stolen).any (fun s =>
      decide (s.idleFd = none ∧ s.settled = [.passed 0 1])) = true := by
    decide +kernel
  obtain ⟨s, hrun, htest⟩ := Stepper.Run.of_any hreplay
  obtain ⟨hidle, hsettled⟩ := of_decide_eq_true htest
  exact ⟨s, hrun, hidle, hsettled, (descriptors_accounted hrun).1⟩

/-! ## The reserve -/

/-- Other threads open no descriptor from the close of the reserve until the acceptor has one again, and `open` fails
only for want of a descriptor. -/
def Undisturbed (s : Acceptor) : AcceptorEvent → Prop
  | .openOther => s.stage ≠ .acceptIdle ∧ s.stage ≠ .closeAccepted ∧ s.stage ≠ .openIdle
  | .proceed succeeds => s.stage = .openIdle → lowestFree s.descriptors ≠ none → succeeds = true
  | _ => True

instance (s : Acceptor) (e : AcceptorEvent) : Decidable (Undisturbed s e) :=
  match e with
  | .openOther => inferInstanceAs (Decidable (_ ∧ _ ∧ _))
  | .proceed succeeds =>
    inferInstanceAs (Decidable (s.stage = .openIdle → lowestFree s.descriptors ≠ none → succeeds = true))
  | .connect | .reset _ | .closeOther _ | .handleRead _ | .destroy => inferInstanceAs (Decidable True)

/-- The acceptor has a descriptor in reserve, or one is free. -/
def Reserve (s : Acceptor) : Prop :=
  match s.stage with
  | .waiting | .accepted _ | .closeIdle => s.idleFd ≠ none
  | .closeAccepted => s.idleFd ≠ none ∨ lowestFree s.descriptors ≠ none
  | .acceptIdle | .openIdle => lowestFree s.descriptors ≠ none
  | .destroyed => True

theorem Reserve.of_free (h : Reserve s) (hstage : t.stage = s.stage) (hidle : t.idleFd = s.idleFd)
    (hfree : lowestFree s.descriptors ≠ none → lowestFree t.descriptors ≠ none) : Reserve t := by
  unfold Reserve at h ⊢
  rw [hstage, hidle]
  cases hs : s.stage <;> simp only [hs] at h ⊢
  case waiting | accepted | closeIdle => exact h
  case acceptIdle | openIdle => exact hfree h
  case closeAccepted => exact h.imp_right hfree

/-- What is closed is free. -/
theorem lowestFree_close (hlt : fd < s.descriptors.length) : lowestFree (s.close (some fd)).descriptors ≠ none := by
  have hset : lowestFree (s.descriptors.set fd none) ≠ none := by
    refine lowestFree_ne_none (by simpa using hlt) ?_
    rw [slot_set hlt, if_pos rfl]
  unfold close
  dsimp only
  split <;> exact hset

theorem idleFd_newConnection (fd : Nat) (s : Acceptor) : (s.newConnection fd).idleFd = s.idleFd := by
  unfold newConnection
  split
  · split <;> rfl
  · exact (close_keeps (some fd) s).1

theorem Reserve.proceed {held : Option (Nat × Nat)} {succeeds : Bool} (h : Reserve s) (haccounted : Accounted s held)
    (hc : Undisturbed s (.proceed succeeds)) (hstep : s.proceed succeeds = some t) : Reserve t := by
  have hholding := haccounted.holding
  unfold Acceptor.proceed at hstep
  cases hstage : s.stage with
  | waiting | destroyed => simp [hstage] at hstep
  | accepted connfd =>
    simp only [hstage] at hstep
    obtain rfl := Option.some.inj hstep
    simp only [Reserve, hstage] at h
    simpa only [Reserve, idleFd_newConnection] using h
  | closeIdle =>
    simp only [hstage] at hstep
    obtain rfl := Option.some.inj hstep
    simp only [Reserve, hstage] at h
    obtain ⟨fd, hidle⟩ := Option.ne_none_iff_exists'.mp h
    cases hholding with
    | waiting _ howns =>
      have hlt := lt_length_of_slot ((howns.idle fd).mpr hidle)
      rw [hidle]
      exact lowestFree_close hlt
    | accepted hs _ => simp [hstage] at hs
    | nothing hs _ => simp [hstage] at hs
    | dropping hs _ _ => simp [hstage] at hs
  | acceptIdle =>
    simp only [hstage] at hstep
    simp only [Reserve, hstage] at h
    split at hstep
    · obtain ⟨⟨fd, t⟩, -, rfl⟩ := Option.map_eq_some_iff.mp hstep
      exact .inl (Option.some_ne_none fd)
    · obtain rfl := Option.some.inj hstep
      exact .inr h
  | closeAccepted =>
    simp only [hstage] at hstep
    obtain rfl := Option.some.inj hstep
    simp only [Reserve, hstage] at h
    cases hholding with
    | waiting hs _ => simp [hstage] at hs
    | accepted hs _ => simp [hstage] at hs
    | nothing hs _ =>
      have hidle : s.idleFd = none := by simpa [hstage] using hs
      rw [hidle] at h ⊢
      exact h.resolve_left fun hne => hne rfl
    | @dropping fd c _ hidle howns =>
      have hlt := lt_length_of_slot ((howns.accepted fd c).mpr rfl)
      rw [hidle]
      exact lowestFree_close hlt
  | openIdle =>
    simp only [hstage] at hstep
    simp only [Reserve, hstage] at h
    rw [hc hstage h, if_pos rfl] at hstep
    obtain ⟨fd, -, rfl⟩ := Option.map_eq_some_iff.mp hstep
    exact Option.some_ne_none fd

theorem Reserve.step {held : Option (Nat × Nat)} {e : AcceptorEvent} (h : Reserve s) (haccounted : Accounted s held)
    (hc : Undisturbed s e) (hstep : s.step e = some t) : Reserve t := by
  cases e with
  | connect =>
    obtain rfl := Option.some.inj hstep
    exact h.of_free rfl rfl fun hfree => hfree
  | reset c =>
    obtain ⟨-, ⟨⟩⟩ := Option.ite_none_right_eq_some.mp hstep
    exact h.of_free rfl rfl fun hfree => hfree
  | openOther =>
    obtain ⟨fd, -, rfl⟩ := Option.map_eq_some_iff.mp hstep
    obtain ⟨haccept, hclose, hopen⟩ := hc
    cases hstage : s.stage <;> simp only [Reserve, hstage] at h ⊢
    case waiting | accepted | closeIdle => exact h
    case acceptIdle => exact absurd hstage haccept
    case closeAccepted => exact absurd hstage hclose
    case openIdle => exact absurd hstage hopen
  | closeOther fd =>
    simp only [Acceptor.step] at hstep
    split at hstep
    · obtain ⟨-, ⟨⟩⟩ := Option.ite_none_left_eq_some.mp hstep
      exact h.of_free rfl rfl lowestFree_set_none
    · cases hstep
  | handleRead result =>
    obtain ⟨hstage, hstep⟩ := Option.ite_none_right_eq_some.mp hstep
    have hidle : s.idleFd ≠ none := by simpa only [Reserve, hstage] using h
    cases result with
    | accepted =>
      obtain ⟨⟨connfd, t⟩, haccept, rfl⟩ := Option.map_eq_some_iff.mp hstep
      obtain ⟨c, pending, -, -, rfl⟩ := accept_eq_some haccept
      exact hidle
    | emfile =>
      obtain ⟨-, ⟨⟩⟩ := Option.ite_none_right_eq_some.mp hstep
      exact hidle
    | failed =>
      obtain rfl := Option.some.inj hstep
      exact h
  | proceed succeeds => exact h.proceed haccounted hc hstep
  | destroy =>
    obtain ⟨-, ⟨⟩⟩ := Option.ite_none_right_eq_some.mp hstep
    trivial

/-- If other threads leave the acceptor the descriptor that it gives up, and `open` fails only for want of one, then
whenever `handleRead` is over the acceptor has one in reserve, which is its own and open; and in the handling of `EMFILE`
neither the `accept` of the connection that is to be closed nor the `open` of a new reserve is without a descriptor,
however the process runs out of them. -/
theorem reserve_kept {limit : Nat} {callback : Bool} {es : List AcceptorEvent}
    (h : system.Run Undisturbed (new limit callback) es s) :
    (s.stage = .waiting → ∃ fd, s.idleFd = some fd ∧ slot s.descriptors fd = some .idle) ∧
      (s.stage = .acceptIdle → s.pending ≠ [] → ∃ fd t, s.accept = some (fd, t)) ∧
      (s.stage = .openIdle → lowestFree s.descriptors ≠ none) := by
  obtain ⟨⟨held, haccounted⟩, hreserve⟩ : (∃ held, Accounted s held) ∧ Reserve s :=
    h.invariant (I := fun s => (∃ held, Accounted s held) ∧ Reserve s)
      (fun ⟨⟨_, hs⟩, hr⟩ hc hstep => ⟨hs.step hstep, hr.step hs hc hstep⟩)
      ⟨⟨none, accounted_new limit callback⟩, Option.some_ne_none 1⟩
  refine ⟨fun hstage => ?_, fun hstage hpending => ?_, fun hstage => ?_⟩
  · simp only [Reserve, hstage] at hreserve
    obtain ⟨fd, hidle⟩ := Option.ne_none_iff_exists'.mp hreserve
    obtain ⟨-, howns⟩ := haccounted.holding.of_waiting hstage
    exact ⟨fd, hidle, (howns.idle fd).mpr hidle⟩
  · simp only [Reserve, hstage] at hreserve
    obtain ⟨fd, hfree⟩ := Option.ne_none_iff_exists'.mp hreserve
    obtain ⟨c, pending, hcons⟩ := List.exists_cons_of_ne_nil hpending
    refine ⟨fd, { s with pending, descriptors := s.descriptors.set fd (some (.accepted c)) }, ?_⟩
    simp only [accept, hcons, hfree]
  · simpa only [Reserve, hstage] using hreserve

/-- The table is full, and the connection is closed. -/
def exhausted : List AcceptorEvent :=
  [.connect, .openOther, .handleRead .emfile, .proceed true, .proceed true, .proceed true, .proceed true]

theorem reserve_kept_exhausted :
    ∃ s, system.Run Undisturbed (new 1 true) exhausted s ∧ s.settled = [.closed 0] ∧
      ∃ fd, s.idleFd = some fd ∧ slot s.descriptors fd = some .idle := by
  have hreplay : (system.checked Undisturbed (new 1 true) exhausted).any (fun s =>
      decide (s.stage = .waiting ∧ s.settled = [.closed 0])) = true := by
    decide +kernel
  obtain ⟨s, hrun, htest⟩ := Stepper.Run.of_any hreplay
  obtain ⟨hstage, hsettled⟩ := of_decide_eq_true htest
  exact ⟨s, hrun, hsettled, (reserve_kept hrun).1 hstage⟩

end Acceptor
end Muduo
