import Muduo.Theorems.ServerConnections

/-! # Destroying a server

The destructor hands every connection in the map to `connectDestroyed`. So a connection that is in the map then must not
be handed to it a second time: no removal may wait in the base loop, and no connection of an I/O loop may be closed from
then on. -/

namespace Muduo
open Lib

def ServerFunctor.isRemoval : ServerFunctor → Bool
  | .removeConnectionInLoop _ => true
  | .connectEstablished _ | .connectDestroyed _ => false

namespace TcpServer
variable {k : Nat} {s t : TcpServer k} {c : Nat} {v v' : ServerConn k} {l : LoopId k}

/-- How often `connectDestroyed` has run for a connection, is queued for it, or is left to the destructor. -/
def destructions (s : TcpServer k) (c : Nat) (v : ServerConn k) : Nat :=
  v.destroyCalls.length + (s.queues v.loop).count (.connectDestroyed c) + (s.connections.map Prod.snd).count c

/-- The invariant from the start of the destructor on. -/
structure Leaving (s : TcpServer k) : Prop where
  serverAt : s.serverAt ≠ .alive
  queued : ∀ l f, f ∈ s.queues l → ∃ v, s.accepted[f.conn]? = some v ∧ v.loop = l
  removals : ∀ l c, .removeConnectionInLoop c ∉ s.queues l
  base : ∀ c, .connectEstablished c ∉ s.queues none
  once : ∀ (c : Nat) (v : ServerConn k), s.accepted[c]? = some v → s.destructions c v ≤ 1
  /-- The connections of the base loop that are up are left to the destructor. -/
  up : ∀ (c : Nat) (v : ServerConn k), s.accepted[c]? = some v → v.loop = none → v.state = .kConnected →
    c ∈ s.connections.map Prod.snd
  destroyed : s.serverAt = .destroyed → s.connections = []
  dangling : s.dangling = []

/-! ## The start of the destructor -/

theorem Inv.nodup_conns (hs : Inv s) : (s.connections.map Prod.snd).Nodup := by
  refine hs.nodup.map_on ?_
  rintro ⟨n, c⟩ hmem ⟨n', c'⟩ hmem' heq
  obtain rfl : c = c' := heq
  obtain ⟨v, hv, rfl, -⟩ := (hs.entries n c).mp hmem
  obtain ⟨w, hw, rfl, -⟩ := (hs.entries n' c).mp hmem'
  obtain rfl := Option.some.inj (hv.symm.trans hw)
  rfl

theorem Inv.destructions_le (hs : Inv s) (hc : s.accepted[c]? = some v) : s.destructions c v ≤ 1 := by
  have hold := hs.conns c v hc
  have hqueued : .connectDestroyed c ∈ s.queues v.loop ↔ ¬ v.inMap ∧ v.destroyCalls = [] := by
    rw [hs.pending.mem]
    simp [due, ServerFunctor.conn, hc, ServerConn.awaits]
  by_cases hmap : v.inMap
  · have hcalls := hold.no_calls hmap
    have hcount : (s.queues v.loop).count (.connectDestroyed c) = 0 := by
      refine List.count_eq_zero.mpr fun hmem => ?_
      exact (hqueued.mp hmem).1 hmap
    have hentries : (s.connections.map Prod.snd).count c ≤ 1 := List.nodup_iff_count_le_one.mp hs.nodup_conns c
    simp only [destructions, hcalls, hcount, List.length_nil]
    omega
  · have hentries : (s.connections.map Prod.snd).count c = 0 := by
      refine List.count_eq_zero.mpr fun hmem => ?_
      obtain ⟨⟨n, c'⟩, hentry, rfl⟩ := List.mem_map.mp hmem
      exact hmap (hs.inMap_of_mem hc hentry)
    by_cases hcalls : v.destroyCalls = []
    · have hcount : (s.queues v.loop).count (.connectDestroyed c) ≤ 1 :=
        List.nodup_iff_count_le_one.mp (hs.pending.nodup v.loop) _
      simp only [destructions, hcalls, hentries, List.length_nil]
      omega
    · have hcount : (s.queues v.loop).count (.connectDestroyed c) = 0 := by
        refine List.count_eq_zero.mpr fun hmem => ?_
        exact hcalls (hqueued.mp hmem).2
      have honce := hold.once
      simp only [destructions, hcount, hentries]
      omega

theorem Inv.leaving (hs : Inv s) (hremovals : ∀ c, .removeConnectionInLoop c ∉ s.queues none) :
    Leaving { s with serverAt := .destroying } := by
  have hremovals' : ∀ l c, .removeConnectionInLoop c ∉ s.queues l := by
    intro l c hmem
    obtain ⟨v, hv, hl, -⟩ := (hs.pending.mem l _).mp hmem
    subst hl
    exact hremovals c hmem
  refine ⟨ServerAt.noConfusion, ?_, hremovals', ?_, fun c v hc => hs.destructions_le hc, ?_, ?_, hs.dangling⟩
  · intro l f hmem
    obtain ⟨v, hv, hawaits⟩ := (hs.pending.mem l f).mp hmem
    refine ⟨v, hv, ?_⟩
    cases f with
    | connectEstablished c => exact hawaits.1.symm
    | removeConnectionInLoop c => exact absurd hmem (hremovals' l c)
    | connectDestroyed c => exact hawaits.1.symm
  · intro c hmem
    obtain ⟨v, hv, hl, hstate⟩ := (hs.pending.mem none _).mp hmem
    exact (hs.conns c v hv).base hl.symm hstate
  · intro c v hc _ hstate
    have hmap := hs.inMap_of_connected hc (by simp [hstate])
    exact List.mem_map.mpr ⟨(v.name, c), (hs.entries v.name c).mpr ⟨v, hc, rfl, hmap⟩, rfl⟩
  · intro hdestroyed
    cases hdestroyed

/-! ## The steps after it -/

/-- A step for one connection. -/
theorem Leaving.of_changes (hs : Leaving s) (h : Changes s t c v v')
    (hqueued : ∀ l f, f ∈ t.queues l → f ∈ s.queues l ∨ l = v.loop ∧ f = .connectDestroyed c)
    (honce : t.destructions c v' ≤ s.destructions c v)
    (hothers : ∀ c' w, c' ≠ c → t.destructions c' w ≤ s.destructions c' w)
    (hup : v.loop = none → v'.state = .kConnected → c ∈ t.connections.map Prod.snd)
    (hentries : ∀ c', c' ≠ c → c' ∈ s.connections.map Prod.snd → c' ∈ t.connections.map Prod.snd)
    (hserver : t.serverAt = s.serverAt) (hdestroyed : s.connections = [] → t.connections = [])
    (hdangling : t.dangling = s.dangling) : Leaving t := by
  refine ⟨hserver ▸ hs.serverAt, ?_, ?_, ?_, ?_, ?_, ?_, hdangling.trans hs.dangling⟩
  · intro l f hf
    rw [h.after]
    rcases hqueued l f hf with hf | ⟨rfl, rfl⟩
    · obtain ⟨w, hw, hwl⟩ := hs.queued l f hf
      by_cases hfc : f.conn = c
      · rw [if_pos hfc]
        rw [hfc, h.before] at hw
        obtain rfl := Option.some.inj hw
        exact ⟨v', rfl, h.same.2.trans hwl⟩
      · rw [if_neg hfc]
        exact ⟨w, hw, hwl⟩
    · exact ⟨v', if_pos rfl, h.same.2⟩
  · intro l c' hmem
    rcases hqueued l _ hmem with hmem | ⟨-, heq⟩
    · exact hs.removals l c' hmem
    · cases heq
  · intro c' hmem
    rcases hqueued none _ hmem with hmem | ⟨-, heq⟩
    · exact hs.base c' hmem
    · cases heq
  · intro c' w hw
    rcases h.lookup_cases hw with ⟨rfl, rfl⟩ | ⟨hne, hw⟩
    · exact Nat.le_trans honce (hs.once c' v h.before)
    · exact Nat.le_trans (hothers c' w hne) (hs.once c' w hw)
  · intro c' w hw hloop hstate
    rcases h.lookup_cases hw with ⟨rfl, rfl⟩ | ⟨hne, hw⟩
    · exact hup (h.same.2.symm.trans hloop) hstate
    · exact hentries c' hne (hs.up c' w hw hloop hstate)
  · intro hat
    exact hdestroyed (hs.destroyed (hserver ▸ hat))

theorem mem_of_mem_pop {f : ServerFunctor} {rest : List ServerFunctor} (hqueue : s.queues l = f :: rest) {l' : LoopId k}
    {g : ServerFunctor} (hg : g ∈ Function.update s.queues l rest l') : g ∈ s.queues l' := by
  by_cases hl : l' = l
  · subst hl
    rw [Function.update_self] at hg
    rw [hqueue]
    exact List.mem_cons_of_mem _ hg
  · rwa [Function.update_of_ne hl] at hg

theorem count_pop_le {f g : ServerFunctor} {rest : List ServerFunctor} (hqueue : s.queues l = f :: rest) (l' : LoopId k) :
    (Function.update s.queues l rest l').count g ≤ (s.queues l').count g := by
  by_cases hl : l' = l
  · subst hl
    rw [Function.update_self, hqueue]
    exact List.count_le_count_cons
  · rw [Function.update_of_ne hl]

theorem Leaving.functor {f : ServerFunctor} {rest : List ServerFunctor} (hs : Leaving s)
    (hqueue : s.queues l = f :: rest) :
    Leaving (TcpServer.functor l f { s with queues := Function.update s.queues l rest }) := by
  have hmem : f ∈ s.queues l := by
    rw [hqueue]
    exact List.mem_cons_self
  obtain ⟨v, hc, hloop⟩ := hs.queued l f hmem
  cases f with
  | connectEstablished c =>
    have hchanges : Changes s (TcpServer.functor l (.connectEstablished c)
        { s with queues := Function.update s.queues l rest }) c v { v with state := .kConnected } :=
      changes_of_modify (f := fun v => { v with state := .kConnected }) hc rfl ⟨rfl, rfl, rfl⟩ ⟨rfl, rfl⟩
    refine hs.of_changes hchanges ?_ ?_ ?_ ?_ (fun _ _ hentry => hentry) rfl id rfl
    · intro l' g hg
      exact .inl (mem_of_mem_pop hqueue hg)
    · have hcount := count_pop_le (g := .connectDestroyed c) hqueue v.loop
      exact Nat.add_le_add_right (Nat.add_le_add_left hcount _) _
    · intro c' w _
      have hcount := count_pop_le (g := .connectDestroyed c') hqueue w.loop
      exact Nat.add_le_add_right (Nat.add_le_add_left hcount _) _
    · intro hbase
      rw [← hloop, hbase] at hmem
      exact absurd hmem (hs.base c)
  | removeConnectionInLoop c => exact absurd hmem (hs.removals l c)
  | connectDestroyed c =>
    refine hs.of_changes (changes_connectDestroyed hc) ?_ ?_ ?_ ?_ (fun _ _ hentry => hentry) rfl id rfl
    · intro l' g hg
      exact .inl (mem_of_mem_pop hqueue hg)
    · -- The call was queued before.
      have hcount : (s.queues v.loop).count (.connectDestroyed c) = rest.count (.connectDestroyed c) + 1 := by
        rw [hloop, hqueue, List.count_cons_self]
      have hpopped : Function.update s.queues l rest v.loop = rest := by rw [hloop, Function.update_self]
      show (v.destroyCalls.length + 1) + (Function.update s.queues l rest v.loop).count _ +
        (s.connections.map Prod.snd).count c ≤ s.destructions c v
      rw [hpopped, destructions, hcount]
      exact Nat.le_of_eq (by omega)
    · intro c' w _
      have hcount := count_pop_le (g := .connectDestroyed c') hqueue w.loop
      exact Nat.add_le_add_right (Nat.add_le_add_left hcount _) _
    · intro _ hstate
      cases hstate

theorem Leaving.established (hs : Leaving s) :
    Leaving { s.modifyConn c fun v => { v with established := true } with
      inEstablished := Function.update s.inEstablished l none } := by
  cases hc : s.accepted[c]? with
  | none =>
    have hsame : s.accepted.modify c (fun v => { v with established := true }) = s.accepted :=
      List.modify_eq_self (List.getElem?_eq_none_iff.mp hc)
    simp only [modifyConn, hsame]
    exact ⟨hs.serverAt, hs.queued, hs.removals, hs.base, hs.once, hs.up, hs.destroyed, hs.dangling⟩
  | some v =>
    have hchanges : Changes s { s.modifyConn c fun v => { v with established := true } with
        inEstablished := Function.update s.inEstablished l none } c v { v with established := true } :=
      changes_of_modify (f := fun v => { v with established := true }) hc rfl ⟨rfl, rfl, rfl⟩ ⟨rfl, rfl⟩
    refine hs.of_changes hchanges (fun _ _ hf => .inl hf) (Nat.le_refl _) (fun _ _ _ => Nat.le_refl _) ?_
      (fun _ _ hentry => hentry) rfl id rfl
    exact hs.up c v hc

/-- A functor is queued and the map is changed. -/
theorem changes_queued {connections : List (String × Nat)} {f : ServerFunctor} (hc : s.accepted[c]? = some v) :
    Changes s ({ s with connections }.queueInLoop l f) c v v := by
  refine ⟨hc, ?_, rfl, ⟨rfl, rfl, rfl⟩, rfl, rfl⟩
  intro c'
  split
  · rename_i heq
    rw [heq]
    exact hc
  · rfl

theorem mem_of_mem_push {f g : ServerFunctor} {l' : LoopId k}
    (hf : f ∈ Function.update s.queues l (s.queues l ++ [g]) l') : f ∈ s.queues l' ∨ l' = l ∧ f = g := by
  by_cases hl : l' = l
  · subst hl
    rw [Function.update_self, List.mem_append, List.mem_singleton] at hf
    exact hf.imp_right fun heq => ⟨rfl, heq⟩
  · rw [Function.update_of_ne hl] at hf
    exact .inl hf

theorem count_push_of_ne {f g : ServerFunctor} {l' : LoopId k} (hne : g ≠ f) :
    (Function.update s.queues l (s.queues l ++ [g]) l').count f = (s.queues l').count f := by
  by_cases hl : l' = l
  · rw [hl, Function.update_self, List.count_append, List.count_singleton]
    simp [hne]
  · rw [Function.update_of_ne hl]

/-- An entry of the map is handed to `connectDestroyed`. -/
theorem Leaving.destroyConnection {n : String} {rest : List (String × Nat)} (hs : Leaving s)
    (hconnections : s.connections = (n, c) :: rest) (hc : s.accepted[c]? = some v) :
    Leaving ({ s with connections := rest }.destroyConnection c v) := by
  have hentry : (s.connections.map Prod.snd).count c = (rest.map Prod.snd).count c + 1 := by
    rw [hconnections, List.map_cons, List.count_cons_self]
  have hothers : ∀ c', c' ≠ c → (s.connections.map Prod.snd).count c' = (rest.map Prod.snd).count c' := by
    intro c' hne
    rw [hconnections, List.map_cons, List.count_cons_of_ne (Ne.symm hne)]
  have hentries : ∀ c', c' ≠ c → c' ∈ s.connections.map Prod.snd → c' ∈ rest.map Prod.snd := by
    intro c' hne hmem
    rw [hconnections, List.map_cons] at hmem
    exact (List.mem_cons.mp hmem).resolve_left hne
  have hnonempty : s.connections ≠ [] := by
    rw [hconnections]
    exact List.cons_ne_nil _ _
  unfold TcpServer.destroyConnection
  split
  · rename_i hloop
    refine hs.of_changes (changes_connectDestroyed hc) (fun _ _ hf => .inl hf) ?_ ?_ ?_ hentries rfl
      (fun hempty => absurd hempty hnonempty) rfl
    · show (v.destroyCalls.length + 1) + (s.queues v.loop).count _ + (rest.map Prod.snd).count c ≤ s.destructions c v
      rw [destructions, hentry]
      exact Nat.le_of_eq (by omega)
    · intro c' w hne
      show _ + (s.queues w.loop).count _ + (rest.map Prod.snd).count c' ≤ s.destructions c' w
      rw [destructions, hothers c' hne]
    · intro _ hstate
      cases hstate
  · rename_i i hloop
    refine hs.of_changes (changes_queued hc) (fun l f hf => mem_of_mem_push hf) ?_ ?_ ?_ hentries rfl
      (fun hempty => absurd hempty hnonempty) rfl
    · show v.destroyCalls.length + (Function.update s.queues v.loop (s.queues v.loop ++ [.connectDestroyed c]) v.loop).count
          (.connectDestroyed c) + (rest.map Prod.snd).count c ≤ s.destructions c v
      rw [Function.update_self, List.count_append, List.count_singleton_self, destructions, hentry]
      exact Nat.le_of_eq (by omega)
    · intro c' w hne
      show _ + (Function.update s.queues v.loop _ w.loop).count _ + (rest.map Prod.snd).count c' ≤ s.destructions c' w
      rw [count_push_of_ne fun heq => hne (ServerFunctor.connectDestroyed.inj heq).symm, destructions, hothers c' hne]
    · intro hbase
      rw [hloop] at hbase
      cases hbase

/-! ## Every run -/

/-- No removal waits in the base loop when the destructor starts, and from then on no connection of an I/O loop is
closed. -/
def DestroysQuietly (s : TcpServer k) : Event k → Prop
  | .destructor => s.serverAt = .alive → ∀ f ∈ s.queues none, f.isRemoval = false
  | .handleClose c => s.serverAt = .alive ∨ (s.accepted[c]?).map ServerConn.loop = some none
  | _ => True

instance (s : TcpServer k) : ∀ e, Decidable (DestroysQuietly s e)
  | .destructor => inferInstanceAs (Decidable (s.serverAt = .alive → ∀ f ∈ s.queues none, f.isRemoval = false))
  | .handleClose c =>
    inferInstanceAs (Decidable (s.serverAt = .alive ∨ (s.accepted[c]?).map ServerConn.loop = some none))
  | .newConnection | .functor _ | .established _ => inferInstanceAs (Decidable True)

theorem Inv.destructor (hs : Inv s) (hquiet : DestroysQuietly s .destructor) (h : s.destructor = some t) : Leaving t := by
  simp only [TcpServer.destructor, hs.alive] at h
  cases h
  refine hs.leaving ?_
  intro c hmem
  cases hquiet hs.alive _ hmem

theorem Leaving.destructor (hs : Leaving s) (h : s.destructor = some t) : Leaving t := by
  unfold TcpServer.destructor at h
  split at h
  · rename_i hat
    exact absurd hat hs.serverAt
  · rename_i hempty
    cases h
    exact ⟨ServerAt.noConfusion, hs.queued, hs.removals, hs.base, hs.once, hs.up, fun _ => hempty, hs.dangling⟩
  · rename_i n c rest hat hconnections
    split at h
    · cases h
    · rename_i v hc
      cases h
      exact hs.destroyConnection hconnections hc
  · cases h

theorem Leaving.step {e : Event k} (hs : Leaving s) (hquiet : DestroysQuietly s e) (h : s.step e = some t) :
    Leaving t := by
  cases e with
  | newConnection => exact absurd (of_newConnection h).1 hs.serverAt
  | functor l =>
    obtain ⟨f, rest, hqueue, -, rfl⟩ := of_functor h
    exact hs.functor hqueue
  | established l =>
    obtain ⟨c, -, rfl⟩ := of_established h
    exact hs.established
  | handleClose c =>
    -- Only a connection of the base loop may be closed, but none is up any more.
    obtain ⟨v, hc, hstate, hguard, -⟩ := of_handleClose h
    have hloop : v.loop = none := by
      have hbase := hquiet.resolve_left hs.serverAt
      rw [hc, Option.map_some, Option.some.injEq] at hbase
      exact hbase
    have hentry := hs.up c v hc hloop hstate
    have hat : s.serverAt = .destroyed := by
      cases hat : s.serverAt with
      | alive => exact absurd hat hs.serverAt
      | destroying => exact absurd hat (hguard hloop)
      | destroyed => rfl
    rw [hs.destroyed hat] at hentry
    cases hentry
  | destructor => exact hs.destructor h

/-- Under these conditions the server is not called after its destructor, and `connectDestroyed` is run at most once for
each connection. -/
theorem destruction_clean {name ipPort : String} {es : List (Event k)}
    (hrun : (system k).Run (fun s e => FewAccepted s e ∧ DestroysQuietly s e) { name, ipPort } es s) :
    s.dangling = [] ∧ ∀ v ∈ s.accepted, v.destroyCalls.length ≤ 1 := by
  have hs : Inv s ∨ Leaving s := by
    refine hrun.invariant (I := fun s => Inv s ∨ Leaving s) ?_ (.inl (Inv.init name ipPort))
    rintro s t e (hs | hs) ⟨hfew, hquiet⟩ h
    · cases e with
      | destructor => exact .inr (hs.destructor hquiet h)
      | newConnection => exact .inl (hs.step hfew rfl h)
      | functor l => exact .inl (hs.step hfew rfl h)
      | established l => exact .inl (hs.step hfew rfl h)
      | handleClose c => exact .inl (hs.step hfew rfl h)
    · exact .inr (hs.step hquiet h)
  rcases hs with hs | hs
  · refine ⟨hs.dangling, ?_⟩
    intro v hv
    obtain ⟨c, hc⟩ := List.mem_iff_getElem?.mp hv
    exact (hs.conns c v hc).once
  · refine ⟨hs.dangling, ?_⟩
    intro v hv
    obtain ⟨c, hc⟩ := List.mem_iff_getElem?.mp hv
    have honce := hs.once c v hc
    rw [destructions] at honce
    omega

/-- The first connection is closed and torn down; the second is open when the destructor runs. -/
def destroyedQuietly (l : LoopId k) : List (Event k) :=
  [.newConnection, .functor l, .established l, .newConnection, .handleClose 0, .functor none, .functor l, .established l,
    .functor l, .destructor, .destructor, .destructor, .functor l]

theorem destroyed_quietly :
    ∃ s, (system 1).Run (fun s e => FewAccepted s e ∧ DestroysQuietly s e) { name := "server", ipPort := "0.0.0.0:2000" }
        (destroyedQuietly (some 0)) s ∧
      s.serverAt = .destroyed ∧ s.accepted.map (·.destroyCalls.length) = [1, 1] ∧
      s.dangling = [] ∧ ∀ v ∈ s.accepted, v.destroyCalls.length ≤ 1 := by
  obtain ⟨s, hrun, hdestroyed, hcalls⟩ : ∃ s, (system 1).Run (fun s e => FewAccepted s e ∧ DestroysQuietly s e)
      { name := "server", ipPort := "0.0.0.0:2000" } (destroyedQuietly (some 0)) s ∧
      s.serverAt = .destroyed ∧ s.accepted.map (·.destroyCalls.length) = [1, 1] := by
    refine Stepper.Run.replay rfl ?_
    intro _
    exact ⟨rfl, rfl⟩
  exact ⟨s, hrun, hdestroyed, hcalls, destruction_clean hrun⟩

/-- The removal of a connection that was closed in its I/O loop waits in the base loop when the destructor runs. -/
def destroyedBeforeRemoval (l : LoopId k) : List (Event k) :=
  [.newConnection, .functor l, .established l, .handleClose 0, .destructor, .destructor, .destructor, .functor none,
    .functor l, .functor l]

/-- The connection is closed between the destructor and the `connectDestroyed` that it has queued. -/
def closedAfterDestructor (l : LoopId k) : List (Event k) :=
  [.newConnection, .functor l, .established l, .destructor, .destructor, .destructor, .handleClose 0]

theorem destruction_dangling :
    (∃ s, (system 1).Run (fun _ _ => True) { name := "server", ipPort := "0.0.0.0:2000" }
        (destroyedBeforeRemoval (some 0)) s ∧
      s.serverAt = .destroyed ∧ s.dangling = [0] ∧ s.accepted.map (·.destroyCalls.length) = [2]) ∧
    ∃ s, (system 1).Run (fun _ _ => True) { name := "server", ipPort := "0.0.0.0:2000" }
        (closedAfterDestructor (some 0)) s ∧
      s.serverAt = .destroyed ∧ s.dangling = [0] := by
  refine ⟨?_, ?_⟩
  · refine Stepper.Run.replay rfl ?_
    intro _
    exact ⟨rfl, rfl, rfl⟩
  · refine Stepper.Run.replay rfl ?_
    intro _
    exact ⟨rfl, rfl⟩

end TcpServer
end Muduo
