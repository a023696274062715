import Mathlib
import Muduo.Lib.Due
import Muduo.Lib.Threads
import Muduo.TcpServer

/-! # The connections of a server

Where a connection is in its life says which functors are queued for it, and where: so each of them runs once, in the
right loop and in the right order, as long as only `removeConnectionInLoop` takes connections out of the map. -/

namespace Muduo
open Lib

namespace ServerConn
variable {k : Nat}

/-- The entry of the connection was not erased. -/
abbrev inMap (v : ServerConn k) : Prop := v.erasures = []

/-- The functors that are queued for a connection. -/
def awaits (v : ServerConn k) (l : LoopId k) : ServerFunctor → Prop
  | .connectEstablished _ => l = v.loop ∧ v.state = .kConnecting
  | .removeConnectionInLoop _ => l = none ∧ v.state = .kDisconnected ∧ v.inMap
  | .connectDestroyed _ => l = v.loop ∧ ¬ v.inMap ∧ v.destroyCalls = []

/-- A connection in a server, with the connection whose `connectEstablished` each loop is in. -/
structure Ok (inEstablished : LoopId k → Option Nat) (c : Nat) (v : ServerConn k) : Prop where
  closed : ¬ v.inMap → v.state = .kDisconnected
  removed : v.destroyCalls ≠ [] → ¬ v.inMap
  once : v.destroyCalls.length ≤ 1
  begun : v.state ≠ .kConnecting → v.established = true ∨ inEstablished v.loop = some c
  calls : ∀ d ∈ v.destroyCalls, d.loop = v.loop ∧ d.established = true ∧ d.erased = true
  erasures : ∀ n ∈ v.erasures, n = 1
  /-- The base loop establishes a connection at once. -/
  base : v.loop = none → v.state ≠ .kConnecting

namespace Ok
variable {v : ServerConn k} {inEstablished : LoopId k → Option Nat} {c : Nat}

theorem no_calls (h : v.Ok inEstablished c) (hmap : v.inMap) : v.destroyCalls = [] := by
  by_contra hcalls
  exact h.removed hcalls hmap

theorem of_new (hmap : v.inMap) (hcalls : v.destroyCalls = [])
    (hbegun : v.state ≠ .kConnecting → v.established = true ∨ inEstablished v.loop = some c)
    (hbase : v.loop = none → v.state ≠ .kConnecting) : v.Ok inEstablished c where
  closed hne := absurd hmap hne
  removed hne := absurd hcalls hne
  once := by simp [hcalls]
  begun := hbegun
  calls := by simp [hcalls]
  erasures := by simp [hmap]
  base := hbase

end Ok
end ServerConn

namespace TcpServer
variable {k : Nat} {s t u : TcpServer k} {c : Nat} {v v' : ServerConn k} {l : LoopId k}

/-- The functor is queued in the loop. -/
def due (s : TcpServer k) (l : LoopId k) (f : ServerFunctor) : Prop :=
  ∃ v, s.accepted[f.conn]? = some v ∧ v.awaits l f

/-- The invariant of a server that is alive. -/
structure Inv (s : TcpServer k) : Prop where
  named : ∀ (c : Nat) (v : ServerConn k), s.accepted[c]? = some v → v.name = connName s.name s.ipPort (c + 1 : Nat)
  nextConnId : s.accepted.length + 1 < 2 ^ 31 → s.nextConnId = (s.accepted.length + 1 : Nat)
  entries : ∀ n c, (n, c) ∈ s.connections ↔ ∃ v, s.accepted[c]? = some v ∧ v.name = n ∧ v.inMap
  nodup : s.connections.Nodup
  conns : ∀ (c : Nat) (v : ServerConn k), s.accepted[c]? = some v → v.Ok s.inEstablished c
  inEstablished : ∀ l c, s.inEstablished l = some c → ∃ v, s.accepted[c]? = some v ∧ v.loop = l
  pending : Holds s.queues s.due
  alive : s.serverAt = .alive
  dangling : s.dangling = []

/-! ## Names -/

theorem connName_inj {name ipPort : String} {a b : Nat} : connName name ipPort a = connName name ipPort b ↔ a = b := by
  simp [connName, Int.repr_eq_if]

theorem Inv.conn_of_name (hs : Inv s) {c' : Nat} {w : ServerConn k} (hc : s.accepted[c]? = some v)
    (hw : s.accepted[c']? = some w) (hname : w.name = v.name) : c' = c := by
  rw [hs.named c v hc, hs.named c' w hw, connName_inj] at hname
  omega

/-- `erase` finds the entry of a connection that is in the map, and no other. -/
theorem Inv.erase_one (hs : Inv s) (hc : s.accepted[c]? = some v) (hmap : v.inMap) :
    (s.connections.filter (·.1 = v.name)).length = 1 := by
  have hperm : (s.connections.filter (·.1 = v.name)).Perm [(v.name, c)] := by
    rw [List.perm_ext_iff_of_nodup (hs.nodup.filter _) (List.nodup_singleton _)]
    rintro ⟨n, c'⟩
    rw [List.mem_filter, hs.entries, List.mem_singleton, Prod.mk.injEq]
    constructor
    · rintro ⟨⟨w, hw, rfl, -⟩, hname⟩
      have hname : w.name = v.name := of_decide_eq_true hname
      exact ⟨hname, hs.conn_of_name hc hw hname⟩
    · rintro ⟨rfl, rfl⟩
      exact ⟨⟨v, hc, rfl, hmap⟩, decide_eq_true rfl⟩
  exact hperm.length_eq

/-- What `erase` leaves. -/
theorem Inv.mem_erase (hs : Inv s) (hc : s.accepted[c]? = some v) (n : String) (c' : Nat) :
    (n, c') ∈ s.connections.filter (·.1 ≠ v.name) ↔ (n, c') ∈ s.connections ∧ c' ≠ c := by
  rw [List.mem_filter, hs.entries]
  constructor
  · rintro ⟨hmem, hne⟩
    refine ⟨hmem, ?_⟩
    rintro rfl
    obtain ⟨w, hw, rfl, -⟩ := hmem
    obtain rfl := Option.some.inj (hc.symm.trans hw)
    exact of_decide_eq_true hne rfl
  · rintro ⟨⟨w, hw, rfl, hmap⟩, hne⟩
    refine ⟨⟨w, hw, rfl, hmap⟩, decide_eq_true ?_⟩
    intro hname
    exact hne (hs.conn_of_name hc hw hname)

theorem Inv.in_loop (hs : Inv s) (hc : s.accepted[c]? = some v) (hl : s.inEstablished l = some c) : v.loop = l := by
  obtain ⟨w, hw, hwl⟩ := hs.inEstablished l c hl
  obtain rfl := Option.some.inj (hc.symm.trans hw)
  exact hwl

theorem Inv.inMap_of_mem (hs : Inv s) (hc : s.accepted[c]? = some v) {n : String} (hmem : (n, c) ∈ s.connections) :
    v.inMap := by
  obtain ⟨w, hw, -, hmap⟩ := (hs.entries n c).mp hmem
  obtain rfl := Option.some.inj (hc.symm.trans hw)
  exact hmap

theorem Inv.inMap_of_connected (hs : Inv s) (hc : s.accepted[c]? = some v) (hstate : v.state ≠ .kDisconnected) :
    v.inMap := by
  by_contra hmap
  exact hstate ((hs.conns c v hc).closed hmap)

theorem called_of_ne (h : s.serverAt ≠ .destroyed) : s.called c = s := if_neg h

theorem Inv.serverAt_ne (hs : Inv s) : s.serverAt ≠ .destroyed := by
  rw [hs.alive]
  exact ServerAt.noConfusion

/-! ## A step for one connection -/

/-- Only one connection changes, and it keeps its name and its loop. -/
structure Changes (s t : TcpServer k) (c : Nat) (v v' : ServerConn k) : Prop where
  before : s.accepted[c]? = some v
  after : ∀ c', t.accepted[c']? = if c' = c then some v' else s.accepted[c']?
  length : t.accepted.length = s.accepted.length
  server : t.name = s.name ∧ t.ipPort = s.ipPort ∧ t.nextConnId = s.nextConnId
  same : v'.name = v.name ∧ v'.loop = v.loop

theorem changes_of_modify {f : ServerConn k → ServerConn k} (hc : s.accepted[c]? = some v)
    (haccepted : t.accepted = s.accepted.modify c f)
    (hserver : t.name = s.name ∧ t.ipPort = s.ipPort ∧ t.nextConnId = s.nextConnId)
    (hsame : (f v).name = v.name ∧ (f v).loop = v.loop) : Changes s t c v (f v) where
  before := hc
  after := by
    intro c'
    rw [haccepted, List.getElem?_modify]
    by_cases hcc : c' = c
    · subst hcc
      simp [hc]
    · simp [hcc, Ne.symm hcc]
  length := by rw [haccepted, List.length_modify]
  server := hserver
  same := hsame

namespace Changes

theorem lookup (h : Changes s t c v v') : t.accepted[c]? = some v' := by
  rw [h.after, if_pos rfl]

theorem lookup_cases {c' : Nat} {w : ServerConn k} (h : Changes s t c v v') (hw : t.accepted[c']? = some w) :
    c' = c ∧ w = v' ∨ c' ≠ c ∧ s.accepted[c']? = some w := by
  rw [h.after] at hw
  split at hw
  · rename_i hcc
    exact .inl ⟨hcc, (Option.some.inj hw).symm⟩
  · rename_i hcc
    exact .inr ⟨hcc, hw⟩

theorem due_iff (h : Changes s t c v v') (f : ServerFunctor) :
    (f.conn = c → (t.due l f ↔ v'.awaits l f) ∧ (s.due l f ↔ v.awaits l f)) ∧ (f.conn ≠ c → (t.due l f ↔ s.due l f)) := by
  refine ⟨?_, ?_⟩
  · intro hf
    simp [due, hf, h.after, h.before]
  · intro hf
    simp [due, h.after, hf]

/-- The head of a queue was run for the connection. -/
theorem pending_pop {f : ServerFunctor} {rest : List ServerFunctor} (h : Changes s t c v v') (hs : Holds s.queues s.due)
    (hqueue : s.queues l = f :: rest) (hf : f.conn = c) (hqueues : t.queues = Function.update s.queues l rest)
    (hawaits : ∀ l' g, g.conn = c → (v'.awaits l' g ↔ v.awaits l' g ∧ ¬ (l' = l ∧ g = f))) : Holds t.queues t.due := by
  rw [hqueues]
  refine hs.pop hqueue ?_
  intro l' g
  by_cases hg : g.conn = c
  · obtain ⟨ht, hs⟩ := (h.due_iff (l := l') g).1 hg
    rw [ht, hs]
    exact hawaits l' g hg
  · rw [(h.due_iff g).2 hg]
    refine ⟨fun hdue => ⟨hdue, ?_⟩, fun hdue => hdue.1⟩
    rintro ⟨-, rfl⟩
    exact hg hf

/-- A functor was queued for the connection. -/
theorem pending_push {f : ServerFunctor} (h : Changes s t c v v') (hs : Holds s.queues s.due) (hf : f.conn = c)
    (hnew : ¬ v.awaits l f) (hqueues : t.queues = Function.update s.queues l (s.queues l ++ [f]))
    (hawaits : ∀ l' g, g.conn = c → (v'.awaits l' g ↔ v.awaits l' g ∨ l' = l ∧ g = f)) : Holds t.queues t.due := by
  rw [hqueues]
  refine hs.push ?_ ?_
  · rw [((h.due_iff f).1 hf).2]
    exact hnew
  · intro l' g
    by_cases hg : g.conn = c
    · obtain ⟨ht, hs⟩ := (h.due_iff (l := l') g).1 hg
      rw [ht, hs]
      exact hawaits l' g hg
    · rw [(h.due_iff g).2 hg]
      refine ⟨.inl, fun hdue => hdue.resolve_right ?_⟩
      rintro ⟨-, rfl⟩
      exact hg hf

/-- The head of a queue was run for the connection and has queued another functor for it. -/
theorem pending_popPush {f g : ServerFunctor} {l' : LoopId k} {rest : List ServerFunctor} (h : Changes s t c v v')
    (hs : Holds s.queues s.due) (hqueue : s.queues l = f :: rest) (hf : f.conn = c) (hg : g.conn = c)
    (hnew : ¬ v.awaits l' g)
    (hqueues : t.queues = Function.update (Function.update s.queues l rest) l' (Function.update s.queues l rest l' ++ [g]))
    (hawaits : ∀ m x, x.conn = c → (v'.awaits m x ↔ (v.awaits m x ∧ ¬ (m = l ∧ x = f)) ∨ m = l' ∧ x = g)) :
    Holds t.queues t.due := by
  rw [hqueues]
  have hpop : Holds (Function.update s.queues l rest) fun m x => s.due m x ∧ ¬ (m = l ∧ x = f) :=
    hs.pop hqueue fun _ _ => .rfl
  refine hpop.push ?_ ?_
  · rw [((h.due_iff g).1 hg).2]
    exact fun hdue => hnew hdue.1
  · intro m x
    by_cases hx : x.conn = c
    · obtain ⟨ht, hs⟩ := (h.due_iff (l := m) x).1 hx
      rw [ht, hs]
      exact hawaits m x hx
    · rw [(h.due_iff x).2 hx]
      constructor
      · intro hdue
        refine .inl ⟨hdue, ?_⟩
        rintro ⟨-, rfl⟩
        exact hx hf
      · rintro (hdue | ⟨-, rfl⟩)
        · exact hdue.1
        · exact absurd hg hx

/-- No functor was run or queued. -/
theorem pending_same (h : Changes s t c v v') (hs : Holds s.queues s.due) (hqueues : t.queues = s.queues)
    (hawaits : ∀ l' g, g.conn = c → (v'.awaits l' g ↔ v.awaits l' g)) : Holds t.queues t.due := by
  rw [hqueues]
  refine hs.congr ?_
  intro l' g
  by_cases hg : g.conn = c
  · obtain ⟨ht, hs⟩ := (h.due_iff (l := l') g).1 hg
    rw [ht, hs]
    exact hawaits l' g hg
  · exact (h.due_iff g).2 hg

theorem trans {v'' : ServerConn k} (h : Changes s t c v v') (h' : Changes t u c v' v'') : Changes s u c v v'' where
  before := h.before
  after := by
    intro c'
    rw [h'.after, h.after]
    split <;> rfl
  length := h'.length.trans h.length
  server := ⟨h'.server.1.trans h.server.1, h'.server.2.1.trans h.server.2.1, h'.server.2.2.trans h.server.2.2⟩
  same := ⟨h'.same.1.trans h.same.1, h'.same.2.trans h.same.2⟩

end Changes

/-- A step for one connection: what is left to show is about this connection, the map and the queues. -/
theorem Inv.of_changes (hs : Inv s) (h : Changes s t c v v') (hok : v'.Ok t.inEstablished c)
    (hentries : ∀ n c', (n, c') ∈ t.connections ↔ (n, c') ∈ s.connections ∧ (c' = c → v'.inMap))
    (hinMap : v'.inMap → v.inMap) (hnodup : t.connections.Nodup)
    (hothers : ∀ l c', c' ≠ c → (t.inEstablished l = some c' ↔ s.inEstablished l = some c'))
    (hin : ∀ l, t.inEstablished l = some c → v.loop = l) (hpending : Holds t.queues t.due)
    (hserver : t.serverAt = s.serverAt) (hdangling : t.dangling = s.dangling) : Inv t := by
  obtain ⟨hname, hipPort, hnextConnId⟩ := h.server
  refine ⟨?_, ?_, ?_, hnodup, ?_, ?_, hpending, hserver.trans hs.alive, hdangling.trans hs.dangling⟩
  · intro c' w hw
    rw [hname, hipPort]
    rcases h.lookup_cases hw with ⟨rfl, rfl⟩ | ⟨-, hw⟩
    · rw [h.same.1]
      exact hs.named c' v h.before
    · exact hs.named c' w hw
  · rw [h.length, hnextConnId]
    exact hs.nextConnId
  · intro n c'
    rw [hentries, hs.entries, h.after]
    by_cases hcc : c' = c
    · subst hcc
      simp only [h.before, Option.some.injEq, exists_eq_left', if_true, h.same.1, forall_const]
      exact ⟨fun hv => ⟨hv.1.1, hv.2⟩, fun hv => ⟨⟨hv.1, hinMap hv.2⟩, hv.2⟩⟩
    · simp [hcc]
  · intro c' w hw
    rcases h.lookup_cases hw with ⟨rfl, rfl⟩ | ⟨hne, hw⟩
    · exact hok
    · have hold := hs.conns c' w hw
      refine ⟨hold.closed, hold.removed, hold.once, ?_, hold.calls, hold.erasures, hold.base⟩
      intro hstate
      rw [hothers w.loop c' hne]
      exact hold.begun hstate
  · intro l c' hl
    by_cases hcc : c' = c
    · subst hcc
      exact ⟨v', by simp [h.after], h.same.2.trans (hin l hl)⟩
    · rw [hothers l c' hcc] at hl
      rw [h.after, if_neg hcc]
      exact hs.inEstablished l c' hl

/-- The map as it was, for a connection whose entry stays as it is. -/
theorem Inv.entries_same (hs : Inv s) (hc : s.accepted[c]? = some v) (n : String) (c' : Nat) :
    (n, c') ∈ s.connections ↔ (n, c') ∈ s.connections ∧ (c' = c → v.inMap) := by
  refine ⟨fun hmem => ⟨hmem, ?_⟩, fun hmem => hmem.1⟩
  rintro rfl
  exact hs.inMap_of_mem hc hmem

/-! ## The functors -/

theorem Inv.functor_connectEstablished {rest : List ServerFunctor} (hs : Inv s) (hidle : s.inEstablished l = none)
    (hqueue : s.queues l = .connectEstablished c :: rest) :
    Inv ({ s with queues := Function.update s.queues l rest }.connectEstablished c l) := by
  obtain ⟨v, hc, hloop, hstate⟩ := hs.pending.due_head hqueue
  have hc : s.accepted[c]? = some v := hc
  have hold := hs.conns c v hc
  have hmap : v.inMap := hs.inMap_of_connected hc (by simp [hstate])
  have hchanges : Changes s ({ s with queues := Function.update s.queues l rest }.connectEstablished c l) c v
      { v with state := .kConnected } :=
    changes_of_modify (f := fun v => { v with state := .kConnected }) hc rfl ⟨rfl, rfl, rfl⟩ ⟨rfl, rfl⟩
  have hentries := hs.entries_same hc
  refine hs.of_changes hchanges ⟨?_, hold.removed, hold.once, ?_, hold.calls, hold.erasures, fun _ => StateE.noConfusion⟩
    hentries id hs.nodup ?_ ?_ (hchanges.pending_pop hs.pending hqueue rfl rfl ?_) rfl rfl
  · intro hmap'
    exact absurd hmap hmap'
  · intro _
    refine .inr ?_
    rw [← hloop]
    exact Function.update_self _ _ _
  · intro l' c' hne
    by_cases hl : l' = l
    · subst hl
      simp [connectEstablished, hidle, Ne.symm hne]
    · simp [connectEstablished, hl]
  · intro l' hl'
    by_cases hl : l' = l
    · rw [hl]
      exact hloop.symm
    · exact hs.in_loop hc (by simpa [connectEstablished, hl] using hl')
  · intro l' g hg
    cases g with
    | connectEstablished c' =>
      obtain rfl : c' = c := hg
      simp [ServerConn.awaits, hstate, hloop]
    | removeConnectionInLoop c' => simp [ServerConn.awaits, hstate]
    | connectDestroyed c' => simp [ServerConn.awaits]

theorem changes_connectDestroyed {queues : LoopId k → List ServerFunctor} {connections : List (String × Nat)}
    (hc : s.accepted[c]? = some v) : Changes s ({ s with queues, connections }.connectDestroyed c l) c v
      { v with state := .kDisconnected, destroyCalls := ⟨l, v.established, !v.erasures.isEmpty⟩ :: v.destroyCalls } :=
  changes_of_modify (f := fun v => { v with
    state := .kDisconnected, destroyCalls := ⟨l, v.established, !v.erasures.isEmpty⟩ :: v.destroyCalls }) hc rfl
    ⟨rfl, rfl, rfl⟩ ⟨rfl, rfl⟩

theorem Inv.functor_connectDestroyed {rest : List ServerFunctor} (hs : Inv s) (hidle : s.inEstablished l = none)
    (hqueue : s.queues l = .connectDestroyed c :: rest) :
    Inv ({ s with queues := Function.update s.queues l rest }.connectDestroyed c l) := by
  obtain ⟨v, hc, hloop, hmap, hcalls⟩ := hs.pending.due_head hqueue
  have hc : s.accepted[c]? = some v := hc
  have hold := hs.conns c v hc
  have hchanges : Changes s ({ s with queues := Function.update s.queues l rest }.connectDestroyed c l) c v
      { v with state := .kDisconnected, destroyCalls := ⟨l, v.established, !v.erasures.isEmpty⟩ :: v.destroyCalls } :=
    changes_connectDestroyed hc
  have hestablished : v.established = true := by
    refine (hold.begun ?_).resolve_right ?_
    · rw [hold.closed hmap]
      exact StateE.noConfusion
    · rw [← hloop, hidle]
      exact Option.some_ne_none c ∘ Eq.symm
  have hentries := hs.entries_same hc
  refine hs.of_changes hchanges ⟨fun _ => rfl, fun _ => hmap, ?_, fun _ => .inl hestablished, ?_, hold.erasures, ?_⟩
    hentries id hs.nodup (fun _ _ _ => .rfl) (fun l' hl' => hs.in_loop hc hl')
    (hchanges.pending_pop hs.pending hqueue rfl rfl ?_) rfl rfl
  · simp [hcalls]
  · intro d hd
    dsimp only at hd
    rw [hcalls] at hd
    obtain rfl := List.mem_singleton.mp hd
    refine ⟨hloop, hestablished, ?_⟩
    simpa using hmap
  · intro _
    exact StateE.noConfusion
  · intro l' g hg
    cases g with
    | connectEstablished c' => simp [ServerConn.awaits, hold.closed hmap]
    | removeConnectionInLoop c' => simp [ServerConn.awaits, hmap]
    | connectDestroyed c' =>
      obtain rfl : c' = c := hg
      refine ⟨fun hawaits => absurd hawaits.2.2 (List.cons_ne_nil _ _), ?_⟩
      rintro ⟨⟨hl', -⟩, hne⟩
      exact absurd ⟨hl'.trans hloop.symm, rfl⟩ hne

/-- The entry of a closed connection is erased. -/
theorem Inv.erased (hs : Inv s)
    (h : Changes s t c v { v with state := .kDisconnected, erasures := (s.connections.filter (·.1 = v.name)).length :: v.erasures })
    (hmap : v.inMap) (hstate : v.state ≠ .kConnecting) (hconnections : t.connections = s.connections.filter (·.1 ≠ v.name))
    (hpending : Holds t.queues t.due) (hserver : t.serverAt = s.serverAt) (hdangling : t.dangling = s.dangling)
    (hin : t.inEstablished = s.inEstablished) : Inv t := by
  have hold := hs.conns c v h.before
  refine hs.of_changes h ⟨fun _ => rfl, ?_, hold.once, ?_, ?_, ?_, ?_⟩ ?_ ?_ ?_ ?_ ?_ hpending hserver hdangling
  · intro hcalls
    exact absurd (hold.no_calls hmap) hcalls
  · intro _
    rw [hin]
    exact hold.begun hstate
  · intro d hd
    exact absurd hmap (hold.removed (List.ne_nil_of_mem hd))
  · intro n hn
    rcases List.mem_cons.mp hn with rfl | hn
    · exact hs.erase_one h.before hmap
    · exact hold.erasures n hn
  · intro _
    exact StateE.noConfusion
  · intro n c'
    rw [hconnections, hs.mem_erase h.before]
    refine and_congr_right fun _ => ⟨fun hne heq => absurd heq hne, ?_⟩
    intro hmap' heq
    exact absurd (hmap' heq) (List.cons_ne_nil _ _)
  · intro hmap'
    exact absurd hmap' (List.cons_ne_nil _ _)
  · rw [hconnections]
    exact hs.nodup.filter _
  · intro l c' _
    rw [hin]
  · intro l hl
    rw [hin] at hl
    exact hs.in_loop h.before hl

theorem removeConnectionInLoop_eq (h : s.serverAt ≠ .destroyed) :
    s.removeConnectionInLoop c v =
      { s with
        connections := s.connections.filter (·.1 ≠ v.name)
        accepted := s.accepted.modify c fun w =>
          { w with erasures := (s.connections.filter (·.1 = v.name)).length :: w.erasures }
        queues := Function.update s.queues v.loop (s.queues v.loop ++ [.connectDestroyed c]) } := by
  simp only [removeConnectionInLoop, called_of_ne h, modifyConn, queueInLoop]

theorem Inv.functor_removeConnectionInLoop {rest : List ServerFunctor} (hs : Inv s) (hc : s.accepted[c]? = some v)
    (hqueue : s.queues l = .removeConnectionInLoop c :: rest) :
    Inv ({ s with queues := Function.update s.queues l rest }.removeConnectionInLoop c v) := by
  obtain ⟨w, hw, hl, hstate, hmap⟩ := hs.pending.due_head hqueue
  obtain rfl := Option.some.inj (hc.symm.trans hw)
  have hcalls : v.destroyCalls = [] := (hs.conns c v hc).no_calls hmap
  have hchanges : Changes s ({ s with queues := Function.update s.queues l rest }.removeConnectionInLoop c v) c v
      { v with state := .kDisconnected, erasures := (s.connections.filter (·.1 = v.name)).length :: v.erasures } := by
    rw [removeConnectionInLoop_eq (s := { s with queues := Function.update s.queues l rest }) hs.serverAt_ne,
      ← hstate]
    exact changes_of_modify (f := fun w => { w with erasures := (s.connections.filter (·.1 = v.name)).length :: w.erasures })
      hc rfl ⟨rfl, rfl, rfl⟩ ⟨rfl, rfl⟩
  rw [removeConnectionInLoop_eq (s := { s with queues := Function.update s.queues l rest }) hs.serverAt_ne]
    at hchanges ⊢
  refine hs.erased hchanges hmap (by simp [hstate]) rfl ?_ rfl rfl rfl
  refine hchanges.pending_popPush hs.pending hqueue rfl rfl ?_ rfl ?_
  · simp [ServerConn.awaits, hmap]
  · intro m x hx
    cases x with
    | connectEstablished c' => simp [ServerConn.awaits, hstate]
    | removeConnectionInLoop c' =>
      obtain rfl : c' = c := hx
      refine ⟨fun hawaits => absurd hawaits.2.2 (List.cons_ne_nil _ _), ?_⟩
      rintro (⟨⟨hm, -⟩, hne⟩ | ⟨-, heq⟩)
      · exact absurd ⟨hm.trans hl.symm, rfl⟩ hne
      · cases heq
    | connectDestroyed c' =>
      obtain rfl : c' = c := hx
      simp [ServerConn.awaits, hmap, hcalls]

/-! ## Closing, and the return of `connectEstablished` -/

theorem changes_closed (hc : s.accepted[c]? = some v) :
    Changes s (s.modifyConn c fun v => { v with state := .kDisconnected }) c v { v with state := .kDisconnected } :=
  changes_of_modify (f := fun v => { v with state := .kDisconnected }) hc rfl ⟨rfl, rfl, rfl⟩ ⟨rfl, rfl⟩

/-- In the base loop the entry is erased at once. -/
theorem Inv.closed_base (hs : Inv s) (hc : s.accepted[c]? = some v) (hstate : v.state = .kConnected) :
    Inv ((s.modifyConn c fun v => { v with state := .kDisconnected }).removeConnectionInLoop c v) := by
  have hmap : v.inMap := hs.inMap_of_connected hc (by simp [hstate])
  have hserver := hs.serverAt_ne
  have hcalls : v.destroyCalls = [] := (hs.conns c v hc).no_calls hmap
  have hclosed := changes_closed hc
  have hchanges : Changes s ((s.modifyConn c fun v => { v with state := .kDisconnected }).removeConnectionInLoop c v) c v
      { v with state := .kDisconnected, erasures := (s.connections.filter (·.1 = v.name)).length :: v.erasures } := by
    rw [removeConnectionInLoop_eq (s := s.modifyConn c _) hserver]
    refine hclosed.trans ?_
    exact changes_of_modify (f := fun w => { w with
      erasures := (s.connections.filter (·.1 = v.name)).length :: w.erasures }) hclosed.lookup rfl ⟨rfl, rfl, rfl⟩ ⟨rfl, rfl⟩
  rw [removeConnectionInLoop_eq (s := s.modifyConn c _) hserver] at hchanges ⊢
  refine hs.erased hchanges hmap (by simp [hstate]) rfl ?_ rfl rfl rfl
  refine hchanges.pending_push (f := .connectDestroyed c) hs.pending rfl ?_ rfl ?_
  · simp [ServerConn.awaits, hmap]
  · intro m x hx
    cases x with
    | connectEstablished c' => simp [ServerConn.awaits, hstate]
    | removeConnectionInLoop c' => simp [ServerConn.awaits, hstate]
    | connectDestroyed c' =>
      obtain rfl : c' = c := hx
      simp [ServerConn.awaits, hmap, hcalls]

/-- In another loop the removal is queued for the base loop. -/
theorem Inv.closed_queued (hs : Inv s) (hc : s.accepted[c]? = some v) (hstate : v.state = .kConnected) :
    Inv ((s.modifyConn c fun v => { v with state := .kDisconnected }).queueInLoop none (.removeConnectionInLoop c)) := by
  have hmap : v.inMap := hs.inMap_of_connected hc (by simp [hstate])
  have hold := hs.conns c v hc
  have hclosed := changes_closed hc
  have hchanges : Changes s ((s.modifyConn c fun v => { v with state := .kDisconnected }).queueInLoop none
      (.removeConnectionInLoop c)) c v { v with state := .kDisconnected } :=
    ⟨hclosed.before, hclosed.after, hclosed.length, hclosed.server, hclosed.same⟩
  have hentries := hs.entries_same hc
  refine hs.of_changes hchanges ⟨fun _ => rfl, hold.removed, hold.once, ?_, hold.calls, hold.erasures, ?_⟩
    hentries id hs.nodup (fun _ _ _ => .rfl) (fun l hl => hs.in_loop hc hl)
    (hchanges.pending_push (f := .removeConnectionInLoop c) hs.pending rfl ?_ rfl ?_) rfl rfl
  · intro _
    exact hold.begun (by simp [hstate])
  · intro _
    exact StateE.noConfusion
  · simp [ServerConn.awaits, hstate]
  · intro m x hx
    cases x with
    | connectEstablished c' => simp [ServerConn.awaits, hstate]
    | removeConnectionInLoop c' =>
      obtain rfl : c' = c := hx
      simp [ServerConn.awaits, hstate, hmap]
    | connectDestroyed c' => simp [ServerConn.awaits]

theorem Inv.handleClose (hs : Inv s) (hc : s.accepted[c]? = some v) (hstate : v.state = .kConnected) :
    Inv (s.handleClose c v) := by
  unfold TcpServer.handleClose removeConnection
  rw [called_of_ne (s := s.modifyConn c _) hs.serverAt_ne]
  split
  · exact hs.closed_base hc hstate
  · exact hs.closed_queued hc hstate

theorem Inv.established (hs : Inv s) (hin : s.inEstablished l = some c) :
    Inv { s.modifyConn c fun v => { v with established := true } with
      inEstablished := Function.update s.inEstablished l none } := by
  obtain ⟨v, hc, hloop⟩ := hs.inEstablished l c hin
  have hold := hs.conns c v hc
  have hchanges : Changes s { s.modifyConn c fun v => { v with established := true } with
      inEstablished := Function.update s.inEstablished l none } c v { v with established := true } :=
    changes_of_modify (f := fun v => { v with established := true }) hc rfl ⟨rfl, rfl, rfl⟩ ⟨rfl, rfl⟩
  have hentries := hs.entries_same hc
  refine hs.of_changes hchanges ⟨hold.closed, hold.removed, hold.once, fun _ => .inl rfl, hold.calls, hold.erasures,
    hold.base⟩ hentries id hs.nodup ?_ ?_ (hchanges.pending_same hs.pending rfl ?_) rfl rfl
  · intro l' c' hne
    by_cases hl : l' = l
    · subst hl
      simp [hin, Ne.symm hne]
    · simp [hl]
  · intro l' hl'
    by_cases hl : l' = l
    · subst hl
      simp at hl'
    · exact hs.in_loop hc (by simpa [hl] using hl')
  · intro m x _
    cases x <;> exact .rfl

/-! ## New connections -/

theorem incrementInt_of_lt {n : Nat} (h : n + 1 < 2 ^ 31) : incrementInt (n : Int) = (n + 1 : Nat) := by
  unfold incrementInt
  split
  · omega
  · omega

theorem Inv.lt_of_mem (hs : Inv s) {n : String} (hmem : (n, c) ∈ s.connections) : c < s.accepted.length := by
  obtain ⟨w, hw, -⟩ := (hs.entries n c).mp hmem
  exact (List.getElem?_eq_some_iff.mp hw).1

theorem Inv.lt_of_inEstablished (hs : Inv s) (hl : s.inEstablished l = some c) : c < s.accepted.length := by
  obtain ⟨w, hw, -⟩ := hs.inEstablished l c hl
  exact (List.getElem?_eq_some_iff.mp hw).1

theorem lt_of_due {f : ServerFunctor} (h : s.due l f) : f.conn < s.accepted.length := by
  obtain ⟨w, hw, -⟩ := h
  exact (List.getElem?_eq_some_iff.mp hw).1

/-- The name of a new connection is not in the map, so no entry is replaced. -/
theorem Inv.filter_new_name (hs : Inv s) {n : String} (hnew : n = connName s.name s.ipPort (s.accepted.length + 1 : Nat)) :
    s.connections.filter (·.1 ≠ n) = s.connections := by
  refine List.filter_eq_self.mpr ?_
  rintro ⟨n', c⟩ hmem
  have hlt := hs.lt_of_mem hmem
  obtain ⟨w, hw, rfl, -⟩ := (hs.entries n' c).mp hmem
  refine decide_eq_true ?_
  dsimp only
  rw [hs.named c w hw, hnew, Ne, connName_inj]
  omega

/-- A connection is added: what is left to show is about this connection and the queues. -/
theorem Inv.added {v : ServerConn k} (hs : Inv s) (hfew : s.accepted.length + 1 < 2 ^ 31)
    (hafter : t.accepted = s.accepted ++ [v]) (hv : v.name = connName s.name s.ipPort s.nextConnId)
    (hmap : v.inMap) (hok : v.Ok t.inEstablished s.accepted.length)
    (hserver : t.name = s.name ∧ t.ipPort = s.ipPort ∧ t.nextConnId = incrementInt s.nextConnId)
    (hconnections : t.connections = s.connections.filter (·.1 ≠ v.name) ++ [(v.name, s.accepted.length)])
    (hothers : ∀ l c', c' ≠ s.accepted.length → (t.inEstablished l = some c' ↔ s.inEstablished l = some c'))
    (hin : ∀ l, t.inEstablished l = some s.accepted.length → v.loop = l) (hpending : Holds t.queues t.due)
    (hat : t.serverAt = s.serverAt) (hdangling : t.dangling = s.dangling) : Inv t := by
  have hnew : v.name = connName s.name s.ipPort (s.accepted.length + 1 : Nat) := by rw [hv, hs.nextConnId hfew]
  have hlookup : ∀ (c : Nat) (w : ServerConn k), t.accepted[c]? = some w ↔
      s.accepted[c]? = some w ∨ c = s.accepted.length ∧ w = v := by
    intro c w
    rw [hafter]
    exact getElem?_concat_eq_some
  have hkeeps : s.connections.filter (·.1 ≠ v.name) = s.connections := hs.filter_new_name hnew
  obtain ⟨hname, hipPort, hnextConnId⟩ := hserver
  refine ⟨?_, ?_, ?_, ?_, ?_, ?_, hpending, hat.trans hs.alive, hdangling.trans hs.dangling⟩
  · intro c w hw
    rw [hname, hipPort]
    rcases (hlookup c w).mp hw with hw | ⟨rfl, rfl⟩
    · exact hs.named c w hw
    · exact hnew
  · intro hlt
    rw [hafter, List.length_append, List.length_singleton] at hlt ⊢
    rw [hnextConnId, hs.nextConnId hfew]
    exact incrementInt_of_lt hlt
  · intro n c
    rw [hconnections, hkeeps, List.mem_append, List.mem_singleton, hs.entries]
    constructor
    · rintro (⟨w, hw, hwn, hwm⟩ | heq)
      · exact ⟨w, (hlookup c w).mpr (.inl hw), hwn, hwm⟩
      · obtain ⟨rfl, rfl⟩ := Prod.mk.inj heq
        exact ⟨v, (hlookup _ v).mpr (.inr ⟨rfl, rfl⟩), rfl, hmap⟩
    · rintro ⟨w, hw, rfl, hwm⟩
      rcases (hlookup c w).mp hw with hw | ⟨rfl, rfl⟩
      · exact .inl ⟨w, hw, rfl, hwm⟩
      · exact .inr rfl
  · rw [hconnections, hkeeps]
    refine List.nodup_append.mpr ⟨hs.nodup, List.nodup_singleton _, ?_⟩
    rintro ⟨n, c⟩ hmem x hx heq
    subst heq
    obtain ⟨-, rfl⟩ := Prod.mk.inj (List.mem_singleton.mp hx)
    exact Nat.lt_irrefl _ (hs.lt_of_mem hmem)
  · intro c w hw
    rcases (hlookup c w).mp hw with hw | ⟨rfl, rfl⟩
    · have hlt := (List.getElem?_eq_some_iff.mp hw).1
      have hok := hs.conns c w hw
      refine ⟨hok.closed, hok.removed, hok.once, ?_, hok.calls, hok.erasures, hok.base⟩
      intro hstate
      rw [hothers w.loop c (Nat.ne_of_lt hlt)]
      exact hok.begun hstate
    · exact hok
  · intro l c hl
    by_cases hc : c = s.accepted.length
    · subst hc
      exact ⟨v, (hlookup _ v).mpr (.inr ⟨rfl, rfl⟩), hin l hl⟩
    · obtain ⟨w, hw, hwl⟩ := hs.inEstablished l c ((hothers l c hc).mp hl)
      exact ⟨w, (hlookup c w).mpr (.inl hw), hwl⟩

/-- The functors that are due for the old connections stay so. -/
theorem due_added {v : ServerConn k} (hafter : t.accepted = s.accepted ++ [v]) (l : LoopId k) (f : ServerFunctor) :
    t.due l f ↔ s.due l f ∨ f.conn = s.accepted.length ∧ v.awaits l f := by
  unfold due
  rw [hafter]
  constructor
  · rintro ⟨w, hw, hawaits⟩
    rcases getElem?_concat_eq_some.mp hw with hw | ⟨hf, rfl⟩
    · exact .inl ⟨w, hw, hawaits⟩
    · exact .inr ⟨hf, hawaits⟩
  · rintro (⟨w, hw, hawaits⟩ | ⟨hf, hawaits⟩)
    · exact ⟨w, getElem?_concat_eq_some.mpr (.inl hw), hawaits⟩
    · exact ⟨v, getElem?_concat_eq_some.mpr (.inr ⟨hf, rfl⟩), hawaits⟩

theorem modify_concat {α : Type} (xs : List α) (a : α) (f : α → α) : (xs ++ [a]).modify xs.length f = xs ++ [f a] := by
  induction xs with
  | nil => rfl
  | cons x xs ih => simp [ih]

/-- The base loop enters `connectEstablished` for the new connection at once. -/
theorem Inv.newConnection_base (hs : Inv s) (hfew : s.accepted.length + 1 < 2 ^ 31)
    (hidle : s.inEstablished none = none) (hloop : (getNextLoop (k := k) s.next).1 = none) :
    Inv (s.addConnection.connectEstablished s.accepted.length none) := by
  have hafter : (s.addConnection.connectEstablished s.accepted.length none).accepted =
      s.accepted ++ [{ name := connName s.name s.ipPort s.nextConnId, loop := none, state := .kConnected }] := by
    simp [connectEstablished, modifyConn, addConnection, hloop, modify_concat]
  refine hs.added hfew hafter rfl rfl (.of_new rfl rfl ?_ ?_) ⟨rfl, rfl, rfl⟩ rfl ?_ ?_ ?_ rfl rfl
  · intro _
    exact .inr (by simp [connectEstablished])
  · intro _
    exact StateE.noConfusion
  · intro l c' hne
    by_cases hl : l = none
    · subst hl
      simp [connectEstablished, hidle, Ne.symm hne]
    · simp [connectEstablished, addConnection, modifyConn, hl]
  · intro l hl
    by_cases hbase : l = none
    · exact hbase.symm
    · have hin : s.inEstablished l = some s.accepted.length := by
        simpa [connectEstablished, addConnection, modifyConn, hbase] using hl
      exact absurd (hs.lt_of_inEstablished hin) (Nat.lt_irrefl _)
  · refine hs.pending.congr ?_
    intro l f
    rw [due_added hafter]
    refine ⟨fun hdue => hdue.resolve_right ?_, .inl⟩
    rintro ⟨-, hawaits⟩
    cases f with
    | connectEstablished c' => cases hawaits.2
    | removeConnectionInLoop c' => cases hawaits.2.1
    | connectDestroyed c' => exact hawaits.2.1 rfl

/-- In another loop it is queued. -/
theorem Inv.newConnection_queued {i : Fin k} (hs : Inv s) (hfew : s.accepted.length + 1 < 2 ^ 31)
    (hloop : (getNextLoop s.next).1 = some i) :
    Inv (s.addConnection.queueInLoop (some i) (.connectEstablished s.accepted.length)) := by
  have hafter : (s.addConnection.queueInLoop (some i) (.connectEstablished s.accepted.length)).accepted =
      s.accepted ++ [{ name := connName s.name s.ipPort s.nextConnId, loop := some i }] := by
    simp [queueInLoop, addConnection, hloop]
  refine hs.added hfew hafter rfl rfl (.of_new rfl rfl ?_ ?_) ⟨rfl, rfl, rfl⟩ rfl (fun _ _ _ => .rfl) ?_ ?_ rfl rfl
  · intro hstate
    exact absurd rfl hstate
  · intro hbase
    cases hbase
  · intro l hl
    exact absurd (hs.lt_of_inEstablished hl) (Nat.lt_irrefl _)
  · refine hs.pending.push (fun hdue => absurd (lt_of_due hdue) (Nat.lt_irrefl _)) ?_
    intro l f
    rw [due_added hafter]
    refine or_congr_right ?_
    constructor
    · rintro ⟨hf, hawaits⟩
      cases f with
      | connectEstablished c' =>
        obtain rfl : c' = s.accepted.length := hf
        exact ⟨hawaits.1, rfl⟩
      | removeConnectionInLoop c' => cases hawaits.2.1
      | connectDestroyed c' => exact absurd rfl hawaits.2.1
    · rintro ⟨rfl, rfl⟩
      exact ⟨rfl, rfl, rfl⟩

theorem Inv.newConnection (hs : Inv s) (hfew : s.accepted.length + 1 < 2 ^ 31) (hidle : s.inEstablished none = none) :
    Inv s.newConnection := by
  unfold TcpServer.newConnection
  split
  · rename_i hloop
    exact hs.newConnection_base hfew hidle hloop
  · rename_i i hloop
    exact hs.newConnection_queued hfew hloop

/-! ## Every run -/

/-- Fewer than `2 ^ 31` connections are accepted. -/
def FewAccepted (s : TcpServer k) : Event k → Prop
  | .newConnection => s.accepted.length + 1 < 2 ^ 31
  | _ => True

instance (s : TcpServer k) : ∀ e, Decidable (FewAccepted s e)
  | .newConnection => inferInstanceAs (Decidable (s.accepted.length + 1 < 2 ^ 31))
  | .functor _ | .established _ | .handleClose _ | .destructor => inferInstanceAs (Decidable True)

theorem Inv.init (name ipPort : String) : Inv (k := k) { name, ipPort } where
  named c v hc := by cases hc
  nextConnId _ := rfl
  entries n c := by simp
  nodup := List.nodup_nil
  conns c v hc := by cases hc
  inEstablished l c hl := by cases hl
  pending := by
    refine ⟨fun _ => List.nodup_nil, ?_⟩
    intro l f
    simp [due]
  alive := rfl
  dangling := rfl

/-- The events but the destructor, which ends the life of the server. -/
def Event.isServed : Event k → Bool
  | .destructor => false
  | .newConnection | .functor _ | .established _ | .handleClose _ => true

theorem Inv.functor {f : ServerFunctor} {rest : List ServerFunctor} (hs : Inv s) (hidle : s.inEstablished l = none)
    (hqueue : s.queues l = f :: rest) :
    Inv (TcpServer.functor l f { s with queues := Function.update s.queues l rest }) := by
  cases f with
  | connectEstablished c => exact hs.functor_connectEstablished hidle hqueue
  | removeConnectionInLoop c =>
    obtain ⟨v, hc, -⟩ := hs.pending.due_head hqueue
    have hc : s.accepted[c]? = some v := hc
    simp only [TcpServer.functor, hc]
    exact hs.functor_removeConnectionInLoop hc hqueue
  | connectDestroyed c => exact hs.functor_connectDestroyed hidle hqueue

theorem Inv.step {e : Event k} (hs : Inv s) (hfew : FewAccepted s e) (he : e.isServed = true) (h : s.step e = some t) :
    Inv t := by
  cases e with
  | newConnection =>
    obtain ⟨-, hidle, rfl⟩ := of_newConnection h
    exact hs.newConnection hfew hidle
  | functor l =>
    obtain ⟨f, rest, hqueue, hidle, rfl⟩ := of_functor h
    exact hs.functor hidle hqueue
  | established l =>
    obtain ⟨c, hin, rfl⟩ := of_established h
    exact hs.established hin
  | handleClose c =>
    obtain ⟨v, hc, hstate, -, rfl⟩ := of_handleClose h
    exact hs.handleClose hc hstate
  | destructor => cases he

@[simp] theorem serverAt_called : (s.called c).serverAt = s.serverAt := by
  unfold called
  split <;> rfl

@[simp] theorem serverAt_removeConnectionInLoop : (s.removeConnectionInLoop c v).serverAt = s.serverAt :=
  serverAt_called

@[simp] theorem serverAt_removeConnection : (s.removeConnection c v).serverAt = s.serverAt := by
  unfold removeConnection
  split
  · rw [serverAt_removeConnectionInLoop, serverAt_called]
  · exact serverAt_called

@[simp] theorem serverAt_functor {f : ServerFunctor} : (s.functor l f).serverAt = s.serverAt := by
  cases f with
  | connectEstablished c => rfl
  | removeConnectionInLoop c =>
    unfold functor
    dsimp only
    split
    · rfl
    · exact serverAt_removeConnectionInLoop
  | connectDestroyed c => rfl

/-- Only the destructor ends the life of the server. -/
theorem alive_of_step {e : Event k} (h : s.step e = some t) (halive : t.serverAt = .alive) :
    s.serverAt = .alive ∧ e.isServed = true := by
  cases e with
  | newConnection => exact ⟨(of_newConnection h).1, rfl⟩
  | functor l =>
    obtain ⟨f, rest, -, -, rfl⟩ := of_functor h
    rw [serverAt_functor] at halive
    exact ⟨halive, rfl⟩
  | established l =>
    obtain ⟨c, -, rfl⟩ := of_established h
    exact ⟨halive, rfl⟩
  | handleClose c =>
    obtain ⟨v, -, -, -, rfl⟩ := of_handleClose h
    rw [TcpServer.handleClose, serverAt_removeConnection] at halive
    exact ⟨halive, rfl⟩
  | destructor =>
    simp only [step, destructor] at h
    split at h
    · cases h
      cases halive
    · cases h
      cases halive
    · rename_i hat _
      split at h
      · cases h
      · cases h
        unfold destroyConnection at halive
        split at halive <;> exact absurd (hat.symm.trans halive) ServerAt.noConfusion
    · cases h

/-- While the server is alive, for every number of loops and every interleaving: the names are distinct, the map holds
the connections that `removeConnectionInLoop` was not run for, each of its erasures finds one entry, and
`connectDestroyed` is run at most once for a connection, in its loop, after `connectEstablished` has returned and the
entry was erased. -/
theorem server_bookkeeping {name ipPort : String} {es : List (Event k)}
    (hrun : (system k).Run FewAccepted { name, ipPort } es s) (halive : s.serverAt = .alive) :
    (s.accepted.map ServerConn.name).Nodup ∧
    s.connections.Nodup ∧
    (∀ n c, (n, c) ∈ s.connections ↔ ∃ v, s.accepted[c]? = some v ∧ v.name = n ∧ v.erasures = []) ∧
    (∀ v ∈ s.accepted, ∀ n ∈ v.erasures, n = 1) ∧
    (∀ v ∈ s.accepted, v.destroyCalls.length ≤ 1 ∧
      ∀ d ∈ v.destroyCalls, d.loop = v.loop ∧ d.established = true ∧ d.erased = true) := by
  have hs : Inv s := by
    refine hrun.invariant (I := fun s => s.serverAt = .alive → Inv s) ?_ (fun _ => Inv.init name ipPort) halive
    intro s t e hs hfew h halive
    obtain ⟨hbefore, he⟩ := alive_of_step h halive
    exact (hs hbefore).step hfew he h
  refine ⟨?_, hs.nodup, hs.entries, ?_, ?_⟩
  · rw [List.nodup_iff_getElem?_ne_getElem?]
    intro c c' hlt hlength heq
    rw [List.length_map] at hlength
    rw [List.getElem?_map, List.getElem?_map, List.getElem?_eq_getElem (Nat.lt_trans hlt hlength),
      List.getElem?_eq_getElem hlength, Option.map_some, Option.map_some, Option.some.injEq] at heq
    have hsame := hs.conn_of_name (List.getElem?_eq_getElem (Nat.lt_trans hlt hlength)) (List.getElem?_eq_getElem hlength)
      heq.symm
    omega
  · intro v hv
    obtain ⟨c, hc⟩ := List.mem_iff_getElem?.mp hv
    exact (hs.conns c v hc).erasures
  · intro v hv
    obtain ⟨c, hc⟩ := List.mem_iff_getElem?.mp hv
    exact ⟨(hs.conns c v hc).once, (hs.conns c v hc).calls⟩

/-- Two I/O loops and three connections. The first is closed while it is being established and is torn down; the second
is closed, and its removal is queued. -/
def threeConnections (l l' : LoopId k) : List (Event k) :=
  [.newConnection, .newConnection, .functor l, .handleClose 0, .newConnection, .functor none, .established l,
    .functor l', .established l', .functor l, .established l, .functor l, .handleClose 1]

theorem three_connections :
    ∃ s, (system 2).Run FewAccepted { name := "server", ipPort := "0.0.0.0:2000" } (threeConnections (some 0) (some 1)) s ∧
      s.serverAt = .alive ∧ s.connections = [("server-0.0.0.0:2000#2", 1), ("server-0.0.0.0:2000#3", 2)] ∧
      (s.accepted.map ServerConn.name).Nodup ∧
      (∀ n c, (n, c) ∈ s.connections ↔ ∃ v, s.accepted[c]? = some v ∧ v.name = n ∧ v.erasures = []) ∧
      (∀ v ∈ s.accepted, ∀ n ∈ v.erasures, n = 1) ∧
      (∀ v ∈ s.accepted, v.destroyCalls.length ≤ 1 ∧
        ∀ d ∈ v.destroyCalls, d.loop = v.loop ∧ d.established = true ∧ d.erased = true) := by
  obtain ⟨s, hrun, halive, hconnections⟩ : ∃ s,
      (system 2).Run FewAccepted { name := "server", ipPort := "0.0.0.0:2000" } (threeConnections (some 0) (some 1)) s ∧
      s.serverAt = .alive ∧ s.connections = [("server-0.0.0.0:2000#2", 1), ("server-0.0.0.0:2000#3", 2)] := by
    refine Stepper.Run.replay rfl ?_
    intro _
    exact ⟨rfl, by decide⟩
  obtain ⟨hnames, -, hentries, herasures, hcalls⟩ := server_bookkeeping hrun halive
  exact ⟨s, hrun, halive, hconnections, hnames, hentries, herasures, hcalls⟩

end TcpServer
end Muduo
