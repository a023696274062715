import Mathlib
import Muduo.Inspector
import Muduo.Theorems.HttpExchange

/-! # Commands over HTTP

The two maps of the inspector are one table of commands, in which the last `add` or `remove` for a name decides. A client
that asks for a command reads what its function returns, and what is listed for `/` is what can be asked for. -/

namespace Muduo
open Lib HttpGrammar

/-! ## The table -/

namespace CommandMap
variable {α : Type} {map : CommandMap α} {m c m' c' : Bytes}

theorem find?_assign (value : α) :
    (map.assign m c value).find? m' c' = if m = m' ∧ c = c' then some value else map.find? m' c' := by
  have hcompare : ∀ a b : Bytes, compare a b = .eq ↔ a = b := fun a b => Std.LawfulEqCmp.compare_eq_iff_eq
  unfold find? assign
  rw [Std.TreeMap.getElem?_insert]
  simp only [hcompare]
  by_cases hm : m = m'
  · subst hm
    rw [if_pos rfl]
    simp only [Std.TreeMap.getElem?_insert, hcompare, true_and, Std.TreeMap.getD_eq_getD_getElem?]
    cases map[m]? with
    | none => simp
    | some commands => rfl
  · simp [hm]

theorem find?_erase :
    (CommandMap.erase m c map).find? m' c' = if m = m' ∧ c = c' then none else map.find? m' c' := by
  have hcompare : ∀ a b : Bytes, compare a b = .eq ↔ a = b := fun a b => Std.LawfulEqCmp.compare_eq_iff_eq
  unfold CommandMap.erase
  cases hfound : map[m]? with
  | none =>
    by_cases hm : m = m'
    · subst hm
      simp [find?, hfound]
    · simp [hm]
  | some commands =>
    unfold find?
    simp only [Std.TreeMap.getElem?_insert, hcompare]
    by_cases hm : m = m'
    · subst hm
      rw [if_pos rfl]
      simp only [Std.TreeMap.getElem?_erase, hcompare, true_and, hfound]
    · simp [hm]

/-- The entries, in the order of the modules and then of the commands. -/
def entries (map : CommandMap α) : List (Bytes × Bytes × α) :=
  map.toList.flatMap fun moduleEntry => moduleEntry.2.toList.map fun entry => (moduleEntry.1, entry.1, entry.2)

theorem mem_entries {value : α} : (m, c, value) ∈ map.entries ↔ map.find? m c = some value := by
  unfold entries find?
  simp only [List.mem_flatMap, List.mem_map, Prod.mk.injEq, Prod.exists]
  constructor
  · rintro ⟨m', commands, hmodule, c', value', hcommand, rfl, rfl, rfl⟩
    rw [Std.TreeMap.mem_toList_iff_getElem?_eq_some.mp hmodule]
    exact Std.TreeMap.mem_toList_iff_getElem?_eq_some.mp hcommand
  · intro hfound
    split at hfound
    · rename_i commands hmodule
      exact ⟨m, commands, Std.TreeMap.mem_toList_iff_getElem?_eq_some.mpr hmodule, c, value,
        Std.TreeMap.mem_toList_iff_getElem?_eq_some.mpr hfound, rfl, rfl, rfl⟩
    · cases hfound

/-- An entry comes before another in the listing. -/
def Before (a b : Bytes × Bytes × α) : Prop := compare a.1 b.1 = .lt ∨ a.1 = b.1 ∧ compare a.2.1 b.2.1 = .lt

theorem entries_sorted (map : CommandMap α) : map.entries.Pairwise Before := by
  unfold entries
  rw [List.pairwise_flatMap]
  constructor
  · rintro ⟨m, commands⟩ _
    rw [List.pairwise_map]
    exact Std.TreeMap.ordered_keys_toList.imp fun h => .inr ⟨rfl, h⟩
  · refine Std.TreeMap.ordered_keys_toList.imp ?_
    intro a b h x hx y hy
    obtain ⟨_, _, rfl⟩ := List.mem_map.mp hx
    obtain ⟨_, _, rfl⟩ := List.mem_map.mp hy
    exact .inl h

end CommandMap

namespace Inspector
variable {s : Inspector}

inductive Call where
  | add (moduleName command : Bytes) (cb : InspectCallback) (help : Bytes)
  | remove (moduleName command : Bytes)

def call (s : Inspector) : Call → Inspector
  | .add moduleName command cb help => s.add moduleName command cb help
  | .remove moduleName command => s.remove moduleName command

/-- The commands with their functions and help texts. -/
abbrev Table := Bytes → Bytes → Option (InspectCallback × Bytes)

def Table.call (table : Table) : Call → Table
  | .add moduleName command cb help => fun m c => if moduleName = m ∧ command = c then some (cb, help) else table m c
  | .remove moduleName command => fun m c => if moduleName = m ∧ command = c then none else table m c

/-- The commands after some calls. -/
def registered (calls : List Call) : Table := calls.foldl Table.call fun _ _ => none

/-- Both maps hold the table. -/
structure Holds (s : Inspector) (table : Table) : Prop where
  modules : ∀ m c, s.modules.find? m c = (table m c).map Prod.fst
  helps : ∀ m c, s.helps.find? m c = (table m c).map Prod.snd

theorem Holds.call {table : Table} (h : Holds s table) (e : Call) : Holds (s.call e) (table.call e) := by
  cases e with
  | add moduleName command cb help =>
    constructor
    · intro m c
      simp only [Inspector.call, add, CommandMap.find?_assign, Table.call, h.modules]
      split <;> rfl
    · intro m c
      simp only [Inspector.call, add, CommandMap.find?_assign, Table.call, h.helps]
      split <;> rfl
  | remove moduleName command =>
    constructor
    · intro m c
      simp only [Inspector.call, remove, CommandMap.find?_erase, Table.call, h.modules]
      split <;> rfl
    · intro m c
      simp only [Inspector.call, remove, CommandMap.find?_erase, Table.call, h.helps]
      split <;> rfl

theorem holds_registered (calls : List Call) : Holds (calls.foldl call {}) (registered calls) := by
  have hall : ∀ s table, Holds s table → Holds (calls.foldl call s) (calls.foldl Table.call table) := by
    induction calls with
    | nil => exact fun _ _ h => h
    | cons e calls ih => exact fun s table h => ih _ _ (h.call e)
  exact hall _ _ ⟨fun _ _ => rfl, fun _ _ => rfl⟩

/-! ## Requests -/

/-- What a client asks for: the list of commands, or the path with some parts. -/
inductive Target where
  | list
  | path (parts : List Bytes)

namespace Target

def text : Target → Bytes
  | .list => [slash]
  | .path parts => parts.flatMap (slash :: ·)

/-- A part that can be written in a path. -/
def IsPart (part : Bytes) : Prop :=
  part ≠ [] ∧ slash ∉ part ∧ space ∉ part ∧ (0x3f : UInt8) ∉ part ∧ HttpResponse.NoLineBreak part

instance (part : Bytes) : Decidable (IsPart part) := inferInstanceAs (Decidable (_ ∧ _ ∧ _ ∧ _ ∧ _))

def Clean : Target → Prop
  | .list => True
  | .path parts => parts ≠ [] ∧ ∀ part ∈ parts, IsPart part

instance : DecidablePred Clean
  | .list => inferInstanceAs (Decidable True)
  | .path parts => inferInstanceAs (Decidable (parts ≠ [] ∧ ∀ part ∈ parts, IsPart part))

end Target

/-- A request of HTTP/1.1 without a body. -/
structure Query where
  target : Target
  method : Bytes := ascii "GET"
  /-- What stands in the URI behind a question mark. -/
  argument : Option Bytes := none
  /-- The header lines, without their line ends. -/
  headers : List Bytes := []

namespace Query

def uri (q : Query) : Bytes := q.target.text ++ (q.argument.map (0x3f :: ·)).getD []

def requestLine (q : Query) : Bytes := q.method ++ space :: (q.uri ++ space :: ascii "HTTP/1.1")

def request (q : Query) : Bytes := q.requestLine ++ (kCRLF ++ headerLines q.headers [] [])

/-- A header line that does not ask for the connection to be closed. -/
def Keeps (h : Bytes) : Prop :=
  colon ∈ h ∧ HttpResponse.NoLineBreak h ∧
    (h.takeWhile (· ≠ colon) = ascii "Connection" →
      HttpRequest.trim ((h.dropWhile (· ≠ colon)).drop 1) ≠ ascii "close")

instance (h : Bytes) : Decidable (Keeps h) := inferInstanceAs (Decidable (_ ∧ _ ∧ (_ → _)))

structure Clean (q : Query) : Prop where
  target : q.target.Clean
  method : HttpRequest.methodOf q.method ≠ .kInvalid
  argument : ∀ a ∈ q.argument, space ∉ a ∧ HttpResponse.NoLineBreak a
  headers : ∀ h ∈ q.headers, Keeps h

instance (q : Query) : Decidable q.Clean :=
  decidable_of_iff (q.target.Clean ∧ HttpRequest.methodOf q.method ≠ .kInvalid ∧
      (∀ a ∈ q.argument, space ∉ a ∧ HttpResponse.NoLineBreak a) ∧ ∀ h ∈ q.headers, Keeps h)
    ⟨fun h => ⟨h.1, h.2.1, h.2.2.1, h.2.2.2⟩, fun h => ⟨h.target, h.method, h.argument, h.headers⟩⟩

/-- What a client is to read. -/
def response (table : Table) (listing : List (Bytes × Bytes × Bytes)) (q : Query) : HttpResponse :=
  match q.target with
  | .list => ok (listing.flatMap fun x => helpLine x.1 x.2.1 x.2.2) { closeConnection := false }
  | .path (moduleName :: command :: args) =>
    match table moduleName command with
    | some (some callback, _) => ok (callback (HttpRequest.methodOf q.method) args) { closeConnection := false }
    | some (none, _) | none => notFound { closeConnection := false }
  | .path _ => notFound { closeConnection := false }

end Query

theorem flatMap_slash (parts : List Bytes) : parts.flatMap (slash :: ·) = [slash].intercalate ([] :: parts) := by
  have htail : ∀ part, part ++ parts.flatMap (slash :: ·) = [slash].intercalate (part :: parts) := by
    induction parts with
    | nil => simp [List.intercalate]
    | cons next parts ih =>
      intro part
      rw [List.flatMap_cons, List.intercalate_cons_cons, ← ih next]
      simp
  exact htail []

theorem splitPath_uri {parts : List Bytes} (h : ∀ part ∈ parts, part ≠ [] ∧ slash ∉ part) :
    splitPath (parts.flatMap (slash :: ·)) = parts := by
  rw [splitPath, flatMap_slash, List.splitOn_intercalate slash ?_ (List.cons_ne_nil _ _)]
  · rw [List.filter_cons_of_neg (by simp), List.filter_eq_self]
    intro part hpart
    simpa using (h part hpart).1
  · refine List.forall_mem_cons.mpr ⟨List.not_mem_nil, fun part hpart => (h part hpart).2⟩

theorem Target.Clean.not_mem_text {target : Target} (h : target.Clean) {b : UInt8} (hslash : b ≠ slash)
    (hpart : ∀ part, IsPart part → b ∉ part) : b ∉ target.text := by
  cases target with
  | list => simpa [text] using hslash
  | path parts =>
    simp only [text, List.mem_flatMap, List.mem_cons, not_exists, not_and, not_or]
    exact fun part hmem => ⟨hslash, hpart part (h.2 part hmem)⟩

namespace Query.Clean
variable {q : Query}

theorem not_mem_uri (h : q.Clean) {b : UInt8} (hslash : b ≠ slash) (hquestion : b ≠ 0x3f)
    (hpart : ∀ part, Target.IsPart part → b ∉ part) (hargument : ∀ a ∈ q.argument, b ∉ a) : b ∉ q.uri := by
  unfold uri
  cases ha : q.argument with
  | none => simpa using h.target.not_mem_text hslash hpart
  | some a => simpa [hquestion] using ⟨h.target.not_mem_text hslash hpart, hargument a ha⟩

theorem space_uri (h : q.Clean) : space ∉ q.uri :=
  h.not_mem_uri (by decide) (by decide) (fun part hp => hp.2.2.1) fun a ha => (h.argument a ha).1

theorem noLineBreak_uri (h : q.Clean) : HttpResponse.NoLineBreak q.uri :=
  ⟨h.not_mem_uri (by decide) (by decide) (fun part hp => hp.2.2.2.2.1) fun a ha => (h.argument a ha).2.1,
    h.not_mem_uri (by decide) (by decide) (fun part hp => hp.2.2.2.2.2) fun a ha => (h.argument a ha).2.2⟩

theorem setUri_uri (h : q.Clean) (r : HttpRequest) : ∃ query, r.setUri q.uri = { r with path := q.target.text, query } := by
  have hquestion : (0x3f : UInt8) ∉ q.target.text := h.target.not_mem_text (by decide) fun part hp => hp.2.2.2.1
  unfold uri HttpRequest.setUri
  cases q.argument with
  | none =>
    have hsearch : search (ascii "?") (q.target.text ++ ((none : Option Bytes).map (0x3f :: ·)).getD []) = none := by
      rw [search_eq_none]
      change ¬[(0x3f : UInt8)] <:+: q.target.text ++ []
      rwa [List.append_nil, List.singleton_infix_iff]
    rw [hsearch]
    exact ⟨r.query, by simp⟩
  | some a =>
    have hsearch : search (ascii "?") (q.target.text ++ ((some a).map (0x3f :: ·)).getD []) =
        some q.target.text.length := search_byte hquestion a
    rw [hsearch]
    simp only [List.take_left]
    exact ⟨_, rfl⟩

theorem method_text (h : q.Clean) : space ∉ q.method ∧ HttpResponse.NoLineBreak q.method := by
  have hall : ∀ m ∈ [ascii "GET", ascii "POST", ascii "HEAD", ascii "PUT", ascii "DELETE"],
      space ∉ m ∧ HttpResponse.NoLineBreak m := by decide
  exact hall q.method (methodOf_ne_kInvalid.mp h.method)

/-- What the parser makes of the request line. -/
theorem processRequestLine (h : q.Clean) : ∃ query, HttpContext.processRequestLine q.requestLine {} =
    (true, { method := HttpRequest.methodOf q.method, version := .kHttp11, path := q.target.text, query }) := by
  have hmethod : search (ascii " ") q.requestLine = some q.method.length := search_byte h.method_text.1 _
  have huri : search (ascii " ") (q.uri ++ space :: ascii "HTTP/1.1") = some q.uri.length := search_byte h.space_uri _
  have htake : q.requestLine.take q.method.length = q.method := List.take_left
  have hdrop : q.requestLine.drop (q.method.length + 1) = q.uri ++ space :: ascii "HTTP/1.1" := by
    rw [requestLine, ← List.drop_drop, List.drop_left, List.drop_one, List.tail_cons]
  rw [HttpContext.processRequestLine_valid hmethod (by rw [htake]; exact h.method), htake, hdrop, HttpContext.processUri,
    huri]
  obtain ⟨query, hquery⟩ := h.setUri_uri (HttpRequest.setMethod q.method {})
  simp only [List.take_left, hquery]
  rw [← List.drop_drop, List.drop_left, List.drop_one, List.tail_cons]
  exact ⟨query, rfl⟩

theorem isLine (h : q.Clean) : IsLine q.requestLine := by
  have hspace : HttpResponse.NoLineBreak [space] := by decide
  have hversion : HttpResponse.NoLineBreak ([space] ++ ascii "HTTP/1.1") := by decide
  have hline := (h.method_text.2.append hspace).append (h.noLineBreak_uri.append hversion)
  simpa [requestLine] using hline.isLine

theorem block (h : q.Clean) : Block q.request q.requestLine q.headers [] [] where
  split := rfl
  isLine := h.isLine
  request := by
    obtain ⟨query, hprocess⟩ := h.processRequestLine
    exact processRequestLine_ok.mp (by rw [hprocess])
  headers_isLine line hline := (h.headers line hline).2.1.isLine
  headers_colon line hline := (h.headers line hline).1
  last_isLine := by
    unfold IsLine
    decide

theorem isRequest (h : q.Clean) : HttpSite.IsRequest q.request := ⟨_, _, h.block⟩

end Query.Clean

/-- Header lines change nothing but the headers. -/
theorem foldl_addLine (headers : List Bytes) (r : HttpRequest) :
    ∃ map, headers.foldl addLine r = { r with headers := map } := by
  induction headers generalizing r with
  | nil => exact ⟨r.headers, rfl⟩
  | cons h headers ih => exact ih (addLine r h)

theorem getHeader_foldl {headers : List Bytes} {r : HttpRequest} {field value : Bytes}
    (hheaders : ∀ h ∈ headers, h.takeWhile (· ≠ colon) = field →
      HttpRequest.trim ((h.dropWhile (· ≠ colon)).drop 1) ≠ value)
    (hr : r.getHeader field ≠ value) : (headers.foldl addLine r).getHeader field ≠ value := by
  induction headers generalizing r with
  | nil => exact hr
  | cons h headers ih =>
    obtain ⟨hfirst, hrest⟩ := List.forall_mem_cons.mp hheaders
    refine ih hrest ?_
    simp only [HttpRequest.getHeader, addLine, HttpRequest.addHeader]
    by_cases hname : field = h.takeWhile (· ≠ colon)
    · rw [if_pos hname]
      exact hfirst hname.symm
    · rw [if_neg hname]
      exact hr

/-- What the parser makes of the request. -/
theorem Query.Clean.contents {q : Query} (h : q.Clean) :
    (HttpSite.contents q.request).method = HttpRequest.methodOf q.method ∧
      (HttpSite.contents q.request).path = q.target.text ∧ HttpSite.closesByDefault (HttpSite.contents q.request) = false := by
  obtain ⟨query, hprocess⟩ := h.processRequestLine
  let r : HttpRequest := { method := HttpRequest.methodOf q.method, version := .kHttp11, path := q.target.text, query }
  have hcontents : HttpSite.contents q.request = q.headers.foldl addLine r := by
    rw [HttpSite.contents, h.block.run_eq List.not_mem_nil, hprocess]
  have hkeeps : (q.headers.foldl addLine r).getHeader (ascii "Connection") ≠ ascii "close" :=
    getHeader_foldl (fun line hline => (h.headers line hline).2.2) (show ([] : Bytes) ≠ ascii "close" by decide)
  obtain ⟨map, hmap⟩ := foldl_addLine q.headers r
  rw [hcontents, HttpSite.closesByDefault]
  rw [hmap] at hkeeps ⊢
  refine ⟨rfl, rfl, ?_⟩
  simp [hkeeps, r]

/-- The answer of an inspector that holds the table. -/
theorem Query.Clean.onRequest {q : Query} (h : q.Clean) {table : Table} (hs : Holds s table) {req : HttpRequest}
    (hreq : req.untimed = HttpSite.contents q.request) :
    s.onRequest req { closeConnection := HttpSite.closesByDefault req } = q.response table s.helps.entries := by
  obtain ⟨hmethod, hpath, hopen⟩ := h.contents
  rw [← hreq] at hmethod hpath hopen
  have hmethod : req.method = HttpRequest.methodOf q.method := hmethod
  have hpath : req.path = q.target.text := hpath
  have hopen : HttpSite.closesByDefault req = false := hopen
  unfold Inspector.onRequest
  rw [hpath, hmethod, hopen, response]
  cases htarget : q.target with
  | list =>
    rw [if_pos (show Target.list.text = [slash] from rfl)]
    simp [helpText, CommandMap.entries, List.flatMap_map, List.flatMap_assoc]
  | path parts =>
    obtain ⟨hparts, hall⟩ : (Target.path parts).Clean := htarget ▸ h.target
    have hne : (Target.path parts).text ≠ [slash] := by
      obtain ⟨part, parts, rfl⟩ := List.exists_cons_of_ne_nil hparts
      have hpart := (hall part List.mem_cons_self).1
      simp [Target.text, hpart]
    rw [if_neg hne, Target.text, splitPath_uri fun part hmem => ⟨(hall part hmem).1, (hall part hmem).2.1⟩]
    rcases parts with _ | ⟨moduleName, _ | ⟨command, args⟩⟩
    · rfl
    · rfl
    · simp only [hs.modules]
      cases table moduleName command with
      | none => rfl
      | some entry =>
        obtain ⟨cb, help⟩ := entry
        cases cb <;> rfl

theorem Query.response_plain (q : Query) (table : Table) (listing : List (Bytes × Bytes × Bytes)) :
    (q.response table listing).Plain := by
  have hok : ∀ body, (ok body { closeConnection := false }).Plain := by
    intro body
    refine ⟨rfl, ?_, ?_, ?_⟩
    · change HttpResponse.NoLineBreak (ascii "OK")
      decide
    · change ∀ e ∈ [(ascii "Content-Type", ascii "text/plain")], _
      decide
    · change ∀ e ∈ [(ascii "Content-Type", ascii "text/plain")], _
      decide
  have hnotFound : (notFound { closeConnection := false }).Plain := by
    refine ⟨rfl, ?_, ?_, ?_⟩
    · change HttpResponse.NoLineBreak (ascii "Not Found")
      decide
    · intro e he
      cases he
    · intro e he
      cases he
  unfold response
  split
  · exact hok _
  · split
    · exact hok _
    · exact hnotFound
    · exact hnotFound
  · exact hnotFound

/-! ## Sessions -/

/-- An inspector with one of its connections. -/
structure Session where
  inspector : Inspector := {}
  http : HttpSite

/-- Some thread calls `add` or `remove`, a chunk arrives, or the socket takes more of the output. -/
inductive Event where
  | call (c : Call)
  | deliver (chunk : Bytes) (receiveTime : Timestamp) (result : WriteResult)
  | handleWrite (result : WriteResult)

namespace Event

/-- The peer has not reset the connection when a reply is written. -/
def Healthy : Event → Prop
  | .deliver _ _ result => result.Healthy
  | .call _ | .handleWrite _ => True

instance : DecidablePred Healthy
  | .deliver _ _ result => inferInstanceAs (Decidable result.Healthy)
  | .call _ => inferInstanceAs (Decidable True)
  | .handleWrite _ => inferInstanceAs (Decidable True)

def chunk? : Event → Option Bytes
  | .deliver chunk _ _ => some chunk
  | .call _ | .handleWrite _ => none

end Event

namespace Session

def deliver (chunk : Bytes) (receiveTime : Timestamp) (result : WriteResult) (s : Session) : Session :=
  { s with http := s.http.deliver { chunk, receiveTime, httpCallback := s.inspector.onRequest, result } }

def step (s : Session) : Event → Option Session
  | .call c => some { s with inspector := s.inspector.call c }
  | .deliver chunk receiveTime result => some (s.deliver chunk receiveTime result)
  | .handleWrite result => some { s with http := { s.http with site := s.http.site.handleWrite result } }

def system : Stepper Session Event := ⟨step⟩

def new (id fd : Nat) : Session := { http := .established id fd }

end Session

/-- The requests that are answered, each with the calls before that: a chunk that completes the first request that is
left, after so many bytes, has it answered, and no other. -/
def answers : List Call → Nat → List Query → List Event → List (Query × List Call)
  | _, _, _, [] => []
  | past, before, queries, .call c :: es => answers (past ++ [c]) before queries es
  | past, before, queries, .handleWrite _ :: es => answers past before queries es
  | past, before, [], .deliver _ _ _ :: es => answers past before [] es
  | past, before, q :: queries, .deliver chunk _ _ :: es =>
    if q.request.length ≤ before + chunk.length then
      (q, past) :: answers past (before + chunk.length - q.request.length) queries es
    else answers past (before + chunk.length) (q :: queries) es

theorem answers_nil (past : List Call) (before : Nat) (es : List Event) : answers past before [] es = [] := by
  induction es generalizing past with
  | nil => rfl
  | cons e es ih => cases e <;> exact ih _

theorem map_fst_answers (past : List Call) (before : Nat) (queries : List Query) (es : List Event) :
    (answers past before queries es).map Prod.fst = queries.take
      (HttpSite.servedCount (queries.map Query.request) before ((es.filterMap Event.chunk?).map List.length)) := by
  induction es generalizing past before queries with
  | nil => cases queries <;> rfl
  | cons e es ih =>
    cases e with
    | call c => exact ih _ _ _
    | handleWrite result => exact ih _ _ _
    | deliver chunk receiveTime result =>
      cases queries with
      | nil => simp [answers_nil]
      | cons q queries =>
        have hchunks : (Event.deliver chunk receiveTime result :: es).filterMap Event.chunk? =
            chunk :: es.filterMap Event.chunk? := rfl
        rw [hchunks, List.map_cons, List.map_cons, HttpSite.servedCount, answers]
        split
        · rw [List.map_cons, ih, Nat.add_comm 1, List.take_succ_cons]
        · exact ih _ _ _

/-! ## Every run -/

end Inspector

namespace HttpSite

theorem At.congr {s t : HttpSite} {bytes : Bytes} (h : At s bytes) (hparser : t.parser = s.parser)
    (hunread : t.unread = s.unread) : At t bytes := by
  cases h with
  | fresh hp hu => exact .fresh (hparser.trans hp) (hunread.trans hu)
  | read hp hu => exact .read (hparser.trans hp) (hunread.trans hu)

theorem response_eq_respond {s : HttpSite} {d : HttpDelivery} {req : HttpRequest} {response : HttpResponse}
    (h : (s.deliver d).events = .callback req response :: s.events) : response = d.respond req := by
  cases deliver_delivered s d with
  | waits _ _ hevents _ _ =>
    rw [hevents] at h
    exact absurd h.symm (List.cons_ne_self _ _)
  | refuses _ hevents _ _ =>
    rw [hevents] at h
    cases h
  | serves req' _ _ _ hevents _ _ =>
    rw [hevents] at h
    cases h
    rfl

end HttpSite

namespace Inspector
open HttpSite

/-- The answer to a request after some calls. -/
def answer (x : Query × List Call) : HttpResponse := x.1.response (registered x.2) (x.2.foldl call {}).helps.entries

section Run
variable {s t : Session} {es : List Event} {past : List Call} {bytes chunk later : Bytes} {queries : List Query}

/-- A chunk that completes a request has it answered. -/
theorem Session.deliver_request {q : Query} {more : Bytes} (receiveTime : Timestamp) (result : WriteResult) (hq : q.Clean)
    (hat : At s.http bytes) (hinspector : s.inspector = past.foldl call {}) (heq : bytes ++ chunk = q.request ++ more) :
    ∃ req, (s.deliver chunk receiveTime result).http.events = .callback req (answer (q, past)) :: s.http.events ∧
      At (s.deliver chunk receiveTime result).http more := by
  obtain ⟨req, response, hreq, hevents, hmore⟩ :=
    hat.deliver_request (d := ⟨chunk, receiveTime, s.inspector.onRequest, result⟩) hq.isRequest heq
  have hresponse : response = answer (q, past) := by
    rw [response_eq_respond hevents, HttpDelivery.respond, hinspector]
    exact hq.onRequest (holds_registered past) hreq
  rw [hresponse] at hevents
  exact ⟨req, hevents, hmore⟩

/-- What a chunk has answered, and which bytes and requests are left before the other chunks. -/
structure Session.Advances (s m : Session) (past : List Call) (e : Event) (bytes later : Bytes) (queries : List Query)
    (served : List (HttpRequest × HttpResponse)) (bytes' : Bytes) (queries' : List Query) : Prop where
  clean : ∀ q ∈ queries', q.Clean
  at_left : At m.http bytes'
  left : bytes' ++ later <+: (queries'.map Query.request).flatten
  events : m.http.events.reverse = s.http.events.reverse ++ served.map fun x => .callback x.1 x.2
  answers (es : List Event) : (answers past bytes.length queries (e :: es)).map answer =
    served.map (·.2) ++ (answers past bytes'.length queries' es).map answer

theorem Session.deliver_advances (receiveTime : Timestamp) (result : WriteResult) (hclean : ∀ q ∈ queries, q.Clean)
    (hat : At s.http bytes) (hinspector : s.inspector = past.foldl call {})
    (hsent : bytes ++ chunk ++ later <+: (queries.map Query.request).flatten) :
    ∃ served bytes' queries', Session.Advances s (s.deliver chunk receiveTime result) past
      (.deliver chunk receiveTime result) bytes later queries served bytes' queries' := by
  cases queries with
  | nil =>
    obtain ⟨hfirst, -⟩ := List.append_eq_nil_iff.mp (List.prefix_nil.mp hsent)
    obtain ⟨rfl, hchunk⟩ := List.append_eq_nil_iff.mp hfirst
    obtain ⟨hevents, hleft⟩ := hat.deliver_nothing (d := ⟨chunk, receiveTime, s.inspector.onRequest, result⟩) hchunk
    rw [hfirst] at hsent
    refine ⟨[], [], [], hclean, hleft, hsent, ?_, fun es => by simp [Inspector.answers]⟩
    rw [List.map_nil, List.append_nil]
    exact congrArg List.reverse hevents
  | cons q queries =>
    obtain ⟨hq, hqueries⟩ := List.forall_mem_cons.mp hclean
    have hsplit := hsent
    rw [List.map_cons, List.flatten_cons] at hsplit
    have hstart : bytes ++ chunk <+: q.request ++ (queries.map Query.request).flatten :=
      (List.prefix_append _ _).trans hsplit
    by_cases hle : q.request.length ≤ bytes.length + chunk.length
    · -- The request is complete.
      obtain ⟨more, hmore⟩ : q.request <+: bytes ++ chunk :=
        List.prefix_of_prefix_length_le (List.prefix_append _ _) hstart (by simpa using hle)
      obtain ⟨req, hevents, hleft⟩ := Session.deliver_request receiveTime result hq hat hinspector hmore.symm
      rw [← hmore, List.append_assoc, List.prefix_append_right_inj] at hsplit
      have hlength : bytes.length + chunk.length - q.request.length = more.length := by
        rw [← List.length_append, ← hmore, List.length_append, Nat.add_sub_cancel_left]
      refine ⟨[(req, answer (q, past))], more, queries, hqueries, hleft, hsplit, ?_, ?_⟩
      · rw [hevents, List.reverse_cons]
        rfl
      · intro es
        rw [Inspector.answers, if_pos hle, hlength]
        rfl
    · obtain ⟨more, hmore⟩ : bytes ++ chunk <+: q.request :=
        List.prefix_of_prefix_length_le hstart (List.prefix_append _ _) (by simp only [List.length_append]; omega)
      have hne : more ≠ [] := by
        rintro rfl
        rw [← hmore] at hle
        simp at hle
      obtain ⟨hevents, hleft⟩ := hat.deliver_part (d := ⟨chunk, receiveTime, s.inspector.onRequest, result⟩)
        hq.isRequest hmore.symm hne
      refine ⟨[], bytes ++ chunk, q :: queries, hclean, hleft, hsent, ?_, ?_⟩
      · rw [List.map_nil, List.append_nil]
        exact congrArg List.reverse hevents
      · intro es
        rw [Inspector.answers, if_neg hle, List.length_append]
        rfl

/-- From here to the end of the run the requests are answered as the calls before each of them have it. -/
theorem Session.run_answers (hrun : Session.system.Run (fun _ e => e.Healthy) s es t) (hclean : ∀ q ∈ queries, q.Clean)
    (hat : At s.http bytes) (hinspector : s.inspector = past.foldl call {})
    (hsent : bytes ++ (es.filterMap Event.chunk?).flatten <+: (queries.map Query.request).flatten) :
    ∃ served : List (HttpRequest × HttpResponse),
      served.map (·.2) = (answers past bytes.length queries es).map answer ∧
        t.http.events.reverse = s.http.events.reverse ++ served.map fun x => .callback x.1 x.2 := by
  induction hrun generalizing past bytes queries with
  | nil s => exact ⟨[], rfl, by simp⟩
  | @cons s m t e es _ hstep _ ih =>
    cases e with
    | call c =>
      obtain rfl := Option.some.inj hstep
      refine ih hclean hat ?_ hsent
      rw [List.foldl_concat, ← hinspector]
    | handleWrite result =>
      obtain rfl := Option.some.inj hstep
      have hunread : HttpSite.unread { s.http with site := s.http.site.handleWrite result } = s.http.unread :=
        congrArg Buffer.readableSpan ((keptByOutput_inputBuffer _).handleWrite rfl)
      exact ih hclean (hat.congr rfl hunread) hinspector hsent
    | deliver chunk receiveTime result =>
      obtain rfl := Option.some.inj hstep
      change bytes ++ (chunk :: es.filterMap Event.chunk?).flatten <+: _ at hsent
      rw [List.flatten_cons, ← List.append_assoc] at hsent
      obtain ⟨first, bytes', queries', h⟩ := Session.deliver_advances receiveTime result hclean hat hinspector hsent
      obtain ⟨served, hserved, hlater⟩ := ih h.clean h.at_left hinspector h.left
      refine ⟨first ++ served, ?_, ?_⟩
      · rw [h.answers, List.map_append, hserved]
      · rw [hlater, h.events, List.map_append, List.append_assoc]

theorem Session.run_replying (hrun : Session.system.Run (fun _ e => e.Healthy) s es t) (hs : s.http.Replying) :
    t.http.Replying := by
  refine hrun.invariant (I := fun s => s.http.Replying) ?_ hs
  intro s t e hs hhealthy hstep
  cases e with
  | call c =>
    obtain rfl := Option.some.inj hstep
    exact hs
  | deliver chunk receiveTime result =>
    obtain rfl := Option.some.inj hstep
    exact hs.deliver hhealthy
  | handleWrite result =>
    obtain rfl := Option.some.inj hstep
    exact hs.handleWrite result

end Run

/-- A listing of the commands: all of them, each once, in the order of the modules and then of the commands. -/
structure IsListing (table : Table) (listing : List (Bytes × Bytes × Bytes)) : Prop where
  sorted : listing.Pairwise CommandMap.Before
  complete : ∀ m c help, (m, c, help) ∈ listing ↔ ∃ cb, table m c = some (cb, help)

theorem Holds.isListing {s : Inspector} {table : Table} (h : Holds s table) : IsListing table s.helps.entries where
  sorted := s.helps.entries_sorted
  complete m c help := by
    rw [CommandMap.mem_entries, h.helps, Option.map_eq_some_iff]
    constructor
    · rintro ⟨⟨cb, help'⟩, htable, rfl⟩
      exact ⟨cb, htable⟩
    · rintro ⟨cb, htable⟩
      exact ⟨_, htable, rfl⟩

/-- Any threads call `add` and `remove` while a client sends requests for the list and for paths, none of which asks for
the connection to be closed, in any chunks, and the socket takes the replies in any parts, without an error of the peer.
What was sent so far is one response after the other, one for each request that is answered, in their order. The response
is that of the commands that are registered when the chunk arrives: for the list the lines of all of them, each once and
in order, for a command with a function what it returns for the method and the rest of the path, and 404 for anything
else. All requests are answered if the calls for the chunks keep up with them. -/
theorem commands_answered {id fd : Nat} {queries : List Query} {es : List Event} {t : Session}
    (hclean : ∀ q ∈ queries, q.Clean) (hrun : Session.system.Run (fun _ e => e.Healthy) (.new id fd) es t)
    (hsent : (es.filterMap Event.chunk?).flatten <+: (queries.map Query.request).flatten) :
    (∃ listing : List Call → List (Bytes × Bytes × Bytes), (∀ calls, IsListing (registered calls) (listing calls)) ∧
      ReadResponse.readAll (accepted t.http.site.conn.log ++ t.http.site.conn.outputBuffer.readableSpan) =
        some ((answers [] 0 queries es).map fun x => (x.1.response (registered x.2) (listing x.2)).read)) ∧
      (KeepsUp (queries.map Query.request) ((es.filterMap Event.chunk?).map List.length) →
        (answers [] 0 queries es).map Prod.fst = queries) := by
  have hrequests : ∀ r ∈ queries.map Query.request, IsRequest r := by
    refine List.forall_mem_map.mpr fun q hq => ?_
    exact (hclean q hq).isRequest
  refine ⟨⟨fun calls => (calls.foldl call {}).helps.entries, fun calls => (holds_registered calls).isListing, ?_⟩, ?_⟩
  · have hreplying := Session.run_replying hrun (replying_established id fd)
    have hempty : (Session.new id fd).inspector = ([] : List Call).foldl call {} := rfl
    obtain ⟨served, hserved, hevents⟩ := Session.run_answers hrun hclean (at_established id fd) hempty hsent
    have hstart : (Session.new id fd).http.events.reverse = [] := rfl
    rw [hstart, List.nil_append] at hevents
    rw [List.length_nil] at hserved
    have hplain : ∀ x ∈ served, x.2.Plain := by
      intro x hx
      have hmem : x.2 ∈ served.map (·.2) := List.mem_map_of_mem hx
      rw [hserved] at hmem
      obtain ⟨y, -, hy⟩ := List.mem_map.mp hmem
      rw [← hy]
      exact y.1.response_plain _ _
    have hread : served.map (·.2.read) = ((answers [] 0 queries es).map answer).map HttpResponse.read := by
      rw [← hserved, List.map_map]
      rfl
    rw [hreplying.sending.stream.trans hreplying.stream, hevents, readAll_replies hplain, hread, List.map_map]
    rfl
  · intro hkeeps
    rw [map_fst_answers, List.take_of_length_le]
    rw [← List.length_map Query.request]
    exact (keepsUp_iff hrequests).mp hkeeps

def pidQuery : Query where
  target := .path [ascii "proc", ascii "pid", ascii "x"]
  argument := some (ascii "a=1")
  headers := [ascii "Host: 127.0.0.1", ascii "Connection: Keep-Alive"]

def listQuery : Query where
  target := .list
  method := ascii "POST"

/-- A command is added, asked for in two chunks, and removed between the two; then the list is asked for. -/
def removedBetween : List Event :=
  [.call (.add (ascii "proc") (ascii "pid") (some fun _ args => ascii "7" ++ args.flatten) (ascii "print pid")),
    .deliver (pidQuery.request ++ pidQuery.request.take 9) 0 (.wrote 20), .call (.remove (ascii "proc") (ascii "pid")),
    .deliver (pidQuery.request.drop 9) 0 (.wrote 5), .handleWrite (.wrote 1000),
    .deliver listQuery.request 0 (.wrote 1000)]

theorem commands_answered_removed :
    ∃ (t : Session) (listing : List Call → List (Bytes × Bytes × Bytes)),
      Session.system.Run (fun _ e => e.Healthy) (.new 0 3) removedBetween t ∧
        ReadResponse.readAll (accepted t.http.site.conn.log) =
          some ((answers [] 0 [pidQuery, pidQuery, listQuery] removedBetween).map fun x =>
            (x.1.response (registered x.2) (listing x.2)).read) ∧
        (answers [] 0 [pidQuery, pidQuery, listQuery] removedBetween).map (fun x =>
          (registered x.2 (ascii "proc") (ascii "pid")).isSome) = [true, false, false] := by
  have hclean : ∀ q ∈ [pidQuery, pidQuery, listQuery], q.Clean := by decide +kernel
  have hsent : (removedBetween.filterMap Event.chunk?).flatten <+:
      ([pidQuery, pidQuery, listQuery].map Query.request).flatten := by decide +kernel
  have hreplay : (Session.system.checked (fun _ e => e.Healthy) (.new 0 3) removedBetween).any (fun t =>
      decide (t.http.site.conn.outputBuffer.readableSpan = [])) = true := by
    decide +kernel
  obtain ⟨t, hrun, htest⟩ := Stepper.Run.of_any hreplay
  obtain ⟨⟨listing, -, hread⟩, -⟩ := commands_answered hclean hrun hsent
  rw [of_decide_eq_true htest, List.append_nil] at hread
  exact ⟨t, listing, hrun, hread, by decide +kernel⟩

end Inspector
end Muduo
