import Mathlib.Data.List.Infix
import Mathlib.Data.List.TakeWhile
import Muduo.Theorems.HttpParsing

/-! # The grammar of requests

A request is a request line, header lines with a colon, and an empty line. The parser takes any line without a
colon for the empty one. Where the two disagree is said exactly in `accepts_grammar_iff`. -/

namespace Muduo
open Lib

namespace HttpGrammar
variable {line rest str : Bytes} {headers : List Bytes}

def colon : UInt8 := 0x3a

def space : UInt8 := 0x20

/-- A line has no line end in it. -/
def IsLine (line : Bytes) : Prop := ¬kCRLF <:+: line

def IsRequestLine (line : Bytes) : Prop :=
  ∃ method uri version, line = method ++ space :: (uri ++ space :: version) ∧
    method ∈ [ascii "GET", ascii "POST", ascii "HEAD", ascii "PUT", ascii "DELETE"] ∧
    version ∈ [ascii "HTTP/1.0", ascii "HTTP/1.1"] ∧ space ∉ method ∧ space ∉ uri

/-- Header lines, each with its line end, then the line that ends the headers, and what follows. -/
def headerLines (headers : List Bytes) (last rest : Bytes) : Bytes :=
  headers.flatMap (· ++ kCRLF) ++ (last ++ (kCRLF ++ rest))

/-- The string begins with a request line, header lines with a colon, and one more line, each ended by CRLF. -/
structure Block (str line : Bytes) (headers : List Bytes) (last rest : Bytes) : Prop where
  split : str = line ++ (kCRLF ++ headerLines headers last rest)
  isLine : IsLine line
  request : IsRequestLine line
  headers_isLine : ∀ h ∈ headers, IsLine h
  headers_colon : ∀ h ∈ headers, colon ∈ h
  last_isLine : IsLine last

/-- What is left of a value without the white space around it. -/
def Trims (value v : Bytes) : Prop :=
  ∃ before after, value = before ++ (v ++ after) ∧ (∀ b ∈ before ++ after, HttpRequest.isspace b) ∧
    (∀ b ∈ v.head?, ¬HttpRequest.isspace b) ∧ ∀ b ∈ v.getLast?, ¬HttpRequest.isspace b

/-- A map of names to values has, for each name, the trimmed value of the last line with this name. -/
def LastOccurrences (headers : List Bytes) (map : Bytes → Option Bytes) : Prop :=
  ∀ name, match headers.reverse.find? (fun h => h.takeWhile (· ≠ colon) = name) with
    | none => map name = none
    | some h => ∃ v, map name = some v ∧ Trims ((h.dropWhile (· ≠ colon)).drop 1) v

/-! ## Lines -/

theorem unbordered_crlf : Unbordered kCRLF := unbordered_pair (by decide)

theorem search_line (h : IsLine line) (rest : Bytes) : search kCRLF (line ++ (kCRLF ++ rest)) = some line.length :=
  search_of_split (by decide) unbordered_crlf h rest

theorem isLine_take {crlf : Nat} (h : search kCRLF str = some crlf) : IsLine (str.take crlf) :=
  not_infix_take (by decide) h

/-- The first line of a string is the part up to its first line end. -/
theorem line_unique {a b x y : Bytes} (ha : IsLine a) (hb : IsLine b) (h : a ++ (kCRLF ++ x) = b ++ (kCRLF ++ y)) :
    a = b ∧ x = y := by
  have hlen : some a.length = some b.length := by
    rw [← search_line ha x, ← search_line hb y, h]
  obtain ⟨hab, hrest⟩ := List.append_inj h (Option.some.inj hlen)
  exact ⟨hab, List.append_cancel_left hrest⟩

theorem headerLines_nil (last : Bytes) : headerLines [] last rest = last ++ (kCRLF ++ rest) := rfl

theorem headerLines_cons (h last : Bytes) :
    headerLines (h :: headers) last rest = h ++ (kCRLF ++ headerLines headers last rest) := by
  simp only [headerLines, List.flatMap_cons, List.append_assoc]

/-- The line that ends the headers is the first one without a colon. -/
theorem last_unique {headers' : List Bytes} {last last' rest' : Bytes}
    (hline : ∀ h ∈ headers, IsLine h) (hcolon : ∀ h ∈ headers, colon ∈ h) (hlast : IsLine last) (hno : colon ∉ last)
    (hline' : ∀ h ∈ headers', IsLine h) (hcolon' : ∀ h ∈ headers', colon ∈ h) (hlast' : IsLine last')
    (hno' : colon ∉ last') (h : headerLines headers last rest = headerLines headers' last' rest') : last = last' := by
  induction headers generalizing headers' with
  | nil =>
    cases headers' with
    | nil => exact (line_unique hlast hlast' h).1
    | cons h' headers' =>
      rw [headerLines_cons] at h
      have heq := (line_unique hlast (hline' h' List.mem_cons_self) h).1
      exact absurd (heq ▸ hcolon' h' List.mem_cons_self) hno
  | cons h₁ headers ih =>
    cases headers' with
    | nil =>
      rw [headerLines_cons] at h
      have heq := (line_unique (hline h₁ List.mem_cons_self) hlast' h).1
      exact absurd (heq ▸ hcolon h₁ List.mem_cons_self) hno'
    | cons h' headers' =>
      rw [headerLines_cons, headerLines_cons] at h
      have heq := (line_unique (hline h₁ List.mem_cons_self) (hline' h' List.mem_cons_self) h).2
      exact ih (fun x hx => hline x (List.mem_cons_of_mem _ hx)) (fun x hx => hcolon x (List.mem_cons_of_mem _ hx))
        (fun x hx => hline' x (List.mem_cons_of_mem _ hx)) (fun x hx => hcolon' x (List.mem_cons_of_mem _ hx)) heq

theorem Block.last_unique {line' rest' last last' : Bytes} {headers' : List Bytes} (h : Block str line headers last rest)
    (hno : colon ∉ last) (h' : Block str line' headers' last' rest') (hno' : colon ∉ last') : last = last' := by
  have hrest := (line_unique h.isLine h'.isLine (h.split.symm.trans h'.split)).2
  exact HttpGrammar.last_unique h.headers_isLine h.headers_colon h.last_isLine hno h'.headers_isLine h'.headers_colon
    h'.last_isLine hno' hrest

/-! ## Request lines -/

theorem search_byte {b : UInt8} {a : Bytes} (h : b ∉ a) (rest : Bytes) : search [b] (a ++ b :: rest) = some a.length :=
  search_of_split (by simp) (unbordered_singleton b) (by rwa [List.singleton_infix_iff]) rest

theorem search_byte_split {b : UInt8} {i : Nat} (h : search [b] str = some i) :
    str = str.take i ++ b :: str.drop (i + 1) ∧ b ∉ str.take i := by
  refine ⟨search_split h, ?_⟩
  have hnot := not_infix_take (by simp) h
  rwa [List.singleton_infix_iff] at hnot

theorem methodOf_ne_kInvalid {m : Bytes} : HttpRequest.methodOf m ≠ .kInvalid ↔
    m ∈ [ascii "GET", ascii "POST", ascii "HEAD", ascii "PUT", ascii "DELETE"] := by
  unfold HttpRequest.methodOf
  repeat' split
  all_goals simp_all

theorem setVersion_ok {version : Bytes} {r : HttpRequest} : (HttpContext.setVersion version r).1 = true ↔
    version ∈ [ascii "HTTP/1.0", ascii "HTTP/1.1"] := by
  unfold HttpContext.setVersion
  repeat' split
  all_goals simp_all

/-- `processRequestLine` accepts the request lines of the grammar. -/
theorem processRequestLine_ok {r : HttpRequest} :
    (HttpContext.processRequestLine line r).1 = true ↔ IsRequestLine line := by
  constructor
  · intro h
    cases hspace : search (ascii " ") line with
    | none => simp [HttpContext.processRequestLine_none hspace] at h
    | some methodEnd =>
      by_cases hm : HttpRequest.methodOf (line.take methodEnd) = .kInvalid
      · simp [HttpContext.processRequestLine_invalid hspace hm] at h
      · rw [HttpContext.processRequestLine_valid hspace hm, HttpContext.processUri] at h
        split at h
        · simp at h
        · rename_i uriEnd huri
          obtain ⟨hline, hmethod⟩ := search_byte_split hspace
          obtain ⟨hrest, huri⟩ := search_byte_split huri
          exact ⟨_, _, _, hline.trans (congrArg _ (congrArg _ hrest)), methodOf_ne_kInvalid.mp hm, setVersion_ok.mp h,
            hmethod, huri⟩
  · rintro ⟨method, uri, version, rfl, hmethod, hversion, hspace, hspace'⟩
    have hfirst : search (ascii " ") (method ++ space :: (uri ++ space :: version)) = some method.length :=
      search_byte hspace _
    have hsecond : search (ascii " ") (uri ++ space :: version) = some uri.length := search_byte hspace' _
    have hdrop : (method ++ space :: (uri ++ space :: version)).drop (method.length + 1) = uri ++ space :: version := by
      rw [← List.drop_drop, List.drop_left, List.drop_one, List.tail_cons]
    have hm : HttpRequest.methodOf ((method ++ space :: (uri ++ space :: version)).take method.length) ≠ .kInvalid := by
      rw [List.take_left]
      exact methodOf_ne_kInvalid.mpr hmethod
    rw [HttpContext.processRequestLine_valid hfirst hm, hdrop, HttpContext.processUri, hsecond]
    refine setVersion_ok.mpr ?_
    rw [← List.drop_drop, List.drop_left, List.drop_one, List.tail_cons]
    exact hversion

/-! ## Header lines -/

theorem not_of_head?_dropWhile {p : UInt8 → Bool} (l : Bytes) : ∀ b ∈ (l.dropWhile p).head?, ¬p b := by
  induction l with
  | nil => simp
  | cons a l ih =>
    rw [List.dropWhile_cons]
    split
    · exact ih
    · rintro b hb
      cases hb
      assumption

/-- What the second loop of `addHeader` drops is white space. -/
theorem trim_append (value : Bytes) : ∃ after, value.dropWhile HttpRequest.isspace = HttpRequest.trim value ++ after ∧
    ∀ b ∈ after, HttpRequest.isspace b := by
  refine ⟨((value.dropWhile HttpRequest.isspace).reverse.takeWhile HttpRequest.isspace).reverse, ?_, ?_⟩
  · rw [HttpRequest.trim, ← List.reverse_append, List.takeWhile_append_dropWhile, List.reverse_reverse]
  · intro b hb
    exact List.mem_takeWhile_imp (List.mem_reverse.mp hb)

theorem trims_trim (value : Bytes) : Trims value (HttpRequest.trim value) := by
  obtain ⟨after, hafter, hspaces⟩ := trim_append value
  refine ⟨value.takeWhile HttpRequest.isspace, after, ?_, ?_, ?_, ?_⟩
  · rw [← hafter, List.takeWhile_append_dropWhile]
  · intro b hb
    rcases List.mem_append.mp hb with hb | hb
    · exact List.mem_takeWhile_imp hb
    · exact hspaces b hb
  · intro b hb
    have hhead := not_of_head?_dropWhile (p := HttpRequest.isspace) value b
    rw [hafter, List.head?_append, Option.mem_def.mp hb] at hhead
    exact hhead rfl
  · intro b hb
    rw [HttpRequest.trim, List.getLast?_reverse] at hb
    exact not_of_head?_dropWhile _ b hb

/-- The name and the value that the parser finds are those of the grammar. -/
theorem name_value {h : Bytes} {i : Nat} (hi : search [colon] h = some i) :
    h.takeWhile (· ≠ colon) = h.take i ∧ (h.dropWhile (· ≠ colon)).drop 1 = h.drop (i + 1) := by
  obtain ⟨hsplit, hname⟩ := search_byte_split hi
  have hall : ∀ b ∈ h.take i, decide (b ≠ colon) = true := by
    intro b hb
    simp only [decide_eq_true_eq]
    rintro rfl
    exact hname hb
  constructor
  · conv => lhs; rw [hsplit]
    rw [List.takeWhile_append_of_pos hall, List.takeWhile_cons_of_neg (by simp), List.append_nil]
  · conv => lhs; rw [hsplit]
    rw [List.dropWhile_append_of_pos hall, List.dropWhile_cons_of_neg (by simp), List.drop_one, List.tail_cons]

/-- A header line, as the parser adds it. -/
def addLine (r : HttpRequest) (h : Bytes) : HttpRequest :=
  r.addHeader (h.takeWhile (· ≠ colon)) ((h.dropWhile (· ≠ colon)).drop 1)

theorem lastOccurrences_addLine {r : HttpRequest} (hmap : LastOccurrences headers r.headers) (h : Bytes) :
    LastOccurrences (headers ++ [h]) (addLine r h).headers := by
  intro name
  rw [List.reverse_append, List.reverse_singleton, List.singleton_append, List.find?_cons]
  by_cases hsame : h.takeWhile (· ≠ colon) = name
  · simp only [hsame, decide_true, addLine, HttpRequest.addHeader, if_true]
    exact ⟨_, rfl, trims_trim _⟩
  · simp only [hsame, decide_false, addLine, HttpRequest.addHeader]
    rw [if_neg (fun heq => hsame heq.symm)]
    exact hmap name

theorem lastOccurrences_foldl {r : HttpRequest} {past : List Bytes} (hmap : LastOccurrences past r.headers) :
    LastOccurrences (past ++ headers) (headers.foldl addLine r).headers := by
  induction headers generalizing r past with
  | nil => rwa [List.append_nil]
  | cons h headers ih =>
    rw [← List.singleton_append, ← List.append_assoc]
    exact ih (lastOccurrences_addLine hmap h)

theorem processUri_headers {r : HttpRequest} : (HttpContext.processUri rest r).2.headers = r.headers := by
  unfold HttpContext.processUri HttpContext.setVersion HttpRequest.setUri
  repeat' split
  all_goals rfl

theorem processRequestLine_headers {r : HttpRequest} :
    (HttpContext.processRequestLine line r).2.headers = r.headers := by
  cases hspace : search (ascii " ") line with
  | none => rw [HttpContext.processRequestLine_none hspace]
  | some methodEnd =>
    by_cases hm : HttpRequest.methodOf (line.take methodEnd) = .kInvalid
    · rw [HttpContext.processRequestLine_invalid hspace hm]
      rfl
    · rw [HttpContext.processRequestLine_valid hspace hm, processUri_headers]
      rfl

/-! ## The parser on a block -/

/-- The parser at the first line of a string. -/
theorem run_requestLine (h : IsLine line) {c : HttpContext} (hstate : c.state = .kExpectRequestLine)
    (hok : (HttpContext.processRequestLine line c.request).1 = true) (rest : Bytes) :
    HttpContext.reader.run c (line ++ (kCRLF ++ rest)) =
      HttpContext.reader.run ⟨.kExpectHeaders, (HttpContext.processRequestLine line c.request).2⟩ rest := by
  have hnext : c.next (line ++ (kCRLF ++ rest)) =
      .take (line.length + 2) ⟨.kExpectHeaders, (HttpContext.processRequestLine line c.request).2⟩ := by
    simp only [HttpContext.next, hstate, search_line h, List.take_left, hok, if_true]
  rw [Reader.run_take hnext]
  congr 1
  rw [← List.append_assoc]
  exact List.drop_left' (by rw [List.length_append]; rfl)

theorem run_headerLine (h : IsLine line) {c : HttpContext} (hstate : c.state = .kExpectHeaders) (rest : Bytes) :
    HttpContext.reader.run c (line ++ (kCRLF ++ rest)) =
      HttpContext.reader.run (HttpContext.processHeader line c) rest := by
  have hnext : c.next (line ++ (kCRLF ++ rest)) = .take (line.length + 2) (HttpContext.processHeader line c) := by
    simp only [HttpContext.next, hstate, search_line h, List.take_left]
  rw [Reader.run_take hnext]
  congr 1
  rw [← List.append_assoc]
  exact List.drop_left' (by rw [List.length_append]; rfl)

theorem search_colon (h : colon ∈ line) : ∃ i, search [colon] line = some i := by
  cases hsearch : search [colon] line with
  | some i => exact ⟨i, rfl⟩
  | none =>
    rw [search_eq_none, List.singleton_infix_iff] at hsearch
    exact absurd h hsearch

theorem processHeader_last {c : HttpContext} (h : colon ∉ line) :
    HttpContext.processHeader line c = { c with state := .kGotAll } := by
  have hsearch : search (ascii ":") line = none := by
    rw [search_eq_none]
    show ¬[colon] <:+: line
    rwa [List.singleton_infix_iff]
  simp only [HttpContext.processHeader, hsearch]

/-- The header lines are taken one by one, up to the line without a colon. -/
theorem run_headerLines {r : HttpRequest} {last : Bytes} (hline : ∀ h ∈ headers, IsLine h)
    (hcolon : ∀ h ∈ headers, colon ∈ h) (hlast : IsLine last) (hno : colon ∉ last) :
    HttpContext.reader.run ⟨.kExpectHeaders, r⟩ (headerLines headers last rest) =
      ⟨⟨.kGotAll, headers.foldl addLine r⟩, rest, none⟩ := by
  induction headers generalizing r with
  | nil =>
    rw [headerLines_nil, run_headerLine hlast rfl, processHeader_last hno]
    exact Reader.run_wait rfl
  | cons h headers ih =>
    obtain ⟨i, hi⟩ := search_colon (hcolon h List.mem_cons_self)
    have hheader : HttpContext.processHeader h ⟨.kExpectHeaders, r⟩ = ⟨.kExpectHeaders, addLine r h⟩ := by
      obtain ⟨hname, hvalue⟩ := name_value hi
      have hi' : search (ascii ":") h = some i := hi
      simp only [HttpContext.processHeader, hi', addLine, hname, hvalue]
    rw [headerLines_cons, run_headerLine (hline h List.mem_cons_self) rfl, hheader]
    exact ih (fun x hx => hline x (List.mem_cons_of_mem _ hx)) fun x hx => hcolon x (List.mem_cons_of_mem _ hx)

/-- A request with any line without a colon at its end is accepted, and exactly it is taken. -/
theorem Block.run_eq {last : Bytes} (h : Block str line headers last rest) (hno : colon ∉ last) :
    HttpContext.reader.run {} str =
      ⟨⟨.kGotAll, headers.foldl addLine (HttpContext.processRequestLine line {}).2⟩, rest, none⟩ := by
  have hok := processRequestLine_ok (r := {}).mpr h.request
  rw [h.split, run_requestLine h.isLine rfl hok]
  exact run_headerLines h.headers_isLine h.headers_colon h.last_isLine hno

theorem Block.run {last : Bytes} (h : Block str line headers last rest) (hno : colon ∉ last) :
    ∃ r : HttpRequest, HttpContext.reader.run {} str = ⟨⟨.kGotAll, r⟩, rest, none⟩ ∧
      LastOccurrences headers r.headers := by
  have hempty : LastOccurrences [] (HttpContext.processRequestLine line {}).2.headers := by
    rw [processRequestLine_headers]
    intro name
    rfl
  exact ⟨_, h.run_eq hno, lastOccurrences_foldl hempty⟩

/-! ## What is accepted is a block -/

/-- Where the reader takes a line, the line is the part up to the first line end. -/
theorem line_split {crlf : Nat} (h : search kCRLF str = some crlf) :
    str = str.take crlf ++ (kCRLF ++ str.drop (crlf + 2)) := search_split h

/-- A parser that comes from the headers to the end has taken header lines and a line without a colon. -/
theorem headerLines_of_gotAll (c : HttpContext) (str : Bytes) (hstate : c.state = .kExpectHeaders)
    (hgot : (HttpContext.reader.run c str).state.state = .kGotAll) :
    ∃ headers last rest, str = headerLines headers last rest ∧ (∀ h ∈ headers, IsLine h) ∧
      (∀ h ∈ headers, colon ∈ h) ∧ IsLine last ∧ colon ∉ last := by
  induction c, str using HttpContext.reader.induct with
  | @wait c str h =>
    rw [Reader.run_wait h, hstate] at hgot
    cases hgot
  | @stop c str c' r h =>
    have hnext : c.next str = .stop c' r := h
    unfold HttpContext.next at hnext
    rw [hstate] at hnext
    simp only at hnext
    split at hnext <;> cases hnext
  | @take c str n c' h ih =>
    have hnext : c.next str = .take n c' := h
    unfold HttpContext.next at hnext
    rw [hstate] at hnext
    simp only at hnext
    split at hnext
    · cases hnext
    · rename_i crlf hcrlf
      cases hnext
      rw [Reader.run_take h] at hgot
      by_cases hcolon : colon ∈ str.take crlf
      · -- A header line; the rest is as before.
        obtain ⟨i, hi⟩ := search_colon hcolon
        have hi' : search (ascii ":") (str.take crlf) = some i := hi
        have hsame : (HttpContext.processHeader (str.take crlf) c).state = .kExpectHeaders := by
          simp only [HttpContext.processHeader, hi', hstate]
        obtain ⟨headers, last, rest, hsplit, hline, hcolons, hlast, hno⟩ := ih hsame hgot
        refine ⟨str.take crlf :: headers, last, rest, ?_, ?_, ?_, hlast, hno⟩
        · rw [headerLines_cons, ← hsplit]
          exact line_split hcrlf
        · exact List.forall_mem_cons.mpr ⟨isLine_take hcrlf, hline⟩
        · exact List.forall_mem_cons.mpr ⟨hcolon, hcolons⟩
      · exact ⟨[], str.take crlf, str.drop (crlf + 2), line_split hcrlf, by simp, by simp, isLine_take hcrlf, hcolon⟩

/-- What a fresh parser accepts begins with a request, up to its last line. -/
theorem block_of_gotAll (h : (HttpContext.reader.run {} str).state.state = .kGotAll) :
    ∃ line headers last rest, Block str line headers last rest ∧ colon ∉ last := by
  cases hcrlf : search kCRLF str with
  | none =>
    have hnext : HttpContext.next {} str = .wait := by simp only [HttpContext.next, hcrlf]
    rw [Reader.run_wait hnext] at h
    cases h
  | some crlf =>
    have hsplit := line_split hcrlf
    by_cases hok : (HttpContext.processRequestLine (str.take crlf) {}).1 = true
    · rw [hsplit, run_requestLine (isLine_take hcrlf) rfl hok] at h
      obtain ⟨headers, last, rest, hrest, hline, hcolons, hlast, hno⟩ := headerLines_of_gotAll _ _ rfl h
      exact ⟨str.take crlf, headers, last, rest,
        ⟨hrest ▸ hsplit, isLine_take hcrlf, processRequestLine_ok.mp hok, hline, hcolons, hlast⟩, hno⟩
    · have hnext : HttpContext.next {} str =
          .stop ⟨.kExpectRequestLine, (HttpContext.processRequestLine (str.take crlf) {}).2⟩ () := by
        simp only [HttpContext.next, hcrlf, if_neg hok]
      rw [Reader.run_stop hnext] at h
      cases h

end HttpGrammar

open HttpGrammar

/-- A fresh `parseRequest` on the readable bytes of `buf` returns true and reaches `kGotAll`. -/
def HttpContext.Accepts (buf : Buffer) (receiveTime : Timestamp) : Prop :=
  (HttpContext.parseRequest {} buf receiveTime).ok = true ∧
    (HttpContext.parseRequest {} buf receiveTime).context.gotAll = true

/-- A fresh context has no receive time yet. -/
theorem HttpContext.follows_fresh (buf : Buffer) (t : Timestamp) :
    Follows (reader.run {} buf.readableSpan) (parseRequest {} buf t) := follows_parseRequest {} buf t

theorem HttpContext.accepts_iff {buf : Buffer} {t : Timestamp} : Accepts buf t ↔
    ∃ line headers last rest, Block buf.readableSpan line headers last rest ∧ colon ∉ last := by
  obtain ⟨hok, hcontext, -⟩ := follows_fresh buf t
  have hstate : (parseRequest {} buf t).context.state = (reader.run {} buf.readableSpan).state.state := by
    rw [← hcontext, untimed_state]
  constructor
  · rintro ⟨-, hgot⟩
    refine block_of_gotAll ?_
    rw [← hstate]
    simpa [gotAll] using hgot
  · rintro ⟨line, headers, last, rest, hblock, hno⟩
    obtain ⟨r, hrun, -⟩ := hblock.run hno
    rw [hrun] at hok hstate
    exact ⟨hok, by simp [gotAll, hstate]⟩

/-- On the bytes of `buf` the parser does what the grammar says: it accepts them if and only if they begin with a
request, then takes exactly the request, and has the values of its headers. This is so exactly for the strings in
which the first line without a colon behind a request line, if there is one, is empty. -/
theorem HttpContext.accepts_grammar_iff (buf : Buffer) (receiveTime : Timestamp) :
    ((Accepts buf receiveTime ↔ ∃ line headers rest, Block buf.readableSpan line headers [] rest) ∧
      ∀ line headers rest, Block buf.readableSpan line headers [] rest →
        (parseRequest {} buf receiveTime).buf.readableSpan = rest ∧
          LastOccurrences headers (parseRequest {} buf receiveTime).context.request.headers) ↔
      ∀ line headers last rest, Block buf.readableSpan line headers last rest → colon ∉ last → last = [] := by
  constructor
  · rintro ⟨haccepts, -⟩ line headers last rest hblock hno
    obtain ⟨line', headers', rest', hblock'⟩ := haccepts.mp (accepts_iff.mpr ⟨_, _, _, _, hblock, hno⟩)
    exact hblock.last_unique hno hblock' List.not_mem_nil
  · intro hempty
    refine ⟨⟨?_, ?_⟩, ?_⟩
    · intro h
      obtain ⟨line, headers, last, rest, hblock, hno⟩ := accepts_iff.mp h
      cases hempty _ _ _ _ hblock hno
      exact ⟨line, headers, rest, hblock⟩
    · rintro ⟨line, headers, rest, hblock⟩
      exact accepts_iff.mpr ⟨_, _, _, _, hblock, List.not_mem_nil⟩
    · intro line headers rest hblock
      obtain ⟨-, hcontext, hrest⟩ := follows_fresh buf receiveTime
      obtain ⟨r, hrun, hmap⟩ := hblock.run List.not_mem_nil
      rw [hrun] at hcontext hrest
      have hheaders : (parseRequest {} buf receiveTime).context.request.headers = r.headers :=
        congrArg (fun c => c.request.headers) hcontext
      exact ⟨hrest, hheaders ▸ hmap⟩

/-- A request with a header line that has no colon. -/
def malformedRequest : Bytes := ascii "GET / HTTP/1.1\r\nfoo\r\n\r\n"

/-- The line without a colon ends the request; the line end behind it is left for the next one. -/
theorem HttpContext.accepts_malformed :
    Accepts ((Buffer.new 0).append malformedRequest) 0 ∧
      (parseRequest {} ((Buffer.new 0).append malformedRequest) 0).buf.readableSpan = ascii "\r\n" ∧
      ¬∃ line headers rest, Block ((Buffer.new 0).append malformedRequest).readableSpan line headers [] rest := by
  have hspan : ((Buffer.new 0).append malformedRequest).readableSpan = malformedRequest := by
    rw [Buffer.readableSpan_append, Buffer.readableSpan_new, List.nil_append]
  have hrequest : IsRequestLine (ascii "GET / HTTP/1.1") := (processRequestLine_ok (r := {})).mp (by decide)
  have hblock : Block malformedRequest (ascii "GET / HTTP/1.1") [] (ascii "foo") (ascii "\r\n") :=
    ⟨by decide, by unfold IsLine; decide, hrequest, by simp, by simp, by unfold IsLine; decide⟩
  refine ⟨accepts_iff.mpr ⟨_, _, _, _, hspan ▸ hblock, by decide⟩, ?_, ?_⟩
  · rw [(follows_fresh _ _).rest, hspan]
    rfl
  · rintro ⟨line, headers, rest, hblock'⟩
    rw [hspan] at hblock'
    have hlast := hblock.last_unique (by decide) hblock' List.not_mem_nil
    exact absurd hlast (by decide)

end Muduo
