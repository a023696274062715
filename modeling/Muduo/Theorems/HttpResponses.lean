import Muduo.HttpServer
import Muduo.Theorems.HttpGrammar

/-! # Responses on a connection that is kept alive

A client that reads lines up to the empty one, and then as many bytes as `Content-Length` says, finds in the bytes of
some responses these responses again, whatever their bodies look like. -/

namespace Muduo
open Lib HttpGrammar

/-! ## The client -/

/-- A response as a client reads it. -/
structure ReadResponse where
  statusCode : Nat
  statusMessage : Bytes
  headers : List (Bytes × Bytes)
  body : Bytes
  deriving DecidableEq

namespace ReadResponse

/-- What comes before the first occurrence of a pattern, and what comes behind it. -/
def cut (pat l : Bytes) : Option (Bytes × Bytes) := (search pat l).map fun i => (l.take i, l.drop (i + pat.length))

theorem cut_shorter {pat l line rest : Bytes} (h : cut pat l = some (line, rest)) : rest.length + pat.length ≤ l.length := by
  obtain ⟨i, hi, hcut⟩ := Option.map_eq_some_iff.mp h
  cases hcut
  have := search_bound hi
  rw [List.length_drop]
  omega

/-- The lines before the first empty one, and what comes behind it. -/
def takeLines (l : Bytes) : Option (List Bytes × Bytes) :=
  match _h : cut kCRLF l with
  | none => none
  | some ([], rest) => some ([], rest)
  | some (line, rest) => (takeLines rest).map fun r => (line :: r.1, r.2)
termination_by l.length
decreasing_by
  have := cut_shorter _h
  simp only [kCRLF, List.length_cons, List.length_nil] at this
  omega

def isDigit (b : UInt8) : Bool := 48 ≤ b.toNat && b.toNat ≤ 57

def readNumber (digits : Bytes) : Option Nat :=
  if digits.all isDigit && !digits.isEmpty then some (digits.foldl (fun n b => 10 * n + (b.toNat - 48)) 0) else none

def readStatusLine (line : Bytes) : Option (Nat × Bytes) := do
  let (version, line) ← cut (ascii " ") line
  let (code, message) ← cut (ascii " ") line
  let code ← readNumber code
  if version = ascii "HTTP/1.1" then some (code, message) else none

/-- There must be one line that says it. -/
def contentLength (headers : List (Bytes × Bytes)) : Option Nat :=
  match headers.filter fun e => e.1 = ascii "Content-Length" with
  | [(_, value)] => readNumber value
  | _ => none

def readResponse (l : Bytes) : Option (ReadResponse × Bytes) := do
  let (line, l) ← cut kCRLF l
  let (statusCode, statusMessage) ← readStatusLine line
  let (lines, l) ← takeLines l
  let headers ← lines.mapM (cut (ascii ": "))
  let n ← contentLength headers
  if l.length < n then none else some ({ statusCode, statusMessage, headers, body := l.take n }, l.drop n)

theorem takeLines_empty {l rest : Bytes} (h : cut kCRLF l = some ([], rest)) : takeLines l = some ([], rest) := by
  fun_cases takeLines l with
  | case1 hcut => cases hcut.symm.trans h
  | case2 rest' hcut =>
    cases hcut.symm.trans h
    rfl
  | case3 line rest' hne hcut =>
    cases hcut.symm.trans h
    exact absurd rfl hne

theorem takeLines_line {l line rest : Bytes} (hne : line ≠ []) (h : cut kCRLF l = some (line, rest)) :
    takeLines l = (takeLines rest).map fun r => (line :: r.1, r.2) := by
  fun_cases takeLines l with
  | case1 hcut => cases hcut.symm.trans h
  | case2 rest' hcut =>
    cases hcut.symm.trans h
    exact absurd rfl hne
  | case3 line' rest' hne' hcut =>
    cases hcut.symm.trans h
    rfl

theorem takeLines_le {l rest : Bytes} {lines : List Bytes} (h : takeLines l = some (lines, rest)) :
    rest.length ≤ l.length := by
  fun_induction takeLines l generalizing lines with
  | case1 l hcut => cases h
  | case2 l rest' hcut =>
    have := cut_shorter hcut
    cases h
    omega
  | case3 l line rest' hne hcut ih =>
    obtain ⟨⟨lines, rest⟩, hr, heq⟩ := Option.map_eq_some_iff.mp h
    cases heq
    have := ih hr
    have := cut_shorter hcut
    omega

theorem readResponse_shorter {l rest : Bytes} {r : ReadResponse} (h : readResponse l = some (r, rest)) :
    rest.length < l.length := by
  unfold readResponse at h
  obtain ⟨⟨line, l₁⟩, hcut, h⟩ := Option.bind_eq_some_iff.mp h
  obtain ⟨status, -, h⟩ := Option.bind_eq_some_iff.mp h
  obtain ⟨⟨lines, l₂⟩, hlines, h⟩ := Option.bind_eq_some_iff.mp h
  obtain ⟨headers, -, h⟩ := Option.bind_eq_some_iff.mp h
  obtain ⟨n, -, h⟩ := Option.bind_eq_some_iff.mp h
  obtain ⟨-, heq⟩ := Option.ite_none_left_eq_some.mp h
  cases heq
  have hfirst : l₁.length + 2 ≤ l.length := cut_shorter hcut
  have := takeLines_le hlines
  rw [List.length_drop]
  omega

/-- The responses that a stream of bytes is cut into. -/
def readAll (l : Bytes) : Option (List ReadResponse) :=
  if l = [] then some []
  else
    match _h : readResponse l with
    | none => none
    | some (r, rest) => (readAll rest).map (r :: ·)
termination_by l.length
decreasing_by exact readResponse_shorter _h

theorem readAll_cons {l rest : Bytes} {r : ReadResponse} (h : readResponse l = some (r, rest)) :
    readAll l = (readAll rest).map (r :: ·) := by
  have hne : l ≠ [] := by
    intro hempty
    have := readResponse_shorter h
    rw [hempty] at this
    cases this
  fun_cases readAll l with
  | case1 hempty => exact absurd hempty hne
  | case2 hempty hread => cases hread.symm.trans h
  | case3 hempty r' rest' hread =>
    cases hread.symm.trans h
    rfl

/-! ## Reading the parts back -/

theorem cut_of_split {pat l : Bytes} (hne : pat ≠ []) (hborder : Unbordered pat) (h : ¬pat <:+: l) (m : Bytes) :
    cut pat (l ++ (pat ++ m)) = some (l, m) := by
  rw [cut, search_of_split hne hborder h m, Option.map_some, List.take_left, ← List.length_append, ← List.append_assoc,
    List.drop_left]

theorem cut_line {line : Bytes} (h : IsLine line) (rest : Bytes) :
    cut kCRLF (line ++ (kCRLF ++ rest)) = some (line, rest) :=
  cut_of_split (by decide) unbordered_crlf h rest

theorem cut_space {word : Bytes} (h : space ∉ word) (rest : Bytes) :
    cut (ascii " ") (word ++ (ascii " " ++ rest)) = some (word, rest) :=
  cut_of_split (by decide) (unbordered_singleton _) (fun hin => h ((List.singleton_infix_iff _ _).mp hin)) rest

theorem cut_header {name : Bytes} (h : colon ∉ name) (value : Bytes) :
    cut (ascii ": ") (name ++ (ascii ": " ++ value)) = some (name, value) :=
  cut_of_split (by decide) (unbordered_pair (by decide)) (fun hin => h (hin.subset (by decide))) value

theorem takeLines_headerLines {lines : List Bytes} (hlines : ∀ line ∈ lines, IsLine line)
    (hne : ∀ line ∈ lines, line ≠ []) (rest : Bytes) : takeLines (headerLines lines [] rest) = some (lines, rest) := by
  induction lines with
  | nil =>
    have hline : IsLine [] := fun h => absurd h.length_le (by decide)
    exact takeLines_empty (cut_line hline rest)
  | cons line lines ih =>
    have hcut := cut_line (hlines line List.mem_cons_self) (headerLines lines [] rest)
    have hrest := ih (fun x hx => hlines x (List.mem_cons_of_mem _ hx)) (fun x hx => hne x (List.mem_cons_of_mem _ hx))
    rw [headerLines_cons, takeLines_line (hne line List.mem_cons_self) hcut, hrest]
    rfl

/-! ## Numbers -/

theorem decimal_eq (n : Nat) : HttpResponse.decimal n = (Nat.toDigits 10 n).map fun c => UInt8.ofNat c.toNat := by
  rw [HttpResponse.decimal, ascii, Nat.toString_eq_ofList_toDigits, String.toList_ofList]

theorem toNat_digit {c : Char} (h : c.isDigit = true) :
    (UInt8.ofNat c.toNat).toNat = c.toNat ∧ 48 ≤ c.toNat ∧ c.toNat ≤ 57 := by
  obtain ⟨hlow, hhigh⟩ := Bool.and_eq_true_iff.mp h
  have hlow : 48 ≤ c.toNat := UInt32.le_iff_toNat_le.mp (of_decide_eq_true hlow)
  have hhigh : c.toNat ≤ 57 := UInt32.le_iff_toNat_le.mp (of_decide_eq_true hhigh)
  refine ⟨?_, hlow, hhigh⟩
  rw [UInt8.toNat_ofNat']
  omega

theorem isDigit_decimal (n : Nat) : ∀ b ∈ HttpResponse.decimal n, isDigit b = true := by
  rw [decimal_eq]
  refine List.forall_mem_map.mpr fun c hc => ?_
  obtain ⟨htoNat, hlow, hhigh⟩ := toNat_digit (Nat.isDigit_of_mem_toDigits (by decide) (by decide) hc)
  simp [isDigit, htoNat, hlow, hhigh]

theorem not_mem_decimal {b : UInt8} (h : isDigit b = false) (n : Nat) : b ∉ HttpResponse.decimal n := by
  intro hmem
  rw [isDigit_decimal n b hmem] at h
  cases h

theorem readNumber_decimal (n : Nat) : readNumber (HttpResponse.decimal n) = some n := by
  have hall : (HttpResponse.decimal n).all isDigit = true := List.all_eq_true.mpr (isDigit_decimal n)
  have hne : (HttpResponse.decimal n).isEmpty = false := by
    rw [decimal_eq, List.isEmpty_map, List.isEmpty_eq_false_iff]
    exact Nat.toDigits_ne_nil
  have hvalue : (HttpResponse.decimal n).foldl (fun n b => 10 * n + (b.toNat - 48)) 0 = n := by
    rw [decimal_eq, List.foldl_map]
    refine (List.foldl_ext _ _ 0 ?_).trans (Nat.ofDigitChars_toDigits (b := 10) (n := n) (by decide) (by decide))
    intro m c hc
    rw [(toNat_digit (Nat.isDigit_of_mem_toDigits (by decide) (by decide) hc)).1]
    rfl
  rw [readNumber, hall, hne, hvalue]
  rfl

end ReadResponse

/-! ## Responses -/

namespace HttpResponse
open ReadResponse
variable {r : HttpResponse} {rs : List HttpResponse}

def NoLineBreak (text : Bytes) : Prop := 0x0d ∉ text ∧ 0x0a ∉ text

/-- A response that is read back as it is. -/
structure Plain (r : HttpResponse) : Prop where
  keepsAlive : r.closeConnection = false
  statusMessage : NoLineBreak r.statusMessage
  names : ∀ e ∈ r.headers, NoLineBreak e.1 ∧ colon ∉ e.1 ∧ e.1 ≠ ascii "Content-Length"
  values : ∀ e ∈ r.headers, NoLineBreak e.2

/-- The headers with those that `appendToBuffer` generates. -/
def allHeaders (r : HttpResponse) : List (Bytes × Bytes) :=
  (ascii "Content-Length", decimal r.body.length) :: (ascii "Connection", ascii "Keep-Alive") :: r.headers

/-- What a client is to read. -/
def read (r : HttpResponse) : ReadResponse where
  statusCode := r.statusCode.value
  statusMessage := r.statusMessage
  headers := r.allHeaders
  body := r.body

def statusLine (r : HttpResponse) : Bytes :=
  ascii "HTTP/1.1" ++ (ascii " " ++ (decimal r.statusCode.value ++ (ascii " " ++ r.statusMessage)))

def headerLine (e : Bytes × Bytes) : Bytes := e.1 ++ (ascii ": " ++ e.2)

theorem readableSpan_appendHeaders (headers : List (Bytes × Bytes)) (output : Buffer) :
    (headers.foldl appendHeader output).readableSpan =
      output.readableSpan ++ headers.flatMap fun e => headerLine e ++ kCRLF := by
  induction headers generalizing output with
  | nil => simp
  | cons e headers ih =>
    rw [List.foldl_cons, ih, List.flatMap_cons]
    simp only [appendHeader, Buffer.readableSpan_append, headerLine, List.append_assoc]
    rfl

theorem readableSpan_appendToBuffer (h : r.closeConnection = false) (output : Buffer) :
    (r.appendToBuffer output).readableSpan =
      output.readableSpan ++ (r.statusLine ++ (kCRLF ++ headerLines (r.allHeaders.map headerLine) [] r.body)) := by
  have hcrlf : ascii "\r\n" = kCRLF := rfl
  have hversion : ascii "HTTP/1.1 " = ascii "HTTP/1.1" ++ ascii " " := rfl
  have hlength : ascii "Content-Length: " = ascii "Content-Length" ++ ascii ": " := rfl
  have halive : ascii "Connection: Keep-Alive\r\n" = ascii "Connection" ++ (ascii ": " ++ (ascii "Keep-Alive" ++ kCRLF)) :=
    rfl
  simp only [appendToBuffer, h, Bool.false_eq_true, if_false, Buffer.readableSpan_append, readableSpan_appendHeaders,
    statusLine, headerLines, allHeaders, headerLine, List.flatMap_map, List.flatMap_cons, List.append_assoc, hcrlf,
    hversion, hlength, halive, List.nil_append]

theorem NoLineBreak.isLine {text : Bytes} (h : NoLineBreak text) : IsLine text :=
  fun hin => h.1 (hin.subset (by decide))

theorem NoLineBreak.append {text text' : Bytes} (h : NoLineBreak text) (h' : NoLineBreak text') :
    NoLineBreak (text ++ text') :=
  ⟨List.not_mem_append h.1 h'.1, List.not_mem_append h.2 h'.2⟩

theorem noLineBreak_decimal (n : Nat) : NoLineBreak (decimal n) :=
  ⟨not_mem_decimal rfl n, not_mem_decimal rfl n⟩

instance (text : Bytes) : Decidable (NoLineBreak text) := inferInstanceAs (Decidable (_ ∧ _))

namespace Plain

theorem statusLine (h : Plain r) : IsLine r.statusLine ∧
    readStatusLine r.statusLine = some (r.statusCode.value, r.statusMessage) := by
  constructor
  · have hversion : NoLineBreak (ascii "HTTP/1.1") := by decide
    have hspace : NoLineBreak (ascii " ") := by decide
    exact (hversion.append (hspace.append ((noLineBreak_decimal _).append (hspace.append h.statusMessage)))).isLine
  · have hspace : space ∉ decimal r.statusCode.value := not_mem_decimal rfl _
    have hversion : space ∉ ascii "HTTP/1.1" := by decide
    simp only [readStatusLine, HttpResponse.statusLine, cut_space hversion, cut_space hspace, readNumber_decimal,
      Option.bind_eq_bind, Option.bind_some, if_true]

theorem header (h : Plain r) : ∀ e ∈ r.allHeaders, NoLineBreak e.1 ∧ NoLineBreak e.2 ∧ colon ∉ e.1 := by
  have hlength : NoLineBreak (ascii "Content-Length") ∧ colon ∉ ascii "Content-Length" := by decide
  refine List.forall_mem_cons.mpr ⟨?_, List.forall_mem_cons.mpr ⟨by decide, ?_⟩⟩
  · exact ⟨hlength.1, noLineBreak_decimal _, hlength.2⟩
  · intro e he
    exact ⟨(h.names e he).1, h.values e he, (h.names e he).2.1⟩

theorem takeLines (h : Plain r) (rest : Bytes) :
    takeLines (headerLines (r.allHeaders.map headerLine) [] rest) = some (r.allHeaders.map headerLine, rest) := by
  refine takeLines_headerLines ?_ ?_ rest
  · refine List.forall_mem_map.mpr fun e he => ?_
    obtain ⟨hname, hvalue, -⟩ := h.header e he
    have hsep : NoLineBreak (ascii ": ") := by decide
    exact (hname.append (hsep.append hvalue)).isLine
  · refine List.forall_mem_map.mpr fun e _ => ?_
    intro hempty
    have hlen := congrArg List.length hempty
    simp [headerLine, ascii] at hlen

theorem readHeaders (h : Plain r) : (r.allHeaders.map headerLine).mapM (cut (ascii ": ")) = some r.allHeaders := by
  have hall : ∀ e ∈ r.allHeaders, cut (ascii ": ") (headerLine e) = some e :=
    fun e he => cut_header (h.header e he).2.2 e.2
  generalize r.allHeaders = headers at hall
  induction headers with
  | nil => rfl
  | cons e headers ih =>
    have hrest := ih fun x hx => hall x (List.mem_cons_of_mem _ hx)
    rw [List.map_cons, List.mapM_cons, hall e List.mem_cons_self, hrest]
    rfl

theorem contentLength (h : Plain r) : contentLength r.allHeaders = some r.body.length := by
  have hnone : r.headers.filter (fun e => e.1 = ascii "Content-Length") = [] := by
    rw [List.filter_eq_nil_iff]
    intro e he
    simpa using (h.names e he).2.2
  have hother : ¬ascii "Connection" = ascii "Content-Length" := by decide
  simp only [ReadResponse.contentLength, allHeaders, List.filter_cons, hnone, decide_true, if_true, hother, decide_false,
    Bool.false_eq_true, if_false, readNumber_decimal]

/-- A response in front of a stream is read, and the rest of the stream is left. -/
theorem readResponse (h : Plain r) (output : Buffer) (rest : Bytes) (hempty : output.readableSpan = []) :
    readResponse ((r.appendToBuffer output).readableSpan ++ rest) = some (r.read, rest) := by
  have hlong : ¬(r.body ++ rest).length < r.body.length := by
    rw [List.length_append]
    omega
  have hlines : headerLines (r.allHeaders.map headerLine) [] r.body ++ rest =
      headerLines (r.allHeaders.map headerLine) [] (r.body ++ rest) := by
    simp only [headerLines, List.append_assoc]
  rw [readableSpan_appendToBuffer h.keepsAlive, hempty, List.nil_append, List.append_assoc, List.append_assoc, hlines]
  simp only [ReadResponse.readResponse, cut_line h.statusLine.1, h.statusLine.2, h.takeLines, h.readHeaders, h.contentLength,
    Option.bind_eq_bind, Option.bind_some, if_neg hlong, List.take_left, List.drop_left]
  rfl

end Plain

/-- The bytes that the server sends for some responses, each from a buffer of its own. -/
def wire (rs : List HttpResponse) : Bytes :=
  rs.flatMap fun r => (r.appendToBuffer (.new Buffer.kInitialSize)).readableSpan

/-- A client that is sent some responses reads these responses, and no other responses have the same bytes. -/
theorem responses_delimited (h : ∀ r ∈ rs, Plain r) :
    readAll (wire rs) = some (rs.map read) ∧
      ∀ rs' : List HttpResponse, (∀ r ∈ rs', Plain r) → wire rs' = wire rs → rs'.map read = rs.map read := by
  have hread : ∀ rs : List HttpResponse, (∀ r ∈ rs, Plain r) → readAll (wire rs) = some (rs.map read) := by
    intro rs hrs
    induction rs with
    | nil => rw [wire, List.flatMap_nil, readAll, if_pos rfl]; rfl
    | cons r rs ih =>
      have hfirst := (hrs r List.mem_cons_self).readResponse (.new Buffer.kInitialSize) (wire rs) Buffer.readableSpan_new
      have hrest := ih fun x hx => hrs x (List.mem_cons_of_mem _ hx)
      rw [wire, List.flatMap_cons, ← wire, readAll_cons hfirst, hrest]
      rfl
  refine ⟨hread rs h, ?_⟩
  intro rs' h' hwire
  have hsame := hread rs' h'
  rw [hwire, hread rs h] at hsame
  exact (Option.some.inj hsame).symm

/-- The body looks like the end of the headers and another response. -/
def lookalike : HttpResponse where
  headers := [(ascii "Content-Type", ascii "text/plain"), (ascii "Server", ascii "a: b")]
  statusCode := .k200Ok
  statusMessage := ascii "OK"
  closeConnection := false
  body := ascii "\r\n\r\nHTTP/1.1 404 Not Found\r\nContent-Length: 9\r\n\r\n"

theorem lookalike_delimited :
    readAll (wire [lookalike, { closeConnection := false }, lookalike]) =
      some [lookalike.read,
        ⟨0, [], [(ascii "Content-Length", ascii "0"), (ascii "Connection", ascii "Keep-Alive")], []⟩, lookalike.read] := by
  have hlookalike : Plain lookalike := ⟨rfl, by decide, by decide, by decide⟩
  have hempty : Plain { closeConnection := false } := ⟨rfl, by decide, by decide, by decide⟩
  refine (responses_delimited ?_).1
  intro r hr
  simp only [List.mem_cons, List.not_mem_nil, or_false] at hr
  rcases hr with rfl | rfl | rfl
  · exact hlookalike
  · exact hempty
  · exact hlookalike

end HttpResponse
end Muduo
