/-! # Log streams

`LogStream` appends to a buffer of fixed size and drops what does not fit. The structure carries the bound. -/

namespace Muduo

def kSmallBuffer : Nat := 4000

structure LogStream where
  /-- The characters of `buffer_` up to `writePos_`. -/
  data : List Char := []
  length_le : data.length ≤ kSmallBuffer := by decide

namespace LogStream

/-- The room that `operator<<` wants for a number. -/
def kMaxNumericSize : Nat := 48

def avail (s : LogStream) : Nat := kSmallBuffer - s.data.length

/-- As much is copied as there is room for. -/
def append (s : LogStream) (str : List Char) : LogStream where
  data := s.data ++ str.take s.avail
  length_le := by
    have := s.length_le
    rw [List.length_append, List.length_take, avail]
    omega

/-- `operator<<(const char *)` -/
def insertCString (s : LogStream) : Option (List Char) → LogStream
  | some str => s.append str
  | none => s.append "(null)".toList

/-- `std::to_chars` writes nothing if the digits do not fit. -/
def formatInteger (s : LogStream) (v : Int) : LogStream :=
  let digits := (toString v).toList
  if kMaxNumericSize ≤ s.avail then
    if digits.length ≤ s.avail then s.append digits else s
  else s

/-- `operator<<(const void *)`, with what `std::format` makes of the pointer. -/
def insertPointer (s : LogStream) (rendered : List Char) : LogStream :=
  if kMaxNumericSize ≤ s.avail then s.append rendered else s

/-- `formatFloating`, with the twelve digits of the number: what `std::to_chars` finds no room for, `std::format_to_n`
cuts. -/
def formatFloating (s : LogStream) (rendered : List Char) : LogStream :=
  if kMaxNumericSize ≤ s.avail then
    if rendered.length ≤ s.avail then s.append rendered else s.append (rendered.take s.avail)
  else s

/-- `format`, with what `std::format_to_n` is to write. -/
def format (s : LogStream) (rendered : List Char) : LogStream :=
  if s.avail = 0 then s else s.append (rendered.take s.avail)

/-- What can be put into a stream. -/
inductive Insertion where
  | bool (v : Bool)
  | char (v : Char)
  | integer (v : Int)
  | floating (rendered : List Char)
  | pointer (rendered : List Char)
  | cString (str : Option (List Char))
  | stringView (str : List Char)
  | format (rendered : List Char)

def insert (s : LogStream) : Insertion → LogStream
  | .bool v => s.append (if v then ['1'] else ['0'])
  | .char v => s.append [v]
  | .integer v => s.formatInteger v
  | .floating rendered => s.formatFloating rendered
  | .pointer rendered => s.insertPointer rendered
  | .cString str => s.insertCString str
  | .stringView str => s.append str
  | .format rendered => s.format rendered

end LogStream
end Muduo
