import Mathlib
import Muduo.HttpServer

/-! # The inspector

`Inspector` answers HTTP requests with the commands that are registered in it. `add` and `remove` may be called from any
thread; they and the body of `onRequest` hold the mutex, so each is one step. -/

namespace Muduo

/-- The function of a command, which may be empty. -/
abbrev InspectCallback := Option (HttpRequest.Method → List Bytes → Bytes)

/-- `std::map<string, std::map<string, T>>` -/
abbrev CommandMap (α : Type) := Std.TreeMap Bytes (Std.TreeMap Bytes α)

namespace CommandMap
variable {α : Type}

/-- `map[moduleName][command] = value` -/
def assign (moduleName command : Bytes) (value : α) (map : CommandMap α) : CommandMap α :=
  map.insert moduleName ((map.getD moduleName ∅).insert command value)

/-- The command is erased from the entry of the module, which stays. -/
def erase (moduleName command : Bytes) (map : CommandMap α) : CommandMap α :=
  match map[moduleName]? with
  | some commands => map.insert moduleName (commands.erase command)
  | none => map

def find? (moduleName command : Bytes) (map : CommandMap α) : Option α :=
  match map[moduleName]? with
  | some commands => commands[command]?
  | none => none

end CommandMap

structure Inspector where
  modules : CommandMap InspectCallback := ∅
  helps : CommandMap Bytes := ∅

namespace Inspector

def add (moduleName command : Bytes) (cb : InspectCallback) (help : Bytes) (s : Inspector) : Inspector where
  modules := s.modules.assign moduleName command cb
  helps := s.helps.assign moduleName command help

def remove (moduleName command : Bytes) (s : Inspector) : Inspector where
  modules := CommandMap.erase moduleName command s.modules
  helps := CommandMap.erase moduleName command s.helps

def slash : UInt8 := 0x2f

/-- The parts between the slashes that are not empty. -/
def splitPath (path : Bytes) : List Bytes := (path.splitOn slash).filter (· ≠ [])

/-- A line of the answer to `/`. -/
def helpLine (moduleName command help : Bytes) : Bytes :=
  let len := moduleName.length + command.length
  [slash] ++ moduleName ++ [slash] ++ command ++ List.replicate (if len ≥ 25 then 1 else 25 - len) 0x20 ++ help ++ [0x0a]

def helpText (helps : CommandMap Bytes) : Bytes :=
  helps.toList.flatMap fun moduleEntry => moduleEntry.2.toList.flatMap fun helpEntry =>
    helpLine moduleEntry.1 helpEntry.1 helpEntry.2

def ok (body : Bytes) (resp : HttpResponse) : HttpResponse :=
  { ({ resp with statusCode := .k200Ok, statusMessage := ascii "OK" }.setContentType (ascii "text/plain")) with body }

def notFound (resp : HttpResponse) : HttpResponse :=
  { resp with statusCode := .k404NotFound, statusMessage := ascii "Not Found" }

def onRequest (s : Inspector) : HttpCallback := fun req resp =>
  if req.path = [slash] then ok (helpText s.helps) resp
  else
    match splitPath req.path with
    | moduleName :: command :: args =>
      match s.modules.find? moduleName command with
      | some (some callback) => ok (callback req.method args) resp
      -- There is no such command, or its function is empty.
      | some none | none => notFound resp
    -- Too few parts; `favicon.ico` is one of these.
    | [] | [_] => notFound resp

end Inspector
end Muduo
