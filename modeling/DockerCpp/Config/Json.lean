/-
  DockerCpp.Config.Json — loading and saving a configuration as JSON, in the build with
  nlohmann::json (`mergeFromJsonString`, `serializeToJson`, `splitKey` of
  config_manager.cpp).

  `Json` is the tree of the library: an object is an ordered map, a list with increasing
  keys; the library's signed and unsigned integers are one constructor, as
  `is_number_integer` takes both. Text is written and read by the library's `dump` and
  `parse`, which are assumed to be inverse on the trees it can hold and write without loss
  (`Json.Held`, `Codec`): an integer has 64 bits, and a NaN or an infinity is written as null.
  `parse` throws a parse_error on a text that is not JSON and an out_of_range on a number
  beyond every double; only the first is caught.

  Loading walks the tree and sets every leaf under the dotted key of its path. Saving
  walks `values_` in its iteration order, splits each key at its dots and assigns the value
  at that path. `std::getline` yields no last part after a trailing dot, and none at all
  for the empty key, where `parts.back()` is undefined (`Fault.undefined`). `operator[]`
  with a string on a node that is neither an object nor null throws a type_error.
-/

import DockerCpp.Config.Manager
import DockerCpp.Lib.Assoc
import DockerCpp.Lib.Prog
import Mathlib.Algebra.Group.Int.Defs

namespace DockerCpp.Config

open Lib Lib.Prog

inductive Json where
  | null
  | string (s : String)
  | integer (n : Int)
  | float (bits : UInt64)
  | boolean (b : Bool)
  | array (items : List Json)
  | object (fields : List (String × Json))
  deriving Repr

/-- Not a NaN and not an infinity. -/
def isFinite (bits : UInt64) : Bool := (bits >>> 52) &&& 0x7FF != 0x7FF

namespace Json

/-- `type_name()`. -/
def typeName : Json → String
  | .null => "null"
  | .string _ => "string"
  | .integer _ | .float _ => "number"
  | .boolean _ => "boolean"
  | .array _ => "array"
  | .object _ => "object"

/-- A tree the library can hold, in which every number is written as it is. -/
inductive Held : Json → Prop
  | null : Held .null
  | string (s : String) : Held (.string s)
  | integer {n : Int} (h : -2 ^ 63 ≤ n ∧ n < 2 ^ 64) : Held (.integer n)
  | float {bits : UInt64} (h : isFinite bits = true) : Held (.float bits)
  | boolean (b : Bool) : Held (.boolean b)
  | array {items : List Json} (h : ∀ item ∈ items, Held item) : Held (.array items)
  | object {fields : List (String × Json)} (sorted : Assoc.Sorted fields) (values : ∀ f ∈ fields, Held f.2) :
      Held (.object fields)

end Json

/-- What `parse` throws, with its text. -/
inductive ParseFailure where
  | parseError (what : String)
  /-- out_of_range 406. -/
  | outOfRange (what : String)

/-- The library's `dump()`, `dump(4)` and `parse`. -/
structure Codec where
  dump : Json → String
  dump4 : Json → String
  parse : String → Except ParseFailure Json
  parse_dump4 : ∀ j, j.Held → parse (dump4 j) = .ok j

/-- What leaves the functions that read JSON. -/
inductive Thrown where
  | container (e : ContainerError)
  | outOfRange (what : String)
  deriving DecidableEq, Repr

/-- The `catch` around `parse`, which is for a parse_error. -/
def ParseFailure.rethrown : ParseFailure → Thrown
  | .parseError what => .container ⟨.configInvalid, "Invalid JSON configuration: " ++ what⟩
  | .outOfRange what => .outOfRange what

/-! ## Loading -/

def arrayItem (dump : Json → String) : Json → String
  | .string s => s
  | item => dump item

def processJsonArray (dump : Json → String) (items : List Json) : String :=
  ",".intercalate (items.map (arrayItem dump))

/-- The key of a member of the object under `parent`. -/
def fullKey (parent key : String) : String := if parent = "" then key else parent ++ "." ++ key

mutual

def processJson (dump : Json → String) : Json → String → ConfigManager → ConfigManager
  | .object fields, key, c => processFields dump fields key c
  | .string s, key, c => c.set key (.string s)
  | .integer n, key, c => c.set key (.integer (Int32.ofInt n))
  | .float bits, key, c => c.set key (.double bits)
  | .boolean b, key, c => c.set key (.boolean b)
  | .array items, key, c => c.set key (.string (processJsonArray dump items))
  | .null, _, c => c

def processFields (dump : Json → String) : List (String × Json) → String → ConfigManager → ConfigManager
  | [], _, c => c
  | (k, value) :: rest, key, c => processFields dump rest key (processJson dump value (fullKey key k) c)

end

namespace ConfigManager

variable (codec : Codec)

def clear (c : ConfigManager) : ConfigManager := { c with values := ∅, layers := ∅ }

def mergeFromJsonString (text : String) : Prog ConfigManager Thrown Unit :=
  match codec.parse text with
  | .error failure => throw failure.rethrown
  | .ok json => modify (processJson codec.dump json "")

def loadFromJsonString (text : String) : Prog ConfigManager Thrown Unit := do
  modify clear
  mergeFromJsonString codec text

end ConfigManager

/-! ## Saving -/

/-- How `serializeToJson` can fail. -/
inductive Fault where
  /-- nlohmann's type_error 305, with the type of the node. -/
  | typeError (typeName : String)
  | undefined
  deriving DecidableEq, Repr

/-- `std::getline` until the end: a separator at the end starts no further part. -/
def splitKey (key : String) : List String :=
  let parts := key.toList.splitOn '.'
  (if parts.getLast? = some [] then parts.dropLast else parts).map String.ofList

def ofValue : ConfigValue → Json
  | .string s => .string s
  | .integer n => .integer n.toInt
  | .boolean b => .boolean b
  | .double bits => .float bits

/-- `(*current)[key] = value`. -/
def assign : Json → String → Json → Except Fault Json
  | .object fields, key, value => .ok (.object (Assoc.put key value fields))
  | .null, key, value => .ok (.object [(key, value)])
  | j, _, _ => .error (.typeError j.typeName)

/-- `&(*current)[key]`, an empty object when it was not there. -/
def descend : Json → String → Except Fault Json
  | .object fields, key => .ok ((fields.lookup key).getD (.object []))
  | .null, _ => .ok (.object [])
  | j, _ => .error (.typeError j.typeName)

def addValue (value : Json) : Json → List String → Except Fault Json
  | _, [] => .error .undefined
  | j, [key] => assign j key value
  | j, key :: rest => do
    let child ← descend j key
    let child ← addValue value child rest
    assign j key child

/-- The loop over `values_`, in the order it is iterated. -/
def addValues : Json → List (String × ConfigValue) → Except Fault Json
  | j, [] => .ok j
  | j, (key, value) :: rest => do
    let j ← addValue (ofValue value) j (splitKey key)
    addValues j rest

def serializeToJson (order : List (String × ConfigValue)) : Except Fault Json := addValues .null order

/-- `toJsonString` of a configuration whose `values_` is iterated as `order`; it calls `dump(4)`. -/
def toJsonString (dump4 : Json → String) (order : List (String × ConfigValue)) : Except Fault String := do
  let json ← serializeToJson order
  pure (dump4 json)

end DockerCpp.Config
