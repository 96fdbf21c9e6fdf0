/-
  DockerCpp.Core.Logger — the logger (`logger.cpp`, `logger.hpp`), its mutexes aside.

  A sink is a closure of the client or the closure that `addFileSink` makes, which looks
  its path up again in `file_sinks_` for every message. Registrations are the list
  `sinks_`; a stream of `file_sinks_` is only whether it is open. What a call writes is a
  list of outputs.

  A path is its text. `std::filesystem` and the opening of a file may fail: how they do is
  given with the call. So are the clock, the thread, and what the platform prints for them.
-/

import DockerCpp.Lib.Text
import Std.Data.ExtTreeMap

namespace DockerCpp

open Lib

/-! ## Levels and messages -/

inductive LogLevel where
  | trace
  | debug
  | info
  | warning
  | error
  | critical
  deriving DecidableEq, Repr

namespace LogLevel

/-- The underlying value of the enumerator. -/
def toNat : LogLevel → Nat
  | .trace => 0
  | .debug => 1
  | .info => 2
  | .warning => 3
  | .error => 4
  | .critical => 5

instance : LE LogLevel := ⟨fun a b => a.toNat ≤ b.toNat⟩

instance (a b : LogLevel) : Decidable (a ≤ b) := inferInstanceAs (Decidable (a.toNat ≤ b.toNat))

def toString : LogLevel → String
  | .trace => "TRACE"
  | .debug => "DEBUG"
  | .info => "INFO"
  | .warning => "WARNING"
  | .error => "ERROR"
  | .critical => "CRITICAL"

end LogLevel

structure LogMessage where
  level : LogLevel
  message : String
  loggerName : String
  threadId : Nat
  timestamp : Int
  deriving DecidableEq, Repr

/-- What a stream prints for a time point (`%Y-%m-%d %H:%M:%S`, local time) and for a
    thread id. -/
structure Platform where
  putTime : Int → String
  showThread : Nat → String

/-! ## Formatting -/

/-- A `while` over `find`, each occurrence replaced and the search continued behind what was
    put in; an occurrence has two characters, so the length of the text bounds the turns. -/
def replaceTokens (token value : List Char) : (turns pos : Nat) → List Char → List Char
  | 0, _, text => text
  | turns + 1, pos, text =>
    match find token text pos with
    | some found => replaceTokens token value turns (found + value.length) (replace text found 2 value)
    | none => text

def replaceToken (token value : String) (text : List Char) : List Char :=
  replaceTokens token.toList value.toList text.length 0 text

def formatMessage (p : Platform) (pattern : String) (m : LogMessage) : String :=
  .ofList <| pattern.toList
    |> replaceToken "%l" m.level.toString
    |> replaceToken "%n" m.loggerName
    |> replaceToken "%v" m.message
    |> replaceToken "%t" (p.putTime m.timestamp)
    |> replaceToken "%T" (p.showThread m.threadId)

/-- The lambda `format_arg`, on `result` and `pos`. -/
def formatArg (acc : List Char × Nat) (arg : String) : List Char × Nat :=
  match find ['\x7b', '\x7d'] acc.1 acc.2 with
  | some brace => (replace acc.1 brace 2 arg.toList, brace + arg.length)
  | none => acc

/-- The arguments as they are streamed. -/
def formatString (format : String) (args : List String) : String := .ofList (args.foldl formatArg (format.toList, 0)).1

/-! ## The logger -/

/-- A client's closure, or the one of a file sink. -/
inductive LogSink (κ : Type) where
  | custom (sink : κ)
  | file (path : String)
  deriving DecidableEq, Repr

structure SinkInfo (κ : Type) where
  sink : LogSink κ
  level : LogLevel
  deriving DecidableEq, Repr

inductive Output (κ : Type) where
  | console (line : String)
  | custom (sink : κ) (message : LogMessage)
  | file (path line : String)
  deriving DecidableEq, Repr

structure Logger (κ : Type) where
  name : String
  level : LogLevel := .info
  pattern : String := "[%l] %n: %v"
  consoleSinkEnabled : Bool := true
  sinks : List (SinkInfo κ) := []
  /-- Whether the stream of a path is open. -/
  fileSinks : Std.ExtTreeMap String Bool := ∅

/-- How the file system answers `addFileSink`. -/
structure Opening where
  /-- What the check and creation of the directory throw. -/
  directory : Option String := none
  opens : Bool := true
  deriving DecidableEq, Repr

namespace Logger

variable {κ : Type}

def isLevelEnabled (l : Logger κ) (level : LogLevel) : Bool := l.level ≤ level

def addSink (l : Logger κ) (sink : LogSink κ) (level : LogLevel) : Logger κ :=
  { l with sinks := l.sinks ++ [⟨sink, level⟩] }

/-- A stream that is there is used again, open or not. -/
def addFileSink (l : Logger κ) (path : String) (level : LogLevel) (o : Opening) : Except String Unit × Logger κ :=
  match o.directory with
  | some text => (.error text, l)
  | none =>
    if l.fileSinks.contains path then (.ok (), l.addSink (.file path) level)
    else if o.opens then (.ok (), { l with fileSinks := l.fileSinks.insert path true }.addSink (.file path) level)
    else (.error ("Failed to open log file: " ++ path), { l with fileSinks := l.fileSinks.insert path false })

def removeFileSink (l : Logger κ) (path : String) : Logger κ :=
  { l with sinks := [], fileSinks := l.fileSinks.erase path }

def clearSinks (l : Logger κ) : Logger κ := { l with sinks := [], fileSinks := ∅ }

variable (p : Platform)

def logToFile (l : Logger κ) (path : String) (m : LogMessage) : List (Output κ) :=
  if l.fileSinks[path]? = some true then [.file path (formatMessage p l.pattern m)] else []

/-- The call of a sink's closure. -/
def callSink (l : Logger κ) (m : LogMessage) : LogSink κ → List (Output κ)
  | .custom sink => [.custom sink m]
  | .file path => l.logToFile p path m

def log (l : Logger κ) (level : LogLevel) (message : String) (thread : Nat) (now : Int) : List (Output κ) :=
  if l.isLevelEnabled level then
    let m : LogMessage := ⟨level, message, l.name, thread, now⟩
    (if l.consoleSinkEnabled then [.console (formatMessage p l.pattern m)] else []) ++
      l.sinks.flatMap fun s => if s.level ≤ level then l.callSink p m s.sink else []
  else []

/-- The body of the six functions that clients log with. -/
def write (level : LogLevel) (l : Logger κ) (format : String) (args : List String) (thread : Nat) (now : Int) :
    List (Output κ) :=
  if l.isLevelEnabled level then l.log p level (formatString format args) thread now else []

def trace : Logger κ → String → List String → Nat → Int → List (Output κ) := write p .trace

def debug : Logger κ → String → List String → Nat → Int → List (Output κ) := write p .debug

def info : Logger κ → String → List String → Nat → Int → List (Output κ) := write p .info

def warning : Logger κ → String → List String → Nat → Int → List (Output κ) := write p .warning

def error : Logger κ → String → List String → Nat → Int → List (Output κ) := write p .error

def critical : Logger κ → String → List String → Nat → Int → List (Output κ) := write p .critical

end Logger

end DockerCpp
