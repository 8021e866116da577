/-
  HybridAccess — log events.

  What is worth telling is returned as a value beside the result of an
  operation. Each kind of event is a type of its own with a level and a
  message; `Entry` is the common form in which all of them are reported.

  `Entry.line` is the line of an event. Characters that a terminal acts on are
  spelled out in it, so that no message can change what is shown.
-/
import HybridAccess.Bytes

namespace HybridAccess.Log

/-- How important an event is. -/
inductive Level
  | error
  | warn
  | info
  | debug
  | trace
deriving DecidableEq, Repr

namespace Level

/-- The name under which a level is reported. -/
def name : Level → String
  | error => "ERROR"
  | warn => "WARN"
  | info => "INFO"
  | debug => "DEBUG"
  | trace => "TRACE"

/-- The word that selects a level in a configuration. -/
def word : Level → String
  | error => "error"
  | warn => "warn"
  | info => "info"
  | debug => "debug"
  | trace => "trace"

/-- All levels, the most important first. -/
def all : List Level :=
  [error, warn, info, debug, trace]

/-- The level that a word selects. -/
def ofWord? (text : String) : Option Level :=
  all.find? (·.word == text)

/-- The place of a level among `all`. -/
def rank : Level → Nat
  | error => 0
  | warn => 1
  | info => 2
  | debug => 3
  | trace => 4

end Level

/-- An event as it is reported. -/
structure Entry where
  level : Level
  message : String
deriving DecidableEq, Repr

/-- Whether a terminal acts on a character. Line feeds, tabs and a few more are let through. -/
def isActive (c : Char) : Bool :=
  c.toNat ∈ [0x07, 0x08, 0x0C, 0x1B, 0x7F] || 0x80 ≤ c.toNat && c.toNat ≤ 0x9F

/-- A character as it is shown in a log: one that a terminal acts on by its number. -/
def shown (c : Char) : String :=
  if ! isActive c then c.toString
  else
    let number := Bytes.hexPair (UInt8.ofNat c.toNat)
    if c.toNat < 0x80 then "\\x" ++ number else "\\u\x7b" ++ number ++ "\x7d"

/-- The line of an event. -/
def Entry.line (e : Entry) : String :=
  e.level.name ++ " " ++ String.join (e.message.toList.map shown)

/-- The events that a log set to `level` keeps. -/
def upTo (level : Level) (entries : List Entry) : List Entry :=
  entries.filter (·.level.rank ≤ level.rank)

end HybridAccess.Log
