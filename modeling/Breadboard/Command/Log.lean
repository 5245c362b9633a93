import Breadboard.Command.Command

/-!
The record of a run: commands in the order of emission, numbered from zero. A
sealed log takes no more commands. A channel also hands every command to its
listeners, in the order in which they joined.
-/

namespace Breadboard

structure Emitted where
  seq : Nat
  command : Command

structure Log where
  entries : Array Emitted := #[]
  isSealed : Bool := false

namespace Log

def entry? (log : Log) (command : Command) : Option Emitted :=
  if log.isSealed then none else some ⟨log.entries.size, command⟩

def emit (log : Log) (command : Command) : Log :=
  match log.entry? command with
  | some entry => { log with entries := log.entries.push entry }
  | none => log

def emitAll (log : Log) (commands : List Command) : Log := commands.foldl emit log

def close (log : Log) : Log := { log with isSealed := true }

def commands (log : Log) : List Command := log.entries.toList.map Emitted.command

end Log

/-- A log with listeners. The channel counts what it hands out. -/
structure Channel (Listener : Type) where
  log : Log := {}
  next : Nat := 0
  listeners : List Listener := []

namespace Channel

variable {Listener : Type}

def listen (channel : Channel Listener) (listener : Listener) : Channel Listener :=
  { channel with listeners := channel.listeners ++ [listener] }

def entry? (channel : Channel Listener) (command : Command) : Option Emitted :=
  if channel.log.isSealed then none else some ⟨channel.next, command⟩

def deliveries (channel : Channel Listener) (command : Command) : List (Listener × Emitted) :=
  match channel.entry? command with
  | some entry => channel.listeners.map fun listener => (listener, entry)
  | none => []

def emit (channel : Channel Listener) (command : Command) : Channel Listener :=
  match channel.entry? command with
  | some entry =>
      { channel with
        log := { channel.log with entries := channel.log.entries.push entry }
        next := channel.next + 1 }
  | none => channel

def close (channel : Channel Listener) : Channel Listener :=
  { channel with log := channel.log.close }

def reset (channel : Channel Listener) : Channel Listener := { channel with log := {}, next := 0 }

end Channel

end Breadboard
