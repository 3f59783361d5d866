import Arbor.Evaluator.Backend

/-!
# Hosts

What the program needs from the machine that it runs on: a backend for its evaluators, and as
actions in a monad files, a clock and two streams of text.
-/

namespace Arbor

structure Host (m : Type → Type) where
  backend : Evaluator.Backend := .standard
  /-- The contents of a file. -/
  read : String → m (Except IoFault (List UInt8))
  /-- Creates or replaces a file. -/
  write : String → List UInt8 → m (Except IoFault Unit)
  /-- Creates a directory and those above it that are missing. -/
  makeDirs : String → m (Except IoFault Unit)
  /-- Moves a file, in place of one that is there. -/
  rename : String → String → m (Except IoFault Unit)
  /-- A text that no other call of a process with the same files returns. -/
  fresh : m String
  /-- Nanoseconds since some moment. -/
  clock : m Nat
  /-- Prints text on the standard output. -/
  out : String → m Unit
  /-- Prints text on the standard error stream. -/
  err : String → m Unit

/-- A fresh text, from the number of a process and how many it took before. -/
def uniqueText (process count : Nat) : String := toString process ++ "." ++ toString count

def Host.readText {m : Type → Type} [Monad m] (host : Host m) (path : String) :
    m (Except IoFault String) := do
  match ← host.read path with
  | .error cause => return .error cause
  | .ok bytes =>
    match String.fromUTF8? (ByteArray.mk bytes.toArray) with
    | none => return .error .notText
    | some text => return .ok text

end Arbor
