/-!
# Failures

Two ways in which an operation of the library can end without its value.

A `Failure` is an answer: the input was refused, and the kind of refusal together with its text is
part of the result. A `Breach` is not an answer: some code was called outside its precondition. Code
that can meet either reports an `Abort`, and `Optimizer.guard` is the one place where both are turned
back into an ordinary result.
-/

namespace Placement

/-- Why an operation refused its input. The kinds differ only in how their text is introduced. -/
inductive Failure where
  /-- The problem is structurally invalid. -/
  | validation (text : String)
  /-- An optimizer could not be built. -/
  | construction (text : String)
  /-- A parameter is out of its range or cannot be read. -/
  | configuration (text : String)
  /-- No benchmark instance has this name. -/
  | unknownInstance (name : String)
  /-- The data of an instance could not be read. -/
  | parse (text : String)
  /-- A search went wrong while it ran. -/
  | algorithm (text : String)
  /-- The surrounding system reported an error. -/
  | system (text : String)
  /-- Anything else, in its own words. -/
  | other (text : String)
deriving DecidableEq, Repr

namespace Failure

def message : Failure → String
  | validation text => "Validation error: " ++ text
  | construction text => "Construction error: " ++ text
  | configuration text => "Configuration error: " ++ text
  | unknownInstance name => "Unknown benchmark instance: " ++ name
  | parse text => "Parse error: " ++ text
  | algorithm text => "Algorithm error: " ++ text
  | system text => "I/O error: " ++ text
  | other text => text

/-- Says what was being done when `cause` arose. Its kind is forgotten, its text is kept whole. -/
def context (doing : String) (cause : Failure) : Failure :=
  other (doing ++ ": " ++ cause.message)

end Failure

/-- A broken precondition, with the note left by the code that met it, if it left any. -/
structure Breach where
  note : Option String
deriving DecidableEq, Repr

namespace Breach

def saying (note : String) : Breach := ⟨some note⟩

/-- An index lies outside the values it is meant to address. -/
def outOfBounds : Breach := saying "index out of range"

/-- A product that is to be a machine word is none. -/
def overflow : Breach := saying "attempt to multiply with overflow"

/-- More values are to be stored than can be addressed. -/
def unaddressable : Breach := saying "capacity overflow"

/-- A number was asked for from a range that holds none. -/
def emptyRange : Breach := saying "cannot draw from an empty range"

def message (b : Breach) : String := b.note.getD "unknown panic"

end Breach

/-- The two ways a computation can stop short of its value. -/
inductive Abort where
  | failure (cause : Failure)
  | breach (cause : Breach)
deriving DecidableEq, Repr

namespace Abort

/-- The failure that stands for this end: a breach counts as a fault of the running algorithm. -/
def toFailure : Abort → Failure
  | failure cause => cause
  | breach cause => .algorithm cause.message

end Abort

end Placement
