import LatticeGreen.Text.LetterCase

/-!
# Log records

A computation reports what it noticed as data: events in order beside its value. Which of them are
written is decided by the level of a logger, never by the computation.
-/
namespace LatticeGreen

/-- The severities, weakest first. -/
inductive Level where
  | spam | debug | verbose | info | notice | warning | success | error | critical
  deriving DecidableEq, Repr

namespace Level

def all : List Level := [spam, debug, verbose, info, notice, warning, success, error, critical]

def name : Level → String
  | spam => "SPAM" | debug => "DEBUG" | verbose => "VERBOSE" | info => "INFO"
  | notice => "NOTICE" | warning => "WARNING" | success => "SUCCESS" | error => "ERROR"
  | critical => "CRITICAL"

def severity : Level → Int
  | spam => 5 | debug => 10 | verbose => 15 | info => 20 | notice => 25 | warning => 30
  | success => 35 | error => 40 | critical => 50

/-- The severity a name stands for, in any case. Two levels have a second name, and `NOTSET` is the
absence of a level. -/
def severityOfName? (text : String) : Option Int :=
  match String.ofList (Text.latinUpper text.toList) with
  | "NOTSET" => some 0
  | "WARN" => some 30
  | "FATAL" => some 50
  | upper => (all.find? (·.name == upper)).map severity

end Level

/-- What a computation can notice. -/
inductive Event (R : Type) where
  | sumNotConverged (description : String) (shells cells : Int)
  | powerSeriesNotConverged
  | continuedFractionNotConverged
  | asymptoticSeriesNotConverged
  | transformNotConverged
  /-- At a distance from a source the whole kernel and its short-range half, of these sizes, leave a
  difference of this size. -/
  | precisionLost (distance whole short difference : R)
  | splittingChosen
  | singularSum
  | stillSingular
  | evaluationStarted (name : String) (points dimension : Nat) (symmetry : String)
  | evaluationFailed
  | evaluationFinished
  | deviationMeasured
  deriving Repr

namespace Event
variable {R : Type}

instance (event : Event R) : Decidable (event = .stillSingular) :=
  match event with
  | .stillSingular => isTrue rfl
  | .sumNotConverged .. | .powerSeriesNotConverged | .continuedFractionNotConverged
  | .asymptoticSeriesNotConverged | .transformNotConverged | .precisionLost .. | .splittingChosen
  | .singularSum | .evaluationStarted .. | .evaluationFailed | .evaluationFinished
  | .deviationMeasured => isFalse nofun

def level : Event R → Level
  | sumNotConverged .. => .warning
  | powerSeriesNotConverged => .warning
  | continuedFractionNotConverged => .warning
  | asymptoticSeriesNotConverged => .warning
  | transformNotConverged => .warning
  | precisionLost .. => .warning
  | splittingChosen => .debug
  | singularSum => .notice
  | stillSingular => .warning
  | evaluationStarted .. => .info
  | evaluationFailed => .error
  | evaluationFinished => .success
  | deviationMeasured => .info

/-- The text of a record, without its measured quantities. -/
def text : Event R → String
  | sumNotConverged description shells cells =>
    s!"{description} not converged after {shells} shells ({cells} cells)"
  | powerSeriesNotConverged => "potentially large error in power series for E1"
  | continuedFractionNotConverged => "potentially large error in continued fraction for E1"
  | asymptoticSeriesNotConverged => "potentially large error in asymptotic series for E1"
  | transformNotConverged => "potential nonconvergence in 1D long-range transform"
  | precisionLost .. => "loss of precision (r) in real-space long-range term"
  | splittingChosen => "splitting parameter E = (value) for k = (value)"
  | singularSum => "singular distant sum at R=(x, y, z), retrying with P[0] shifted"
  | stillSingular => "distant sum still singular at R=(x, y, z); the result is a partial sum"
  | evaluationStarted name points dimension symmetry =>
    s!"evaluating {name} at {points} points on a {dimension}D {symmetry} lattice"
  | evaluationFailed => "Unexpected exception in evaluation step"
  | evaluationFinished => "Green's function evaluated in (seconds)"
  | deviationMeasured => "E = (value): maximum relative deviation"

end Event

/-- A value and the events of its computation, in order. -/
@[ext] structure Logged (R α : Type) where
  value : α
  events : List (Event R)

namespace Logged
variable {R : Type}

instance : Monad (Logged R) where
  pure a := ⟨a, []⟩
  bind x f :=
    let y := f x.value
    ⟨y.value, x.events ++ y.events⟩

/-- Leaves one event. -/
def note (event : Event R) : Logged R Unit := ⟨(), [event]⟩

/-- Leaves the event if the condition holds. -/
def noteIf (condition : Bool) (event : Event R) : Logged R Unit :=
  if condition then note event else pure ()

@[simp] theorem value_pure {α : Type} (a : α) : (pure a : Logged R α).value = a := rfl
@[simp] theorem events_pure {α : Type} (a : α) : (pure a : Logged R α).events = [] := rfl

@[simp] theorem value_bind {α β : Type} (x : Logged R α) (f : α → Logged R β) :
    (x >>= f).value = (f x.value).value := rfl

@[simp] theorem events_bind {α β : Type} (x : Logged R α) (f : α → Logged R β) :
    (x >>= f).events = x.events ++ (f x.value).events := rfl

instance : LawfulMonad (Logged R) := LawfulMonad.mk' (Logged R)
  (fun x => congrArg (Logged.mk x.value) (List.append_nil x.events))
  (fun _ _ => rfl)
  (fun x f g => congrArg (Logged.mk (x >>= f >>= g).value)
    (List.append_assoc x.events (f x.value).events (g (f x.value).value).events))

end Logged

/-- A logger writes the records at or above its level; without a level of its own the parent's,
`WARNING`, counts. -/
structure Logger where
  severity : Int := Level.info.severity
  deriving DecidableEq, Repr

namespace Logger

def threshold (logger : Logger) : Int :=
  if logger.severity = 0 then Level.warning.severity else logger.severity

def writes (logger : Logger) (level : Level) : Bool := logger.threshold ≤ level.severity

/-- The records that are written, as level name and text. -/
def records {R : Type} (logger : Logger) (events : List (Event R)) : List (String × String) :=
  (events.filter (logger.writes ·.level)).map fun event => (event.level.name, event.text)

end Logger

end LatticeGreen
