import RuleTable.Cause

/-!
Failures: a cause with its class and its place in the source, the context it passed through on its
way out, and the computations that end in one.
-/

namespace RuleTable

open Text

/-- A place in the source: a line and the columns from `start` to `stop`. All zero means nowhere. -/
structure Span where
  line : Int := 0
  start : Int := 0
  stop : Int := 0
  deriving DecidableEq, Repr, Inhabited

def Span.nowhere : Span := ⟨0, 0, 0⟩

def Span.isNowhere (s : Span) : Bool := s = .nowhere

def Span.text (s : Span) : String := s!"{s.line}:{s.start}"

/-- A cause, its class and its place. -/
structure Diagnostic where
  kind : Kind
  span : Span
  cause : Cause
  deriving DecidableEq, Repr

/-- The diagnostic on one line: place, class and words. -/
def Diagnostic.message (d : Diagnostic) : String :=
  if d.span.isNowhere then s!"{d.kind.name}: {d.cause.message}"
  else s!"{d.span.text}: {d.kind.name}: {d.cause.message}"

/-- Where a failure passed through. -/
inductive Context
  | tableSection (name : String)
  | neighborhood
  | parsing
  | decoding
  | reading
  | readingSettings
  | parsingSettings (path : String)
  | environment
  | creatingOutput
  | closingOutput
  deriving DecidableEq, Repr

/-- The words a context puts in front of the failures inside it. -/
def Context.message : Context → String
  | .tableSection name => s!"section {quoted name}"
  | .neighborhood => "invalid neighborhood"
  | .parsing => "failed to parse rule file"
  | .decoding => "failed to decode rule file"
  | .reading => "failed to read rule file"
  | .readingSettings => "failed to read config"
  | .parsingSettings path => s!"failed to parse {path}"
  | .environment => "parse env"
  | .creatingOutput => "failed to create output"
  | .closingOutput => "failed to close output"

inductive Failure
  /-- words alone -/
  | bare (cause : Cause)
  /-- a cause with class and place -/
  | diagnosed (d : Diagnostic)
  /-- a failure inside a larger task -/
  | within (context : Context) (inner : Failure)
  deriving DecidableEq, Repr

namespace Failure

/-- A cause of a class of its own, at a place. -/
def of (span : Span) (cause : Cause) : Failure :=
  .diagnosed ⟨cause.kind (.other 0), span, cause⟩

def message : Failure → String
  | .bare cause => cause.message
  | .diagnosed d => d.message
  | .within context inner => s!"{context.message}: {inner.message}"

def diagnostic? : Failure → Option Diagnostic
  | .bare _ => none
  | .diagnosed d => some d
  | .within _ inner => inner.diagnostic?

def cause : Failure → Cause
  | .bare cause => cause
  | .diagnosed d => d.cause
  | .within _ inner => inner.cause

def kind? (f : Failure) : Option Kind := f.diagnostic?.map (·.kind)

/-- The class of a failure, class 0 if it has none. -/
def kind (f : Failure) : Kind := f.kind?.getD (.other 0)

/-- Gives a failure a place. A diagnostic that has one keeps it; one that has none takes this one
and leaves its context behind; bare words become a diagnostic of the given class. -/
def locate (kind : Kind) (span : Span) (f : Failure) : Failure :=
  match f.diagnostic? with
  | some d => if d.span.isNowhere then .diagnosed { d with span := span } else f
  | none =>
    match f with
    | .bare cause => .diagnosed ⟨kind, span, cause⟩
    | _ => .diagnosed ⟨kind, span, .text f.message⟩

/-- Several failures as one text: a single one speaks for itself, others are numbered. -/
def aggregate : List Failure → String
  | [f] => f.message
  | fs => s!"{fs.length} errors:\n" ++
    String.join (fs.zipIdx.map fun (f, i) => s!"  {i + 1}. {f.message}\n")

end Failure

/-- How a computation ends without a result. -/
inductive Stop
  /-- it is refused, for a reason that can be reported -/
  | refused (f : Failure)
  /-- it asks for something that is not there: an operand left out, a position outside a list, a
  list of impossible length -/
  | crash
  deriving DecidableEq, Repr

abbrev Outcome := Except Stop

instance : MonadLift (Except Failure) Outcome where
  monadLift
    | .ok a => .ok a
    | .error f => .error (.refused f)

instance [Monad m] : MonadLift Outcome (ExceptT Stop m) where
  monadLift x := ExceptT.mk (pure x)

instance [Monad m] : MonadLift (Except Failure) (ExceptT Stop m) where
  monadLift
    | .ok a => ExceptT.mk (pure (.ok a))
    | .error f => ExceptT.mk (pure (.error (.refused f)))

/-- Refuses for a cause of a class of its own, at a place. -/
def refuse [MonadExceptOf Stop m] (span : Span) (cause : Cause) : m α :=
  throw (.refused (.of span cause))

/-- Gives the failures of a computation a place. -/
def locating [Monad m] [MonadExceptOf Stop m] (kind : Kind) (span : Span) (act : m α) : m α :=
  tryCatch act fun
    | .refused f => throw (.refused (f.locate kind span))
    | .crash => throw .crash

end RuleTable
