import RuleTable.Text.Listed
import RuleTable.Text.Quoted

/-!
What can be wrong with a rule table: one constructor for every cause, the class each belongs to, and
the words it is reported in.
-/

namespace RuleTable

open Text

/-- The class of a failure. -/
inductive Kind
  /-- a name or a position that is not in scope -/
  | undefinedReference
  /-- directions out of sequence or repeated, directives in the wrong place -/
  | syntaxInconsistency
  /-- states outside their range, mappings that are too short, bad bounds -/
  | valueRange
  /-- symmetries and neighborhoods that do not fit together -/
  | geometry
  /-- constructs that have no meaning where they stand -/
  | unsupported
  /-- a class known by its number only -/
  | other (code : Int)
  deriving DecidableEq, Repr

def Kind.name : Kind → String
  | .undefinedReference => "UndefinedReference"
  | .syntaxInconsistency => "SyntaxInconsistency"
  | .valueRange => "ValueRangeError"
  | .geometry => "GeometryError"
  | .unsupported => "UnsupportedFeature"
  | .other code => s!"Kind({code})"

def Kind.ofCode (code : Int) : Kind :=
  if code = 1 then .undefinedReference
  else if code = 2 then .syntaxInconsistency
  else if code = 3 then .valueRange
  else if code = 4 then .geometry
  else if code = 5 then .unsupported
  else .other code

def Kind.code : Kind → Int
  | .undefinedReference => 1
  | .syntaxInconsistency => 2
  | .valueRange => 3
  | .geometry => 4
  | .unsupported => 5
  | .other code => code

/-- A single reason to refuse something. -/
inductive Cause
  -- directions and neighborhoods
  | unknownDirection (label : String)
  | unknownNeighborhood (name : String)
  | neighborhoodSize (size : Nat)
  | invalidNeighbor (label : String)
  | repeatedNeighbor (label : String)
  | unsupportedShape (labels : List String)
  | positionOutside (position : Int) (neighborhood : String)
  | rotationCount (neighborhood : String) (size : Nat) (ways : Int)
  | axisOffCompass (a b : String)
  | axisCrooked (a b : String)
  | axisAsymmetric (neighborhood a b : String)
  | notAPosition (label neighborhood : String)
  | repeatedDirection (label : String)
  -- symmetries
  | noSymmetries
  | mixedNeighborhoods (name found expected : String)
  | unsupportedSymmetry (name neighborhood : String)
  | unknownSymmetryOperator (op : String)
  | rotateArguments
  | rotationNotInteger (argument : String)
  | reflectArguments
  -- states and variables
  | notAState (raw : String)
  | stateOutside (raw : String) (greatest : Int)
  | operandNotInteger
  | notAnInteger (raw : String)
  | strayEllipsis
  | undefinedVariable (name : String)
  | emptySet
  | reversedRange (lo hi : Int)
  | emptyComplement
  | referenceAsStates
  | boundsNotInteger
  | repeatCount (count : Int)
  | nothingLeft
  | unknownOperator (op : String)
  | alreadyDeclared (name : String)
  | generatedName (name : String)
  | emptyVariable (name : String)
  -- resolving a slot
  | untransformable (op : String)
  | absentCell
  | emptyTarget
  | shortTarget (target : List Int) (needed : Nat)
  | noStateLeft (states removed : List Int)
  | circularReference (slot : Nat)
  | notANapkinSlot (slot : Int)
  | freeResultant (name : String)
  -- laying out a transition
  | directionGiven (label : String)
  | outOfSequence (label expected : String)
  | backwardRange (first last : String)
  | tooManyTerms (neighborhood : String) (size : Nat)
  | napkinGap (given size : Nat) (neighborhood : String)
  | foreignReference (label neighborhood : String)
  | bindInstead (op target : String)
  | needsGeometric (symmetry : String)
  | notVisible (source target : String)
  -- directives
  | needsNeighborhood
  | statesTooLate
  | stateCount (value : String) (most : Nat)
  | neighborhoodFixed
  | unknownDirective (name : String)
  -- the interchange form
  | missingValue
  | ellipsisInside
  | expressionKeys (count : Nat)
  | unexpectedType (type : String)
  | unknownExpression (key : String)
  | needsTwoOperands (key : String)
  | unknownStatement
  | undecodable
  -- words of another origin
  | text (words : String)
  deriving DecidableEq, Repr

/-- The class of a cause. Words of another origin, and causes that say nothing about where they
arose, take the class of the place that reports them. -/
def Cause.kind (place : Kind) : Cause → Kind
  | .unknownDirection _ | .circularReference _ | .needsNeighborhood | .undecodable | .text _ =>
    place
  | .positionOutside .. | .undefinedVariable _ | .notANapkinSlot _ | .foreignReference .. |
    .notVisible .. => .undefinedReference
  | .unknownNeighborhood _ | .neighborhoodSize _ | .unsupportedShape _ | .rotationCount .. |
    .axisCrooked .. | .axisAsymmetric .. | .mixedNeighborhoods .. | .unsupportedSymmetry .. =>
    .geometry
  | .rotationNotInteger _ | .notAState _ | .stateOutside .. | .operandNotInteger | .notAnInteger _ |
    .strayEllipsis | .emptySet | .reversedRange .. | .emptyComplement | .boundsNotInteger |
    .repeatCount _ | .nothingLeft | .emptyVariable _ | .emptyTarget | .shortTarget .. |
    .noStateLeft .. | .stateCount .. => .valueRange
  | .referenceAsStates | .unknownOperator _ | .untransformable _ | .absentCell |
    .freeResultant _ | .bindInstead .. | .needsGeometric _ => .unsupported
  | .invalidNeighbor _ | .repeatedNeighbor _ | .axisOffCompass .. | .notAPosition .. |
    .repeatedDirection _ | .noSymmetries | .unknownSymmetryOperator _ | .rotateArguments |
    .reflectArguments | .alreadyDeclared _ | .generatedName _ | .directionGiven _ |
    .outOfSequence .. | .backwardRange .. | .tooManyTerms .. | .napkinGap .. | .statesTooLate |
    .neighborhoodFixed | .unknownDirective _ | .missingValue | .ellipsisInside |
    .expressionKeys _ | .unexpectedType _ | .unknownExpression _ | .needsTwoOperands _ |
    .unknownStatement => .syntaxInconsistency

/-- The words a cause is reported in. -/
def Cause.message : Cause → String
  | .unknownDirection label => s!"unknown compass direction {quoted label}"
  | .unknownNeighborhood name => s!"unknown neighborhood {quoted name}"
  | .neighborhoodSize size => s!"neighborhood must have 2, 4, 6 or 8 directions, got {size}"
  | .invalidNeighbor label => s!"invalid neighborhood direction {quoted label}"
  | .repeatedNeighbor label => s!"duplicate neighborhood direction {label}"
  | .unsupportedShape labels =>
    s!"directions {bracketed labels} do not form a supported neighborhood"
  | .positionOutside position neighborhood =>
    s!"position {position} is outside the {neighborhood} neighborhood"
  | .rotationCount neighborhood size ways =>
    s!"{neighborhood} neighborhood of size {size} cannot be rotated {ways} ways"
  | .axisOffCompass a b => s!"reflection axis {a}-{b} must use compass directions"
  | .axisCrooked a b => s!"{a} and {b} are neither adjacent nor opposite"
  | .axisAsymmetric neighborhood a b =>
    s!"{neighborhood} neighborhood is not symmetric across {a}-{b}"
  | .notAPosition label neighborhood | .foreignReference label neighborhood =>
    s!"{label} is not part of the {neighborhood} neighborhood"
  | .repeatedDirection label => s!"duplicate direction {label}"
  | .noSymmetries => "no symmetry types given"
  | .mixedNeighborhoods name found expected =>
    s!"symmetry {name} is bound to {found}, not {expected}"
  | .unsupportedSymmetry name neighborhood =>
    s!"symmetry {quoted name} is not supported by the {neighborhood} neighborhood"
  | .unknownSymmetryOperator op => s!"unknown symmetry operator {quoted op}"
  | .rotateArguments => "rotate takes one argument"
  | .rotationNotInteger argument => s!"{quoted argument} is not an integer rotation count"
  | .reflectArguments => "reflect takes one or two compass directions"
  | .notAState raw => s!"{quoted raw} is not an integer state"
  | .stateOutside raw greatest => s!"state {quoted raw} is outside 0..{greatest}"
  | .operandNotInteger => "expected an integer operand"
  | .notAnInteger raw => s!"{quoted raw} is not an integer"
  | .strayEllipsis => "an ellipsis is only allowed at the end of a mapping target"
  | .undefinedVariable name => s!"undefined variable {quoted name}"
  | .emptySet => "empty state set"
  | .reversedRange lo hi => s!"range {lo}..{hi} has its bounds reversed"
  | .emptyComplement => "complement is empty"
  | .referenceAsStates => "a reference cannot be used as a state list"
  | .boundsNotInteger => "range bounds must be integer states"
  | .repeatCount count => s!"repeat count {count} must be positive"
  | .nothingLeft => "subtraction leaves no states"
  | .unknownOperator op => s!"unknown operator {quoted op}"
  | .alreadyDeclared name => s!"variable {quoted name} is already declared"
  | .generatedName name => s!"variable {quoted name} collides with a generated name"
  | .emptyVariable name => s!"variable {quoted name} is empty"
  | .untransformable op => s!"operator {op} cannot transform a reference"
  | .absentCell => "unknown cell <nil>"
  | .emptyTarget => "mapping target is empty"
  | .shortTarget target needed =>
    s!"mapping target {braced target} has {target.length} states but the referenced variable " ++
      s!"has {needed}; end it with ... to repeat the last state"
  | .noStateLeft states removed => s!"{braced states} - {braced removed} leaves no state"
  | .circularReference slot => s!"slot {slot} refers back to itself: circular reference"
  | .notANapkinSlot slot => s!"slot {slot} is not a napkin position"
  | .freeResultant name =>
    s!"the resultant cannot be the free variable {name}; bind it to a napkin position"
  | .directionGiven label => s!"direction {label} is already given"
  | .outOfSequence label expected => s!"direction {label} is out of sequence; expected {expected}"
  | .backwardRange first last => s!"range {first}..{last} runs against the neighborhood order"
  | .tooManyTerms neighborhood size => s!"the {neighborhood} neighborhood has only {size} positions"
  | .napkinGap given size neighborhood =>
    s!"napkin gives {given} of the {size} positions of the {neighborhood} neighborhood"
  | .bindInstead op target =>
    s!"operator {op} cannot transform a reference; bind it with [{target}] instead"
  | .needsGeometric symmetry => s!"auxiliary transitions need a geometric symmetry, not {symmetry}"
  | .notVisible source target => s!"{source} is not visible from the cell at {target}"
  | .needsNeighborhood => "no neighborhood declared"
  | .statesTooLate => "n_states must come before any variable or transition"
  | .stateCount value most => s!"n_states {quoted value} must be an integer in 1..{most}"
  | .neighborhoodFixed => "the neighborhood cannot change after transitions"
  | .unknownDirective name => s!"unknown directive {quoted name}"
  | .missingValue => "missing value"
  | .ellipsisInside => "an ellipsis must end the set"
  | .expressionKeys count => s!"an expression map needs exactly one key, got {count}"
  | .unexpectedType type => s!"unexpected {type} in expression"
  | .unknownExpression key => s!"unknown operator {quoted key}"
  | .needsTwoOperands key => s!"{key} takes two operands"
  | .unknownStatement => "statement is neither a directive, a variable nor a transition"
  | .undecodable => "<decode>"
  | .text words => words

end RuleTable
