import RuleTable.Decimal.Read
import RuleTable.Decimal.Shortest
import RuleTable.Text.Listed
import RuleTable.Text.Numeral
import RuleTable.Yaml.Moment
import RuleTable.Yaml.Node

/-!
The values that a YAML tree stands for: what plain scalars mean, mappings with distinct keys, and a
text for every value.
-/

namespace RuleTable.Yaml

open Text

/-- A value. -/
inductive Datum
  | null
  | bool (b : Bool)
  /-- a whole number from -2^63 to 2^64 - 1 -/
  | int (n : Int)
  | float (x : Float)
  | text (s : String)
  | date (m : Moment)
  | list (items : List Datum)
  | map (pairs : List (Datum × Datum))
  deriving Repr, Inhabited

/-- A whole number in a base that was announced before its sign. -/
def based? (base : Nat) (cs : List Char) : Option Int :=
  let (negative, digits) := match cs with
    | '-' :: ds => (true, ds)
    | '+' :: ds => (false, ds)
    | ds => (false, ds)
  if digits.isEmpty then none else (signed negative (readDigits base false 0 digits)).toOption

/-- A whole number: underscores do not count, the leading digits choose the base, and what is too
large for a signed word may still fit an unsigned one. -/
def whole? (cs : List Char) : Option Int :=
  match readSigned .literal cs, readUnsigned .literal cs with
  | .ok n, _ => some n
  | .error _, .ok n => some n
  | .error _, .error _ => none

/-- What a plain scalar means that starts with a digit or a sign. -/
def numeric? (cs : List Char) : Option Datum :=
  let plain := cs.filter (· != '_')
  match Moment.read? cs, whole? plain, Decimal.read? plain with
  | some m, _, _ => some (.date m)
  | none, some n, _ => some (.int n)
  | none, none, some x => some (.float x)
  | none, none, none =>
    match plain with
    | '0' :: 'b' :: digits => (based? 2 digits).map .int
    | '0' :: 'o' :: digits => (based? 8 digits).map .int
    | _ => none

/-- What a plain scalar means that starts with a point. -/
def fraction? (cs : List Char) : Option Datum :=
  if cs.contains '_' && !underscoresOk cs then none
  else (Decimal.read? (cs.filter (· != '_'))).map .float

namespace Datum

/-- The words that are not text. -/
def words : List (String × Datum) :=
  let infinity : Float := 1.0 / 0.0
  [("", .null), ("~", .null), ("null", .null), ("Null", .null), ("NULL", .null),
    ("true", .bool true), ("True", .bool true), ("TRUE", .bool true),
    ("false", .bool false), ("False", .bool false), ("FALSE", .bool false),
    (".nan", .float (0.0 / 0.0)), (".NaN", .float (0.0 / 0.0)), (".NAN", .float (0.0 / 0.0)),
    (".inf", .float infinity), (".Inf", .float infinity), (".INF", .float infinity),
    ("+.inf", .float infinity), ("+.Inf", .float infinity), ("+.INF", .float infinity),
    ("-.inf", .float (-infinity)), ("-.Inf", .float (-infinity)), ("-.INF", .float (-infinity))]

/-- What a plain scalar means. -/
def ofPlain (s : String) : Datum :=
  match words.lookup s with
  | some d => d
  | none =>
    let meaning := match s.toList with
      | [] => none
      | c :: cs =>
        if Decimal.isDigit c || c == '+' || c == '-' then numeric? (c :: cs)
        else if c == '.' then fraction? (c :: cs)
        else none
    meaning.getD (.text s)

def isText : Datum → Bool
  | .text _ => true
  | _ => false

/-- The value can be a key: it is not a collection. -/
def isSimple : Datum → Bool
  | .list _ | .map _ => false
  | _ => true

def sameKey : Datum → Datum → Bool
  | .null, .null => true
  | .bool a, .bool b => a == b
  | .int a, .int b => a == b
  | .float a, .float b => a == b
  | .text a, .text b => a == b
  | .date a, .date b => a == b
  | _, _ => false

end Datum

namespace Node

/-- Two keys that must not stand in one mapping: of one form, and with the same text if they are
scalars. -/
def clashes : Node → Node → Bool
  | .scalar a _ _, .scalar b _ _ => a == b
  | .sequence .., .sequence .. | .mapping .., .mapping .. => true
  | _, _ => false

def anyClash : List Node → Bool
  | [] => false
  | k :: ks => ks.any k.clashes || anyClash ks

/-- The key under which a mapping takes over the pairs of others. -/
def isMerge : Node → Bool
  | .scalar "<<" true _ => true
  | _ => false

end Node

def Datum.ownPairs? : Datum → Option (List (Datum × Datum))
  | .map pairs => some pairs
  | _ => none

/-- The pairs of a mapping, or of a list of mappings, that another mapping takes over. -/
def Datum.pairs? : Datum → Option (List (Datum × Datum))
  | .list items => (items.mapM Datum.ownPairs?).map List.flatten
  | d => d.ownPairs?

def addPairs (pairs : List (Datum × Datum)) : List (Datum × Datum) → List (Datum × Datum)
  | [] => pairs
  | (k, v) :: rest =>
    if pairs.any fun (k', _) => k'.sameKey k then addPairs pairs rest
    else addPairs (pairs ++ [(k, v)]) rest

mutual

/-- The value that a tree stands for. Mappings with clashing keys, or with collections for keys,
stand for none. -/
def Datum.ofNode? : Node → Option Datum
  | .scalar s plain _ => some (if plain then .ofPlain s else .text s)
  | .sequence items _ => (Datum.ofNodes? items).map .list
  | .mapping pairs _ =>
    if Node.anyClash (pairs.map (·.1)) then none
    else
      match Datum.ofPairs? pairs with
      | none => none
      | some (own, taken) => some (.map (addPairs own taken))

def Datum.ofNodes? : List Node → Option (List Datum)
  | [] => some []
  | n :: ns =>
    match Datum.ofNode? n, Datum.ofNodes? ns with
    | some d, some ds => some (d :: ds)
    | _, _ => none

/-- The pairs of a mapping, and those it takes over from others. -/
def Datum.ofPairs? : List (Node × Node) → Option (List (Datum × Datum) × List (Datum × Datum))
  | [] => some ([], [])
  | (k, v) :: rest =>
    match Datum.ofNode? k, Datum.ofNode? v, Datum.ofPairs? rest with
    | some key, some value, some (own, taken) =>
      if k.isMerge then
        match value.pairs? with
        | some more => some (own, taken ++ more)
        | none => none
      else if key.isSimple then some ((key, value) :: own, taken)
      else none
    | _, _, _ => none

end

namespace Datum

/-- The order in which kinds of keys are listed. -/
def keyRank : Datum → Nat
  | .null => 0
  | .bool _ => 1
  | .int n => if n < signedBound then 2 else 3
  | .float _ => 4
  | .text _ => 5
  | _ => 6

def keyLe : Datum → Datum → Bool
  | .bool a, .bool b => !a || b
  | .int a, .int b => a ≤ b
  | .float a, .float b => a.isNaN || a ≤ b
  | .text a, .text b => a ≤ b
  | a, b => a.keyRank ≤ b.keyRank

mutual

/-- The value as text: lists in brackets, mappings with their keys in order. -/
def shown : Datum → String
  | .null => "<nil>"
  | .bool b => if b then "true" else "false"
  | .int n => toString n
  | .float x => Decimal.general x
  | .text s => s
  | .date m => m.text
  | .list items => bracketed (shownItems items)
  | .map pairs =>
    "map" ++ bracketed (((shownPairs pairs).mergeSort fun a b => a.1.keyLe b.1).map (·.2))

def shownItems : List Datum → List String
  | [] => []
  | d :: ds => shown d :: shownItems ds

def shownPairs : List (Datum × Datum) → List (Datum × String)
  | [] => []
  | (k, v) :: rest => (k, shown k ++ ":" ++ shown v) :: shownPairs rest

end

/-- The kind of a value, as it is named to those who write expressions. -/
def typeName : Datum → String
  | .null => "<nil>"
  | .bool _ => "bool"
  | .int n => if n < signedBound then "int" else "uint64"
  | .float _ => "float64"
  | .text _ => "string"
  | .date .. => "time.Time"
  | .list _ => "[]interface \x7b\x7d"
  | .map pairs =>
    if pairs.all (·.1.isText) then "map[string]interface \x7b\x7d"
    else "map[interface \x7b\x7d]interface \x7b\x7d"

end Datum

end RuleTable.Yaml
