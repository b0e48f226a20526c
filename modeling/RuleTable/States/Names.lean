import RuleTable.Word
import Std.Data.HashSet

/-!
Names for variables that have none: an underscore and six letters drawn from a seeded generator, so
that equal seeds give equal names.
-/

namespace RuleTable

/-- A permuted congruential generator with 128 bits of state. -/
structure Generator where
  state : BitVec 128
  deriving DecidableEq, Repr

namespace Generator

def ofSeed (seed : UInt64) : Generator :=
  ⟨seed.toBitVec ++ (seed ^^^ 0x9e3779b97f4a7c15).toBitVec⟩

def step (g : Generator) : Generator :=
  ⟨g.state * (2549297995355413924#64 ++ 4865540595714422341#64) +
    (6364136223846793005#64 ++ 1442695040888963407#64)⟩

def output (g : Generator) : UInt64 :=
  let lo := UInt64.ofBitVec (g.state.setWidth 64)
  let hi := UInt64.ofBitVec ((g.state >>> 64).setWidth 64)
  let hi := hi ^^^ (hi >>> 32)
  let hi := hi * 0xda942042e4dd58b5
  let hi := hi ^^^ (hi >>> 48)
  hi * (lo ||| 1)

def draw (g : Generator) : UInt64 × Generator :=
  let g := g.step
  (g.output, g)

/-- A number below 26, each equally likely: the high word of 26 times a draw. Draws whose low word
falls into the uneven rest are thrown away, at most `tries` of them. -/
def letter? : Nat → Generator → Option (Nat × Generator)
  | 0, _ => none
  | tries + 1, g =>
    let (x, g) := g.draw
    let product := x.toNat * 26
    if product % unsignedBound < unsignedBound % 26 then letter? tries g
    else some (product / unsignedBound, g)

def letters? : Nat → Generator → Option (List Char × Generator)
  | 0, g => some ([], g)
  | k + 1, g => do
    let (n, g) ← g.letter? (unsignedBound)
    let (cs, g) ← letters? k g
    return (Char.ofNat (97 + n) :: cs, g)

end Generator

/-- A generator and the names that may not be given again. -/
structure NameSource where
  generator : Generator
  used : Std.HashSet String := ∅

namespace NameSource

def ofSeed (seed : UInt64) : NameSource := { generator := .ofSeed seed }

def reserve (s : NameSource) (name : String) : NameSource :=
  { s with used := s.used.insert name }

def taken (s : NameSource) (name : String) : Bool := s.used.contains name

/-- Draws until a name is fresh, at most `tries` times. -/
def seek : Nat → NameSource → Option (String × NameSource)
  | 0, _ => none
  | tries + 1, s => do
    let (cs, g) ← s.generator.letters? 6
    let name := String.ofList ('_' :: cs)
    let s := { s with generator := g }
    if s.taken name then seek tries s else some (name, s.reserve name)

/-- A name that was never reserved or given out. -/
def fresh? (s : NameSource) : Option (String × NameSource) := seek (unsignedBound) s

end NameSource

end RuleTable
