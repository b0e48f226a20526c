/-!
A 64-bit digest of bytes, by the algorithm known as XXH64 with seed zero. It tells texts apart in
the keys of a cache; it is no protection against those who look for collisions.
-/

namespace RuleTable.Digest

/-- The five odd constants that words are multiplied by. -/
def prime1 : UInt64 := 11400714785074694791
def prime2 : UInt64 := 14029467366897019727
def prime3 : UInt64 := 1609587929392839161
def prime4 : UInt64 := 9650029242287828579
def prime5 : UInt64 := 2870177450012600261

/-- The word with its bits moved up `n` places, those at the top coming back in at the bottom. -/
def rotate (w : UInt64) (n : UInt64) : UInt64 := (w <<< n) ||| (w >>> (64 - n))

/-- The number that bytes stand for, the lowest first. -/
def word (bytes : List UInt8) : UInt64 := bytes.foldr (fun b w => (w <<< 8) ||| b.toUInt64) 0

def mix (lane w : UInt64) : UInt64 := rotate (lane + w * prime2) 31 * prime1

/-- Long texts are taken in on four lanes at once. -/
structure Lanes where
  a : UInt64 := prime1 + prime2
  b : UInt64 := prime2
  c : UInt64 := 0
  d : UInt64 := 0 - prime1

namespace Lanes

/-- Takes in so many stripes of 32 bytes, one word on each lane, and leaves the rest. -/
def absorb : Nat → Lanes → List UInt8 → Lanes × List UInt8
  | 0, l, bytes => (l, bytes)
  | n + 1, l, bytes =>
    let l := {
      a := mix l.a (word (bytes.take 8))
      b := mix l.b (word ((bytes.drop 8).take 8))
      c := mix l.c (word ((bytes.drop 16).take 8))
      d := mix l.d (word ((bytes.drop 24).take 8)) }
    absorb n l (bytes.drop 32)

def merge (l : Lanes) : UInt64 :=
  [l.a, l.b, l.c, l.d].foldl (fun h lane => (h ^^^ mix 0 lane) * prime1 + prime4)
    (rotate l.a 1 + rotate l.b 7 + rotate l.c 12 + rotate l.d 18)

end Lanes

/-- Takes in so many words of eight bytes, and leaves the rest. -/
def absorbWords : Nat → UInt64 → List UInt8 → UInt64 × List UInt8
  | 0, h, bytes => (h, bytes)
  | n + 1, h, bytes =>
    absorbWords n (rotate (h ^^^ mix 0 (word (bytes.take 8))) 27 * prime1 + prime4) (bytes.drop 8)

def absorbHalf (h : UInt64) (bytes : List UInt8) : UInt64 × List UInt8 :=
  if bytes.length < 4 then (h, bytes)
  else (rotate (h ^^^ (word (bytes.take 4) * prime1)) 23 * prime2 + prime3, bytes.drop 4)

def absorbBytes (h : UInt64) (bytes : List UInt8) : UInt64 :=
  bytes.foldl (fun h b => rotate (h ^^^ (b.toUInt64 * prime5)) 11 * prime1) h

/-- Spreads every bit over the whole word. -/
def finish (h : UInt64) : UInt64 :=
  let h := (h ^^^ (h >>> 33)) * prime2
  let h := (h ^^^ (h >>> 29)) * prime3
  h ^^^ (h >>> 32)

/-- The digest of bytes. -/
def ofBytes (bytes : List UInt8) : UInt64 :=
  let size := bytes.length
  let (start, rest) :=
    if size < 32 then (prime5, bytes)
    else
      let (lanes, rest) := Lanes.absorb (size / 32) {} bytes
      (lanes.merge, rest)
  let (h, rest) := absorbWords (rest.length / 8) (start + UInt64.ofNat size) rest
  let (h, rest) := absorbHalf h rest
  finish (absorbBytes h rest)

def ofText (text : String) : UInt64 := ofBytes text.toUTF8.data.toList

end RuleTable.Digest
