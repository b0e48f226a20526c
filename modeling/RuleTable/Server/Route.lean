import RuleTable.Text.Quoted

/-!
Which of the server's resources a request is for, by the path of its address.
-/

namespace RuleTable.Server

def hexValue? (c : Char) : Option Nat :=
  if '0' ≤ c ∧ c ≤ '9' then some (c.toNat - 48)
  else if 'a' ≤ c ∧ c ≤ 'f' then some (c.toNat - 87)
  else if 'A' ≤ c ∧ c ≤ 'F' then some (c.toNat - 55)
  else none

/-- The bytes of an address, with every percent sign and the two digits after it as one byte. -/
def unescape? : List UInt8 → Option (List UInt8)
  | [] => some []
  | b :: rest =>
    if b == 0x25 then
      match rest with
      | x :: y :: rest =>
        match hexValue? (Char.ofNat x.toNat), hexValue? (Char.ofNat y.toNat) with
        | some x, some y => (unescape? rest).map (UInt8.ofNat (16 * x + y) :: ·)
        | _, _ => none
      | _ => none
    else (unescape? rest).map (b :: ·)

/-- The bytes that stand for themselves in a path. -/
def isPlain (b : UInt8) : Bool :=
  let c := Char.ofNat b.toNat
  c.isAlphanum || "-_.~$&+,/:;=@".toList.contains c

/-- The usual way to write bytes in a path. -/
def escape (bytes : List UInt8) : List UInt8 :=
  bytes.flatMap fun b =>
    if isPlain b then [b]
    else 0x25 :: (Text.hexDigits 2 b.toNat).map fun c => UInt8.ofNat c.toUpper.toNat

/-- The path of an address. It is decoded only if it was written in the usual way; otherwise it
stays as it is written. -/
def path (address : String) : String :=
  let written := String.ofList (address.toList.takeWhile (· != '?'))
  let bytes := written.toUTF8.data.toList
  match unescape? bytes with
  | none => written
  | some decoded =>
    if escape decoded == bytes then
      (String.fromUTF8? ⟨decoded.toArray⟩).getD written
    else written

inductive Resource
  | compile
  | symmetries (neighborhood : String)
  | metrics
  deriving DecidableEq, Repr

def methods : List String :=
  ["CONNECT", "DELETE", "GET", "HEAD", "OPTIONS", "PATCH", "POST", "PUT", "TRACE"]

/-- The resource at a path. A neighborhood is one segment that is not empty. -/
def resource? (path : String) : Option Resource :=
  if path == "/compile" then some .compile
  else if path == "/metrics" then some .metrics
  else
    let start := "/symmetries/".toList
    let name := path.toList.drop start.length
    if start.isPrefixOf path.toList && !name.isEmpty && !name.contains '/' then
      some (.symmetries (String.ofList name))
    else none

end RuleTable.Server
