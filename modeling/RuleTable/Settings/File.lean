import RuleTable.Settings.Basic
import RuleTable.Settings.Duration
import RuleTable.Yaml.Datum

/-!
Settings from a YAML file: a mapping with a key for every setting. A null leaves a setting as it is,
other keys are not looked at, and a value of the wrong kind spoils the file.
-/

namespace RuleTable

namespace Yaml

/-- The pairs of a mapping by the texts of their keys: its own, and those it takes over from others.
-/
structure Entries where
  own : List (String × Node) := []
  taken : List (String × Node) := []

def Entries.all (e : Entries) : List (String × Node) := e.own ++ e.taken

mutual

/-- The entries of a mapping. Keys that clash spoil it, and so do collections for keys; a key that
is null does not count. -/
def Entries.ofPairs? : List (Node × Node) → Option Entries
  | [] => some {}
  | (k, v) :: rest =>
    match Entries.ofPairs? rest, Entries.taken? v with
    | none, _ => none
    | some entries, taken =>
      if rest.any fun (k', _) => k.clashes k' then none
      else if k.isMerge then
        taken.map fun more => { entries with taken := more ++ entries.taken }
      else
        match k with
        | .scalar text plain _ =>
          match plain, Datum.ofPlain text with
          | true, .null => some entries
          | _, _ => some { entries with own := (text, v) :: entries.own }
        | _ => none

/-- What a mapping takes over from a mapping or from a list of mappings. -/
def Entries.taken? : Node → Option (List (String × Node))
  | .scalar .. => none
  | .sequence items _ => Entries.takenAll? items
  | .mapping pairs _ => (Entries.ofPairs? pairs).map Entries.all

def Entries.takenAll? : List Node → Option (List (String × Node))
  | [] => some []
  | .mapping pairs _ :: ns =>
    match Entries.ofPairs? pairs, Entries.takenAll? ns with
    | some here, some rest => some (here.all ++ rest)
    | _, _ => none
  | _ :: _ => none

end

/-- A scalar as it is written, and what it means. -/
structure Written where
  text : String
  meaning : Datum

def Node.written? : Node → Option Written
  | .scalar s plain _ => some ⟨s, if plain then .ofPlain s else .text s⟩
  | _ => none

end Yaml

namespace Settings

open Yaml

/-- A text is taken as it is written, whatever it means. -/
def readText (w : Written) : Option String := some w.text

/-- Yes or no, also in words that only some readers of YAML know. -/
def readSwitch (w : Written) : Option Bool :=
  match w.meaning with
  | .bool b => some b
  | .text s =>
    if ["y", "Y", "yes", "Yes", "YES", "on", "On", "ON"].contains s then some true
    else if ["n", "N", "no", "No", "NO", "off", "Off", "OFF"].contains s then some false
    else none
  | _ => none

/-- A number as an unsigned word. A fraction is cut off, and a negative number with a point in it
wraps around. -/
def readSeed (w : Written) : Option UInt64 :=
  match w.meaning with
  | .int n => if 0 ≤ n then some (UInt64.ofNat n.toNat) else none
  | .float x =>
    let half : Float := Float.ofNat (signedBound)
    if x < half then some (UInt64.ofInt (Decimal.toWord x))
    else if x ≤ half + half then
      some (UInt64.ofInt (Decimal.toWord (x - half)) ||| UInt64.ofNat (signedBound))
    else none
  | _ => none

/-- A number as a signed word. A fraction is cut off. -/
def readSize (w : Written) : Option Int :=
  match w.meaning with
  | .int n => if n < signedBound then some n else none
  | .float x => if x ≤ Float.ofNat (signedBound) then some (Decimal.toWord x) else none
  | _ => none

def readLifetime (w : Written) : Option Int :=
  match w.meaning with
  | .text s => Duration.read? s
  | _ => none

/-- The value under a key, or the one there was if the key is missing or null. -/
def entry? (entries : List (String × Node)) (key : String) (read : Written → Option α) (old : α) :
    Option α :=
  match entries.lookup key with
  | none => some old
  | some node =>
    match node.written? with
    | none => none
    | some ⟨_, .null⟩ => some old
    | some w => read w

/-- The settings with the entries of a mapping. -/
def ofEntries? (s : Settings) (entries : List (String × Node)) : Option Settings := do
  return {
    logLevel := ← entry? entries "log_level" readText s.logLevel
    seed := ← entry? entries "seed" readSeed s.seed
    orbitCacheSize := ← entry? entries "orbit_cache_size" readSize s.orbitCacheSize
    stats := ← entry? entries "stats" readSwitch s.stats
    redisAddress := ← entry? entries "redis_addr" readText s.redisAddress
    redisPassword := ← entry? entries "redis_password" readText s.redisPassword
    cacheLifetime := ← entry? entries "cache_ttl" readLifetime s.cacheLifetime }

/-- The settings with those of a file, which may be empty. -/
def ofText? (s : Settings) (text : String) : Option Settings :=
  match Node.ofText? text with
  | none => none
  | some none => some s
  | some (some root) =>
    match root, root.written? with
    | .mapping pairs _, _ => (Entries.ofPairs? pairs).bind fun e => s.ofEntries? e.all
    | _, some ⟨_, .null⟩ => some s
    | _, _ => none

end Settings

end RuleTable
