import RuleTable.Metrics
import RuleTable.Server.Cache
import RuleTable.Server.Route

/-!
The server: it compiles rule files, lists symmetries and shows its counters. Every request has a
compiler of its own; what is known of symmetries is shared.
-/

namespace RuleTable

structure Request where
  method : String
  address : String
  body : String := ""

inductive Body
  | text (s : String)
  | report (r : Report)
  | classes (ts : List Symmetry)

structure Response where
  status : Nat
  body : Body := .text ""

structure Server where
  seed : UInt64 := 0
  cacheSize : Int := 0
  registry : Registry := {}
  /-- the counters, if they are kept -/
  metrics : Option Metrics := none
  /-- the store of reports, if there is one -/
  cache : Option ReportCache := none

namespace Server

/-- The greatest size of a rule file, in bytes. -/
def mostBytes : Nat := 4194304

def notFound : Response := ⟨404, .text "404 page not found\n"⟩

def notAllowed : Response := ⟨405, .text ""⟩

def broken : Response := ⟨500, .text ""⟩

/-- Does something with a new compiler, and keeps what it learns of symmetries. -/
def onCompiler (s : Server) (act : CompilerM α) : Except Stop α × Server :=
  let c := Compiler.create s.seed s.cacheSize
  let (result, c) := act.run.run { c with session := { c.session with registry := s.registry } }
  let metrics := s.metrics.map (·.addAll c.session.events.toList)
  (result, { s with registry := c.session.registry, metrics := metrics })

def reportResponse (r : Report) : Response := ⟨if r.ok then 200 else 422, .report r⟩

def lookup (s : Server) (key : String) : Lookup × List CacheCall :=
  match s.cache with
  | none => (.miss, [])
  | some c => (c.get key, [ReportCache.getCall key (c.get key)])

def store (s : Server) (key : String) (r : Report) : Server × List CacheCall :=
  match s.cache with
  | none => (s, [])
  | some c =>
    let (c, call) := c.set key r
    ({ s with cache := some c }, [call])

/-- Compiles a rule file, unless its report is stored. -/
def compile (s : Server) (source : String) : Server × Response × List CacheCall :=
  if mostBytes < source.utf8ByteSize then (s, ⟨400, .text "Invalid request body\n"⟩, [])
  else
    let key := if s.cache.isSome then reportKey reportLabel s.seed source else ""
    match s.lookup key with
    | (.hit r, calls) => (s, reportResponse r, calls)
    | (_, calls) =>
      match s.onCompiler (Compiler.compileText source) with
      | (.error _, s) => (s, broken, calls)
      | (.ok c, s) =>
        let (s, more) := s.store key c.report
        (s, reportResponse c.report, calls ++ more)

def symmetries (s : Server) (neighborhood : String) : Server × Response :=
  match s.onCompiler (Compiler.classes neighborhood) with
  | (.ok ts, s) => (s, ⟨200, .classes ts⟩)
  | (.error (.refused f), s) => (s, ⟨404, .text (f.message ++ "\n")⟩)
  | (.error .crash, s) => (s, broken)

/-- Answers a request, and tells how the store was used. -/
def handle (s : Server) (r : Request) : Server × Response × List CacheCall :=
  if r.method == "OPTIONS" then (s, ⟨200, .text ""⟩, [])
  else if !methods.contains r.method then (s, notAllowed, [])
  else
    match resource? (path r.address), r.method, s.metrics with
    | some .compile, "POST", _ => s.compile r.body
    | some (.symmetries neighborhood), "GET", _ =>
      let (s, response) := s.symmetries neighborhood
      (s, response, [])
    | some .metrics, _, some m => (s, ⟨200, .text m.render⟩, [])
    | some .metrics, _, none | none, _, _ => (s, notFound, [])
    | _, _, _ => (s, notAllowed, [])

end Server

end RuleTable
