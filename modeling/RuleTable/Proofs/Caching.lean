import RuleTable.Proofs.Requests

/-!
Orbits with and without a cache.

All types of a registry store their orbits in one cache, under texts, and a freely permuting type
serves one stored orbit to every napkin with the same contents. Entries are given up when there are
too many, and may be lost at any time. None of this can be told from the answers: an entry that is
there is what would be worked out, and one that is not is worked out again.
-/

namespace RuleTable

/-- What is done with a cache: orbits and their texts are asked for, all entries are dropped, or one
is lost. -/
inductive OrbitCall : Type 1
  | expand {α : Type} (t : Symmetry) (napkin : List α) (key : α → String)
  | canonicalKey {α : Type} (t : Symmetry) (napkin : List α) (key : α → String)
  | purge
  | lose (text : String)

namespace OrbitCall

def Answer : OrbitCall → Type
  | @expand α _ _ _ => List (List α)
  | .canonicalKey .. => String
  | .purge | .lose _ => Unit

def type? : OrbitCall → Option Symmetry
  | .expand t _ _ | .canonicalKey t _ _ => some t
  | .purge | .lose _ => none

def perform : (call : OrbitCall) → CacheM call.Answer
  | .expand t napkin key => t.expand napkin key
  | .canonicalKey t napkin key => t.canonicalKey napkin key
  | .purge => modify (·.map (·.purge))
  | .lose text => modify (·.map fun c => { c with entries := c.entries.erase text })

/-- The answers to calls one after another, each with the cache that the one before it left. A call
that crashes leaves one as well. -/
def answers : List OrbitCall → Option OrbitCache →
    List ((call : OrbitCall) × Except Stop call.Answer)
  | [], _ => []
  | call :: calls, cache =>
    ⟨call, (runFrom call.perform cache).1⟩ :: answers calls (runFrom call.perform cache).2

variable {r : Registry} {cache : Option OrbitCache}

lemma transparent_modify {known : String → Option Symmetry} {f : OrbitCache → OrbitCache}
    (h : ∀ c, c.Fits known → (f c).Fits known) :
    Transparent known (modify (·.map f) : CacheM Unit) where
  none := rfl
  some := by
    rintro (_ | c) hc
    · exact ⟨rfl, hc⟩
    · refine ⟨rfl, ?_⟩
      rintro _ ⟨⟩
      exact h c (hc c rfl)

/-- **One call.** A fitting cache changes nothing about the answer and stays fitting. -/
lemma transparent_perform (hr : r.Sound) {call : OrbitCall} (hknown : ∀ t ∈ call.type?, r.Knows t) :
    Transparent (r.types[·]?) call.perform := by
  cases call with
  | expand t napkin key =>
    have ht : r.Knows t := hknown t rfl
    exact Symmetry.transparent_expand (hr.valid t ht) (hr.knownTo ht) napkin key
  | canonicalKey t napkin key =>
    have ht : r.Knows t := hknown t rfl
    exact Symmetry.transparent_canonicalKey (hr.valid t ht) (hr.knownTo ht) napkin key
  | purge => exact transparent_modify fun c _ => c.fits_purge _
  | lose text =>
    refine transparent_modify fun c hc key time rows hbar he => hc key time rows hbar ?_
    simp only [Std.HashMap.getElem?_erase] at he
    split at he
    · cases he
    · exact he

/-- The cache, if there is one, has come about by calls about types of the registry. -/
inductive Served (r : Registry) : Option OrbitCache → Prop
  | without : Served r none
  | new (capacity : ℤ) : Served r (some (.ofCapacity capacity))
  | after {cache : Option OrbitCache} (h : Served r cache) (call : OrbitCall)
    (hknown : ∀ t ∈ call.type?, r.Knows t) : Served r (runFrom call.perform cache).2

/-- **Caches in use** fit. -/
lemma Served.fits (hr : r.Sound) (h : Served r cache) : CacheFits (r.types[·]?) cache := by
  induction h with
  | without => exact nofun
  | new capacity =>
    rintro _ ⟨⟩
    exact OrbitCache.fits_empty _ _
  | after _ call hknown ih => exact ((transparent_perform hr hknown).some _ ih).2

/-- **All calls.** The answers are the same from any fitting cache as from none. -/
lemma answers_eq_of_fits (hr : r.Sound) {calls : List OrbitCall}
    (hknown : ∀ call ∈ calls, ∀ t ∈ call.type?, r.Knows t)
    (hcache : CacheFits (r.types[·]?) cache) :
    answers calls cache = answers calls none := by
  induction calls generalizing cache with
  | nil => rfl
  | cons call calls ih =>
    rw [List.forall_mem_cons] at hknown
    have htrans := transparent_perform hr hknown.1
    obtain ⟨hanswer, hfits⟩ := htrans.some cache hcache
    rw [answers, answers, hanswer, htrans.none, ih hknown.2 hfits]

/-- **Caching shows nowhere.** Whatever calls are made about types of one registry, with a new cache
of any size they are answered as without one. -/
theorem answers_with_cache_eq (hr : r.Reachable) (capacity : ℤ) {calls : List OrbitCall}
    (hknown : ∀ call ∈ calls, ∀ t ∈ call.type?, r.Knows t) :
    answers calls (some (.ofCapacity capacity)) = answers calls none := by
  refine answers_eq_of_fits hr.sound hknown ?_
  rintro _ ⟨⟩
  exact OrbitCache.fits_empty _ _

/-- Two napkins with the same contents, permuted freely; the second is answered from what was stored
for the first, then it is the other way round. -/
def sharedCalls (t : Symmetry) : List OrbitCall :=
  [.expand t [2, 0, 1, 0] toString, .expand t [0, 0, 2, 1] toString, .purge,
    .canonicalKey t [0, 0, 2, 1] toString, .canonicalKey t [2, 0, 1, 0] toString]

theorem answers_of_permuted_napkins : ∃ t r,
    runFrom (Registry.permute .vonNeumann []) {} = (.ok t, r) ∧ r.Reachable ∧
    (∀ call ∈ sharedCalls t, ∀ u ∈ call.type?, r.Knows u) ∧
    answers (sharedCalls t) (some (.ofCapacity 1)) = answers (sharedCalls t) none := by
  obtain ⟨t, r, hrun⟩ : Registry.Succeeds {} (Registry.permute .vonNeumann []) :=
    (Registry.Succeeds.failing rfl).bind fun _ _ _ => .memo ⟨_, _, rfl⟩
  have hreach : r.Reachable := by
    have h := Registry.History.one (r := {}) (.permute .vonNeumann [])
      (by simp [Registry.Request.types])
    simp only [Registry.after, hrun] at h
    exact h
  have hknows : r.Knows t := by
    have h := (Registry.keeps_permute Registry.sound_empty .vonNeumann []).post t (by rw [hrun])
    rw [hrun] at h
    exact h.1
  have hknown : ∀ call ∈ sharedCalls t, ∀ u ∈ call.type?, r.Knows u := by
    simp [sharedCalls, type?, hknows]
  exact ⟨t, r, hrun, hreach, hknown, answers_with_cache_eq hreach 1 hknown⟩

end OrbitCall

end RuleTable
