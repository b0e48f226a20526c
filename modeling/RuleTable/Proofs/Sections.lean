import RuleTable.Proofs.Coverage
import RuleTable.Proofs.Entries

/-!
Sections under way.

Whatever statements a section has obeyed, and however each of them ended, its registry is sound, its
scope is in order, all its entries are laid out along the one neighborhood it has, and the symmetry
it goes by is one of that neighborhood. A statement keeps this, so a list of statements does. From
such a state the table can always be written.
-/

namespace RuleTable

open SectionM

/-! ### Steps of a section -/

namespace SectionState

def noting (s : SectionState) (e : Event) : SectionState :=
  { s with session := { s.session with events := s.session.events.push e } }

def rejecting (s : SectionState) (span : Span) (f : Failure) : SectionState :=
  let f := f.locate .syntaxInconsistency span
  { s.noting (.rejected s.table span f) with failures := s.failures.push f }

/-- The section with the registry and the scope that a statement leaves. -/
def taking (s : SectionState) (w : Workspace) : SectionState :=
  { s with session := { s.session with registry := w.registry }, scope := some w.scope }

def settingNeighborhood (s : SectionState) (nb : Neighborhood) : SectionState :=
  noting { s with
    neighborhood := some nb
    symmetry := if s.neighborhood = some nb then s.symmetry else none } (.neighborhood s.table nb)

/-- The section after its symmetry was declared, which has left this registry. -/
def settingSymmetry (s : SectionState) (t : Symmetry) (r : Registry) : SectionState :=
  noting { s with session := { s.session with registry := r }, symmetry := some t }
    (.symmetry s.table t)

end SectionState

namespace SectionM

variable {α : Type} {s s' : SectionState}

@[simp] lemma runFrom_note (e : Event) (s : SectionState) :
    runFrom (note e) s = (.ok ⟨⟩, s.noting e) := rfl

@[simp] lemma runFrom_report (span : Span) (f : Failure) (s : SectionState) :
    runFrom (report span f) s = (.ok ⟨⟩, s.rejecting span f) := rfl

@[simp] lemma runFrom_onRegistry (act : RegistryM α) (s : SectionState) :
    runFrom (onRegistry act) s = ((runFrom act s.session.registry).1,
      { s with session := { s.session with registry := (runFrom act s.session.registry).2 } }) :=
      rfl

@[simp] lemma runFrom_onCache (act : CacheM α) (s : SectionState) :
    runFrom (onCache act) s = ((runFrom act (some s.session.cache)).1, { s with session :=
      { s.session with cache := (runFrom act (some s.session.cache)).2.getD s.session.cache } }) :=
      rfl

/-- The section has made its scope, or makes this one now. -/
def Opens (s : SectionState) (scope : Scope) : Prop :=
  s.scope = some scope ∨ s.scope = none ∧ Scope.create s.stateCount (.ofSeed s.seed) = .ok scope

lemma exists_opens (h : s.stateCount ≤ greatestStates) : ∃ scope, Opens s scope := by
  cases hs : s.scope with
  | some scope => exact ⟨scope, .inl hs⟩
  | none =>
    have hlength : s.stateCount ≤ greatestLength := h.trans (by decide)
    exact ⟨_, .inr ⟨hs, if_neg (by simpa using hlength)⟩⟩

lemma opens_or_error (s : SectionState) : (∃ scope, Opens s scope) ∨
    ∃ e, s.scope = none ∧ Scope.create s.stateCount (.ofSeed s.seed) = .error e := by
  cases hs : s.scope with
  | some scope => exact .inl ⟨scope, .inl hs⟩
  | none =>
    cases hc : Scope.create s.stateCount (.ofSeed s.seed) with
    | ok scope => exact .inl ⟨scope, .inr ⟨hs, hc⟩⟩
    | error e => exact .inr ⟨e, rfl, rfl⟩

lemma runFrom_theScope {scope : Scope} (h : Opens s scope) :
    runFrom theScope s = (.ok scope, { s with scope := some scope }) := by
  unfold theScope
  rw [runFrom_bind, runFrom_get]
  rcases h with h | ⟨h, hcreate⟩
  · simp only [h, runFrom_pure]
    rw [← h]
  · simp only [h, runFrom_bind, runFrom_outcome, hcreate, runFrom_set, runFrom_pure]

lemma runFrom_attempt {scope : Scope} (h : Opens s scope) (span : Span) (act : WorkspaceM α) :
    runFrom (attempt span act) s = match runFrom act ⟨s.session.registry, scope⟩ with
      | (.ok a, w) => (.ok (some a), s.taking w)
      | (.error (.refused f), w) => (.ok none, (s.taking w).rejecting span f)
      | (.error .crash, w) => (.error .crash, s.taking w) := by
  unfold attempt
  rw [runFrom_bind, runFrom_theScope h]
  simp only [runFrom_bind, runFrom_get]
  have hrun : act.run.run ⟨s.session.registry, scope⟩ =
      runFrom act ⟨s.session.registry, scope⟩ := rfl
  rw [hrun]
  rcases runFrom act ⟨s.session.registry, scope⟩ with ⟨(f | _) | a, w⟩ <;> rfl

end SectionM

/-! ### What holds of a section under way -/

/-- What the statements of a section are supposed to keep to, as far as a result depends on it. -/
structure Proviso where
  /-- no symmetry is declared as a union -/
  uncombined : Prop
  /-- no transition mentions `live` -/
  mute : Prop
  /-- declared names that are not words are like this -/
  spelled : String → Prop

def Proviso.none : Proviso := ⟨False, False, fun _ => True⟩

def Statement.Meets (pr : Proviso) : Statement → Prop
  | .directive _ _ symmetry _ => pr.uncombined → ∀ e ∈ symmetry, e.Uncombined
  | .var name _ _ => IsWord name ∨ pr.spelled name
  | .transition t => pr.mute → ∀ e ∈ t.exprs, ¬ e.Mentions "live"

lemma Statement.meets_none (st : Statement) : st.Meets .none := by
  cases st with
  | directive name value symmetry span => exact False.elim
  | var name value span => exact .inr trivial
  | transition t => exact False.elim

/-- The entry is sound for the neighborhood, the registry and the scope of the section. -/
def Entry.SoundIn (pr : Proviso) (s : SectionState) (e : Entry) : Prop :=
  ∃ nb scope, s.neighborhood = some nb ∧ s.scope = some scope ∧
    e.Sound nb pr.uncombined (s.stateCount = 1 → pr.mute) s.session.registry scope

/-- What holds of a section whatever it has obeyed. -/
structure SectionState.Sound (pr : Proviso) (s : SectionState) : Prop where
  registry : s.session.registry.Reachable
  cache : s.session.cache = s.session.cache.purge
  count : 0 < s.stateCount ∧ s.stateCount ≤ greatestStates
  scope : ∀ scope, s.scope = some scope → scope.Sound pr.spelled ∧ scope.stateCount = s.stateCount
  symmetry : ∀ t, s.symmetry = some t → ∃ nb, s.neighborhood = some nb ∧
    Registry.Yields nb pr.uncombined s.session.registry t
  entries : ∀ e ∈ s.entries, e.SoundIn pr s

namespace SectionState

variable {pr : Proviso} {s s' : SectionState}

lemma Sound.noting (h : s.Sound pr) (e : Event) : (s.noting e).Sound pr :=
  ⟨h.registry, h.cache, h.count, h.scope, h.symmetry, h.entries⟩

lemma Sound.rejecting (h : s.Sound pr) (span : Span) (f : Failure) :
    (s.rejecting span f).Sound pr :=
  ⟨h.registry, h.cache, h.count, h.scope, h.symmetry, h.entries⟩

lemma Sound.registering (h : s.Sound pr) {r : Registry}
    (hr : Registry.History s.session.registry r) :
    Sound pr { s with session := { s.session with registry := r } } := by
  have hext := h.registry.extends_of_history hr
  refine ⟨h.registry.trans hr, h.cache, h.count, h.scope, fun t ht => ?_, fun e he => ?_⟩
  · obtain ⟨nb, hnb, hy⟩ := h.symmetry t ht
    exact ⟨nb, hnb, hy.mono hext⟩
  · obtain ⟨nb, scope, hnb, hs, hsound⟩ := h.entries e he
    exact ⟨nb, scope, hnb, hs, hsound.mono hext (.refl scope)⟩

lemma Sound.declaring (h : s.Sound pr) {nb : Neighborhood} {t : Symmetry}
    (hnb : s.neighborhood = some nb)
    (ht : Registry.Yields nb pr.uncombined s.session.registry t) :
    Sound pr { s with symmetry := some t } := by
  refine ⟨h.registry, h.cache, h.count, h.scope, fun u hu => ?_, h.entries⟩
  cases hu
  exact ⟨nb, hnb, ht⟩

lemma Sound.opens (h : s.Sound pr) {scope : Scope} (hopens : Opens s scope) :
    scope.Sound pr.spelled ∧ scope.stateCount = s.stateCount := by
  rcases hopens with hscope | ⟨-, hcreate⟩
  · exact h.scope scope hscope
  · refine ⟨Scope.sound_create (by exact_mod_cast h.count.1) hcreate, ?_⟩
    unfold Scope.create at hcreate
    split at hcreate
    · cases hcreate
    · cases hcreate
      rfl

lemma Sound.taking (h : s.Sound pr) {scope : Scope} (hopens : Opens s scope) {w : Workspace}
    (hw : Workspace.Develops (Scope.Develops pr.spelled) ⟨s.session.registry, scope⟩ w) :
    (s.taking w).Sound pr := by
  have hext := h.registry.extends_of_history hw.1
  obtain ⟨hscope, hcount⟩ := h.opens hopens
  refine ⟨h.registry.trans hw.1, h.cache, h.count, fun scope' hs => ?_,
    fun t ht => ?_, fun e he => ?_⟩
  · cases hs
    exact ⟨hw.2.2 hscope, hw.2.1.1.trans hcount⟩
  · obtain ⟨nb, hnb, hy⟩ := h.symmetry t ht
    exact ⟨nb, hnb, hy.mono hext⟩
  · obtain ⟨nb, scope', hnb, hs, hsound⟩ := h.entries e he
    -- an entry is there only if the scope was there before
    rcases hopens with hs' | ⟨hs', -⟩
    · cases hs'.symm.trans hs
      exact ⟨nb, w.scope, hnb, rfl, hsound.mono hext hw.2.1⟩
    · cases hs'.symm.trans hs

end SectionState

/-! ### Statements keep it -/

namespace Table

variable {pr : Proviso} {s s' : SectionState}

lemma attempt_sound {α : Type} (hs : s.Sound pr) (span : Span) {act : WorkspaceM α}
    (hact : Steps (Workspace.Develops (Scope.Develops pr.spelled)) act) :
    (runFrom (attempt span act) s).2.Sound pr := by
  obtain ⟨scope, hopens⟩ := exists_opens hs.count.2
  have hw := hs.taking hopens (hact ⟨s.session.registry, scope⟩)
  rw [runFrom_attempt hopens]
  rcases hrun : runFrom act ⟨s.session.registry, scope⟩ with ⟨(f | _) | a, w⟩ <;> rw [hrun] at hw
  · exact hw.rejecting span f
  · exact hw
  · exact hw

lemma declareVariable_sound (hs : s.Sound pr) {name : String}
    (hname : IsWord name ∨ pr.spelled name)
    (value : Expr) (span : Span) : (runFrom (declareVariable name value span) s).2.Sound pr := by
  have hact := attempt_sound hs span
    (Workspace.onScope_develops (Scope.declaring_develops hname value span))
  unfold declareVariable
  rw [runFrom_bind]
  rcases hrun : runFrom (attempt span _) s with ⟨_ | _, s₁⟩ <;> rw [hrun] at hact <;> exact hact

lemma runFrom_attemptEntry (t : Transition) (s : SectionState) : runFrom (attemptEntry t) s =
    runFrom (attempt t.span (entry s.neighborhood s.symmetry t)) s := rfl

/-- A transition leaves a sound section, and the entry it is made into is sound there. -/
lemma attemptEntry_sound (hs : s.Sound pr) {t : Transition}
    (ht : Statement.Meets pr (.transition t)) :
    (runFrom (attemptEntry t) s).2.Sound pr ∧
      ∀ e, (runFrom (attemptEntry t) s).1 = .ok (some e) →
        e.SoundIn pr (runFrom (attemptEntry t) s).2 := by
  rw [runFrom_attemptEntry]
  refine ⟨attempt_sound hs t.span (entry_develops s.neighborhood s.symmetry t), fun e he => ?_⟩
  obtain ⟨scope, hopens⟩ := exists_opens hs.count.2
  obtain ⟨hscope, hcount⟩ := hs.opens hopens
  rw [runFrom_attempt hopens] at he ⊢
  rcases hrun : runFrom (entry s.neighborhood s.symmetry t) ⟨s.session.registry, scope⟩
    with ⟨(f | _) | e', w⟩ <;> rw [hrun] at he
  · cases he
  · cases he
  cases he
  cases hnb : s.neighborhood with
  | none =>
    rw [hnb] at hrun
    cases hrun
  | some nb =>
    rw [hnb] at hrun
    refine ⟨nb, w.scope, hnb, rfl, entry_sound hs.registry.sound hscope (fun u hu => ?_) ?_ hrun⟩
    · obtain ⟨nb', hnb', hy⟩ := hs.symmetry u hu
      cases hnb.symm.trans hnb'
      exact hy
    · exact fun hmute e he hone => ht (hmute (hcount ▸ hone)) e he

lemma addTransition_sound (hs : s.Sound pr) {t : Transition}
    (ht : Statement.Meets pr (.transition t)) : (runFrom (addTransition t) s).2.Sound pr := by
  obtain ⟨hsound, hentry⟩ := attemptEntry_sound hs ht
  unfold addTransition
  rw [runFrom_bind]
  rcases hrun : runFrom (attemptEntry t) s with ⟨_ | (_ | e), s₁⟩ <;> rw [hrun] at hsound hentry
  · exact hsound
  · exact ⟨hsound.registry, hsound.cache, hsound.count,
      hsound.scope, hsound.symmetry, hsound.entries⟩
  · refine ⟨hsound.registry, hsound.cache, hsound.count, hsound.scope, hsound.symmetry,
      fun e' he' => ?_⟩
    rcases Array.mem_push.mp he' with he' | rfl
    · exact hsound.entries e' he'
    · exact hentry e' rfl

/-- The number of states is set to a number in range, as long as there is no scope, or else it
stays. -/
lemma setStates_cases (value : String) (span : Span) (s : SectionState) :
    (∃ c, runFrom (setStates value span) s = (.error (.refused (.of span c)), s)) ∨
      ∃ n, 0 < n ∧ n ≤ greatestStates ∧ s.scope = none ∧
        runFrom (setStates value span) s = (.ok ⟨⟩, { s with stateCount := n }) := by
  unfold setStates
  rw [runFrom_bind, runFrom_get]
  dsimp only
  split
  · exact .inl ⟨_, rfl⟩
  next hnone =>
  split
  · next n hn =>
    split
    · exact .inl ⟨_, rfl⟩
    · next hrange =>
      simp only [Bool.or_eq_true, decide_eq_true_eq, not_or, not_lt] at hrange
      exact .inr ⟨n.toNat, by omega, by omega, by simpa using hnone, rfl⟩
  · exact .inl ⟨_, rfl⟩

lemma setStates_sound (hs : s.Sound pr) (value : String) (span : Span) :
    (runFrom (setStates value span) s).2.Sound pr := by
  obtain ⟨c, hrun⟩ | ⟨n, hpos, hle, hscope, hrun⟩ := setStates_cases value span s <;> rw [hrun]
  · exact hs
  -- without a scope there are no entries that the number of states could matter to
  · refine ⟨hs.registry, hs.cache, ⟨hpos, hle⟩, ?_, hs.symmetry, fun e he => ?_⟩
    · exact fun scope h => by cases hscope.symm.trans h
    · obtain ⟨nb, scope, -, h, -⟩ := hs.entries e he
      cases hscope.symm.trans h

lemma runFrom_setNeighborhood (hs : s.entries.isEmpty = true) (value : String) (span : Span) :
    runFrom (setNeighborhood value span) s = match Neighborhood.parse value with
      | .ok nb => (.ok ⟨⟩, s.settingNeighborhood nb)
      | .error f => (.error (.refused (f.locate .geometry span)), s) := by
  unfold setNeighborhood
  rw [runFrom_bind, runFrom_get]
  dsimp only
  rw [if_pos hs, runFrom_bind, runFrom_locating, runFrom_failing]
  cases Neighborhood.parse value <;> rfl

lemma runFrom_setNeighborhood_late (hs : ¬ s.entries.isEmpty = true)
    (value : String) (span : Span) :
    runFrom (setNeighborhood value span) s =
      (.error (.refused (.of span .neighborhoodFixed)), s) := by
  unfold setNeighborhood
  rw [runFrom_bind, runFrom_get]
  dsimp only
  rw [if_neg hs]
  rfl

lemma setNeighborhood_sound (hs : s.Sound pr) (value : String) (span : Span) :
    (runFrom (setNeighborhood value span) s).2.Sound pr := by
  by_cases hempty : s.entries.isEmpty = true
  · rw [runFrom_setNeighborhood hempty]
    have hnone : s.entries = #[] := by simpa using hempty
    cases Neighborhood.parse value with
    | error f => exact hs
    | ok nb =>
      have hnew : SectionState.Sound pr { s with
          neighborhood := some nb
          symmetry := if s.neighborhood = some nb then s.symmetry else none } := by
        refine ⟨hs.registry, hs.cache, hs.count, hs.scope, fun t ht => ?_, fun e he => ?_⟩
        · change (if s.neighborhood = some nb then s.symmetry else none) = some t at ht
          split at ht
          · next hsame =>
            obtain ⟨nb', hnb', hy⟩ := hs.symmetry t ht
            cases hsame.symm.trans hnb'
            exact ⟨nb, rfl, hy⟩
          · cases ht
        · change e ∈ s.entries at he
          rw [hnone] at he
          simp at he
      exact hnew.noting (.neighborhood s.table nb)
  · rw [runFrom_setNeighborhood_late hempty]
    exact hs

lemma uncombined_plain (value : String) (span : Span) :
    SymmetryExpr.Uncombined { name := value, span := span } := by
  rw [SymmetryExpr.Uncombined]
  exact ⟨by cbv, trivial⟩

lemma runFrom_setSymmetry {nb : Neighborhood} (hnb : s.neighborhood = some nb) (value : String)
    (e : Option SymmetryExpr) (span : Span) : runFrom (setSymmetry value e span) s =
      match runFrom (Registry.declare nb (e.getD { name := value, span := span }))
        s.session.registry with
      | (.ok t, r) => (.ok ⟨⟩, s.settingSymmetry t r)
      | (.error stop, r) =>
        (.error stop, { s with session := { s.session with registry := r } }) := by
  obtain ⟨table, seed, session, stateCount, neighborhood,
    symmetry, scope, entries, failures, stats⟩ := s
  cases hnb
  unfold setSymmetry
  simp only [runFrom_bind, runFrom_get, runFrom_onRegistry]
  rcases runFrom (Registry.declare nb (e.getD { name := value, span := span })) session.registry
    with ⟨_ | t, r⟩ <;> rfl

lemma runFrom_setSymmetry_early (hnb : s.neighborhood = none) (value : String)
    (e : Option SymmetryExpr) (span : Span) :
    runFrom (setSymmetry value e span) s = (.error (needsNeighborhood span), s) := by
  unfold setSymmetry
  simp only [runFrom_bind, runFrom_get, hnb, runFrom_throw]

lemma setSymmetry_sound (hs : s.Sound pr) (value : String) {e : Option SymmetryExpr} (span : Span)
    (he : pr.uncombined → ∀ x ∈ e, x.Uncombined) :
    (runFrom (setSymmetry value e span) s).2.Sound pr := by
  cases hnb : s.neighborhood with
  | none =>
    rw [runFrom_setSymmetry_early hnb]
    exact hs
  | some nb =>
    have hpost :=
      (Registry.keeps_declare hs.registry.sound nb (e.getD { name := value, span := span })).post
    have hnext := hs.registering (.one (.declare nb (e.getD { name := value, span := span })) nofun)
    rw [runFrom_setSymmetry hnb]
    rcases hrun : runFrom (Registry.declare nb (e.getD { name := value, span := span }))
      s.session.registry with ⟨_ | t, r⟩ <;> rw [Registry.after, hrun] at hnext <;>
      rw [hrun] at hpost
    · exact hnext
    · obtain ⟨hknows, htnb, hclosed⟩ := hpost t rfl
      refine (hnext.declaring hnb ⟨hknows, htnb, fun hpr => hclosed ?_⟩).noting _
      cases e with
      | none => exact uncombined_plain value span
      | some x => exact he hpr x rfl

/-- **A statement** leaves a sound section, however it ends. -/
lemma obey_sound (hs : s.Sound pr) {st : Statement} (hst : st.Meets pr) :
    (runFrom (obey st) s).2.Sound pr := by
  cases st with
  | directive name value symmetry span =>
    unfold obey
    dsimp only
    split
    · exact setStates_sound hs value span
    split
    · exact setNeighborhood_sound hs value span
    split
    · exact setSymmetry_sound hs value span hst
    · exact hs.rejecting span _
  | var name value span => exact declareVariable_sound hs hst value span
  | transition t =>
    unfold obey
    rw [runFrom_bind, runFrom_get]
    dsimp only
    split
    · exact hs
    · exact addTransition_sound hs hst

/-- **Any statements** leave a sound section, however they end. -/
lemma forM_obey_sound (hs : s.Sound pr) {statements : List Statement}
    (h : ∀ st ∈ statements, st.Meets pr) : (runFrom (statements.forM obey) s).2.Sound pr := by
  induction statements generalizing s with
  | nil => exact hs
  | cons st rest ih =>
    have hfirst := obey_sound hs (h st List.mem_cons_self)
    rw [List.forM_eq_forM, List.forM_cons, runFrom_bind]
    rcases hrun : runFrom (obey st) s with ⟨_ | _, s₁⟩ <;> rw [hrun] at hfirst
    · exact hfirst
    · exact ih hfirst fun st hst => h st (List.mem_cons_of_mem _ hst)

def start (t : Table) (seed : UInt64) (session : Session) : SectionState where
  table := t.name
  seed := seed
  session := { session with cache := session.cache.purge }

lemma start_sound {session : Session} (h : session.registry.Reachable) (t : Table) (seed : UInt64) :
    (t.start seed session).Sound pr :=
  ⟨h, rfl, show 0 < defaultStates ∧ defaultStates ≤ greatestStates by decide, nofun, nofun,
    by simp [start]⟩

lemma runFrom_compile (t : Table) (seed : UInt64) (session : Session) :
    runFrom (t.compile seed) session =
      ((runFrom t.process (t.start seed session)).1,
        (runFrom t.process (t.start seed session)).2.session) := rfl

end Table

end RuleTable
