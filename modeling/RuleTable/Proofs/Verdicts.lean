import RuleTable.Proofs.Writing

/-!
What becomes of the statements of a table.

A statement passes, or it fails and is left out, or it ends the section. Which of these it is, is
settled by its own work from the state that the statements before it have left: reading a directive,
evaluating and declaring a variable, laying out a transition. The failures that a compilation
returns are those of the statements, in their order, up to one that ends the section, and whoever
watches is told of the same failures.
-/

namespace RuleTable

open SectionM Text

/-- What becomes of a statement. -/
inductive Verdict
  /-- it is obeyed; a transition becomes an entry -/
  | passes (made : Option Entry)
  /-- it is refused and left out -/
  | fails (f : Failure)
  /-- it is refused, and with it the rest of the section -/
  | ends (f : Failure)
  | crashes

namespace Verdict

/-- The verdict on work that the section cannot do without. -/
def ofVital : Except Stop Unit → Verdict
  | .ok _ => .passes none
  | .error (.refused f) => .ends f
  | .error .crash => .crashes

/-- The verdict on work that the section can leave out; a failure that has no place gets that of the
statement. -/
def ofLocal (span : Span) : Except Stop (Option Entry) → Verdict
  | .ok made => .passes made
  | .error (.refused f) => .fails (f.locate .syntaxInconsistency span)
  | .error .crash => .crashes

def made? : Verdict → Option Entry
  | .passes made => made
  | .fails _ | .ends _ | .crashes => none

def Passes (v : Verdict) : Prop := ∃ made, v = .passes made

/-- The section goes on after the statement. -/
def GoesOn : Verdict → Prop
  | .passes _ | .fails _ => True
  | .ends _ | .crashes => False

def failure? (table : String) : Verdict → Option Failure
  | .fails f => some f
  | .ends f => some (.within (.tableSection table) f)
  | .passes _ | .crashes => none

end Verdict

def SectionState.workspace? (s : SectionState) : Outcome Workspace := do
  let scope ← match s.scope with
    | some scope => pure scope
    | none => Scope.create s.stateCount (.ofSeed s.seed)
  return { registry := s.session.registry, scope := scope }

def SectionState.working {α : Type} (s : SectionState) (act : WorkspaceM α) : Except Stop α :=
  s.workspace?.bind fun w => (runFrom act w).1

/-- What becomes of the statement in this state of the section. -/
def Statement.verdict (s : SectionState) : Statement → Verdict
  | .directive name value symmetry span =>
    let word := lower (trim name)
    if word = "n_states" || word = "states" then .ofVital (runFrom (Table.setStates value span) s).1
    else if word = "neighborhood" then .ofVital (runFrom (Table.setNeighborhood value span) s).1
    else if word = "symmetries" then .ofVital (runFrom (Table.setSymmetry value symmetry span) s).1
    else .fails ((Failure.of span (.unknownDirective name)).locate .syntaxInconsistency span)
  | .var name value span => .ofLocal span
      ((s.working (WorkspaceM.onScope (Scope.declaring name value span))).map fun _ => none)
  | .transition t =>
    if s.neighborhood.isNone then .ofVital (.error (Table.needsNeighborhood t.span))
    else .ofLocal t.span ((s.working (Table.entry s.neighborhood s.symmetry t)).map some)

def Statement.span : Statement → Span
  | .directive _ _ _ span | .var _ _ span => span
  | .transition t => t.span

/-! ### What is watched -/

def Event.failure? : Event → Option Failure
  | .rejected _ _ f | .abandoned _ f => some f
  | _ => none

def Event.section? : Event → Option CompiledSection
  | .compiled c => some c
  | _ => none

namespace SectionState

variable {s s₁ s₂ : SectionState} {fs gs : List Failure} {es es' : List Entry}

/-- Between the two states of a section these entries were added, and these failures were reported
and told of. No section was told of. -/
structure Brings (fs : List Failure) (es : List Entry) (s s' : SectionState) : Prop where
  entries : s'.entries.toList = s.entries.toList ++ es
  failures : s'.failures.toList = s.failures.toList ++ fs
  events : ∃ events : List Event, s'.session.events.toList = s.session.events.toList ++ events ∧
    events.filterMap Event.failure? = fs ∧ events.filterMap Event.section? = []

lemma Brings.trans (h : Brings fs es s s₁) (h' : Brings gs es' s₁ s₂) :
    Brings (fs ++ gs) (es ++ es') s s₂ := by
  obtain ⟨events, he, hfs, hsec⟩ := h.events
  obtain ⟨events', he', hgs, hsec'⟩ := h'.events
  refine ⟨by rw [h'.entries, h.entries, List.append_assoc],
    by rw [h'.failures, h.failures, List.append_assoc], events ++ events', ?_, ?_, ?_⟩
  · rw [he', he, List.append_assoc]
  · rw [List.filterMap_append, hfs, hgs]
  · rw [List.filterMap_append, hsec, hsec']
    rfl

instance : Std.Refl (Brings [] []) := ⟨fun _ => ⟨by simp, by simp, [], by simp, rfl, rfl⟩⟩

instance : IsTrans SectionState (Brings [] []) := ⟨fun _ _ _ h h' => h.trans h'⟩

lemma brings_noting (s : SectionState) {e : Event} (hf : e.failure? = none)
    (hc : e.section? = none) : Brings [] [] s (s.noting e) :=
  ⟨by simp [noting], by simp [noting], [e], by simp [noting], by simp [hf], by simp [hc]⟩

lemma brings_rejecting (s : SectionState) (span : Span) (f : Failure) :
    Brings [f.locate .syntaxInconsistency span] [] s (s.rejecting span f) :=
  ⟨by simp [rejecting, noting], by simp [rejecting, noting],
    [.rejected s.table span (f.locate .syntaxInconsistency span)],
    by simp [rejecting, noting], rfl, rfl⟩

lemma brings_taking (s : SectionState) (w : Workspace) : Brings [] [] s (s.taking w) :=
  ⟨by simp [taking], by simp [taking], [], by simp [taking], rfl, rfl⟩

end SectionState

/-! ### One statement -/

namespace Table

variable {pr : Proviso} {s : SectionState}

open SectionState

lemma steps_modify {f : SectionState → SectionState} {es : List Entry}
    (hentries : ∀ s, (f s).entries.toList = s.entries.toList ++ es)
    (hfailures : ∀ s, (f s).failures = s.failures)
    (hevents : ∀ s, (f s).session.events = s.session.events) :
    Steps (Brings [] es) (modify f : SectionM PUnit) :=
  .modify fun s => ⟨hentries s, by simp [hfailures], [], by simp [hevents], rfl, rfl⟩

lemma steps_note {e : Event} (hf : e.failure? = none) (hc : e.section? = none) :
    Steps (Brings [] []) (note e) := fun s => brings_noting s hf hc

lemma setStates_brings (value : String) (span : Span) :
    Steps (Brings [] []) (setStates value span) := by
  intro s
  obtain ⟨c, hrun⟩ | ⟨n, -, -, -, hrun⟩ := setStates_cases value span s <;> rw [hrun]
  · exact refl_of (Brings [] []) s
  · exact ⟨by simp, by simp, [], by simp, rfl, rfl⟩

lemma setNeighborhood_brings (value : String) (span : Span) :
    Steps (Brings [] []) (setNeighborhood value span) := by
  refine Steps.get.bind fun s => ?_
  have hrest : Steps (Brings [] []) (do
      let nb ← locating .geometry span (liftM (Neighborhood.parse value) : SectionM Neighborhood)
      modify fun s => { s with
        neighborhood := some nb
        symmetry := if s.neighborhood = some nb then s.symmetry else none }
      note (.neighborhood (← get).table nb) : SectionM Unit) := by
    refine (Steps.locating (.failing _)).bind fun nb => ?_
    refine Steps.bind (steps_modify ?_ ?_ ?_) fun _ => Steps.get.bind fun _ => steps_note ?_ ?_
    · simp
    all_goals intros; rfl
  exact .ite hrest ((Steps.refuse _ _).bind fun _ => hrest)

lemma setSymmetry_brings (value : String) (e : Option SymmetryExpr) (span : Span) :
    Steps (Brings [] []) (setSymmetry value e span) := by
  refine Steps.get.bind fun s => ?_
  split
  · have hreg : ∀ {α : Type} (act : RegistryM α), Steps (Brings [] []) (onRegistry act) :=
      fun act s => ⟨by simp, by simp, [], by simp, rfl, rfl⟩
    refine (hreg _).bind fun t => ?_
    refine Steps.bind (steps_modify ?_ ?_ ?_) fun _ => Steps.get.bind fun _ => steps_note ?_ ?_
    · simp
    all_goals intros; rfl
  · exact .throw _

end Table

def SectionState.adding (s : SectionState) (e : Entry) : SectionState := { s with
  entries := s.entries.push e
  stats := { s.stats with
    transitions := s.stats.transitions + 1
    branches := s.stats.branches + e.rows.length
    auxiliaries := s.stats.auxiliaries + e.auxiliaryRows.length } }

/-- What the verdict says of how the statement ends and of what it brings. -/
def Verdict.Holds (s : SectionState) : Verdict → Except Stop Unit × SectionState → Prop
  | .passes made, p => p.1 = .ok ⟨⟩ ∧ s.Brings [] made.toList p.2
  | .fails f, p => p.1 = .ok ⟨⟩ ∧ s.Brings [f] [] p.2
  | .ends f, p => p.1 = .error (.refused f) ∧ s.Brings [] [] p.2
  | .crashes, p => p.1 = .error .crash

namespace Table

variable {pr : Proviso} {s : SectionState} {α : Type}

open SectionState

lemma ofVital_holds {act : SectionM Unit} (h : Steps (Brings [] []) act) :
    (Verdict.ofVital (runFrom act s).1).Holds s (runFrom act s) := by
  rcases hrun : runFrom act s with ⟨(f | _) | _, s₁⟩
  · exact ⟨rfl, h.run hrun⟩
  · exact rfl
  · exact ⟨rfl, h.run hrun⟩

lemma working_eq {scope : Scope} (h : Opens s scope) (act : WorkspaceM α) :
    s.working act = (runFrom act ⟨s.session.registry, scope⟩).1 := by
  unfold working workspace?
  rcases h with h | ⟨h, hcreate⟩
  · rw [h]
    rfl
  · rw [h]
    dsimp only
    rw [hcreate]
    rfl

/-- The verdict on what the section attempts and then goes on with. -/
lemma attempt_holds (hs : s.Sound pr) (span : Span) (act : WorkspaceM α) (made : α → Option Entry)
    {next : Option α → SectionM Unit} (hok : ∀ a s, (runFrom (next a) s).1 = .ok ⟨⟩)
    (hnext : ∀ a, Steps (Brings [] (a.bind made).toList) (next a)) :
    (Verdict.ofLocal span ((s.working act).map made)).Holds s
      (runFrom (attempt span act >>= next) s) := by
  obtain ⟨scope, hopens⟩ := exists_opens hs.count.2
  rw [working_eq hopens, runFrom_bind, runFrom_attempt hopens]
  rcases runFrom act ⟨s.session.registry, scope⟩ with ⟨(f | _) | a, w⟩
  · have hbrings := (brings_taking s w).trans (brings_rejecting (s.taking w) span f)
    exact ⟨hok _ _, by simpa using hbrings.trans (hnext none _)⟩
  · exact rfl
  · exact ⟨hok _ _, (brings_taking s w).trans (hnext (some a) _)⟩

/-- **The verdict on a statement** says how it ends and what it brings. -/
lemma obey_holds (hs : s.Sound pr) (st : Statement) :
    (st.verdict s).Holds s (runFrom (obey st) s) := by
  cases st with
  | directive name value symmetry span =>
    unfold obey Statement.verdict
    dsimp only
    split
    · exact ofVital_holds (setStates_brings value span)
    split
    · exact ofVital_holds (setNeighborhood_brings value span)
    split
    · exact ofVital_holds (setSymmetry_brings value symmetry span)
    · exact ⟨rfl, brings_rejecting s span _⟩
  | var name value span =>
    refine attempt_holds hs span _ (fun _ => none) (fun _ _ => rfl) fun made => ?_
    rw [Option.bind_fun_none]
    exact fun s => refl_of (Brings [] []) s
  | transition t =>
    unfold obey Statement.verdict
    rw [runFrom_bind, runFrom_get]
    dsimp only
    split
    · exact ofVital_holds (s := s) (.throw _)
    · refine attempt_holds hs t.span (entry s.neighborhood s.symmetry t) some (fun made s => ?_)
        fun made s => ?_
      · cases made <;> rfl
      · cases made with
        | none =>
          exact ⟨(List.append_nil _).symm, (List.append_nil _).symm, [], (List.append_nil _).symm,
            rfl, rfl⟩
        | some e =>
          exact ⟨Array.toList_push, (List.append_nil _).symm, [], (List.append_nil _).symm, rfl,
            rfl⟩

/-! ### Statements that pass -/

section Passing

variable {scope scope' : Scope} {w : Workspace} {nb : Neighborhood}

lemma verdict_var {name : String} {value : Expr} {span : Span} {v : Variable}
    (hopens : Opens s scope)
    (h : runFrom (Scope.declaring name value span) scope = (.ok v, scope')) :
    (Statement.var name value span).verdict s = .passes none := by
  rw [Statement.verdict, working_eq hopens, Rule.runFrom_onScope]
  dsimp only
  rw [h]
  rfl

lemma runFrom_obey_var {name : String} {value : Expr} {span : Span} {v : Variable}
    (hopens : Opens s scope)
    (h : runFrom (Scope.declaring name value span) scope = (.ok v, scope')) :
    runFrom (obey (.var name value span)) s =
      (.ok ⟨⟩, s.taking ⟨s.session.registry, scope'⟩) := by
  rw [obey, declareVariable, runFrom_bind, runFrom_attempt hopens, Rule.runFrom_onScope]
  dsimp only
  rw [h]
  rfl

lemma verdict_transition {tr : Transition} {e : Entry} (hnb : s.neighborhood = some nb)
    (hopens : Opens s scope)
    (h : runFrom (entry (some nb) s.symmetry tr) ⟨s.session.registry, scope⟩ = (.ok e, w)) :
    (Statement.transition tr).verdict s = .passes (some e) := by
  rw [Statement.verdict, hnb, if_neg (by simp), working_eq hopens, h]
  rfl

lemma runFrom_obey_transition {tr : Transition} {e : Entry} (hnb : s.neighborhood = some nb)
    (hopens : Opens s scope)
    (h : runFrom (entry (some nb) s.symmetry tr) ⟨s.session.registry, scope⟩ = (.ok e, w)) :
    runFrom (obey (.transition tr)) s = (.ok ⟨⟩, (s.taking w).adding e) := by
  rw [obey, runFrom_bind, runFrom_get]
  dsimp only
  rw [if_neg (by simp [hnb]), addTransition, runFrom_bind, runFrom_attemptEntry, hnb,
    runFrom_attempt hopens, h]
  rfl

end Passing

/-! ### All statements -/

/-- The statements that the section comes to, and what becomes of them: all of them, or those up to
one that ends the section. -/
def trace : List Statement → SectionState → List (Statement × Verdict)
  | [], _ => []
  | st :: rest, s =>
    match st.verdict s with
    | .ends f => [(st, .ends f)]
    | .crashes => [(st, .crashes)]
    | .passes made => (st, .passes made) :: trace rest (runFrom (obey st) s).2
    | .fails f => (st, .fails f) :: trace rest (runFrom (obey st) s).2

/-- The verdicts are on the statements in their order: on all of them, or on those up to the first
after which the section does not go on. -/
def Follow (statements : List Statement) (verdicts : List (Statement × Verdict)) : Prop :=
  ∃ before : List (Statement × Verdict), (∀ p ∈ before, p.2.GoesOn) ∧
    (verdicts = before ∧ statements = before.map (·.1) ∨
      ∃ st v left, ¬ Verdict.GoesOn v ∧ verdicts = before ++ [(st, v)] ∧
        statements = before.map (·.1) ++ st :: left)

lemma Follow.cons {statements : List Statement} {verdicts : List (Statement × Verdict)}
    (h : Follow statements verdicts) {v : Verdict} (hv : v.GoesOn) (st : Statement) :
    Follow (st :: statements) ((st, v) :: verdicts) := by
  obtain ⟨before, hbefore, ⟨rfl, rfl⟩ | ⟨st', v', left, hv', rfl, rfl⟩⟩ := h
  · exact ⟨(st, v) :: verdicts, List.forall_mem_cons.mpr ⟨hv, hbefore⟩, .inl ⟨rfl, rfl⟩⟩
  · exact ⟨(st, v) :: before, List.forall_mem_cons.mpr ⟨hv, hbefore⟩,
      .inr ⟨st', v', left, hv', rfl, rfl⟩⟩

lemma follow_trace (statements : List Statement) (s : SectionState) :
    Follow statements (trace statements s) := by
  induction statements generalizing s with
  | nil => exact ⟨[], by simp, .inl ⟨rfl, rfl⟩⟩
  | cons st rest ih =>
    rw [trace]
    cases st.verdict s with
    | passes made => exact (ih _).cons (v := .passes made) trivial st
    | fails f => exact (ih _).cons (v := .fails f) trivial st
    | ends f => exact ⟨[], by simp, .inr ⟨st, .ends f, rest, id, rfl, rfl⟩⟩
    | crashes => exact ⟨[], by simp, .inr ⟨st, .crashes, rest, id, rfl, rfl⟩⟩

/-- The section goes on after all these statements, and they have brought the failures and the
entries that their verdicts name. -/
structure Goes (s s' : SectionState) (l : List (Statement × Verdict))
    (fs : List Failure) : Prop where
  goesOn : ∀ p ∈ l, p.2.GoesOn
  failures : ∀ table, l.filterMap (·.2.failure? table) = fs
  brings : s.Brings fs (l.filterMap (·.2.made?)) s'

lemma Goes.cons {s s₁ s₂ : SectionState} {l : List (Statement × Verdict)} {v : Verdict}
    {fs gs : List Failure} (hv : v.GoesOn) (hfs : ∀ table, (v.failure? table).toList = fs)
    (hs : s.Brings fs v.made?.toList s₁) (h : Goes s₁ s₂ l gs) (st : Statement) :
    Goes s s₂ ((st, v) :: l) (fs ++ gs) := by
  refine ⟨List.forall_mem_cons.mpr ⟨hv, h.goesOn⟩, fun table => ?_, ?_⟩
  · rw [List.filterMap_cons, h.failures table, ← hfs table]
    cases v.failure? table <;> rfl
  · have hcons : ((st, v) :: l).filterMap (·.2.made?) =
        v.made?.toList ++ l.filterMap (·.2.made?) := by
      rw [List.filterMap_cons]
      cases v.made? <;> rfl
    rw [hcons]
    exact hs.trans h.brings

/-- A section starts without entries, so it has those that its statements have become. -/
lemma Goes.entries_eq {t : Table} {seed : UInt64} {session : Session} {s : SectionState}
    {l : List (Statement × Verdict)} {fs : List Failure} (h : Goes (t.start seed session) s l fs) :
    s.entries.toList = l.filterMap (·.2.made?) :=
  h.brings.entries

/-- How a section ends, going by what becomes of its statements. -/
inductive Concludes (s : SectionState) :
    List (Statement × Verdict) → Except Stop Unit × SectionState → Prop
  | done {s' : SectionState} {l : List (Statement × Verdict)} {fs : List Failure}
    (h : Goes s s' l fs) : Concludes s l (.ok ⟨⟩, s')
  | ended {s' : SectionState} {l : List (Statement × Verdict)} {fs : List Failure}
    (h : Goes s s' l fs) (st : Statement) (f : Failure) :
    Concludes s (l ++ [(st, .ends f)]) (.error (.refused f), s')
  | crashed {s' : SectionState} (l : List (Statement × Verdict)) (st : Statement) :
    Concludes s (l ++ [(st, .crashes)]) (.error .crash, s')

lemma Concludes.cons {s s₁ : SectionState} {v : Verdict} {fs : List Failure} (hv : v.GoesOn)
    (hfs : ∀ table, (v.failure? table).toList = fs) (hs : s.Brings fs v.made?.toList s₁)
    {l : List (Statement × Verdict)} {p : Except Stop Unit × SectionState} (h : Concludes s₁ l p)
    (st : Statement) : Concludes s ((st, v) :: l) p := by
  cases h with
  | done h => exact .done (h.cons hv hfs hs st)
  | ended h st' f =>
    rw [← List.cons_append]
    exact .ended (h.cons hv hfs hs st) st' f
  | crashed l st' =>
    rw [← List.cons_append]
    exact .crashed _ st'

lemma goes_nil (h : s.Brings [] [] s') : Goes s s' [] [] := ⟨by simp, fun _ => rfl, h⟩

/-- **The statements of a section** end as their verdicts say, and bring what these say. -/
lemma forM_obey_concludes (hs : s.Sound .none) (statements : List Statement) :
    Concludes s (trace statements s) (runFrom (statements.forM obey) s) := by
  induction statements generalizing s with
  | nil => exact .done (goes_nil (refl_of (Brings [] []) s))
  | cons st rest ih =>
    have hsound := obey_sound hs st.meets_none
    have hverdict := obey_holds hs st
    rw [List.forM_eq_forM, List.forM_cons, runFrom_bind, trace]
    rcases hrun : runFrom (obey st) s with ⟨x, s₁⟩
    rw [hrun] at hverdict hsound
    cases hv : st.verdict s with
    | passes made =>
      rw [hv] at hverdict
      obtain ⟨rfl, hbrings⟩ := hverdict
      exact (ih hsound).cons (v := .passes made) trivial (fun _ => rfl) hbrings st
    | fails f =>
      rw [hv] at hverdict
      obtain ⟨rfl, hbrings⟩ := hverdict
      exact (ih hsound).cons (v := .fails f) trivial (fun _ => rfl) hbrings st
    | ends f =>
      rw [hv] at hverdict
      obtain ⟨rfl, hbrings⟩ := hverdict
      exact .ended (goes_nil hbrings) st f
    | crashes =>
      rw [hv] at hverdict
      obtain rfl : x = .error .crash := hverdict
      exact .crashed [] st

/-- Every verdict of a trace is on its statement, in the state that the statements before it
leave. -/
lemma exists_verdict (hs : s.Sound .none) {statements : List Statement}
    {st : Statement} {v : Verdict}
    (h : (st, v) ∈ trace statements s) : ∃ before after s', statements = before ++ st :: after ∧
      runFrom (before.forM obey) s = (.ok ⟨⟩, s') ∧ s'.Sound .none ∧ v = st.verdict s' := by
  induction statements generalizing s with
  | nil => cases h
  | cons st' rest ih =>
    have hverdict := obey_holds hs st'
    have hsound := obey_sound hs st'.meets_none
    -- the first statement goes on, and the verdict is on one of the others
    have hlater : (runFrom (obey st') s).1 = .ok ⟨⟩ →
        (st, v) ∈ trace rest (runFrom (obey st') s).2 →
        ∃ before after s', st' :: rest = before ++ st :: after ∧
          runFrom (before.forM obey) s = (.ok ⟨⟩, s') ∧ s'.Sound .none ∧ v = st.verdict s' := by
      intro hok hmem
      obtain ⟨before, after, s', rfl, hrun, hs', hv⟩ := ih hsound hmem
      refine ⟨st' :: before, after, s', rfl, ?_, hs', hv⟩
      rw [List.forM_eq_forM, List.forM_cons, runFrom_bind, ← hrun]
      rcases hobey : runFrom (obey st') s with ⟨x, s₁⟩
      rw [hobey] at hok
      obtain rfl : x = .ok ⟨⟩ := hok
      rfl
    rw [trace] at h
    cases hv : st'.verdict s with
    | passes made | fails f =>
      rw [hv] at h hverdict
      rcases List.mem_cons.mp h with h | h
      · cases h
        exact ⟨[], rest, s, rfl, rfl, hs, hv.symm⟩
      · exact hlater hverdict.1 h
    | ends f | crashes =>
      rw [hv] at h
      cases List.mem_singleton.mp h
      exact ⟨[], rest, s, rfl, rfl, hs, hv.symm⟩

/-! ### The compilation -/

lemma runFrom_process (t : Table) (s : SectionState) : runFrom t.process s =
    match runFrom (t.statements.forM obey) s with
    | (.ok _, s') =>
      if s'.failures.toList.isEmpty then runFrom (.ok <$> finish) s'
      else (.ok (.error s'.failures.toList), s')
    | (.error (.refused f), s') =>
      (.ok (.error (s'.failures.toList ++ [.within (.tableSection t.name) f])),
        s'.noting (.abandoned t.name f))
    | (.error .crash, s') => (.error .crash, s') := by
  unfold process
  rw [runFrom_bind, runFrom_tryCatch, runFrom_bind]
  rcases runFrom (t.statements.forM obey) s with ⟨(f | _) | _, s'⟩
  · rfl
  · rfl
  · simp only [runFrom_pure, runFrom_bind, runFrom_get, runFrom_ite]
    split
    · rw [runFrom_map]
      rcases runFrom finish s' with ⟨_ | _, _⟩ <;> rfl
    · rfl

lemma ne_crashes_of_goesOn {v : Verdict} (h : v.GoesOn) : v ≠ .crashes := by
  rintro rfl
  exact h

/-- What goes on without a failure passes. -/
lemma passes_of_failure?_eq_none {v : Verdict} {table : String} (hv : v.GoesOn)
    (h : v.failure? table = none) : v.Passes := by
  cases v with
  | passes made => exact ⟨made, rfl⟩
  | fails f => cases h
  | ends f => cases hv
  | crashes => cases hv

/-- Where nothing is refused and the section goes on, everything passes. -/
lemma Goes.passes {s s' : SectionState} {l : List (Statement × Verdict)} (h : Goes s s' l []) :
    ∀ p ∈ l, p.2.Passes := fun p hp =>
  passes_of_failure?_eq_none (h.goesOn p hp) (List.filterMap_eq_nil_iff.mp (h.failures "") p hp)

lemma failure?_eq_none_of_passes {v : Verdict} (h : v.Passes) (table : String) :
    v.failure? table = none := by
  obtain ⟨made, rfl⟩ := h
  rfl

/-- Statements that all pass go on, and nothing is refused. -/
lemma Concludes.of_passes {s : SectionState} {l : List (Statement × Verdict)}
    {p : Except Stop Unit × SectionState} (h : Concludes s l p) (hpasses : ∀ q ∈ l, q.2.Passes) :
    ∃ s', p = (.ok ⟨⟩, s') ∧ Goes s s' l [] := by
  cases h with
  | @done s' _ fs hgoes =>
    have hnone : l.filterMap (·.2.failure? "") = [] := List.filterMap_eq_nil_iff.mpr fun q hq =>
      failure?_eq_none_of_passes (hpasses q hq) _
    obtain rfl : fs = [] := (hgoes.failures "").symm.trans hnone
    exact ⟨s', rfl, hgoes⟩
  | ended hgoes st f =>
    obtain ⟨made, hmade⟩ := hpasses _ (List.mem_append_right _ List.mem_cons_self)
    cases hmade
  | crashed l st =>
    obtain ⟨made, hmade⟩ := hpasses _ (List.mem_append_right _ List.mem_cons_self)
    cases hmade

/-- **Where every statement passes** there is a compiled section: what the statements have come to,
in a section that was sound throughout, is what is written. -/
lemma compile_passes {session : Session} {t : Table} {seed : UInt64}
    (hr : session.registry.Reachable) (hmeets : ∀ st ∈ t.statements, st.Meets pr)
    (hpasses : ∀ p ∈ trace t.statements (t.start seed session), p.2.Passes) :
    ∃ c session' s r scope parts l, runFrom (t.compile seed) session = (.ok (.ok c), session') ∧
      s.Sound pr ∧ Goes (t.start seed session) s (trace t.statements (t.start seed session)) [] ∧
      session'.events = (s.session.events.push (.chosen s.table c.symmetry s.entries.size)).push
        (.compiled c) ∧
      Writes s c r scope parts l := by
  have hsound := forM_obey_sound (start_sound hr t seed) hmeets
  obtain ⟨s, hrun, hgoes⟩ :=
    (forM_obey_concludes (start_sound hr t seed) t.statements).of_passes hpasses
  rw [hrun] at hsound
  have hnone : s.failures.toList.isEmpty = true := by
    rw [hgoes.brings.failures]
    rfl
  obtain ⟨c, s', r, scope, parts, l, hfinish, hevents, -, -, hwrites⟩ := finish_ok hsound
  refine ⟨c, s'.session, s, r, scope, parts, l, ?_, hsound, hgoes, hevents, hwrites⟩
  rw [runFrom_compile, runFrom_process, hrun]
  dsimp only
  rw [if_pos hnone, runFrom_map, hfinish]
  rfl

/-- **A compiled section** is what its statements have come to; they have all passed. -/
lemma compile_writes {session session' : Session} {t : Table} {seed : UInt64} {c : CompiledSection}
    (hr : session.registry.Reachable) (hmeets : ∀ st ∈ t.statements, st.Meets pr)
    (h : runFrom (t.compile seed) session = (.ok (.ok c), session')) :
    ∃ s r scope parts l, s.Sound pr ∧
      Goes (t.start seed session) s (trace t.statements (t.start seed session)) [] ∧
      Writes s c r scope parts l := by
  have hpasses : ∀ p ∈ trace t.statements (t.start seed session), p.2.Passes := by
    have hends := forM_obey_concludes (start_sound hr t seed) t.statements
    rw [runFrom_compile, runFrom_process] at h
    revert h hends
    generalize trace t.statements (t.start seed session) = verdicts
    generalize runFrom (t.statements.forM obey) (t.start seed session) = run
    intro h hends
    cases hends with
    | @done s _ fs hgoes =>
      have hreported : s.failures.toList = fs := by simpa [start] using hgoes.brings.failures
      dsimp only at h
      rw [hreported] at h
      split at h
      · next hempty =>
        obtain rfl : fs = [] := by simpa using hempty
        exact hgoes.passes
      · cases h
    | ended hgoes st f => cases h
    | crashed l st => cases h
  obtain ⟨c', session₁, s, r, scope, parts, l, hrun, hs, hgoes, -, hwrites⟩ :=
    compile_passes hr hmeets hpasses
  rw [h] at hrun
  cases hrun
  exact ⟨s, r, scope, parts, l, hs, hgoes, hwrites⟩

/-- A compilation leaves a registry that has come about by requests. -/
lemma compile_reachable {session : Session} (hr : session.registry.Reachable) (t : Table)
    (seed : UInt64) : (runFrom (t.compile seed) session).2.registry.Reachable := by
  have hsound : (runFrom (t.statements.forM obey) (t.start seed session)).2.Sound .none :=
    forM_obey_sound (start_sound hr t seed) fun st _ => st.meets_none
  rw [runFrom_compile, runFrom_process]
  rcases hrun : runFrom (t.statements.forM obey) (t.start seed session) with ⟨(f | _) | _, s⟩ <;>
    rw [hrun] at hsound
  · exact hsound.registry
  · exact hsound.registry
  · dsimp only
    split
    · obtain ⟨c, s', r, scope, parts, l, hfinish, -, hregistry, -, hwrites⟩ := finish_ok hsound
      rw [runFrom_map, hfinish]
      exact hregistry ▸ hsound.registry.trans hwrites.common.history
    · exact hsound.registry

/-- **The failures that are returned** are those of the statements. -/
lemma compile_failures {session session' : Session} {t : Table} {seed : UInt64} {fs : List Failure}
    (hr : session.registry.Reachable)
    (h : runFrom (t.compile seed) session = (.ok (.error fs), session')) :
    fs = (trace t.statements (t.start seed session)).filterMap (·.2.failure? t.name) := by
  have hends := forM_obey_concludes (start_sound hr t seed) t.statements
  rw [runFrom_compile, runFrom_process] at h
  revert h hends
  generalize trace t.statements (t.start seed session) = verdicts
  generalize runFrom (t.statements.forM obey) (t.start seed session) = run
  intro h hends
  cases hends with
  | @done s _ fs' hgoes =>
    have hreported : s.failures.toList = fs' := by simpa [start] using hgoes.brings.failures
    dsimp only at h
    split at h
    · rw [runFrom_map] at h
      rcases hfinish : runFrom finish s with ⟨_ | _, _⟩ <;> rw [hfinish] at h <;> cases h
    · cases h
      rw [hreported, hgoes.failures]
  | @ended s l fs' hgoes st f =>
    have hreported : s.failures.toList = fs' := by simpa [start] using hgoes.brings.failures
    cases h
    rw [hreported, List.filterMap_append, hgoes.failures]
    rfl
  | crashed l st => cases h

/-- The result is a section if all statements pass, and the failures of the statements if not all
do. Only a section that is returned is told of. -/
def Answers (verdicts : List (Statement × Verdict)) (failures : List Failure)
    (told : List CompiledSection) : Except (List Failure) CompiledSection → Prop
  | .ok c => (∀ p ∈ verdicts, p.2.Passes) ∧ told = [c]
  | .error fs => (∃ p ∈ verdicts, ¬ p.2.Passes) ∧ fs = failures ∧ told = []

/-- **What a compilation returns and tells of.** Unless a statement crashes, the compilation comes
to a section exactly if all statements pass. Otherwise it returns their failures in order, of which
one that ended the section is last and says so. Whoever watches is told of the same failures, and of
the section once if there is one. -/
theorem compile_collects_failures {session : Session} (hr : session.registry.Reachable) (t : Table)
    (seed : UInt64) :
    let verdicts := trace t.statements (t.start seed session)
    let failures := verdicts.filterMap (·.2.failure? t.name)
    Follow t.statements verdicts ∧
      ((∃ p ∈ verdicts, p.2 = .crashes) ∧ (runFrom (t.compile seed) session).1 = .error .crash ∨
        (∀ p ∈ verdicts, p.2 ≠ .crashes) ∧ ∃ result session' events,
          runFrom (t.compile seed) session = (.ok result, session') ∧
          session'.events.toList = session.events.toList ++ events ∧
          (events.filterMap Event.failure?).map Failure.kind = failures.map Failure.kind ∧
          Answers verdicts failures (events.filterMap Event.section?) result) := by
  refine ⟨follow_trace _ _, ?_⟩
  by_cases hpasses : ∀ p ∈ trace t.statements (t.start seed session), p.2.Passes
  · obtain ⟨c, session', s, r, scope, parts, l, hrun, -, hgoes, hdone, -⟩ :=
      compile_passes hr (fun st _ => st.meets_none) hpasses
    obtain ⟨events, hevents, hfailures, hsections⟩ := hgoes.brings.events
    refine .inr ⟨fun p hp => ne_crashes_of_goesOn (hgoes.goesOn p hp), .ok c, session',
      events ++ [.chosen s.table c.symmetry s.entries.size, .compiled c], hrun, ?_, ?_, hpasses, ?_⟩
    · rw [hdone, Array.toList_push, Array.toList_push, hevents]
      simp [start]
    · simp [List.filterMap_append, hfailures, Event.failure?, hgoes.failures t.name]
    · rw [List.filterMap_append, hsections]
      rfl
  have hends := forM_obey_concludes (start_sound hr t seed) t.statements
  rw [runFrom_compile, runFrom_process]
  revert hpasses hends
  generalize trace t.statements (t.start seed session) = verdicts
  generalize runFrom (t.statements.forM obey) (t.start seed session) = run
  intro hpasses hends
  cases hends with
  | @done s' _ fs hgoes =>
    obtain ⟨events, hevents, hfailures, hsections⟩ := hgoes.brings.events
    have hreported : s'.failures.toList = fs := by simpa [start] using hgoes.brings.failures
    refine .inr ⟨fun p hp => ne_crashes_of_goesOn (hgoes.goesOn p hp), ?_⟩
    -- not everything passes, so something was refused
    have hsome : ¬ fs.isEmpty = true := by
      intro hempty
      obtain rfl : fs = [] := by simpa using hempty
      exact hpasses hgoes.passes
    rw [hgoes.failures t.name]
    dsimp only
    rw [hreported, if_neg hsome]
    exact ⟨.error fs, s'.session, events, rfl,
      hevents, by rw [hfailures], by simpa only [not_forall, exists_prop] using hpasses,
      rfl, hsections⟩
  | @ended s' l fs hgoes st f =>
    obtain ⟨events, hevents, hfailures, hsections⟩ := hgoes.brings.events
    have hreported : s'.failures.toList = fs := by simpa [start] using hgoes.brings.failures
    refine .inr ⟨fun p hp => ?_, ?_⟩
    · rcases List.mem_append.mp hp with hp | hp
      · exact ne_crashes_of_goesOn (hgoes.goesOn p hp)
      · rw [List.mem_singleton.mp hp]
        intro hcrash
        cases hcrash
    rw [List.filterMap_append, hgoes.failures t.name]
    dsimp only
    rw [hreported]
    refine ⟨_, _, events ++ [.abandoned t.name f], rfl, ?_, ?_,
      by simpa only [not_forall, exists_prop] using hpasses, rfl, ?_⟩
    · simp [SectionState.noting, hevents, start]
    · rw [List.filterMap_append, hfailures, List.map_append, List.map_append]
      rfl
    · simp [List.filterMap_append, hsections, Event.section?]
  | crashed l st =>
    exact .inl ⟨⟨_, List.mem_append_right _ List.mem_cons_self, rfl⟩, rfl⟩

/-- A directive that nobody knows is left out, and a number of states that is none ends the
section before its third statement. -/
def mistaken : Table where
  name := "mistaken"
  statements := [
    .directive "color" "red" none ⟨1, 1, 1⟩,
    .directive "states" "few" none ⟨2, 1, 1⟩,
    .directive "color" "blue" none ⟨3, 1, 1⟩]

theorem compile_collects_failures_mistaken : ∃ session',
    runFrom (mistaken.compile 0) {} = (.ok (.error [
      .of ⟨1, 1, 1⟩ (.unknownDirective "color"),
      .within (.tableSection "mistaken") (.of ⟨2, 1, 1⟩ (.stateCount "few" 256))]), session') := by
  have htrace : trace mistaken.statements (mistaken.start 0 {}) =
      [(.directive "color" "red" none ⟨1, 1, 1⟩,
        .fails (.of ⟨1, 1, 1⟩ (.unknownDirective "color"))),
        (.directive "states" "few" none ⟨2, 1, 1⟩,
          .ends (.of ⟨2, 1, 1⟩ (.stateCount "few" 256)))] := by
    cbv
  have hreach : (Session.registry {}).Reachable := .start
  obtain ⟨-, h⟩ := compile_collects_failures hreach mistaken 0
  rw [htrace] at h
  obtain ⟨⟨p, hp, hcrash⟩, -⟩ | ⟨-, result, session', events, hrun, -, -, hresult⟩ := h
  · rcases List.mem_pair.mp hp with rfl | rfl <;> cases hcrash
  cases result with
  | ok c =>
    obtain ⟨made, hmade⟩ := hresult.1 _ List.mem_cons_self
    cases hmade
  | error fs =>
    obtain ⟨-, rfl, -⟩ := hresult
    exact ⟨session', hrun⟩

end Table

end RuleTable
