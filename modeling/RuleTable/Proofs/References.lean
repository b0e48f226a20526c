import RuleTable.Proofs.Readback
import RuleTable.Proofs.Subjects
import RuleTable.Proofs.Variables
import RuleTable.Proofs.Verdicts

/-!
Referring to a variable by its name.

A declaration that passes puts a variable into the scope of its section, and no later statement
takes it out or declares the name again. A text in an expression is looked up under the same name,
unless it spells a number: then it is the number, also where a variable is called so.
-/

namespace RuleTable

open SectionM Text Yaml Interchange

/-! ### The scope of a section -/

namespace SectionState

/-- The scope, once it is made, only gets more variables. -/
def ScopeGrows (s s' : SectionState) : Prop :=
  ∀ scope, s.scope = some scope → ∃ scope', s'.scope = some scope' ∧ scope.Extends scope'

lemma scopeGrows_of_eq {s s' : SectionState} (h : s'.scope = s.scope) : s.ScopeGrows s' :=
  fun scope hs => ⟨scope, h.trans hs, .refl scope⟩

instance : Std.Refl ScopeGrows := ⟨fun _ => scopeGrows_of_eq rfl⟩

instance : IsTrans SectionState ScopeGrows := by
  refine ⟨fun s₁ s₂ s₃ h h' scope hs => ?_⟩
  obtain ⟨scope', hs', hext⟩ := h scope hs
  obtain ⟨scope'', hs'', hext'⟩ := h' scope' hs'
  exact ⟨scope'', hs'', hext.trans hext'⟩

end SectionState

namespace Table

open SectionState

lemma attempt_scopeGrows {α : Type} {act : WorkspaceM α}
    (h : Steps (Workspace.Develops Scope.Extends) act)
    (span : Span) : Steps ScopeGrows (attempt span act) := by
  intro s scope hs
  have hext := (h ⟨s.session.registry, scope⟩).2
  rw [runFrom_attempt (.inl hs)]
  rcases hrun : runFrom act ⟨s.session.registry, scope⟩ with ⟨(f | _) | a, w⟩ <;>
    rw [hrun] at hext <;>
    exact ⟨w.scope, rfl, hext⟩

lemma modify_scopeGrows {f : SectionState → SectionState} (h : ∀ s, (f s).scope = s.scope) :
    Steps ScopeGrows (modify f : SectionM PUnit) := .modify fun s => scopeGrows_of_eq (h s)

lemma setStates_scopeGrows (value : String) (span : Span) :
    Steps ScopeGrows (setStates value span) := by
  intro s
  obtain ⟨c, hrun⟩ | ⟨n, -, -, -, hrun⟩ := setStates_cases value span s <;> rw [hrun] <;>
    exact scopeGrows_of_eq rfl

lemma setNeighborhood_scopeGrows (value : String) (span : Span) :
    Steps ScopeGrows (setNeighborhood value span) := by
  intro s
  by_cases hempty : s.entries.isEmpty = true
  · rw [runFrom_setNeighborhood hempty]
    cases Neighborhood.parse value <;> exact scopeGrows_of_eq rfl
  · rw [runFrom_setNeighborhood_late hempty]
    exact refl_of ScopeGrows s

lemma setSymmetry_scopeGrows (value : String) (e : Option SymmetryExpr) (span : Span) :
    Steps ScopeGrows (setSymmetry value e span) := by
  intro s
  cases hnb : s.neighborhood with
  | none =>
    rw [runFrom_setSymmetry_early hnb]
    exact refl_of ScopeGrows s
  | some nb =>
    rw [runFrom_setSymmetry hnb]
    rcases runFrom (Registry.declare nb (e.getD { name := value, span := span })) s.session.registry
      with ⟨_ | t, r⟩ <;> exact scopeGrows_of_eq rfl

lemma declaring_extends (name : String) (value : Expr) (span : Span) :
    Steps Scope.Extends (Scope.declaring name value span) :=
  Steps.get.bind fun _ => (Steps.outcome _).bind fun states => Scope.define_extends name states span

/-- **A statement** takes no variable away. -/
lemma obey_scopeGrows (st : Statement) : Steps ScopeGrows (obey st) := by
  cases st with
  | directive name value symmetry span =>
    unfold obey
    exact .ite (setStates_scopeGrows value span) (.ite (setNeighborhood_scopeGrows value span)
      (.ite (setSymmetry_scopeGrows value symmetry span) fun s => scopeGrows_of_eq rfl))
  | var name value span =>
    exact (attempt_scopeGrows
      (Workspace.onScope_develops (declaring_extends name value span)) span).bind
      fun _ => .pure _
  | transition t =>
    refine Steps.get.bind fun s => ?_
    have hadd : Steps ScopeGrows (addTransition t) := by
      refine Steps.bind (Steps.get.bind fun s => attempt_scopeGrows (entry_develops _ _ t) t.span)
        fun made => Steps.bind (modify_scopeGrows ?_) fun _ => ?_
      · intro s
        rfl
      cases made with
      | none => exact .pure _
      | some e => exact modify_scopeGrows fun _ => rfl
    exact .ite ((Steps.throw _).bind fun _ => hadd) hadd

/-- **Any statements** take no variable away. -/
lemma forM_obey_scopeGrows (statements : List Statement) :
    Steps ScopeGrows (statements.forM obey) := by
  induction statements with
  | nil => exact .pure _
  | cons st rest ih =>
    rw [List.forM_eq_forM, List.forM_cons]
    exact (obey_scopeGrows st).bind fun _ => ih

/-! ### Declarations -/

variable {s : SectionState} {name : String} {value : Expr} {span : Span}

/-- A declaration passes if its variable can be declared. -/
lemma var_passes_iff {scope : Scope} (hopens : Opens s scope) :
    ((Statement.var name value span).verdict s).Passes ↔
      ∃ v scope', runFrom (Scope.declaring name value span) scope = (.ok v, scope') := by
  rw [Statement.verdict, working_eq hopens, Rule.runFrom_onScope]
  dsimp only
  rcases runFrom (Scope.declaring name value span) scope with ⟨(f | _) | v, scope'⟩ <;>
    simp [Verdict.Passes, Verdict.ofLocal, Except.map]

lemma runFrom_declaring {scope : Scope} {states : StateList} (h : scope.eval value = .ok states) :
    runFrom (Scope.declaring name value span) scope =
      runFrom (Scope.define name states span) scope := by
  rw [Scope.declaring, runFrom_bind, runFrom_get]
  dsimp only
  rw [runFrom_bind, runFrom_outcome, h]

/-- What is declared holds the states of its expression, and is found under its name from then
on. -/
lemma declaring_ok {scope scope' : Scope} {v : Variable}
    (h : runFrom (Scope.declaring name value span) scope = (.ok v, scope')) :
    v.name = name ∧ scope.eval value = .ok v.states ∧ scope'.lookup name = some v := by
  cases heval : scope.eval value with
  | error e =>
    rw [Scope.declaring, runFrom_bind, runFrom_get] at h
    dsimp only at h
    rw [runFrom_bind, runFrom_outcome, heval] at h
    cases h
  | ok states =>
    rw [runFrom_declaring heval, Scope.runFrom_define] at h
    split at h
    · cases h
    next hnone =>
    split at h
    · cases h
    split at h
    · cases h
    cases h
    exact ⟨rfl, rfl, Scope.lookup_declare (Option.not_isSome_iff_eq_none.mp hnone) states span⟩

lemma exists_opens_of_passes (h : ((Statement.var name value span).verdict s).Passes) :
    ∃ scope, Opens s scope := by
  rcases opens_or_error s with hopens | ⟨e, hscope, hcreate⟩
  · exact hopens
  · obtain ⟨made, hmade⟩ := h
    rw [Statement.verdict, working, workspace?, hscope] at hmade
    dsimp only at hmade
    rw [hcreate] at hmade
    cases e <;> cases hmade

end Table

/-! ### References -/

/-- The expression means the variable: it has the states of the variable, also as what slots are
mapped to, and in a slot of a transition it stands for the variable. The next state must be known,
so there the variable must hold one state only. -/
structure Scope.Means (s : Scope) (e : Expr) (v : Variable) : Prop where
  states : s.eval e = .ok v.states
  images : s.evalTarget e = .ok (v.states, false)
  cell : ∀ nb result, (result = true → v.states.unique? ≠ none) →
    runFrom (Rule.cell nb result e) s = (.ok (.free v), s)

lemma Scope.means_name {s : Scope} {name : String} {v : Variable} (h : s.lookup name = some v)
    (span : Span) : s.Means (.name name span) v := by
  have himages : s.evalTarget (.name name span) = .ok (v.states, false) := by
    rw [evalTarget, h]
    rfl
  refine ⟨?_, himages, fun nb result hresult => ?_⟩
  · rw [eval, himages]
    rfl
  · unfold Rule.cell
    rw [runFrom_bind, runFrom_get]
    dsimp only
    rw [h]
    dsimp only
    rw [Rule.freeCell, if_neg (by simpa using hresult)]
    rfl

/-- An element of a set that is not the ellipsis is read at its place. -/
lemma Interchange.elements_getElem? {place : Span} {ds : List Datum}
    {es : List Expr} {ellipsis : Bool}
    {i : ℕ} {d : Datum} (h : elements place ds = .ok (es, ellipsis)) (hi : ds[i]? = some d)
    (hd : isEllipsis d = false) : ∃ e, es[i]? = some e ∧ expr place d = .ok e := by
  induction ds generalizing es i with
  | nil => simp at hi
  | cons d' ds ih =>
    rw [elements] at h
    split at h
    · next hell =>
      split at h
      · next hnil =>
        cases i with
        | zero =>
          cases hi
          exact absurd hell (by simp [hd])
        | succ i => simp [List.isEmpty_iff.mp hnil] at hi
      · cases h
    split at h
    · cases h
    next e he =>
    split at h
    · cases h
    next es' ellipsis' hrest =>
    cases h
    cases i with
    | zero =>
      cases hi
      exact ⟨e, rfl, he⟩
    | succ i =>
      obtain ⟨e', he', hexpr⟩ := ih hrest hi
      exact ⟨e', he', hexpr⟩

namespace Table

variable {s : SectionState} {name : String} {value : Expr} {span : Span}

/-- **A declared variable is meant by its name.** Let a record be read as the declaration of a
variable, and the declaration pass. The variable holds the states that the value of the record had.
After any further statements, and whatever the next one adds to the scope, a text that is the name
of the variable is read as an expression that means it, alone or in a list. The name must be trimmed
and must not spell a number, for a text that does is that number, and in a list it must not be the
ellipsis. -/
theorem declared_name_means {place : Span} {pairs : Pairs}
    (hread : statement place pairs = .ok (.var name value span)) (htrim : trim name = name)
    (hword : readInt? name = none) (hpasses : ((Statement.var name value span).verdict s).Passes) :
    text? (pairs.get "var") = some name ∧ expr span (pairs.get "value") = .ok value ∧
      ∃ scope v, Opens s scope ∧ v.name = name ∧ scope.eval value = .ok v.states ∧
        ∀ later : List Statement, ∃ scope',
          (runFrom ((Statement.var name value span :: later).forM obey) s).2.scope = some scope' ∧
          ∀ scope'', scope'.Extends scope'' → ∀ place',
            (∃ e, expr place' (.text name) = .ok e ∧ scope''.Means e v) ∧
            (name ≠ "..." → ∀ (ds : List Datum) es ellipsis (i : ℕ),
              elements place' ds = .ok (es, ellipsis) → ds[i]? = some (.text name) →
                ∃ e, es[i]? = some e ∧ scope''.Means e v) := by
  obtain ⟨f, hf, hcases⟩ := statement_cases hread
  obtain ⟨-, -, hvalue, hvar, -⟩ := statementFields?_ok hf
  obtain ⟨-, hst⟩ | ⟨-, -, e, he, hst⟩ | ⟨-, -, t, tr, -, -, hst⟩ := hcases <;> cases hst
  obtain ⟨scope, hopens⟩ := exists_opens_of_passes hpasses
  obtain ⟨v, scope₁, hdeclared⟩ := (var_passes_iff hopens).mp hpasses
  obtain ⟨hname, heval, hlookup⟩ := declaring_ok hdeclared
  refine ⟨hvar, hvalue ▸ he, scope, v, hopens, hname, heval, fun later => ?_⟩
  obtain ⟨scope', hscope', hext⟩ :=
    forM_obey_scopeGrows later (s.taking ⟨s.session.registry, scope₁⟩)
    scope₁ rfl
  have hrun : (runFrom ((Statement.var f.var value f.span :: later).forM obey) s).2.scope =
      some scope' := by
    rw [List.forM_eq_forM, List.forM_cons, runFrom_bind, runFrom_obey_var hopens hdeclared]
    exact hscope'
  refine ⟨scope', hrun, fun scope'' hext' place' => ?_⟩
  have hmeans : scope''.Means (.name f.var place') v :=
    Scope.means_name ((hext.trans hext').find? hlookup) place'
  have hexpr : expr place' (.text f.var) = .ok (.name f.var place') := expr_word htrim hword
  refine ⟨⟨_, hexpr, hmeans⟩, fun hne ds es ellipsis i hread hi => ?_⟩
  obtain ⟨e', he', hexpr'⟩ := elements_getElem? hread hi (by simpa [isEllipsis, htrim] using hne)
  cases hexpr.symm.trans hexpr'
  exact ⟨_, he', hmeans⟩

def threeSection : SectionState := { table := "t", seed := 0, session := {}, stateCount := 3 }

lemma opens_threeSection_iff {scope : Scope} :
    Opens threeSection scope ↔ scope = Scope.threeStates := by
  constructor
  · rintro (h | ⟨-, h⟩) <;> cases h
    rfl
  · rintro rfl
    exact .inr ⟨rfl, rfl⟩

def evenRecord (name : String) : Pairs :=
  [(.text "var", .text name), (.text "value", .list [.int 0, .int 2])]

def evens : Expr := .set [.int "0" .nowhere, .int "2" .nowhere] false .nowhere

lemma eval_evens : Scope.threeStates.eval evens = .ok [0, 2] := by cbv

lemma declaring_evens (hany : "any" ≠ name) (hlive : "live" ≠ name) :
    runFrom (Scope.declaring name evens .nowhere) Scope.threeStates =
      (.ok ⟨name, [0, 2], false, .nowhere⟩,
        Scope.threeStates.declare ⟨name, [0, 2], false, .nowhere⟩) := by
  have hfree : Scope.threeStates.names.taken name = false := by
    simp [Scope.threeStates, NameSource.taken, NameSource.reserve, NameSource.ofSeed, hany, hlive]
  rw [runFrom_declaring eval_evens, Scope.runFrom_define, if_neg, if_neg, if_neg]
  · decide
  · simp [hfree]
  · simp [Scope.lookup, Scope.threeStates, hany, hlive]

/-- A name that is nearly a number, and a later variable that refers to it. -/
theorem declared_name_means_hexadecimal :
    statement .nowhere (evenRecord "0x1") = .ok (.var "0x1" evens .nowhere) ∧
      ((Statement.var "0x1" evens .nowhere).verdict threeSection).Passes ∧
      ∃ scope, (runFrom ([.var "0x1" evens .nowhere, .var "b" (.name "0x1" .nowhere) .nowhere].forM
          obey) threeSection).2.scope = some scope ∧
        ∃ e, expr .nowhere (.text "0x1") = .ok e ∧ scope.eval e = .ok [0, 2] := by
  have hread : statement .nowhere (evenRecord "0x1") = .ok (.var "0x1" evens .nowhere) := by cbv
  have hpasses : ((Statement.var "0x1" evens .nowhere).verdict threeSection).Passes :=
    (var_passes_iff (opens_threeSection_iff.mpr rfl)).mpr
    ⟨_, _, declaring_evens (by decide) (by decide)⟩
  obtain ⟨-, -, scope, v, hopens, -, heval, hlater⟩ :=
    declared_name_means hread (by cbv) (by cbv) hpasses
  obtain ⟨scope', hscope', hmeans⟩ := hlater [.var "b" (.name "0x1" .nowhere) .nowhere]
  obtain ⟨⟨e, he, hmeans⟩, -⟩ := hmeans scope' (.refl scope') .nowhere
  rw [opens_threeSection_iff.mp hopens, eval_evens, Except.ok.injEq] at heval
  exact ⟨hread, hpasses, scope', hscope', e, he, heval ▸ hmeans.states⟩

/-- A variable that is called `1` is not meant by its name, which is the state 1. -/
theorem numeral_name_not_meant :
    statement .nowhere (evenRecord "1") = .ok (.var "1" evens .nowhere) ∧
      ((Statement.var "1" evens .nowhere).verdict threeSection).Passes ∧
      ∃ scope, (runFrom (obey (.var "1" evens .nowhere)) threeSection).2.scope = some scope ∧
        scope.lookup "1" = some ⟨"1", [0, 2], false, .nowhere⟩ ∧
        ∃ e, expr .nowhere (.text "1") = .ok e ∧ scope.eval e = .ok [1] := by
  have hread : statement .nowhere (evenRecord "1") = .ok (.var "1" evens .nowhere) := by cbv
  have hopens := opens_threeSection_iff.mpr rfl
  have hdeclared : runFrom (Scope.declaring "1" evens .nowhere) Scope.threeStates = _ :=
    declaring_evens (by decide) (by decide)
  refine ⟨hread, (var_passes_iff hopens).mpr ⟨_, _, hdeclared⟩, _,
    congrArg (·.2.scope) (runFrom_obey_var hopens hdeclared),
    (declaring_ok hdeclared).2.2, .int "1" .nowhere, ?_, ?_⟩
  · cbv
  · cbv

end Table

end RuleTable
