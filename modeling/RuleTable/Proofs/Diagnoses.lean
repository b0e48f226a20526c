import RuleTable.Proofs.Layouts
import RuleTable.Proofs.Verdicts

/-!
Where the failures of a statement stand.

Whatever a statement is refused for stands nowhere or at a place in the statement. What stands
nowhere is given a place on its way out: a directive gives its own, and so does a section that
leaves a statement out. So every failure that is returned stands somewhere in the statement that
failed.
-/

namespace RuleTable

open SectionM Text

/-- The failure stands somewhere, and the place is one of these. -/
def Failure.StandsIn (P : Span → Prop) (f : Failure) : Prop :=
  ∃ d, f.diagnostic? = some d ∧ d.span ≠ .nowhere ∧ P d.span

namespace Statement

def exprs : Statement → List Expr
  | .directive _ _ _ _ => []
  | .var _ value _ => [value]
  | .transition t => t.exprs

/-- The place is that of the statement or of something in it. -/
def Has : Statement → Span → Prop
  | .directive _ _ symmetry span, place => place = span ∨ ∃ e ∈ symmetry, e.Has place
  | .var _ value span, place => place = span ∨ value.Has place
  | .transition t, place => place = t.span ∨ (∃ e ∈ t.exprs, e.Has place) ∨
      (∃ term ∈ t.napkin, place = term.span) ∨
      ∃ a ∈ t.auxiliaries, place = a.span ∨ ∃ g ∈ a.group, g.Has place

/-- A symmetry that is declared in parts stands where its directive stands. -/
def Rooted : Statement → Prop
  | .directive _ _ symmetry span => ∀ e ∈ symmetry, e.span = span
  | .var _ _ _ | .transition _ => True

lemma has_span (st : Statement) : st.Has st.span := by
  cases st with
  | directive name value symmetry span => exact .inl rfl
  | var name value span => exact .inl rfl
  | transition t => exact .inl rfl

end Statement

/-! ### The work of a statement -/

section Work

variable {tame : Prop} {scope : Scope}

lemma Scope.define_fair {P : Span → Prop} {span : Span} (h : P span) (name : String)
    (states : StateList) : FairFrom P (Spent tame) (define name states span) scope := by
  unfold define
  refine .get_bind (.unless (.inr h) (.unless (.inr h) (.unless (.inr h) ?_)))
  exact FairFrom.bind (by rintro _ _ ⟨⟩) fun _ _ _ => .pure _

lemma Scope.declaring_fair {value : Expr} (h : tame → scope.Tame value)
    (name : String) (span : Span) :
    FairFrom (Statement.Has (.var name value span)) (Spent tame) (declaring name value span)
      scope := by
  have hvalue : scope.Admits (Statement.Has (.var name value span)) tame value :=
    ⟨fun _ hplace => .inr hplace, h⟩
  refine .get_bind ((fair_outcome (eval_fair hvalue)).bind fun states s₁ hs₁ => ?_)
  exact define_fair (.inl rfl) name states

lemma Scope.admits_transition {t : Transition} (h : tame → ∀ e ∈ t.exprs, scope.Tame e) :
    scope.AdmitsTransition (Statement.Has (.transition t)) tame t where
  span := .inl rfl
  exprs e he := ⟨fun _ hplace => .inr (.inl ⟨e, he, hplace⟩), fun ht => h ht e he⟩
  terms term hterm := .inr (.inr (.inl ⟨term, hterm, rfl⟩))
  auxiliaries a ha := ⟨.inr (.inr (.inr ⟨a, ha, .inl rfl⟩)),
    fun g hg _ hplace => .inr (.inr (.inr ⟨a, ha, .inr ⟨g, hg, hplace⟩⟩))⟩

end Work

/-! ### Failures that have a place -/

section Placed

variable {P : Span → Prop} {f g : Failure} {span : Span} {table : String}

lemma Failure.standsIn_of (h : P span) (hne : span ≠ .nowhere) (cause : Cause) :
    (Failure.of span cause).StandsIn P := ⟨_, rfl, hne, h⟩

lemma Verdict.ofVital_standsIn {x : Except Stop Unit}
    (hx : ∀ g, x = .error (.refused g) → g.StandsIn P)
    (h : (ofVital x).failure? table = some f) : f.StandsIn P := by
  rcases x with (g | _) | _ <;> cases h
  exact hx g rfl

lemma Verdict.ofLocal_failure? {x : Except Stop (Option Entry)}
    (h : (ofLocal span x).failure? table = some f) :
    ∃ g, x = .error (.refused g) ∧ f = g.locate .syntaxInconsistency span := by
  rcases x with (g | _) | _ <;> cases h
  exact ⟨g, rfl, rfl⟩

/-- What is refused under a place stands somewhere. -/
lemma Failure.Points.standsIn_locating {σ α : Type} {act : ExceptT Stop (StateM σ) α} {s s' : σ}
    {kind : Kind} (h : f.Points P) (hne : span ≠ .nowhere)
    (hrun : runFrom (locating kind span act) s = (.error (.refused f), s')) : f.StandsIn P := by
  rw [runFrom_locating] at hrun
  rcases hact : runFrom act s with ⟨(g | _) | a, s₁⟩ <;> rw [hact] at hrun <;> cases hrun
  obtain ⟨d, hd, hplace⟩ := g.diagnostic?_locate kind span
  have hsome : d.span ≠ .nowhere := by
    rcases hplace with rfl | ⟨hsome, -⟩
    · exact hne
    · exact hsome
  exact ⟨d, hd, hsome, (h d hd).resolve_left hsome⟩

end Placed

namespace Table

variable {pr : Proviso} {s s' : SectionState} {f : Failure} {P : Span → Prop} {span : Span}
variable {table : String}

lemma setStates_standsIn (h : P span) (hne : span ≠ .nowhere) {value : String}
    (hrun : (runFrom (setStates value span) s).1 = .error (.refused f)) : f.StandsIn P := by
  obtain ⟨c, hcase⟩ | ⟨n, -, -, -, hcase⟩ := setStates_cases value span s <;> rw [hcase] at hrun <;>
    cases hrun
  exact Failure.standsIn_of h hne c

lemma setNeighborhood_standsIn (h : P span) (hne : span ≠ .nowhere) {value : String}
    (hrun : (runFrom (setNeighborhood value span) s).1 = .error (.refused f)) : f.StandsIn P := by
  by_cases hempty : s.entries.isEmpty = true
  · rw [runFrom_setNeighborhood hempty] at hrun
    cases hparse : Neighborhood.parse value with
    | ok nb =>
      rw [hparse] at hrun
      cases hrun
    | error g =>
      rw [hparse] at hrun
      cases hrun
      exact (parse_points hparse).located h hne
  · rw [runFrom_setNeighborhood_late hempty] at hrun
    cases hrun
    exact Failure.standsIn_of h hne _

lemma needsNeighborhood_standsIn (h : P span) (hne : span ≠ .nowhere)
    (hrun : needsNeighborhood span = .refused f) : f.StandsIn P := by
  cases hrun
  exact (Failure.points_bare _).located h hne

lemma setSymmetry_standsIn (hne : span ≠ .nowhere) {value : String} {e : Option SymmetryExpr}
    (hroot : ∀ x ∈ e, x.span = span) (hspan : P span)
    (hparts : ∀ x ∈ e, ∀ place, x.Has place → P place)
    (hrun : (runFrom (setSymmetry value e span) s).1 = .error (.refused f)) : f.StandsIn P := by
  cases hnb : s.neighborhood with
  | none =>
    rw [runFrom_setSymmetry_early hnb] at hrun
    exact needsNeighborhood_standsIn hspan hne (Except.error.inj hrun)
  | some nb =>
    rw [runFrom_setSymmetry hnb] at hrun
    rcases hdeclare : runFrom (Registry.declare nb (e.getD { name := value, span := span }))
      s.session.registry with ⟨stop | t, r⟩ <;> rw [hdeclare] at hrun <;> cases hrun
    have hplaces : ∀ place, (e.getD { name := value, span := span }).Has place → P place := by
      cases e with
      | none =>
        intro place hplace
        rw [Option.getD_none, SymmetryExpr.Has] at hplace
        rcases hplace with rfl | hplace
        · exact hspan
        · cases hplace
      | some x => exact hparts x rfl
    have hroot' : (e.getD { name := value, span := span }).span = span := by
      cases e with
      | none => rfl
      | some x => exact hroot x rfl
    have hfair : FairFrom P (fun _ => False) (Registry.declare nb _) s.session.registry :=
      Registry.declare_fair nb (e.getD { name := value, span := span }) hplaces _
    have hpoints : f.Points P := hfair _ _ hdeclare
    revert hdeclare hroot'
    generalize e.getD { name := value, span := span } = x
    intro hdeclare hroot'
    obtain ⟨op, name, args, parts, root⟩ := x
    obtain rfl : root = span := hroot'
    rw [Registry.declare] at hdeclare
    exact hpoints.standsIn_locating hne hdeclare

/-- What is refused on the section's registry and scope gets the place of the statement, if it has
none. -/
lemma working_standsIn {α : Type} {scope : Scope} {excuse : Workspace → Prop} {act : WorkspaceM α}
    {made : α → Option Entry} (hopens : Opens s scope)
    (hact : FairFrom P excuse act ⟨s.session.registry, scope⟩) (h : P span) (hne : span ≠ .nowhere)
    (hf : (Verdict.ofLocal span ((s.working act).map made)).failure? table = some f) :
    f.StandsIn P := by
  obtain ⟨g, hg, rfl⟩ := Verdict.ofLocal_failure? hf
  rw [working_eq hopens] at hg
  rcases hrun : runFrom act ⟨s.session.registry, scope⟩ with ⟨stop | a, w⟩ <;> rw [hrun] at hg <;>
    cases hg
  exact Failure.Points.located (hact _ _ hrun) h hne

/-- **A statement that fails** is blamed at a place in it. -/
lemma verdict_standsIn (hs : s.Sound pr) {st : Statement} (hne : st.span ≠ .nowhere)
    (hroot : st.Rooted) (hf : (st.verdict s).failure? table = some f) : f.StandsIn st.Has := by
  obtain ⟨scope, hopens⟩ := exists_opens hs.count.2
  have hany := (hs.opens hopens).1.any
  have hspan := st.has_span
  cases st with
  | directive name value symmetry span =>
    unfold Statement.verdict at hf
    dsimp only at hf
    split at hf
    · exact Verdict.ofVital_standsIn (fun g hg => setStates_standsIn hspan hne hg) hf
    split at hf
    · exact Verdict.ofVital_standsIn (fun g hg => setNeighborhood_standsIn hspan hne hg) hf
    split at hf
    · refine Verdict.ofVital_standsIn (fun g hg => ?_) hf
      exact setSymmetry_standsIn hne hroot hspan (fun x hx place hplace => .inr ⟨x, hx, hplace⟩) hg
    · cases hf
      exact (Failure.points_of (.inr hspan) _).located hspan hne
  | var name value span =>
    have htame : False → scope.Tame value := False.elim
    exact working_standsIn hopens (onScope_fair (Scope.declaring_fair htame name span)) hspan hne hf
  | transition t =>
    unfold Statement.verdict at hf
    dsimp only at hf
    split at hf
    · refine Verdict.ofVital_standsIn (fun g hg => ?_) hf
      exact needsNeighborhood_standsIn hspan hne (Except.error.inj hg)
    · have htame : False → ∀ e ∈ t.exprs, scope.Tame e := False.elim
      exact working_standsIn hopens
        (entry_fair (Scope.admits_transition htame) hany _ _) hspan hne hf

/-! ### The failures of a table -/

/-- **Every failure stands in its statement.** If all statements stand somewhere, and a symmetry
that is declared in parts where its directive stands, then the failures that a compilation returns
are those of the statements, and each has a place that is the place of its statement or of something
in it. -/
theorem compile_failures_standIn {session session' : Session} {t : Table} {seed : UInt64}
    {fs : List Failure} (hr : session.registry.Reachable)
    (hplaced : ∀ st ∈ t.statements, st.span ≠ .nowhere) (hrooted : ∀ st ∈ t.statements, st.Rooted)
    (h : runFrom (t.compile seed) session = (.ok (.error fs), session')) :
    let verdicts := trace t.statements (t.start seed session)
    fs = verdicts.filterMap (·.2.failure? t.name) ∧
      ∀ st v, (st, v) ∈ verdicts → st ∈ t.statements ∧
        ∀ f, v.failure? t.name = some f → f.StandsIn st.Has := by
  refine ⟨compile_failures hr h, fun st v hv => ?_⟩
  obtain ⟨before, after, s, hsplit, -, hs, rfl⟩ := exists_verdict (start_sound hr t seed) hv
  have hmem : st ∈ t.statements := by
    rw [hsplit]
    exact List.mem_append_right _ List.mem_cons_self
  exact ⟨hmem, fun f hf => verdict_standsIn hs (hplaced st hmem) (hrooted st hmem) hf⟩

/-- A variable that is given by one that is not there, and a symmetry before there is a
neighborhood. -/
def misnamed : Table where
  name := "misnamed"
  statements := [
    .var "a" (.set [.int "1" ⟨1, 6, 6⟩, .name "b" ⟨1, 9, 9⟩] false ⟨1, 5, 10⟩) ⟨1, 1, 10⟩,
    .directive "symmetries" "rotate4" none ⟨2, 1, 18⟩]

theorem compile_failures_standIn_misnamed :
    (runFrom (misnamed.compile 0) {}).1 = .ok (.error [
      .of ⟨1, 9, 9⟩ (.undefinedVariable "b"),
      .within (.tableSection "misnamed")
        (.diagnosed ⟨.syntaxInconsistency, ⟨2, 1, 18⟩, .needsNeighborhood⟩)]) ∧
    ∀ st v f, (st, v) ∈ trace misnamed.statements (misnamed.start 0 {}) →
      v.failure? "misnamed" = some f → f.StandsIn st.Has := by
  have hresult : (runFrom (misnamed.compile 0) {}).1 = .ok (.error [
      .of ⟨1, 9, 9⟩ (.undefinedVariable "b"),
      .within (.tableSection "misnamed")
        (.diagnosed ⟨.syntaxInconsistency, ⟨2, 1, 18⟩, .needsNeighborhood⟩)]) := by
    cbv
  have hreach : (Session.registry {}).Reachable := .start
  obtain ⟨-, hstands⟩ := compile_failures_standIn hreach
    (by simp [misnamed, Statement.span, Span.nowhere])
    (by simp [misnamed, Statement.Rooted]) (Prod.ext hresult rfl)
  exact ⟨hresult, fun st v f hv => (hstands st v hv).2 f⟩

end Table

end RuleTable
