import RuleTable.Compiler
import RuleTable.Proofs.Diagnoses
import RuleTable.Proofs.Faithfulness
import RuleTable.Proofs.Subjects

/-!
When a compilation crashes.

An expression that was read has no part left out. So a statement crashes only if it refers to a
position by the least word, if it repeats states beyond the greatest length, or if it needs a name
and none is found. Where no statement of a file does, every table comes to a section or to failures.
-/

namespace RuleTable

open SectionM Text

/-! ### What is read -/

/-- Nothing in the expression is left out. -/
def Expr.Whole (e : Expr) : Prop := ∀ x ∈ e.nodes, x ≠ .missing

lemma Expr.whole_all {es : List Expr} (h : ∀ e ∈ es, e.Whole) :
    ∀ x ∈ Expr.allNodes es, x ≠ .missing := by
  induction es with
  | nil => simp [Expr.allNodes]
  | cons e es ih =>
    rw [List.forall_mem_cons] at h
    rw [Expr.allNodes, List.forall_mem_append]
    exact ⟨h.1, ih h.2⟩

lemma Expr.Whole.node {e : Expr} {parts : List Expr} (hparts : e.nodes = e :: parts ∧ e ≠ .missing)
    (h : ∀ x ∈ parts, x ≠ .missing) : e.Whole := by
  rw [Expr.Whole, hparts.1]
  exact List.forall_mem_cons.mpr ⟨hparts.2, h⟩

namespace Interchange

open Yaml

variable {span : Span}

lemma wordExpr_whole (s : String) : (wordExpr span s).Whole := by
  unfold wordExpr Expr.Whole
  dsimp only
  split <;> simp [Expr.nodes]

mutual

/-- **What is read** has no part left out. -/
lemma expr_whole (d : Datum) {e : Expr} (h : expr span d = .ok e) : e.Whole := by
  cases d with
  | null | bool | date =>
    rw [expr] at h
    cases h
  | int n =>
    rw [expr] at h
    split at h <;> cases h
    simp [Expr.Whole, Expr.nodes]
  | float x =>
    rw [expr] at h
    cases h
    simp [Expr.Whole, Expr.nodes]
  | text s =>
    rw [expr] at h
    cases h
    exact wordExpr_whole s
  | list ds =>
    rw [expr] at h
    split at h
    · next es ellipsis hes =>
      cases h
      simpa [Expr.Whole, Expr.nodes] using Expr.whole_all (elements_whole ds hes)
    · cases h
  | map pairs =>
    by_cases hone : ∃ key arg, pairs = [(.text key, arg)]
    · obtain ⟨key, arg, rfl⟩ := hone
      rw [expr] at h
      exact operation_whole key arg h
    · rw [expr] at h
      · split at h <;> cases h
      · exact fun key arg he => hone ⟨key, arg, he⟩
termination_by (sizeOf d, 0)

lemma elements_whole (ds : List Datum) {es : List Expr} {ellipsis : Bool}
    (h : elements span ds = .ok (es, ellipsis)) : ∀ e ∈ es, e.Whole := by
  cases ds with
  | nil =>
    rw [elements] at h
    cases h
    simp
  | cons d ds =>
    rw [elements] at h
    split at h
    · split at h <;> cases h
      simp
    · split at h
      · cases h
      · next e he =>
        split at h
        · cases h
        · next es ellipsis hes =>
          cases h
          exact List.forall_mem_cons.mpr ⟨expr_whole d he, elements_whole ds hes⟩
termination_by (sizeOf ds, 0)

lemma operation_whole (key : String) (arg : Datum) {e : Expr} (h : operation span key arg = .ok e) :
    e.Whole := by
  rw [operation.eq_def] at h
  split at h
  · split at h
    · next hpair =>
      cases h
      obtain ⟨hleft, hright⟩ := operands_whole key arg hpair
      exact .node ⟨by rw [Expr.nodes], by simp⟩ (List.forall_mem_append.mpr ⟨hleft, hright⟩)
    · cases h
  split at h
  · split at h
    · next hpair =>
      cases h
      obtain ⟨hlo, hhi⟩ := operands_whole "range" arg hpair
      exact .node ⟨by rw [Expr.nodes], by simp⟩ (List.forall_mem_append.mpr ⟨hlo, hhi⟩)
    · cases h
  · split at h
    · next he =>
      cases h
      exact .node ⟨by rw [Expr.nodes], by simp⟩ (expr_whole arg he)
    · cases h
  · split at h
    · next he =>
      cases h
      exact .node ⟨by rw [Expr.nodes], by simp⟩ (expr_whole arg he)
    · cases h
  · cases h
    exact .node ⟨by rw [Expr.nodes], by simp⟩ (by simp)
  · split at h
    · cases h
    split at h
    · cases h
    split at h
    · next he =>
      cases h
      exact .node ⟨by rw [Expr.nodes], by simp⟩
        (List.forall_mem_cons.mpr ⟨by simp, field_whole "to" arg he⟩)
    · cases h
  · split at h
    · cases h
    split at h
    · split at h
      · next he =>
        cases h
        exact .node ⟨by rw [Expr.nodes], by simp⟩
          (List.forall_mem_cons.mpr ⟨by simp, field_whole "arg" arg he⟩)
      · cases h
    · cases h
  · cases h
termination_by (sizeOf arg, 1)

lemma operands_whole (key : String) (arg : Datum) {left right : Expr}
    (h : operands span key arg = .ok (left, right)) : left.Whole ∧ right.Whole := by
  by_cases hpair : ∃ a b, arg = .list [a, b]
  · obtain ⟨a, b, rfl⟩ := hpair
    rw [operands] at h
    split at h
    · cases h
    next ha =>
    split at h <;> cases h
    next hb => exact ⟨expr_whole a ha, expr_whole b hb⟩
  · rw [operands] at h
    · cases h
    · exact fun a b he => hpair ⟨a, b, he⟩
termination_by (sizeOf arg, 0)

lemma field_whole (name : String) (d : Datum) {e : Expr} (h : field span name d = .ok e) :
    e.Whole := by
  by_cases hmap : ∃ pairs, d = .map pairs
  · obtain ⟨pairs, rfl⟩ := hmap
    rw [field] at h
    split at h
    · exact nth_whole _ pairs h
    · cases h
  · rw [field] at h
    · cases h
    · exact fun pairs he => hmap ⟨pairs, he⟩
termination_by (sizeOf d, 0)

lemma nth_whole (i : ℕ) (pairs : List (Datum × Datum)) {e : Expr} (h : nth span i pairs = .ok e) :
    e.Whole := by
  cases pairs with
  | nil =>
    rw [nth] at h
    cases h
  | cons p rest =>
    cases p with
    | mk k d =>
      cases i with
      | zero =>
        rw [nth] at h
        exact expr_whole d h
      | succ i =>
        rw [nth] at h
        exact nth_whole i rest h
termination_by (sizeOf pairs, 0)

end

lemma mem_of_mapM_ok {α β ε : Type} {f : α → Except ε β} {l : List α} {l' : List β} {b : β}
    (h : l.mapM f = .ok l') (hb : b ∈ l') : ∃ a ∈ l, f a = .ok b := by
  induction l generalizing l' with
  | nil =>
    cases h
    cases hb
  | cons a l ih =>
    rw [List.mapM_cons] at h
    obtain ⟨b', hb', h⟩ := outcome_bind_ok.mp h
    obtain ⟨rest, hrest, h⟩ := outcome_bind_ok.mp h
    cases h
    rcases List.mem_cons.mp hb with rfl | hb
    · exact ⟨a, List.mem_cons_self, hb'⟩
    · obtain ⟨a', ha', hf⟩ := ih hrest hb
      exact ⟨a', List.mem_cons_of_mem _ ha', hf⟩

lemma transition_whole {fields : TransitionFields} {t : Transition}
    (h : transition span fields = .ok t) : ∀ e ∈ t.exprs, e.Whole := by
  obtain ⟨initial, hi, h⟩ := outcome_bind_ok.mp h
  obtain ⟨result, hr, h⟩ := outcome_bind_ok.mp h
  obtain ⟨napkin, hn, h⟩ := outcome_bind_ok.mp h
  obtain ⟨auxiliaries, ha, h⟩ := outcome_bind_ok.mp h
  cases h
  intro e he
  simp only [Transition.exprs, List.cons_append, List.mem_cons, List.mem_append, List.mem_map] at he
  rcases he with rfl | ⟨term, hterm, rfl⟩ | rfl | ⟨a, hmem, rfl⟩
  · exact expr_whole _ hi
  · obtain ⟨fields, -, hfields⟩ := mem_of_mapM_ok hn hterm
    obtain ⟨value, hvalue, hfields⟩ := outcome_bind_ok.mp hfields
    cases hfields
    exact expr_whole _ hvalue
  · exact expr_whole _ hr
  · obtain ⟨fields, -, hfields⟩ := mem_of_mapM_ok ha hmem
    obtain ⟨value, hvalue, hfields⟩ := outcome_bind_ok.mp hfields
    cases hfields
    exact expr_whole _ hvalue

lemma statement_whole {pairs : Pairs} {st : Statement} (h : statement span pairs = .ok st) :
    ∀ e ∈ st.exprs, e.Whole := by
  obtain ⟨f, -, hcases⟩ := statement_cases h
  obtain ⟨-, rfl⟩ | ⟨-, -, value, hvalue, rfl⟩ | ⟨-, -, t, tr, -, htr, rfl⟩ := hcases
  · simp [Statement.exprs]
  · simpa [Statement.exprs] using expr_whole _ hvalue
  · exact transition_whole htr

/-- **A file that was read** holds whole expressions only. -/
lemma parseWith_whole {read : String → Option (Option Node)} {source : String} {ts : List Table}
    (h : parseWith read source = .ok ts) :
    ∀ t ∈ ts, ∀ st ∈ t.statements, ∀ e ∈ st.exprs, e.Whole := by
  intro t ht st hst
  obtain ⟨pairs, place, hread⟩ := exists_readAs h ht hst
  exact statement_whole hread

end Interchange

/-! ### One statement -/

/-- The statement asks too much of the section: it refers to a position by the least word or repeats
states beyond the greatest length, or it is stopped where no name is found any more. -/
def Statement.Strains (s : SectionState) (st : Statement) : Prop :=
  (∃ scope, Opens s scope ∧ ∃ e ∈ st.exprs, ∃ x ∈ e.nodes, x.Wraps ∨ scope.Overlong x) ∨
    ∃ scope, (runFrom (Table.obey st) s).2.scope = some scope ∧ scope.names.fresh? = none

namespace Table

variable {pr : Proviso} {s : SectionState} {P : Span → Prop} {tame : Prop} {span : Span}

lemma setStates_ne_crash (value : String) :
    (runFrom (setStates value span) s).1 ≠ .error .crash := by
  intro h
  obtain ⟨c, hrun⟩ | ⟨n, -, -, -, hrun⟩ := setStates_cases value span s <;>
    rw [hrun] at h <;> cases h

lemma setNeighborhood_ne_crash (value : String) :
    (runFrom (setNeighborhood value span) s).1 ≠ .error .crash := by
  intro h
  by_cases hempty : s.entries.isEmpty = true
  · rw [runFrom_setNeighborhood hempty] at h
    cases hparse : Neighborhood.parse value <;> rw [hparse] at h <;> cases h
  · rw [runFrom_setNeighborhood_late hempty] at h
    cases h

lemma setSymmetry_ne_crash (value : String) (e : Option SymmetryExpr) :
    (runFrom (setSymmetry value e span) s).1 ≠ .error .crash := by
  intro h
  cases hnb : s.neighborhood with
  | none =>
    rw [runFrom_setSymmetry_early hnb] at h
    cases h
  | some nb =>
    rw [runFrom_setSymmetry hnb] at h
    have hfair : FairFrom (fun _ => True) (fun _ => False)
        (Registry.declare nb (e.getD { name := value, span := span })) s.session.registry :=
      Registry.declare_fair nb _ (fun _ _ => trivial) _
    rcases hrun : runFrom (Registry.declare nb (e.getD { name := value, span := span }))
      s.session.registry with ⟨stop | t, r⟩ <;> rw [hrun] at h <;> cases h
    exact hfair _ _ hrun

/-- What is attempted and crashes leaves a scope without names. -/
lemma attempt_crash {α : Type} {scope : Scope} {act : WorkspaceM α} {s' : SectionState}
    (hopens : Opens s scope)
    (hact : FairFrom P (fun w => w.scope.Spent tame) act ⟨s.session.registry, scope⟩)
    (h : runFrom (attempt span act) s = (.error .crash, s')) :
    ∃ scope', s'.scope = some scope' ∧ scope'.Spent tame := by
  rw [runFrom_attempt hopens] at h
  rcases hrun : runFrom act ⟨s.session.registry, scope⟩ with ⟨(f | _) | a, w⟩ <;> rw [hrun] at h <;>
    cases h
  exact ⟨w.scope, rfl, hact _ _ hrun⟩

/-- A tame statement crashes only where no name is found any more. -/
lemma obey_crash {scope : Scope} (hs : s.Sound pr) (hopens : Opens s scope) {st : Statement}
    (htame : tame → ∀ e ∈ st.exprs, scope.Tame e) (h : (runFrom (obey st) s).1 = .error .crash) :
    ∃ scope', (runFrom (obey st) s).2.scope = some scope' ∧ scope'.Spent tame := by
  cases st with
  | directive name value symmetry span =>
    unfold obey at h
    dsimp only at h
    split at h
    · exact absurd h (setStates_ne_crash value)
    split at h
    · exact absurd h (setNeighborhood_ne_crash value)
    split at h
    · exact absurd h (setSymmetry_ne_crash value symmetry)
    · cases h
  | var name value span =>
    have hvalue : tame → scope.Tame value := fun ht => htame ht value List.mem_cons_self
    have hact := onScope_fair (w := ⟨s.session.registry, scope⟩)
      (Scope.declaring_fair hvalue name span)
    unfold obey declareVariable at h ⊢
    rw [runFrom_bind] at h ⊢
    rcases hrun : runFrom (attempt span _) s with ⟨(f | _) | _, s₁⟩ <;> rw [hrun] at h
    · cases h
    · exact attempt_crash hopens hact hrun
    · cases h
  | transition t =>
    unfold obey at h ⊢
    rw [runFrom_bind, runFrom_get] at h ⊢
    dsimp only at h ⊢
    split at h
    · cases h
    · next hnb =>
      have hact := entry_fair (w := ⟨s.session.registry, scope⟩) (Scope.admits_transition htame)
        (hs.opens hopens).1.any s.neighborhood s.symmetry
      rw [if_neg hnb]
      unfold addTransition at h ⊢
      rw [runFrom_bind] at h ⊢
      rcases hrun : runFrom (attemptEntry t) s with ⟨(f | _) | (_ | e), s₁⟩ <;> rw [hrun] at h
      · cases h
      · exact attempt_crash hopens hact hrun
      · cases h
      · cases h

/-- **A statement that crashes** asks too much. -/
lemma obey_strains (hs : s.Sound pr) {st : Statement} (hwhole : ∀ e ∈ st.exprs, e.Whole)
    (h : (runFrom (obey st) s).1 = .error .crash) : st.Strains s := by
  obtain ⟨scope, hopens⟩ := exists_opens hs.count.2
  by_cases hstrain : ∃ e ∈ st.exprs, ∃ x ∈ e.nodes, x.Wraps ∨ scope.Overlong x
  · exact .inl ⟨scope, hopens, hstrain⟩
  · have htame : True → ∀ e ∈ st.exprs, scope.Tame e := fun _ e he x hx =>
      ⟨hwhole e he x hx, fun hw => hstrain ⟨e, he, x, hx, .inl hw⟩,
        fun ho => hstrain ⟨e, he, x, hx, .inr ho⟩⟩
    obtain ⟨scope', hscope, hspent⟩ := obey_crash hs hopens htame h
    exact .inr ⟨scope', hscope, hspent trivial⟩

/-! ### One table -/

/-- While the table is compiled, a statement is come to that asks too much. -/
def Strains (t : Table) (seed : UInt64) (session : Session) : Prop :=
  ∃ before st after s, t.statements = before ++ st :: after ∧
    runFrom (before.forM obey) (t.start seed session) = (.ok ⟨⟩, s) ∧ st.Strains s

/-- **A table** comes to a section or to some failures, unless a statement asks too much. -/
lemma compile_completes {session : Session} {t : Table} (hr : session.registry.Reachable)
    (hwhole : ∀ st ∈ t.statements, ∀ e ∈ st.exprs, e.Whole) (seed : UInt64) :
    (∃ result, (runFrom (t.compile seed) session).1 = .ok result ∧ result ≠ .error []) ∨
      (runFrom (t.compile seed) session).1 = .error .crash ∧ t.Strains seed session := by
  have hs : (t.start seed session).Sound .none := start_sound hr t seed
  have hends := forM_obey_concludes hs t.statements
  have hsound := forM_obey_sound hs fun st (_ : st ∈ t.statements) => st.meets_none
  have hstrains : ∀ l st, trace t.statements (t.start seed session) = l ++ [(st, .crashes)] →
      t.Strains seed session := by
    intro l st htrace
    obtain ⟨before, after, s, hsplit, hrun, hs', hv⟩ := exists_verdict hs (v := .crashes) (by
      rw [htrace]
      exact List.mem_append_right _ List.mem_cons_self)
    have hcrash := obey_holds hs' st
    rw [← hv] at hcrash
    have hmem : st ∈ t.statements := by
      rw [hsplit]
      exact List.mem_append_right _ List.mem_cons_self
    exact ⟨before, st, after, s, hsplit, hrun, obey_strains hs' (hwhole st hmem) hcrash⟩
  rw [runFrom_compile, runFrom_process]
  revert hends hsound hstrains
  generalize trace t.statements (t.start seed session) = verdicts
  generalize runFrom (t.statements.forM obey) (t.start seed session) = run
  intro hends hsound hstrains
  cases hends with
  | @done s _ fs hgoes =>
    refine .inl ?_
    dsimp only
    split
    · obtain ⟨c, s', -, -, -, -, hfinish, -⟩ := finish_ok hsound
      rw [runFrom_map, hfinish]
      exact ⟨.ok c, rfl, by simp⟩
    · next hsome => exact ⟨_, rfl, by simpa using hsome⟩
  | ended hgoes st f => exact .inl ⟨_, rfl, by simp⟩
  | crashed l st => exact .inr ⟨rfl, hstrains l st rfl⟩

end Table

/-! ### The compiler -/

def failuresOf : Except (List Failure) CompiledSection → List Failure
  | .ok _ => []
  | .error fs => fs

def Compilation.ofResults (results : List (Except (List Failure) CompiledSection)) :
    Compilation where
  sections := results.filterMap (·.toOption)
  failures := (results.map failuresOf).flatten

namespace Compiler

open Table Yaml

variable {c c' : Compiler} {t : Table} {ts : List Table}

lemma compile_cons_error {e : Stop} (h : (runFrom (t.compile c.seed) c.session).1 = .error e) :
    (runFrom (compile (t :: ts)) c).1 = .error e := by
  rw [compile, runFrom_bind, runFrom_get]
  dsimp only
  have hrun : runFrom (onSession (t.compile c.seed)) c = (.error e, _) := Prod.ext h rfl
  rw [runFrom_bind, hrun]

/-- After a table that has come to a result, the others are compiled. -/
lemma compile_cons_ok {result : Except (List Failure) CompiledSection}
    (h : (runFrom (t.compile c.seed) c.session).1 = .ok result) {x : Except Stop Compilation}
    (hrest : runFrom (compile ts) { c with session := (runFrom (t.compile c.seed) c.session).2 } =
      (x, c')) :
    (∀ e, x = .error e → runFrom (compile (t :: ts)) c = (.error e, c')) ∧
      ∀ results, x = .ok (.ofResults results) →
        runFrom (compile (t :: ts)) c = (.ok (.ofResults (result :: results)), c') := by
  have hrun : runFrom (onSession (t.compile c.seed)) c =
      (.ok result, { c with session := (runFrom (t.compile c.seed) c.session).2 }) := Prod.ext h rfl
  rw [compile, runFrom_bind, runFrom_get]
  dsimp only
  rw [runFrom_bind, hrun]
  dsimp only
  rw [runFrom_bind, hrest]
  refine ⟨?_, ?_⟩
  · rintro e rfl
    rfl
  · rintro results rfl
    cases result <;> rfl

/-- While the tables are compiled, a table is come to with a statement that asks too much. -/
def Strains (tables : List Table) (c : Compiler) : Prop :=
  ∃ before t after results c', tables = before ++ t :: after ∧
    runFrom (compile before) c = (.ok (.ofResults results), c') ∧ t.Strains c'.seed c'.session

lemma strains_of_head (h : t.Strains c.seed c.session) : Strains (t :: ts) c :=
  ⟨[], t, ts, [], c, rfl, rfl, h⟩

lemma Strains.cons {result : Except (List Failure) CompiledSection}
    (h : (runFrom (t.compile c.seed) c.session).1 = .ok result)
    (hrest : Strains ts { c with session := (runFrom (t.compile c.seed) c.session).2 }) :
    Strains (t :: ts) c := by
  obtain ⟨before, t', after, results, c', rfl, hrun, hstrains⟩ := hrest
  exact ⟨t :: before, t', after, result :: results, c',
    rfl, (compile_cons_ok h hrun).2 _ rfl, hstrains⟩

/-- **Tables with whole expressions** come to results, one each, unless a statement asks too
much. -/
lemma compile_results {tables : List Table} (hr : c.session.registry.Reachable)
    (hwhole : ∀ t ∈ tables, ∀ st ∈ t.statements, ∀ e ∈ st.exprs, e.Whole) :
    (∃ results, results.length = tables.length ∧ (∀ result ∈ results, result ≠ .error []) ∧
        (runFrom (compile tables) c).1 = .ok (.ofResults results)) ∨
      (runFrom (compile tables) c).1 = .error .crash ∧ Strains tables c := by
  induction tables generalizing c with
  | nil => exact .inl ⟨[], rfl, by simp, rfl⟩
  | cons t ts ih =>
    rw [List.forall_mem_cons] at hwhole
    obtain ⟨result, hresult, hne⟩ | ⟨hcrash, hstrains⟩ := Table.compile_completes hr hwhole.1 c.seed
    · have hrest := ih (c := { c with session := (runFrom (t.compile c.seed) c.session).2 })
        (compile_reachable hr t c.seed) hwhole.2
      rcases hrun : runFrom (compile ts)
        { c with session := (runFrom (t.compile c.seed) c.session).2 }
        with ⟨x, c'⟩
      rw [hrun] at hrest
      obtain ⟨hfails, hgoes⟩ := compile_cons_ok hresult hrun
      obtain ⟨results, hlen, hsome, hok⟩ | ⟨hcrash, hstrains⟩ := hrest
      · refine .inl ⟨result :: results, by simp [hlen], List.forall_mem_cons.mpr ⟨hne, hsome⟩, ?_⟩
        rw [hgoes results hok]
      · refine .inr ⟨?_, hstrains.cons hresult⟩
        rw [hfails _ hcrash]
    · exact .inr ⟨compile_cons_error hcrash, strains_of_head hstrains⟩

/-- **A file that was read**, by whatever finds its tree, **is compiled to the end.** Each of its
tables comes to a section or to at least one failure. A crash comes only from a statement that, in
the state that the tables and statements before it have left, refers to a position by the least
word, repeats states beyond the greatest length, or needs a name where none is found any more. -/
theorem compile_parsed_ends {read : String → Option (Option Node)} {source : String}
    {tables : List Table} (hparse : Interchange.parseWith read source = .ok tables)
    (hr : c.session.registry.Reachable) :
    (∃ results, results.length = tables.length ∧ (∀ result ∈ results, result ≠ .error []) ∧
        (runFrom (compile tables) c).1 = .ok (.ofResults results)) ∨
      (runFrom (compile tables) c).1 = .error .crash ∧ Strains tables c :=
  compile_results hr (Interchange.parseWith_whole hparse)

end Compiler

namespace Interchange

open Yaml

/-! ### A file with a reference and a repetition -/

def recordAt (line : ℕ) (fields : List (String × Node)) : Node :=
  .mapping (fields.map fun f => (.scalar f.1 false {}, f.2)) { line := line }

/-- The tree of a file with a declared variable, and with a transition that refers to a neighbor and
repeats a state. -/
def turningTree : Node :=
  let text (s : String) : Node := .scalar s false {}
  let several (nodes : List Node) : Node := .sequence nodes {}
  recordAt 0 [("sections", several [recordAt 0 [("name", text "growing"), ("statements", several [
    recordAt 1 [("directive", text "neighborhood"), ("value", text "vonNeumann")],
    recordAt 2 [("directive", text "symmetries"), ("value", text "rotate4")],
    recordAt 3 [("var", text "a"), ("value", several [text "0", text "1"])],
    recordAt 4 [("transition", recordAt 4 [
      ("initial", text "0"),
      ("napkin", several [recordAt 4 [("dir", text "N"), ("value", text "1")],
        recordAt 4 [("dir", text "E"), ("through", text "W"), ("value", text "a")]]),
      ("result", recordAt 4 [("map", recordAt 4 [("ref", text "E"),
        ("to", recordAt 4 [("repeat", several [text "1", text "2"])])])])])]])]])]

def pairsOf (fields : List (String × Datum)) : Pairs := fields.map fun f => (.text f.1, f.2)

def turningFields : TransitionFields where
  initial := .text "0"
  napkin := [⟨"N", "", .text "1"⟩, ⟨"E", "W", .text "a"⟩]
  result := .map (pairsOf [("map", .map (pairsOf [("ref", .text "E"),
    ("to", .map (pairsOf [("repeat", .list [.text "1", .text "2"])]))]))])
  auxiliaries := []

def declaringRecord : Pairs := pairsOf [("var", .text "a"), ("value", .list [.text "0", .text "1"])]

def changingRecord : Pairs := pairsOf [("transition", .map (pairsOf [
  ("initial", turningFields.initial),
  ("napkin", .list [.map (pairsOf [("dir", .text "N"), ("value", .text "1")]),
    .map (pairsOf [("dir", .text "E"), ("through", .text "W"), ("value", .text "a")])]),
  ("result", turningFields.result)]))]

def turningRecords : List Pairs := [
  pairsOf [("directive", .text "neighborhood"), ("value", .text "vonNeumann")],
  pairsOf [("directive", .text "symmetries"), ("value", .text "rotate4")],
  declaringRecord, changingRecord]

lemma statement_declaringRecord : statement ⟨4, 1, 1⟩ declaringRecord = .ok (.var "a"
    (.set [.int "0" ⟨4, 1, 1⟩, .int "1" ⟨4, 1, 1⟩] false ⟨4, 1, 1⟩) ⟨4, 1, 1⟩) := by
  have hfields : statementFields? ⟨4, 1, 1⟩ declaringRecord =
      some ⟨"", .list [.text "0", .text "1"], none, "a", none, ⟨4, 1, 1⟩⟩ := by
    with_unfolding_all rfl
  have hzero : wordExpr ⟨4, 1, 1⟩ "0" = .int "0" ⟨4, 1, 1⟩ := by with_unfolding_all rfl
  have hone : wordExpr ⟨4, 1, 1⟩ "1" = .int "1" ⟨4, 1, 1⟩ := by with_unfolding_all rfl
  have hmore : isEllipsis (.text "0") = false ∧ isEllipsis (.text "1") = false := by
    with_unfolding_all exact ⟨rfl, rfl⟩
  have hvalue : expr ⟨4, 1, 1⟩ (.list [.text "0", .text "1"]) =
      .ok (.set [.int "0" ⟨4, 1, 1⟩, .int "1" ⟨4, 1, 1⟩] false ⟨4, 1, 1⟩) := by
    simp [expr, elements, hzero, hone, hmore]
  simp [statement, hfields, hvalue]

lemma expr_text {span : Span} {s : String} {e : Expr} (h : wordExpr span s = e) :
    expr span (.text s) = .ok e := by
  rw [expr, h]

lemma statement_changingRecord :
    statement ⟨5, 1, 1⟩ changingRecord = .ok (.transition Table.growth) := by
  have hfields : statementFields? ⟨5, 1, 1⟩ changingRecord =
      some ⟨"", .null, none, "", some turningFields, ⟨5, 1, 1⟩⟩ := by
    with_unfolding_all rfl
  have hzero : expr ⟨5, 1, 1⟩ (.text "0") = .ok (.int "0" ⟨5, 1, 1⟩) :=
    expr_text (by with_unfolding_all rfl)
  have hone : expr ⟨5, 1, 1⟩ (.text "1") = .ok (.int "1" ⟨5, 1, 1⟩) :=
    expr_text (by with_unfolding_all rfl)
  have hname : expr ⟨5, 1, 1⟩ (.text "a") = .ok (.name "a" ⟨5, 1, 1⟩) :=
    expr_text (by with_unfolding_all rfl)
  have hresult : expr ⟨5, 1, 1⟩ turningFields.result = .ok Table.growth.result := by cbv
  have htransition : transition ⟨5, 1, 1⟩ turningFields = .ok Table.growth := by
    rw [transition, hresult]
    simp only [turningFields, List.mapM_cons, List.mapM_nil, hzero, hone, hname]
    rfl
  simp [statement, hfields, htransition, Except.map]

lemma statements_turningRecords : statements [⟨2, 1, 1⟩, ⟨3, 1, 1⟩, ⟨4, 1, 1⟩, ⟨5, 1, 1⟩] 0
    turningRecords = .ok Table.turning.statements := by
  have hneighborhood : statement ⟨2, 1, 1⟩ (pairsOf [("directive", .text "neighborhood"),
      ("value", .text "vonNeumann")]) =
        .ok (.directive "neighborhood" "vonNeumann" none ⟨2, 1, 1⟩) := by
    with_unfolding_all rfl
  have hsymmetry : statement ⟨3, 1, 1⟩ (pairsOf [("directive", .text "symmetries"),
      ("value", .text "rotate4")]) = .ok (.directive "symmetries" "rotate4" none ⟨3, 1, 1⟩) := by
    with_unfolding_all rfl
  simp only [turningRecords, statements, List.getElem?_cons_zero, List.getElem?_cons_succ,
    Option.getD_some, hneighborhood, hsymmetry, statement_declaringRecord, statement_changingRecord]
  rfl

lemma parseWith_turningTree :
    parseWith (fun _ => some (some turningTree)) "" = .ok [Table.turning] := by
  have hsections : (top? (some turningTree) >>= sections?) =
      some [⟨"growing", turningRecords⟩] := by
    with_unfolding_all rfl
  have hplaces : places (some turningTree) =
      [[⟨2, 1, 1⟩, ⟨3, 1, 1⟩, ⟨4, 1, 1⟩, ⟨5, 1, 1⟩]] := by
    with_unfolding_all rfl
  rw [parseWith_eq rfl hsections, hplaces, tables]
  dsimp only [List.getElem?_cons_zero, Option.getD_some]
  rw [statements_turningRecords]
  rfl

end Interchange

namespace Compiler

open Table

theorem compile_parsed_ends_turning :
    Interchange.parseWith (fun _ => some (some Interchange.turningTree)) "" = .ok [turning] ∧
      ∃ result, result ≠ .error [] ∧
        (runFrom (compile [turning]) (create 0 0)).1 = .ok (.ofResults [result]) := by
  refine ⟨Interchange.parseWith_turningTree, ?_⟩
  have hreach : (create 0 0).session.registry.Reachable := .start
  obtain ⟨results, hlen, hsome, hrun⟩ | ⟨hcrash, -⟩ :=
    compile_parsed_ends Interchange.parseWith_turningTree hreach
  · obtain ⟨result, rfl⟩ := List.length_eq_one_iff.mp hlen
    exact ⟨result, hsome result List.mem_cons_self, hrun⟩
  · obtain ⟨-, c, session, -, -, hturning⟩ :=
      compile_growing hreach "rotate4" none (succeeds_turns hreach.sound ⟨3, 1, 1⟩) 0
    have hnil : ∀ c, runFrom (compile []) c = (.ok (.ofResults []), c) := fun _ => rfl
    have hone := compile_cons_ok (c := create 0 0) (t := turning) (congrArg Prod.fst hturning)
      (hnil _)
    rw [hone.2 [] rfl] at hcrash
    cases hcrash

end Compiler

end RuleTable
