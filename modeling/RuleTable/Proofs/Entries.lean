import RuleTable.Proofs.Names
import RuleTable.Proofs.Occurrences
import RuleTable.Proofs.Requests
import RuleTable.Section.Compile

/-!
What a transition leaves behind in a section.

Laying out a transition and working out its rows adds to registry and scope and takes nothing away.
The entry that is made has a symmetry which the registry knows, and rows that are of the
neighborhood's length and hold no variables but those of the scope.
-/

namespace RuleTable

open Scope

def Transition.exprs (t : Transition) : List Expr :=
  t.initial :: t.napkin.map (·.value) ++ t.result :: t.auxiliaries.map (·.value)

/-! ### Laying out only adds -/

namespace Rule

section Growth

variable {R : Scope → Scope → Prop} [Growth R] {nb : Neighborhood}

lemma cell_steps (result : Bool) (e : Expr) : Steps R (cell nb result e) := by
  refine Steps.get.bind fun s => ?_
  cases e with
  | int raw span => exact (Steps.outcome _).bind fun _ => .pure _
  | ref r => exact (Steps.outcome _).bind fun _ => .pure _
  | map r image span =>
    exact (Steps.outcome _).bind fun _ => (Steps.outcome _).bind fun _ => .pure _
  | refOp r op arg span =>
    refine (Steps.outcome _).bind fun slot => ?_
    cases op with
    | shift => exact (Steps.outcome _).bind fun _ => .pure _
    | minus => exact (Steps.outcome _).bind fun _ => .pure _
    | times | cycle | other => exact .refuse _ _
  | name ident span =>
    dsimp only
    split
    · exact .outcome _
    · exact .refuse _ _
  | set | range | binary | complement | missing =>
    refine (Steps.outcome _).bind fun states => ?_
    split
    · exact .pure _
    · exact (anonymous_steps _).bind fun _ => .outcome _

lemma napkin_steps (span : Span) (terms : List Term) (given : List Cell) :
    Steps R (napkin nb span terms given) := by
  induction terms generalizing given with
  | nil =>
    rw [napkin]
    exact .ite ((Steps.refuse _ _).bind fun _ => .pure _) (.pure _)
  | cons term terms ih =>
    rw [napkin]
    refine (Steps.outcome _).bind fun last => ?_
    have hrest : Steps R (do
        let c ← cell nb false term.value
        napkin nb span terms (given ++ List.replicate (last + 1 - given.length) c)) :=
      (cell_steps false term.value).bind fun c => ih _
    exact .ite ((Steps.refuse _ _).bind fun _ => hrest) hrest

lemma reframe_steps (rule : Rule) (row : Row) (aux : Auxiliary) (target : Direction) :
    Steps R (rule.reframe row aux target) := by
  refine Steps.get.bind fun s => ?_
  split
  · split
    · exact (Steps.outcome _).bind fun _ => .pure _
    · exact .throw _
  · exact .throw _

lemma auxiliaryRows_steps (rule : Rule) (row : Row) : Steps R (rule.auxiliaryRows row) :=
  (Steps.mapM fun aux _ => Steps.mapM fun target _ =>
    (reframe_steps rule row aux target).bind fun _ => Cell.expand_steps _ _).bind fun _ => .pure _

end Growth

end Rule

/-- To ask whether a symmetry is geometric is to ask for the class of all motions. -/
lemma Registry.history_geometric (t : Symmetry) (r : Registry) :
    Registry.History r (runFrom (Registry.geometric t) r).2 := by
  have hnamed : Registry.History r _ := .one (.named t.neighborhood t.neighborhood.dihedral) nofun
  unfold Registry.geometric
  rw [runFrom_bind]
  revert hnamed
  rw [Registry.after]
  rcases runFrom (Registry.named t.neighborhood t.neighborhood.dihedral) r
    with ⟨_ | _, _⟩ <;> exact id

/-- The registry has been asked for types, and the scope develops like this. -/
def Workspace.Develops (R : Scope → Scope → Prop) (w w' : Workspace) : Prop :=
  Registry.History w.registry w'.registry ∧ R w.scope w'.scope

section Develops

variable {R : Scope → Scope → Prop} [Growth R]

namespace Workspace

instance : Std.Refl (Develops R) :=
  ⟨fun w => ⟨.start, refl_of R w.scope⟩⟩

instance : IsTrans Workspace (Develops R) :=
  ⟨fun _ _ _ h h' => ⟨h.1.trans h'.1, trans_of R h.2 h'.2⟩⟩

variable {α : Type}

omit [Growth R] in
lemma onScope_develops {act : ScopeM α} (h : Steps R act) :
    Steps (Develops R) (WorkspaceM.onScope act) := by
  intro w
  rw [Rule.runFrom_onScope]
  exact ⟨.start, h w.scope⟩

lemma onRegistry_develops {act : RegistryM α} (h : ∀ r, Registry.History r (runFrom act r).2) :
    Steps (Develops R) (WorkspaceM.onRegistry act) :=
  fun w => ⟨h w.registry, refl_of R w.scope⟩

omit [Growth R] in
lemma onRegistry_scope {act : RegistryM α} {w w' : Workspace} {x : Except Stop α}
    (h : runFrom (WorkspaceM.onRegistry act) w = (x, w')) : w'.scope = w.scope := by
  rw [← congrArg (fun p => p.2.scope) h]
  rfl

end Workspace

namespace Rule

open Workspace

lemma group_develops (nb : Neighborhood) (group : Option SymmetryExpr) :
    Steps (Workspace.Develops R)
      (group.mapM fun g => WorkspaceM.onRegistry (Registry.declare nb g)) := by
  cases group with
  | none => exact .pure _
  | some g =>
    exact (onRegistry_develops fun r => .one (.declare nb g) nofun).bind fun _ => .pure _

lemma auxiliary_develops (nb : Neighborhood) (symmetry : Symmetry) (a : AuxiliaryExpr) :
    Steps (Workspace.Develops R) (auxiliary nb symmetry a) := by
  refine (onRegistry_develops (Registry.history_geometric symmetry)).bind fun passes => ?_
  have hrest : Steps (Workspace.Develops R) (do
      let value ← WorkspaceM.onScope (cell nb true a.value)
      let group ← a.group.mapM fun g => WorkspaceM.onRegistry (Registry.declare nb g)
      let dirs ← targets nb group a.span a.targets []
      return { targets := dirs, value := value, span := a.span } : WorkspaceM Auxiliary) := by
    exact (onScope_develops (cell_steps _ _)).bind fun value =>
      (group_develops nb a.group).bind fun group => (Steps.outcome _).bind fun _ => .pure _
  cases passes with
  | true => exact hrest
  | false => exact (Steps.refuse _ _).bind fun _ => hrest

lemma layOut_develops (nb : Neighborhood) (symmetry : Symmetry) (t : Transition) :
    Steps (Workspace.Develops R) (layOut nb symmetry t) :=
  (onScope_develops (cell_steps _ _)).bind fun _ =>
    (onScope_develops (napkin_steps _ _ _)).bind fun _ =>
      (onScope_develops (cell_steps _ _)).bind fun _ =>
        (Steps.mapM fun _ _ => auxiliary_develops _ _ _).bind fun _ => .pure _

lemma build_develops (nb : Option Neighborhood) (symmetry : Option Symmetry) (t : Transition) :
    Steps (Workspace.Develops R) (build nb symmetry t) := by
  cases nb with
  | none => exact .throw _
  | some nb =>
    cases symmetry with
    | some symmetry => exact layOut_develops nb symmetry t
    | none =>
      exact (onRegistry_develops fun r => .one (.none nb) nofun).bind fun symmetry =>
        layOut_develops nb symmetry t

end Rule

end Develops

/-! ### Cells within the scope -/

namespace Rule

variable {nb : Neighborhood} {s s' : Scope} {full : Prop}

lemma cell_within {result : Bool} {e : Expr} {c : Cell} (hs : s.Stocked) (hsees : full → s.Sees e)
    (h : runFrom (cell nb result e) s = (.ok c, s')) : c.Within full s' := by
  have hgrows : s.Extends s' := (cell_steps (R := Extends) _ _).run h
  cases cell_ok_iff.mp h with
  | int ht => exact .single (state_ok ht)
  | ref | shift | minus => trivial
  | map _ hp => exact (evalTarget_filled hs hp).below
  | @name ident span v hv =>
    have hfilled : s.Filled (s.Sees (.name ident span)) v.states := by
      refine evalTarget_filled (p := (v.states, false)) hs ?_
      rw [evalTarget, hv]
      rfl
    exact ⟨(lookup_some hv).1, hfilled.imp hsees⟩
  | single _ hl hu =>
    exact .single ((eval_filled hs hl).below _ (List.mem_of_getElem? (Cell.unique?_getElem? hu)))
  | several _ hl _ hv =>
    have hfilled := (eval_filled hs hl).imp hsees
    have hholds := anonymous_ok hv
    refine ⟨Array.mem_of_find?_eq_some hholds, ?_, ?_⟩
    · rw [hholds.states_eq, hgrows.1]
      exact hfilled.below
    · rw [hholds.states_eq]
      exact hfilled.ne_nil

variable {ok : String → Prop}

lemma napkin_within {span : Span} {terms : List Term} {given cells : List Cell} (hs : s.Sound ok)
    (hsees : full → ∀ term ∈ terms, s.Sees term.value) (hg : ∀ c ∈ given, c.Within full s)
    (h : runFrom (napkin nb span terms given) s = (.ok cells, s')) :
    ∀ c ∈ cells, c.Within full s' := by
  induction terms generalizing given s with
  | nil =>
    rw [napkin] at h
    split at h
    · cases h
    · cases h
      exact hg
  | cons term terms ih =>
    rw [napkin] at h
    obtain ⟨last, -, h⟩ := runFrom_outcome_bind_ok.mp h
    split at h
    · cases h
    obtain ⟨c, s₂, hc, h⟩ := runFrom_bind_ok.mp h
    have hgrows := (cell_steps (R := Develops ok) _ _).run hc
    refine ih (hgrows.2 hs) (fun hfull t ht => ?_) (fun c' hc' => ?_) h
    · exact (hsees hfull t (List.mem_cons_of_mem _ ht)).mono hgrows.1
    rcases List.mem_append.mp hc' with hc' | hc'
    · exact (hg c' hc').mono hgrows.1
    · rw [List.eq_of_mem_replicate hc']
      exact cell_within hs.stocked (fun hfull => hsees hfull term List.mem_cons_self) hc

/-- The cells of a rule and the values of its auxiliaries are within the scope. -/
structure LaidWithin (full : Prop) (s : Scope) (rule : Rule) : Prop where
  cells : ∀ c ∈ rule.cells, c.Within full s
  values : ∀ aux ∈ rule.auxiliaries, aux.value.Within full s

lemma LaidWithin.mono {rule : Rule} (h : rule.LaidWithin full s) (hs : s.Extends s') :
    rule.LaidWithin full s' :=
  ⟨fun c hc => (h.cells c hc).mono hs, fun aux haux => (h.values aux haux).mono hs⟩

variable {w w' : Workspace}

lemma auxiliary_within {symmetry : Symmetry} {a : AuxiliaryExpr} {aux : Auxiliary}
    (hs : w.scope.Sound ok) (hsees : full → w.scope.Sees a.value)
    (h : runFrom (auxiliary nb symmetry a) w = (.ok aux, w')) : aux.value.Within full w'.scope := by
  obtain ⟨passes, w₁, hpasses, h⟩ := runFrom_bind_ok.mp h
  rw [← Workspace.onRegistry_scope hpasses] at hs hsees
  split at h
  · obtain ⟨value, w₂, hv, h⟩ := runFrom_bind_ok.mp h
    obtain ⟨group, w₃, hg, h⟩ := runFrom_bind_ok.mp h
    obtain ⟨dirs, w₄, hd, h⟩ := runFrom_bind_ok.mp h
    cases h
    rw [runFrom_outcome, Prod.mk.injEq] at hd
    obtain ⟨-, rfl⟩ := hd
    have hgroup : Steps (Workspace.Develops (Develops ok)) _ := group_develops nb a.group
    exact (cell_within hs.stocked hsees (onScope_ok hv)).mono (hgroup.run hg).2.1
  · cases h

lemma layOut_within {symmetry : Symmetry} {t : Transition} {rule : Rule} (hs : w.scope.Sound ok)
    (hsees : full → ∀ e ∈ t.exprs, w.scope.Sees e)
    (h : runFrom (layOut nb symmetry t) w = (.ok rule, w')) : rule.LaidWithin full w'.scope := by
  obtain ⟨initial, w₁, hi, h⟩ := runFrom_bind_ok.mp h
  obtain ⟨neighbors, w₂, hn, h⟩ := runFrom_bind_ok.mp h
  obtain ⟨result, w₃, hr, h⟩ := runFrom_bind_ok.mp h
  obtain ⟨auxiliaries, w₄, ha, h⟩ := runFrom_bind_ok.mp h
  cases h
  have hsteps : ∀ a ∈ t.auxiliaries, Steps (Workspace.Develops (Develops ok))
      (auxiliary nb symmetry a) :=
    fun a _ => auxiliary_develops nb symmetry a
  -- each part is laid out in the scope that the parts before it have left
  have h₁ := (cell_steps (R := Develops ok) _ _).run (onScope_ok hi)
  have h₂ := (napkin_steps (R := Develops ok) _ _ _).run (onScope_ok hn)
  have h₃ := (cell_steps (R := Develops ok) _ _).run (onScope_ok hr)
  have h₄ := ((Steps.mapM hsteps).run ha).2
  have hsees' : ∀ {u : Scope}, w.scope.Extends u → full → ∀ e ∈ t.exprs, u.Sees e :=
    fun hu hfull e he => (hsees hfull e he).mono hu
  have h₁₂ := h₁.1.trans h₂.1
  have h₁₃ := h₁₂.trans h₃.1
  refine ⟨fun c hc => ?_, fun aux haux => ?_⟩
  · simp only [List.cons_append, List.mem_cons, List.mem_append, List.not_mem_nil, or_false] at hc
    rcases hc with rfl | hc | rfl
    · have := cell_within hs.stocked (fun hfull => hsees hfull _ (by simp [Transition.exprs]))
        (onScope_ok hi)
      exact this.mono (h₂.1.trans (h₃.1.trans h₄.1))
    · have := napkin_within (h₁.2 hs) (fun hfull term hterm => hsees' h₁.1 hfull term.value ?_)
        (by simp) (onScope_ok hn) c hc
      · exact this.mono (h₃.1.trans h₄.1)
      · simp only [Transition.exprs, List.cons_append, List.mem_cons, List.mem_append, List.mem_map]
        exact .inr (.inl ⟨term, hterm, rfl⟩)
    · have := cell_within (h₂.2 (h₁.2 hs)).stocked
        (fun hfull => hsees' h₁₂ hfull _ (by simp [Transition.exprs])) (onScope_ok hr)
      exact this.mono h₄.1
  · obtain ⟨a, hmem, u, u', hu, hrun, hu'⟩ := runFrom_mapM_mem hsteps ha haux
    have := auxiliary_within (hu.2.2 (h₃.2 (h₂.2 (h₁.2 hs))))
      (fun hfull => hsees' (h₁₃.trans hu.2.1) hfull a.value ?_) hrun
    · exact this.mono hu'.2.1
    · simp only [Transition.exprs, List.cons_append, List.mem_cons, List.mem_append, List.mem_map]
      exact .inr (.inr (.inr ⟨a, hmem, rfl⟩))

lemma build_within {nb : Option Neighborhood} {symmetry : Option Symmetry} {t : Transition}
    {rule : Rule} (hs : w.scope.Sound ok) (hsees : full → ∀ e ∈ t.exprs, w.scope.Sees e)
    (h : runFrom (build nb symmetry t) w = (.ok rule, w')) : rule.LaidWithin full w'.scope := by
  obtain ⟨nb, symmetry, w₁, -, h, hstart⟩ := build_ok h
  have hscope : w₁.scope = w.scope := by
    rcases hstart with ⟨-, rfl⟩ | ⟨-, hnone⟩
    · rfl
    · exact Workspace.onRegistry_scope hnone
  rw [← hscope] at hs hsees
  exact layOut_within hs hsees h

end Rule

/-! ### Rows -/

/-- The row has a slot for the cell, for every neighbor and for the next state, which the others
determine, and holds nothing but states and variables of the scope. -/
structure Row.Fits (nb : Neighborhood) (full : Prop) (s : Scope) (row : Row) : Prop where
  length : row.length = nb.size + 2
  proper : row.Proper
  determined : row.Determined
  within : row.Within full s

section Fits

variable {nb : Neighborhood} {s s' : Scope} {full : Prop} {row : Row}

lemma Row.Fits.mono (h : row.Fits nb full s) (hs : s.Extends s') : row.Fits nb full s' :=
  ⟨h.length, h.proper, h.determined, h.within.mono hs⟩

lemma Cell.expand_fits {cells : List Cell} {span : Span} {rows : List Row}
    (hlen : cells.length = nb.size + 2) (hproper : ∀ c ∈ cells, c.Proper)
    (hin : ∀ c ∈ cells, c.Within full s) (h : runFrom (expand cells span) s = (.ok rows, s')) :
    ∀ row ∈ rows, row.Fits nb full s' := by
  intro row hrow
  obtain ⟨hp, hl⟩ := expand_proper hproper h row hrow
  exact ⟨hl.trans hlen, hp, expand_determined hproper h row hrow, expand_within hin h row hrow⟩

end Fits

namespace Rule

variable {nb : Neighborhood} {s s' : Scope} {full : Prop} {ok : String → Prop} {rule : Rule}
variable {row : Row} {target : Direction}

lemma Frame.Laid.within {any : Variable} {span : Span} {entries : List (Option Value)} {f : Frame}
    (h : f.Laid any span entries) (hany : any.Within full s)
    (hseen : ∀ u, some u ∈ entries → u.Within full s) : ∀ c ∈ f.cells, c.Within full s := by
  intro c hc
  obtain ⟨i, hi⟩ := List.mem_iff_getElem?.mp hc
  obtain ⟨entry, hentry⟩ : ∃ entry, entries[i]? = some entry :=
    ⟨_, List.getElem?_eq_getElem (h.length ▸ (List.getElem?_eq_some_iff.mp hi).1)⟩
  cases entry with
  | none =>
    cases (h.unseen i hentry).symm.trans hi
    exact hany
  | some u =>
    have hu := hseen u (List.mem_of_getElem? hentry)
    cases u with
    | state t d o =>
      cases (h.state i t d o hentry).symm.trans hi
      exact hu
    | free v o =>
      obtain ⟨j, hj, hbound⟩ := h.free i v o hentry
      by_cases hij : i = j
      · obtain ⟨w, hw, hown⟩ := h.owner o j hj
        cases hown.symm.trans (hij ▸ hi)
        exact hseen _ (List.mem_of_getElem? hw)
      · cases (hbound hij).symm.trans hi
        trivial

lemma revalue_within {aux : Auxiliary} {c : Cell} (h : revalue nb aux target = .ok c)
    (hv : aux.value.Within full s) : c.Within full s := by
  obtain ⟨-, rfl⟩ | ⟨ref, slot, hr, rfl, -, -⟩ := revalue_ok h
  · exact hv
  · cases hc : aux.value with
    | mapping => rwa [hc] at hv
    | binding | operation => trivial
    | literal | free | absent =>
      rw [hc] at hr
      cases hr

/-- The built-in variable for all states is never empty. -/
lemma any_within {any : Variable} (hs : s.Sound ok) (h : s.lookup "any" = some any) :
    any.Within full s := by
  obtain ⟨hmem, hanon, hname⟩ := lookup_some h
  refine ⟨hmem, hs.stocked.below any hmem hanon, fun _ hnil => ?_⟩
  have hlive := (hs.stocked.live any hmem hanon hnil).1
  rw [hname] at hlive
  revert hlive
  decide

lemma reframed_fits {aux : Auxiliary} {rows : List Row} (hs : s.Sound ok) (hlaid : rule.WellLaid)
    (hin : rule.LaidWithin full s) (hrow : row.Fits rule.neighborhood full s)
    (haux : aux ∈ rule.auxiliaries) (htarget : target ∈ aux.targets)
    (h : runFrom (do Cell.expand (← rule.reframe row aux target) aux.span) s = (.ok rows, s')) :
    ∀ r ∈ rows, r.Fits rule.neighborhood full s' := by
  obtain ⟨cells, s₁, hcells, hrows⟩ := runFrom_bind_ok.mp h
  obtain ⟨any, c, f, hany, hc, hf, rfl, rfl⟩ :=
    reframe_ok (hlaid.targets aux haux target htarget) hcells
  refine Cell.expand_fits ?_ (hf.proper_cells hrow.proper hc (hlaid.values aux haux)) ?_ hrows
  · simp [hf.length, Neighborhood.sites, Neighborhood.size]
  · intro c' hc'
    rcases List.mem_append.mp hc' with hc' | hc'
    · exact hf.within (any_within hs hany) (fun u hu => hrow.within u (mem_of_mem_seen _ hu)) c' hc'
    · rw [List.mem_singleton.mp hc']
      exact revalue_within hc (hin.values aux haux)

/-- What a row entails nearby fits as the row does. -/
lemma auxiliaryRows_fits {out : List Row} (hs : s.Sound ok) (hlaid : rule.WellLaid)
    (hin : rule.LaidWithin full s) (hrow : row.Fits rule.neighborhood full s)
    (h : runFrom (rule.auxiliaryRows row) s = (.ok out, s')) :
    ∀ r ∈ out, r.Fits rule.neighborhood full s' := by
  obtain ⟨parts, s₁, hparts, h⟩ := runFrom_bind_ok.mp h
  cases h
  intro r hr
  obtain ⟨rows, hrows, hr⟩ := List.mem_flatten.mp hr
  obtain ⟨part, hpart, hrows⟩ := List.mem_flatten.mp hrows
  have hstep : ∀ aux target, Steps (Develops ok)
      (do Cell.expand (← rule.reframe row aux target) aux.span : ScopeM (List Row)) :=
    fun aux target => (reframe_steps rule row aux target).bind fun _ => Cell.expand_steps _ _
  obtain ⟨aux, haux, t, t', ht, hrun, ht'⟩ := runFrom_mapM_mem
    (fun aux _ => Steps.mapM fun target _ => hstep aux target) hparts hpart
  obtain ⟨target, htarget, u, u', hu, hrun, hu'⟩ :=
    runFrom_mapM_mem (fun target _ => hstep aux target) hrun hrows
  have hthere := ht.1.trans hu.1
  exact (reframed_fits (hu.2 (ht.2 hs)) hlaid (hin.mono hthere) (hrow.mono hthere) haux htarget hrun
    r hr).mono (hu'.1.trans ht'.1)

end Rule

/-! ### Entries -/

/-- What holds of every entry: its symmetry is known, and a group if so stated, and its rows fit. -/
structure Entry.Sound (nb : Neighborhood) (closed full : Prop) (r : Registry) (s : Scope)
    (e : Entry) : Prop where
  laid : e.rule.WellLaid
  neighborhood : e.rule.neighborhood = nb
  symmetry : Registry.Yields nb closed r e.rule.symmetry
  rows : ∀ row ∈ e.rows ++ e.auxiliaryRows, row.Fits nb full s

section Entries

variable {nb : Neighborhood} {closed full : Prop} {ok : String → Prop}

lemma Entry.Sound.mono {e : Entry} {r r' : Registry} {s s' : Scope}
    (h : e.Sound nb closed full r s) (hr : r.Extends r') (hs : s.Extends s') :
    e.Sound nb closed full r' s' :=
  ⟨h.laid, h.neighborhood, h.symmetry.mono hr, fun row hrow => (h.rows row hrow).mono hs⟩

namespace Table

variable {w w' : Workspace} {symmetry : Option Symmetry} {t : Transition}

lemma rowsOf_steps {R : Scope → Scope → Prop} [Growth R] (rule : Rule) : Steps R (rowsOf rule) :=
  (Cell.expand_steps _ _).bind fun _ =>
    (Steps.mapM fun row _ => rule.auxiliaryRows_steps row).bind fun _ => .pure _

lemma entry_develops {R : Scope → Scope → Prop} [Growth R] (nb : Option Neighborhood)
    (symmetry : Option Symmetry) (t : Transition) :
    Steps (Workspace.Develops R) (entry nb symmetry t) :=
  (Rule.build_develops nb symmetry t).bind fun rule =>
    (Workspace.onScope_develops (rowsOf_steps rule)).bind fun _ => .pure _

lemma rowsOf_fits {rule : Rule} {s s' : Scope} {rows auxiliaryRows : List Row} (hs : s.Sound ok)
    (hlaid : rule.WellLaid) (hin : rule.LaidWithin full s)
    (h : runFrom (rowsOf rule) s = (.ok (rows, auxiliaryRows), s')) :
    ∀ row ∈ rows ++ auxiliaryRows, row.Fits rule.neighborhood full s' := by
  obtain ⟨rows, s₁, hrows, h⟩ := runFrom_bind_ok.mp h
  obtain ⟨parts, s₂, hparts, h⟩ := runFrom_bind_ok.mp h
  cases h
  have hlen : rule.cells.length = rule.neighborhood.size + 2 := by
    simpa [Neighborhood.sites, Neighborhood.size] using hlaid.length
  have hfits := Cell.expand_fits hlen hlaid.cells hin.cells hrows
  have h₁ := (Cell.expand_steps (R := Scope.Develops ok) _ _).run hrows
  have hsteps : ∀ row ∈ rows, Steps (Scope.Develops ok) (rule.auxiliaryRows row) :=
    fun row _ => rule.auxiliaryRows_steps row
  intro r hr
  rcases List.mem_append.mp hr with hr | hr
  · exact (hfits r hr).mono ((Steps.mapM hsteps).run hparts).1
  · obtain ⟨part, hpart, hr⟩ := List.mem_flatten.mp hr
    obtain ⟨row, hrow, u, u', hu, hrun, hu'⟩ := runFrom_mapM_mem hsteps hparts hpart
    exact (Rule.auxiliaryRows_fits (hu.2 (h₁.2 hs)) hlaid (hin.mono (h₁.1.trans hu.1))
      ((hfits row hrow).mono hu.1) hrun r hr).mono hu'.1

lemma build_symmetry {rule : Rule} (hr : w.registry.Sound)
    (hsym : ∀ u, symmetry = some u → Registry.Yields nb closed w.registry u)
    (h : runFrom (Rule.build (some nb) symmetry t) w = (.ok rule, w')) :
    rule.neighborhood = nb ∧ Registry.Yields nb closed w'.registry rule.symmetry := by
  obtain ⟨nb', u, w₁, hnb, h, hstart⟩ := Rule.build_ok h
  cases hnb
  have hrule : rule.neighborhood = nb ∧ rule.symmetry = u := by
    obtain ⟨_, _, -, h⟩ := runFrom_bind_ok.mp h
    obtain ⟨_, _, -, h⟩ := runFrom_bind_ok.mp h
    obtain ⟨_, _, -, h⟩ := runFrom_bind_ok.mp h
    obtain ⟨_, _, -, h⟩ := runFrom_bind_ok.mp h
    cases h
    exact ⟨rfl, rfl⟩
  have hu : w₁.registry.Sound ∧ Registry.Yields nb closed w₁.registry u := by
    rcases hstart with ⟨hu, rfl⟩ | ⟨-, hnone⟩
    · exact ⟨hr, hsym u hu⟩
    · obtain ⟨hok, hw⟩ := Prod.mk.inj hnone
      have hkeeps := Registry.keeps_none hr nb
      obtain ⟨hknows, hnb, hclosed⟩ := (hkeeps.post u hok).1
      rw [← hw]
      exact ⟨hkeeps.sound, hknows, hnb, fun _ => hclosed trivial⟩
  have hlay : Steps (Workspace.Develops Extends) (Rule.layOut nb u t) :=
    Rule.layOut_develops nb u t
  rw [hrule.2]
  exact ⟨hrule.1, hu.2.mono ((hlay.run h).1.sound_extends hu.1).2⟩

/-- **A transition that is laid out** gives a sound entry. -/
lemma entry_sound {e : Entry} (hr : w.registry.Sound) (hs : w.scope.Sound ok)
    (hsym : ∀ u, symmetry = some u → Registry.Yields nb closed w.registry u)
    (hsees : full → ∀ e ∈ t.exprs, w.scope.Sees e)
    (h : runFrom (entry (some nb) symmetry t) w = (.ok e, w')) :
    e.Sound nb closed full w'.registry w'.scope := by
  obtain ⟨rule, w₁, hbuild, h⟩ := runFrom_bind_ok.mp h
  obtain ⟨p, w₂, hrows, h⟩ := runFrom_bind_ok.mp h
  cases h
  have hlaid := Rule.build_wellLaid hbuild
  obtain ⟨hnb, hyields⟩ := build_symmetry hr hsym hbuild
  have hdev : Steps (Workspace.Develops (Develops ok)) _ := Rule.build_develops (some nb) symmetry t
  have hfits := rowsOf_fits ((hdev.run hbuild).2.2 hs) hlaid (Rule.build_within hs hsees hbuild)
    (Rule.onScope_ok hrows)
  have hreg : w'.registry = w₁.registry := by
    rw [← congrArg (fun p => p.2.registry) hrows]
    rfl
  exact ⟨hlaid, hnb, hreg ▸ hyields, hnb ▸ hfits⟩

end Table

end Entries

end RuleTable
