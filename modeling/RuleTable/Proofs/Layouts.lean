import RuleTable.Proofs.Stopping

/-!
How laying out a transition stops, and how working out its rows does.

While a transition is laid out, the scope gets no variables but such as have no name, so expressions
mean what they meant before. The slots that a layout refers to are there, every slot is resolved
after those it refers to, and each split leaves fewer slots to be split: nothing is asked for that
is not there.
-/

namespace RuleTable

open Text

/-! ### Scopes that look alike -/

namespace Scope

variable {P : Span → Prop} {tame : Prop} {s s' s'' : Scope} {e : Expr}

/-- The later scope finds by name what the earlier one finds. -/
def Alike (s s' : Scope) : Prop := s'.lookup = s.lookup ∧ s'.stateCount = s.stateCount

lemma Alike.trans (h : s.Alike s') (h' : s'.Alike s'') : s.Alike s'' :=
  ⟨h'.1.trans h.1, h'.2.trans h.2⟩

lemma addAnonymous_alike (name? : NameSource → Option (String × NameSource)) (states : StateList) :
    Steps Alike (addAnonymous name? states) := by
  intro s
  unfold addAnonymous
  simp only [runFrom_bind, runFrom_get]
  cases name? s.names with
  | none => exact ⟨rfl, rfl⟩
  | some p =>
    refine ⟨funext fun name => ?_, rfl⟩
    change (s.vars.push { name := p.1, states := states, anonymous := true }).find? _ =
      s.vars.find? _
    rw [Array.find?_push]
    simp

instance : Growth Alike where
  refl _ := ⟨rfl, rfl⟩
  trans _ _ _ := Alike.trans
  anonymous_steps states s := by
    rw [runFrom_anonymous]
    split
    · exact ⟨rfl, rfl⟩
    · exact addAnonymous_alike _ _ _

/-- Names have run out, unless the statement was not tame. -/
def Spent (tame : Prop) (s : Scope) : Prop := tame → s.names.fresh? = none

lemma fair_outcome {α : Type} {x : Outcome α} (h : Fair P (¬ tame) x) :
    FairFrom P (Spent tame) (liftM x) s :=
  .outcome (h.imp fun hnot ht => absurd ht hnot)

lemma addAnonymous_fair (states : StateList) :
    FairFrom P (Spent tame) (addAnonymous NameSource.fresh? states) s := by
  unfold addAnonymous
  refine .get_bind ?_
  split
  · next hnone => exact .throw fun _ => hnone
  · exact FairFrom.bind (by rintro _ _ ⟨⟩) fun _ _ _ => .pure _

lemma anonymous_fair (states : StateList) : FairFrom P (Spent tame) (anonymous states) s := by
  unfold anonymous
  refine .get_bind ?_
  split
  · exact .pure _
  · exact addAnonymous_fair states

section Alike

variable (h : s.Alike s')

include h

lemma Alike.state (raw : String) (span : Span) : s'.state raw span = s.state raw span := by
  unfold Scope.state
  rw [h.2]

lemma Alike.bound (e : Expr) : s'.bound e = s.bound e := by
  unfold Scope.bound
  split
  · exact h.state _ _
  · rfl

lemma Alike.every (live : Bool) : (if live then s'.liveStates else s'.anyStates) =
    if live then s.liveStates else s.anyStates := by
  unfold liveStates anyStates
  rw [h.1]

end Alike

mutual

/-- **Evaluation** sees the variables with a name only. -/
lemma Alike.evalTarget (h : s.Alike s') (e : Expr) : s'.evalTarget e = s.evalTarget e := by
  cases e with
  | int raw span => rw [Scope.evalTarget, Scope.evalTarget, h.state]
  | name ident span => rw [Scope.evalTarget, Scope.evalTarget, h.1]
  | set elems ellipsis span => rw [Scope.evalTarget, Scope.evalTarget, h.evalAll elems]
  | range lo hi span => rw [Scope.evalTarget, Scope.evalTarget, h.bound, h.bound]
  | binary op left right span =>
    rw [Scope.evalTarget, Scope.evalTarget, h.evalTarget left, h.evalTarget right]
  | complement operand live span =>
    rw [Scope.evalTarget, Scope.evalTarget, h.evalTarget operand, h.every]
  | ref | map | refOp | missing => rfl

lemma Alike.evalAll (h : s.Alike s') (es : List Expr) :
    Scope.evalAll s' es = Scope.evalAll s es := by
  cases es with
  | nil => rfl
  | cons e es => rw [Scope.evalAll, Scope.evalAll, h.evalTarget e, h.evalAll es]

end

lemma Alike.eval (h : s.Alike s') (e : Expr) : s'.eval e = s.eval e := by
  unfold Scope.eval
  rw [h.evalTarget]

lemma Alike.overlong (h : s.Alike s') (hlong : s'.Overlong e) : s.Overlong e := by
  unfold Overlong at hlong ⊢
  split at hlong
  · rwa [h.eval] at hlong
  · rwa [h.eval] at hlong
  · cases hlong

lemma Admits.alike (he : s.Admits P tame e) (h : s.Alike s') : s'.Admits P tame e where
  places := he.places
  tame := by
    intro ht x hx
    obtain ⟨hsome, hwraps, hlong⟩ := he.tame ht x hx
    exact ⟨hsome, hwraps, fun hlong' => hlong (h.overlong hlong')⟩

end Scope

/-! ### Layouts -/

def Cell.Marked (P : Span → Prop) : Cell → Prop
  | .binding _ span | .mapping _ _ _ span | .operation _ _ _ _ span => P span
  | .literal _ _ | .free _ | .absent => True

namespace Rule

open Scope

variable {P : Span → Prop} {tame : Prop} {s s' : Scope} {e : Expr} {nb : Neighborhood}

lemma freeCell_fair (h : s.Admits P tame e) (v : Variable) (result : Bool) :
    Fair P (¬ tame) (freeCell v result e) := by
  unfold freeCell
  split
  · exact h.span_fair.bind fun _ hspan =>
      Fair.bind (.refuse (.inr (h.span hspan)) _) fun _ _ => .ok _
  · exact .ok _

/-- **A cell** is refused at a place in its expression. -/
lemma cell_fair (h : s.Admits P tame e) (nb : Neighborhood) (result : Bool) :
    FairFrom P (Spent tame) (cell nb result e) s := by
  refine .get_bind ?_
  have hslot : ∀ r, s.Admits P tame (.ref r) → FairFrom P (Spent tame) (liftM (nb.slot r)) s := by
    intro r hr
    exact fair_outcome ((slot_fair (hr.span rfl)).imp fun hwraps ht => (hr.self ht).2.1 hwraps)
  cases e with
  | int raw span => exact (fair_outcome (state_fair (h.span rfl))).bind fun _ _ _ => .pure _
  | ref r => exact (hslot r h).bind fun _ _ _ => .pure _
  | map r image span =>
    have himage : s.Admits P tame image := h.part (by simp +contextual [Expr.nodes])
    refine (hslot r (h.part (by simp [Expr.nodes]))).bind fun slot s₁ hs₁ => ?_
    exact (fair_outcome (evalTarget_fair image himage)).bind fun _ _ _ => .pure _
  | refOp r op arg span =>
    have harg : s.Admits P tame arg := h.part (by simp +contextual [Expr.nodes])
    refine (hslot r (h.part (by simp [Expr.nodes]))).bind fun slot s₁ hs₁ => ?_
    cases op with
    | shift => exact (fair_outcome (count_fair harg)).bind fun _ _ _ => .pure _
    | minus => exact (fair_outcome (eval_fair harg)).bind fun _ _ _ => .pure _
    | times | cycle | other => exact .refuse (.inr (h.span rfl)) _
  | name ident span =>
    dsimp only
    split
    · exact fair_outcome (freeCell_fair h _ _)
    · exact .refuse (.inr (h.span rfl)) _
  | set | range | binary | complement | missing =>
    refine (fair_outcome (eval_fair h)).bind fun states s₁ hs₁ => ?_
    split
    · exact .pure _
    · exact (anonymous_fair _).bind fun _ _ _ => fair_outcome (freeCell_fair h _ _)

/-- The cell of an expression stands at the place of the expression. -/
lemma cell_marked {result : Bool} {c : Cell} (h : s.Admits P tame e)
    (hrun : runFrom (cell nb result e) s = (.ok c, s')) : c.Marked P := by
  cases cell_ok_iff.mp hrun with
  | int | name | single | several => trivial
  | ref | map | shift | minus => exact h.span rfl

lemma lastPosition_fair {term : Term} (h : P term.span) (next : ℕ) :
    Fair P (¬ tame) (lastPosition nb term next) := by
  unfold lastPosition
  refine .ite (fun _ => .ok _) fun _ => ?_
  refine (position_fair h _).bind fun first _ => .unless (.inr h) (.unless (.inr h) ?_)
  refine .ite (fun _ => .ok _) fun _ => ?_
  exact (position_fair h _).bind fun last _ => .unless (.inr h) (.ok _)

lemma napkin_fair {span : Span} (hspan : P span) {terms : List Term}
    (h : ∀ term ∈ terms, P term.span ∧ s.Admits P tame term.value) (given : List Cell) :
    FairFrom P (Spent tame) (napkin nb span terms given) s := by
  induction terms generalizing given s with
  | nil =>
    rw [napkin]
    exact .unless (.inr hspan) (.pure _)
  | cons term terms ih =>
    rw [napkin]
    obtain ⟨hterm, hvalue⟩ := h term List.mem_cons_self
    refine (fair_outcome (lastPosition_fair hterm _)).bind fun last s₁ hs₁ => ?_
    obtain ⟨-, rfl⟩ := Prod.mk.inj hs₁
    refine .unless (.inr hterm)
      ((cell_fair hvalue nb false).bind fun c s₂ hrun => ih (fun u hu => ?_) _)
    have hlike : s.Alike s₂ := (cell_steps false term.value).run hrun
    exact ⟨(h u (List.mem_cons_of_mem _ hu)).1, (h u (List.mem_cons_of_mem _ hu)).2.alike hlike⟩

lemma napkin_marked {span : Span} {terms : List Term} {given cells : List Cell}
    (h : ∀ term ∈ terms, s.Admits P tame term.value) (hgiven : ∀ c ∈ given, c.Marked P)
    (hrun : runFrom (napkin nb span terms given) s = (.ok cells, s')) :
    ∀ c ∈ cells, c.Marked P := by
  induction terms generalizing given s with
  | nil =>
    rw [napkin] at hrun
    split at hrun
    · cases hrun
    · cases hrun
      exact hgiven
  | cons term terms ih =>
    rw [napkin] at hrun
    obtain ⟨last, s₁, hlast, hrun⟩ := runFrom_bind_ok.mp hrun
    obtain ⟨-, rfl⟩ := Prod.mk.inj hlast
    split at hrun
    · cases hrun
    obtain ⟨c, s₂, hc, hrun⟩ := runFrom_bind_ok.mp hrun
    have hlike : s.Alike s₂ := (cell_steps false term.value).run hc
    refine ih (fun u hu => (h u (List.mem_cons_of_mem _ hu)).alike hlike) (fun c' hc' => ?_) hrun
    rcases List.mem_append.mp hc' with hc' | hc'
    · exact hgiven c' hc'
    · rw [List.eq_of_mem_replicate hc']
      exact cell_marked (h term List.mem_cons_self) hc

lemma targets_fair {span : Span} (h : P span) (group : Option Symmetry) (labels : List String)
    (found : List Direction) : Fair P (¬ tame) (targets nb group span labels found) := by
  induction labels generalizing found with
  | nil => exact .ok _
  | cons label labels ih =>
    rw [targets]
    exact (position_fair h label).bind fun position _ => ih _

end Rule

section Workspaces

variable {α : Type} {P : Span → Prop} {tame : Prop} {w : Workspace}

lemma onScope_fair {act : ScopeM α} (h : FairFrom P (Scope.Spent tame) act w.scope) :
    FairFrom P (fun w => w.scope.Spent tame) (WorkspaceM.onScope act) w := by
  intro e w' hrun
  rw [Rule.runFrom_onScope] at hrun
  obtain ⟨he, rfl⟩ := Prod.mk.inj hrun
  exact h e _ (Prod.ext he rfl)

lemma onRegistry_fair {act : RegistryM α} {excuse : Workspace → Prop}
    (h : FairFrom P (fun _ => False) act w.registry) :
    FairFrom P excuse (WorkspaceM.onRegistry act) w := by
  intro e w' hrun
  obtain ⟨he, -⟩ := Prod.mk.inj hrun
  exact (h e _ (Prod.ext he rfl)).imp False.elim

end Workspaces

/-- What is known of a transition: its places are among these, and its expressions are tame if so
supposed. -/
structure Scope.AdmitsTransition (P : Span → Prop) (tame : Prop) (s : Scope) (t : Transition) :
    Prop where
  span : P t.span
  exprs : ∀ e ∈ t.exprs, s.Admits P tame e
  terms : ∀ term ∈ t.napkin, P term.span
  auxiliaries : ∀ a ∈ t.auxiliaries, P a.span ∧ ∀ g ∈ a.group, ∀ place, g.Has place → P place

lemma mem_exprs_term {t : Transition} {term : Term} (h : term ∈ t.napkin) :
    term.value ∈ t.exprs := by
  simp only [Transition.exprs, List.cons_append, List.mem_cons, List.mem_append, List.mem_map]
  exact .inr (.inl ⟨term, h, rfl⟩)

lemma mem_exprs_auxiliary {t : Transition} {a : AuxiliaryExpr} (h : a ∈ t.auxiliaries) :
    a.value ∈ t.exprs := by
  simp only [Transition.exprs, List.cons_append, List.mem_cons, List.mem_append, List.mem_map]
  exact .inr (.inr (.inr ⟨a, h, rfl⟩))

structure Rule.Marked (P : Span → Prop) (rule : Rule) : Prop where
  span : P rule.span
  cells : ∀ c ∈ rule.cells, c.Marked P
  auxiliaries : ∀ aux ∈ rule.auxiliaries, P aux.span ∧ aux.value.Marked P

namespace Rule

open Scope

variable {P : Span → Prop} {tame : Prop} {nb : Neighborhood} {w w' : Workspace}

section Auxiliary

variable {a : AuxiliaryExpr} (hspan : P a.span) (hvalue : w.scope.Admits P tame a.value)

include hspan hvalue

lemma auxiliary_fair (hgroup : ∀ g ∈ a.group, ∀ place, g.Has place → P place)
    (symmetry : Symmetry) :
    FairFrom P (fun w => w.scope.Spent tame) (auxiliary nb symmetry a) w := by
  refine (onRegistry_fair (Registry.geometric_fair symmetry)).bind fun passes w₁ hpasses => ?_
  rw [← Workspace.onRegistry_scope hpasses] at hvalue
  have hrest : FairFrom P (fun w => w.scope.Spent tame) (do
      let value ← WorkspaceM.onScope (cell nb true a.value)
      let group ← a.group.mapM fun g => WorkspaceM.onRegistry (Registry.declare nb g)
      let dirs ← targets nb group a.span a.targets []
      return { targets := dirs, value := value, span := a.span } : WorkspaceM Auxiliary) w₁ := by
    refine (onScope_fair (cell_fair hvalue nb true)).bind fun value w₂ _ => ?_
    refine FairFrom.bind ?_ fun group w₃ _ => ?_
    · cases hg : a.group with
      | none => exact .pure _
      | some g =>
        exact (onRegistry_fair (Registry.declare_fair nb g (hgroup g hg) _)).bind
          fun _ _ _ => .pure _
    · have htargets : Fair P (¬ tame) (targets nb group a.span a.targets []) :=
        targets_fair hspan _ _ _
      exact (FairFrom.outcome (htargets.imp fun hnot ht => absurd ht hnot)).bind
        fun _ _ _ => .pure _
  cases passes with
  | true => exact hrest
  | false => exact FairFrom.bind (.refuse (.inr hspan) _) fun _ _ hrun => by cases hrun

lemma auxiliary_marked {symmetry : Symmetry} {aux : Auxiliary}
    (hrun : runFrom (auxiliary nb symmetry a) w = (.ok aux, w')) :
    P aux.span ∧ aux.value.Marked P := by
  obtain ⟨passes, w₁, hpasses, hrun⟩ := runFrom_bind_ok.mp hrun
  rw [← Workspace.onRegistry_scope hpasses] at hvalue
  split at hrun
  · obtain ⟨value, w₂, hv, hrun⟩ := runFrom_bind_ok.mp hrun
    obtain ⟨group, w₃, -, hrun⟩ := runFrom_bind_ok.mp hrun
    obtain ⟨dirs, w₄, -, hrun⟩ := runFrom_bind_ok.mp hrun
    cases hrun
    exact ⟨hspan, cell_marked hvalue (onScope_ok hv)⟩
  · cases hrun

end Auxiliary

variable {t : Transition}

lemma onScope_alike {α : Type} {act : ScopeM α} {a : α} (hact : Steps Alike act)
    (h : runFrom (WorkspaceM.onScope act) w = (.ok a, w')) : w.scope.Alike w'.scope :=
  hact.run (onScope_ok h)

/-- **Laying out** is refused at a place in the transition. -/
lemma layOut_fair (h : w.scope.AdmitsTransition P tame t) (symmetry : Symmetry) :
    FairFrom P (fun w => w.scope.Spent tame) (layOut nb symmetry t) w := by
  refine (onScope_fair (cell_fair (h.exprs _ ?_) nb false)).bind fun initial w₁ h₁ => ?_
  · simp [Transition.exprs]
  have h₁ := onScope_alike (cell_steps _ _) h₁
  refine (onScope_fair (napkin_fair h.span (fun term hterm => ?_) [])).bind
    fun neighbors w₂ h₂ => ?_
  · exact ⟨h.terms term hterm, (h.exprs _ (mem_exprs_term hterm)).alike h₁⟩
  have h₂ := h₁.trans (onScope_alike (napkin_steps _ _ _) h₂)
  refine (onScope_fair (cell_fair ((h.exprs _ ?_).alike h₂) nb true)).bind fun result w₃ h₃ => ?_
  · simp [Transition.exprs]
  have h₃ := h₂.trans (onScope_alike (cell_steps _ _) h₃)
  refine FairFrom.bind
    (.mapM (R := Workspace.Develops Alike) (fun a _ => auxiliary_develops nb symmetry a)
    fun a ha w₄ h₄ => ?_) fun _ _ _ => .pure _
  exact auxiliary_fair (h.auxiliaries a ha).1
    ((h.exprs _ (mem_exprs_auxiliary ha)).alike (h₃.trans h₄.2))
    (h.auxiliaries a ha).2 symmetry

lemma layOut_marked {symmetry : Symmetry} {rule : Rule} (h : w.scope.AdmitsTransition P tame t)
    (hrun : runFrom (layOut nb symmetry t) w = (.ok rule, w')) : rule.Marked P := by
  obtain ⟨initial, w₁, hi, hrun⟩ := runFrom_bind_ok.mp hrun
  obtain ⟨neighbors, w₂, hn, hrun⟩ := runFrom_bind_ok.mp hrun
  obtain ⟨result, w₃, hr, hrun⟩ := runFrom_bind_ok.mp hrun
  obtain ⟨auxiliaries, w₄, ha, hrun⟩ := runFrom_bind_ok.mp hrun
  cases hrun
  have h₁ := onScope_alike (cell_steps _ _) hi
  have h₂ := h₁.trans (onScope_alike (napkin_steps _ _ _) hn)
  have h₃ := h₂.trans (onScope_alike (cell_steps _ _) hr)
  refine ⟨h.span, fun c hc => ?_, fun aux haux => ?_⟩
  · simp only [List.cons_append, List.mem_cons, List.mem_append, List.not_mem_nil, or_false] at hc
    rcases hc with rfl | hc | rfl
    · exact cell_marked (h.exprs _ (by simp [Transition.exprs])) (onScope_ok hi)
    · exact napkin_marked (fun term hterm => (h.exprs _ (mem_exprs_term hterm)).alike h₁) (by simp)
        (onScope_ok hn) c hc
    · exact cell_marked ((h.exprs _ (by simp [Transition.exprs])).alike h₂) (onScope_ok hr)
  · obtain ⟨a, hmem, u, u', hu, haux, -⟩ := runFrom_mapM_mem (R := Workspace.Develops Alike)
      (fun a _ => auxiliary_develops nb symmetry a) ha haux
    exact auxiliary_marked (h.auxiliaries a hmem).1
      ((h.exprs _ (mem_exprs_auxiliary hmem)).alike (h₃.trans hu.2)) haux

lemma build_fair (h : w.scope.AdmitsTransition P tame t) (nb : Option Neighborhood)
    (symmetry : Option Symmetry) :
    FairFrom P (fun w => w.scope.Spent tame) (build nb symmetry t) w := by
  cases nb with
  | none => exact .throw ((Failure.points_bare _).locate (.inr h.span))
  | some nb =>
    cases symmetry with
    | some symmetry => exact layOut_fair h symmetry
    | none =>
      refine (onRegistry_fair (Registry.none_fair nb)).bind fun symmetry w₁ hw₁ => ?_
      rw [← Workspace.onRegistry_scope hw₁] at h
      exact layOut_fair h symmetry

lemma build_marked {nb : Option Neighborhood} {symmetry : Option Symmetry} {rule : Rule}
    (h : w.scope.AdmitsTransition P tame t)
    (hrun : runFrom (build nb symmetry t) w = (.ok rule, w')) : rule.Marked P := by
  obtain ⟨nb, symmetry, w₁, -, hrun, hstart⟩ := build_ok hrun
  have hscope : w₁.scope = w.scope := by
    rcases hstart with ⟨-, rfl⟩ | ⟨-, hnone⟩
    · rfl
    · exact Workspace.onRegistry_scope hnone
  exact layOut_marked (hscope ▸ h) hrun

end Rule

/-! ### Slots -/

namespace Cell

open Scope

variable {P : Span → Prop} {tame : Prop} {s s' : Scope} {span : Span} {cells : List Cell}
variable {values : Slots} {i : ℕ}

lemma draw_of_lt {v : Variable} {k : ℕ} {origin : ℤ} (h : k < v.states.length) :
    v.draw k origin = .ok (.state (v.states.get ⟨k, h⟩) (some ⟨v, k⟩) origin) := by
  unfold Variable.draw
  rw [show ((k : ℤ).toNat? >>= fun i => v.states[i]?) = some (v.states.get ⟨k, h⟩) from
    List.getElem?_eq_getElem h]
  rfl

/-- An index that is brought below the length finds a state. -/
lemma lookUp_fair {images : StateList} {ellipsis : Bool} {t slot : ℤ} {drawn : Option Draw}
    (hspan : P span) (hp : Proper (.literal t drawn)) :
    Fair P (¬ tame) (lookUp images ellipsis t drawn slot span) := by
  unfold lookUp
  rcases hs : sourceOf t drawn with ⟨states, index⟩
  have h0 : 0 ≤ index := by have := hp.1; rwa [hs] at this
  dsimp only
  refine .ite (fun _ => Fair.bind (.refuse (.inr hspan) _) nofun) fun he => .unless (.inr hspan) ?_
  have hlen : 0 < images.length := List.length_pos_iff.mpr (by simpa using he)
  refine Fair.bind ?_ fun _ _ => .ok _
  obtain ⟨k, hk⟩ := Int.eq_ofNat_of_zero_le (a := if (images.length : ℤ) ≤ index then
    (images.length : ℤ) - 1 else index) (by split <;> omega)
  have hlt : k < images.length := by split at hk <;> omega
  rw [hk, draw_of_lt hlt]
  exact .ok _

lemma remove_fair {v : Value} (hspan : P span) (operand : StateList) (slot : ℤ) :
    FairFrom P (Spent tame) (remove operand v slot span) s := by
  unfold remove
  refine .unless (.inr hspan) ?_
  split
  · exact .pure _
  · exact (anonymous_fair _).bind fun _ _ _ => .pure _

/-- **One cell** is refused at its place, when the slot that it refers to is known. -/
lemma resolve_fair {c : Cell} (hc : c.Marked P) (hs : Sound cells values)
    (hknown : ∀ ref, c.ref? = some ref → (valueAt values ref).isSome) :
    FairFrom P (Spent tame) (c.resolve (valueAt values) i) s := by
  have hsource : ∀ ref t drawn o, valueAt values ref = some (.state t drawn o) →
      Proper (.literal t drawn) := by
    intro ref t drawn o hv
    obtain ⟨j, rfl⟩ := valueAt_some hv
    exact (hs.holds j _ hv).1
  cases c with
  | literal t drawn => exact .pure _
  | free v =>
    rw [resolve]
    split <;> exact .pure _
  | binding ref span =>
    rw [resolve]
    split
    · next hnone => simp [hnone, ref?] at hknown
    · exact .pure _
    · exact .pure _
  | mapping ref images ellipsis span =>
    rw [resolve]
    split
    · next hnone => simp [hnone, ref?] at hknown
    · exact .pure _
    · next hv => exact fair_outcome (lookUp_fair hc (hsource _ _ _ _ hv))
  | operation ref op count operand span =>
    rw [resolve]
    split
    · next hnone => simp [hnone, ref?] at hknown
    · next v hv =>
      split
      · exact remove_fair hc operand _
      · split
        · exact .pure _
        · exact fair_outcome (lookUp_fair hc (hsource _ _ _ _ hv))
      · exact .refuse (.inr hc) _
  | absent => exact .refuse (.inl rfl) _

lemma settleCell_fair {last : ℕ} {c : Cell} (hspan : P span) (hc : cells[i]? = some c)
    (hp : Proper c) (hm : c.Marked P) (hs : Sound cells values)
    (hknown : ∀ ref, c.ref? = some ref → (valueAt values ref).isSome) :
    FairFrom P (Spent tame) (settleCell last span values i c) s := by
  refine ((resolve_fair hm hs hknown).locating (.inr hspan) _).bind fun r s₁ hr => ?_
  obtain ⟨slot, v, origin, rfl, hv⟩ | ⟨v, rfl, -, -⟩ :=
    resolve_ok hc hp hs (runFrom_locating_ok.mp hr)
  · simp only [enter, hv]
    exact .pure _
  · cases v with
    | state t drawn origin => exact .pure _
    | free w origin =>
      rw [enter]
      exact .unless (.inr hspan) (.pure _)

section Slots

variable (hspan : P span) (hproper : ∀ c ∈ cells, Proper c) (hmarked : ∀ c ∈ cells, c.Marked P)

include hspan hproper hmarked

/-- **A slot** is resolved after those it refers to. The slots that wait are different ones, so
there are at most as many as there are slots. -/
lemma settle_fair {depth : ℕ} {path : List ℕ} (hs : Sound cells values)
    (hsize : values.size = cells.length) (hi : i < cells.length) (hpath : path.Nodup)
    (hin : ∀ j ∈ path, j < cells.length) (hdepth : cells.length + 1 ≤ depth + path.length) :
    FairFrom P (Spent tame) (settle cells.toArray span depth path values i) s := by
  induction depth generalizing path i s with
  | zero =>
    have hlen := (List.subperm_of_subset hpath
      (fun j hj => List.mem_range.mpr (hin j hj))).length_le
    rw [List.length_range] at hlen
    omega
  | succ depth ih =>
    rw [settle]
    refine .ite (fun _ => .pure _) fun hnone => .ite (fun _ => ?_) fun hnotin => ?_
    · exact .throw ((Failure.points_bare _).locate (.inr hspan))
    have hc : cells[i]? = some cells[i] := List.getElem?_eq_getElem hi
    have hmem : cells[i] ∈ cells := List.getElem_mem hi
    simp only [List.getElem?_toArray, hc]
    cases hr : cells[i].ref? with
    | none => exact settleCell_fair hspan hc (hproper _ hmem) (hmarked _ hmem) hs (by simp [hr])
    | some ref =>
      refine .ite (fun _ => FairFrom.bind (.refuse (.inr hspan) _) fun _ _ hrun => by cases hrun)
        fun hin' => ?_
      obtain ⟨j, rfl⟩ := Int.eq_ofNat_of_zero_le (a := ref) (by omega)
      have hj : j < cells.length := by simp at hin'; omega
      refine FairFrom.bind (ih hj (List.nodup_cons.mpr ⟨by simpa using hnotin, hpath⟩)
        (by simpa using ⟨hi, hin⟩) (by simp; omega)) fun q s₁ hq => ?_
      obtain ⟨hadvances, hknown⟩ := settle_ok hproper hs hsize hq
      cases q with
      | split v origin => exact .pure _
      | settled values₁ =>
        refine settleCell_fair hspan hc (hproper _ hmem)
          (hmarked _ hmem) hadvances.1 fun ref href => ?_
        obtain rfl := Option.some.inj (hr.symm.trans href)
        exact hknown values₁ rfl

lemma settleAll_fair {slots : List ℕ} (hslots : ∀ i ∈ slots, i < cells.length)
    (hs : Sound cells values)
    (hsize : values.size = cells.length) :
    FairFrom P (Spent tame) (settleAll cells.toArray span slots values) s := by
  induction slots generalizing values s with
  | nil => exact .pure _
  | cons i slots ih =>
    rw [settleAll]
    refine (settle_fair hspan hproper hmarked hs hsize (hslots i List.mem_cons_self) List.nodup_nil
      (by simp) (by simp)).bind fun q s₁ hq => ?_
    obtain ⟨hadvances, -⟩ := settle_ok hproper hs hsize hq
    cases q with
    | split v origin => exact .pure _
    | settled values₁ =>
      exact ih (fun i hi => hslots i (List.mem_cons_of_mem _ hi)) hadvances.1
        (hadvances.2.size.trans hsize)

end Slots

/-- The slot of a variable with several states is no literal. -/
lemma Owns.isLiteral {j : ℕ} {v : Variable} {c : Cell} (h : Owns cells j v) (hne : v.states ≠ [])
    (hc : cells[j]? = some c) : c.isLiteral = false := by
  cases c with
  | literal t drawn =>
    have hstands : ∀ choice x, Stands cells choice j x ↔ x = standOf t drawn :=
      fun choice x => stands_own_iff hc rfl
    have hlen : 2 ≤ v.states.length := by
      rcases hv : v.states with _ | ⟨a, _ | ⟨b, l⟩⟩
      · exact absurd hv hne
      · have hseveral := h.1
        rw [hv] at hseveral
        cases hseveral
      · exact Nat.le_add_left 2 _
    -- its first state and its second are not the same stand
    have hindex : ∀ k < v.states.length, (standOf t drawn).index = k := by
      intro k hk
      have hx := (h.2 (fun _ => k) _).mp ((hstands _ _).mpr rfl)
      rw [Nat.mod_eq_of_lt hk] at hx
      exact hx.2.1
    exact absurd ((hindex 0 (by omega)).symm.trans (hindex 1 hlen)) (by simp)
  | _ => rfl

/-- **The rows of a layout.** Each split makes a literal of a slot that was none, so the splits do
not run out. -/
lemma branch_fair {splits : ℕ} (hspan : P span) (hproper : ∀ c ∈ cells, Proper c)
    (hmarked : ∀ c ∈ cells, c.Marked P) (hsplits : nonLiterals cells < splits) :
    FairFrom P (Spent tame) (branch span splits cells) s := by
  induction splits generalizing cells s with
  | zero => omega
  | succ splits ih =>
    rw [branch]
    refine (settleAll_fair hspan hproper hmarked (by simp) (sound_replicate cells cells.length)
      Array.size_replicate).bind fun p s₁ hp => ?_
    obtain ⟨hadvances, -⟩ :=
      settleAll_ok hproper (sound_replicate cells cells.length) Array.size_replicate hp
    cases p with
    | settled values => exact .pure _
    | split v origin =>
      obtain ⟨j, rfl, hj, howns⟩ := hadvances
      refine FairFrom.bind (.mapM (R := Extends) (fun _ _ => branch_steps _ _ _) ?_)
        fun _ _ _ => .pure _
      rintro ⟨t, k⟩ hmem s' -
      have ht := List.mem_zipIdx_iff_getElem?.mp hmem
      refine ih (proper_set hproper ht) (fun c hc => ?_) ?_
      · rcases List.mem_or_eq_of_mem_set hc with hc | rfl
        · exact hmarked c hc
        · trivial
      · have hc : cells[j]? = some cells[j] := List.getElem?_eq_getElem hj
        have hliteral : cells[j].isLiteral = false :=
          howns.isLiteral (List.ne_nil_of_mem (List.mem_of_getElem? ht)) hc
        exact Nat.lt_of_lt_of_le (nonLiterals_set hc hliteral) (Nat.le_of_lt_succ hsplits)

lemma expand_fair (hspan : P span) (hproper : ∀ c ∈ cells, Proper c)
    (hmarked : ∀ c ∈ cells, c.Marked P) : FairFrom P (Spent tame) (expand cells span) s :=
  (branch_fair hspan hproper hmarked (Nat.lt_succ_self _)).bind fun _ _ _ => .pure _

end Cell

/-! ### Entries -/

namespace Rule

open Scope

variable {P : Span → Prop} {tame : Prop} {s s' : Scope} {nb : Neighborhood} {rule : Rule}
variable {row : Row} {aux : Auxiliary} {target : Direction}

lemma revalue_fair (hspan : P aux.span)
    (href : ∀ ref, aux.value.ref? = some ref → ref.toNat < nb.sites.length) :
    Fair P (¬ tame) (revalue nb aux target) := by
  unfold revalue
  split
  · exact .ok _
  next ref hr =>
  extract_lets next
  have hnext : ∀ source, Fair P (¬ tame) (next source) := by
    intro source
    simp only [next]
    split
    · exact .ok _
    · exact .refuse (.inr hspan) _
  refine .ite (fun _ => hnext .c) fun hpos => ?_
  have hlt : ref.toNat - 1 < nb.directions.length := by
    have := href ref hr
    rw [Neighborhood.sites, List.length_cons] at this
    omega
  rw [List.getElem?_eq_getElem hlt]
  exact hnext _

lemma revalue_marked {c : Cell} (h : revalue nb aux target = .ok c) (hv : aux.value.Marked P) :
    c.Marked P := by
  obtain ⟨-, rfl⟩ | ⟨ref, slot, -, rfl, -, -⟩ := revalue_ok h
  · exact hv
  · cases hc : aux.value <;> rw [hc] at hv <;> exact hv

lemma Frame.Laid.marked {any : Variable} {span : Span} {entries : List (Option Value)} {f : Frame}
    (h : f.Laid any span entries) (hspan : P span) : ∀ c ∈ f.cells, c.Marked P := by
  intro c hc
  obtain ⟨i, hi⟩ := List.mem_iff_getElem?.mp hc
  obtain ⟨entry, hentry⟩ : ∃ entry, entries[i]? = some entry :=
    ⟨_, List.getElem?_eq_getElem (h.length ▸ (List.getElem?_eq_some_iff.mp hi).1)⟩
  cases entry with
  | none =>
    cases (h.unseen i hentry).symm.trans hi
    trivial
  | some u =>
    cases u with
    | state t d o =>
      cases (h.state i t d o hentry).symm.trans hi
      trivial
    | free v o =>
      obtain ⟨j, hj, hbound⟩ := h.free i v o hentry
      by_cases hij : i = j
      · obtain ⟨w, -, hown⟩ := h.owner o j hj
        cases hown.symm.trans (hij ▸ hi)
        trivial
      · cases (hbound hij).symm.trans hi
        exact hspan

variable (hlaid : rule.WellLaid) (hmarked : rule.Marked P)

include hlaid hmarked

section Reframing

variable (haux : aux ∈ rule.auxiliaries) (htarget : target ∈ aux.targets)
variable (hlen : row.length = rule.cells.length)

include haux htarget hlen

lemma reframe_fair (hany : (s.lookup "any").isSome) :
    FairFrom P (Spent tame) (rule.reframe row aux target) s := by
  refine .get_bind ?_
  obtain ⟨any, hany⟩ := Option.isSome_iff_exists.mp hany
  obtain ⟨k, hk, hsite⟩ := List.getElem_of_mem (hlaid.targets aux haux target htarget)
  have hslot : slotOf rule.neighborhood target = some k :=
    (Neighborhood.slotOf_eq_some_iff _ _ _).mpr (List.getElem?_eq_some_iff.mpr ⟨hk, hsite⟩)
  have hlt : k < row.length := by rw [hlen, hlaid.length]; omega
  have hself : row[k]? = some row[k] := List.getElem?_eq_getElem hlt
  simp only [hany, hslot, Option.getD_some, hself]
  exact (fair_outcome (revalue_fair (hmarked.auxiliaries aux haux).1 (hlaid.refs aux haux))).bind
    fun _ _ _ => .pure _

lemma reframed_fair (hrow : row.Proper) (hany : (s.lookup "any").isSome) :
    FairFrom P (Spent tame) (do Cell.expand (← rule.reframe row aux target) aux.span) s := by
  refine (reframe_fair hlaid hmarked haux htarget hlen hany).bind fun cells s₁ hcells => ?_
  obtain ⟨any, c, f, -, hc, hf, rfl, rfl⟩ :=
    reframe_ok (hlaid.targets aux haux target htarget) hcells
  obtain ⟨hspan, hvalue⟩ := hmarked.auxiliaries aux haux
  refine Cell.expand_fair hspan (hf.proper_cells hrow hc (hlaid.values aux haux)) fun c' hc' => ?_
  rcases List.mem_append.mp hc' with hc' | hc'
  · exact hf.marked hspan c' hc'
  · rw [List.mem_singleton.mp hc']
    exact revalue_marked hc hvalue

end Reframing

lemma auxiliaryRows_fair (hrow : row.Proper) (hlen : row.length = rule.cells.length)
    (hany : (s.lookup "any").isSome) : FairFrom P (Spent tame) (rule.auxiliaryRows row) s := by
  have hsteps : ∀ aux target, Steps Alike
      (do Cell.expand (← rule.reframe row aux target) aux.span : ScopeM (List Row)) :=
    fun aux target => (reframe_steps rule row aux target).bind fun _ => Cell.expand_steps _ _
  refine FairFrom.bind (.mapM (fun aux _ => Steps.mapM fun target _ => hsteps aux target)
    fun aux haux s₁ h₁ => ?_) fun _ _ _ => .pure _
  refine .mapM (fun target _ => hsteps aux target) fun target htarget s₂ h₂ => ?_
  exact reframed_fair hlaid hmarked haux htarget hlen hrow (by rwa [h₂.1, h₁.1])

end Rule

namespace Table

open Scope

variable {P : Span → Prop} {tame : Prop} {w : Workspace} {t : Transition}

lemma rowsOf_fair {s : Scope} {rule : Rule} (hlaid : rule.WellLaid) (hmarked : rule.Marked P)
    (hany : (s.lookup "any").isSome) : FairFrom P (Spent tame) (rowsOf rule) s := by
  refine (Cell.expand_fair hmarked.span hlaid.cells hmarked.cells).bind fun rows s₁ hrows => ?_
  have h₁ : s.Alike s₁ := (Cell.expand_steps _ _).run hrows
  refine FairFrom.bind
    (.mapM (R := Alike) (fun row _ => rule.auxiliaryRows_steps row) fun row hrow s₂ h₂ => ?_)
    fun _ _ _ => .pure _
  obtain ⟨hproper, hlen⟩ := Cell.expand_proper hlaid.cells hrows row hrow
  exact Rule.auxiliaryRows_fair hlaid hmarked hproper hlen (by rwa [(h₁.trans h₂).1])

/-- **A transition** is refused at a place in it. It crashes only if it is not tame or if names have
run out. -/
lemma entry_fair (h : w.scope.AdmitsTransition P tame t) (hany : (w.scope.lookup "any").isSome)
    (nb : Option Neighborhood) (symmetry : Option Symmetry) :
    FairFrom P (fun w => w.scope.Spent tame) (entry nb symmetry t) w := by
  refine (Rule.build_fair h nb symmetry).bind fun rule w₁ hbuild => ?_
  have h₁ : w.scope.Alike w₁.scope := ((Rule.build_develops nb symmetry t).run hbuild).2
  refine (onScope_fair
    (rowsOf_fair (Rule.build_wellLaid hbuild) (Rule.build_marked h hbuild) ?_)).bind
    fun _ _ _ => .pure _
  rwa [h₁.1]

end Table

end RuleTable
