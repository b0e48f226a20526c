import RuleTable.Proofs.Histories
import RuleTable.Proofs.Verdicts

/-!
Computations in step.

A section is compiled twice, once with a new registry and once with one that had types before. As
long as no key has different types in the two, whatever is asked is answered alike: a type may be
found there that has to be made here, but it is the same, and there is always the union of what is
here and what was there before. Layouts and sections see of a registry what it answers and nothing
else, so the statements of a section go in step as well.
-/

namespace RuleTable

variable {σ α β : Type}

/-- From every partner of the state the computation comes to the same as from the state itself, and
to a partner of what it leaves here, provided that this is acceptable. -/
def InStep (J : σ → σ → Prop) (A : σ → Prop) (act : ExceptT Stop (StateM σ) α) (s : σ) : Prop :=
  ∀ s', J s s' → A (runFrom act s).2 →
    (runFrom act s').1 = (runFrom act s).1 ∧ J (runFrom act s).2 (runFrom act s').2

namespace InStep

variable {J : σ → σ → Prop} {A : σ → Prop} {s : σ}

lemma unchanged {act : ExceptT Stop (StateM σ) α} {x : Except Stop α}
    (h : ∀ s, runFrom act s = (x, s)) : InStep J A act s := by
  intro s' hj _
  rw [h, h]
  exact ⟨rfl, hj⟩

lemma bind {act : ExceptT Stop (StateM σ) α} {f : α → ExceptT Stop (StateM σ) β}
    (hact : InStep J A act s)
    (hback : ∀ a s₁, runFrom act s = (.ok a, s₁) → A (runFrom (f a) s₁).2 → A s₁)
    (hf : ∀ a s₁, runFrom act s = (.ok a, s₁) → InStep J A (f a) s₁) :
    InStep J A (act >>= f) s := by
  intro s' hj ha
  rw [runFrom_bind] at ha
  rw [runFrom_bind, runFrom_bind]
  rcases hrun : runFrom act s with ⟨e | a, s₁⟩ <;> rw [hrun] at ha
  · obtain ⟨hx, hj₁⟩ := hact s' hj (by rwa [hrun])
    rcases hrun' : runFrom act s' with ⟨x, s₁'⟩
    rw [hrun, hrun'] at hx hj₁
    obtain rfl : x = .error e := hx
    exact ⟨rfl, hj₁⟩
  · obtain ⟨hx, hj₁⟩ := hact s' hj (by rw [hrun]; exact hback a s₁ hrun ha)
    rcases hrun' : runFrom act s' with ⟨x, s₁'⟩
    rw [hrun, hrun'] at hx hj₁
    obtain rfl : x = .ok a := hx
    exact hf a s₁ hrun s₁' hj₁ ha

lemma locating {act : ExceptT Stop (StateM σ) α} (h : InStep J A act s) (kind : Kind)
    (span : Span) : InStep J A (RuleTable.locating kind span act) s := by
  intro s' hj ha
  rw [runFrom_locating] at ha
  rw [runFrom_locating, runFrom_locating]
  have hstep := h s' hj
  rcases hrun : runFrom act s with ⟨(f | _) | a, s₁⟩ <;> rw [hrun] at ha hstep <;>
    obtain ⟨hx, hj₁⟩ := hstep ha <;> rcases hrun' : runFrom act s' with ⟨x, s₁'⟩ <;>
    rw [hrun'] at hx hj₁ <;> subst hx <;> exact ⟨rfl, hj₁⟩

end InStep

/-! ### Registries -/

namespace Registry

variable {r r₁ r₂ q q' : Registry} {nb : Neighborhood} {name : String} {t : Symmetry}

/-- No key has different types in the registries. -/
def Agrees (r r' : Registry) : Prop :=
  ∀ (key : String) t t', r.types[key]? = some t → r'.types[key]? = some t' → t = t'

lemma Agrees.mono (h : r.Agrees r₂) (hext : r₁.Extends r₂) : r.Agrees r₁ :=
  fun key t t' ht ht' => h key t t' ht (hext.types key t' ht')

/-- The second registry has the types of the first one and those that were in `r`. -/
structure Joins (r q q' : Registry) : Prop where
  types : ∀ key : String, q'.types[key]? = q.types[key]?.or r.types[key]?
  grows : r.Extends q'

lemma joins_empty (r : Registry) : Joins r {} r := ⟨fun key => by simp, .refl r⟩

/-- What was in `r` before makes no difference to the computation. -/
abbrev Echoes (r q : Registry) (act : RegistryM α) : Prop := InStep (Joins r) r.Agrees act q

lemma Joins.withType {q₁ q₁' : Registry} (h : Joins r q₁ q₁')
    (hnew : q₁.types[t.key]? = Option.none)
    (hr : r.types[t.key]? = Option.none) : Joins r (q₁.withType t) (q₁'.withType t) := by
  refine ⟨fun key => ?_, h.grows.trans (extends_withType ?_)⟩
  · rw [getElem?_withType, getElem?_withType, h.types]
    split <;> rfl
  · rw [h.types, hnew, hr]
    rfl

/-- **A type that is asked for** is found in both registries or made in both, or it is found in one
that had it before and made, together with its parts, in the other. -/
lemma echoes_memo {build : RegistryM Symmetry}
    (hfresh : q.types[keyOf nb name]? = Option.none →
      (runFrom build q).2.types[keyOf nb name]? = Option.none)
    (hbuild : Echoes r q build)
    (hagain : ∀ t, r.types[keyOf nb name]? = some t → Succeeds q build ∧
      ∀ q', r.Extends q' → (runFrom build q').2 = q') :
    Echoes r q (memo nb name build) := by
  intro q' hj ha
  rw [runFrom_memo] at ha
  rw [runFrom_memo, runFrom_memo, hj.types]
  cases hq : q.types[keyOf nb name]? with
  | some t => exact ⟨rfl, hj⟩
  | none =>
    have hnew := hfresh hq
    rw [hq] at ha
    rcases hrun : runFrom build q with ⟨e | b, q₁⟩ <;> rw [hrun] at hnew <;> simp only [hrun] at ha
    · have hstep := hbuild q' hj (by rwa [hrun])
      rw [hrun] at hstep
      cases hr : r.types[keyOf nb name]? with
      | some t =>
        obtain ⟨⟨b, q₂, hok⟩, -⟩ := hagain t hr
        rw [hrun] at hok
        cases hok
      | none =>
        rcases hrun' : runFrom build q' with ⟨x, q₁'⟩
        rw [hrun'] at hstep
        obtain ⟨rfl, hj₁⟩ := hstep
        exact ⟨rfl, hj₁⟩
    · have hstep := hbuild q' hj (by rw [hrun]; exact ha.mono (extends_withType hnew))
      rw [hrun] at hstep
      cases hr : r.types[keyOf nb name]? with
      | some t =>
        -- it was there before, and so was everything that it is made of
        obtain rfl : t = { b with key := keyOf nb name } :=
          ha _ _ _ hr (by rw [getElem?_withType, if_pos rfl])
        have hj₁ := hstep.2
        rw [(hagain _ hr).2 q' hj.grows] at hj₁
        dsimp only [Option.none_or]
        refine ⟨rfl, fun key => ?_, hj.grows⟩
        rw [getElem?_withType]
        split
        · next hkey => exact hj.grows.types key _ (hkey ▸ hr)
        · exact hj₁.types key
      | none =>
        rcases hrun' : runFrom build q' with ⟨x, q₁'⟩
        rw [hrun'] at hstep
        obtain ⟨rfl, hj₁⟩ := hstep
        exact ⟨rfl, hj₁.withType hnew hr⟩

lemma echoes_memo_unchanged {build : RegistryM Symmetry} {x : Outcome Symmetry}
    (hrun : ∀ q, runFrom build q = (x, q))
    (hok : ∀ t, r.types[keyOf nb name]? = some t → ∃ b, x = .ok b) :
    Echoes r q (memo nb name build) := by
  refine echoes_memo (fun h => by rwa [hrun]) (.unchanged hrun) fun t ht => ⟨?_, fun q' _ => ?_⟩
  · obtain ⟨b, rfl⟩ := hok t ht
    exact ⟨b, q, hrun q⟩
  · rw [hrun]

lemma echoes_memo_pure (b : Symmetry) : Echoes r q (memo nb name (pure b)) :=
  echoes_memo_unchanged (fun _ => rfl) fun _ _ => ⟨b, rfl⟩

lemma echoes_none (nb : Neighborhood) : Echoes r q (none nb) := echoes_memo_pure _

lemma echoes_rotate (hr : r.Sound) (nb : Neighborhood) (ways : ℤ) :
    Echoes r q (rotate nb ways) := by
  refine echoes_memo_unchanged (x := (liftM (nb.rotationsBy ways) : Outcome _).map fun rotations =>
    { name := s!"rotate{ways}", neighborhood := nb, presentation := .generated rotations })
    (fun q => ?_) fun t ht => ?_
  · rw [runFrom_bind, runFrom_failing]
    cases nb.rotationsBy ways <;> rfl
  · obtain ⟨rotations, hrot, -⟩ := ((hr.stands ht).made hr).rotations
    rw [hrot]
    exact ⟨_, rfl⟩

lemma echoes_reflect (hr : r.Sound) (nb : Neighborhood) {a b : String} (ha : ',' ∉ a.toList) :
    Echoes r q (reflect nb a b) := by
  refine echoes_memo_unchanged (x := (liftM (nb.reflectAcross a b) : Outcome _).map fun p =>
    { name := s!"reflect({a},{b})", neighborhood := nb, presentation := .generated [p] })
    (fun q => ?_) fun t ht => ?_
  · rw [runFrom_bind, runFrom_failing]
    cases nb.reflectAcross a b <;> rfl
  · obtain ⟨p, hp, -⟩ := ((hr.stands ht).made hr).reflection ha
    rw [hp]
    exact ⟨_, rfl⟩

lemma echoes_failing_bind {x : Except Failure α} {f : α → RegistryM β}
    (h : ∀ a, x = .ok a → Echoes r q (f a)) : Echoes r q (do f (← x)) := by
  cases x with
  | error e =>
    refine .unchanged (x := .error (.refused e)) fun q => ?_
    rw [runFrom_bind, runFrom_failing]
    rfl
  | ok a =>
    intro q' hj ha
    rw [runFrom_bind, runFrom_failing] at ha
    rw [runFrom_bind, runFrom_failing, runFrom_bind, runFrom_failing]
    exact h a rfl q' hj ha

lemma echoes_permute (nb : Neighborhood) (labels : List String) : Echoes r q (permute nb labels) :=
  echoes_failing_bind fun _ _ => echoes_memo_pure _

/-- The same types are joined here and there, so it does not matter what their parts are. -/
lemma echoes_compose (ts : List Symmetry) : Echoes r q (compose ts) := by
  refine echoes_failing_bind fun nb _ => ?_
  split
  · exact .unchanged fun _ => rfl
  · exact echoes_memo_pure _

lemma echoes_combine (ts : List Symmetry) : Echoes r q (combine ts) := by
  refine echoes_failing_bind fun nb _ => ?_
  split
  · exact .unchanged fun _ => rfl
  · exact echoes_memo_pure _

lemma Echoes.bind {act : RegistryM α} {f : α → RegistryM β} {post : Registry → α → Prop}
    (hact : Echoes r q act) (hk : Keeps q act post)
    (hf : ∀ a q₁, q₁.Sound → q.Extends q₁ → post q₁ a →
      q₁.Extends (runFrom (f a) q₁).2 ∧ Echoes r q₁ (f a)) : Echoes r q (act >>= f) := by
  have hnext : ∀ a q₁, runFrom act q = (.ok a, q₁) →
      q₁.Extends (runFrom (f a) q₁).2 ∧ Echoes r q₁ (f a) := by
    intro a q₁ hrun
    have hsound := hk.sound
    have hgrows := hk.grows
    have hpost := hk.post a (by rw [hrun])
    rw [hrun] at hsound hgrows hpost
    exact hf a q₁ hsound hgrows hpost
  exact InStep.bind hact (fun a q₁ hrun ha => ha.mono (hnext a q₁ hrun).1)
    fun a q₁ hrun => (hnext a q₁ hrun).2

lemma echoes_prepare (hr : r.Sound) (hq : q.Sound) (nb : Neighborhood) (recipe : Recipe) :
    Echoes r q (prepare nb recipe) := by
  cases recipe with
  | none => exact echoes_none nb
  | rotate ways => exact echoes_rotate hr nb ways
  | reflect a b => exact echoes_reflect hr nb (IsLabel.comma_notMem ⟨a, rfl⟩)
  | rotateReflect ways a b =>
    refine (echoes_rotate hr nb ways).bind (keeps_rotate hq nb ways) fun turns q₁ hq₁ _ hturns => ?_
    have hflip := keeps_reflect hq₁ nb a.label b.label
    have hparts : ∀ flip q₂, q₁.Extends q₂ → Yields nb True q₂ flip →
        ∀ t ∈ [turns, flip], Yields nb True q₂ t := by
      intro flip q₂ hext h t ht
      rcases List.mem_pair.mp ht with rfl | rfl
      · exact hturns.mono hext
      · exact h
    refine ⟨(hflip.bind fun flip q₂ hq₂ hext h =>
      keeps_compose hq₂ (hparts flip q₂ hext h)).grows, ?_⟩
    refine (echoes_reflect hr nb (IsLabel.comma_notMem ⟨a, rfl⟩)).bind
      hflip fun flip q₂ hq₂ hext h => ?_
    exact ⟨(keeps_compose hq₂ (hparts flip q₂ hext h)).grows, echoes_compose _⟩
  | permute => exact echoes_permute nb []

lemma echoes_named (hr : r.Sound) (hq : q.Sound) (nb : Neighborhood) (name : String) :
    Echoes r q (named nb name) := by
  unfold named
  extract_lets name
  split
  · exact .unchanged fun _ => rfl
  · next recipe hrec =>
    refine echoes_memo (fun hnew => ?_) ?_ fun t ht => ⟨?_, fun q' hext => ?_⟩
    · have hsteps := (prepare_sameClasses nb recipe).bind (R := SameClasses) fun base =>
        Steps.pure ({
          name := name, neighborhood := nb, presentation := base.groupAround } : Symmetry)
      exact (hsteps q nb name).trans hnew
    · refine (echoes_prepare hr hq nb recipe).bind (keeps_prepare hq nb recipe) fun _ q₁ _ _ _ => ?_
      exact ⟨.refl q₁, .unchanged fun _ => rfl⟩
    · exact (succeeds_prepare hq (feasible_of_recipe hrec)).bind fun _ _ _ => ⟨_, _, rfl⟩
    · obtain ⟨recipe', base, hrec', hbase, -⟩ := ((hr.stands ht).made hr).recipe
      obtain rfl : recipe = recipe' := Option.some.inj (hrec.symm.trans hrec')
      rw [runFrom_bind, hbase q' hext]
      rfl

lemma echoes_geometric (hr : r.Sound) (hq : q.Sound) (t : Symmetry) : Echoes r q (geometric t) :=
  (echoes_named hr hq _ _).bind (keeps_named hq _ _) fun _ q₁ _ _ _ =>
    ⟨.refl q₁, .unchanged fun _ => rfl⟩

lemma echoes_declareNamed (hr : r.Sound) (hq : q.Sound) (nb : Neighborhood) (e : SymmetryExpr) :
    Echoes r q (declareNamed nb e) := by
  unfold declareNamed
  extract_lets name
  split
  · exact echoes_named hr hq nb _
  split
  · exact echoes_none nb
  split
  · split
    · split
      · exact echoes_rotate hr nb _
      · exact .unchanged fun _ => rfl
    · exact .unchanged fun _ => rfl
  split
  · split
    · exact .unchanged fun _ => rfl
    · refine echoes_failing_bind fun labels h => ?_
      have hlabels := isLabel_of_directionLabels h
      split
      · exact echoes_reflect hr nb (hlabels _ (by simp)).comma_notMem
      · exact echoes_reflect hr nb (hlabels _ (by simp)).comma_notMem
      · exact .unchanged fun _ => rfl
  split
  · split
    · split
      · exact echoes_permute nb _
      · exact echoes_failing_bind fun labels _ => echoes_permute nb _
    · exact echoes_failing_bind fun labels _ => echoes_permute nb _
  · exact echoes_named hr hq nb _

mutual

/-- **Declarations go in step.** -/
lemma echoes_declare {q : Registry} (hr : r.Sound) (hq : q.Sound) (nb : Neighborhood)
    (e : SymmetryExpr) : Echoes r q (declare nb e) := by
  obtain ⟨op, name, args, parts, span⟩ := e
  rw [declare]
  refine InStep.locating ?_ _ _
  extract_lets word
  split
  · refine (echoes_declareAll hr hq nb parts).bind (keeps_declareAll hq nb parts)
      fun ts q₁ hq₁ _ hts => ⟨?_, echoes_compose ts⟩
    exact (keeps_compose_known hq₁ fun t ht => (hts t ht).1).grows
  split
  · refine (echoes_declareAll hr hq nb parts).bind (keeps_declareAll hq nb parts)
      fun ts q₁ hq₁ _ hts => ⟨?_, echoes_combine ts⟩
    exact (keeps_combine_known hq₁ fun t ht => (hts t ht).1).grows
  split
  · exact echoes_declareNamed hr hq nb _
  · exact .unchanged fun _ => rfl

lemma echoes_declareAll {q : Registry} (hr : r.Sound) (hq : q.Sound) (nb : Neighborhood)
    (es : List SymmetryExpr) : Echoes r q (declareAll nb es) := by
  cases es with
  | nil =>
    rw [declareAll]
    exact .unchanged fun _ => rfl
  | cons e es =>
    rw [declareAll]
    refine (echoes_declare hr hq nb e).bind (keeps_declare hq nb e) fun t q₁ hq₁ _ _ => ⟨?_, ?_⟩
    · rw [bind_pure_comp, runFrom_map]
      exact (keeps_declareAll hq₁ nb es).grows
    · exact (echoes_declareAll hr hq₁ nb es).bind (keeps_declareAll hq₁ nb es) fun ts q₂ _ _ _ =>
        ⟨.refl q₂, .unchanged fun _ => rfl⟩

end

end Registry

/-! ### Layouts -/

/-- In all states the computation keeps the registry sound, and it goes in step. -/
structure Follows (r : Registry) (reg : σ → Registry) (J : σ → σ → Prop)
    (act : ExceptT Stop (StateM σ) α) : Prop where
  keeps : ∀ s, (reg s).Sound → (reg (runFrom act s).2).Sound ∧
    (reg s).Extends (reg (runFrom act s).2)
  inStep : ∀ s, (reg s).Sound → InStep J (fun s => r.Agrees (reg s)) act s

namespace Follows

variable {r : Registry} {reg : σ → Registry} {J : σ → σ → Prop}

lemma unchanged {act : ExceptT Stop (StateM σ) α} {x : Except Stop α}
    (h : ∀ s, runFrom act s = (x, s)) : Follows r reg J act where
  keeps s hs := by
    rw [h]
    exact ⟨hs, .refl _⟩
  inStep _ _ := .unchanged h

lemma pure (a : α) : Follows r reg J (Pure.pure a : ExceptT Stop (StateM σ) α) :=
  unchanged fun _ => rfl

lemma throw (e : Stop) : Follows r reg J (MonadExcept.throw e : ExceptT Stop (StateM σ) α) :=
  unchanged fun _ => rfl

lemma bind {act : ExceptT Stop (StateM σ) α} {f : α → ExceptT Stop (StateM σ) β}
    (hact : Follows r reg J act) (hf : ∀ a, Follows r reg J (f a)) :
    Follows r reg J (act >>= f) where
  keeps s hs := by
    have hact := hact.keeps s hs
    rw [runFrom_bind]
    rcases hrun : runFrom act s with ⟨e | a, s₁⟩ <;> rw [hrun] at hact
    · exact hact
    · obtain ⟨hs₂, hext⟩ := (hf a).keeps s₁ hact.1
      exact ⟨hs₂, hact.2.trans hext⟩
  inStep s hs := by
    have hsound : ∀ a s₁, runFrom act s = (.ok a, s₁) → (reg s₁).Sound := by
      intro a s₁ hrun
      have := (hact.keeps s hs).1
      rwa [hrun] at this
    exact (hact.inStep s hs).bind
      (fun a s₁ hrun ha => ha.mono ((hf a).keeps s₁ (hsound a s₁ hrun)).2)
      fun a s₁ hrun => (hf a).inStep s₁ (hsound a s₁ hrun)

/-- What is read of a state must be the same for its partners. -/
lemma get_bind {f : σ → ExceptT Stop (StateM σ) α} (hread : ∀ s s', J s s' → f s' = f s)
    (hf : ∀ s, Follows r reg J (f s)) : Follows r reg J (get >>= f) where
  keeps s hs := (hf s).keeps s hs
  inStep s hs s' hj ha := by
    have hget : ∀ s, runFrom (get >>= f) s = runFrom (f s) s :=
      fun s => by rw [runFrom_bind, runFrom_get]
    rw [hget] at ha
    rw [hget, hget, hread s s' hj]
    exact (hf s).inStep s hs s' hj ha

lemma modifying {f : σ → σ} (hreg : ∀ s, reg (f s) = reg s)
    (hJ : ∀ s s', J s s' → J (f s) (f s')) :
    Follows r reg J (modify f : ExceptT Stop (StateM σ) PUnit) where
  keeps s hs := by
    rw [runFrom_modify, hreg]
    exact ⟨hs, .refl _⟩
  inStep s _ s' hj _ := ⟨rfl, hJ s s' hj⟩

lemma locating {act : ExceptT Stop (StateM σ) α} (h : Follows r reg J act) (kind : Kind)
    (span : Span) : Follows r reg J (RuleTable.locating kind span act) where
  keeps s hs := by
    have := h.keeps s hs
    rw [runFrom_locating]
    rcases hrun : runFrom act s with ⟨(_ | _) | _, s₁⟩ <;> rw [hrun] at this <;> exact this
  inStep s hs := (h.inStep s hs).locating kind span

lemma mapM {f : α → ExceptT Stop (StateM σ) β} {l : List α} (hf : ∀ a ∈ l, Follows r reg J (f a)) :
    Follows r reg J (l.mapM f) := by
  induction l with
  | nil => exact .pure _
  | cons a l ih =>
    rw [List.mapM_cons]
    exact (hf a List.mem_cons_self).bind fun _ =>
      (ih fun a ha => hf a (List.mem_cons_of_mem _ ha)).bind fun _ => .pure _

end Follows

variable {r : Registry}

namespace Rule

/-- Workspaces that differ in their registries, of which the second has what was in `r` as well. -/
def BesideIn (r : Registry) (w w' : Workspace) : Prop :=
  w'.scope = w.scope ∧ Registry.Joins r w.registry w'.registry

abbrev LaysOutAlike (r : Registry) (act : WorkspaceM α) : Prop :=
  Follows r Workspace.registry (BesideIn r) act

lemma onScope_follows (act : ScopeM α) : LaysOutAlike r (WorkspaceM.onScope act) where
  keeps w hw := ⟨hw, .refl _⟩
  inStep w hw w' hj _ := by
    obtain ⟨hscope, hj⟩ := hj
    rw [runFrom_onScope, runFrom_onScope, hscope]
    exact ⟨rfl, rfl, hj⟩

lemma onRegistry_follows {act : RegistryM α} {post : Registry → α → Prop}
    (hk : ∀ q : Registry, q.Sound → Registry.Keeps q act post)
    (hact : ∀ q : Registry, q.Sound → Registry.Echoes r q act) :
    LaysOutAlike r (WorkspaceM.onRegistry act) where
  keeps w hw := ⟨(hk w.registry hw).sound, (hk w.registry hw).grows⟩
  inStep w hw w' hj ha := by
    obtain ⟨hx, hj'⟩ := hact w.registry hw w'.registry hj.2 ha
    exact ⟨hx, hj.1, hj'⟩

section

variable (hr : r.Sound)

include hr

lemma declare_follows (nb : Neighborhood) (e : SymmetryExpr) :
    LaysOutAlike r (WorkspaceM.onRegistry (Registry.declare nb e)) :=
  onRegistry_follows (fun _ hq => Registry.keeps_declare hq nb e)
    fun _ hq => Registry.echoes_declare hr hq nb e

lemma auxiliary_follows (nb : Neighborhood) (symmetry : Symmetry) (a : AuxiliaryExpr) :
    LaysOutAlike r (auxiliary nb symmetry a) := by
  refine (onRegistry_follows (fun _ hq => Registry.keeps_geometric hq symmetry)
    fun _ hq => Registry.echoes_geometric hr hq symmetry).bind fun passes => ?_
  have hgroup : LaysOutAlike r
      (a.group.mapM fun g => WorkspaceM.onRegistry (Registry.declare nb g)) := by
    cases a.group with
    | none => exact .pure _
    | some g => exact (declare_follows hr nb g).bind fun _ => .pure _
  have hrest : LaysOutAlike r (do
      let value ← WorkspaceM.onScope (cell nb true a.value)
      let group ← a.group.mapM fun g => WorkspaceM.onRegistry (Registry.declare nb g)
      let dirs ← targets nb group a.span a.targets []
      return { targets := dirs, value := value, span := a.span } : WorkspaceM Auxiliary) :=
    (onScope_follows _).bind fun _ => hgroup.bind fun _ =>
      (Follows.unchanged (runFrom_outcome _)).bind fun _ => .pure _
  cases passes with
  | true => exact hrest
  | false => exact (Follows.unchanged fun _ => rfl).bind fun _ => hrest

lemma layOut_follows (nb : Neighborhood) (symmetry : Symmetry) (t : Transition) :
    LaysOutAlike r (layOut nb symmetry t) :=
  (onScope_follows _).bind fun _ => (onScope_follows _).bind fun _ =>
  (onScope_follows _).bind fun _ =>
    (Follows.mapM fun a _ => auxiliary_follows hr nb symmetry a).bind fun _ => .pure _

lemma build_follows (nb : Option Neighborhood) (symmetry : Option Symmetry) (t : Transition) :
    LaysOutAlike r (build nb symmetry t) := by
  cases nb with
  | none => exact .throw _
  | some nb =>
    cases symmetry with
    | some symmetry => exact layOut_follows hr nb symmetry t
    | none =>
      exact (onRegistry_follows (fun _ hq => Registry.keeps_none hq nb)
        fun _ _ => Registry.echoes_none nb).bind fun symmetry => layOut_follows hr nb symmetry t

end

end Rule

/-! ### Sections -/

namespace Table

open SectionM Text

/-- Sections that differ in what they share with others; the second has what was in `r` as well. -/
def BesideIn (r : Registry) (s s' : SectionState) : Prop :=
  ∃ session, s' = { s with session := session } ∧
    Registry.Joins r s.session.registry session.registry

abbrev GoesAlike (r : Registry) (act : SectionM α) : Prop :=
  Follows r (·.session.registry) (BesideIn r) act

lemma note_follows (e : Event) : GoesAlike r (note e) := by
  refine .modifying (fun _ => rfl) ?_
  rintro s _ ⟨session, rfl, hj⟩
  exact ⟨_, rfl, hj⟩

lemma read_follows {f : SectionState → SectionM α}
    (hread : ∀ s session, f { s with session := session } = f s) (hf : ∀ s, GoesAlike r (f s)) :
    GoesAlike r (get >>= f) := by
  refine .get_bind ?_ hf
  rintro s _ ⟨session, rfl, -⟩
  exact hread s session

lemma modify_follows {f : SectionState → SectionState}
    (hf : ∀ s session, f { s with session := session } = { f s with session := session }) :
    GoesAlike r (modify f : SectionM PUnit) := by
  have hsame : ∀ s, (f s).session = s.session := fun s => congrArg (·.session) (hf s s.session)
  refine .modifying (fun s => by rw [hsame]) ?_
  rintro s _ ⟨session, rfl, hj⟩
  exact ⟨session, hf s session, by rwa [hsame]⟩

lemma report_follows (span : Span) (f : Failure) : GoesAlike r (report span f) :=
  read_follows (fun _ _ => rfl) fun _ => (note_follows _).bind fun _ =>
    modify_follows fun _ _ => rfl

/-- Without a scope nothing is attempted. -/
lemma runFrom_attempt_error {s : SectionState} {e : Stop} (hscope : s.scope = none)
    (hcreate : Scope.create s.stateCount (.ofSeed s.seed) = .error e) (span : Span)
    (act : WorkspaceM α) : runFrom (attempt span act) s = (.error e, s) := by
  unfold attempt theScope
  simp only [runFrom_bind, runFrom_get, hscope, runFrom_outcome, hcreate]

/-- **What a statement attempts** goes in step with the layout it is. -/
lemma attempt_follows {act : WorkspaceM α} (h : Rule.LaysOutAlike r act) (span : Span) :
    GoesAlike r (attempt span act) where
  keeps s hs := by
    rcases opens_or_error s with ⟨scope, hopens⟩ | ⟨e, hscope, hcreate⟩
    · have := h.keeps ⟨s.session.registry, scope⟩ hs
      rw [runFrom_attempt hopens]
      rcases hrun : runFrom act ⟨s.session.registry, scope⟩ with ⟨(f | _) | a, w⟩ <;>
        rw [hrun] at this <;> exact this
    · rw [runFrom_attempt_error hscope hcreate]
      exact ⟨hs, .refl _⟩
  inStep s hs := by
    rintro _ ⟨session, rfl, hj⟩ ha
    rcases opens_or_error s with ⟨scope, hopens⟩ | ⟨e, hscope, hcreate⟩
    · have hopens' : Opens { s with session := session } scope := hopens
      have hstep := h.inStep ⟨s.session.registry, scope⟩ hs ⟨session.registry, scope⟩ ⟨rfl, hj⟩
      rw [runFrom_attempt hopens] at ha
      rw [runFrom_attempt hopens, runFrom_attempt hopens']
      rcases hrun : runFrom act ⟨s.session.registry, scope⟩ with ⟨(f | _) | a, w⟩ <;>
        rw [hrun] at ha hstep <;> obtain ⟨hx, hscope, hj₁⟩ := hstep ha <;>
        rcases hrun' : runFrom act ⟨session.registry, scope⟩ with ⟨x, registry, scope'⟩ <;>
        rw [hrun'] at hx hscope hj₁ <;> subst hx <;> obtain rfl := hscope <;>
        exact ⟨rfl, _, rfl, hj₁⟩
    · rw [runFrom_attempt_error hscope hcreate,
        runFrom_attempt_error (s := { s with session := session }) hscope hcreate]
      exact ⟨rfl, session, rfl, hj⟩

lemma setStates_follows (value : String) (span : Span) : GoesAlike r (setStates value span) := by
  refine read_follows (fun _ _ => rfl) fun s => ?_
  dsimp only
  split
  · exact .unchanged fun _ => rfl
  split
  · split
    · exact .unchanged fun _ => rfl
    · exact modify_follows fun _ _ => rfl
  · exact .unchanged fun _ => rfl

lemma setNeighborhood_follows (value : String) (span : Span) :
    GoesAlike r (setNeighborhood value span) := by
  refine read_follows (fun _ _ => rfl) fun s => ?_
  dsimp only
  split
  · refine (Follows.locating (.unchanged (runFrom_failing _)) _ _).bind fun nb => ?_
    exact (modify_follows fun _ _ => rfl).bind fun _ =>
      read_follows (fun _ _ => rfl) fun _ => note_follows _
  · exact .unchanged fun _ => rfl

lemma setSymmetry_follows (hr : r.Sound) (value : String) (e : Option SymmetryExpr) (span : Span) :
    GoesAlike r (setSymmetry value e span) := by
  refine read_follows (fun _ _ => rfl) fun s => ?_
  split
  · next nb _ =>
    have hdeclare : GoesAlike r
        (onRegistry (Registry.declare nb (e.getD { name := value, span := span }))) := {
      keeps := fun s hs =>
        have hk := Registry.keeps_declare hs nb (e.getD { name := value, span := span })
        ⟨hk.sound, hk.grows⟩
      inStep := by
        rintro s hs _ ⟨session, rfl, hj⟩ ha
        obtain ⟨hx, hj₁⟩ := Registry.echoes_declare hr hs nb _ session.registry hj ha
        exact ⟨hx, _, rfl, hj₁⟩ }
    exact hdeclare.bind fun _ => (modify_follows fun _ _ => rfl).bind fun _ =>
      read_follows (fun _ _ => rfl) fun _ => note_follows _
  · exact .throw _

lemma addTransition_follows (hr : r.Sound) (t : Transition) : GoesAlike r (addTransition t) := by
  have hentry : ∀ nb symmetry, Rule.LaysOutAlike r (entry nb symmetry t) := fun nb symmetry =>
    (Rule.build_follows hr nb symmetry t).bind fun _ =>
    (Rule.onScope_follows _).bind fun _ => .pure _
  have hattempt : GoesAlike r (attemptEntry t) :=
    read_follows (fun _ _ => rfl) fun s => attempt_follows (hentry s.neighborhood s.symmetry) t.span
  refine hattempt.bind fun made => (modify_follows fun _ _ => rfl).bind fun _ => ?_
  cases made with
  | none => exact .pure _
  | some e => exact modify_follows fun _ _ => rfl

/-- **A statement goes in step.** -/
lemma obey_follows (hr : r.Sound) (st : Statement) : GoesAlike r (obey st) := by
  cases st with
  | directive name value symmetry span =>
    unfold obey
    dsimp only
    split
    · exact setStates_follows value span
    split
    · exact setNeighborhood_follows value span
    split
    · exact setSymmetry_follows hr value symmetry span
    · exact report_follows span _
  | var name value span =>
    exact (attempt_follows (Rule.onScope_follows _) span).bind fun _ => .pure _
  | transition t =>
    refine read_follows (fun _ _ => rfl) fun s => ?_
    dsimp only
    split
    · exact .throw _
    · exact addTransition_follows hr t

/-- **All statements go in step.** -/
lemma forM_obey_follows (hr : r.Sound) (statements : List Statement) :
    GoesAlike r (statements.forM obey) := by
  induction statements with
  | nil => exact .pure _
  | cons st rest ih =>
    rw [List.forM_eq_forM, List.forM_cons]
    exact (obey_follows hr st).bind fun _ => ih

end Table

end RuleTable
