import RuleTable.Proofs.Scopes

/-!
What expressions evaluate to.

The variables that can be found by name hold states of the scope, and only `live` may hold none: it
does where 0 is the only state. So whatever an expression evaluates to is made of states of the
scope, and it is not empty unless the expression is about an empty `live`.
-/

namespace RuleTable

/-! ### The parts of an expression -/

mutual

/-- The expression and all that it is made of. A reference to another cell counts as a part. -/
def Expr.nodes : Expr → List Expr
  | .int raw span => [.int raw span]
  | .name ident span => [.name ident span]
  | .set elems ellipsis span => .set elems ellipsis span :: Expr.allNodes elems
  | .range lo hi span => .range lo hi span :: (lo.nodes ++ hi.nodes)
  | .binary op left right span => .binary op left right span :: (left.nodes ++ right.nodes)
  | .complement operand live span => .complement operand live span :: operand.nodes
  | .ref cell => [.ref cell]
  | .map cell image span => .map cell image span :: .ref cell :: image.nodes
  | .refOp cell op arg span => .refOp cell op arg span :: .ref cell :: arg.nodes
  | .missing => [.missing]

def Expr.allNodes : List Expr → List Expr
  | [] => []
  | e :: es => e.nodes ++ Expr.allNodes es

end

/-- The name occurs in the expression. -/
def Expr.Mentions (e : Expr) (name : String) : Prop := ∃ span, .name name span ∈ e.nodes

lemma Expr.mem_nodes (e : Expr) : e ∈ e.nodes := by
  cases e <;> simp [Expr.nodes]

lemma Expr.mem_allNodes {es : List Expr} {e x : Expr} (he : e ∈ es) (hx : x ∈ e.nodes) :
    x ∈ Expr.allNodes es := by
  induction es with
  | nil => cases he
  | cons e' es ih =>
    rw [Expr.allNodes, List.mem_append]
    rcases List.mem_cons.mp he with rfl | he
    · exact .inl hx
    · exact .inr (ih he)

/-! ### Words -/

lemma toInt_bounds (k : Int64) : -signedBound ≤ k.toInt ∧ k.toInt < signedBound :=
  ⟨Int64.minValue_le_toInt k, Int64.toInt_lt k⟩

/-- The least word is the only one whose negative is no word. -/
lemma toInt_neg_of_ne {k : Int64} (hk : k ≠ Int64.minValue) : (-k).toInt = -k.toInt := by
  have hbounds := toInt_bounds k
  have hne : k.toInt ≠ -signedBound := fun he => hk (Int64.toInt_inj.mp he)
  unfold signedBound at hbounds hne
  rw [Int64.toInt_neg]
  exact Int.bmod_eq_of_le (by omega) (by omega)

/-! ### States of a scope -/

def StateList.Below (n : ℕ) (l : StateList) : Prop := ∀ x ∈ l, 0 ≤ x ∧ x < n

namespace StateList

variable {n : ℕ} {l l' : StateList}

lemma Below.append (h : l.Below n) (h' : l'.Below n) : Below n (l ++ l') := by
  intro x hx
  rcases List.mem_append.mp hx with hx | hx
  · exact h x hx
  · exact h' x hx

lemma Below.of_subset (h : l.Below n) (hsub : ∀ x ∈ l', x ∈ l) : l'.Below n :=
  fun x hx => h x (hsub x hx)

lemma mem_minus {x : ℤ} : x ∈ l.minus l' ↔ x ∈ l ∧ x ∉ l' := by
  simp [minus]

lemma times_ok {k : ℤ} {out : Option StateList} (h : l.times k = .ok out) :
    ∀ copies, out = some copies → (∀ x ∈ copies, x ∈ l) ∧ (l ≠ [] → copies ≠ []) := by
  rintro copies rfl
  unfold times at h
  split at h
  · cases h
  next hk =>
  split at h
  · next he =>
    cases h
    exact ⟨by simp, fun hne => absurd (List.isEmpty_iff.mp he) hne⟩
  split at h
  · cases h
  cases h
  refine ⟨fun x hx => ?_, fun hne => ?_⟩
  · obtain ⟨part, hpart, hx⟩ := List.mem_flatten.mp hx
    rwa [List.eq_of_mem_replicate hpart] at hx
  · obtain ⟨x, hx⟩ := List.exists_mem_of_ne_nil l hne
    have hpart : l ∈ List.replicate k.toNat l := List.mem_replicate.mpr ⟨by omega, rfl⟩
    exact List.ne_nil_of_mem (List.mem_flatten.mpr ⟨l, hpart, hx⟩)

lemma cycle_ok {k : ℤ} {out : StateList} (h : l.cycle k = .ok out) :
    (∀ x ∈ out, x ∈ l) ∧ (l ≠ [] → 0 < k → out ≠ []) := by
  unfold cycle at h
  split at h
  · next he =>
    cases h
    exact ⟨by simp, fun hne => absurd (List.isEmpty_iff.mp he) hne⟩
  next hne =>
  split at h
  · cases h
  cases h
  have hpos : 0 < l.length := List.length_pos_iff.mpr (by simpa using hne)
  refine ⟨fun x hx => ?_, fun _ hk => ?_⟩
  · obtain ⟨i, -, rfl⟩ := List.mem_map.mp hx
    rw [List.getD_eq_getElem _ _ (Nat.mod_lt i hpos)]
    exact List.getElem_mem _
  · simp only [ne_eq, List.map_eq_nil_iff, List.range_eq_nil]
    omega

/-- Shifting moves states about, and leaves 0 where none arrives. -/
lemma mem_shift {k : Int64} {x : ℤ} (h : x ∈ l.shift k) : x = 0 ∨ x ∈ l := by
  have hfold : ∀ (pairs : List (ℤ × ℕ)) (out : StateList),
      (∀ p ∈ pairs, p.1 ∈ l) → (∀ y ∈ out, y = 0 ∨ y ∈ l) →
        ∀ y ∈ pairs.foldl (fun out p => out.set (shiftTarget l.length k p.2) p.1) out,
          y = 0 ∨ y ∈ l := by
    intro pairs
    induction pairs with
    | nil => exact fun out _ hout => hout
    | cons p pairs ih =>
      intro out hpairs hout
      refine ih _ (fun q hq => hpairs q (List.mem_cons_of_mem _ hq)) fun y hy => ?_
      rcases List.mem_or_eq_of_mem_set hy with hy | rfl
      · exact hout y hy
      · exact .inr (hpairs p List.mem_cons_self)
  refine hfold l.zipIdx _ (fun p hp => List.fst_mem_of_mem_zipIdx hp) (fun y hy => ?_) x h
  exact .inl (List.eq_of_mem_replicate hy)

lemma length_shift (l : StateList) (k : Int64) : (l.shift k).length = l.length := by
  have hfold : ∀ (pairs : List (ℤ × ℕ)) (out : StateList), (pairs.foldl
      (fun out p => out.set (shiftTarget l.length k p.2) p.1) out).length = out.length := by
    intro pairs
    induction pairs with
    | nil => exact fun _ => rfl
    | cons p pairs ih => exact fun out => (ih _).trans List.length_set
  exact (hfold _ _).trans List.length_replicate

lemma Below.shift (h : l.Below n) (hn : 0 < n) (k : Int64) : (l.shift k).Below n := by
  intro x hx
  rcases mem_shift hx with rfl | hx
  · omega
  · exact h x hx

lemma shift_ne_nil (h : l ≠ []) (k : Int64) : l.shift k ≠ [] := by
  rw [← List.length_pos_iff] at h ⊢
  rwa [length_shift]

end StateList

/-! ### Evaluation -/

namespace Scope

variable {s s' : Scope} {e : Expr} {l : StateList}

/-- What can be found by name: states of the scope, and at least one of them, unless it is `live`
where there is only one state. -/
structure Stocked (s : Scope) : Prop where
  pos : 0 < s.stateCount
  below : ∀ v ∈ s.vars, v.anonymous = false → v.states.Below s.stateCount
  live : ∀ v ∈ s.vars, v.anonymous = false → v.states = [] → v.name = "live" ∧ s.stateCount = 1

lemma lookup_some {name : String} {v : Variable} (h : s.lookup name = some v) :
    v ∈ s.vars ∧ v.anonymous = false ∧ v.name = name := by
  have := Array.find?_some h
  simp only [Bool.and_eq_true, Bool.not_eq_true', beq_iff_eq] at this
  exact ⟨Array.mem_of_find?_eq_some h, this⟩

lemma state_ok {raw : String} {span : Span} {n : ℤ} (h : s.state raw span = .ok n) :
    0 ≤ n ∧ n < s.stateCount := by
  unfold state at h
  split at h
  · cases h
  · split at h
    · cases h
    · next hn =>
      cases h
      simp only [Bool.or_eq_true, decide_eq_true_eq, not_or, not_lt, not_le] at hn
      exact hn

lemma bound_ok {n : ℤ} (h : s.bound e = .ok n) : 0 ≤ n ∧ n < s.stateCount := by
  cases e with
  | int raw span => exact state_ok h
  | missing => cases h
  | _ =>
    obtain ⟨span, -, h⟩ := outcome_bind_ok.mp h
    cases h

lemma interval_below {lo hi : ℤ} {n : ℕ} (hlo : 0 ≤ lo) (hhi : hi < n) :
    StateList.Below n (interval lo hi) := by
  intro x hx
  obtain ⟨i, hi, rfl⟩ := List.mem_map.mp hx
  rw [List.mem_range] at hi
  omega

lemma interval_ne_nil {lo hi : ℤ} (h : lo ≤ hi) : interval lo hi ≠ [] := by
  rw [interval, ne_eq, List.map_eq_nil_iff, List.range_eq_nil]
  omega

lemma withoutEllipsis_ok {p : StateList × Bool} (h : withoutEllipsis e p = .ok l) : p.1 = l := by
  obtain ⟨states, _ | _⟩ := p
  · cases h
    rfl
  · obtain ⟨span, -, h⟩ := outcome_bind_ok.mp h
    cases h

lemma Stocked.any (h : s.Stocked) : s.anyStates.Below s.stateCount := by
  rw [anyStates]
  cases hv : s.lookup "any" with
  | none => exact fun x hx => absurd hx List.not_mem_nil
  | some v => exact h.below v (lookup_some hv).1 (lookup_some hv).2.1

lemma Stocked.live_below (h : s.Stocked) : s.liveStates.Below s.stateCount := by
  rw [liveStates]
  cases hv : s.lookup "live" with
  | none => exact fun x hx => absurd hx List.not_mem_nil
  | some v => exact h.below v (lookup_some hv).1 (lookup_some hv).2.1

/-- Nothing in the expression is empty for want of live states. -/
def Sees (s : Scope) (e : Expr) : Prop := s.stateCount = 1 → ¬ e.Mentions "live"

lemma Sees.mono (h : s.Sees e) (hs : s.Extends s') : s'.Sees e := fun hone => h (hs.1 ▸ hone)

/-- The states are the scope's, and there are some if the expression is not about an empty list. -/
structure Filled (s : Scope) (sees : Prop) (l : StateList) : Prop where
  below : l.Below s.stateCount
  ne_nil : sees → l ≠ []

lemma Sees.part {e' : Expr} (h : s.Sees e) (hpart : ∀ x ∈ e'.nodes, x ∈ e.nodes) : s.Sees e' := by
  rintro hone ⟨span, hmem⟩
  exact h hone ⟨span, hpart _ hmem⟩

lemma Filled.of_subset {sees : Prop} {l' : StateList} (h : s.Filled sees l) (hsub : ∀ x ∈ l', x ∈ l)
    (hne : sees → l ≠ [] → l' ≠ []) : s.Filled sees l' :=
  ⟨h.below.of_subset hsub, fun hsees => hne hsees (h.ne_nil hsees)⟩

lemma Filled.imp {sees sees' : Prop} (h : s.Filled sees l) (himp : sees' → sees) :
    s.Filled sees' l := ⟨h.below, fun hsees => h.ne_nil (himp hsees)⟩

/-- What an operator makes of the states on its left. -/
inductive Operated (s : Scope) (states : StateList) (right : Expr) : Op → StateList → Prop
  | times {n : ℤ} {copies : StateList} (hn : count right = .ok n)
    (hcopies : states.times n = .ok (some copies)) : Operated s states right .times copies
  | cycle {model out : StateList} (hmodel : s.eval right = .ok model)
    (hout : states.cycle model.length = .ok out) : Operated s states right .cycle out
  | minus {removed : StateList} (hremoved : s.eval right = .ok removed)
    (hne : states.minus removed ≠ []) : Operated s states right .minus (states.minus removed)
  | shift {n : ℤ} (hn : count right = .ok n) :
    Operated s states right .shift (states.shift (Int64.ofInt n))

lemma binary_ok {op : Op} {left right : Expr} {span : Span} {p : StateList × Bool}
    (h : s.evalTarget (.binary op left right span) = .ok p) :
    ∃ states, s.eval left = .ok states ∧ Operated s states right op p.1 := by
  rw [evalTarget] at h
  obtain ⟨q, hq, h⟩ := outcome_bind_ok.mp h
  obtain ⟨states, hstates, h⟩ := outcome_bind_ok.mp h
  refine ⟨states, outcome_bind_ok.mpr ⟨q, hq, hstates⟩, ?_⟩
  cases op with
  | times =>
    obtain ⟨n, hn, h⟩ := outcome_bind_ok.mp h
    obtain ⟨copies?, hcopies, h⟩ := outcome_bind_ok.mp h
    cases copies? with
    | none =>
      obtain ⟨place, -, h⟩ := outcome_bind_ok.mp h
      cases h
    | some copies =>
      cases h
      exact .times hn hcopies
  | cycle =>
    obtain ⟨q', hq', h⟩ := outcome_bind_ok.mp h
    obtain ⟨model, hmodel, h⟩ := outcome_bind_ok.mp h
    obtain ⟨out, hout, h⟩ := outcome_bind_ok.mp h
    cases h
    exact .cycle (outcome_bind_ok.mpr ⟨q', hq', hmodel⟩) hout
  | minus =>
    obtain ⟨q', hq', h⟩ := outcome_bind_ok.mp h
    obtain ⟨removed, hremoved, h⟩ := outcome_bind_ok.mp h
    dsimp only at h
    split at h
    · cases h
    · next hne =>
      cases h
      exact .minus (outcome_bind_ok.mpr ⟨q', hq', hremoved⟩) (by simpa using hne)
  | shift =>
    obtain ⟨n, hn, h⟩ := outcome_bind_ok.mp h
    cases h
    exact .shift hn
  | other symbol => cases h

/-- **Operators** take states of the scope to states of the scope, and some to some. -/
lemma Operated.filled {sees : Prop} {states : StateList} {right : Expr} {op : Op} (hs : s.Stocked)
    (hleft : s.Filled sees states)
    (hright : ∀ model, s.eval right = .ok model → s.Filled sees model)
    (h : Operated s states right op l) : s.Filled sees l := by
  cases h with
  | times _ hcopies =>
    obtain ⟨hsub, hne⟩ := StateList.times_ok hcopies _ rfl
    exact hleft.of_subset hsub fun _ => hne
  | cycle hmodel hout =>
    obtain ⟨hsub, hne⟩ := StateList.cycle_ok hout
    refine hleft.of_subset hsub fun hsees hstates => hne hstates ?_
    exact_mod_cast List.length_pos_iff.mpr ((hright _ hmodel).ne_nil hsees)
  | minus _ hne => exact hleft.of_subset (fun x hx => (StateList.mem_minus.mp hx).1) fun _ _ => hne
  | shift _ =>
    exact ⟨hleft.below.shift hs.pos _, fun hsees => StateList.shift_ne_nil (hleft.ne_nil hsees) _⟩

mutual

lemma evalTarget_filled (hs : s.Stocked) {e : Expr} {p : StateList × Bool}
    (h : s.evalTarget e = .ok p) : s.Filled (s.Sees e) p.1 := by
  cases e with
  | int raw span =>
    rw [evalTarget] at h
    obtain ⟨n, hn, h⟩ := outcome_bind_ok.mp h
    cases h
    refine ⟨fun x hx => ?_, fun _ => List.cons_ne_nil _ _⟩
    rw [List.mem_singleton.mp hx]
    exact state_ok hn
  | name ident span =>
    rw [evalTarget] at h
    split at h
    · next v hv =>
      cases h
      obtain ⟨hmem, hanon, hname⟩ := lookup_some hv
      refine ⟨hs.below v hmem hanon, fun hsees hnil => ?_⟩
      obtain ⟨hlive, hone⟩ := hs.live v hmem hanon hnil
      exact hsees hone ⟨span, by rw [← hlive, hname]; exact Expr.mem_nodes _⟩
    · cases h
  | set elems ellipsis span =>
    rw [evalTarget] at h
    obtain ⟨states, hstates, h⟩ := outcome_bind_ok.mp h
    split at h
    · cases h
    · next hne =>
      cases h
      exact ⟨evalAll_below hs hstates, fun _ => by simpa using hne⟩
  | range lo hi span =>
    rw [evalTarget] at h
    obtain ⟨a, ha, h⟩ := outcome_bind_ok.mp h
    obtain ⟨b, hb, h⟩ := outcome_bind_ok.mp h
    split at h
    · cases h
    · next hle =>
      cases h
      exact ⟨interval_below (bound_ok ha).1 (bound_ok hb).2,
        fun _ => interval_ne_nil (not_lt.mp hle)⟩
  | binary op left right span =>
    obtain ⟨states, hstates, hop⟩ := binary_ok h
    refine hop.filled hs ?_ fun model hmodel => ?_
    · obtain ⟨q, hq, hstates⟩ := outcome_bind_ok.mp hstates
      rw [← withoutEllipsis_ok hstates]
      exact (evalTarget_filled hs hq).imp fun hsees => hsees.part (by simp +contextual [Expr.nodes])
    · obtain ⟨q, hq, hmodel⟩ := outcome_bind_ok.mp hmodel
      rw [← withoutEllipsis_ok hmodel]
      exact (evalTarget_filled hs hq).imp fun hsees => hsees.part (by simp +contextual [Expr.nodes])
  | complement operand live span =>
    rw [evalTarget] at h
    obtain ⟨q, -, h⟩ := outcome_bind_ok.mp h
    obtain ⟨states, -, h⟩ := outcome_bind_ok.mp h
    have hevery : (if live then s.liveStates else s.anyStates).Below s.stateCount := by
      split
      · exact hs.live_below
      · exact hs.any
    generalize (if live then s.liveStates else s.anyStates) = every at h hevery
    dsimp only at h
    split at h
    · cases h
    · next hne =>
      cases h
      exact ⟨hevery.of_subset fun x hx => (StateList.mem_minus.mp hx).1,
        fun _ => by simpa using hne⟩
  | ref | map | refOp | missing => cases h

lemma evalAll_below (hs : s.Stocked) {es : List Expr} {l : StateList}
    (h : evalAll s es = .ok l) : l.Below s.stateCount := by
  cases es with
  | nil =>
    cases h
    exact fun x hx => absurd hx List.not_mem_nil
  | cons e es =>
    rw [evalAll] at h
    obtain ⟨q, hq, h⟩ := outcome_bind_ok.mp h
    obtain ⟨states, hstates, h⟩ := outcome_bind_ok.mp h
    obtain ⟨rest, hrest, h⟩ := outcome_bind_ok.mp h
    cases h
    have hfirst := (evalTarget_filled hs hq).below
    rw [withoutEllipsis_ok hstates] at hfirst
    exact hfirst.append (evalAll_below hs hrest)

end

/-- **Evaluation** gives states of the scope, and some if it is not about an empty `live`. -/
lemma eval_filled (hs : s.Stocked) (h : s.eval e = .ok l) : s.Filled (s.Sees e) l := by
  obtain ⟨p, hp, h⟩ := outcome_bind_ok.mp h
  rw [← withoutEllipsis_ok h]
  exact evalTarget_filled hs hp

end Scope

end RuleTable
