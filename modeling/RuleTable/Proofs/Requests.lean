import RuleTable.Proofs.Declarations

/-!
Registries in use.

A registry is asked for types in any order and any number of times; the types it is handed are such
as it has given out before. One request leaves a sound registry that has all it had before, hence so
does every history of requests.
-/

namespace RuleTable.Registry

variable {r r' r₁ r₂ : Registry} {α : Type}

/-- What a registry can be asked for. -/
inductive Request
  | none (nb : Neighborhood)
  | rotate (nb : Neighborhood) (ways : ℤ)
  | reflect (nb : Neighborhood) (a b : String)
  | permute (nb : Neighborhood) (labels : List String)
  | compose (ts : List Symmetry)
  | combine (ts : List Symmetry)
  | named (nb : Neighborhood) (name : String)
  | classes (nb : Neighborhood)
  | supports (nb : Neighborhood) (name : String)
  | geometric (t : Symmetry)
  | declare (nb : Neighborhood) (e : SymmetryExpr)
  | minimal (ts : List Symmetry)

def Request.types : Request → List Symmetry
  | .compose ts | .combine ts | .minimal ts => ts
  | .geometric t => [t]
  | _ => []

/-- The registry after a request, whether it was met or refused. -/
def after (r : Registry) : Request → Registry
  | .none nb => (runFrom (none nb) r).2
  | .rotate nb ways => (runFrom (rotate nb ways) r).2
  | .reflect nb a b => (runFrom (reflect nb a b) r).2
  | .permute nb labels => (runFrom (permute nb labels) r).2
  | .compose ts => (runFrom (compose ts) r).2
  | .combine ts => (runFrom (combine ts) r).2
  | .named nb name => (runFrom (named nb name) r).2
  | .classes nb => (runFrom (classes nb) r).2
  | .supports nb name => (runFrom (supports nb name) r).2
  | .geometric t => (runFrom (geometric t) r).2
  | .declare nb e => (runFrom (declare nb e) r).2
  | .minimal ts => (runFrom (minimal ts) r).2

/-- The later registry has come about from the earlier one by requests. -/
inductive History (r : Registry) : Registry → Prop
  | start : History r r
  | ask {r' : Registry} (h : History r r') (q : Request) (hq : ∀ t ∈ q.types, r'.Knows t) :
    History r (r'.after q)

/-- The registry has come about from an empty one by requests. -/
def Reachable (r : Registry) : Prop := History {} r

lemma History.trans (h : History r r₁) (h' : History r₁ r₂) : History r r₂ := by
  induction h' with
  | start => exact h
  | ask _ q hq ih => exact .ask ih q hq

lemma History.one (q : Request) (hq : ∀ t ∈ q.types, r.Knows t) : History r (r.after q) :=
  .ask .start q hq

lemma Reachable.ask (h : r.Reachable) (q : Request) (hq : ∀ t ∈ q.types, r.Knows t)
    (he : r.after q = r') : r'.Reachable := he ▸ History.ask h q hq

/-! ### One request -/

section

variable {post : Registry → α → Prop} {ts : List Symmetry}

/-- Types without a common neighborhood are refused, so they may be taken to have one. -/
lemma keeps_common {f : Neighborhood → RegistryM α} (hr : r.Sound)
    (h : ∀ nb, ts ≠ [] → (∀ t ∈ ts, t.neighborhood = nb) →
      Keeps r (do f (← commonNeighborhood ts)) post) :
    Keeps r (do f (← commonNeighborhood ts)) post := by
  cases hnb : commonNeighborhood ts with
  | ok nb => exact hnb ▸ h nb (commonNeighborhood_ok hnb).1 (commonNeighborhood_ok hnb).2
  | error f =>
    refine .unchanged (x := .error (.refused f)) hr (fun r => ?_) (by rintro _ ⟨⟩)
    rw [runFrom_bind, runFrom_failing]
    rfl

lemma keeps_compose_known (hr : r.Sound) (h : ∀ t ∈ ts, r.Knows t) :
    Keeps r (compose ts) fun _ _ => True :=
  keeps_common hr fun _ _ hnb =>
    (stores_compose hr fun t ht => ⟨h t ht, hnb t ht⟩).imp fun _ _ _ _ _ => trivial

lemma keeps_combine_known (hr : r.Sound) (h : ∀ t ∈ ts, r.Knows t) :
    Keeps r (combine ts) fun _ _ => True :=
  keeps_common hr fun _ _ hnb =>
    (stores_combine hr fun t ht => ⟨h t ht, hnb t ht⟩).imp fun _ _ _ _ _ => trivial

end

lemma keeps_geometric (hr : r.Sound) (t : Symmetry) : Keeps r (geometric t) fun _ _ => True :=
  (keeps_named hr _ _).bind fun _ _ hr' _ _ => .pure hr' trivial

lemma supports_leaves (nb : Neighborhood) (name : String) (r : Registry) :
    (runFrom (supports nb name) r).2 = (runFrom (named nb name) r).2 := by
  unfold supports
  rw [runFrom_tryCatch, runFrom_bind]
  rcases runFrom (named nb name) r with ⟨_ | _, _⟩ <;> rfl

lemma Keeps.leaves {act : RegistryM α} {post : Registry → α → Prop} (h : Keeps r act post) :
    (runFrom act r).2.Sound ∧ r.Extends (runFrom act r).2 := ⟨h.sound, h.grows⟩

/-- **A request** leaves a sound registry that has all it had before. -/
lemma Sound.after (hr : r.Sound) (q : Request) (hq : ∀ t ∈ q.types, r.Knows t) :
    (r.after q).Sound ∧ r.Extends (r.after q) := by
  cases q with
  | none nb => exact (keeps_none hr nb).leaves
  | rotate nb ways => exact (keeps_rotate hr nb ways).leaves
  | reflect nb a b => exact (keeps_reflect hr nb a b).leaves
  | permute nb labels => exact (keeps_permute hr nb labels).leaves
  | compose ts => exact (keeps_compose_known hr hq).leaves
  | combine ts => exact (keeps_combine_known hr hq).leaves
  | named nb name => exact (keeps_named hr nb name).leaves
  | classes nb => exact (keeps_classes hr nb).leaves
  | supports nb name =>
    rw [Registry.after, supports_leaves]
    exact (keeps_named hr nb name).leaves
  | geometric t => exact (keeps_geometric hr t).leaves
  | declare nb e => exact (keeps_declare hr nb e).leaves
  | minimal ts => exact (keeps_minimal hr hq).leaves

/-! ### Any number of requests -/

lemma History.sound_extends (h : History r r') (hr : r.Sound) : r'.Sound ∧ r.Extends r' := by
  induction h with
  | start => exact ⟨hr, .refl r⟩
  | ask _ q hq ih =>
    obtain ⟨hs, hext⟩ := ih.1.after q hq
    exact ⟨hs, ih.2.trans hext⟩

lemma Reachable.sound (h : r.Reachable) : r.Sound := (History.sound_extends h sound_empty).1

lemma Reachable.extends_of_history (h : r.Reachable) (h' : History r r') : r.Extends r' :=
  (h'.sound_extends h.sound).2

end RuleTable.Registry
