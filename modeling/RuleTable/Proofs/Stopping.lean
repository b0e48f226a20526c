import RuleTable.Proofs.Entries

/-!
How computations stop.

A computation is refused, at a place or at none, or it crashes. Of every part of the work on a
statement two things are said at once: what it is refused for has no place, or one inside the
statement; and it crashes only where the statement leaves something out, refers to the least word or
repeats beyond the greatest length, or where names have run out.
-/

namespace RuleTable

open Text

/-- The failure has no place, or one of these. -/
def Failure.Points (P : Span → Prop) (f : Failure) : Prop :=
  ∀ d, f.diagnostic? = some d → d.span = .nowhere ∨ P d.span

/-- The stop is a refusal at one of the places, or else a crash with an excuse. -/
def Stop.Fair (P : Span → Prop) (excuse : Prop) : Stop → Prop
  | .refused f => f.Points P
  | .crash => excuse

/-- The computation stops fairly, if it stops. -/
def Fair {α : Type} (P : Span → Prop) (excuse : Prop) (x : Except Stop α) : Prop :=
  ∀ e, x = .error e → e.Fair P excuse

/-- From this state the computation stops fairly, if it stops; the excuse is sought in the state it
leaves. -/
def FairFrom {σ α : Type} (P : Span → Prop) (excuse : σ → Prop) (act : ExceptT Stop (StateM σ) α)
    (s : σ) : Prop :=
  ∀ e s', runFrom act s = (.error e, s') → e.Fair P (excuse s')

/-! ### Places -/

section Places

variable {P : Span → Prop} {f : Failure} {span : Span} {kind : Kind}

lemma Failure.points_bare (cause : Cause) : (Failure.bare cause).Points P := by
  intro d hd
  cases hd

lemma Failure.points_of (h : span = .nowhere ∨ P span) (cause : Cause) :
    (Failure.of span cause).Points P := by
  intro d hd
  cases hd
  exact h

/-- Where there is no place, the given one is taken. -/
lemma Failure.diagnostic?_locate (f : Failure) (kind : Kind) (span : Span) :
    ∃ d, (f.locate kind span).diagnostic? = some d ∧
      (d.span = span ∨ d.span ≠ .nowhere ∧ f.diagnostic? = some d) := by
  unfold locate
  split
  · next d hd =>
    split
    · exact ⟨_, rfl, .inl rfl⟩
    · next hsome => exact ⟨d, hd, .inr ⟨by simpa [Span.isNowhere] using hsome, hd⟩⟩
  · split <;> exact ⟨_, rfl, .inl rfl⟩

lemma Failure.Points.locate (h : f.Points P) (hspan : span = .nowhere ∨ P span) :
    (f.locate kind span).Points P := by
  obtain ⟨d, hd, hplace⟩ := f.diagnostic?_locate kind span
  intro d' hd'
  obtain rfl := Option.some.inj (hd.symm.trans hd')
  rcases hplace with rfl | ⟨-, hsame⟩
  · exact hspan
  · exact h d hsame

/-- A failure that is given a place has one. -/
lemma Failure.Points.located (h : f.Points P) (hspan : P span) (hne : span ≠ .nowhere) :
    ∃ d, (f.locate kind span).diagnostic? = some d ∧ d.span ≠ .nowhere ∧ P d.span := by
  obtain ⟨d, hd, rfl | ⟨hsome, hsame⟩⟩ := f.diagnostic?_locate kind span
  · exact ⟨d, hd, hne, hspan⟩
  · exact ⟨d, hd, hsome, (h d hsame).resolve_left hsome⟩

end Places

/-! ### Putting computations together -/

section Outcomes

variable {α β : Type} {P : Span → Prop} {excuse excuse' : Prop} {span : Span}

lemma Stop.Fair.imp {e : Stop} (h : e.Fair P excuse) (himp : excuse → excuse') :
    e.Fair P excuse' := by
  cases e with
  | refused f => exact h
  | crash => exact himp h

lemma Fair.ok (a : α) : Fair P excuse (.ok a) := nofun

lemma Fair.crash (h : excuse) : Fair P excuse (.error .crash : Except Stop α) := by
  rintro e ⟨⟩
  exact h

lemma Fair.refuse (h : span = .nowhere ∨ P span) (cause : Cause) :
    Fair P excuse (refuse span cause : Outcome α) := by
  rintro e ⟨⟩
  exact Failure.points_of h cause

lemma Fair.bind {x : Outcome α} {f : α → Outcome β} (hx : Fair P excuse x)
    (hf : ∀ a, x = .ok a → Fair P excuse (f a)) : Fair P excuse (x >>= f) := by
  cases x with
  | error e =>
    rintro _ ⟨⟩
    exact hx e rfl
  | ok a => exact hf a rfl

lemma Fair.ite {c : Prop} [Decidable c] {x y : Except Stop α} (hx : c → Fair P excuse x)
    (hy : ¬ c → Fair P excuse y) : Fair P excuse (if c then x else y) := by
  split
  · exact hx ‹_›
  · exact hy ‹_›

/-- Going on unless refused. -/
lemma Fair.unless {c : Prop} [Decidable c] {k : PUnit → Outcome α}
    (h : span = .nowhere ∨ P span) {cause : Cause} (hk : Fair P excuse (k ⟨⟩)) :
    Fair P excuse (if c then RuleTable.refuse span cause >>= k else k ⟨⟩) :=
  .ite (fun _ => Fair.bind (.refuse h cause) fun _ _ => hk) fun _ => hk

lemma Fair.failing {x : Except Failure α} (h : ∀ f, x = .error f → f.Points P) :
    Fair P excuse (liftM x : Outcome α) := by
  cases x with
  | ok a => exact .ok a
  | error f =>
    rintro _ ⟨⟩
    exact h f rfl

lemma Fair.locating {x : Outcome α} (h : Fair P excuse x) (hspan : span = .nowhere ∨ P span)
    (kind : Kind) : Fair P excuse (locating kind span x) := by
  rcases x with (f | _) | a
  · rintro _ ⟨⟩
    exact (h _ rfl).locate hspan
  · rintro _ ⟨⟩
    exact h _ rfl
  · exact .ok a

end Outcomes

section Runs

variable {σ α β : Type} {P : Span → Prop} {excuse : σ → Prop} {span : Span} {s : σ}

lemma FairFrom.pure (a : α) : FairFrom P excuse (pure a) s := nofun

lemma FairFrom.throw {e : Stop} (h : e.Fair P (excuse s)) :
    FairFrom P excuse (throw e : ExceptT Stop (StateM σ) α) s := by
  rintro _ _ ⟨⟩
  exact h

lemma FairFrom.refuse (h : span = .nowhere ∨ P span) (cause : Cause) :
    FairFrom P excuse (refuse span cause : ExceptT Stop (StateM σ) α) s :=
  .throw (Failure.points_of h cause)

lemma FairFrom.outcome {x : Outcome α} (h : Fair P (excuse s) x) :
    FairFrom P excuse (liftM x : ExceptT Stop (StateM σ) α) s := by
  rintro e _ ⟨⟩
  exact h e rfl

lemma FairFrom.failing {x : Except Failure α} (h : ∀ f, x = .error f → f.Points P) :
    FairFrom P excuse (liftM x : ExceptT Stop (StateM σ) α) s := by
  intro e s' hrun
  rw [runFrom_failing] at hrun
  cases x with
  | ok a => cases hrun
  | error f =>
    cases hrun
    exact h f rfl

lemma FairFrom.bind {x : ExceptT Stop (StateM σ) α} {f : α → ExceptT Stop (StateM σ) β}
    (hx : FairFrom P excuse x s)
    (hf : ∀ a s', runFrom x s = (.ok a, s') → FairFrom P excuse (f a) s') :
    FairFrom P excuse (x >>= f) s := by
  intro e s' hrun
  rw [runFrom_bind] at hrun
  rcases h : runFrom x s with ⟨e' | a, s₁⟩ <;> rw [h] at hrun
  · cases hrun
    exact hx e s' h
  · exact hf a s₁ h e s' hrun

lemma FairFrom.get_bind {f : σ → ExceptT Stop (StateM σ) α} (h : FairFrom P excuse (f s) s) :
    FairFrom P excuse (get >>= f) s := by
  refine FairFrom.bind (by rintro _ _ ⟨⟩) fun a s' hrun => ?_
  cases hrun
  exact h

lemma FairFrom.ite {c : Prop} [Decidable c] {x y : ExceptT Stop (StateM σ) α}
    (hx : c → FairFrom P excuse x s) (hy : ¬ c → FairFrom P excuse y s) :
    FairFrom P excuse (if c then x else y) s := by
  split
  · exact hx ‹_›
  · exact hy ‹_›

/-- Going on unless refused. -/
lemma FairFrom.unless {c : Prop} [Decidable c] {k : PUnit → ExceptT Stop (StateM σ) α}
    (h : span = .nowhere ∨ P span) {cause : Cause} (hk : FairFrom P excuse (k ⟨⟩) s) :
    FairFrom P excuse (if c then RuleTable.refuse span cause >>= k else k ⟨⟩) s := by
  refine .ite (fun _ => FairFrom.bind (.refuse h cause) fun a s' hrun => ?_) fun _ => hk
  cases hrun

lemma FairFrom.locating {act : ExceptT Stop (StateM σ) α} (h : FairFrom P excuse act s)
    (hspan : span = .nowhere ∨ P span) (kind : Kind) :
    FairFrom P excuse (locating kind span act) s := by
  intro e s' hrun
  rw [runFrom_locating] at hrun
  rcases hact : runFrom act s with ⟨(f | _) | a, s₁⟩ <;> rw [hact] at hrun <;> cases hrun
  · exact (h _ _ hact).locate hspan
  · exact h _ _ hact

lemma FairFrom.mapM {R : σ → σ → Prop} [Std.Refl R] [IsTrans σ R]
    {f : α → ExceptT Stop (StateM σ) β} {l : List α} (hsteps : ∀ a ∈ l, Steps R (f a))
    (h : ∀ a ∈ l, ∀ s', R s s' → FairFrom P excuse (f a) s') : FairFrom P excuse (l.mapM f) s := by
  induction l generalizing s with
  | nil => exact .pure _
  | cons a l ih =>
    rw [List.mapM_cons]
    refine (h a List.mem_cons_self s (refl_of R s)).bind fun b s₁ hrun => ?_
    have hs₁ := (hsteps a List.mem_cons_self).run hrun
    refine FairFrom.bind
      (ih (fun a ha => hsteps a (List.mem_cons_of_mem _ ha)) fun a ha s' hs' => ?_)
      fun _ _ _ => .pure _
    exact h a (List.mem_cons_of_mem _ ha) s' (trans_of R hs₁ hs')

end Runs

/-! ### Failures without a place -/

section Nowhere

variable {P : Span → Prop} {nb : Neighborhood} {f : Failure}

lemma points_nowhere (cause : Cause) : (Failure.of .nowhere cause).Points P :=
  Failure.points_of (.inl rfl) cause

lemma Direction.parse_points {label : String} (h : Direction.parse label = .error f) :
    f.Points P := by
  unfold Direction.parse at h
  split at h <;> cases h
  exact Failure.points_bare _

lemma rotationsBy_points {ways : ℤ} (h : nb.rotationsBy ways = .error f) : f.Points P := by
  unfold Neighborhood.rotationsBy at h
  split at h <;> cases h
  exact points_nowhere _

lemma reflectAcross_points {a b : String} (h : nb.reflectAcross a b = .error f) : f.Points P := by
  unfold Neighborhood.reflectAcross at h
  dsimp only at h
  repeat' split at h
  all_goals cases h
  all_goals exact points_nowhere _

lemma collectPositions_points {labels : List String} {found : List ℕ}
    (h : nb.collectPositions labels found = .error f) : f.Points P := by
  induction labels generalizing found with
  | nil => cases h
  | cons label labels ih =>
    rw [Neighborhood.collectPositions] at h
    repeat' split at h
    all_goals first
      | exact ih h
      | (cases h; exact points_nowhere _)

lemma positions_points {labels : List String} (h : nb.positions labels = .error f) :
    f.Points P := by
  unfold Neighborhood.positions at h
  split at h
  · cases h
  · cases hc : nb.collectPositions labels [] with
    | ok found =>
      rw [hc] at h
      cases h
    | error f' =>
      rw [hc] at h
      cases h
      exact collectPositions_points hc

lemma commonNeighborhood_points {ts : List Symmetry}
    (h : Registry.commonNeighborhood ts = .error f) :
    f.Points P := by
  unfold Registry.commonNeighborhood at h
  repeat' split at h
  all_goals cases h
  all_goals exact points_nowhere _

/-- A traversal that fails fails at one of its elements. -/
lemma exists_of_mapM_error {α β ε : Type} {g : α → Except ε β} {l : List α} {e : ε}
    (h : l.mapM g = .error e) : ∃ a ∈ l, g a = .error e := by
  induction l with
  | nil => cases h
  | cons a l ih =>
    rw [List.mapM_cons] at h
    cases ha : g a with
    | error e' =>
      rw [ha] at h
      cases h
      exact ⟨a, List.mem_cons_self, ha⟩
    | ok b =>
      rw [ha] at h
      cases hl : l.mapM g with
      | error e' =>
        rw [hl] at h
        cases h
        obtain ⟨a', ha', he⟩ := ih hl
        exact ⟨a', List.mem_cons_of_mem _ ha', he⟩
      | ok bs =>
        rw [hl] at h
        cases h

lemma directionLabels_points {args : List String} (h : Registry.directionLabels args = .error f) :
    f.Points P := by
  obtain ⟨a, -, ha⟩ := exists_of_mapM_error h
  split at ha
  · cases ha
  · next f' hf' =>
    cases ha
    exact (Direction.parse_points hf').locate (.inl rfl)

lemma neighbors_points {labels : List String} {seen : List Direction}
    (h : Neighborhood.neighbors labels seen = .error f) : f.Points P := by
  induction labels generalizing seen with
  | nil => cases h
  | cons label labels ih =>
    rw [Neighborhood.neighbors] at h
    repeat' split at h
    all_goals first
      | exact ih h
      | (cases h; exact points_nowhere _)

lemma points_bind {α β : Type} {x : Except Failure α} {g : α → Except Failure β}
    (hx : ∀ f, x = .error f → f.Points P) (hg : ∀ a f, g a = .error f → f.Points P)
    (h : x >>= g = .error f) : f.Points P := by
  cases x with
  | error f' =>
    cases h
    exact hx _ rfl
  | ok a => exact hg a f h

lemma ofLabels_points {labels : List String} (h : Neighborhood.ofLabels labels = .error f) :
    f.Points P := by
  unfold Neighborhood.ofLabels at h
  dsimp only at h
  split at h
  · refine points_bind (fun _ => neighbors_points) (fun seen f hseen => ?_) h
    split at hseen <;> cases hseen
    exact points_nowhere _
  · cases h
    exact points_nowhere _

lemma parse_points {value : String} (h : Neighborhood.parse value = .error f) : f.Points P := by
  have hlisted : ∀ f, (do
      let dirs ← (value.splitOn ",").mapM fun part =>
        (Direction.parse part).mapError (Failure.locate .syntaxInconsistency .nowhere)
      Neighborhood.ofLabels (dirs.map Direction.label) : Except Failure Neighborhood) = .error f →
        f.Points P := by
    refine fun f => points_bind (fun f hf => ?_) fun _ _ => ofLabels_points
    obtain ⟨part, -, hpart⟩ := exists_of_mapM_error hf
    cases hp : Direction.parse part with
    | ok d =>
      rw [hp] at hpart
      cases hpart
    | error f' =>
      rw [hp] at hpart
      cases hpart
      exact (Direction.parse_points hp).locate (.inl rfl)
  unfold Neighborhood.parse at h
  dsimp only at h
  split at h
  · exact hlisted f h
  split at h
  · cases h
  · exact hlisted f h

end Nowhere

/-! ### Registries -/

mutual

def SymmetryExpr.Has : SymmetryExpr → Span → Prop
  | ⟨_, _, _, parts, span⟩, place => place = span ∨ SymmetryExpr.AnyHas parts place

def SymmetryExpr.AnyHas : List SymmetryExpr → Span → Prop
  | [], _ => False
  | e :: es, place => e.Has place ∨ SymmetryExpr.AnyHas es place

end

namespace Registry

variable {P : Span → Prop} {excuse : Registry → Prop} {nb : Neighborhood} {r : Registry}

lemma memo_fair {name : String} {build : RegistryM Symmetry} (h : FairFrom P excuse build r) :
    FairFrom P excuse (memo nb name build) r := by
  intro e r' hrun
  rw [runFrom_memo] at hrun
  cases hfound : r.types[keyOf nb name]? with
  | some t =>
    rw [hfound] at hrun
    cases hrun
  | none =>
    rw [hfound] at hrun
    rcases hbuild : runFrom build r with ⟨e' | b, r₁⟩ <;> rw [hbuild] at hrun <;> cases hrun
    exact h _ _ hbuild

lemma none_fair (nb : Neighborhood) : FairFrom P excuse (none nb) r := memo_fair (.pure _)

lemma rotate_fair (nb : Neighborhood) (ways : ℤ) : FairFrom P excuse (rotate nb ways) r :=
  memo_fair ((FairFrom.failing fun _ => rotationsBy_points).bind fun _ _ _ => .pure _)

lemma reflect_fair (nb : Neighborhood) (a b : String) : FairFrom P excuse (reflect nb a b) r :=
  memo_fair ((FairFrom.failing fun _ => reflectAcross_points).bind fun _ _ _ => .pure _)

lemma permute_fair (nb : Neighborhood) (labels : List String) :
    FairFrom P excuse (permute nb labels) r :=
  (FairFrom.failing fun _ => positions_points).bind fun _ _ _ => memo_fair (.pure _)

lemma compose_fair (ts : List Symmetry) : FairFrom P excuse (compose ts) r := by
  refine (FairFrom.failing fun _ => commonNeighborhood_points).bind fun nb _ _ => ?_
  split
  · exact .pure _
  · exact memo_fair (.pure _)

lemma combine_fair (ts : List Symmetry) : FairFrom P excuse (combine ts) r := by
  refine (FairFrom.failing fun _ => commonNeighborhood_points).bind fun nb _ _ => ?_
  split
  · exact .pure _
  · exact memo_fair (.pure _)

lemma prepare_fair (nb : Neighborhood) (recipe : Recipe) :
    FairFrom P excuse (prepare nb recipe) r := by
  cases recipe with
  | none => exact none_fair nb
  | rotate ways => exact rotate_fair nb ways
  | reflect a b => exact reflect_fair nb _ _
  | rotateReflect ways a b =>
    exact (rotate_fair nb ways).bind fun _ _ _ => (reflect_fair nb _ _).bind fun _ _ _ =>
      compose_fair _
  | permute => exact permute_fair nb []

lemma named_fair (nb : Neighborhood) (name : String) : FairFrom P excuse (named nb name) r := by
  unfold named
  dsimp only
  split
  · exact .refuse (.inl rfl) _
  · exact memo_fair ((prepare_fair nb _).bind fun _ _ _ => .pure _)

lemma geometric_fair (t : Symmetry) : FairFrom P excuse (geometric t) r :=
  (named_fair _ _).bind fun _ _ _ => .pure _

lemma declareNamed_fair (nb : Neighborhood) {e : SymmetryExpr} (h : P e.span) :
    FairFrom P excuse (declareNamed nb e) r := by
  have hlabels : ∀ {r' : Registry}, FairFrom P excuse (liftM (directionLabels e.args)) r' :=
    .failing fun _ => directionLabels_points
  unfold declareNamed
  dsimp only
  split
  · exact named_fair nb _
  split
  · exact none_fair nb
  split
  · split
    · split
      · exact rotate_fair nb _
      · exact .refuse (.inr h) _
    · exact .refuse (.inr h) _
  split
  · split
    · exact .refuse (.inr h) _
    · refine hlabels.bind fun labels _ _ => ?_
      split
      · exact reflect_fair nb _ _
      · exact reflect_fair nb _ _
      · exact .refuse (.inr h) _
  split
  · split
    · split
      · exact permute_fair nb _
      · exact hlabels.bind fun labels _ _ => permute_fair nb _
    · exact hlabels.bind fun labels _ _ => permute_fair nb _
  · exact named_fair nb _

mutual

/-- **Declaring a symmetry** is refused at a place in the declaration, and never crashes. -/
lemma declare_fair (nb : Neighborhood) (e : SymmetryExpr) (h : ∀ span, e.Has span → P span)
    (r : Registry) : FairFrom P excuse (declare nb e) r := by
  obtain ⟨op, name, args, parts, span⟩ := e
  have hspan : P span := h span (by rw [SymmetryExpr.Has]; exact .inl rfl)
  have hparts : ∀ place, SymmetryExpr.AnyHas parts place → P place := fun place hplace =>
    h place (by rw [SymmetryExpr.Has]; exact .inr hplace)
  rw [declare]
  refine FairFrom.locating ?_ (.inr hspan) _
  dsimp only
  split
  · exact (declareAll_fair nb parts hparts r).bind fun _ _ _ => compose_fair _
  split
  · exact (declareAll_fair nb parts hparts r).bind fun _ _ _ => combine_fair _
  split
  · exact declareNamed_fair nb hspan
  · exact .refuse (.inr hspan) _

lemma declareAll_fair (nb : Neighborhood) (es : List SymmetryExpr)
    (h : ∀ span, SymmetryExpr.AnyHas es span → P span) (r : Registry) :
    FairFrom P excuse (declareAll nb es) r := by
  cases es with
  | nil =>
    rw [declareAll]
    exact .pure _
  | cons e es =>
    rw [declareAll]
    refine (declare_fair nb e (fun span hspan => h span ?_) r).bind fun _ _ _ =>
      (declareAll_fair nb es (fun span hspan => h span ?_) _).bind fun _ _ _ => .pure _
    · rw [SymmetryExpr.AnyHas]
      exact .inl hspan
    · rw [SymmetryExpr.AnyHas]
      exact .inr hspan

end

end Registry

/-! ### Evaluation -/

def Expr.Has (e : Expr) (place : Span) : Prop := ∃ x ∈ e.nodes, x.span = .ok place

/-- The expression refers to a position by the least word. -/
def Expr.Wraps : Expr → Prop
  | .ref cell => ∃ n, readInt? (upper (trim cell.target)) = some n ∧ Int64.ofInt n = Int64.minValue
  | _ => False

namespace Scope

/-- The expression repeats states beyond the greatest length. -/
def Overlong (s : Scope) : Expr → Prop
  | .binary .times left right _ => ∃ states n, s.eval left = .ok states ∧ count right = .ok n ∧
      greatestLength < states.length * n.toNat
  | .binary .cycle _ right _ => ∃ model, s.eval right = .ok model ∧ greatestLength < model.length
  | _ => False

/-- Nothing in the expression is left out, refers to the least word or is too long. -/
def Tame (s : Scope) (e : Expr) : Prop := ∀ x ∈ e.nodes, x ≠ .missing ∧ ¬ x.Wraps ∧ ¬ s.Overlong x

/-- What is known of an expression: its places are among these, and it is tame if so supposed. -/
structure Admits (P : Span → Prop) (tame : Prop) (s : Scope) (e : Expr) : Prop where
  places : ∀ place, e.Has place → P place
  tame : tame → s.Tame e

variable {P : Span → Prop} {tame : Prop} {s : Scope} {e : Expr}

lemma Admits.part {e' : Expr} (h : s.Admits P tame e) (hpart : ∀ x ∈ e'.nodes, x ∈ e.nodes) :
    s.Admits P tame e' where
  places := by
    rintro place ⟨x, hx, hspan⟩
    exact h.places place ⟨x, hpart x hx, hspan⟩
  tame := fun ht x hx => h.tame ht x (hpart x hx)

lemma Admits.span (h : s.Admits P tame e) {span : Span} (hspan : e.span = .ok span) : P span :=
  h.places span ⟨e, e.mem_nodes, hspan⟩

lemma Admits.self (h : s.Admits P tame e) (ht : tame) : e ≠ .missing ∧ ¬ e.Wraps ∧ ¬ s.Overlong e :=
  h.tame ht e e.mem_nodes

lemma Admits.span_fair (h : s.Admits P tame e) : Fair P (¬ tame) e.span := by
  cases e with
  | missing => exact .crash fun ht => (h.self ht).1 rfl
  | _ => exact .ok _

/-- Refusing at the place of the expression. -/
lemma Admits.refuse {α : Type} (h : s.Admits P tame e) (cause : Cause) :
    Fair P (¬ tame) (do RuleTable.refuse (← e.span) cause : Outcome α) :=
  h.span_fair.bind fun _ hspan => .refuse (.inr (h.span hspan)) cause

lemma state_fair {raw : String} {span : Span} (h : P span) :
    Fair P (¬ tame) (s.state raw span) := by
  unfold state
  split
  · exact .refuse (.inr h) _
  · exact .ite (fun _ => .refuse (.inr h) _) fun _ => .ok _

lemma count_fair (h : s.Admits P tame e) : Fair P (¬ tame) (count e) := by
  unfold count
  split
  · next raw span =>
    split
    · exact .ok _
    · exact .refuse (.inr (h.span rfl)) _
  · exact h.refuse _

lemma bound_fair (h : s.Admits P tame e) : Fair P (¬ tame) (s.bound e) := by
  unfold bound
  split
  · exact state_fair (h.span rfl)
  · exact h.refuse _

lemma withoutEllipsis_fair (h : s.Admits P tame e) (p : StateList × Bool) :
    Fair P (¬ tame) (withoutEllipsis e p) := by
  unfold withoutEllipsis
  split
  · exact h.refuse _
  · exact .ok _

lemma eval_of {p : StateList × Bool} {states : StateList} (hp : s.evalTarget e = .ok p)
    (hstates : withoutEllipsis e p = .ok states) : s.eval e = .ok states :=
  outcome_bind_ok.mpr ⟨p, hp, hstates⟩

mutual

/-- **Evaluation** is refused at a place in the expression, and a tame expression does not crash. -/
lemma evalTarget_fair (e : Expr) (h : s.Admits P tame e) : Fair P (¬ tame) (s.evalTarget e) := by
  cases e with
  | int raw span =>
    rw [evalTarget]
    exact (state_fair (h.span rfl)).bind fun _ _ => .ok _
  | name ident span =>
    rw [evalTarget]
    split
    · exact .ok _
    · exact .refuse (.inr (h.span rfl)) _
  | set elems ellipsis span =>
    rw [evalTarget]
    have hall := evalAll_fair elems fun e he => h.part fun x hx =>
      List.mem_cons_of_mem _ (Expr.mem_allNodes he hx)
    exact hall.bind fun states _ => .ite (fun _ => .refuse (.inr (h.span rfl)) _) fun _ => .ok _
  | range lo hi span =>
    rw [evalTarget]
    have hlo : s.Admits P tame lo := h.part (by simp +contextual [Expr.nodes])
    have hhi : s.Admits P tame hi := h.part (by simp +contextual [Expr.nodes])
    exact (bound_fair hlo).bind fun _ _ => (bound_fair hhi).bind fun _ _ =>
      .ite (fun _ => .refuse (.inr (h.span rfl)) _) fun _ => .ok _
  | binary op left right span =>
    rw [evalTarget]
    have hleft : s.Admits P tame left := h.part (by simp +contextual [Expr.nodes])
    have hright : s.Admits P tame right := h.part (by simp +contextual [Expr.nodes])
    refine (evalTarget_fair left hleft).bind fun p hp => ?_
    refine (withoutEllipsis_fair hleft p).bind fun states hstates => ?_
    cases op with
    | times =>
      refine (count_fair hright).bind fun n hn => ?_
      refine Fair.bind ?_ fun copies? _ => ?_
      · unfold StateList.times
        refine .ite (fun _ => .ok _) fun _ => .ite (fun _ => .ok _) fun _ =>
          .ite (fun hlong => ?_) fun _ => .ok _
        exact .crash fun ht => (h.self ht).2.2 ⟨states, n, eval_of hp hstates, hn, hlong⟩
      · cases copies? with
        | none => exact hright.refuse _
        | some copies => exact .ok _
    | cycle =>
      refine (evalTarget_fair right hright).bind fun q hq => ?_
      refine (withoutEllipsis_fair hright q).bind fun model hmodel => ?_
      refine Fair.bind ?_ fun _ _ => .ok _
      unfold StateList.cycle
      refine .ite (fun _ => .ok _) fun _ => .ite (fun hlong => ?_) fun _ => .ok _
      refine .crash fun ht => (h.self ht).2.2 ⟨model, eval_of hq hmodel, ?_⟩
      simp only [Bool.or_eq_true, decide_eq_true_eq, Int.toNat_natCast] at hlong
      omega
    | minus =>
      refine (evalTarget_fair right hright).bind fun q _ => ?_
      refine (withoutEllipsis_fair hright q).bind fun model _ => ?_
      exact .ite (fun _ => .refuse (.inr (h.span rfl)) _) fun _ => .ok _
    | shift => exact (count_fair hright).bind fun _ _ => .ok _
    | other symbol => exact .refuse (.inr (h.span rfl)) _
  | complement operand live span =>
    rw [evalTarget]
    have hoperand : s.Admits P tame operand := h.part (by simp +contextual [Expr.nodes])
    refine (evalTarget_fair operand hoperand).bind fun p _ => ?_
    refine (withoutEllipsis_fair hoperand p).bind fun states _ => ?_
    exact .ite (fun _ => .refuse (.inr (h.span rfl)) _) fun _ => .ok _
  | ref | map | refOp => exact .refuse (.inr (h.span rfl)) _
  | missing => exact .crash fun ht => (h.self ht).1 rfl

lemma evalAll_fair (es : List Expr) (h : ∀ e ∈ es, s.Admits P tame e) :
    Fair P (¬ tame) (evalAll s es) := by
  cases es with
  | nil =>
    rw [evalAll]
    exact .ok _
  | cons e es =>
    rw [evalAll]
    have he := h e List.mem_cons_self
    refine (evalTarget_fair e he).bind fun p _ => ?_
    refine (withoutEllipsis_fair he p).bind fun states _ => ?_
    exact (evalAll_fair es fun e he => h e (List.mem_cons_of_mem _ he)).bind fun _ _ => .ok _

end

lemma eval_fair (h : s.Admits P tame e) : Fair P (¬ tame) (s.eval e) :=
  (evalTarget_fair e h).bind fun p _ => withoutEllipsis_fair h p

end Scope

/-! ### Positions -/

section Positions

variable {P : Span → Prop} {excuse excuse' : Prop} {nb : Neighborhood} {span : Span}

lemma Fair.imp {α : Type} {x : Except Stop α} (h : Fair P excuse x) (himp : excuse → excuse') :
    Fair P excuse' x := fun e he => (h e he).imp himp

lemma position_fair (h : P span) (label : String) : Fair P excuse (nb.position label span) := by
  refine ((Fair.failing fun _ => Direction.parse_points).locating (.inr h) _).bind fun d _ => ?_
  split
  · exact .ok _
  · exact .refuse (.inr h) _

lemma dirAt_fair (nb : Neighborhood) (position : Int64) :
    Fair P (position = Int64.minValue) (nb.dirAt position) := by
  have hsize : (Int64.ofNat nb.size).toInt = nb.directions.length ∧ nb.directions.length ≤ 8 := by
    cases nb <;> decide
  have hbounds := toInt_bounds position
  unfold signedBound at hbounds
  unfold Neighborhood.dirAt
  dsimp only
  split
  · next h =>
    simp only [Bool.and_eq_true, decide_eq_true_eq, Int64.lt_iff_toInt_lt, Int64.le_iff_toInt_le,
      Int64.toInt_zero] at h
    have hlt : position.toNatClampNeg - 1 < nb.directions.length := by
      rw [← Int64.toNat_toInt]
      omega
    rw [List.getElem?_eq_getElem hlt]
    exact .ok _
  split
  · next h =>
    by_cases hmin : position = Int64.minValue
    · split
      · exact .ok _
      · exact .crash hmin
    simp only [Bool.and_eq_true, decide_eq_true_eq, Int64.lt_iff_toInt_lt, Int64.le_iff_toInt_le,
      Int64.toInt_zero, toInt_neg_of_ne hmin] at h
    have hsum : (Int64.ofNat nb.size + position).toInt = nb.directions.length + position.toInt := by
      rw [Int64.toInt_add, hsize.1]
      exact Int.bmod_eq_of_le (by omega) (by omega)
    obtain ⟨i, hi⟩ : ∃ i : ℕ, (nb.directions.length : ℤ) + position.toInt = i :=
      ⟨_, (Int.toNat_of_nonneg (by omega)).symm⟩
    rw [hsum, hi]
    have hlt : i < nb.directions.length := by omega
    have hfound : ((i : ℤ).toNat? >>= fun i => nb.directions[i]?) = some nb.directions[i] :=
      List.getElem?_eq_getElem hlt
    rw [hfound]
    exact .ok _
  · exact .refuse (.inl rfl) _

lemma ordinal_fair (h : P span) (d : Direction) : Fair P excuse (match nb.ordinal? d with
    | some i => return i
    | none => refuse span (.foreignReference d.label nb.name) : Outcome ℕ) := by
  split
  · exact .ok _
  · exact .refuse (.inr h) _

/-- The least word is the only one that a position must not be. -/
lemma slot_fair {r : Ref} (h : P r.span) : Fair P (Expr.Wraps (.ref r)) (nb.slot r) := by
  have hparse : ∀ label excuse, Fair P excuse (locating .undefinedReference r.span
      (liftM (Direction.parse label) : Outcome Direction)) := fun label excuse =>
    (Fair.failing fun _ => Direction.parse_points).locating (.inr h) _
  unfold Neighborhood.slot
  dsimp only
  split
  · exact .ok _
  split
  · next n hn =>
    rw [map_eq_pure_bind]
    refine Fair.bind (Fair.bind (Fair.locating ?_ (.inr h) _) fun d _ => .ok _) fun label _ =>
      (hparse label _).bind fun d _ => ordinal_fair h d
    exact (dirAt_fair nb _).imp fun hleast => ⟨n, hn, hleast⟩
  · exact Fair.bind (.ok _) fun label _ => (hparse label _).bind fun d _ => ordinal_fair h d

end Positions

end RuleTable
