import Mathlib
import RuleTable.Failure

/-!
Runs of computations that work on a state and may stop.

`runFrom act s` is what `act` comes to from the state `s`, together with the state it leaves. The
runs of compound computations are taken apart here once, so that what follows speaks of results
and states only.
-/

namespace RuleTable

variable {σ α β : Type}

/-- What a computation comes to from a state, and the state it leaves. -/
def runFrom (act : ExceptT Stop (StateM σ) α) (s : σ) : Except Stop α × σ := act.run.run s

lemma eq_of_runFrom {x y : ExceptT Stop (StateM σ) α}
    (h : ∀ s, runFrom x s = runFrom y s) : x = y :=
  funext h

@[simp] lemma runFrom_pure (a : α) (s : σ) :
    runFrom (pure a : ExceptT Stop (StateM σ) α) s = (.ok a, s) := rfl

@[simp] lemma runFrom_throw (e : Stop) (s : σ) :
    runFrom (throw e : ExceptT Stop (StateM σ) α) s = (.error e, s) := rfl

@[simp] lemma runFrom_get (s : σ) :
    runFrom (get : ExceptT Stop (StateM σ) σ) s = (.ok s, s) := rfl

@[simp] lemma runFrom_set (s t : σ) :
    runFrom (set t : ExceptT Stop (StateM σ) PUnit) s = (.ok ⟨⟩, t) := rfl

@[simp] lemma runFrom_modify (f : σ → σ) (s : σ) :
    runFrom (modify f : ExceptT Stop (StateM σ) PUnit) s = (.ok ⟨⟩, f s) := rfl

@[simp] lemma runFrom_refuse (span : Span) (cause : Cause) (s : σ) :
    runFrom (refuse span cause : ExceptT Stop (StateM σ) α) s =
      (.error (.refused (.of span cause)), s) := rfl

@[simp] lemma runFrom_outcome (x : Outcome α) (s : σ) :
    runFrom (liftM x : ExceptT Stop (StateM σ) α) s = (x, s) := rfl

@[simp] lemma runFrom_failing (x : Except Failure α) (s : σ) :
    runFrom (liftM x : ExceptT Stop (StateM σ) α) s = ((liftM x : Outcome α), s) := by
  cases x <;> rfl

lemma failing_eq_ok {x : Except Failure α} {a : α} : (liftM x : Outcome α) = .ok a ↔ x = .ok a := by
  cases x <;> constructor <;> intro h <;> cases h <;> rfl

@[simp] lemma runFrom_ite (c : Prop) [Decidable c] (x y : ExceptT Stop (StateM σ) α) (s : σ) :
    runFrom (if c then x else y) s = if c then runFrom x s else runFrom y s := by
  split <;> rfl

lemma runFrom_bind (x : ExceptT Stop (StateM σ) α) (f : α → ExceptT Stop (StateM σ) β) (s : σ) :
    runFrom (x >>= f) s = match runFrom x s with
      | (.ok a, s₁) => runFrom (f a) s₁
      | (.error e, s₁) => (.error e, s₁) := by
  unfold runFrom
  rw [ExceptT.run_bind, StateT.run_bind]
  rcases StateT.run x.run s with ⟨_ | _, _⟩ <;> simp <;> rfl

lemma runFrom_bind_ok {x : ExceptT Stop (StateM σ) α} {f : α → ExceptT Stop (StateM σ) β}
    {s s₂ : σ} {b : β} :
    runFrom (x >>= f) s = (.ok b, s₂) ↔
      ∃ a s₁, runFrom x s = (.ok a, s₁) ∧ runFrom (f a) s₁ = (.ok b, s₂) := by
  rw [runFrom_bind]
  rcases runFrom x s with ⟨_ | a, s₁⟩ <;> simp

lemma runFrom_outcome_bind_ok {x : Outcome α} {f : α → ExceptT Stop (StateM σ) β}
    {s s₁ : σ} {b : β} :
    runFrom (liftM x >>= f) s = (.ok b, s₁) ↔ ∃ a, x = .ok a ∧ runFrom (f a) s = (.ok b, s₁) := by
  rw [runFrom_bind_ok]
  simp only [runFrom_outcome, Prod.mk.injEq]
  constructor
  · rintro ⟨a, _, ⟨hx, rfl⟩, h⟩
    exact ⟨a, hx, h⟩
  · rintro ⟨a, hx, h⟩
    exact ⟨a, s, ⟨hx, rfl⟩, h⟩

lemma runFrom_bind_error {x : ExceptT Stop (StateM σ) α} {f : α → ExceptT Stop (StateM σ) β}
    {s s₂ : σ} {e : Stop} :
    runFrom (x >>= f) s = (.error e, s₂) ↔ runFrom x s = (.error e, s₂) ∨
      ∃ a s₁, runFrom x s = (.ok a, s₁) ∧ runFrom (f a) s₁ = (.error e, s₂) := by
  rw [runFrom_bind]
  rcases runFrom x s with ⟨_ | a, s₁⟩ <;> simp

lemma runFrom_tryCatch (x : ExceptT Stop (StateM σ) α) (h : Stop → ExceptT Stop (StateM σ) α)
    (s : σ) : runFrom (tryCatch x h) s = match runFrom x s with
      | (.ok a, s₁) => (.ok a, s₁)
      | (.error e, s₁) => runFrom (h e) s₁ := by
  unfold runFrom
  rw [ExceptT.run_tryCatch, StateT.run_bind]
  rcases StateT.run x.run s with ⟨_ | _, _⟩ <;> simp <;> rfl

lemma runFrom_locating (kind : Kind) (span : Span) (act : ExceptT Stop (StateM σ) α) (s : σ) :
    runFrom (locating kind span act) s = match runFrom act s with
      | (.ok a, s₁) => (.ok a, s₁)
      | (.error (.refused f), s₁) => (.error (.refused (f.locate kind span)), s₁)
      | (.error .crash, s₁) => (.error .crash, s₁) := by
  unfold locating
  rw [runFrom_tryCatch]
  rcases runFrom act s with ⟨(_ | _) | a, s₁⟩ <;> rfl

lemma snd_runFrom_locating (kind : Kind) (span : Span) (act : ExceptT Stop (StateM σ) α) (s : σ) :
    (runFrom (locating kind span act) s).2 = (runFrom act s).2 := by
  rw [runFrom_locating]
  rcases runFrom act s with ⟨(_ | _) | a, s₁⟩ <;> rfl

lemma runFrom_locating_ok {kind : Kind} {span : Span} {act : ExceptT Stop (StateM σ) α}
    {s s₁ : σ} {a : α} :
    runFrom (locating kind span act) s = (.ok a, s₁) ↔ runFrom act s = (.ok a, s₁) := by
  rw [runFrom_locating]
  rcases runFrom act s with ⟨(_ | _) | b, s₂⟩ <;> simp

lemma runFrom_map (f : α → β) (x : ExceptT Stop (StateM σ) α) (s : σ) :
    runFrom (f <$> x) s = ((runFrom x s).1.map f, (runFrom x s).2) := by
  rw [map_eq_pure_bind, runFrom_bind]
  rcases runFrom x s with ⟨_ | _, _⟩ <;> rfl

lemma runFrom_mapM_cons {f : α → ExceptT Stop (StateM σ) β} {a : α} {l : List α} {s s₂ : σ}
    {bs : List β} :
    runFrom ((a :: l).mapM f) s = (.ok bs, s₂) ↔ ∃ b s₁ rest, runFrom (f a) s = (.ok b, s₁) ∧
      runFrom (l.mapM f) s₁ = (.ok rest, s₂) ∧ bs = b :: rest := by
  rw [List.mapM_cons, runFrom_bind_ok]
  constructor
  · rintro ⟨b, s₁, hb, h⟩
    obtain ⟨rest, s₃, hrest, h⟩ := runFrom_bind_ok.mp h
    cases h
    exact ⟨b, s₁, rest, hb, hrest, rfl⟩
  · rintro ⟨b, s₁, rest, hb, hrest, rfl⟩
    exact ⟨b, s₁, hb, runFrom_bind_ok.mpr ⟨rest, s₂, hrest, rfl⟩⟩

/-- A traversal stops where one of its elements does. -/
lemma runFrom_mapM_error {f : α → ExceptT Stop (StateM σ) β} {l : List α} {s s' : σ} {e : Stop}
    (h : runFrom (l.mapM f) s = (.error e, s')) :
    ∃ a ∈ l, ∃ t, runFrom (f a) t = (.error e, s') := by
  induction l generalizing s with
  | nil => cases h
  | cons a l ih =>
    rw [List.mapM_cons] at h
    obtain h | ⟨b, s₁, -, h⟩ := runFrom_bind_error.mp h
    · exact ⟨a, List.mem_cons_self, s, h⟩
    obtain h | ⟨rest, s₂, -, h⟩ := runFrom_bind_error.mp h
    · obtain ⟨a', ha', t, ht⟩ := ih h
      exact ⟨a', List.mem_cons_of_mem a ha', t, ht⟩
    · cases h

/-- What holds of every element of a traversal, the whole traversal collects. -/
lemma runFrom_mapM_ok {P : α → β → Prop} {f : α → ExceptT Stop (StateM σ) β} {l : List α}
    (hf : ∀ a ∈ l, ∀ s b s', runFrom (f a) s = (.ok b, s') → P a b)
    {s s' : σ} {bs : List β} (h : runFrom (l.mapM f) s = (.ok bs, s')) : List.Forall₂ P l bs := by
  induction l generalizing s bs with
  | nil => cases h; exact .nil
  | cons a l ih =>
    obtain ⟨b, s₁, rest, hb, hrest, rfl⟩ := runFrom_mapM_cons.mp h
    exact .cons (hf a List.mem_cons_self s b s₁ hb)
      (ih (fun a ha => hf a (List.mem_cons_of_mem _ ha)) hrest)

lemma runFrom_mapM_forall {P : β → Prop} {f : α → ExceptT Stop (StateM σ) β} {l : List α}
    (hf : ∀ a ∈ l, ∀ s b s', runFrom (f a) s = (.ok b, s') → P b)
    {s s' : σ} {bs : List β} (h : runFrom (l.mapM f) s = (.ok bs, s')) : ∀ b ∈ bs, P b := by
  obtain ⟨hlen, hget⟩ := List.forall₂_iff_get.mp (runFrom_mapM_ok (P := fun _ b => P b) hf h)
  intro b hb
  obtain ⟨i, hi, rfl⟩ := List.getElem_of_mem hb
  exact hget i (hlen ▸ hi) hi

/-- The same for computations that keep an invariant of the state and rely on it. -/
lemma runFrom_mapM_keeping {P : α → β → Prop} {I : σ → Prop} {f : α → ExceptT Stop (StateM σ) β}
    {l : List α}
    (hf : ∀ a ∈ l, ∀ s b s', I s → runFrom (f a) s = (.ok b, s') → P a b ∧ I s')
    {s s' : σ} {bs : List β} (hs : I s) (h : runFrom (l.mapM f) s = (.ok bs, s')) :
    List.Forall₂ P l bs ∧ I s' := by
  induction l generalizing s bs with
  | nil => cases h; exact ⟨.nil, hs⟩
  | cons a l ih =>
    obtain ⟨b, s₁, rest, hb, hrest, rfl⟩ := runFrom_mapM_cons.mp h
    obtain ⟨hab, hs₁⟩ := hf a List.mem_cons_self s b s₁ hs hb
    obtain ⟨hrest, hs'⟩ := ih (fun a ha => hf a (List.mem_cons_of_mem _ ha)) hs₁ hrest
    exact ⟨.cons hab hrest, hs'⟩

@[simp] lemma outcome_refuse (span : Span) (cause : Cause) :
    (refuse span cause : Outcome α) = .error (.refused (.of span cause)) := rfl

@[simp] lemma outcome_error_bind (e : Stop) (f : α → Outcome β) :
    (Except.error e >>= f : Outcome β) = .error e := rfl

lemma outcome_bind_ok {ε : Type} {x : Except ε α} {f : α → Except ε β} {b : β} :
    x >>= f = .ok b ↔ ∃ a, x = .ok a ∧ f a = .ok b := by
  cases x with
  | error e => simp [bind, Except.bind]
  | ok a => simp [bind, Except.bind]

/-! ### How states develop -/

/-- However the computation ends, the state it leaves stands in the relation to the one before. -/
def Steps (R : σ → σ → Prop) (act : ExceptT Stop (StateM σ) α) : Prop :=
  ∀ s, R s (runFrom act s).2

section Steps

variable {R : σ → σ → Prop} [Std.Refl R] [IsTrans σ R]

omit [Std.Refl R] [IsTrans σ R] in
lemma Steps.run {act : ExceptT Stop (StateM σ) α} (h : Steps R act) {s s' : σ}
    {r : Except Stop α} (hr : runFrom act s = (r, s')) : R s s' := by
  have := h s
  rwa [hr] at this

omit [IsTrans σ R] in
lemma Steps.pure (a : α) : Steps R (pure a : ExceptT Stop (StateM σ) α) := fun s => refl_of R s

omit [IsTrans σ R] in
lemma Steps.throw (e : Stop) : Steps R (throw e : ExceptT Stop (StateM σ) α) := fun s => refl_of R s

omit [IsTrans σ R] in
lemma Steps.refuse (span : Span) (cause : Cause) :
    Steps R (refuse span cause : ExceptT Stop (StateM σ) α) := fun s => refl_of R s

omit [IsTrans σ R] in
lemma Steps.get : Steps R (get : ExceptT Stop (StateM σ) σ) := fun s => refl_of R s

omit [IsTrans σ R] in
lemma Steps.outcome (x : Outcome α) : Steps R (liftM x : ExceptT Stop (StateM σ) α) :=
  fun s => refl_of R s

omit [IsTrans σ R] in
lemma Steps.failing (x : Except Failure α) : Steps R (liftM x : ExceptT Stop (StateM σ) α) := by
  intro s
  rw [runFrom_failing]
  exact refl_of R s

omit [Std.Refl R] [IsTrans σ R] in
lemma Steps.modify {f : σ → σ} (h : ∀ s, R s (f s)) :
    Steps R (modify f : ExceptT Stop (StateM σ) PUnit) := h

omit [Std.Refl R] in
lemma Steps.bind {x : ExceptT Stop (StateM σ) α} {f : α → ExceptT Stop (StateM σ) β}
    (hx : Steps R x) (hf : ∀ a, Steps R (f a)) : Steps R (x >>= f) := by
  intro s
  rw [runFrom_bind]
  rcases h : runFrom x s with ⟨_ | a, s₁⟩
  · exact hx.run h
  · exact trans_of R (hx.run h) (hf a s₁)

omit [Std.Refl R] [IsTrans σ R] in
lemma Steps.ite {c : Prop} [Decidable c] {x y : ExceptT Stop (StateM σ) α} (hx : Steps R x)
    (hy : Steps R y) : Steps R (if c then x else y) := by
  split <;> assumption

omit [Std.Refl R] [IsTrans σ R] in
lemma Steps.locating {kind : Kind} {span : Span} {act : ExceptT Stop (StateM σ) α}
    (h : Steps R act) : Steps R (locating kind span act) := by
  intro s
  rw [runFrom_locating]
  rcases ha : runFrom act s with ⟨(_ | _) | _, s₁⟩ <;> exact h.run ha

lemma Steps.mapM {f : α → ExceptT Stop (StateM σ) β} {l : List α} (hf : ∀ a ∈ l, Steps R (f a)) :
    Steps R (l.mapM f) := by
  induction l with
  | nil => exact .pure _
  | cons a l ih =>
    rw [List.mapM_cons]
    exact (hf a List.mem_cons_self).bind fun _ =>
      (ih fun a ha => hf a (List.mem_cons_of_mem _ ha)).bind fun _ => .pure _

/-- A result of a traversal comes from a run within the traversal's. -/
lemma runFrom_mapM_mem {f : α → ExceptT Stop (StateM σ) β} {l : List α}
    (hf : ∀ a ∈ l, Steps R (f a)) {s s' : σ} {bs : List β}
    (h : runFrom (l.mapM f) s = (.ok bs, s')) {b : β} (hb : b ∈ bs) :
    ∃ a ∈ l, ∃ t t', R s t ∧ runFrom (f a) t = (.ok b, t') ∧ R t' s' := by
  induction l generalizing s bs with
  | nil => cases h; cases hb
  | cons a l ih =>
    obtain ⟨c, s₁, rest, hc, hrest, rfl⟩ := runFrom_mapM_cons.mp h
    have hf' : ∀ a ∈ l, Steps R (f a) := fun a ha => hf a (List.mem_cons_of_mem _ ha)
    rcases List.mem_cons.mp hb with rfl | hb
    · exact ⟨a, List.mem_cons_self, s, s₁, refl_of R s, hc, (Steps.mapM hf').run hrest⟩
    · obtain ⟨a', ha', t, t', hst, hrun, ht'⟩ := ih hf' hrest hb
      exact ⟨a', List.mem_cons_of_mem _ ha', t, t',
        trans_of R ((hf a List.mem_cons_self).run hc) hst, hrun, ht'⟩

end Steps

end RuleTable
