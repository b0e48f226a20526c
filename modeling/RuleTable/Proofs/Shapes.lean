import RuleTable.Proofs.Settling

/-!
All rows of a layout have one shape.

Two layouts are alike if they differ in nothing but which state of one and the same list a literal
is. Resolving does not look at more, so two runs on layouts that are alike come to values that are
alike: where one has a variable the other has the same one, and where one has a state the other has
a state of the same list. The second run starts where the first has ended or later, so that a
variable that the first had to introduce is there for the second.
-/

namespace RuleTable

open Scope

/-! ### Resolving only adds variables -/

namespace Cell

variable {R : Scope → Scope → Prop} [Growth R]

lemma difference_steps (states : StateList) (slot : Int) :
    Steps R (match states.unique? with
      | some t => return .value (.state t none slot)
      | none => return .value (.free (← Scope.anonymous states) slot) : ScopeM Resolution) := by
  split
  · exact .pure _
  · exact (anonymous_steps _).bind fun _ => .pure _

lemma remove_steps (operand : StateList) (v : Value) (slot : Int) (span : Span) :
    Steps R (remove operand v slot span) :=
  .ite ((Steps.refuse _ _).bind fun _ => difference_steps _ _) (difference_steps _ _)

lemma resolve_steps (values : Int → Option Value) (slot : Int) (c : Cell) :
    Steps R (c.resolve values slot) := by
  cases c with
  | literal t drawn => exact .pure _
  | free v => rw [resolve]; split <;> exact .pure _
  | binding ref span => rw [resolve]; split <;> first | exact .throw _ | exact .pure _
  | mapping ref images ellipsis span =>
    rw [resolve]
    split
    · exact .throw _
    · exact .pure _
    · exact .outcome _
  | operation ref op count operand span =>
    rw [resolve]
    split
    · exact .throw _
    split
    · exact remove_steps _ _ _ _
    · split
      · exact .pure _
      · exact .outcome _
    · exact .refuse _ _
  | absent => exact .refuse _ _

lemma enter_steps (last : ℕ) (span : Span) (values : Slots) (i : ℕ) (r : Resolution) :
    Steps R (enter last span values i r) := by
  cases r with
  | split slot => rw [enter]; split <;> first | exact .pure _ | exact .throw _
  | value v =>
    cases v with
    | state t drawn origin => exact .pure _
    | free w origin => exact .ite ((Steps.refuse _ _).bind fun _ => .pure _) (.pure _)

lemma settleCell_steps (last : ℕ) (span : Span) (values : Slots) (i : ℕ) (c : Cell) :
    Steps R (settleCell last span values i c) :=
  (resolve_steps _ _ _).locating.bind fun _ => enter_steps _ _ _ _ _

lemma andThen_steps (p : Progress) {next : Slots → ScopeM Progress}
    (h : ∀ values, Steps R (next values)) : Steps R (p.andThen next) := by
  cases p with
  | settled values => exact h values
  | split v origin => exact .pure _

lemma settle_steps (cells : Array Cell) (span : Span) (depth : ℕ) (path : List ℕ) (values : Slots)
    (i : ℕ) : Steps R (settle cells span depth path values i) := by
  induction depth generalizing path values i with
  | zero => exact .throw _
  | succ depth ih =>
    rw [settle]
    refine .ite (.pure _) (.ite (.throw _) ?_)
    split
    · next c _ =>
      cases c.ref? with
      | none => exact settleCell_steps _ _ _ _ _
      | some ref =>
        have hrest := (ih (i :: path) values ref.toNat).bind fun p =>
          andThen_steps p fun values => settleCell_steps (cells.size - 1) span values i c
        exact .ite ((Steps.refuse _ _).bind fun _ => hrest) hrest
    · exact .throw _

lemma settleAll_steps (cells : Array Cell) (span : Span) (slots : List ℕ) (values : Slots) :
    Steps R (settleAll cells span slots values) := by
  induction slots generalizing values with
  | nil => exact .pure _
  | cons i rest ih => exact (settle_steps _ _ _ _ _ _).bind fun p => andThen_steps p ih

lemma branch_steps (span : Span) (splits : ℕ) (cells : List Cell) :
    Steps R (branch span splits cells) := by
  induction splits generalizing cells with
  | zero => exact .throw _
  | succ splits ih =>
    rw [branch]
    refine (settleAll_steps _ _ _ _).bind ?_
    rintro (_ | _)
    · exact .pure _
    · exact (Steps.mapM fun _ _ => ih _).bind fun _ => .pure _

lemma expand_steps (cells : List Cell) (span : Span) : Steps R (expand cells span) :=
  (branch_steps _ _ _).bind fun _ => .pure _

end Cell

/-! ### Alike -/

/-- The same occurrence of a variable, or two states of one list. -/
inductive Value.Alike : Value → Value → Prop
  | free (v : Variable) (origin : Int) : Alike (.free v origin) (.free v origin)
  | state {t t' : Int} {d d' : Option Draw} {o o' : Int}
      (h : (Cell.sourceOf t d).1 = (Cell.sourceOf t' d').1) : Alike (.state t d o) (.state t' d' o')

/-- Each value of one row is like the value of the other in the same slot. -/
abbrev Row.Alike : Row → Row → Prop := List.Forall₂ Value.Alike

instance : Std.Symm Row.Alike where
  symm _ _ h := h.flip.imp fun _ _ hv => by
    cases hv with
    | free v origin => exact .free v origin
    | state h => exact .state h.symm

inductive Cell.Alike : Cell → Cell → Prop
  | refl (c : Cell) : Alike c c
  | literal {t t' : Int} {d d' : Option Draw}
      (h : (Cell.sourceOf t d).1 = (Cell.sourceOf t' d').1) : Alike (.literal t d) (.literal t' d')

/-- Values that are alike, or a split at one slot. -/
inductive Resolution.Alike : Resolution → Resolution → Prop
  | value {v v' : Value} (h : v.Alike v') : Alike (.value v) (.value v')
  | split (slot : Int) : Alike (.split slot) (.split slot)

/-- The results are related whenever the second computation starts where the first has ended, or
later. -/
def Agree {α β : Type} (P : α → β → Prop) (x : ScopeM α) (y : ScopeM β) : Prop :=
  ∀ ⦃s₁ a s₁' s₂ b s₂'⦄, runFrom x s₁ = (.ok a, s₁') → s₁'.Extends s₂ →
    runFrom y s₂ = (.ok b, s₂') → P a b

section Agree

variable {α β γ δ : Type} {P : α → β → Prop} {Q : γ → δ → Prop}

lemma Agree.pure {a : α} {b : β} (h : P a b) : Agree P (pure a) (pure b) := by
  rintro s₁ _ _ s₂ _ _ ⟨⟩ - ⟨⟩
  exact h

lemma Agree.outcome {x : Outcome α} {y : Outcome β}
    (h : ∀ a b, x = .ok a → y = .ok b → P a b) : Agree P (liftM x) (liftM y) := by
  rintro s₁ a s₁' s₂ b s₂' hx - hy
  rw [runFrom_outcome, Prod.mk.injEq] at hx hy
  exact h a b hx.1 hy.1

lemma Agree.left_stops {e : Stop} {y : ScopeM β} : Agree P (throw e) y := by
  rintro _ _ _ _ _ _ ⟨⟩

lemma Agree.right_stops {e : Stop} {x : ScopeM α} : Agree P x (throw e) := by
  rintro _ _ _ _ _ _ - - ⟨⟩

lemma Agree.bind {x : ScopeM α} {y : ScopeM β} {f : α → ScopeM γ} {g : β → ScopeM δ}
    (h : Agree P x y) (hf : ∀ a, Steps Extends (f a)) (hy : Steps Extends y)
    (hfg : ∀ a b, P a b → Agree Q (f a) (g b)) : Agree Q (x >>= f) (y >>= g) := by
  intro s₁ c s₁' s₂ d s₂' hc hs hd
  obtain ⟨a, t₁, ha, hc⟩ := runFrom_bind_ok.mp hc
  obtain ⟨b, t₂, hb, hd⟩ := runFrom_bind_ok.mp hd
  have hp : P a b := h ha (((hf a).run hc).trans hs) hb
  exact hfg a b hp hc (hs.trans (hy.run hb)) hd

lemma Agree.locating {kind : Kind} {span : Span} {x : ScopeM α} {y : ScopeM β} (h : Agree P x y) :
    Agree P (locating kind span x) (locating kind span y) := by
  intro s₁ a s₁' s₂ b s₂' ha hs hb
  exact h (runFrom_locating_ok.mp ha) hs (runFrom_locating_ok.mp hb)

lemma Agree.ite {c : Prop} [Decidable c] {x x' : ScopeM α} {y y' : ScopeM β} (h : Agree P x y)
    (h' : Agree P x' y') : Agree P (if c then x else x') (if c then y else y') := by
  split <;> assumption

lemma Agree.mapM {f : α → ScopeM γ} {g : β → ScopeM δ} (hf : ∀ a, Steps Extends (f a))
    (hg : ∀ b, Steps Extends (g b)) (l : List α) (l' : List β)
    (h : ∀ a ∈ l, ∀ b ∈ l', Agree Q (f a) (g b)) :
    Agree (fun cs ds => ∀ c ∈ cs, ∀ d ∈ ds, Q c d) (l.mapM f) (l'.mapM g) := by
  intro s₁ cs s₁' s₂ ds s₂' hcs hs hds c hc d hd
  obtain ⟨a, ha, t, t', -, hrun, ht'⟩ := runFrom_mapM_mem (fun a _ => hf a) hcs hc
  obtain ⟨b, hb, u, u', hu, hrun', -⟩ := runFrom_mapM_mem (fun a _ => hg a) hds hd
  exact h a ha b hb hrun (ht'.trans (hs.trans hu)) hrun'

/-- Within one traversal, an earlier result and a later one are related. -/
lemma pairwise_mapM {R : γ → γ → Prop} {f : α → ScopeM γ} (hf : ∀ a, Steps Extends (f a))
    {l : List α} (h : ∀ a ∈ l, ∀ b ∈ l, Agree R (f a) (f b)) {s s' : Scope} {cs : List γ}
    (hcs : runFrom (l.mapM f) s = (.ok cs, s')) : cs.Pairwise R := by
  induction l generalizing s cs with
  | nil => cases hcs; exact .nil
  | cons a l ih =>
    obtain ⟨c, s₁, rest, hc, hrest, rfl⟩ := runFrom_mapM_cons.mp hcs
    refine .cons (fun d hd => ?_) (ih (fun a ha b hb =>
      h a (List.mem_cons_of_mem _ ha) b (List.mem_cons_of_mem _ hb)) hrest)
    obtain ⟨b, hb, u, u', hu, hrun, -⟩ := runFrom_mapM_mem (fun a _ => hf a) hrest hd
    exact h a List.mem_cons_self b (List.mem_cons_of_mem _ hb) hc hu hrun

end Agree

namespace Cell

lemma anonymous_agree (states : StateList) :
    Agree (· = ·) (Scope.anonymous states) (Scope.anonymous states) := by
  intro s₁ v s₁' s₂ w s₂' hv hs hw
  exact (anonymous_ok hv).unique (hs.trans ((anonymous_steps _).run hw)) (anonymous_ok hw)

lemma lookUp_alike {images : StateList} {ellipsis : Bool} {t t' : Int} {d d' : Option Draw}
    {slot : Int} {span : Span} {r r' : Resolution}
      (h : lookUp images ellipsis t d slot span = .ok r)
    (h' : lookUp images ellipsis t' d' slot span = .ok r') : r.Alike r' := by
  obtain ⟨u, -, d, hd, rfl⟩ := lookUp_state h
  obtain ⟨u', -, d', hd', rfl⟩ := lookUp_state h'
  exact .value (.state (hd.trans hd'.symm))

lemma remove_agree {v v' : Value} (h : v.Alike v') (operand : StateList)
    (slot : Int) (span : Span) :
    Agree Resolution.Alike (remove operand v slot span) (remove operand v' slot span) := by
  have he : sourceStates v = sourceStates v' := by
    cases h with
    | free v o => rfl
    | state h => exact h
  unfold remove
  rw [he]
  refine .ite (fun _ _ _ _ _ _ ha => by cases ha) ?_
  cases ((sourceStates v').minus operand).unique? with
  | some t => exact .pure (.value (.state rfl))
  | none =>
    refine (anonymous_agree _).bind (fun _ => .pure _) (anonymous_steps _) ?_
    rintro v _ rfl
    exact .pure (.value (.free _ _))

lemma resolve_agree {c c' : Cell} {values values' : Int → Option Value} (hc : c.Alike c')
    (hv : ∀ slot, Option.Rel Value.Alike (values slot) (values' slot)) (slot : Int) :
    Agree Resolution.Alike (c.resolve values slot) (c'.resolve values' slot) := by
  cases hc with
  | literal h => exact .pure (.value (.state h))
  | refl =>
  cases c with
  | literal t drawn => exact .pure (.value (.state rfl))
  | free v =>
    rw [resolve, resolve]
    split
    · exact .pure (.value (.state rfl))
    · exact .pure (.value (.free _ _))
  | binding ref span =>
    rw [resolve, resolve]
    have href := hv ref
    generalize values ref = o, values' ref = o' at href ⊢
    rcases href with ⟨_ | h⟩ | _
    · exact .pure (.value (.free _ _))
    · exact .pure (.value (.state h))
    · exact .left_stops
  | mapping ref images ellipsis span =>
    rw [resolve, resolve]
    have href := hv ref
    generalize values ref = o, values' ref = o' at href ⊢
    rcases href with ⟨_ | h⟩ | _
    · exact .pure (.split _)
    · exact .outcome fun _ _ => lookUp_alike
    · exact .left_stops
  | operation ref op count operand span =>
    rw [resolve, resolve]
    have href := hv ref
    generalize values ref = o, values' ref = o' at href ⊢
    rcases href with h | _
    · cases op with
      | minus => exact remove_agree h _ _ _
      | shift =>
        rcases h with _ | h
        · exact .pure (.split _)
        · dsimp only
          rw [h]
          exact .outcome fun _ _ => lookUp_alike
      | _ => exact .left_stops
    · exact .left_stops
  | absent => exact .left_stops

def Slots.Alike (values values' : Slots) : Prop :=
  values.size = values'.size ∧
    ∀ slot, Option.Rel Value.Alike (valueAt values slot) (valueAt values' slot)

inductive Progress.Alike : Progress → Progress → Prop
  | settled {values values' : Slots} (h : Slots.Alike values values') :
    Alike (.settled values) (.settled values')
  | split (v : Variable) (origin : Int) : Alike (.split v origin) (.split v origin)

lemma Slots.Alike.set {values values' : Slots} {v v' : Value} (h : Slots.Alike values values')
    (hv : v.Alike v') (i : ℕ) :
    Slots.Alike (values.set! i (some v)) (values'.set! i (some v')) := by
  refine ⟨by simp [h.1], fun slot => ?_⟩
  rw [valueAt_set, valueAt_set, h.1]
  split
  · exact .some hv
  · exact h.2 slot

lemma enter_agree {values values' : Slots} {r r' : Resolution} (hv : Slots.Alike values values')
    (hr : r.Alike r') (last : ℕ) (span : Span) (i : ℕ) :
    Agree Progress.Alike (enter last span values i r) (enter last span values' i r') := by
  rcases hr with h | slot
  · rcases h with ⟨w, origin⟩ | h
    · exact .ite (fun _ _ _ _ _ _ ha => by cases ha) (.pure (.settled (hv.set (.free _ _) i)))
    · exact .pure (.settled (hv.set (.state h) i))
  · have hslot := hv.2 slot
    rw [enter, enter]
    generalize valueAt values slot = o, valueAt values' slot = o' at hslot ⊢
    rcases hslot with ⟨_ | h⟩ | _
    · exact .pure (.split _ _)
    · exact .left_stops
    · exact .left_stops

lemma settleCell_agree {values values' : Slots} {c c' : Cell} (hv : Slots.Alike values values')
    (hc : c.Alike c') (last : ℕ) (span : Span) (i : ℕ) :
    Agree Progress.Alike (settleCell last span values i c) (settleCell last span values' i c') :=
  (resolve_agree hc hv.2 i).locating.bind (fun _ => enter_steps _ _ _ _ _)
    (resolve_steps _ _ _).locating fun _ _ hr => enter_agree hv hr _ _ _

lemma andThen_agree {p p' : Progress} {next next' : Slots → ScopeM Progress} (hp : p.Alike p')
    (h : ∀ values values', Slots.Alike values values' →
      Agree Progress.Alike (next values) (next' values')) :
    Agree Progress.Alike (p.andThen next) (p'.andThen next') := by
  cases hp with
  | settled hv => exact h _ _ hv
  | split v origin => exact .pure (.split _ _)

lemma isSome_eq_of_rel {α β : Type} {P : α → β → Prop} {o : Option α} {o' : Option β}
    (h : Option.Rel P o o') : o.isSome = o'.isSome := by
  cases h <;> rfl

lemma rel_getElem? {α β : Type} {P : α → β → Prop} {l : List α} {l' : List β}
    (h : List.Forall₂ P l l') (i : ℕ) : Option.Rel P l[i]? l'[i]? := by
  induction h generalizing i with
  | nil => exact .none
  | cons hab _ ih =>
    cases i with
    | zero => exact .some hab
    | succ i => exact ih i

lemma Alike.ref?_eq {c c' : Cell} (h : c.Alike c') : c.ref? = c'.ref? := by
  cases h <;> rfl

lemma settle_agree {cells cells' : List Cell} (hc : List.Forall₂ Cell.Alike cells cells')
    (span : Span) (depth : ℕ) (path : List ℕ) {values values' : Slots}
    (hv : Slots.Alike values values') (i : ℕ) :
    Agree Progress.Alike (settle cells.toArray span depth path values i)
      (settle cells'.toArray span depth path values' i) := by
  induction depth generalizing path values values' i with
  | zero => exact .left_stops
  | succ depth ih =>
    rw [settle, settle, isSome_eq_of_rel (hv.2 i)]
    refine .ite (.pure (.settled hv)) (.ite .left_stops ?_)
    simp only [List.getElem?_toArray, List.size_toArray, hc.length_eq]
    have hi := rel_getElem? hc i
    generalize cells[i]? = o, cells'[i]? = o' at hi ⊢
    rcases hi with @⟨c, c', hcc⟩ | _
    · simp only [hcc.ref?_eq]
      cases c'.ref? with
      | none => exact settleCell_agree hv hcc _ _ _
      | some ref =>
        refine .ite (fun _ _ _ _ _ _ ha => by cases ha) ?_
        refine (ih (i :: path) hv ref.toNat).bind
          (fun p => andThen_steps p fun _ => settleCell_steps _ _ _ _ _)
          (settle_steps _ _ _ _ _ _) fun p p' hp => ?_
        exact andThen_agree hp fun values values' hv => settleCell_agree hv hcc _ _ _
    · exact .left_stops

lemma settleAll_agree {cells cells' : List Cell} (hc : List.Forall₂ Cell.Alike cells cells')
    (span : Span) (slots : List ℕ) {values values' : Slots} (hv : Slots.Alike values values') :
    Agree Progress.Alike (settleAll cells.toArray span slots values)
      (settleAll cells'.toArray span slots values') := by
  induction slots generalizing values values' with
  | nil => exact .pure (.settled hv)
  | cons i rest ih =>
    rw [settleAll, settleAll, List.size_toArray, List.size_toArray, hc.length_eq]
    refine (settle_agree hc span _ [] hv i).bind
      (fun p => andThen_steps p fun _ => settleAll_steps _ _ _ _)
      (settle_steps _ _ _ _ _ _) fun p p' hp => ?_
    exact andThen_agree hp fun values values' hv => ih hv

/-! ### Rows -/

lemma filterMap_alike {values values' : Slots} (h : Slots.Alike values values') :
    List.Forall₂ Value.Alike (values.toList.filterMap id) (values'.toList.filterMap id) := by
  have hall : List.Forall₂ (Option.Rel Value.Alike) values.toList values'.toList := by
    refine List.forall₂_iff_get.mpr ⟨by simpa using h.1, fun i hi hi' => ?_⟩
    have hslot := h.2 (i : Int)
    rw [show valueAt values (i : Int) = values[i]?.join from rfl,
      show valueAt values' (i : Int) = values'[i]?.join from rfl,
      Array.getElem?_eq_getElem (by simpa using hi),
      Array.getElem?_eq_getElem (by simpa using hi')] at hslot
    exact hslot
  refine List.rel_filterMap (fun o o' ho => ho) hall

lemma slots_alike_replicate (n : ℕ) :
    Slots.Alike (Array.replicate n none) (Array.replicate n none) := by
  refine ⟨rfl, fun slot => ?_⟩
  have hnone : valueAt (Array.replicate n none) slot = none := by
    cases slot with
    | negSucc k => rfl
    | ofNat k =>
      rw [show valueAt (Array.replicate n none) (Int.ofNat k) = (Array.replicate n none)[k]?.join
        from rfl, Array.getElem?_replicate]
      split <;> rfl
  rw [hnone]
  exact .none

lemma forall₂_set {α β : Type} {P : α → β → Prop} {l : List α} {l' : List β}
    (h : List.Forall₂ P l l') {a : α} {b : β} (hab : P a b) (i : ℕ) :
    List.Forall₂ P (l.set i a) (l'.set i b) := by
  induction h generalizing i with
  | nil => exact .nil
  | cons h _ ih =>
    cases i with
    | zero => exact .cons hab ‹_›
    | succ i => exact .cons h (ih i)

lemma alike_drawn (v : Variable) (t t' k k' : Int) :
    Cell.Alike (.literal t (some ⟨v, k⟩)) (.literal t' (some ⟨v, k'⟩)) := .literal rfl

lemma alike_refl (cells : List Cell) : List.Forall₂ Cell.Alike cells cells :=
  List.forall₂_same.mpr fun c _ => .refl c

/-- All rows of two layouts that are alike are alike. -/
lemma branch_agree {cells cells' : List Cell} (hc : List.Forall₂ Cell.Alike cells cells')
    (span : Span) (splits splits' : ℕ) :
    Agree (fun rows rows' : List Row => ∀ row ∈ rows, ∀ row' ∈ rows', row.Alike row')
      (branch span splits cells) (branch span splits' cells') := by
  induction splits generalizing cells cells' splits' with
  | zero => exact .left_stops
  | succ splits ih =>
    cases splits' with
    | zero => exact .right_stops
    | succ splits' =>
      rw [branch, branch, hc.length_eq]
      refine (settleAll_agree hc span _ (slots_alike_replicate _)).bind (fun p => ?_)
        (settleAll_steps _ _ _ _) ?_
      · cases p with
        | settled values => exact .pure _
        | split v origin => exact (Steps.mapM fun _ _ => branch_steps _ _ _).bind fun _ => .pure _
      rintro _ _ (hv | ⟨v, origin⟩)
      · refine .pure ?_
        simpa using filterMap_alike hv
      · have hparts := Agree.mapM (Q := fun rows rows' : List Row =>
            ∀ row ∈ rows, ∀ row' ∈ rows', row.Alike row')
          (fun a => branch_steps span splits
            (cells.set origin.toNat (.literal a.1 (some ⟨v, a.2⟩))))
          (fun a => branch_steps span splits'
            (cells'.set origin.toNat (.literal a.1 (some ⟨v, a.2⟩))))
          v.states.zipIdx v.states.zipIdx
          fun a _ b _ => ih (forall₂_set hc (alike_drawn v _ _ _ _) _) splits'
        refine hparts.bind (fun _ => .pure _) (Steps.mapM fun _ _ => branch_steps _ _ _) ?_
        intro parts parts' h
        refine .pure fun row hrow row' hrow' => ?_
        obtain ⟨rows, hrows, hrow⟩ := List.mem_flatten.mp hrow
        obtain ⟨rows', hrows', hrow'⟩ := List.mem_flatten.mp hrow'
        exact h rows hrows rows' hrows' row hrow row' hrow'

/-- **One shape.** Any two rows of one layout are alike. -/
lemma branch_pairwise {cells : List Cell} {span : Span} {splits : ℕ} {s s' : Scope}
    {rows : List Row} (h : runFrom (branch span splits cells) s = (.ok rows, s')) :
    rows.Pairwise Row.Alike := by
  induction splits generalizing cells s rows s' with
  | zero => cases h
  | succ splits ih =>
    rw [branch] at h
    obtain ⟨p, s₁, -, h⟩ := runFrom_bind_ok.mp h
    cases p with
    | settled values => cases h; simp
    | split v origin =>
      obtain ⟨parts, s₂, hparts, h⟩ := runFrom_bind_ok.mp h
      cases h
      refine List.pairwise_flatten.mpr ⟨fun rows hrows => ?_, ?_⟩
      · obtain ⟨a, -, t, t', -, hrun, -⟩ :=
          runFrom_mapM_mem (R := Extends) (fun _ _ => branch_steps _ _ _) hparts hrows
        exact ih hrun
      · refine pairwise_mapM (fun _ => branch_steps _ _ _) (fun a _ b _ => ?_) hparts
        exact branch_agree (forall₂_set (alike_refl _) (alike_drawn v _ _ _ _) _) _ _ _

end Cell

end RuleTable
