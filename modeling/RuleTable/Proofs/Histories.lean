import RuleTable.Proofs.Meanings
import RuleTable.Proofs.Requests

/-!
Declarations do not depend on what was asked before.

Whether a declaration succeeds, and what the declared type is called, is the same in every sound
registry; and a name has one meaning. So after any two histories an expression declares types with
the same relabelings, or it is refused for the same reason.
-/

namespace RuleTable

/-! ### The identity comes first -/

namespace Relabeling

variable {n : ℕ} {gens : List Relabeling}

lemma prefix_closureFrom {rounds i : ℕ} {found : Distinct Relabeling} (h : found.Sound) :
    found.toList <+: (closureFrom gens rounds i found).toList := by
  induction rounds generalizing i found with
  | zero => exact List.prefix_rfl
  | succ rounds ih =>
    rw [closureFrom]
    split
    · exact List.prefix_rfl
    · next p _ =>
      obtain ⟨hs, -, hprefix⟩ := h.foldl_insert (gens.map p.andThen)
      rw [List.foldl_map] at hs hprefix
      exact hprefix.trans (ih hs)

lemma toList_insert_empty (p : Relabeling) : (Distinct.empty.insert p).toList = [p] := by
  simp [Distinct.insert, Distinct.empty, Distinct.toList]

lemma head?_closure (n : ℕ) (gens : List Relabeling) :
    (closure n gens).toList.head? = some (identity n) := by
  obtain ⟨more, hmore⟩ : (Distinct.empty.insert (identity n)).toList <+: (closure n gens).toList :=
    prefix_closureFrom (Distinct.sound_empty.insert (identity n))
  rw [← hmore, toList_insert_empty]
  rfl

lemma head?_listed (n : ℕ) (ps : List Relabeling) :
    (listed n ps).toList.head? = some (identity n) := by
  obtain ⟨-, -, more, hmore⟩ := (Distinct.sound_empty.insert (identity n)).foldl_insert ps
  rw [listed, Distinct.ofList, List.foldl_cons, ← hmore, toList_insert_empty]
  rfl

end Relabeling

lemma Symmetry.head?_relabelings (t : Symmetry) :
    t.relabelings.head? = some (Relabeling.identity t.neighborhood.size) := by
  rw [relabelings_eq]
  cases t.presentation with
  | generated gens => exact Relabeling.head?_closure _ _
  | listed members => exact Relabeling.head?_listed _ _
  | free groups => exact Relabeling.head?_closure _ _

namespace Registry

variable {r r' : Registry} {nb : Neighborhood} {α β γ δ : Type}

/-! ### Outcomes that no history changes -/

/-- In every sound registry the computation has the same outcome, as far as `f` tells. -/
def Settled (f : α → β) (act : RegistryM α) : Prop :=
  ∃ x : Outcome β, ∀ r : Registry, r.Sound → (runFrom act r).1.map f = x

namespace Settled

variable {f : α → β} {act : RegistryM α}

lemma of_succeeds {b : β} (hs : ∀ r : Registry, r.Sound → Succeeds r act)
    (hk : ∀ r : Registry, r.Sound → Keeps r act fun _ a => f a = b) : Settled f act := by
  refine ⟨.ok b, fun r hr => ?_⟩
  obtain ⟨a, r', hrun⟩ := hs r hr
  rw [hrun, ← (hk r hr).post a (by rw [hrun])]
  rfl

lemma of_error (e : Stop) (h : ∀ r : Registry, r.Sound → (runFrom act r).1 = .error e) :
    Settled f act := ⟨.error e, fun r hr => by rw [h r hr]; rfl⟩

lemma pure (a : α) : Settled f (Pure.pure a) := ⟨.ok (f a), fun _ _ => rfl⟩

lemma refuse (span : Span) (cause : Cause) : Settled f (RuleTable.refuse span cause) :=
  of_error _ fun _ _ => rfl

lemma failing_bind {x : Except Failure γ} {g : γ → RegistryM α}
    (h : ∀ c, x = .ok c → Settled f (g c)) :
    Settled f (do g (← x)) := by
  cases x with
  | ok c =>
    obtain ⟨y, hy⟩ := h c rfl
    refine ⟨y, fun r hr => ?_⟩
    rw [runFrom_bind, runFrom_failing]
    exact hy r hr
  | error e =>
    refine of_error (.refused e) fun r hr => ?_
    rw [runFrom_bind, runFrom_failing]
    rfl

lemma bind {g : α → RegistryM γ} {h : γ → δ} {post : Registry → α → Prop} (hact : Settled f act)
    (hk : ∀ r : Registry, r.Sound → Keeps r act post)
    (hg : ∀ b, ∃ y, ∀ (r : Registry) a, r.Sound → post r a → f a = b →
      (runFrom (g a) r).1.map h = y) : Settled h (act >>= g) := by
  obtain ⟨x, hx⟩ := hact
  cases x with
  | error e =>
    refine of_error e fun r hr => ?_
    have hx := hx r hr
    rw [runFrom_bind]
    rcases hrun : runFrom act r with ⟨e' | a, r₁⟩ <;> rw [hrun] at hx <;> cases hx
    rfl
  | ok b =>
    obtain ⟨y, hy⟩ := hg b
    refine ⟨y, fun r hr => ?_⟩
    have hx := hx r hr
    have hkeeps := hk r hr
    have hs := hkeeps.sound
    have hpost := hkeeps.post
    rw [runFrom_bind]
    rcases hrun : runFrom act r with ⟨e' | a, r₁⟩ <;> rw [hrun] at hx hs hpost <;> cases hx
    exact hy r₁ a hs (hpost a rfl) rfl

/-- What a computation stops with when its failures are located. -/
def located (kind : Kind) (span : Span) : Stop → Stop
  | .refused e => .refused (e.locate kind span)
  | .crash => .crash

lemma locating (h : Settled f act) (kind : Kind) (span : Span) :
    Settled f (RuleTable.locating kind span act) := by
  obtain ⟨x, hx⟩ := h
  refine ⟨x.mapError (located kind span), fun r hr => ?_⟩
  rw [runFrom_locating, ← hx r hr]
  rcases runFrom act r with ⟨(_ | _) | a, r₁⟩ <;> rfl

end Settled

/-! ### Requests for types -/

variable {name : String} {t : Symmetry}

/-- A type that cannot be built is not found either. -/
lemma runFrom_memo_error {build : RegistryM Symmetry} {e : Stop} (hr : r.Sound)
    (hbuild : (runFrom build r).1 = .error e) (hnot : ∀ {label p}, ¬ Made r nb name label p) :
    (runFrom (memo nb name build) r).1 = .error e := by
  rw [runFrom_memo]
  cases hfound : r.types[keyOf nb name]? with
  | some t => exact absurd ((hr.stands hfound).made hr) hnot
  | none =>
    rcases hrun : runFrom build r with ⟨e' | b, r₁⟩ <;> rw [hrun] at hbuild <;> cases hbuild
    rfl

lemma settled_none (nb : Neighborhood) : Settled (·.name) (none nb) := by
  refine .of_succeeds (b := "none") (fun r hr => .memo ⟨_, _, rfl⟩) fun r hr => ?_
  exact (stores_none hr nb).imp fun _ _ _ hr' ht => ht.name_eq hr' (by decide)

lemma settled_rotate (nb : Neighborhood) (ways : ℤ) : Settled (·.name) (rotate nb ways) := by
  cases h : nb.rotationsBy ways with
  | ok rotations =>
    refine .of_succeeds (b := s!"rotate{ways}") (fun r hr => succeeds_rotate (by rw [h]; rfl))
      fun r hr => ?_
    exact (stores_rotate hr nb ways).imp fun _ _ _ hr' ht => ht.name_eq hr' (by simp)
  | error f =>
    refine .of_error (.refused f) fun r hr => runFrom_memo_error hr ?_ fun hm => ?_
    · rw [runFrom_bind, runFrom_failing, h]
      rfl
    · obtain ⟨rotations, hrot, -⟩ := hm.rotations
      rw [h] at hrot
      cases hrot

lemma settled_reflect (nb : Neighborhood) {a b : String} (ha : ',' ∉ a.toList) :
    Settled (·.name) (reflect nb a b) := by
  cases h : nb.reflectAcross a b with
  | ok q =>
    refine .of_succeeds (b := s!"reflect({a},{b})") (fun r hr => succeeds_reflect (by rw [h]; rfl))
      fun r hr => ?_
    exact (stores_reflect hr nb a b).imp fun _ _ _ hr' ht => ht.name_eq hr' (by simp)
  | error f =>
    refine .of_error (.refused f) fun r hr => runFrom_memo_error hr ?_ fun hm => ?_
    · rw [runFrom_bind, runFrom_failing, h]
      rfl
    · obtain ⟨q, hq, -⟩ := hm.reflection ha
      rw [h] at hq
      cases hq

lemma settled_permute (nb : Neighborhood) (labels : List String) :
    Settled (·.name) (permute nb labels) := by
  cases h : nb.positions labels with
  | ok positions =>
    refine .of_succeeds (b := permuteName nb positions) (fun r hr => ?_) fun r hr => ?_
    · exact (Succeeds.failing (by rw [h]; rfl)).bind fun _ _ _ => .memo ⟨_, _, rfl⟩
    · refine (stores_permute hr nb labels).imp fun _ _ _ hr' ⟨positions', h', ht⟩ => ?_
      obtain rfl : positions = positions' := Except.ok.inj (h.symm.trans h')
      refine ht.name_eq hr' ?_
      unfold permuteName
      split <;> simp
  | error f =>
    refine .of_error (.refused f) fun r hr => ?_
    unfold permute
    rw [runFrom_bind, runFrom_failing, h]
    rfl

lemma settled_named (nb : Neighborhood) (name : String) : Settled (·.name) (named nb name) := by
  cases h : nb.recipe? (Text.lower (Text.trim name)) with
  | none =>
    refine .of_error (.refused (.of .nowhere
      (.unsupportedSymmetry (Text.lower (Text.trim name)) nb.name))) fun r hr => ?_
    unfold named
    simp only [h]
    rfl
  | some recipe =>
    refine .of_succeeds (b := Text.lower (Text.trim name)) (fun r hr => succeeds_named hr h)
      fun r hr => ?_
    refine (stores_named hr nb name).imp fun _ _ _ hr' ht => ?_
    rw [(ht.made hr').label_eq]
    simp [labelOf]

lemma isLabel_of_directionLabels {args labels : List String}
    (h : directionLabels args = .ok labels) : ∀ l ∈ labels, IsLabel l := by
  induction args generalizing labels with
  | nil =>
    cases h
    simp
  | cons a args ih =>
    rw [directionLabels, List.mapM_cons] at h
    cases hd : Direction.parse a with
    | error f =>
      rw [hd] at h
      cases h
    | ok d =>
      rw [hd] at h
      cases hrest : directionLabels args with
      | error f =>
        rw [directionLabels] at hrest
        simp only [hrest] at h
        cases h
      | ok rest =>
        have hall := ih hrest
        rw [directionLabels] at hrest
        simp only [hrest] at h
        cases h
        exact List.forall_mem_cons.mpr ⟨⟨d, rfl⟩, hall⟩

lemma settled_declareNamed (nb : Neighborhood) (e : SymmetryExpr) :
    Settled (·.name) (declareNamed nb e) := by
  unfold declareNamed
  extract_lets name
  split
  · exact settled_named nb _
  split
  · exact settled_none nb
  split
  · split
    · split
      · exact settled_rotate nb _
      · exact .refuse _ _
    · exact .refuse _ _
  split
  · split
    · exact .refuse _ _
    · refine .failing_bind fun labels h => ?_
      have hlabels := isLabel_of_directionLabels h
      split
      · exact settled_reflect nb (hlabels _ (by simp)).comma_notMem
      · exact settled_reflect nb (hlabels _ (by simp)).comma_notMem
      · exact .refuse _ _
  split
  · split
    · split
      · exact settled_permute nb _
      · exact .failing_bind fun labels _ => settled_permute nb _
    · exact .failing_bind fun labels _ => settled_permute nb _
  · exact settled_named nb _

def jointName (head : String) : List String → Outcome String
  | [] => .error (.refused (.of .nowhere .noSymmetries))
  | [name] => .ok name
  | names => .ok (head ++ ",".intercalate names.eraseDups.mergeSort ++ ")")

section

variable {ts : List Symmetry}

lemma name_of_joint {act : RegistryM Symmetry} {head : String} (hlen : 2 ≤ ts.length)
    (hhead : (head ++ sortedNames ts ++ ")").toList.take 2 ≠ ['c', 'l']) (hs : Succeeds r act)
    (hk : Keeps r act fun r' t => ts = [t] ∨ Stands r' nb (head ++ sortedNames ts ++ ")") t) :
    (runFrom act r).1.map (·.name) = jointName head (ts.map (·.name)) := by
  obtain ⟨t, r₁, hrun⟩ := hs
  have hr₁ := hk.sound
  have ht := hk.post t (by rw [hrun])
  rw [hrun] at hr₁ ht
  rcases ht with rfl | ht
  · simp at hlen
  · rcases ts with _ | ⟨u, _ | ⟨v, ts⟩⟩
    · simp at hlen
    · simp at hlen
    · rw [hrun]
      exact congrArg Except.ok (ht.name_eq hr₁ hhead)

lemma name_compose (hr : r.Sound) (hts : ∀ t ∈ ts, r.Knows t ∧ t.neighborhood = nb) :
    (runFrom (compose ts) r).1.map (·.name) = jointName "compose(" (ts.map (·.name)) := by
  rcases ts with _ | ⟨t, _ | ⟨u, ts⟩⟩
  · rfl
  · rfl
  · exact name_of_joint (by simp) (by simp)
      (succeeds_compose (List.cons_ne_nil _ _) fun t ht => (hts t ht).2) (stores_compose hr hts)

lemma name_combine (hr : r.Sound) (hts : ∀ t ∈ ts, r.Knows t ∧ t.neighborhood = nb) :
    (runFrom (combine ts) r).1.map (·.name) = jointName "combine(" (ts.map (·.name)) := by
  rcases ts with _ | ⟨t, _ | ⟨u, ts⟩⟩
  · rfl
  · rfl
  · exact name_of_joint (by simp) (by simp)
      (succeeds_combine (List.cons_ne_nil _ _) fun t ht => (hts t ht).2) (stores_combine hr hts)

end

mutual

lemma settled_declare (nb : Neighborhood) (e : SymmetryExpr) :
    Settled (·.name) (declare nb e) := by
  obtain ⟨op, name, args, parts, span⟩ := e
  rw [declare]
  refine Settled.locating ?_ _ _
  extract_lets word
  split
  · refine (settled_declareAll nb parts).bind (fun r hr => keeps_declareAll hr nb parts)
      fun names => ⟨jointName "compose(" names, fun r ts hr hts hnames => ?_⟩
    rw [← hnames]
    exact name_compose hr fun t ht => ⟨(hts t ht).1, (hts t ht).2.1⟩
  split
  · refine (settled_declareAll nb parts).bind (fun r hr => keeps_declareAll hr nb parts)
      fun names => ⟨jointName "combine(" names, fun r ts hr hts hnames => ?_⟩
    rw [← hnames]
    exact name_combine hr fun t ht => ⟨(hts t ht).1, (hts t ht).2.1⟩
  split
  · exact settled_declareNamed nb _
  · exact .refuse _ _

lemma settled_declareAll (nb : Neighborhood) (es : List SymmetryExpr) :
    Settled (List.map (·.name)) (declareAll nb es) := by
  cases es with
  | nil =>
    rw [declareAll]
    exact .pure _
  | cons e es =>
    rw [declareAll]
    refine (settled_declare nb e).bind (fun r hr => keeps_declare hr nb e) fun name => ?_
    obtain ⟨x, hx⟩ := settled_declareAll nb es
    refine ⟨x.map (name :: ·), fun r t hr _ hname => ?_⟩
    rw [runFrom_bind, ← hx r hr]
    rcases runFrom (declareAll nb es) r with ⟨e' | ts, r₁⟩
    · rfl
    · rw [← hname]
      rfl

end

/-- Whatever was asked before, a declaration comes to types of one name, or to one failure. -/
lemma declare_congr (hr : r.Sound) (hr' : r'.Sound) (nb : Neighborhood) (e : SymmetryExpr) :
    (runFrom (declare nb e) r).1.map (·.name) = (runFrom (declare nb e) r').1.map (·.name) := by
  obtain ⟨x, hx⟩ := settled_declare nb e
  rw [hx r hr, hx r' hr']

lemma alike_of_declare (hr : r.Sound) (hr' : r'.Sound) {e : SymmetryExpr} {t t' : Symmetry}
    (h : (runFrom (declare nb e) r).1 = .ok t) (h' : (runFrom (declare nb e) r').1 = .ok t') :
    Alike t t' := by
  have hk := keeps_declare hr nb e
  have hk' := keeps_declare hr' nb e
  obtain ⟨ht, hnb, -⟩ := hk.post t h
  obtain ⟨ht', hnb', -⟩ := hk'.post t' h'
  have hname := declare_congr hr hr' nb e
  rw [h, h'] at hname
  exact alike_of_name_eq hk.sound hk'.sound ht ht' (hnb.trans hnb'.symm) (Except.ok.inj hname)

/-- **Declarations do not depend on history.** After any two histories of requests an expression is
accepted or refused alike, and the types it declares have the same relabelings, each once and the
identity first. To declare it again gives the type that is there, and nothing stored is replaced. -/
theorem declare_independent_of_history (hr : r.Reachable) (hr' : r'.Reachable) (nb : Neighborhood)
    (e : SymmetryExpr) :
    ((∃ t, (runFrom (declare nb e) r).1 = .ok t) ↔ ∃ t, (runFrom (declare nb e) r').1 = .ok t) ∧
    (∀ t t', (runFrom (declare nb e) r).1 = .ok t → (runFrom (declare nb e) r').1 = .ok t' →
      ∀ p, p ∈ t.relabelings ↔ p ∈ t'.relabelings) ∧
    (∀ t r₁, runFrom (declare nb e) r = (.ok t, r₁) →
      t.relabelings.Nodup ∧ t.relabelings.head? = some (Relabeling.identity nb.size) ∧
      ∀ r₂, History r₁ r₂ → runFrom (declare nb e) r₂ = (.ok t, r₂)) ∧
    ∀ r₂, History r r₂ → r.Extends r₂ := by
  have hcongr := declare_congr hr.sound hr'.sound nb e
  refine ⟨?_, fun t t' h h' => alike_of_declare hr.sound hr'.sound h h', fun t r₁ hrun => ?_,
    fun r₂ h => hr.extends_of_history h⟩
  · rcases h : (runFrom (declare nb e) r).1 with f | t <;>
      rcases h' : (runFrom (declare nb e) r').1 with f' | t' <;> rw [h, h'] at hcongr <;>
      simp_all [Except.map]
  · have hk := keeps_declare hr.sound nb e
    have hs := hk.sound
    have hrep := hk.replays t (by rw [hrun])
    have hpost := hk.post t (by rw [hrun])
    rw [hrun] at hs hrep hpost
    obtain ⟨hknows, rfl, -⟩ := hpost
    refine ⟨Symmetry.nodup_relabelings (hs.valid t hknows), t.head?_relabelings, fun r₂ h => ?_⟩
    exact hrep r₂ (h.sound_extends hs).2

def flipFirst : SymmetryExpr where
  op := "compose"
  parts := [{ name := "reflect", args := ["N", "S"] }, { name := "rotate", args := ["4"] }]

theorem declare_class_after_flipFirst :
    Reachable {} ∧ (after {} (.declare .vonNeumann flipFirst)).Reachable ∧
    ∃ t t', (runFrom (declare .vonNeumann { name := "rotate4reflect" }) {}).1 = .ok t ∧
      (runFrom (declare .vonNeumann { name := "rotate4reflect" })
        (after {} (.declare .vonNeumann flipFirst))).1 = .ok t' ∧
      ∀ p, p ∈ t.relabelings ↔ p ∈ t'.relabelings := by
  have hr' : (after {} (.declare .vonNeumann flipFirst)).Reachable :=
    .one _ (by simp [Request.types])
  obtain ⟨hiff, halike, -⟩ :=
    declare_independent_of_history .start hr' .vonNeumann { name := "rotate4reflect" }
  obtain ⟨t, r₁, hrun⟩ : Succeeds {} (declare .vonNeumann { name := "rotate4reflect" }) :=
    succeeds_declare_class sound_empty (by cbv) (by cbv) .nowhere
  have ht : (runFrom (declare .vonNeumann { name := "rotate4reflect" }) {}).1 =
      .ok t := by rw [hrun]
  obtain ⟨t', ht'⟩ := hiff.mp ⟨t, ht⟩
  exact ⟨.start, hr', t, t', ht, ht', halike t t' ht ht'⟩

end Registry

end RuleTable
