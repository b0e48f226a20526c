import RuleTable.Proofs.Registries
import RuleTable.Symmetry.Declare

/-!
What declarations come to.

Whatever is declared is a type of the neighborhood that the registry knows from then on, and it is a
group unless types were combined. The class that is chosen for several types is a group as well, and
all of them contain it.
-/

namespace RuleTable

mutual

def SymmetryExpr.Uncombined : SymmetryExpr → Prop
  | ⟨op, _, _, parts, _⟩ => Text.lower op ≠ "combine" ∧ SymmetryExpr.AllUncombined parts

def SymmetryExpr.AllUncombined : List SymmetryExpr → Prop
  | [] => True
  | e :: es => e.Uncombined ∧ SymmetryExpr.AllUncombined es

end

/-- The parts of the class exist in the neighborhood. -/
def Recipe.feasible (nb : Neighborhood) : Recipe → Bool
  | .none | .permute => true
  | .rotate ways => (nb.rotationsBy ways).isOk
  | .reflect a b => (nb.reflectAcross a.label b.label).isOk
  | .rotateReflect ways a b =>
    (nb.rotationsBy ways).isOk && (nb.reflectAcross a.label b.label).isOk

namespace Registry

variable {r r' : Registry} {nb : Neighborhood} {t : Symmetry} {α β : Type}

/-! ### Declarations -/

lemma keeps_declareNamed (hr : r.Sound) (nb : Neighborhood) (e : SymmetryExpr) :
    Keeps r (declareNamed nb e) (Yields nb True) := by
  unfold declareNamed
  extract_lets name
  split
  · exact keeps_named hr nb _
  split
  · exact (keeps_none hr nb).imp fun _ _ _ _ h => h.1
  split
  · split
    · split
      · exact keeps_rotate hr nb _
      · exact .refuse hr _ _
    · exact .refuse hr _ _
  split
  · split
    · exact .refuse hr _ _
    · refine (Keeps.failing hr _).bind fun labels r' hr' _ _ => ?_
      split
      · exact keeps_reflect hr' nb _ _
      · exact keeps_reflect hr' nb _ _
      · exact .refuse hr' _ _
  split
  · split
    · split
      · exact keeps_permute hr nb _
      · exact (Keeps.failing hr _).bind fun labels r' hr' _ _ => keeps_permute hr' nb _
    · exact (Keeps.failing hr _).bind fun labels r' hr' _ _ => keeps_permute hr' nb _
  · exact keeps_named hr nb _

mutual

lemma keeps_declare {r : Registry} (hr : r.Sound) (nb : Neighborhood) (e : SymmetryExpr) :
    Keeps r (declare nb e) (Yields nb e.Uncombined) := by
  obtain ⟨op, name, args, parts, span⟩ := e
  rw [declare, SymmetryExpr.Uncombined]
  refine Keeps.locating ?_ _ _
  extract_lets word
  split
  · refine (keeps_declareAll hr nb parts).bind fun ts r' hr' _ hts => ?_
    exact (keeps_compose hr' hts).imp fun _ _ _ _ h => ⟨h.1, h.2.1, fun hu => h.2.2 hu.2⟩
  split
  · next hword =>
    refine (keeps_declareAll hr nb parts).bind fun ts r' hr' _ hts => ?_
    exact (keeps_combine hr' hts).imp fun _ _ _ _ h => ⟨h.1, h.2.1, fun hu => absurd hword hu.1⟩
  split
  · exact (keeps_declareNamed hr nb _).imp fun _ _ _ _ h => ⟨h.1, h.2.1, fun _ => h.2.2 trivial⟩
  · exact .refuse hr _ _

lemma keeps_declareAll {r : Registry} (hr : r.Sound) (nb : Neighborhood)
    (es : List SymmetryExpr) : Keeps r (declareAll nb es) fun r' ts =>
      ∀ t ∈ ts, Yields nb (SymmetryExpr.AllUncombined es) r' t := by
  cases es with
  | nil =>
    rw [declareAll]
    exact .pure hr (List.forall_mem_nil _)
  | cons e es =>
    rw [declareAll]
    refine (keeps_declare hr nb e).bind fun t r₁ hr₁ _ ht => ?_
    refine (keeps_declareAll hr₁ nb es).bind fun ts r₂ hr₂ hext hts => ?_
    refine .pure hr₂ (List.forall_mem_cons.mpr ⟨?_, fun u hu => ?_⟩)
    · exact ⟨ht.1.mono hext, ht.2.1, fun hu => ht.2.2 hu.1⟩
    · obtain ⟨hk, hnb, hc⟩ := hts u hu
      exact ⟨hk, hnb, fun hu => hc hu.2⟩

end

/-! ### The class for several types -/

lemma distinctTypes_spec (ts : List Symmetry) :
    (∀ t ∈ distinctTypes ts, t ∈ ts) ∧ ((distinctTypes ts).map (·.key)).Nodup ∧
      ∀ t ∈ ts, ∃ u ∈ distinctTypes ts, u.key = t.key := by
  have hfold : ∀ (ts out : List Symmetry), (out.map (·.key)).Nodup →
      let out' := ts.foldl (fun out t => if out.any (·.key == t.key) then out else out ++ [t]) out
      (∀ t ∈ out', t ∈ out ∨ t ∈ ts) ∧ (out'.map (·.key)).Nodup ∧ (∀ t ∈ out, t ∈ out') ∧
        ∀ t ∈ ts, ∃ u ∈ out', u.key = t.key := by
    intro ts
    induction ts with
    | nil => exact fun out h => ⟨fun t ht => .inl ht, h, fun t ht => ht, List.forall_mem_nil _⟩
    | cons t ts ih =>
      intro out hout
      rw [List.foldl_cons]
      split
      · next hany =>
        obtain ⟨u, hu, hkey⟩ := List.any_eq_true.mp hany
        obtain ⟨h1, h2, h3, h4⟩ := ih out hout
        refine ⟨fun v hv => (h1 v hv).imp_right (List.mem_cons_of_mem _), h2, h3, fun v hv => ?_⟩
        rcases List.mem_cons.mp hv with rfl | hv
        · exact ⟨u, h3 u hu, eq_of_beq hkey⟩
        · exact h4 v hv
      · next hany =>
        have hnew : t.key ∉ out.map (·.key) := by simpa using hany
        have hnodup : ((out ++ [t]).map (·.key)).Nodup := by
          rw [List.map_append, List.map_singleton]
          exact (List.perm_append_singleton _ _).nodup_iff.mpr (List.nodup_cons.mpr ⟨hnew, hout⟩)
        obtain ⟨h1, h2, h3, h4⟩ := ih (out ++ [t]) hnodup
        refine ⟨fun v hv => ?_, h2, fun v hv => h3 v (List.mem_append_left _ hv), fun v hv => ?_⟩
        · rcases h1 v hv with hv | hv
          · rcases List.mem_append.mp hv with hv | hv
            · exact .inl hv
            · exact .inr (List.mem_singleton.mp hv ▸ List.mem_cons_self)
          · exact .inr (List.mem_cons_of_mem _ hv)
        · rcases List.mem_cons.mp hv with rfl | hv
          · exact ⟨v, h3 v (List.mem_append_right _ (List.mem_singleton_self _)), rfl⟩
          · exact h4 v hv
  obtain ⟨h1, h2, -, h4⟩ := hfold ts [] List.nodup_nil
  exact ⟨fun t ht => (h1 t ht).resolve_left (List.not_mem_nil), h2, h4⟩

lemma mem_shared {ts : List Symmetry} (hne : ts ≠ []) (hv : ∀ t ∈ ts, t.Valid) {p : Relabeling} :
    p ∈ shared ts ↔ ∀ t ∈ ts, p ∈ t.relabelings := by
  have hfold : ∀ (ts : List Symmetry) (set : Std.HashSet Relabeling), (∀ t ∈ ts, t.Valid) →
      (p ∈ ts.foldl (fun s u => s.filter u.contains) set ↔
        p ∈ set ∧ ∀ t ∈ ts, p ∈ t.relabelings) := by
    intro ts
    induction ts with
    | nil => simp
    | cons t ts ih =>
      intro set hv
      rw [List.foldl_cons, ih _ fun t ht => hv t (List.mem_cons_of_mem _ ht),
        Std.HashSet.mem_filter]
      simp only [Std.HashSet.get_eq, Symmetry.contains_iff (hv t List.mem_cons_self), exists_prop,
        List.mem_cons, forall_eq_or_imp, and_assoc]
  cases ts with
  | nil => exact absurd rfl hne
  | cons t ts =>
    have ht := hv t List.mem_cons_self
    rw [shared, hfold ts _ fun t ht => hv t (List.mem_cons_of_mem _ ht),
      (Symmetry.sound_members ht).seen]
    simp only [List.mem_cons, forall_eq_or_imp]
    rfl

lemma containedIn_subset {set : Std.HashSet Relabeling} (h : containedIn t set = true) :
    ∀ p ∈ t.relabelings, p ∈ set := by
  simp only [containedIn, Bool.and_eq_true, List.all_eq_true] at h
  exact h.2

lemma largestWithin_spec (set : Std.HashSet Relabeling) (best : Symmetry) (ts : List Symmetry) :
    largestWithin set best ts = best ∨
      largestWithin set best ts ∈ ts ∧ containedIn (largestWithin set best ts) set = true := by
  induction ts generalizing best with
  | nil => exact .inl rfl
  | cons t ts ih =>
    rw [largestWithin]
    split
    · next h =>
      rw [Bool.and_eq_true] at h
      exact .inr ⟨List.mem_cons_self, h.2⟩
    split
    · next h =>
      rw [Bool.and_eq_true] at h
      rcases ih t with he | ⟨hmem, hc⟩
      · rw [he]
        exact .inr ⟨List.mem_cons_self, h.2⟩
      · exact .inr ⟨List.mem_cons_of_mem _ hmem, hc⟩
    · exact (ih best).imp_right fun ⟨hmem, hc⟩ => ⟨List.mem_cons_of_mem _ hmem, hc⟩

lemma relabelings_trivial (h : t.presentation = .generated []) {p : Relabeling}
    (hp : p ∈ t.relabelings) : p = Relabeling.identity t.neighborhood.size := by
  rw [Symmetry.relabelings_eq, h] at hp
  have := (Relabeling.mem_closure_iff (List.forall_mem_nil _)).mp hp
  cases this with
  | one => rfl
  | snoc _ hg => cases hg

/-- The key of a choice tells the keys of the types. -/
lemma perm_of_choiceKey_eq (hr : r.Sound) {ts us : List Symmetry} (hts : ∀ t ∈ ts, r.Knows t)
    (hus : ∀ u ∈ us, r.Knows u) (hne : ts ≠ []) (hne' : us ≠ [])
    (h : choiceKey ts = choiceKey us) : (ts.map (·.key)).Perm (us.map (·.key)) := by
  have hsort : ∀ ts : List Symmetry, (ts.map (·.key)).mergeSort.Perm (ts.map (·.key)) :=
    fun ts => List.mergeSort_perm _ _
  have hne_sort : ∀ {ts : List Symmetry}, ts ≠ [] → (ts.map (·.key)).mergeSort ≠ [] := by
    intro ts hne he
    have := (hsort ts).length_eq
    rw [he, List.length_map, List.length_nil] at this
    exact hne (List.length_eq_zero_iff.mp this.symm)
  have hamp : ∀ {ts : List Symmetry}, (∀ t ∈ ts, r.Knows t) →
      ∀ s ∈ (ts.map (·.key)).mergeSort, '&' ∉ s.toList := by
    intro ts hts s hs
    obtain ⟨t, ht, rfl⟩ := List.mem_map.mp ((hsort ts).mem_iff.mp hs)
    exact hr.notMem_key (hts t ht) (by decide) (by decide)
  have := intercalate_inj rfl (hne_sort hne) (hne_sort hne') (hamp hts) (hamp hus) h
  exact (hsort ts).symm.trans (this ▸ hsort us)

/-- The class is a group, and each of the types contains it. -/
def Contained (nb : Neighborhood) (ts : List Symmetry) (r : Registry) (m : Symmetry) : Prop :=
  Yields nb True r m ∧ ∀ t ∈ ts, ∀ p ∈ m.relabelings, p ∈ t.relabelings

lemma Choice.contained {types candidates : List Symmetry} {start : Symmetry} (hr : r.Sound)
    (h : Choice r nb types start candidates) :
    Contained nb types r (largestWithin (shared types) start candidates) := by
  have hv : ∀ t ∈ types, t.Valid := fun t ht => hr.valid t (h.knows t ht).1
  rcases largestWithin_spec (shared types) start candidates with he | ⟨hmem, hc⟩
  · rw [he]
    obtain ⟨hk, hnb, hcl⟩ := h.groups start List.mem_cons_self
    refine ⟨⟨hk, hnb, fun _ => hcl⟩, fun t ht p hp => ?_⟩
    rw [relabelings_trivial h.start_trivial hp, hnb, ← (h.knows t ht).2]
    exact Symmetry.identity_mem (hv t ht)
  · obtain ⟨hk, hnb, hcl⟩ := h.groups _ (List.mem_cons_of_mem _ hmem)
    refine ⟨⟨hk, hnb, fun _ => hcl⟩, fun t ht p hp => ?_⟩
    exact (mem_shared h.ne_nil hv).mp (containedIn_subset hc p hp) t ht

def withChoice (r : Registry) (key : String) (m : Symmetry) : Registry :=
  { r with chosen := r.chosen.insert key m }

lemma runFrom_choose (nb : Neighborhood) (types : List Symmetry) (r : Registry) :
    runFrom (choose nb types) r = match r.chosen[choiceKey types]? with
      | some m => (.ok m, r)
      | Option.none => match runFrom (largestShared nb types) r with
        | (.ok m, r') => (.ok m, r'.withChoice (choiceKey types) m)
        | (.error e, r') => (.error e, r') := by
  unfold choose
  rw [runFrom_bind, runFrom_get]
  cases h : r.chosen[choiceKey types]? with
  | some m => simp only [h, runFrom_pure]
  | none =>
    simp only [h, runFrom_bind]
    rcases runFrom (largestShared nb types) r with ⟨_ | m, r'⟩ <;> rfl

lemma keeps_largestShared (hr : r.Sound) {types : List Symmetry} (hne : types ≠ [])
    (hts : ∀ t ∈ types, r.Knows t ∧ t.neighborhood = nb) (hnodup : (types.map (·.key)).Nodup) :
    Keeps r (largestShared nb types) fun r' m => ∃ start candidates,
      Choice r' nb types start candidates ∧ m = largestWithin (shared types) start candidates := by
  refine (keeps_classes hr nb).andReplays.bind fun candidates r₁ hr₁ hext₁ hcand => ?_
  refine (keeps_none hr₁ nb).andReplays.bind fun start r₂ hr₂ hext₂ hstart => ?_
  obtain ⟨⟨hyields, htrivial⟩, hreplays⟩ := hstart
  have hknows := fun t ht => (hts t ht).1.mono (hext₁.trans hext₂)
  refine .pure hr₂ ⟨start, candidates, ⟨hne, fun t ht => ⟨hknows t ht, (hts t ht).2⟩, hnodup,
    hcand.2.mono hext₂, hreplays, htrivial, fun t ht => ?_⟩, rfl⟩
  rcases List.mem_cons.mp ht with rfl | ht
  · exact ⟨hyields.1, hyields.2.1, hyields.2.2 trivial⟩
  · obtain ⟨hk, hnb, hc⟩ := (hcand.1 t ht).mono hext₂
    exact ⟨hk, hnb, hc trivial⟩

lemma getElem?_withChoice (r : Registry) (key : String) (m : Symmetry) (key' : String) :
    (r.withChoice key m).chosen[key']? = if key = key' then some m else r.chosen[key']? := by
  simp [withChoice, Std.HashMap.getElem?_insert]

lemma extends_withChoice {key : String} {m : Symmetry} (h : r.chosen[key]? = Option.none) :
    r.Extends (r.withChoice key m) := by
  refine ⟨fun _ _ h => h, fun key' u hu => ?_⟩
  rw [getElem?_withChoice, if_neg, hu]
  rintro rfl
  rw [h] at hu
  cases hu

lemma Sound.withChoice (hr : r.Sound) {key : String} {m : Symmetry}
    (hnew : r.chosen[key]? = Option.none) (hm : Chosen r key m) : (r.withChoice key m).Sound := by
  have hext : r.Extends (r.withChoice key m) := extends_withChoice hnew
  refine ⟨hr.key, hr.valid, hr.spelled, fun t ht => ?_, fun key' m' hc => ?_⟩
  · obtain ⟨name, hkey, hmade⟩ := hr.made t ht
    exact ⟨name, hkey, hmade.mono hext⟩
  · rw [getElem?_withChoice] at hc
    split at hc
    · next he =>
      cases hc
      exact he ▸ hm.mono hext
    · exact (hr.chosen key' m' hc).mono hext

lemma replays_choose {types : List Symmetry} {m : Symmetry}
    (h : r.chosen[choiceKey types]? = some m) : Replays (choose nb types) r m := by
  intro r' hr
  rw [runFrom_choose, hr.chosen _ _ h]

/-- What was chosen for some types was chosen for them in any order. -/
lemma Sound.choice_of_chosen (hr : r.Sound) {types : List Symmetry} {m : Symmetry}
    (hne : types ≠ []) (hts : ∀ t ∈ types, r.Knows t ∧ t.neighborhood = nb)
    (h : r.chosen[choiceKey types]? = some m) : ∃ types' start candidates,
      Choice r nb types' start candidates ∧ (∀ t, t ∈ types ↔ t ∈ types') ∧
        m = largestWithin (shared types') start candidates := by
  obtain ⟨nb', types', start, candidates, hc, hkey, rfl⟩ := hr.chosen _ _ h
  have hperm := perm_of_choiceKey_eq hr (fun t ht => (hts t ht).1) (fun t ht => (hc.knows t ht).1)
    hne hc.ne_nil hkey
  have hmem : ∀ t ∈ types, t ∈ types' := by
    intro t ht
    obtain ⟨u, hu, hkey⟩ := List.mem_map.mp (hperm.mem_iff.mp (List.mem_map_of_mem ht))
    rwa [(hts t ht).1.unique (hc.knows u hu).1 hkey.symm]
  have hmem' : ∀ t ∈ types', t ∈ types := by
    intro t ht
    obtain ⟨u, hu, hkey⟩ := List.mem_map.mp (hperm.mem_iff.mpr (List.mem_map_of_mem ht))
    rwa [(hc.knows t ht).1.unique (hts u hu).1 hkey.symm]
  obtain ⟨t, ht⟩ := List.exists_mem_of_ne_nil types hne
  obtain rfl : nb' = nb := (hc.knows t (hmem t ht)).2.symm.trans (hts t ht).2
  exact ⟨types', start, candidates, hc, fun t => ⟨hmem t, hmem' t⟩, rfl⟩

lemma Sound.contained_of_chosen (hr : r.Sound) {types : List Symmetry} {m : Symmetry}
    (hne : types ≠ []) (hts : ∀ t ∈ types, r.Knows t ∧ t.neighborhood = nb)
    (h : r.chosen[choiceKey types]? = some m) : Contained nb types r m := by
  obtain ⟨types', start, candidates, hc, hmem, rfl⟩ := hr.choice_of_chosen hne hts h
  obtain ⟨hy, hsub⟩ := hc.contained hr
  exact ⟨hy, fun t ht => hsub t ((hmem t).mp ht)⟩

lemma keeps_choose (hr : r.Sound) {types : List Symmetry} (hne : types ≠ [])
    (hts : ∀ t ∈ types, r.Knows t ∧ t.neighborhood = nb) (hnodup : (types.map (·.key)).Nodup) :
    Keeps r (choose nb types) (Contained nb types) := by
  have hchoose := runFrom_choose nb types r
  cases hfound : r.chosen[choiceKey types]? with
  | some m =>
    rw [hfound] at hchoose
    refine .of_run hchoose hr (.refl r) ?_
    rintro _ ⟨⟩
    exact ⟨hr.contained_of_chosen hne hts hfound, replays_choose hfound⟩
  | none =>
    obtain ⟨hsound, hgrows, hpost, -⟩ := keeps_largestShared hr hne hts hnodup
    have hsame := largestShared_sameChoices nb types r
    rcases hrun : runFrom (largestShared nb types) r with ⟨e | m, r₁⟩ <;>
      rw [hrun] at hsound hgrows hpost hsame <;> simp only [hfound, hrun] at hchoose
    · exact .of_run hchoose hsound hgrows (by rintro _ ⟨⟩)
    · obtain ⟨start, candidates, hc, rfl⟩ := hpost m rfl
      have hnew : r₁.chosen[choiceKey types]? = Option.none := by
        rw [show r₁.chosen = r.chosen from hsame, hfound]
      have hext := extends_withChoice (m := largestWithin (shared types) start candidates) hnew
      have hsound' := hsound.withChoice hnew ⟨nb, types, start, candidates, hc, rfl, rfl⟩
      refine .of_run hchoose hsound' (hgrows.trans hext) ?_
      rintro _ ⟨⟩
      exact ⟨(hc.mono hext).contained hsound',
        replays_choose (by rw [getElem?_withChoice, if_pos rfl])⟩

/-- **The class for several types** is a group that each of them contains. -/
lemma keeps_minimal (hr : r.Sound) {ts : List Symmetry} (hts : ∀ t ∈ ts, r.Knows t) :
    Keeps r (minimal ts) fun r' m? => match m? with
      | Option.none => ts = []
      | some m => ∃ nb, (∀ t ∈ ts, t.neighborhood = nb) ∧ Contained nb ts r' m := by
  unfold minimal
  split
  · next he => exact .pure hr (by simpa using he)
  · refine (Keeps.failing hr _).bind fun nb r₁ hr₁ hext hnb => ?_
    obtain ⟨hne, hall⟩ := commonNeighborhood_ok hnb
    obtain ⟨hsub, hnodup, hcover⟩ := distinctTypes_spec ts
    have hknows : ∀ t ∈ ts, r₁.Knows t := fun t ht => (hts t ht).mono hext
    have hne' : distinctTypes ts ≠ [] := by
      obtain ⟨t, ht⟩ := List.exists_mem_of_ne_nil ts hne
      obtain ⟨u, hu, -⟩ := hcover t ht
      exact List.ne_nil_of_mem hu
    refine (keeps_choose hr₁ hne' (fun t ht => ⟨hknows t (hsub t ht), hall t (hsub t ht)⟩)
      hnodup).bind fun m r₂ hr₂ hext₂ hm => ?_
    refine .pure hr₂ ⟨nb, hall, hm.1, fun t ht => ?_⟩
    obtain ⟨u, hu, hkey⟩ := hcover t ht
    rw [← (hknows u (hsub u hu)).unique (hknows t ht) hkey]
    exact hm.2 u hu

/-! ### There is always a class -/

def Succeeds (r : Registry) (act : RegistryM α) : Prop := ∃ a r', runFrom act r = (.ok a, r')

lemma Succeeds.bind {act : RegistryM α} {f : α → RegistryM β} (h : Succeeds r act)
    (hf : ∀ a r', runFrom act r = (.ok a, r') → Succeeds r' (f a)) : Succeeds r (act >>= f) := by
  obtain ⟨a, r₁, hrun⟩ := h
  obtain ⟨b, r₂, hrun₂⟩ := hf a r₁ hrun
  exact ⟨b, r₂, runFrom_bind_ok.mpr ⟨a, r₁, hrun, hrun₂⟩⟩

lemma Succeeds.memo {build : RegistryM Symmetry} {name : String} (h : Succeeds r build) :
    Succeeds r (memo nb name build) := by
  obtain ⟨b, r₁, hrun⟩ := h
  unfold Succeeds
  rw [runFrom_memo, hrun]
  cases r.types[keyOf nb name]? <;> exact ⟨_, _, rfl⟩

lemma Succeeds.locating {act : RegistryM α} (h : Succeeds r act) (kind : Kind) (span : Span) :
    Succeeds r (RuleTable.locating kind span act) := by
  obtain ⟨a, r', hrun⟩ := h
  exact ⟨a, r', runFrom_locating_ok.mpr hrun⟩

lemma Succeeds.failing {x : Except Failure α} (h : x.isOk = true) :
    Succeeds r (liftM x : RegistryM α) := by
  cases x with
  | error f => cases h
  | ok a => exact ⟨a, r, rfl⟩

lemma Succeeds.mapM {f : α → RegistryM β} {l : List α}
    (hf : ∀ a ∈ l, ∀ r : Registry, r.Sound → Succeeds r (f a) ∧ (runFrom (f a) r).2.Sound)
    (hr : r.Sound) : Succeeds r (l.mapM f) := by
  induction l generalizing r with
  | nil => exact ⟨[], r, rfl⟩
  | cons a l ih =>
    rw [List.mapM_cons]
    obtain ⟨hok, hsound⟩ := hf a List.mem_cons_self r hr
    refine hok.bind fun b r₁ hrun => ?_
    rw [hrun] at hsound
    exact (ih (fun a ha => hf a (List.mem_cons_of_mem _ ha)) hsound).bind fun bs r₂ _ => ⟨_, _, rfl⟩

lemma commonNeighborhood_isOk {ts : List Symmetry} (hne : ts ≠ [])
    (h : ∀ t ∈ ts, t.neighborhood = nb) : (commonNeighborhood ts).isOk = true := by
  cases ts with
  | nil => exact absurd rfl hne
  | cons t ts =>
    rw [commonNeighborhood]
    split
    · next u hu =>
      have hne := List.find?_some hu
      rw [h u (List.mem_cons_of_mem _ (List.mem_of_find?_eq_some hu)),
        h t List.mem_cons_self] at hne
      simp at hne
    · rfl

lemma succeeds_compose {ts : List Symmetry} (hne : ts ≠ []) (h : ∀ t ∈ ts, t.neighborhood = nb) :
    Succeeds r (compose ts) := by
  refine (Succeeds.failing (commonNeighborhood_isOk hne h)).bind fun nb' r' _ => ?_
  split
  · exact ⟨_, _, rfl⟩
  · exact Succeeds.memo ⟨_, _, rfl⟩

lemma succeeds_combine {ts : List Symmetry} (hne : ts ≠ []) (h : ∀ t ∈ ts, t.neighborhood = nb) :
    Succeeds r (combine ts) := by
  refine (Succeeds.failing (commonNeighborhood_isOk hne h)).bind fun nb' r' _ => ?_
  split
  · exact ⟨_, _, rfl⟩
  · exact Succeeds.memo ⟨_, _, rfl⟩

lemma succeeds_rotate {ways : ℤ} (h : (nb.rotationsBy ways).isOk = true) :
    Succeeds r (rotate nb ways) :=
  .memo ((Succeeds.failing h).bind fun _ _ _ => ⟨_, _, rfl⟩)

lemma succeeds_reflect {a b : String} (h : (nb.reflectAcross a b).isOk = true) :
    Succeeds r (reflect nb a b) :=
  .memo ((Succeeds.failing h).bind fun _ _ _ => ⟨_, _, rfl⟩)

lemma succeeds_prepare (hr : r.Sound) {recipe : Recipe} (h : recipe.feasible nb = true) :
    Succeeds r (prepare nb recipe) := by
  cases recipe with
  | none => exact .memo ⟨_, _, rfl⟩
  | rotate ways => exact succeeds_rotate h
  | reflect a b => exact succeeds_reflect h
  | rotateReflect ways a b =>
    obtain ⟨hturns, hflip⟩ := Bool.and_eq_true_iff.mp h
    refine (succeeds_rotate hturns).bind fun turns r₁ hrun₁ =>
      (succeeds_reflect hflip).bind fun flip r₂ hrun₂ => ?_
    have hk₁ := keeps_rotate hr nb ways
    have hr₁ := hk₁.sound
    have hp₁ := hk₁.post
    rw [hrun₁] at hr₁ hp₁
    have hp₂ := (keeps_reflect hr₁ nb a.label b.label).post
    rw [hrun₂] at hp₂
    have hnb : ∀ t ∈ [turns, flip], t.neighborhood = nb := by
      simp [(hp₁ turns rfl).2.1, (hp₂ flip rfl).2.1]
    exact succeeds_compose (List.cons_ne_nil _ _) hnb
  | permute =>
    refine (Succeeds.failing (x := nb.positions []) rfl).bind fun _ _ _ => .memo ⟨_, _, rfl⟩

lemma feasible_of_recipe {name : String} {recipe : Recipe} (h : nb.recipe? name = some recipe) :
    recipe.feasible nb = true := by
  have hall : ∀ c ∈ nb.classes, c.2.feasible nb = true := by cases nb <;> decide
  exact hall _ (mem_of_lookup h)

lemma succeeds_named (hr : r.Sound) {name : String} {recipe : Recipe}
    (h : nb.recipe? (Text.lower (Text.trim name)) = some recipe) : Succeeds r (named nb name) := by
  unfold named
  simp only [h]
  exact .memo ((succeeds_prepare hr (feasible_of_recipe h)).bind fun _ _ _ => ⟨_, _, rfl⟩)

lemma succeeds_classes (hr : r.Sound) (nb : Neighborhood) : Succeeds r (classes nb) := by
  have hnames : nb.classes.all fun c => nb.recipe? (Text.lower (Text.trim c.1)) == some c.2 := by
    cases nb <;> cbv
  refine Succeeds.mapM (fun c hc r hr => ⟨?_, (keeps_named hr nb c.1).sound⟩) hr
  exact succeeds_named hr (eq_of_beq (List.all_eq_true.mp hnames c hc))

/-- For types of one neighborhood there is always a class to be chosen. -/
lemma succeeds_minimal (hr : r.Sound) {ts : List Symmetry} (hne : ts ≠ [])
    (hnb : ∀ t ∈ ts, t.neighborhood = nb) : Succeeds r (minimal ts) := by
  unfold minimal
  rw [if_neg (by simpa using hne)]
  refine (Succeeds.failing (commonNeighborhood_isOk hne hnb)).bind fun nb' r' hrun => ?_
  obtain rfl : r = r' := by
    rw [runFrom_failing] at hrun
    exact congrArg Prod.snd hrun
  refine Succeeds.bind ?_ fun _ _ _ => ⟨_, _, rfl⟩
  have hshared : Succeeds r (largestShared nb' (distinctTypes ts)) := by
    refine (succeeds_classes hr nb').bind fun candidates r₁ _ => ?_
    exact Succeeds.bind (.memo ⟨_, _, rfl⟩) fun _ _ _ => ⟨_, _, rfl⟩
  obtain ⟨m, r₂, hrun₂⟩ := hshared
  unfold Succeeds
  rw [runFrom_choose, hrun₂]
  cases r.chosen[choiceKey (distinctTypes ts)]? <;> exact ⟨_, _, rfl⟩

/-! ### Declarations that succeed -/

lemma length_declareAll {nb : Neighborhood} {es : List SymmetryExpr} {r r' : Registry}
    {ts : List Symmetry} (h : runFrom (declareAll nb es) r = (.ok ts, r')) :
    ts.length = es.length := by
  induction es generalizing r ts with
  | nil =>
    rw [declareAll] at h
    cases h
    rfl
  | cons e es ih =>
    rw [declareAll] at h
    obtain ⟨t, r₁, -, h⟩ := runFrom_bind_ok.mp h
    obtain ⟨rest, r₂, hrest, h⟩ := runFrom_bind_ok.mp h
    cases h
    rw [List.length_cons, List.length_cons, ih hrest]

/-- A declaration without an operator comes to what it names. -/
lemma succeeds_declare {name : String} {args : List String} {span : Span}
    (h : Succeeds r (declareNamed nb { name := name, args := args, span := span })) :
    Succeeds r (declare nb { name := name, args := args, span := span }) := by
  have hop : Text.lower "" = "" := by cbv
  rw [declare]
  refine .locating ?_ _ _
  simp only [hop]
  exact h

lemma succeeds_declare_class (hr : r.Sound) {name : String} {recipe : Recipe}
    (hname : Text.lower (Text.trim name) = name) (h : nb.recipe? name = some recipe) (span : Span) :
    Succeeds r (declare nb { name := name, span := span }) := by
  have hclass : nb.recipe? (Text.lower (Text.trim name)) = some recipe := by rw [hname, h]
  refine succeeds_declare ?_
  simp only [declareNamed, hname, h]
  exact succeeds_named hr hclass

lemma succeeds_declareAll (hr : r.Sound) {es : List SymmetryExpr}
    (h : ∀ e ∈ es, ∀ r : Registry, r.Sound → Succeeds r (declare nb e)) :
    Succeeds r (declareAll nb es) := by
  induction es generalizing r with
  | nil =>
    rw [declareAll]
    exact ⟨_, _, rfl⟩
  | cons e es ih =>
    rw [List.forall_mem_cons] at h
    rw [declareAll]
    refine (h.1 r hr).bind fun t r₁ hrun => ?_
    have hsound := (keeps_declare hr nb e).sound
    rw [hrun] at hsound
    exact (ih hsound h.2).bind fun _ _ _ => ⟨_, _, rfl⟩

/-- What an operator is applied to can be composed and combined. -/
lemma succeeds_operator (hr : r.Sound) {op : String}
    (hop : Text.lower op = "compose" ∨ Text.lower op = "combine") {es : List SymmetryExpr}
    (hne : es ≠ []) (h : ∀ e ∈ es, ∀ r : Registry, r.Sound → Succeeds r (declare nb e))
    (span : Span) : Succeeds r (declare nb { op := op, parts := es, span := span }) := by
  have hall : ∀ ts r', runFrom (declareAll nb es) r = (.ok ts, r') →
      ts ≠ [] ∧ ∀ t ∈ ts, t.neighborhood = nb := by
    intro ts r' hrun
    have hpost := (keeps_declareAll hr nb es).post ts (by rw [hrun])
    refine ⟨fun hnil => hne (List.length_eq_zero_iff.mp ?_), fun t ht => (hpost t ht).2.1⟩
    rw [← length_declareAll hrun, hnil, List.length_nil]
  rw [declare]
  refine .locating ?_ _ _
  rcases hop with hop | hop
  · simp only [hop]
    refine (succeeds_declareAll hr h).bind fun ts r' hrun => ?_
    exact succeeds_compose (hall ts r' hrun).1 (hall ts r' hrun).2
  · simp only [hop]
    refine (succeeds_declareAll hr h).bind fun ts r' hrun => ?_
    exact succeeds_combine (hall ts r' hrun).1 (hall ts r' hrun).2

end Registry

end RuleTable
