import RuleTable.Proofs.Requests

/-!
The class for several types, in any registry that has come about by requests.

Going through the candidates keeps a class that is at least as large as every contained one so far,
and an exact match has as many relabelings as there are common ones, so no contained class is
larger than the result. The choice is stored under the sorted keys of the types, which are the same
however the types are listed.
-/

namespace RuleTable

/-- Texts in another order sort to the same list. -/
lemma mergeSort_eq_of_perm {l l' : List String} (h : l.Perm l') : l.mergeSort = l'.mergeSort := by
  have hperm : l.mergeSort.Perm l'.mergeSort :=
    (List.mergeSort_perm l _).trans (h.trans (List.mergeSort_perm l' _).symm)
  exact hperm.eq_of_pairwise' (List.pairwise_mergeSort' (· ≤ ·) l)
    (List.pairwise_mergeSort' (· ≤ ·) l')

namespace Registry

variable {r r' r₁ r₂ : Registry} {nb : Neighborhood} {t m : Symmetry} {α β : Type}
  {ts us types candidates : List Symmetry} {start : Symmetry}

/-! ### The largest candidate -/

lemma containedIn_iff {set : Std.HashSet Relabeling} (hv : t.Valid) :
    containedIn t set = true ↔ ∀ p ∈ t.relabelings, p ∈ set := by
  refine ⟨containedIn_subset, fun h => ?_⟩
  have hsub : t.relabelings ⊆ set.toList := fun p hp => Std.HashSet.mem_toList.mpr (h p hp)
  have hle := ((Symmetry.nodup_relabelings hv).subperm hsub).length_le
  rw [Std.HashSet.length_toList, ← Symmetry.order_eq] at hle
  simp only [containedIn, Bool.and_eq_true, decide_eq_true_eq, List.all_eq_true]
  exact ⟨hle, h⟩

lemma order_le_size {set : Std.HashSet Relabeling} (h : containedIn t set = true) :
    t.order ≤ set.size := by
  simp only [containedIn, Bool.and_eq_true, decide_eq_true_eq] at h
  exact h.1

/-- No contained candidate is larger than the one that is picked, nor is the one to begin with. -/
lemma order_le_largestWithin {set : Std.HashSet Relabeling} {best : Symmetry}
    (hbest : best.order ≤ set.size) (candidates : List Symmetry) :
    ∀ c ∈ best :: candidates, c = best ∨ containedIn c set = true →
      c.order ≤ (largestWithin set best candidates).order := by
  induction candidates generalizing best with
  | nil =>
    intro c hc _
    rw [List.mem_singleton.mp hc]
    exact le_rfl
  | cons t candidates ih =>
    intro c hc hin
    rw [largestWithin]
    split
    · next h =>
      -- all common relabelings are there, so nothing contained can be larger
      have hexact : t.order = set.size := eq_of_beq (Bool.and_eq_true_iff.mp h).1
      rw [hexact]
      rcases hin with rfl | hin
      · exact hbest
      · exact order_le_size hin
    split
    · next h =>
      obtain ⟨hlt, ht⟩ := Bool.and_eq_true_iff.mp h
      rw [decide_eq_true_eq] at hlt
      have hpicked := ih (order_le_size ht)
      by_cases hcb : c = best
      · have := hpicked t List.mem_cons_self (.inl rfl)
        rw [hcb]
        omega
      · rcases List.mem_cons.mp hc with rfl | hc
        · exact absurd rfl hcb
        · exact hpicked c hc (.inr (hin.resolve_left hcb))
    · next hnot h =>
      have hkept := ih hbest
      rcases List.mem_cons.mp hc with rfl | hc
      · exact hkept c List.mem_cons_self (.inl rfl)
      rcases List.mem_cons.mp hc with rfl | hc
      · rcases hin with rfl | hin
        · exact hkept c List.mem_cons_self (.inl rfl)
        · have := hkept best List.mem_cons_self (.inl rfl)
          simp only [hin, Bool.and_true, decide_eq_true_eq] at h
          omega
      · exact hkept c (List.mem_cons_of_mem _ hc) hin

/-! ### The candidates are the classes -/

/-- Each step of a traversal replays once the traversal is over. -/
lemma replays_of_mapM {post : Registry → β → Prop} {f : α → RegistryM β} {l : List α} {bs : List β}
    (hf : ∀ a ∈ l, ∀ r : Registry, r.Sound → Keeps r (f a) post) (hr : r.Sound)
    (h : runFrom (l.mapM f) r = (.ok bs, r')) :
    List.Forall₂ (fun a b => Replays (f a) r' b) l bs := by
  induction l generalizing r bs with
  | nil =>
    cases h
    exact .nil
  | cons a l ih =>
    obtain ⟨b, r₁, rest, hb, hrest, rfl⟩ := runFrom_mapM_cons.mp h
    have hk := hf a List.mem_cons_self r hr
    have hs := hk.sound
    have hrep := hk.replays b (by rw [hb])
    rw [hb] at hs hrep
    have hl : ∀ a ∈ l, ∀ r : Registry, r.Sound → Keeps r (f a) post :=
      fun a ha => hf a (List.mem_cons_of_mem _ ha)
    have hrun : Keeps r₁ (l.mapM f) fun _ bs => ∀ b ∈ bs, True :=
      keeps_mapM hs (fun h _ => h) fun a ha r hr => (hl a ha r hr).imp fun _ _ _ _ _ => trivial
    have hgrows := hrun.grows
    rw [hrest] at hgrows
    exact .cons (hrep.mono hgrows) (ih hl hs hrest)

lemma Choice.forall₂_named (hr : r.Sound) (h : Choice r nb types start candidates) :
    List.Forall₂ (fun class_ c => Replays (named nb class_.1) r c) nb.classes candidates :=
  replays_of_mapM (fun _ _ _ hr => keeps_named hr nb _) hr (h.candidates_eq r (.refl r))

lemma Choice.exists_candidate (hr : r.Sound) (h : Choice r nb types start candidates)
    {name : String} (hname : name ∈ nb.classes.map Prod.fst) :
    ∃ c ∈ candidates, Replays (named nb name) r c := by
  obtain ⟨class_, hclass, rfl⟩ := List.mem_map.mp hname
  obtain ⟨i, hi, rfl⟩ := List.getElem_of_mem hclass
  obtain ⟨hlen, hget⟩ := List.forall₂_iff_get.mp (h.forall₂_named hr)
  exact ⟨candidates[i], List.getElem_mem _, hget i hi (hlen ▸ hi)⟩

lemma Choice.exists_name (hr : r.Sound) (h : Choice r nb types start candidates) {c : Symmetry}
    (hc : c ∈ candidates) :
    ∃ name ∈ nb.classes.map Prod.fst, Replays (named nb name) r c := by
  obtain ⟨i, hi, rfl⟩ := List.getElem_of_mem hc
  obtain ⟨hlen, hget⟩ := List.forall₂_iff_get.mp (h.forall₂_named hr)
  have hi' : i < nb.classes.length := hlen ▸ hi
  exact ⟨_, List.mem_map_of_mem (List.getElem_mem hi'), hget i hi' hi⟩

/-- The identity alone, which the search begins with, is a class as well. -/
lemma Choice.relabelings_start (hr : r.Sound) (h : Choice r nb types start candidates)
    {c : Symmetry} (hc : Replays (named nb "none") r c) : c.relabelings = start.relabelings := by
  have hname : Text.lower (Text.trim "none") = "none" := by cbv
  have hrecipe : nb.recipe? "none" = some .none := by cases nb <;> rfl
  have hstands := (stores_named hr nb "none").post c (by rw [hc r (.refl r)])
  rw [hc r (.refl r), hname] at hstands
  obtain ⟨recipe, base, hrec, hbase, -, -, hpres⟩ := (hstands.made hr).recipe
  obtain rfl : recipe = .none := Option.some.inj (hrec.symm.trans hrecipe)
  obtain rfl : base = start :=
    Except.ok.inj (congrArg Prod.fst ((hbase r (.refl r)).symm.trans (h.start_eq r (.refl r))))
  have hgroup : base.groupAround = .generated [] := by
    simp [Symmetry.groupAround, Symmetry.groups?, Symmetry.generators, h.start_trivial]
  obtain ⟨-, hnb, -⟩ := h.groups base List.mem_cons_self
  rw [Symmetry.relabelings_eq, Symmetry.relabelings_eq, hpres, hgroup, h.start_trivial, hnb,
    hstands.neighborhood]

/-! ### What is chosen -/

/-- The type has the relabelings of a class, all the types contain it, and no class that they all
contain is larger. -/
structure LargestClass (r : Registry) (nb : Neighborhood) (ts : List Symmetry) (m : Symmetry) :
    Prop where
  nodup : m.relabelings.Nodup
  isClass : ∃ name ∈ nb.classes.map Prod.fst, ∃ c, Replays (named nb name) r c ∧
    ∀ p, p ∈ m.relabelings ↔ p ∈ c.relabelings
  contained : ∀ t ∈ ts, m.relabelings ⊆ t.relabelings
  largest : ∀ name ∈ nb.classes.map Prod.fst, ∃ c, Replays (named nb name) r c ∧
    ((∀ t ∈ ts, c.relabelings ⊆ t.relabelings) → c.order ≤ m.order)

lemma LargestClass.congr (h : LargestClass r nb us m) (hmem : ∀ t, t ∈ ts ↔ t ∈ us) :
    LargestClass r nb ts m where
  nodup := h.nodup
  isClass := h.isClass
  contained t ht := h.contained t ((hmem t).mp ht)
  largest name hname := by
    obtain ⟨c, hrep, hle⟩ := h.largest name hname
    exact ⟨c, hrep, fun hsub => hle fun t ht => hsub t ((hmem t).mpr ht)⟩

/-- A class with exactly the common relabelings has no more of them than the largest one. -/
lemma LargestClass.eq_common (h : LargestClass r nb ts m) {c : Symmetry} (hle : c.order ≤ m.order)
    (hc : ∀ p, p ∈ c.relabelings ↔ ∀ t ∈ ts, p ∈ t.relabelings) (p : Relabeling) :
    p ∈ m.relabelings ↔ ∀ t ∈ ts, p ∈ t.relabelings := by
  have hsub : m.relabelings ⊆ c.relabelings :=
    fun p hp => (hc p).mpr fun t ht => h.contained t ht hp
  rw [Symmetry.order_eq, Symmetry.order_eq] at hle
  rw [((h.nodup.subperm hsub).perm_of_length_le hle).mem_iff, hc]

lemma Choice.largestClass (hr : r.Sound) (h : Choice r nb types start candidates) :
    LargestClass r nb types (largestWithin (shared types) start candidates) := by
  have hv : ∀ t ∈ types, t.Valid := fun t ht => hr.valid t (h.knows t ht).1
  have hvalid : ∀ c ∈ start :: candidates, c.Valid := fun c hc => hr.valid c (h.groups c hc).1
  have hstart : containedIn start (shared types) = true := by
    obtain ⟨-, hnb, -⟩ := h.groups start List.mem_cons_self
    refine (containedIn_iff (hvalid start List.mem_cons_self)).mpr fun p hp => ?_
    refine (mem_shared h.ne_nil hv).mpr fun t ht => ?_
    rw [relabelings_trivial h.start_trivial hp, hnb, ← (h.knows t ht).2]
    exact Symmetry.identity_mem (hv t ht)
  obtain ⟨hyields, hsub⟩ := h.contained hr
  refine ⟨Symmetry.nodup_relabelings (hr.valid _ hyields.1), ?_, fun t ht p hp => hsub t ht p hp,
    fun name hname => ?_⟩
  · rcases largestWithin_spec (shared types) start candidates with he | ⟨hmem, -⟩
    · have hnone : "none" ∈ nb.classes.map Prod.fst := by cases nb <;> simp [Neighborhood.classes]
      obtain ⟨c, -, hrep⟩ := h.exists_candidate hr hnone
      exact ⟨"none", hnone, c, hrep, by simp [he, h.relabelings_start hr hrep]⟩
    · obtain ⟨name, hname, hrep⟩ := h.exists_name hr hmem
      exact ⟨name, hname, _, hrep, fun _ => Iff.rfl⟩
  · obtain ⟨c, hc, hrep⟩ := h.exists_candidate hr hname
    refine ⟨c, hrep, fun hsub => ?_⟩
    refine order_le_largestWithin (order_le_size hstart) candidates c (List.mem_cons_of_mem _ hc) ?_
    exact .inr ((containedIn_iff (hvalid c (List.mem_cons_of_mem _ hc))).mpr fun p hp =>
      (mem_shared h.ne_nil hv).mpr fun t ht => hsub t ht hp)

/-! ### The choice is kept for the types in any order -/

lemma chosen_of_choose (h : runFrom (choose nb types) r = (.ok m, r')) :
    r'.chosen[choiceKey types]? = some m := by
  rw [runFrom_choose] at h
  cases hfound : r.chosen[choiceKey types]? with
  | some m' =>
    rw [hfound] at h
    cases h
    exact hfound
  | none =>
    simp only [hfound] at h
    rcases hrun : runFrom (largestShared nb types) r with ⟨e | m', r₁⟩ <;>
      rw [hrun] at h <;> cases h
    rw [getElem?_withChoice, if_pos rfl]

lemma minimal_ok_iff (hne : ts ≠ []) (hnb : ∀ t ∈ ts, t.neighborhood = nb) :
    runFrom (minimal ts) r = (.ok (some m), r') ↔
      runFrom (choose nb (distinctTypes ts)) r = (.ok m, r') := by
  have hcommon : commonNeighborhood ts = .ok nb := by
    cases h : commonNeighborhood ts with
    | error f =>
      have := commonNeighborhood_isOk hne hnb
      rw [h] at this
      cases this
    | ok nb' =>
      obtain ⟨t, ht⟩ := List.exists_mem_of_ne_nil ts hne
      rw [← (commonNeighborhood_ok h).2 t ht, hnb t ht]
  unfold minimal
  rw [if_neg (by simpa using hne), hcommon]
  constructor
  · intro h
    obtain ⟨nb', r₁, hnb', h⟩ := runFrom_bind_ok.mp h
    cases hnb'
    obtain ⟨m', r₂, hm, h⟩ := runFrom_bind_ok.mp h
    cases h
    exact hm
  · intro h
    exact runFrom_bind_ok.mpr ⟨nb, r, rfl, runFrom_bind_ok.mpr ⟨m, r', h, rfl⟩⟩

lemma mem_keys_distinctTypes (ts : List Symmetry) (key : String) :
    key ∈ (distinctTypes ts).map (·.key) ↔ key ∈ ts.map (·.key) := by
  obtain ⟨hsub, -, hcover⟩ := distinctTypes_spec ts
  simp only [List.mem_map]
  constructor
  · rintro ⟨t, ht, rfl⟩
    exact ⟨t, hsub t ht, rfl⟩
  · rintro ⟨t, ht, rfl⟩
    exact hcover t ht

lemma choiceKey_distinctTypes (h : ∀ t, t ∈ us ↔ t ∈ ts) :
    choiceKey (distinctTypes us) = choiceKey (distinctTypes ts) := by
  have hperm : ((distinctTypes us).map (·.key)).Perm ((distinctTypes ts).map (·.key)) := by
    refine (List.perm_ext_iff_of_nodup (distinctTypes_spec us).2.1
      (distinctTypes_spec ts).2.1).mpr ?_
    intro key
    rw [mem_keys_distinctTypes, mem_keys_distinctTypes]
    simp only [List.mem_map, h]
  rw [choiceKey, choiceKey, mergeSort_eq_of_perm hperm]

/-- Among known types the key tells which is which, so none is lost. -/
lemma mem_distinctTypes (h : ∀ t ∈ ts, r.Knows t) : t ∈ ts ↔ t ∈ distinctTypes ts := by
  obtain ⟨hsub, -, hcover⟩ := distinctTypes_spec ts
  refine ⟨fun ht => ?_, hsub t⟩
  obtain ⟨u, hu, hkey⟩ := hcover t ht
  rwa [← (h u (hsub u hu)).unique (h t ht) hkey]

/-- What is stored for the types was chosen among the classes. -/
lemma exists_choice (hr : r.Sound) (hne : ts ≠ [])
    (hts : ∀ t ∈ ts, r.Knows t ∧ t.neighborhood = nb)
    (h : r.chosen[choiceKey (distinctTypes ts)]? = some m) : ∃ types start candidates,
      Choice r nb types start candidates ∧ (∀ t, t ∈ ts ↔ t ∈ types) ∧
        m = largestWithin (shared types) start candidates := by
  have hmem := fun t => mem_distinctTypes (t := t) fun t ht => (hts t ht).1
  have hne' : distinctTypes ts ≠ [] := by
    obtain ⟨t, ht⟩ := List.exists_mem_of_ne_nil ts hne
    exact List.ne_nil_of_mem ((hmem t).mp ht)
  obtain ⟨types, start, candidates, hchoice, hmem', rfl⟩ :=
    hr.choice_of_chosen hne' (fun t ht => hts t ((hmem t).mpr ht)) h
  exact ⟨types, start, candidates, hchoice, fun t => (hmem t).trans (hmem' t), rfl⟩

lemma LargestClass.of_minimal (hr : r.Sound) (hne : ts ≠ [])
    (hts : ∀ t ∈ ts, r.Knows t ∧ t.neighborhood = nb)
    (h : r.chosen[choiceKey (distinctTypes ts)]? = some m) : LargestClass r nb ts m := by
  obtain ⟨types, start, candidates, hchoice, hmem, rfl⟩ := exists_choice hr hne hts h
  exact (hchoice.largestClass hr).congr hmem

/-- **The class for several types** has the relabelings of a class of the neighborhood, all of the
types contain it, and no class that they all contain is larger; it has all common relabelings if any
class does. However the types are listed, and whatever else is asked for, it stays the same. -/
theorem minimal_is_largest_common_class (hr : r.Reachable) (hne : ts ≠ [])
    (hts : ∀ t ∈ ts, r.Knows t ∧ t.neighborhood = nb) :
    ∃ m r₁, runFrom (minimal ts) r = (.ok (some m), r₁) ∧
      (∃ name ∈ nb.classes.map Prod.fst, ∃ c, runFrom (named nb name) r₁ = (.ok c, r₁) ∧
        ∀ p, p ∈ m.relabelings ↔ p ∈ c.relabelings) ∧
      (∀ t ∈ ts, m.relabelings ⊆ t.relabelings) ∧
      (∀ name ∈ nb.classes.map Prod.fst, ∃ c, runFrom (named nb name) r₁ = (.ok c, r₁) ∧
        ((∀ t ∈ ts, c.relabelings ⊆ t.relabelings) → c.order ≤ m.order) ∧
        ((∀ p, p ∈ c.relabelings ↔ ∀ t ∈ ts, p ∈ t.relabelings) →
          ∀ p, p ∈ m.relabelings ↔ ∀ t ∈ ts, p ∈ t.relabelings)) ∧
      ∀ r₂, History r₁ r₂ → ∀ us, (∀ t, t ∈ us ↔ t ∈ ts) →
        runFrom (minimal us) r₂ = (.ok (some m), r₂) := by
  have hnb : ∀ t ∈ ts, t.neighborhood = nb := fun t ht => (hts t ht).2
  -- there is an answer, and it is stored
  obtain ⟨m?, r₁, hrun⟩ := succeeds_minimal hr.sound hne hnb
  have hkeeps := keeps_minimal hr.sound fun t ht => (hts t ht).1
  have hs := hkeeps.sound
  have hgrows := hkeeps.grows
  have hpost := hkeeps.post m? (by rw [hrun])
  rw [hrun] at hs hgrows
  obtain ⟨m, rfl⟩ : ∃ m, m? = some m := by
    cases m? with
    | none => exact absurd hpost hne
    | some m => exact ⟨m, rfl⟩
  have hstored := chosen_of_choose ((minimal_ok_iff hne hnb).mp hrun)
  have hlargest := LargestClass.of_minimal hs hne
    (fun t ht => ⟨(hts t ht).1.mono hgrows, hnb t ht⟩) hstored
  refine ⟨m, r₁, hrun, ?_, hlargest.contained, fun name hname => ?_, fun r₂ hhist us hus => ?_⟩
  · obtain ⟨name, hname, c, hrep, hc⟩ := hlargest.isClass
    exact ⟨name, hname, c, hrep r₁ (.refl r₁), hc⟩
  · obtain ⟨c, hrep, hle⟩ := hlargest.largest name hname
    refine ⟨c, hrep r₁ (.refl r₁), hle, fun hc => ?_⟩
    exact hlargest.eq_common (hle fun t ht p hp => (hc p).mp hp t ht) hc
  · have hne_us : us ≠ [] := by
      obtain ⟨t, ht⟩ := List.exists_mem_of_ne_nil ts hne
      exact List.ne_nil_of_mem ((hus t).mpr ht)
    refine (minimal_ok_iff hne_us fun t ht => hnb t ((hus t).mp ht)).mpr ?_
    refine replays_choose ?_ r₂ (hhist.sound_extends hs).2
    rw [choiceKey_distinctTypes hus, hstored]

theorem minimal_of_turns_and_flip : ∃ turns flip r₁ r₂,
    runFrom (rotate .vonNeumann 4) {} = (.ok turns, r₁) ∧
    runFrom (reflect .vonNeumann "N" "S") r₁ = (.ok flip, r₂) ∧ r₂.Reachable ∧
    (∀ t ∈ [turns, flip], r₂.Knows t ∧ t.neighborhood = .vonNeumann) ∧
    ∃ m r₃, runFrom (minimal [turns, flip]) r₂ = (.ok (some m), r₃) ∧
      m.relabelings ⊆ turns.relabelings ∧ m.relabelings ⊆ flip.relabelings ∧
      ∀ r₄, History r₃ r₄ → runFrom (minimal [flip, turns, flip]) r₄ = (.ok (some m), r₄) := by
  obtain ⟨turns, r₁, hturns⟩ : Succeeds {} (rotate .vonNeumann 4) := succeeds_rotate rfl
  obtain ⟨flip, r₂, hflip⟩ : Succeeds r₁ (reflect .vonNeumann "N" "S") := succeeds_reflect rfl
  have hreached : r₂.Reachable := by
    have h := (History.start (r := {})).ask (.rotate .vonNeumann 4) (by simp [Request.types])
    have h' := h.ask (.reflect .vonNeumann "N" "S") (by simp [Request.types])
    simp only [after, hturns, hflip] at h'
    exact h'
  have hkturns := keeps_rotate sound_empty .vonNeumann 4
  have hs₁ := hkturns.sound
  have hyturns := hkturns.post turns (by rw [hturns])
  rw [hturns] at hs₁ hyturns
  have hkflip := keeps_reflect hs₁ .vonNeumann "N" "S"
  have hgrows := hkflip.grows
  have hyflip := hkflip.post flip (by rw [hflip])
  rw [hflip] at hgrows hyflip
  have hts : ∀ t ∈ [turns, flip], r₂.Knows t ∧ t.neighborhood = .vonNeumann := by
    intro t ht
    rcases List.mem_pair.mp ht with rfl | rfl
    · exact ⟨hyturns.1.mono hgrows, hyturns.2.1⟩
    · exact ⟨hyflip.1, hyflip.2.1⟩
  obtain ⟨m, r₃, hrun, -, hsub, -, hstays⟩ :=
    minimal_is_largest_common_class hreached (List.cons_ne_nil _ _) hts
  refine ⟨turns, flip, r₁, r₂, hturns, hflip, hreached, hts, m, r₃, hrun, hsub turns (by simp),
    hsub flip (by simp), fun r₄ h => hstays r₄ h _ fun t => ?_⟩
  simp only [List.mem_cons, List.not_mem_nil, or_false]
  tauto

end Registry

end RuleTable
