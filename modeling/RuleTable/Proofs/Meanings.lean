import RuleTable.Proofs.Declarations
import RuleTable.Proofs.Spans

/-!
What the name of a type means.

In every sound registry types of one name have the same relabelings, although a class and a
primitive may share a name, and although a composition is stored under the sorted names of parts
that can have been any types of these names. A name is made of the names of the parts, which are
shorter, and they can be read off it.
-/

namespace RuleTable.Registry

open Relabeling

variable {r r' : Registry} {nb : Neighborhood} {t t' : Symmetry} {name label : String}
  {p : Presentation}

/-! ### How names tell what was made -/

/-- What is not a class is labelled with the name it is stored under. -/
lemma Made.root_or_class (h : Made r nb name label p) :
    (name = label ∧ ∀ text, name ≠ "class:" ++ text) ∨
      ∃ recipe base, nb.recipe? label = some recipe ∧ Replays (prepare nb recipe) r base ∧
        r.Knows base ∧ base.neighborhood = nb ∧ p = base.groupAround := by
  have hhead : name.toList.take 2 ≠ ['c', 'l'] → ∀ text, name ≠ "class:" ++ text := by
    rintro hne text rfl
    simp at hne
  cases h with
  | none => exact .inl ⟨rfl, hhead (by decide)⟩
  | rotate h => exact .inl ⟨rfl, hhead (by simp)⟩
  | reflect h => exact .inl ⟨rfl, hhead (by simp)⟩
  | permute hsorted hlt =>
    refine .inl ⟨rfl, hhead ?_⟩
    unfold permuteName
    split <;> simp
  | compose hne h => exact .inl ⟨rfl, hhead (by simp)⟩
  | combine hne h => exact .inl ⟨rfl, hhead (by simp)⟩
  | named hrec hb hk hnb => exact .inr ⟨_, _, hrec, hb, hk, hnb, rfl⟩

/-- A type is stored under its own name, or it is a class. -/
lemma Sound.root_or_class (hr : r.Sound) (ht : r.Knows t) :
    Made r t.neighborhood t.name t.name t.presentation ∨
      ∃ recipe base, t.neighborhood.recipe? t.name = some recipe ∧
        Replays (prepare t.neighborhood recipe) r base ∧ r.Knows base ∧
        base.neighborhood = t.neighborhood ∧ t.presentation = base.groupAround := by
  obtain ⟨name, -, hm⟩ := hr.made t ht
  refine hm.root_or_class.imp_left fun h => ?_
  rwa [h.1] at hm

lemma class_name (h : nb.recipe? name = some recipe) : '(' ∉ name.toList := by
  have hall : ∀ c ∈ nb.classes, '(' ∉ c.1.toList := by cases nb <;> decide
  exact hall _ (mem_of_lookup h)

def positionLabel (nb : Neighborhood) (i : ℕ) : String := (nb.directions.getD i .c).label

lemma permuteName_of_lt {positions : List ℕ} (hlt : ∀ i ∈ positions, i < nb.size)
    (h : positions.length ≠ nb.size) :
    permuteName nb positions =
      "permute(" ++ ",".intercalate (positions.map (positionLabel nb)) ++ ")" := by
  have hlabels : positions.filterMap (fun i => nb.directions[i]?.map (·.label)) =
      positions.map (positionLabel nb) := by
    rw [← List.filterMap_eq_map]
    refine List.filterMap_congr fun i hi => ?_
    have hi : i < nb.directions.length := hlt i hi
    simp [positionLabel, List.getElem?_eq_getElem hi]
  rw [permuteName, if_neg h, hlabels]

lemma eq_range_of_sorted {positions : List ℕ} {n : ℕ} (hsorted : positions.Pairwise (· < ·))
    (hlt : ∀ i ∈ positions, i < n) (h : positions.length = n) : positions = List.range n := by
  have hnodup : positions.Nodup := hsorted.imp ne_of_lt
  have hsub : positions ⊆ List.range n := fun i hi => List.mem_range.mpr (hlt i hi)
  have hperm := (hnodup.subperm hsub).perm_of_length_le (by simp [h])
  exact hperm.eq_of_pairwise (fun a b _ _ hab hba => absurd hba (by omega)) hsorted
    List.pairwise_lt_range

lemma permuteName_inj {positions positions' : List ℕ} (hsorted : positions.Pairwise (· < ·))
    (hlt : ∀ i ∈ positions, i < nb.size) (hsorted' : positions'.Pairwise (· < ·))
    (hlt' : ∀ i ∈ positions', i < nb.size)
    (h : permuteName nb positions = permuteName nb positions') : positions = positions' := by
  have hlabel : ∀ i < nb.size, ',' ∉ (positionLabel nb i).toList ∧ positionLabel nb i ≠ "" := by
    cases nb <;> decide
  have hinj : ∀ i < nb.size, ∀ j < nb.size, positionLabel nb i = positionLabel nb j → i = j := by
    cases nb <;> decide
  have hfull : ∀ {ps ps' : List ℕ}, (∀ i ∈ ps', i < nb.size) → ps.length = nb.size →
      ps'.length ≠ nb.size → permuteName nb ps ≠ permuteName nb ps' := by
    intro ps ps' hlt' hlen hlen' he
    rw [permuteName, if_pos hlen, permuteName_of_lt hlt' hlen'] at he
    have htake := congrArg (List.take 8 ∘ String.toList) he
    simp at htake
  by_cases hlen : positions.length = nb.size <;> by_cases hlen' : positions'.length = nb.size
  · rw [eq_range_of_sorted hsorted hlt hlen, eq_range_of_sorted hsorted' hlt' hlen']
  · exact absurd h (hfull hlt' hlen hlen')
  · exact absurd h.symm (hfull hlt hlen' hlen)
  · rw [permuteName_of_lt hlt hlen, permuteName_of_lt hlt' hlen'] at h
    have htext : ",".intercalate (positions.map (positionLabel nb)) =
        ",".intercalate (positions'.map (positionLabel nb)) := by simpa using h
    have hmap : positions.map (positionLabel nb) = positions'.map (positionLabel nb) := by
      have hparts : ∀ {ps : List ℕ}, (∀ i ∈ ps, i < nb.size) →
          ∀ s ∈ ps.map (positionLabel nb), ',' ∉ s.toList ∧ s ≠ "" := by
        intro ps hlt s hs
        obtain ⟨i, hi, rfl⟩ := List.mem_map.mp hs
        exact hlabel i (hlt i hi)
      by_cases hne : positions.map (positionLabel nb) = []
      · by_contra hne'
        rw [hne] at htext hne'
        exact intercalate_ne_empty (Ne.symm hne') (fun s hs => (hparts hlt' s hs).2) htext.symm
      · by_cases hne' : positions'.map (positionLabel nb) = []
        · rw [hne'] at htext
          exact absurd htext (intercalate_ne_empty hne fun s hs => (hparts hlt s hs).2)
        · exact intercalate_inj rfl hne hne' (fun s hs => (hparts hlt s hs).1)
            (fun s hs => (hparts hlt' s hs).1) htext
    refine List.ext_getElem (by simpa using congrArg List.length hmap) fun k hk hk' => ?_
    refine hinj _ (hlt _ (List.getElem_mem hk)) _ (hlt' _ (List.getElem_mem hk')) ?_
    simpa [hk, hk'] using congrArg (·[k]?) hmap

lemma Made.permutation {positions : List ℕ} (hsorted : positions.Pairwise (· < ·))
    (hlt : ∀ i ∈ positions, i < nb.size) (h : Made r nb (permuteName nb positions) label p) :
    p = .free (if positions.length > 1 then [positions] else []) := by
  generalize hn : permuteName nb positions = name at h
  have htake := congrArg (List.take 4 ∘ String.toList) hn
  have hhead : (permuteName nb positions).toList.take 4 = "perm".toList := by
    unfold permuteName
    split <;> simp
  rw [Function.comp_apply, hhead] at htake
  cases h with
  | permute hsorted' hlt' => rw [permuteName_inj hsorted hlt hsorted' hlt' hn]
  | none | rotate | reflect | compose | combine | named => simp at htake

lemma Made.composed {names : String} (h : Made r nb ("compose(" ++ names ++ ")") label p) :
    ∃ ts, ts ≠ [] ∧ (∀ t ∈ ts, r.Knows t ∧ t.neighborhood = nb) ∧ sortedNames ts = names ∧
      p = composition ts := by
  generalize hn : "compose(" ++ names ++ ")" = name at h
  have htake := congrArg (List.take 4 ∘ String.toList) hn
  cases h with
  | compose hne h => exact ⟨_, hne, h, by simpa using hn.symm, rfl⟩
  | permute hsorted hlt =>
    unfold permuteName at htake
    split at htake <;> simp at htake
  | none | rotate | reflect | combine | named => simp at htake

lemma Made.combined {names : String} (h : Made r nb ("combine(" ++ names ++ ")") label p) :
    ∃ ts, ts ≠ [] ∧ (∀ t ∈ ts, r.Knows t ∧ t.neighborhood = nb) ∧ sortedNames ts = names ∧
      p = .listed (ts.flatMap (·.relabelings)) := by
  generalize hn : "combine(" ++ names ++ ")" = name at h
  have htake := congrArg (List.take 4 ∘ String.toList) hn
  cases h with
  | combine hne h => exact ⟨_, hne, h, by simpa using hn.symm, rfl⟩
  | permute hsorted hlt =>
    unfold permuteName at htake
    split at htake <;> simp at htake
  | none | rotate | reflect | compose | named => simp at htake

/-! ### Types of one name: primitives -/

/-- What an earlier result would be again, it was. -/
lemma Replays.post {α : Type} {act : RegistryM α} {a : α} {post : Registry → α → Prop}
    (h : Replays act r a) (hk : Keeps r act post) : post r a := by
  have hrun := h r (.refl r)
  have := hk.post a (by rw [hrun])
  rwa [hrun] at this

lemma Sound.trivial_of_name (hr : r.Sound) (ht : r.Knows t) (h : t.name = "none") :
    t.presentation = .generated [] := by
  rcases hr.root_or_class ht with hm | ⟨recipe, base, hrec, hrep, -, -, hp⟩ <;> rw [h] at *
  · exact hm.trivial
  · obtain rfl : recipe = .none := by
      cases hnb : t.neighborhood <;> rw [hnb] at hrec <;> exact (Option.some.inj hrec).symm
    have hb := ((hrep.post (stores_none hr _)).made hr).trivial
    rw [hp, Symmetry.groupAround_eq (hb ▸ trivial), hb]

/-- A class that is named like rotations is made of them. -/
lemma recipe_of_rotate {ways : ℤ} {recipe : Recipe}
    (h : nb.recipe? s!"rotate{ways}" = some recipe) : recipe = .rotate ways := by
  have hclasses : ∀ c ∈ nb.classes, c.1.toList.take 6 ≠ "rotate".toList ∨
      'r' ∈ c.1.toList.drop 6 ∨ ∃ k ∈ [(2 : ℤ), 3, 4, 6, 8], c = (s!"rotate{k}", .rotate k) := by
    cases nb <;> simp [Neighborhood.classes] <;> decide
  rcases hclasses _ (mem_of_lookup h) with hc | hc | ⟨k, -, hk⟩
  · simp at hc
  · have hc : 'r' ∈ (toString ways).toList := by simpa using hc
    exact absurd (mem_toString_int hc) (by decide)
  · obtain ⟨hname, rfl⟩ := Prod.mk.inj hk
    rw [toString_int_inj (z := ways) (w := k) (by simpa using hname)]

lemma Sound.rotations_of_name (hr : r.Sound) (ht : r.Knows t) {ways : ℤ}
    (h : t.name = s!"rotate{ways}") : ∃ rotations, t.neighborhood.rotationsBy ways = .ok rotations ∧
      t.presentation = .generated rotations := by
  rcases hr.root_or_class ht with hm | ⟨recipe, base, hrec, hrep, -, -, hp⟩ <;> rw [h] at *
  · exact hm.rotations
  · obtain rfl := recipe_of_rotate hrec
    obtain ⟨rotations, hrot, hb⟩ := ((hrep.post (stores_rotate hr _ _)).made hr).rotations
    rw [hp, Symmetry.groupAround_eq (hb ▸ trivial), hb]
    exact ⟨rotations, hrot, rfl⟩

lemma Sound.reflection_of_name (hr : r.Sound) (ht : r.Knows t) {a b : String} (ha : ',' ∉ a.toList)
    (h : t.name = s!"reflect({a},{b})") : ∃ q, t.neighborhood.reflectAcross a b = .ok q ∧
      t.presentation = .generated [q] := by
  rcases hr.root_or_class ht with hm | ⟨recipe, base, hrec, -⟩ <;> rw [h] at *
  · exact hm.reflection ha
  · exact absurd (by simp) (class_name hrec)

lemma Sound.permutation_of_name (hr : r.Sound) (ht : r.Knows t) {positions : List ℕ}
    (hsorted : positions.Pairwise (· < ·)) (hlt : ∀ i ∈ positions, i < t.neighborhood.size)
    (h : t.name = permuteName t.neighborhood positions) :
    t.presentation = .free (if positions.length > 1 then [positions] else []) := by
  rcases hr.root_or_class ht with hm | ⟨recipe, base, hrec, hrep, -, -, hp⟩ <;> rw [h] at *
  · exact hm.permutation hsorted hlt
  · by_cases hlen : positions.length = t.neighborhood.size
    · obtain rfl : recipe = .permute := by
        rw [permuteName, if_pos hlen] at hrec
        cases hnb : t.neighborhood <;> rw [hnb] at hrec <;> exact (Option.some.inj hrec).symm
      obtain ⟨positions', hpos, hstands⟩ := hrep.post (stores_permute hr _ [])
      obtain rfl : List.range t.neighborhood.size = positions' := Except.ok.inj hpos
      rw [← eq_range_of_sorted hsorted hlt hlen] at hstands
      have hb := (hstands.made hr).permutation hsorted hlt
      rw [hp, Symmetry.groupAround_eq (hb ▸ trivial), hb]
    · rw [permuteName_of_lt hlt hlen] at hrec
      exact absurd (by simp) (class_name hrec)

/-! ### Names of parts -/

lemma length_le_intercalate {sep : String} {parts : List String} {s : String} (h : s ∈ parts) :
    s.length ≤ (sep.intercalate parts).length := by
  rw [← String.length_toList, ← String.length_toList, String.toList_intercalate]
  induction parts with
  | nil => cases h
  | cons s' parts ih =>
    cases parts with
    | nil => simp [List.mem_singleton.mp h]
    | cons s'' parts =>
      rw [List.map_cons, List.map_cons, List.intercalate_cons_cons, List.length_append,
        List.length_append]
      rcases List.mem_cons.mp h with rfl | h
      · omega
      · have := ih h
        rw [List.map_cons] at this
        omega

lemma mem_names {ts : List Symmetry} {name : String} :
    name ∈ (ts.map (·.name)).eraseDups.mergeSort ↔ ∃ t ∈ ts, t.name = name := by
  rw [(List.mergeSort_perm _ _).mem_iff, List.mem_eraseDups, List.mem_map]

lemma length_le_sortedNames {ts : List Symmetry} (ht : t ∈ ts) :
    t.name.length ≤ (sortedNames ts).length :=
  length_le_intercalate (mem_names.mpr ⟨t, ht, rfl⟩)

lemma Made.nested (h : Made r nb name label p)
    (hparts : ∀ u, r.Knows u → u.name.length < label.length → Nested u.name) : Nested label := by
  have hnames : ∀ {ts : List Symmetry}, (∀ t ∈ ts, r.Knows t ∧ t.neighborhood = nb) →
      (sortedNames ts).length < label.length →
      ∀ s ∈ (ts.map (·.name)).eraseDups.mergeSort, Nested s := by
    intro ts hts hlt s hs
    obtain ⟨u, hu, rfl⟩ := mem_names.mp hs
    exact hparts u (hts u hu).1 ((length_le_sortedNames hu).trans_lt hlt)
  cases h with
  | none => decide
  | @rotate ways rotations h =>
    refine nesting_of_plain (fun c hc => ?_) 0
    simp only [toString_string, String.toList_append, List.mem_append] at hc
    rcases hc with hc | hc
    · have hplain : '(' ∉ "rotate".toList ∧ ')' ∉ "rotate".toList ∧
        ',' ∉ "rotate".toList := by decide
      refine ⟨?_, ?_, ?_⟩ <;> rintro rfl
      exacts [hplain.1 hc, hplain.2.1 hc, hplain.2.2 hc]
    · rcases mem_toString_int hc with hc | rfl
      · refine ⟨?_, ?_, ?_⟩ <;> rintro rfl <;> revert hc <;> decide
      · decide
  | reflect h =>
    obtain ⟨⟨d, rfl⟩, ⟨d', rfl⟩⟩ := isLabel_of_reflectAcross h
    cases d <;> cases d' <;> decide
  | @permute positions hsorted hlt =>
    have hlabel : ∀ i < nb.size, Nested (positionLabel nb i) := by cases nb <;> decide
    by_cases hlen : positions.length = nb.size
    · rw [permuteName, if_pos hlen]
      decide
    · rw [permuteName_of_lt hlt hlen]
      refine nested_of_parts (by decide) fun s hs => ?_
      obtain ⟨i, hi, rfl⟩ := List.mem_map.mp hs
      exact hlabel i (hlt i hi)
  | compose hne h =>
    refine nested_of_parts (by decide) (hnames h ?_)
    simp only [String.length_append]
    have : 0 < "compose(".length := by decide
    omega
  | combine hne h =>
    refine nested_of_parts (by decide) (hnames h ?_)
    simp only [String.length_append]
    have : 0 < "combine(".length := by decide
    omega
  | named hrec hb hk hnb =>
    have hall : ∀ c ∈ nb.classes, Nested c.1 := by cases nb <;> decide
    exact hall _ (mem_of_lookup hrec)

/-- Names of types close their parentheses. -/
lemma Sound.nested (hr : r.Sound) (ht : r.Knows t) : Nested t.name := by
  induction hn : t.name.length using Nat.strong_induction_on generalizing t with
  | _ n ih =>
    obtain ⟨name, -, hm⟩ := hr.made t ht
    exact hm.nested fun u hu hlt => ih _ (hn ▸ hlt) hu rfl

/-- Parts whose names make the same text have the same names. -/
lemma names_of_sortedNames_eq (hr : r.Sound) (hr' : r'.Sound) {ts us : List Symmetry}
    (hts : ∀ t ∈ ts, r.Knows t) (hus : ∀ u ∈ us, r'.Knows u) (hne : ts ≠ []) (hne' : us ≠ [])
    (h : sortedNames ts = sortedNames us) : ∀ t ∈ ts, ∃ u ∈ us, u.name = t.name := by
  have hnonempty : ∀ {ts : List Symmetry}, ts ≠ [] →
      (ts.map (·.name)).eraseDups.mergeSort ≠ [] := by
    intro ts hne
    obtain ⟨t, ht⟩ := List.exists_mem_of_ne_nil ts hne
    exact List.ne_nil_of_mem (mem_names.mpr ⟨t, ht, rfl⟩)
  have hnested : ∀ {r : Registry} {ts : List Symmetry}, r.Sound → (∀ t ∈ ts, r.Knows t) →
      ∀ s ∈ (ts.map (·.name)).eraseDups.mergeSort, Nested s := by
    intro r ts hr hts s hs
    obtain ⟨t, ht, rfl⟩ := mem_names.mp hs
    exact hr.nested (hts t ht)
  have hparts := nested_intercalate_inj (hnonempty hne) (hnonempty hne') (hnested hr hts)
    (hnested hr' hus) h
  intro t ht
  exact mem_names.mp (hparts ▸ mem_names.mpr ⟨t, ht, rfl⟩)

/-! ### Types of one name: classes -/

/-- Stored under its own name is only a class that is named like what it is made of. -/
lemma Made.recipe_of_root (h : Made r nb name label p) (hroot : name = label) {recipe : Recipe}
    (hrec : nb.recipe? label = some recipe) :
    recipe = .none ∨ recipe = .permute ∨ ∃ ways, recipe = .rotate ways := by
  have hclass := class_name hrec
  cases h with
  | none =>
    left
    cases nb <;> exact (Option.some.inj hrec).symm
  | rotate h => exact .inr (.inr ⟨_, recipe_of_rotate hrec⟩)
  | reflect h => simp at hclass
  | @permute positions hsorted hlt =>
    by_cases hlen : positions.length = nb.size
    · rw [permuteName, if_pos hlen] at hrec
      exact .inr (.inl (by cases nb <;> exact (Option.some.inj hrec).symm))
    · rw [permuteName_of_lt hlt hlen] at hclass
      simp at hclass
  | compose hne h => simp at hclass
  | combine hne h => simp at hclass
  | named hrec' hb hk hnb =>
    have hlen := congrArg String.length hroot
    have hpos : 0 < "class:".length := by decide
    rw [String.length_append] at hlen
    omega

/-- A class of another recipe is stored as one. -/
lemma Sound.base_of_class (hr : r.Sound) (ht : r.Knows t) {recipe : Recipe}
    (hrec : t.neighborhood.recipe? t.name = some recipe) (hne : recipe ≠ .none)
    (hne' : recipe ≠ .permute) (hne'' : ∀ ways, recipe ≠ .rotate ways) :
    ∃ base, Replays (prepare t.neighborhood recipe) r base ∧ t.presentation = base.groupAround := by
  rcases hr.root_or_class ht with hm | ⟨recipe', base, hrec', hrep, -, -, hp⟩
  · rcases hm.recipe_of_root rfl hrec with h | h | ⟨ways, h⟩
    exacts [absurd h hne, absurd h hne', absurd h (hne'' ways)]
  · obtain rfl : recipe = recipe' := Option.some.inj (hrec.symm.trans hrec')
    exact ⟨base, hrep, hp⟩

lemma Sound.reflection_of_class (hr : r.Sound) (ht : r.Knows t) {a b : Direction}
    (hrec : t.neighborhood.recipe? t.name = some (.reflect a b)) :
    ∃ q, t.neighborhood.reflectAcross a.label b.label = .ok q ∧
      t.presentation = .generated [q] := by
  obtain ⟨base, hrep, hp⟩ := hr.base_of_class ht hrec nofun nofun nofun
  obtain ⟨q, hq, hb⟩ := ((hrep.post (stores_reflect hr _ _ _)).made hr).reflection
    (IsLabel.comma_notMem ⟨a, rfl⟩)
  rw [hp, Symmetry.groupAround_eq (hb ▸ trivial), hb]
  exact ⟨q, hq, rfl⟩

lemma Stands.name_eq (h : Stands r nb name t) (hr : r.Sound)
    (hname : name.toList.take 2 ≠ ['c', 'l']) : t.name = name := by
  rw [(h.made hr).label_eq, labelOf, if_neg hname]

/-- Rotations and a reflection are composed under their names. -/
lemma stores_rotateReflect (hr : r.Sound) (nb : Neighborhood) (ways : ℤ) (a b : Direction) :
    Keeps r (prepare nb (.rotateReflect ways a b)) fun r' t => ∃ turns flip,
      r'.Knows turns ∧ turns.name = s!"rotate{ways}" ∧
      r'.Knows flip ∧ flip.name = s!"reflect({a.label},{b.label})" ∧
      Stands r' nb ("compose(" ++ sortedNames [turns, flip] ++ ")") t := by
  refine (stores_rotate hr nb ways).bind fun turns r₁ hr₁ _ hturns => ?_
  refine (stores_reflect hr₁ nb _ _).bind fun flip r₂ hr₂ hext hflip => ?_
  have hparts : ∀ t ∈ [turns, flip], r₂.Knows t ∧ t.neighborhood = nb := by
    intro t ht
    rcases List.mem_pair.mp ht with rfl | rfl
    · exact ⟨hturns.knows.mono hext, hturns.neighborhood⟩
    · exact ⟨hflip.knows, hflip.neighborhood⟩
  refine (stores_compose hr₂ hparts).imp fun r₃ t hext' hr₃ ht => ?_
  refine ⟨turns, flip, (hturns.knows.mono hext).mono hext', hturns.name_eq hr₁ (by simp),
    hflip.knows.mono hext', hflip.name_eq hr₂ (by simp), ht.resolve_left ?_⟩
  exact fun h => by cases h

lemma Sound.composition_of_class (hr : r.Sound) (ht : r.Knows t) {ways : ℤ} {a b : Direction}
    (hrec : t.neighborhood.recipe? t.name = some (.rotateReflect ways a b)) :
    ∃ ts, t.presentation = composition ts ∧
      (∀ u ∈ ts, r.Knows u ∧ u.neighborhood = t.neighborhood) ∧
      ∀ name, (∃ u ∈ ts, u.name = name) ↔
        name = s!"rotate{ways}" ∨ name = s!"reflect({a.label},{b.label})" := by
  obtain ⟨base, hrep, hp⟩ := hr.base_of_class ht hrec nofun nofun nofun
  obtain ⟨turns, flip, hturns, hturnsName, hflip, hflipName, hstands⟩ :=
    hrep.post (stores_rotateReflect hr _ ways a b)
  obtain ⟨ts, hne, hts, hnames, hb⟩ := (hstands.made hr).composed
  have hknown : ∀ u ∈ [turns, flip], r.Knows u := by simp [hturns, hflip]
  refine ⟨ts, ?_, hts, fun name => ⟨?_, ?_⟩⟩
  · rw [hp, Symmetry.groupAround_eq (hb ▸ closed_composition ts), hb]
  · rintro ⟨u, hu, rfl⟩
    obtain ⟨v, hv, hvu⟩ := names_of_sortedNames_eq hr hr (fun t ht => (hts t ht).1) hknown hne
      (List.cons_ne_nil _ _) hnames u hu
    rcases List.mem_pair.mp hv with rfl | rfl
    · exact .inl (hvu.symm.trans hturnsName)
    · exact .inr (hvu.symm.trans hflipName)
  · have hback := names_of_sortedNames_eq hr hr hknown (fun t ht => (hts t ht).1)
      (List.cons_ne_nil _ _) hne hnames.symm
    rintro (rfl | rfl)
    · exact hturnsName ▸ hback turns (by simp)
    · exact hflipName ▸ hback flip (by simp)

/-! ### Relations between types of one name -/

section

/-- The parts have the same names, and those of one name are related. -/
structure Matched (R : Symmetry → Symmetry → Prop) (ts us : List Symmetry) : Prop where
  left : ∀ t ∈ ts, ∃ u ∈ us, u.name = t.name
  right : ∀ u ∈ us, ∃ t ∈ ts, t.name = u.name
  rel : ∀ t ∈ ts, ∀ u ∈ us, t.name = u.name → R t u

/-- The relation is passed on from the parts to what is made of them, and holds of what is made
without parts. -/
structure Inherited (r r' : Registry) (R : Symmetry → Symmetry → Prop) : Prop where
  same : ∀ {t t' : Symmetry}, t.neighborhood = t'.neighborhood →
    t.presentation = t'.presentation → R t t'
  composed : ∀ {t t' : Symmetry} {ts us : List Symmetry}, t.neighborhood = t'.neighborhood →
    (∀ u ∈ ts, r.Knows u ∧ u.neighborhood = t.neighborhood) →
    (∀ u ∈ us, r'.Knows u ∧ u.neighborhood = t'.neighborhood) →
    t.presentation = composition ts → t'.presentation = composition us → Matched R ts us → R t t'
  combined : ∀ {t t' : Symmetry} {ts us : List Symmetry}, t.neighborhood = t'.neighborhood →
    t.presentation = .listed (ts.flatMap (·.relabelings)) →
    t'.presentation = .listed (us.flatMap (·.relabelings)) → Matched R ts us → R t t'

variable (hr : r.Sound) (hr' : r'.Sound) (ht : r.Knows t) (ht' : r'.Knows t')
  (hnb : t.neighborhood = t'.neighborhood) (hname : t.name = t'.name)

include hr hr' ht ht' hname

lemma presentation_eq_of_trivial (h : t.name = "none") : t.presentation = t'.presentation :=
  (hr.trivial_of_name ht h).trans (hr'.trivial_of_name ht' (hname ▸ h)).symm

include hnb

lemma presentation_eq_of_rotations {ways : ℤ} (h : t.name = s!"rotate{ways}") :
    t.presentation = t'.presentation := by
  obtain ⟨rotations, hrot, hp⟩ := hr.rotations_of_name ht h
  obtain ⟨rotations', hrot', hp'⟩ := hr'.rotations_of_name ht' (hname ▸ h)
  rw [← hnb, hrot] at hrot'
  rw [hp, hp', Except.ok.inj hrot']

lemma presentation_eq_of_reflection {a b : String} (ha : ',' ∉ a.toList)
    (h : t.name = s!"reflect({a},{b})") : t.presentation = t'.presentation := by
  obtain ⟨q, hq, hp⟩ := hr.reflection_of_name ht ha h
  obtain ⟨q', hq', hp'⟩ := hr'.reflection_of_name ht' ha (hname ▸ h)
  rw [← hnb, hq] at hq'
  rw [hp, hp', Except.ok.inj hq']

lemma presentation_eq_of_permutations {positions : List ℕ} (hsorted : positions.Pairwise (· < ·))
    (hlt : ∀ i ∈ positions, i < t.neighborhood.size)
    (h : t.name = permuteName t.neighborhood positions) : t.presentation = t'.presentation := by
  have hp := hr.permutation_of_name ht hsorted hlt h
  rw [hname, hnb] at h
  rw [hnb] at hlt
  exact hp.trans (hr'.permutation_of_name ht' hsorted hlt h).symm

/-- Types with the name of a class are related. -/
lemma Inherited.of_class {R : Symmetry → Symmetry → Prop} (hR : Inherited r r' R) {recipe : Recipe}
    (hrec : t.neighborhood.recipe? t.name = some recipe) : R t t' := by
  have hrec' : t'.neighborhood.recipe? t'.name = some recipe := by rwa [← hnb, ← hname]
  have hclass := mem_of_lookup hrec
  cases recipe with
  | none =>
    have hall : ∀ c ∈ t.neighborhood.classes, c.2 = .none → c.1 = "none" := by
      cases t.neighborhood <;> decide
    exact hR.same hnb (presentation_eq_of_trivial hr hr' ht ht' hname (hall _ hclass rfl))
  | rotate ways =>
    have hall : ∀ c ∈ t.neighborhood.classes, match c.2 with
        | .rotate ways => c.1 = s!"rotate{ways}"
        | _ => True := by
      cases t.neighborhood <;> simp [Neighborhood.classes] <;> decide
    exact hR.same hnb (presentation_eq_of_rotations hr hr' ht ht' hnb hname (hall _ hclass))
  | reflect a b =>
    obtain ⟨q, hq, hp⟩ := hr.reflection_of_class ht hrec
    obtain ⟨q', hq', hp'⟩ := hr'.reflection_of_class ht' hrec'
    rw [← hnb, hq] at hq'
    exact hR.same hnb (by rw [hp, hp', Except.ok.inj hq'])
  | rotateReflect ways a b =>
    obtain ⟨ts, hp, hts, hnames⟩ := hr.composition_of_class ht hrec
    obtain ⟨us, hp', hus, hnames'⟩ := hr'.composition_of_class ht' hrec'
    refine hR.composed hnb hts hus hp hp' ⟨?_, ?_, ?_⟩
    · exact fun u hu => (hnames' _).mpr ((hnames _).mp ⟨u, hu, rfl⟩)
    · exact fun u hu => (hnames _).mpr ((hnames' _).mp ⟨u, hu, rfl⟩)
    · intro u hu v hv huv
      obtain ⟨hku, hnbu⟩ := hts u hu
      obtain ⟨hkv, hnbv⟩ := hus v hv
      have hnb' : u.neighborhood = v.neighborhood := by rw [hnbu, hnbv, hnb]
      refine hR.same hnb' ?_
      rcases (hnames _).mp ⟨u, hu, rfl⟩ with h | h
      · exact presentation_eq_of_rotations hr hr' hku hkv hnb' huv h
      · exact presentation_eq_of_reflection hr hr' hku hkv hnb' huv
          (IsLabel.comma_notMem ⟨a, rfl⟩) h
  | permute =>
    have hall : ∀ c ∈ t.neighborhood.classes, c.2 = .permute → c.1 = "permute" := by
      cases t.neighborhood <;> decide
    refine hR.same hnb (presentation_eq_of_permutations hr hr' ht ht' hnb hname
      List.pairwise_lt_range (fun i hi => List.mem_range.mp hi) ?_)
    rw [permuteName, if_pos List.length_range]
    exact hall _ hclass rfl

end

lemma Sound.root_of_paren (hr : r.Sound) (ht : r.Knows t) (h : '(' ∈ t.name.toList) :
    Made r t.neighborhood t.name t.name t.presentation :=
  (hr.root_or_class ht).resolve_right fun ⟨_, _, hrec, _⟩ => class_name hrec h

/-- **Types of one name** and neighborhood, in sound registries, have every relation that is passed
on from parts. -/
lemma Inherited.of_name_eq {R : Symmetry → Symmetry → Prop} (hR : Inherited r r' R) (hr : r.Sound)
    (hr' : r'.Sound) (ht : r.Knows t) (ht' : r'.Knows t')
    (hnb : t.neighborhood = t'.neighborhood) (hname : t.name = t'.name) : R t t' := by
  -- the names of parts are shorter than that of the whole
  induction hn : t.name.length using Nat.strong_induction_on generalizing t t' with
  | _ n ih =>
    have hparts : ∀ {ts us : List Symmetry}, (sortedNames ts).length < n →
        (∀ u ∈ ts, r.Knows u ∧ u.neighborhood = t.neighborhood) →
        (∀ u ∈ us, r'.Knows u ∧ u.neighborhood = t'.neighborhood) → ts ≠ [] → us ≠ [] →
        sortedNames us = sortedNames ts → Matched R ts us := by
      intro ts us hlen hts hus hne hne' he
      have hts' := fun u hu => (hts u hu).1
      have hus' := fun u hu => (hus u hu).1
      refine ⟨names_of_sortedNames_eq hr hr' hts' hus' hne hne' he.symm,
        names_of_sortedNames_eq hr' hr hus' hts' hne' hne he, fun u hu v hv huv => ?_⟩
      refine ih _ ((length_le_sortedNames hu).trans_lt hlen) (hts' u hu) (hus' v hv) ?_ huv rfl
      rw [(hts u hu).2, (hus v hv).2, hnb]
    obtain ⟨name, -, hm⟩ := hr.made t ht
    generalize hl : t.name = label at hm
    generalize hp : t.presentation = p at hm
    cases hm with
    | none => exact hR.same hnb (presentation_eq_of_trivial hr hr' ht ht' hname hl)
    | rotate h => exact hR.same hnb (presentation_eq_of_rotations hr hr' ht ht' hnb hname hl)
    | reflect h =>
      exact hR.same hnb (presentation_eq_of_reflection hr hr' ht ht' hnb hname
        (isLabel_of_reflectAcross h).1.comma_notMem hl)
    | permute hsorted hlt =>
      exact hR.same hnb (presentation_eq_of_permutations hr hr' ht ht' hnb hname hsorted hlt hl)
    | @compose ts hne hts =>
      have hroot := hr'.root_of_paren ht' (by simp [← hname, hl])
      rw [← hname, hl] at hroot
      obtain ⟨us, hne', hus, he, hp'⟩ := hroot.composed
      refine hR.composed hnb hts hus hp hp' (hparts ?_ hts hus hne hne' he)
      rw [← hn, hl, String.length_append, String.length_append]
      have : 0 < "compose(".length := by decide
      omega
    | @combine ts hne hts =>
      have hroot := hr'.root_of_paren ht' (by simp [← hname, hl])
      rw [← hname, hl] at hroot
      obtain ⟨us, hne', hus, he, hp'⟩ := hroot.combined
      refine hR.combined hnb hp hp' (hparts ?_ hts hus hne hne' he)
      rw [← hn, hl, String.length_append, String.length_append]
      have : 0 < "combine(".length := by decide
      omega
    | named hrec hb hk hnb' => exact hR.of_class hr hr' ht ht' hnb hname (hl ▸ hrec)

/-- Parts whose names make the same text match. -/
lemma Inherited.matched {R : Symmetry → Symmetry → Prop} (hR : Inherited r r' R) (hr : r.Sound)
    (hr' : r'.Sound) {ts us : List Symmetry} (hts : ∀ t ∈ ts, r.Knows t ∧ t.neighborhood = nb)
    (hus : ∀ u ∈ us, r'.Knows u ∧ u.neighborhood = nb) (hne : ts ≠ []) (hne' : us ≠ [])
    (h : sortedNames ts = sortedNames us) : Matched R ts us where
  left := names_of_sortedNames_eq hr hr' (fun t ht => (hts t ht).1) (fun u hu => (hus u hu).1)
    hne hne' h
  right := names_of_sortedNames_eq hr' hr (fun u hu => (hus u hu).1) (fun t ht => (hts t ht).1)
    hne' hne h.symm
  rel t ht u hu hname := hR.of_name_eq hr hr' (hts t ht).1 (hus u hu).1
    ((hts t ht).2.trans (hus u hu).2.symm) hname

/-! ### A name has one meaning -/

def Alike (t u : Symmetry) : Prop := ∀ p, p ∈ t.relabelings ↔ p ∈ u.relabelings

lemma alike_of_presentation_eq (hnb : t.neighborhood = t'.neighborhood)
    (hp : t.presentation = t'.presentation) : Alike t t' := by
  intro p
  rw [Symmetry.relabelings_eq, Symmetry.relabelings_eq, hnb, hp]

section

variable {ts us : List Symmetry}

lemma mem_relabelings_of_parts (hmatch : ∀ t ∈ ts, ∃ u ∈ us, u.name = t.name)
    (halike : ∀ t ∈ ts, ∀ u ∈ us, t.name = u.name → Alike t u) :
    ts.flatMap (·.relabelings) ⊆ us.flatMap (·.relabelings) := by
  intro q hq
  obtain ⟨t, ht, hq⟩ := List.mem_flatMap.mp hq
  obtain ⟨u, hu, hname⟩ := hmatch t ht
  exact List.mem_flatMap.mpr ⟨u, hu, (halike t ht u hu hname.symm q).mp hq⟩

/-- Parts of the same names with the same meanings have the same relabelings together. -/
lemma Matched.mem_flatMap_relabelings (h : Matched Alike ts us) (q : Relabeling) :
    q ∈ ts.flatMap (·.relabelings) ↔ q ∈ us.flatMap (·.relabelings) :=
  ⟨fun hq => mem_relabelings_of_parts h.left h.rel hq, fun hq => mem_relabelings_of_parts h.right
    (fun u hu t ht hname p => (h.rel t ht u hu hname.symm p).symm) hq⟩

lemma alike_of_composition (hr : r.Sound) (hr' : r'.Sound) (hnb : t.neighborhood = t'.neighborhood)
    (hts : ∀ u ∈ ts, r.Knows u ∧ u.neighborhood = t.neighborhood)
    (hus : ∀ u ∈ us, r'.Knows u ∧ u.neighborhood = t'.neighborhood)
    (hp : t.presentation = composition ts) (hp' : t'.presentation = composition us)
    (hsame : ∀ q, q ∈ ts.flatMap (·.relabelings) ↔ q ∈ us.flatMap (·.relabelings)) :
    Alike t t' := by
  intro q
  rw [Symmetry.relabelings_eq, Symmetry.relabelings_eq, hp, hp',
    mem_composition_iff fun u hu => ⟨hr.valid u (hts u hu).1, (hts u hu).2⟩,
    mem_composition_iff fun u hu => ⟨hr'.valid u (hus u hu).1, (hus u hu).2⟩, hnb]
  exact ⟨Product.mono fun q => (hsame q).mp, Product.mono fun q => (hsame q).mpr⟩

lemma alike_of_listed (hnb : t.neighborhood = t'.neighborhood)
    (hp : t.presentation = .listed (ts.flatMap (·.relabelings)))
    (hp' : t'.presentation = .listed (us.flatMap (·.relabelings)))
    (hsame : ∀ q, q ∈ ts.flatMap (·.relabelings) ↔ q ∈ us.flatMap (·.relabelings)) :
    Alike t t' := by
  intro q
  rw [Symmetry.relabelings_eq, Symmetry.relabelings_eq, hp, hp', hnb]
  simp only [Presentation.members, Relabeling.listed, Distinct.mem_ofList, List.mem_cons, hsame]

end

lemma inherited_alike (hr : r.Sound) (hr' : r'.Sound) : Inherited r r' Alike where
  same := alike_of_presentation_eq
  composed hnb hts hus hp hp' h :=
    alike_of_composition hr hr' hnb hts hus hp hp' h.mem_flatMap_relabelings
  combined hnb hp hp' h := alike_of_listed hnb hp hp' h.mem_flatMap_relabelings

/-- **A name has one meaning:** in all sound registries types of one name and neighborhood have the
same relabelings. -/
lemma alike_of_name_eq (hr : r.Sound) (hr' : r'.Sound) (ht : r.Knows t) (ht' : r'.Knows t')
    (hnb : t.neighborhood = t'.neighborhood) (hname : t.name = t'.name) : Alike t t' :=
  (inherited_alike hr hr').of_name_eq hr hr' ht ht' hnb hname

/-! ### A name tells how positions are permuted -/

def EquallyFree (t u : Symmetry) : Prop := t.isFree = true ↔ u.isFree = true

lemma isFree_iff : t.isFree = true ↔ ∃ groups, t.presentation = .free groups := by
  unfold Symmetry.isFree Symmetry.groups?
  cases t.presentation <;> simp

/-- A composition permutes freely what freely permuting types do. -/
lemma free_composition_iff {ts : List Symmetry} :
    (∃ groups, composition ts = .free groups) ↔ ∀ t ∈ ts, t.isFree = true := by
  have hmapM : (ts.mapM Symmetry.groups?).isSome = true ↔ ∀ t ∈ ts, t.isFree = true := by
    induction ts with
    | nil => simp
    | cons t ts ih =>
      rw [List.forall_mem_cons, ← ih, List.mapM_cons, Symmetry.isFree]
      cases t.groups? <;> cases ts.mapM Symmetry.groups? <;> simp
  rw [← hmapM, composition]
  cases ts.mapM Symmetry.groups? <;> simp

lemma Matched.free_of_free {ts us : List Symmetry} (h : Matched EquallyFree ts us)
    (hts : ∀ t ∈ ts, t.isFree = true) : ∀ u ∈ us, u.isFree = true := by
  intro u hu
  obtain ⟨t, ht, hname⟩ := h.right u hu
  exact (h.rel t ht u hu hname).mp (hts t ht)

lemma Matched.symm {ts us : List Symmetry} (h : Matched EquallyFree ts us) :
    Matched EquallyFree us ts :=
  ⟨h.right, h.left, fun u hu t ht hname => (h.rel t ht u hu hname.symm).symm⟩

lemma inherited_equallyFree (r r' : Registry) : Inherited r r' EquallyFree where
  same _ hp := by rw [EquallyFree, isFree_iff, isFree_iff, hp]
  composed _ _ _ hp hp' h := by
    rw [EquallyFree, isFree_iff, isFree_iff, hp, hp', free_composition_iff, free_composition_iff]
    exact ⟨h.free_of_free, h.symm.free_of_free⟩
  combined _ hp hp' _ := by
    rw [EquallyFree, isFree_iff, isFree_iff, hp, hp']
    simp

end RuleTable.Registry
