import RuleTable.Proofs.Arrangements
import RuleTable.Proofs.Running
import RuleTable.Proofs.Separators

/-!
Orbits, with and without a cache.

What a cache holds is what would be worked out anew, because the key of an entry tells the type and
all of the row that the orbit depends on. So a computation comes to the same result with a cache as
without one, and what follows is said of computations without a cache.
-/

namespace RuleTable

open Relabeling

/-! ### Types whose presentation makes sense -/

/-- The relabelings are permutations of the positions; the groups are disjoint. -/
def Presentation.Valid (n : ℕ) : Presentation → Prop
  | .generated gens => ∀ g ∈ gens, IsPerm n g
  | .listed members => ∀ p ∈ members, IsPerm n p
  | .free groups => Groups.Valid n groups

/-- The type is not given by a mere list. -/
def Presentation.Closed : Presentation → Prop
  | .listed _ => False
  | _ => True

namespace Symmetry

variable {t : Symmetry} {p : Relabeling}

def Valid (t : Symmetry) : Prop := t.presentation.Valid t.neighborhood.size

lemma relabelings_eq (t : Symmetry) :
    t.relabelings = (t.presentation.members t.neighborhood.size).toList := by
  rw [relabelings, t.members_eq]

lemma sound_members (h : t.Valid) : t.members.get.Sound := by
  rw [t.members_eq]
  unfold Valid at h
  cases hp : t.presentation with
  | generated gens => rw [hp] at h; exact sound_closure h
  | listed members => exact Distinct.sound_ofList _
  | free groups => rw [hp] at h; exact sound_closure (isPerm_transpositions h)

lemma contains_iff (h : t.Valid) : t.contains p = true ↔ p ∈ t.relabelings :=
  Distinct.contains_iff (sound_members h)

lemma order_eq (t : Symmetry) : t.order = t.relabelings.length := by
  simp [order, relabelings, Distinct.size, Distinct.toList]

lemma isPerm_of_mem (h : t.Valid) (hp : p ∈ t.relabelings) : IsPerm t.neighborhood.size p := by
  rw [relabelings_eq] at hp
  unfold Valid at h
  cases hpres : t.presentation with
  | generated gens =>
    rw [hpres] at h hp
    exact (isGroup_closure h).perm p hp
  | listed members =>
    rw [hpres] at h hp
    rcases List.mem_cons.mp (Distinct.mem_ofList.mp hp) with rfl | hp
    · exact isPerm_identity _
    · exact h p hp
  | free groups =>
    rw [hpres] at h hp
    exact (isGroup_closure (isPerm_transpositions h)).perm p hp

lemma identity_mem (h : t.Valid) : identity t.neighborhood.size ∈ t.relabelings := by
  rw [relabelings_eq]
  unfold Valid at h
  cases hpres : t.presentation with
  | generated gens => rw [hpres] at h; exact (isGroup_closure h).one
  | listed members => exact Distinct.mem_ofList.mpr List.mem_cons_self
  | free groups => rw [hpres] at h; exact (isGroup_closure (isPerm_transpositions h)).one

/-- A type that is not given by a list is a group. -/
lemma isGroup (h : t.Valid) (hc : t.presentation.Closed) :
    IsGroup t.neighborhood.size t.relabelings := by
  rw [relabelings_eq]
  unfold Valid at h
  cases hpres : t.presentation with
  | generated gens => rw [hpres] at h; exact isGroup_closure h
  | listed members => rw [hpres] at hc; exact hc.elim
  | free groups => rw [hpres] at h; exact isGroup_closure (isPerm_transpositions h)

lemma nodup_relabelings (h : t.Valid) : t.relabelings.Nodup := (sound_members h).nodup

lemma subsetOf_iff {u : Symmetry} (ht : t.Valid) (hu : u.Valid) :
    t.subsetOf u = true ↔ t.neighborhood = u.neighborhood ∧ t.relabelings ⊆ u.relabelings := by
  unfold subsetOf
  simp only [Bool.and_eq_true, beq_iff_eq, decide_eq_true_eq, List.all_eq_true, contains_iff hu,
    order_eq]
  constructor
  · exact fun ⟨⟨h1, _⟩, h2⟩ => ⟨h1, h2⟩
  · exact fun ⟨h1, h2⟩ => ⟨⟨h1, ((nodup_relabelings ht).subperm h2).length_le⟩, h2⟩

lemma equivalent_iff {u : Symmetry} (ht : t.Valid) (hu : u.Valid) :
    t.equivalent u = true ↔
      t.neighborhood = u.neighborhood ∧ ∀ p, p ∈ t.relabelings ↔ p ∈ u.relabelings := by
  unfold equivalent
  simp only [Bool.and_eq_true, beq_iff_eq, order_eq, subsetOf_iff ht hu]
  constructor
  · rintro ⟨hlen, hnb, hsub⟩
    have hperm := ((nodup_relabelings ht).subperm hsub).perm_of_length_le hlen.ge
    exact ⟨hnb, fun p => hperm.mem_iff⟩
  · rintro ⟨hnb, hmem⟩
    have hperm := (List.perm_ext_iff_of_nodup (nodup_relabelings ht)
      (nodup_relabelings hu)).mpr hmem
    exact ⟨hperm.length_eq, hnb, fun p hp => (hmem p).mp hp⟩

end Symmetry

/-! ### Keys -/

/-- Numbers in a list are written with digits, signs and commas. -/
lemma notMem_numerals {c : Char} (hdigit : c.isDigit = false) (hsign : c ≠ '-') (hcomma : c ≠ ',')
    (ids : List ℕ) : c ∉ (Text.numerals ids).toList := by
  intro h
  rw [Text.numerals, Text.commas, String.toList_intercalate] at h
  rcases mem_of_mem_intercalate h with hc | ⟨part, hpart, hc⟩
  · exact hcomma (List.mem_singleton.mp hc)
  · simp only [List.map_map, List.mem_map, Function.comp_apply] at hpart
    obtain ⟨id, -, rfl⟩ := hpart
    rcases mem_toString_int hc with h | h
    · rw [hdigit] at h
      cases h
    · exact hsign h

lemma numerals_inj {ids ids' : List ℕ} (h : Text.numerals ids = Text.numerals ids') : ids = ids' :=
  List.map_injective_iff.mpr (fun _ _ => Int.ofNat_inj.mp) (intercalate_toString_inj h)

def placeText (p : ℕ × ℕ) : List Char := (toString p.1).toList ++ '=' :: (toString p.2).toList

lemma notMem_placeText {c : Char} (hdigit : c.isDigit = false) (hsign : c ≠ '-') (hequals : c ≠ '=')
    (p : ℕ × ℕ) : c ∉ placeText p := by
  have hnat : ∀ k : ℕ, c ∉ (toString k).toList := by
    intro k h
    rcases mem_toString_int (z := k) h with h | h
    · rw [hdigit] at h
      cases h
    · exact hsign h
  rw [placeText, List.mem_append, List.mem_cons]
  rintro (h | h | h)
  exacts [hnat _ h, hequals h, hnat _ h]

lemma placeText_injective : Function.Injective placeText := by
  have hequals : ∀ k : ℕ, '=' ∉ (toString k).toList := by
    intro k h
    rcases mem_toString_int (z := k) h with h | h <;> revert h <;> decide
  intro p q h
  obtain ⟨h₁, h₂⟩ := append_sep_inj (hequals p.1) (hequals q.1) h
  exact Prod.ext (Nat.repr_inj.mp (String.toList_inj.mp h₁))
    (Nat.repr_inj.mp (String.toList_inj.mp h₂))

namespace OrbitKey

def type : OrbitKey → String
  | .napkin type _ | .contents type _ _ => type

def rest : OrbitKey → List Char
  | .napkin _ ids => (Text.numerals ids).toList
  | .contents _ groups fixed => 'p' :: '|' ::
      ((groups.map fun g => (Text.numerals g).toList).flatMap (· ++ ['/']) ++
        (fixed.map placeText).flatMap (· ++ [';']))

lemma toList_text (key : OrbitKey) : key.text.toList = key.type.toList ++ '|' :: key.rest := by
  cases key with
  | napkin type ids => simp [text, OrbitKey.type, rest]
  | contents type groups fixed =>
    simp [text, OrbitKey.type, rest, placeText, String.toList_join, List.flatMap, Function.comp_def]

lemma rest_inj {key key' : OrbitKey} (htype : key.type = key'.type) (h : key.rest = key'.rest) :
    key = key' := by
  -- no number starts with a letter
  have hletter : ∀ ids l, (Text.numerals ids).toList ≠ 'p' :: l := by
    intro ids l he
    exact notMem_numerals (c := 'p') (by decide) (by decide)
      (by decide) ids (he ▸ List.mem_cons_self)
  cases key with
  | napkin type ids =>
    cases key' with
    | napkin type' ids' =>
      obtain rfl : type = type' := htype
      rw [numerals_inj (String.toList_inj.mp h)]
    | contents type' groups fixed => exact absurd h (hletter ids _)
  | contents type groups fixed =>
    cases key' with
    | napkin type' ids => exact absurd h.symm (hletter ids _)
    | contents type' groups' fixed' =>
      obtain rfl : type = type' := htype
      -- a slash ends each group, a semicolon each place, and neither stands in one
      have hgroup : ∀ groups : List (List ℕ),
          ∀ part ∈ groups.map fun g => (Text.numerals g).toList, '/' ∉ part := by
        intro groups part hpart
        obtain ⟨g, -, rfl⟩ := List.mem_map.mp hpart
        exact notMem_numerals (by decide) (by decide) (by decide) g
      have hplace : ∀ {c : Char}, c.isDigit = false → c ≠ '-' → c ≠ '=' → ∀ fixed : List (ℕ × ℕ),
          ∀ part ∈ fixed.map placeText, c ∉ part := by
        intro c hdigit hsign hequals fixed part hpart
        obtain ⟨p, -, rfl⟩ := List.mem_map.mp hpart
        exact notMem_placeText hdigit hsign hequals p
      have hslash : ∀ fixed : List (ℕ × ℕ), '/' ∉ (fixed.map placeText).flatMap (· ++ [';']) := by
        intro fixed hc
        obtain ⟨part, hpart, hc⟩ := List.mem_flatMap.mp hc
        rcases List.mem_append.mp hc with hc | hc
        · exact hplace (by decide) (by decide) (by decide) fixed part hpart hc
        · revert hc
          decide
      have hrest := (List.cons.inj (List.cons.inj h).2).2
      obtain ⟨hgroups, hfixed⟩ :=
        flatMap_end_inj (hgroup groups) (hgroup groups') (hslash fixed) (hslash fixed') hrest
      have hsemi : ∀ fixed : List (ℕ × ℕ), ∀ part ∈ fixed.map placeText, ';' ∉ part :=
        hplace (by decide) (by decide) (by decide)
      have hplaces :=
        (flatMap_end_inj (hsemi fixed) (hsemi fixed') List.not_mem_nil List.not_mem_nil
        (congrArg (· ++ []) hfixed)).1
      rw [List.map_injective_iff.mpr placeText_injective hplaces,
        List.map_injective_iff.mpr (fun _ _ h => numerals_inj (String.toList_inj.mp h)) hgroups]

/-- **Keys.** As long as no bar stands in the keys of types, what an orbit is asked for can be told
from the text it is stored under. -/
lemma text_inj {key key' : OrbitKey} (hbar : '|' ∉ key.type.toList) (hbar' : '|' ∉ key'.type.toList)
    (h : key.text = key'.text) : key = key' := by
  have htext := congrArg String.toList h
  rw [toList_text, toList_text] at htext
  obtain ⟨htype, hrest⟩ := append_sep_inj hbar hbar' htext
  exact rest_inj (String.toList_inj.mp htype) hrest

end OrbitKey

/-! ### Caches -/

/-- The type is known by its key, in which no bar stands. -/
structure Symmetry.KnownTo (known : String → Option Symmetry) (t : Symmetry) : Prop where
  found : known t.key = some t
  bar : '|' ∉ t.key.toList

/-- The rows are the orbit that the key asks for, whatever row it was asked for. -/
def OrbitKey.Answer (known : String → Option Symmetry) : OrbitKey → List (List ℕ) → Prop
  | .napkin type ids, rows =>
    ∀ t, known type = some t → t.groups? = none → t.images ids = .ok rows
  | .contents type held fixed, rows =>
    ∀ t groups ids, known type = some t → t.groups? = some groups →
      (∀ i ∈ groups.flatten, i < ids.length) →
      held = groups.map (fun g => (apply g ids).mergeSort) →
      fixed = Symmetry.fixedOf groups ids → rows = Symmetry.freeImages groups held ids

/-- Every entry of the cache is right for the types that are known by key. -/
def OrbitCache.Fits (known : String → Option Symmetry) (c : OrbitCache) : Prop :=
  ∀ (key : OrbitKey) time rows, '|' ∉ key.type.toList →
    c.entries[key.text]? = some (time, rows) → key.Answer known rows

/-- The cache, if there is one, is right for the types that are known by key. -/
def CacheFits (known : String → Option Symmetry) (cache : Option OrbitCache) : Prop :=
  ∀ c, cache = some c → c.Fits known

namespace OrbitCache

variable {known : String → Option Symmetry} {c : OrbitCache} {key : OrbitKey}
  {rows : List (List ℕ)}

lemma Fits.touch (h : c.Fits known) (hbar : '|' ∉ key.type.toList) (hr : key.Answer known rows) :
    (c.touch key.text rows).Fits known := by
  intro key' time rows' hbar' he
  simp only [OrbitCache.touch, Std.HashMap.getElem?_insert] at he
  split at he
  · next hk =>
    rw [beq_iff_eq] at hk
    simp only [Option.some.injEq, Prod.mk.injEq] at he
    rw [← OrbitKey.text_inj hbar hbar' hk, ← he.2]
    exact hr
  · exact h key' time rows' hbar' he

lemma Fits.trim (h : c.Fits known) : c.trim.Fits known := by
  unfold OrbitCache.trim
  split
  · exact h
  split
  · intro key time rows hbar he
    simp only [Std.HashMap.getElem?_erase] at he
    split at he
    · cases he
    · exact h key time rows hbar he
  · exact h

lemma Fits.add (h : c.Fits known) (hbar : '|' ∉ key.type.toList) (hr : key.Answer known rows) :
    (c.add key.text rows).Fits known :=
  (h.touch hbar hr).trim

lemma Fits.find (h : c.Fits known) (hbar : '|' ∉ key.type.toList) :
    (c.find key.text).2.Fits known ∧
      ∀ rows, (c.find key.text).1 = some rows → key.Answer known rows := by
  unfold OrbitCache.find
  split
  · next time rows he =>
    have hr := h key time rows hbar he
    exact ⟨h.touch hbar hr, by rintro _ ⟨⟩; exact hr⟩
  · exact ⟨h, by rintro _ ⟨⟩⟩

lemma fits_empty (known : String → Option Symmetry) (capacity : ℕ) :
    Fits known { capacity := capacity } := by
  intro key time rows _ he
  simp at he

lemma fits_purge (known : String → Option Symmetry) (c : OrbitCache) : c.purge.Fits known :=
  fits_empty known c.capacity

end OrbitCache

/-- Without a cache the computation leaves none, and with one that fits it comes to the same and
leaves one that fits. -/
structure Transparent {α : Type} (known : String → Option Symmetry) (act : CacheM α) : Prop where
  none : (runFrom act none).2 = none
  some : ∀ cache, CacheFits known cache →
    (runFrom act cache).1 = (runFrom act .none).1 ∧ CacheFits known (runFrom act cache).2

namespace Transparent

variable {α β : Type} {known : String → Option Symmetry}

lemma pure (a : α) : Transparent known (pure a) := ⟨rfl, fun _ h => ⟨rfl, h⟩⟩

lemma crash : Transparent known (throw .crash : CacheM α) := ⟨rfl, fun _ h => ⟨rfl, h⟩⟩

lemma bind {act : CacheM α} {f : α → CacheM β} (h : Transparent known act)
    (hf : ∀ a, (runFrom act .none).1 = .ok a → Transparent known (f a)) :
    Transparent known (act >>= f) := by
  obtain ⟨r, c, hrun⟩ : ∃ r c, runFrom act .none = (r, c) := ⟨_, _, rfl⟩
  obtain rfl : c = .none := by simpa [hrun] using h.none
  refine ⟨?_, fun cache hc => ?_⟩
  · rw [runFrom_bind, hrun]
    cases r with
    | error e => rfl
    | ok a => exact (hf a (by rw [hrun])).none
  · obtain ⟨h1, h2⟩ := h.some cache hc
    obtain ⟨r', c', hrun'⟩ : ∃ r c, runFrom act cache = (r, c) := ⟨_, _, rfl⟩
    rw [hrun', hrun] at h1
    rw [hrun'] at h2
    subst h1
    rw [runFrom_bind, runFrom_bind, hrun', hrun]
    cases r' with
    | error e => exact ⟨rfl, h2⟩
    | ok a => exact (hf a (by rw [hrun])).some c' h2

lemma foldlM {f : β → α → CacheM β} {l : List α} (hf : ∀ b, ∀ a ∈ l, Transparent known (f b a))
    (b : β) : Transparent known (l.foldlM f b) := by
  induction l generalizing b with
  | nil => exact .pure b
  | cons a l ih =>
    rw [List.foldlM_cons]
    exact (hf b a List.mem_cons_self).bind fun b' _ =>
      ih (fun b a ha => hf b a (List.mem_cons_of_mem _ ha)) b'

end Transparent

section Cached

variable {known : String → Option Symmetry} {key : OrbitKey} {x : Outcome (List (List ℕ))}

lemma runFrom_find (key : OrbitKey) (cache : Option OrbitCache) :
    runFrom (CacheM.find key) cache = match cache with
      | none => (.ok none, none)
      | some c => (.ok (c.find key.text).1, some (c.find key.text).2) := by
  cases cache <;> rfl

lemma runFrom_cached_none (key : OrbitKey) (x : Outcome (List (List ℕ))) :
    runFrom (CacheM.cached key x) none = (x, none) := by
  unfold CacheM.cached
  rw [runFrom_bind, runFrom_find]
  simp only [runFrom_bind, runFrom_outcome]
  cases x <;> rfl

/-- A lookup may stand for the computation if the entries are what it would come to. -/
lemma transparent_cached (hbar : '|' ∉ key.type.toList)
    (hx : ∀ rows, x = .ok rows → key.Answer known rows)
    (huse : ∀ rows, key.Answer known rows → x = .ok rows) :
    Transparent known (CacheM.cached key x) := by
  refine ⟨by rw [runFrom_cached_none], fun cache hc => ?_⟩
  rw [runFrom_cached_none]
  cases cache with
  | none => rw [runFrom_cached_none]; exact ⟨rfl, hc⟩
  | some c =>
    obtain ⟨hfits, hfound⟩ := (hc c rfl).find hbar
    unfold CacheM.cached
    rw [runFrom_bind, runFrom_find]
    cases hf : (c.find key.text).1 with
    | some rows =>
      simp only [hf]
      exact ⟨(huse rows (hfound rows hf)).symm, by rintro _ ⟨⟩; exact hfits⟩
    | none =>
      simp only [hf, runFrom_bind, runFrom_outcome]
      cases hxr : x with
      | error e => exact ⟨rfl, by rintro _ ⟨⟩; exact hfits⟩
      | ok rows => exact ⟨rfl, by rintro _ ⟨⟩; exact hfits.add hbar (hx rows hxr)⟩

end Cached

/-! ### Orbits of numbers -/

namespace Symmetry

variable {known : String → Option Symmetry} {t : Symmetry} {n : ℕ} {groups : List (List ℕ)}
  {ids ids' : List ℕ}

lemma mapM_eq_some {α β : Type} {f : α → Option β} {g : α → β} {l : List α}
    (h : ∀ a ∈ l, f a = some (g a)) : l.mapM f = some (l.map g) := by
  induction l with
  | nil => rfl
  | cons a l ih =>
    rw [List.mapM_cons, h a List.mem_cons_self, ih fun b hb => h b (List.mem_cons_of_mem _ hb)]
    rfl

lemma mapM_eq_none {α β : Type} {f : α → Option β} {l : List α} {a : α} (ha : a ∈ l)
    (h : f a = none) : l.mapM f = none := by
  induction l with
  | nil => cases ha
  | cons b l ih =>
    rw [List.mapM_cons]
    rcases List.mem_cons.mp ha with rfl | ha
    · rw [h]
      rfl
    · rw [ih ha]
      cases f b <;> rfl

lemma held_eq (hg : ∀ i ∈ groups.flatten, i < ids.length) :
    (groups.mapM fun g => g.mapM fun i => ids[i]?) = some (groups.map fun g => apply g ids) :=
  mapM_eq_some fun g hmem => relabel?_eq_some_iff.mpr
    ⟨fun i hi => hg i (List.mem_flatten.mpr ⟨g, hmem, hi⟩), rfl⟩

/-- Nothing is held where a position of a group does not exist. -/
lemma held_eq_none {i : ℕ} (hi : i ∈ groups.flatten) (hlt : ids.length ≤ i) :
    (groups.mapM fun g => g.mapM fun i => ids[i]?) = none := by
  obtain ⟨g, hg, hi⟩ := List.mem_flatten.mp hi
  exact mapM_eq_none hg (mapM_eq_none hi (List.getElem?_eq_none hlt))

lemma mem_fixedOf {i id : ℕ} : (i, id) ∈ fixedOf groups ids ↔
    ids[i]? = some id ∧ i ∉ groups.flatten := by
  simp only [fixedOf, List.mem_filterMap, Prod.exists, List.mem_zipIdx_iff_getElem?]
  have hany : ∀ j, groups.any (·.contains j) = true ↔ j ∈ groups.flatten := by
    intro j
    simp [List.mem_flatten]
  constructor
  · rintro ⟨x, j, hx, he⟩
    split at he
    · cases he
    · next h =>
      cases he
      exact ⟨hx, mt (hany i).mpr h⟩
  · rintro ⟨hx, h⟩
    exact ⟨id, i, hx, by rw [if_neg (mt (hany i).mp h)]⟩

lemma getElem?_eq_of_fixedOf_eq (h : fixedOf groups ids = fixedOf groups ids') :
    ∀ i, i ∉ groups.flatten → ids[i]? = ids'[i]? := by
  intro i hi
  refine Option.ext fun x => ?_
  have hx : (i, x) ∈ fixedOf groups ids ↔ _ := mem_fixedOf
  have hx' : (i, x) ∈ fixedOf groups ids' ↔ _ := mem_fixedOf
  rw [h] at hx
  simpa [hi] using hx.symm.trans hx'

lemma presentation_of_groups? (h : t.groups? = some groups) : t.presentation = .free groups := by
  unfold groups? at h
  split at h
  · next hp => rw [hp, Option.some.inj h]
  · cases h

/-- Rows that agree outside the groups, and have the positions of the groups, are of one length. -/
lemma length_eq_of_fixedOf_eq (hin : ∀ i ∈ groups.flatten, i < ids.length)
    (hin' : ∀ i ∈ groups.flatten, i < ids'.length) (h : fixedOf groups ids = fixedOf groups ids') :
    ids.length = ids'.length := by
  have hiff : ∀ i, i < ids.length ↔ i < ids'.length := by
    intro i
    by_cases hi : i ∈ groups.flatten
    · simp [hin i hi, hin' i hi]
    · rw [← not_le, ← not_le, ← List.getElem?_eq_none_iff, ← List.getElem?_eq_none_iff,
        getElem?_eq_of_fixedOf_eq h i hi]
  exact le_antisymm (not_lt.mp fun hlt => lt_irrefl _ ((hiff _).mp hlt))
    (not_lt.mp fun hlt => lt_irrefl _ ((hiff _).mpr hlt))

/-- **Orbits and caches.** A fitting cache changes nothing about an orbit, whatever the row. -/
lemma transparent_orbit (hv : t.Valid) (hk : t.KnownTo known) (ids : List ℕ) :
    Transparent known (t.orbit ids) := by
  unfold orbit
  cases hgr : t.groups? with
  | none =>
    refine transparent_cached hk.bar (fun rows hrows u hu _ => ?_) fun rows h => h t hk.found hgr
    rwa [← Option.some.inj (hk.found.symm.trans hu)]
  | some groups =>
    have hg : Groups.Valid t.neighborhood.size groups := by
      unfold Valid at hv
      rwa [presentation_of_groups? hgr] at hv
    by_cases hin : ∀ i ∈ groups.flatten, i < ids.length
    · simp only [held_eq hin]
      refine Transparent.bind (transparent_cached hk.bar ?_ ?_) fun _ _ => .pure _
      · rintro _ ⟨⟩ u groups' ids' hu hgr' hin' hheld hfixed
        obtain rfl : t = u := Option.some.inj (hk.found.symm.trans hu)
        obtain rfl : groups = groups' := Option.some.inj (hgr.symm.trans hgr')
        refine freeImages_congr ⟨hg.nodup, hin⟩ ?_ rfl
          (length_eq_of_fixedOf_eq hin' hin hfixed.symm)
          (getElem?_eq_of_fixedOf_eq hfixed)
        rw [hheld, List.forall₂_map_right_iff, List.forall₂_same]
        intro g hmem
        rw [List.length_mergeSort]
        exact length_apply fun i hi => hin' i (List.mem_flatten.mpr ⟨g, hmem, hi⟩)
      · intro rows h
        rw [h t groups ids hk.found hgr hin (by rw [List.map_map]; rfl) rfl]
    · push Not at hin
      obtain ⟨i, hi, hlt⟩ := hin
      simp only [held_eq_none hi hlt]
      exact .crash

lemma mem_frontFirst {rows : List (List ℕ)} {row r : List ℕ} :
    r ∈ frontFirst rows row ↔ r ∈ rows := by
  unfold frontFirst
  split
  · next h =>
    exact (List.perm_cons_erase (List.contains_iff_mem.mp h)).mem_iff.symm
  · rfl

lemma images_ok (hv : t.Valid) (hlen : ids.length = t.neighborhood.size) :
    t.images ids = .ok (Distinct.ofList (t.relabelings.map (·.apply ids))).toList := by
  have hall : t.relabelings.mapM (·.relabel? ids) = some (t.relabelings.map (·.apply ids)) :=
    mapM_eq_some fun p hp => (isPerm_of_mem hv hp).relabel? hlen
  unfold images
  rw [hall]
  rfl

/-- **The orbit of a row** is what the relabelings make of it. -/
lemma orbit_ok (hv : t.Valid) (hlen : ids.length = t.neighborhood.size) :
    ∃ rows, runFrom (t.orbit ids) none = (.ok rows, none) ∧
      ∀ row, row ∈ rows ↔ ∃ p ∈ t.relabelings, p.apply ids = row := by
  unfold orbit
  cases hgr : t.groups? with
  | none =>
    refine ⟨_, by rw [runFrom_cached_none, images_ok hv hlen], fun row => ?_⟩
    rw [Distinct.mem_ofList, List.mem_map]
  | some groups =>
    have hp := presentation_of_groups? hgr
    have hg : Groups.Valid t.neighborhood.size groups := by
      unfold Valid at hv
      rwa [hp] at hv
    simp only [held_eq fun i hi => hlen ▸ hg.lt i hi, runFrom_bind, runFrom_cached_none]
    refine ⟨_, rfl, fun row => ?_⟩
    rw [mem_frontFirst, List.map_map]
    exact (mem_freeImages_iff hg hlen).trans (by rw [relabelings_eq, hp]; rfl)

end Symmetry

/-! ### Orbits of napkins -/

lemma mem_eraseReps {α : Type} [BEq α] [LawfulBEq α] {l : List α} {x : α} :
    x ∈ l.eraseReps ↔ x ∈ l := by
  have hloop : ∀ (l acc : List α) (a : α),
      x ∈ List.eraseRepsBy.loop (· == ·) a l acc ↔ x = a ∨ x ∈ l ∨ x ∈ acc := by
    intro l
    induction l with
    | nil => simp [List.eraseRepsBy.loop, or_comm]
    | cons b l ih =>
      intro acc a
      rw [List.eraseRepsBy.loop]
      split
      · next h =>
        rw [ih, List.mem_cons, eq_of_beq h]
        tauto
      · rw [ih]
        simp only [List.mem_cons]
        tauto
  cases l with
  | nil => simp [List.eraseReps, List.eraseRepsBy]
  | cons a l => simp [List.eraseReps, List.eraseRepsBy, hloop]

lemma mem_sortedKeys {keys : List String} {k : String} : k ∈ sortedKeys keys ↔ k ∈ keys := by
  rw [sortedKeys, mem_eraseReps, (List.mergeSort_perm _ _).mem_iff]

section Napkins

variable {α : Type} {napkin : List α} {key : α → String}

def valueOf (reps : Array (Option α)) (id : ℕ) : Option α := (reps[id]?).join

lemma valueOf_set (reps : Array (Option α)) (i id : ℕ) (v : α) :
    valueOf (reps.set! i (some v)) id =
      if id = i ∧ i < reps.size then some v else valueOf reps id := by
  rw [valueOf, valueOf, Array.set!_eq_setIfInBounds, Array.getElem?_setIfInBounds]
  by_cases hi : id = i
  · subst hi
    by_cases hlt : id < reps.size <;> simp [hlt]
  · simp [hi, Ne.symm hi]

/-- Every number that was entered has a value that was entered with it. -/
lemma valueOf_fold (l : List (α × ℕ)) (reps : Array (Option α)) (id : ℕ) (hid : id < reps.size) :
    let out := l.foldl (fun (reps : Array (Option α)) (p : α × ℕ) => reps.set! p.2 (some p.1)) reps
    (∀ w, valueOf out id = some w → (w, id) ∈ l ∨ valueOf reps id = some w) ∧
      ((∃ v, (v, id) ∈ l) ∨ (valueOf reps id).isSome → (valueOf out id).isSome) := by
  induction l generalizing reps with
  | nil => exact ⟨fun w h => .inr h, fun h => by simpa using h⟩
  | cons p l ih =>
    obtain ⟨hback, hsome⟩ := ih (reps.set! p.2 (some p.1)) (by simpa using hid)
    simp only [List.foldl_cons]
    refine ⟨fun w hw => ?_, fun h => hsome ?_⟩
    · rcases hback w hw with h | h
      · exact .inl (List.mem_cons_of_mem _ h)
      · rw [valueOf_set] at h
        split at h
        · next hp =>
          cases h
          exact .inl (by rw [hp.1]; exact List.mem_cons_self)
        · exact .inr h
    · rw [valueOf_set]
      rcases h with ⟨v, hv⟩ | h
      · rcases List.mem_cons.mp hv with rfl | hv
        · exact .inr (by simp [hid])
        · exact .inl ⟨v, hv⟩
      · right
        split
        · rfl
        · exact h

/-- The napkin with each value replaced by the last of those with its key. -/
def normalForm (napkin : List α) (key : α → String) : List α :=
  (intern napkin key).1.filterMap (valueOf (intern napkin key).2)

lemma intern_fst (napkin : List α) (key : α → String) :
    (intern napkin key).1 = napkin.map fun v => (sortedKeys (napkin.map key)).idxOf (key v) := rfl

lemma valueOf_intern (key : α → String) {v : α} (hv : v ∈ napkin) :
    ∃ w ∈ napkin, key w = key v ∧
      valueOf (intern napkin key).2 ((sortedKeys (napkin.map key)).idxOf (key v)) = some w := by
  have hmem : ∀ w ∈ napkin, key w ∈ sortedKeys (napkin.map key) :=
    fun w hw => mem_sortedKeys.mpr (List.mem_map_of_mem hw)
  have hlt := List.idxOf_lt_length_iff.mpr (hmem v hv)
  have hfold := valueOf_fold (napkin.zip (intern napkin key).1)
    (Array.replicate (sortedKeys (napkin.map key)).length none)
    ((sortedKeys (napkin.map key)).idxOf (key v)) (by simpa using hlt)
  have hzip : napkin.zip (intern napkin key).1 =
      napkin.map fun v => (v, (sortedKeys (napkin.map key)).idxOf (key v)) :=
    List.map_prod_left_eq_zip.symm
  obtain ⟨w, hw⟩ := Option.isSome_iff_exists.mp (hfold.2 (.inl ⟨v, by
    rw [hzip]; exact List.mem_map_of_mem hv⟩))
  rcases hfold.1 w hw with hin | hin
  · rw [hzip] at hin
    obtain ⟨u, hu, he⟩ := List.mem_map.mp hin
    simp only [Prod.mk.injEq] at he
    obtain ⟨rfl, hidx⟩ := he
    exact ⟨u, hu, (List.idxOf_inj (hmem u hu)).mp hidx, hw⟩
  · simp [valueOf, hlt] at hin

lemma forall₂_filterMap {β γ : Type} {f : β → Option γ} {R : β → γ → Prop} {l : List β}
    (h : ∀ b ∈ l, ∃ c, R b c ∧ f b = some c) :
    l.map f = (l.filterMap f).map some ∧ List.Forall₂ R l (l.filterMap f) := by
  induction l with
  | nil => exact ⟨rfl, .nil⟩
  | cons b l ih =>
    obtain ⟨c, hr, hc⟩ := h b List.mem_cons_self
    obtain ⟨hmap, hrel⟩ := ih fun b hb => h b (List.mem_cons_of_mem _ hb)
    rw [List.filterMap_cons_some hc, List.map_cons, List.map_cons, hc, hmap]
    exact ⟨rfl, .cons hr hrel⟩

lemma normalForm_eq (napkin : List α) (key : α → String) :
    (intern napkin key).1.map (valueOf (intern napkin key).2) = (normalForm napkin key).map some ∧
      List.Forall₂ (fun v w => w ∈ napkin ∧ key w = key v) napkin (normalForm napkin key) := by
  have h := forall₂_filterMap (l := napkin) (R := fun v w => w ∈ napkin ∧ key w = key v)
    (f := fun v => valueOf (intern napkin key).2 ((sortedKeys (napkin.map key)).idxOf (key v)))
    fun v hv => by
      obtain ⟨w, hw, hkey, he⟩ := valueOf_intern key hv
      exact ⟨w, ⟨hw, hkey⟩, he⟩
  rw [normalForm, intern_fst, List.map_map, List.filterMap_map]
  exact h

lemma mem_of_mem_normalForm {w : α} (h : w ∈ normalForm napkin key) : w ∈ napkin := by
  obtain ⟨i, hi, rfl⟩ := List.mem_iff_getElem.mp h
  exact ((List.forall₂_iff_get.mp (normalForm_eq napkin key).2).2 i
    (by rwa [(normalForm_eq napkin key).2.length_eq]) hi).1

lemma length_normalForm (napkin : List α) (key : α → String) :
    (normalForm napkin key).length = napkin.length :=
  (normalForm_eq napkin key).2.length_eq.symm

lemma map_key_normalForm (napkin : List α) (key : α → String) :
    (normalForm napkin key).map key = napkin.map key := by
  have h : List.Forall₂ (· = ·) ((normalForm napkin key).map key) (napkin.map key) := by
    rw [List.forall₂_map_left_iff, List.forall₂_map_right_iff]
    exact (normalForm_eq napkin key).2.flip.imp fun _ _ h => h.2
  rwa [List.forall₂_eq_eq_eq] at h

namespace Symmetry

variable {known : String → Option Symmetry} {t : Symmetry}

/-- **The orbit of a napkin** is what the relabelings make of its normal form. -/
lemma expand_ok (hv : t.Valid) (hlen : napkin.length = t.neighborhood.size) (key : α → String) :
    ∃ rows, runFrom (t.expand napkin key) none = (.ok rows, none) ∧
      ∀ row, row ∈ rows ↔ ∃ p ∈ t.relabelings, p.apply (normalForm napkin key) = row := by
  have hids : (intern napkin key).1.length = t.neighborhood.size := by
    rw [intern_fst, List.length_map, hlen]
  obtain ⟨rows, hrun, hrows⟩ := orbit_ok hv hids
  refine ⟨rows.map fun row => row.filterMap (valueOf (intern napkin key).2), ?_, fun row => ?_⟩
  · unfold expand
    rw [runFrom_bind, hrun]
    rfl
  · have hread : ∀ p : Relabeling,
        (p.apply (intern napkin key).1).filterMap (valueOf (intern napkin key).2) =
          p.apply (normalForm napkin key) := by
      intro p
      have hmap : (p.apply (intern napkin key).1).map (valueOf (intern napkin key).2) =
          (p.apply (normalForm napkin key)).map some := by
        rw [← apply_map, (normalForm_eq napkin key).1, apply_map]
      calc (p.apply (intern napkin key).1).filterMap (valueOf (intern napkin key).2)
          = ((p.apply (intern napkin key).1).map (valueOf (intern napkin key).2)).filterMap id := by
            rw [List.filterMap_map]; rfl
        _ = p.apply (normalForm napkin key) := by
            rw [hmap, List.filterMap_map, Function.id_comp, List.filterMap_some]
    simp only [List.mem_map, hrows]
    constructor
    · rintro ⟨_, ⟨p, hp, rfl⟩, rfl⟩
      exact ⟨p, hp, (hread p).symm⟩
    · rintro ⟨p, hp, rfl⟩
      exact ⟨_, ⟨p, hp, rfl⟩, hread p⟩

lemma transparent_expand (hv : t.Valid) (hk : t.KnownTo known)
    (napkin : List α) (key : α → String) :
    Transparent known (t.expand napkin key) :=
  (transparent_orbit hv hk _).bind fun _ _ => .pure _

lemma transparent_canonicalKey (hv : t.Valid) (hk : t.KnownTo known) (napkin : List α)
    (key : α → String) : Transparent known (t.canonicalKey napkin key) :=
  (transparent_expand hv hk napkin key).bind fun _ _ => .pure _

/-! ### The least text of an orbit -/

lemma least_spec {l : List String} (h : l ≠ []) : least l ∈ l ∧ ∀ k ∈ l, least l ≤ k := by
  have hfold : ∀ (l : List String) (b : String),
      let m := l.foldl (fun best k => if k < best then k else best) b
      (m = b ∨ m ∈ l) ∧ m ≤ b ∧ ∀ k ∈ l, m ≤ k := by
    intro l
    induction l with
    | nil => intro b; simp
    | cons k l ih =>
      intro b
      obtain ⟨hmem, hle, hall⟩ := ih (if k < b then k else b)
      simp only [List.foldl_cons, List.mem_cons, forall_eq_or_imp]
      rcases lt_or_ge k b with hk | hk
      · rw [if_pos hk] at hmem hle hall ⊢
        exact ⟨.inr hmem, hle.trans hk.le, hle, hall⟩
      · rw [if_neg (not_lt.mpr hk)] at hmem hle hall ⊢
        exact ⟨hmem.imp_right .inr, hle, hle.trans hk, hall⟩
  cases l with
  | nil => exact absurd rfl h
  | cons k l =>
    obtain ⟨hmem, hle, hall⟩ := hfold l k
    exact ⟨List.mem_cons.mpr hmem, fun k' hk' => (List.mem_cons.mp hk').elim
      (fun h => h ▸ hle) (hall k')⟩

lemma least_eq_of_mem_iff {l l' : List String} (hl : l ≠ []) (h : ∀ k, k ∈ l ↔ k ∈ l') :
    least l = least l' := by
  obtain ⟨k, hk⟩ := List.exists_mem_of_ne_nil l hl
  have hl' : l' ≠ [] := List.ne_nil_of_mem ((h k).mp hk)
  obtain ⟨hm, hle⟩ := least_spec hl
  obtain ⟨hm', hle'⟩ := least_spec hl'
  exact le_antisymm (hle _ ((h _).mpr hm')) (hle' _ ((h _).mp hm))

def keyText (keys : List String) : String := "\x1f".intercalate keys

lemma canonicalKey_ok (hv : t.Valid) (hlen : napkin.length = t.neighborhood.size)
    (key : α → String) :
    ∃ texts, runFrom (t.canonicalKey napkin key) none = (.ok (least texts), none) ∧ texts ≠ [] ∧
      ∀ k, k ∈ texts ↔ ∃ p ∈ t.relabelings, keyText (p.apply (napkin.map key)) = k := by
  obtain ⟨rows, hrun, hrows⟩ := expand_ok hv hlen key
  have hmem : ∀ k, k ∈ rows.map (joinKeys · key) ↔
      ∃ p ∈ t.relabelings, keyText (p.apply (napkin.map key)) = k := by
    intro k
    have htext : ∀ p : Relabeling, joinKeys (p.apply (normalForm napkin key)) key =
        keyText (p.apply (napkin.map key)) := by
      intro p
      rw [joinKeys, ← apply_map, map_key_normalForm, keyText]
    simp only [List.mem_map, hrows]
    constructor
    · rintro ⟨_, ⟨p, hp, rfl⟩, rfl⟩
      exact ⟨p, hp, (htext p).symm⟩
    · rintro ⟨p, hp, rfl⟩
      exact ⟨_, ⟨p, hp, rfl⟩, htext p⟩
  refine ⟨_, by unfold canonicalKey; rw [runFrom_bind, hrun]; rfl, ?_, hmem⟩
  exact List.ne_nil_of_mem ((hmem _).mpr ⟨_, identity_mem hv, rfl⟩)

lemma keyText_inj {keys keys' : List String} (hlen : keys.length = keys'.length)
    (h : ∀ k ∈ keys, '\x1f' ∉ k.toList) (h' : ∀ k ∈ keys', '\x1f' ∉ k.toList)
    (he : keyText keys = keyText keys') : keys = keys' := by
  rcases eq_or_ne keys [] with rfl | hne
  · exact (List.length_eq_zero_iff.mp hlen.symm).symm
  · have hne' : keys' ≠ [] := by
      rintro rfl
      exact hne (List.length_eq_zero_iff.mp hlen)
    exact intercalate_inj rfl hne hne' h h' he

lemma mem_of_mem_apply {β : Type} {p : Relabeling} {xs : List β} {x : β} (h : x ∈ p.apply xs) :
    x ∈ xs := by
  obtain ⟨i, -, hi⟩ := List.mem_filterMap.mp h
  exact List.mem_of_getElem? hi

/-- Under a group, napkins of which one is made of the other have the same least text. -/
lemma canonicalKey_congr (hv : t.Valid) (hgroup : IsGroup t.neighborhood.size t.relabelings)
    {x y : List α} {key : α → String} {kx ky : String} (hx : x.length = t.neighborhood.size)
    (hy : y.length = t.neighborhood.size) {p : Relabeling} (hp : p ∈ t.relabelings)
    (hpy : p.apply (x.map key) = y.map key)
    (hrunx : runFrom (t.canonicalKey x key) none = (.ok kx, none))
    (hruny : runFrom (t.canonicalKey y key) none = (.ok ky, none)) : kx = ky := by
  obtain ⟨tx, hx', htx, hmx⟩ := canonicalKey_ok hv hx key
  obtain ⟨ty, hy', -, hmy⟩ := canonicalKey_ok hv hy key
  obtain rfl : least tx = kx := by rw [hx'] at hrunx; cases hrunx; rfl
  obtain rfl : least ty = ky := by rw [hy'] at hruny; cases hruny; rfl
  have hlx : (x.map key).length = t.neighborhood.size := by rw [List.length_map, hx]
  have hpp := hgroup.perm p hp
  refine least_eq_of_mem_iff htx fun k => ?_
  rw [hmx, hmy, ← hpy]
  constructor
  · rintro ⟨q, hq, rfl⟩
    obtain ⟨r, hr, hundo⟩ := hgroup.undo hp
    refine ⟨r.andThen q, hgroup.mul r hr q hq, ?_⟩
    rw [(hgroup.perm r hr).apply_andThen (hgroup.perm q hq) (hpp.length_apply hlx), hundo _ hlx]
  · rintro ⟨q, hq, rfl⟩
    refine ⟨p.andThen q, hgroup.mul p hp q hq, ?_⟩
    rw [hpp.apply_andThen (hgroup.perm q hq) hlx]

/-- **Canonical texts.** Under a group, two napkins have the same least text exactly if some
relabeling takes the keys of one to the keys of the other. -/
lemma canonicalKey_eq_iff (hv : t.Valid) (hgroup : IsGroup t.neighborhood.size t.relabelings)
    {x y : List α} {key : α → String} {kx ky : String} (hx : x.length = t.neighborhood.size)
    (hy : y.length = t.neighborhood.size) (hkx : ∀ v ∈ x, '\x1f' ∉ (key v).toList)
    (hky : ∀ v ∈ y, '\x1f' ∉ (key v).toList)
    (hrunx : runFrom (t.canonicalKey x key) none = (.ok kx, none))
    (hruny : runFrom (t.canonicalKey y key) none = (.ok ky, none)) :
    kx = ky ↔ ∃ p ∈ t.relabelings, p.apply (x.map key) = y.map key := by
  obtain ⟨tx, hx', htx, hmx⟩ := canonicalKey_ok hv hx key
  obtain ⟨ty, hy', hty, hmy⟩ := canonicalKey_ok hv hy key
  obtain rfl : least tx = kx := by rw [hx'] at hrunx; cases hrunx; rfl
  obtain rfl : least ty = ky := by rw [hy'] at hruny; cases hruny; rfl
  have hlx : (x.map key).length = t.neighborhood.size := by rw [List.length_map, hx]
  have hly : (y.map key).length = t.neighborhood.size := by rw [List.length_map, hy]
  constructor
  · intro he
    obtain ⟨p, hp, hpx⟩ := (hmx _).mp (least_spec htx).1
    obtain ⟨q, hq, hqy⟩ := (hmy _).mp (least_spec hty).1
    have hpp := hgroup.perm p hp
    have hqq := hgroup.perm q hq
    have hsame : p.apply (x.map key) = q.apply (y.map key) := by
      refine keyText_inj ((hpp.length_apply hlx).trans (hqq.length_apply hly).symm) ?_ ?_
        (hpx.trans (he.trans hqy.symm))
      · intro k hk
        obtain ⟨v, hv, rfl⟩ := List.mem_map.mp (mem_of_mem_apply hk)
        exact hkx v hv
      · intro k hk
        obtain ⟨v, hv, rfl⟩ := List.mem_map.mp (mem_of_mem_apply hk)
        exact hky v hv
    obtain ⟨r, hr, hundo⟩ := hgroup.undo hq
    refine ⟨p.andThen r, hgroup.mul p hp r hr, ?_⟩
    rw [hpp.apply_andThen (hgroup.perm r hr) hlx, hsame, hundo _ hly]
  · rintro ⟨p, hp, hpy⟩
    exact canonicalKey_congr hv hgroup hx hy hp hpy hrunx hruny

end Symmetry

end Napkins

end RuleTable
