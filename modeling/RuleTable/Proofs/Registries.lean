import RuleTable.Proofs.Presentations
import RuleTable.Symmetry.Minimal

/-!
What registries hold.

A registry only grows. Every type in it stands under a key that tells the neighborhood and how the
type was made, from types that are there as well; so it makes sense, and asking for it again comes
to the same and changes nothing.
-/

namespace RuleTable

lemma Symmetry.eq_of_presentation_eq {t u : Symmetry} (hname : t.name = u.name)
    (hkey : t.key = u.key) (hnb : t.neighborhood = u.neighborhood)
    (hpres : t.presentation = u.presentation) : t = u := by
  obtain ⟨name, key, nb, pres, members, hm⟩ := t
  obtain ⟨name', key', nb', pres', members', hm'⟩ := u
  simp only at hname hkey hnb hpres
  subst hname hkey hnb hpres
  obtain rfl : members = members' := Thunk.ext (hm.trans hm'.symm)
  rfl

namespace Registry

variable {r r' r₁ r₂ : Registry} {nb : Neighborhood} {t : Symmetry} {α β : Type}

/-! ### Growth -/

/-- The later registry has the types of the earlier one and its choices. -/
structure Extends (r r' : Registry) : Prop where
  types : ∀ (key : String) t, r.types[key]? = some t → r'.types[key]? = some t
  chosen : ∀ (key : String) t, r.chosen[key]? = some t → r'.chosen[key]? = some t

lemma Extends.refl (r : Registry) : r.Extends r := ⟨fun _ _ h => h, fun _ _ h => h⟩

lemma Extends.trans (h : r.Extends r₁) (h' : r₁.Extends r₂) : r.Extends r₂ :=
  ⟨fun key t ht => h'.types key t (h.types key t ht),
    fun key t ht => h'.chosen key t (h.chosen key t ht)⟩

def Knows (r : Registry) (t : Symmetry) : Prop := r.types[t.key]? = some t

lemma Knows.mono (h : r.Knows t) (hr : r.Extends r') : r'.Knows t := hr.types _ _ h

lemma Knows.unique {u : Symmetry} (ht : r.Knows t) (hu : r.Knows u)
    (h : t.key = u.key) : t = u := by
  unfold Knows at ht hu
  rw [h, hu] at ht
  exact (Option.some.inj ht).symm

/-- From this registry on the computation comes to the same and changes nothing. -/
def Replays (act : RegistryM α) (r : Registry) (a : α) : Prop :=
  ∀ r', r.Extends r' → runFrom act r' = (.ok a, r')

lemma Replays.mono {act : RegistryM α} {a : α} (h : Replays act r a) (hr : r.Extends r') :
    Replays act r' a := fun r'' h' => h r'' (hr.trans h')

lemma Replays.bind {act : RegistryM α} {f : α → RegistryM β} {a : α} {b : β}
    (h : Replays act r a) (hf : Replays (f a) r b) : Replays (act >>= f) r b :=
  fun r' hr => runFrom_bind_ok.mpr ⟨a, r', h r' hr, hf r' hr⟩

/-! ### How types are made -/

def keyOf (nb : Neighborhood) (name : String) : String := nb.name ++ "/" ++ name

/-- How a type with a label is made, which is stored under a name: from the neighborhood alone, or
from types that are known. -/
inductive Made (r : Registry) (nb : Neighborhood) : (name label : String) → Presentation → Prop
  | none : Made r nb "none" "none" (.generated [])
  | rotate {ways : ℤ} {rotations : List Relabeling} (h : nb.rotationsBy ways = .ok rotations) :
    Made r nb s!"rotate{ways}" s!"rotate{ways}" (.generated rotations)
  | reflect {a b : String} {p : Relabeling} (h : nb.reflectAcross a b = .ok p) :
    Made r nb s!"reflect({a},{b})" s!"reflect({a},{b})" (.generated [p])
  | permute {positions : List ℕ} (hsorted : positions.Pairwise (· < ·))
      (hlt : ∀ i ∈ positions, i < nb.size) :
    Made r nb (permuteName nb positions) (permuteName nb positions)
      (.free (if positions.length > 1 then [positions] else []))
  | compose {ts : List Symmetry} (hne : ts ≠ []) (h : ∀ t ∈ ts, r.Knows t ∧ t.neighborhood = nb) :
    Made r nb ("compose(" ++ sortedNames ts ++ ")") ("compose(" ++ sortedNames ts ++ ")")
      (composition ts)
  | combine {ts : List Symmetry} (hne : ts ≠ []) (h : ∀ t ∈ ts, r.Knows t ∧ t.neighborhood = nb) :
    Made r nb ("combine(" ++ sortedNames ts ++ ")") ("combine(" ++ sortedNames ts ++ ")")
      (.listed (ts.flatMap (·.relabelings)))
  | named {name : String} {recipe : Recipe} {base : Symmetry} (hr : nb.recipe? name = some recipe)
    (hb : Replays (prepare nb recipe) r base) (hk : r.Knows base) (hnb : base.neighborhood = nb) :
    Made r nb ("class:" ++ name) name base.groupAround

variable {name label : String} {p : Presentation}

lemma Made.mono (h : Made r nb name label p) (hr : r.Extends r') : Made r' nb name label p := by
  cases h with
  | none => exact .none
  | rotate h => exact .rotate h
  | reflect h => exact .reflect h
  | permute hsorted hlt => exact .permute hsorted hlt
  | compose hne h => exact .compose hne fun t ht => ⟨(h t ht).1.mono hr, (h t ht).2⟩
  | combine hne h => exact .combine hne fun t ht => ⟨(h t ht).1.mono hr, (h t ht).2⟩
  | named hrec hb hk hnb => exact .named hrec (hb.mono hr) (hk.mono hr) hnb

def labelOf (name : String) : String :=
  if name.toList.take 2 = ['c', 'l'] then String.ofList (name.toList.drop 6) else name

lemma Made.label_eq (h : Made r nb name label p) : label = labelOf name := by
  cases h with
  | none => rfl
  | rotate h => simp [labelOf]
  | reflect h => simp [labelOf]
  | permute hsorted hlt =>
    unfold permuteName
    split <;> simp [labelOf]
  | compose hne h => simp [labelOf]
  | combine hne h => simp [labelOf]
  | named hrec hb hk hnb => simp [labelOf]

/-- Only what is combined need not be a group. -/
lemma Made.closed (h : Made r nb name label p) (hname : name.toList.take 4 ≠ "comb".toList) :
    p.Closed := by
  cases h with
  | none => trivial
  | rotate h => trivial
  | reflect h => trivial
  | permute hsorted hlt => trivial
  | compose hne h => exact closed_composition _
  | combine hne h => simp at hname
  | named hrec hb hk hnb =>
    unfold Symmetry.groupAround
    split <;> trivial

def IsLabel (text : String) : Prop := ∃ d : Direction, text = d.label

lemma IsLabel.comma_notMem {text : String} (h : IsLabel text) : ',' ∉ text.toList := by
  obtain ⟨d, rfl⟩ := h
  cases d <;> decide

lemma isLabel_of_ofLabel? {text : String} {d : Direction} (h : Direction.ofLabel? text = some d) :
    IsLabel text := by
  have := List.find?_some h
  exact ⟨d, (eq_of_beq this).symm⟩

lemma isLabel_of_reflectAcross {a b : String} {q : Relabeling} (h : nb.reflectAcross a b = .ok q) :
    IsLabel a ∧ IsLabel b := by
  unfold Neighborhood.reflectAcross at h
  simp only at h
  split at h
  · next x y hx hy =>
    obtain ⟨d, hd, -⟩ := Option.bind_eq_some_iff.mp hx
    obtain ⟨d', hd', -⟩ := Option.bind_eq_some_iff.mp hy
    exact ⟨isLabel_of_ofLabel? hd, isLabel_of_ofLabel? hd'⟩
  · cases h

/-! Conversely, a name tells how a type was made. -/

lemma Made.trivial (h : Made r nb "none" label p) : p = .generated [] := by
  generalize hn : "none" = name at h
  have htake := congrArg (List.take 4 ∘ String.toList) hn
  cases h with
  | none => rfl
  | permute hsorted hlt =>
    unfold permuteName at htake
    split at htake <;> simp at htake
  | rotate | reflect | compose | combine | named => simp at htake

lemma Made.rotations {ways : ℤ} (h : Made r nb s!"rotate{ways}" label p) :
    ∃ rotations, nb.rotationsBy ways = .ok rotations ∧ p = .generated rotations := by
  generalize hn : s!"rotate{ways}" = name at h
  have htake := congrArg (List.take 4 ∘ String.toList) hn
  cases h with
  | rotate h =>
    obtain rfl := toString_int_inj (by simpa using hn)
    exact ⟨_, h, rfl⟩
  | permute hsorted hlt =>
    unfold permuteName at htake
    split at htake <;> simp at htake
  | none | reflect | compose | combine | named => simp at htake

lemma Made.reflection {a b : String} (ha : ',' ∉ a.toList)
    (h : Made r nb s!"reflect({a},{b})" label p) :
    ∃ q, nb.reflectAcross a b = .ok q ∧ p = .generated [q] := by
  generalize hn : s!"reflect({a},{b})" = name at h
  have htake := congrArg (List.take 4 ∘ String.toList) hn
  cases h with
  | @reflect a' b' q h =>
    have ha' : ',' ∉ a'.toList := (isLabel_of_reflectAcross h).1.comma_notMem
    have htext := congrArg String.toList hn
    simp only [toString_string, String.toList_append, List.append_assoc,
      List.append_cancel_left_eq] at htext
    obtain ⟨hfirst, hsecond⟩ := append_sep_inj ha ha' htext
    obtain rfl := String.toList_inj.mp hfirst
    obtain rfl := String.toList_inj.mp (List.append_cancel_right hsecond)
    exact ⟨q, h, rfl⟩
  | permute hsorted hlt =>
    unfold permuteName at htake
    split at htake <;> simp at htake
  | none | rotate | compose | combine | named => simp at htake

lemma Made.recipe (h : Made r nb ("class:" ++ name) label p) :
    ∃ recipe base, nb.recipe? name = some recipe ∧ Replays (prepare nb recipe) r base ∧
      r.Knows base ∧ base.neighborhood = nb ∧ p = base.groupAround := by
  generalize hn : "class:" ++ name = name' at h
  have htake := congrArg (List.take 4 ∘ String.toList) hn
  cases h with
  | named hrec hb hk hnb =>
    obtain rfl := by simpa using hn
    exact ⟨_, _, hrec, hb, hk, hnb, rfl⟩
  | permute hsorted hlt =>
    unfold permuteName at htake
    split at htake <;> simp at htake
  | none | rotate | reflect | compose | combine => simp at htake

/-! ### How names are spelled -/

def IsNameChar (c : Char) : Bool := c.isAlphanum || ['(', ')', ',', '-', '_', ':'].contains c

def Spelled (text : String) : Prop := ∀ c ∈ text.toList, IsNameChar c = true

instance (text : String) : Decidable (Spelled text) :=
  decidable_of_iff (text.toList.all IsNameChar = true) List.all_eq_true

lemma Spelled.notMem {text : String} {c : Char} (h : Spelled text) (hc : IsNameChar c = false) :
    c ∉ text.toList := by
  intro hmem
  rw [h c hmem] at hc
  cases hc

lemma Spelled.append {text text' : String} (h : Spelled text) (h' : Spelled text') :
    Spelled (text ++ text') := by
  intro c hc
  rw [String.toList_append] at hc
  exact (List.mem_append.mp hc).elim (h c) (h' c)

lemma Spelled.intercalate {sep : String} {parts : List String} (hsep : Spelled sep)
    (h : ∀ part ∈ parts, Spelled part) : Spelled (sep.intercalate parts) := by
  intro c hc
  rw [String.toList_intercalate] at hc
  rcases mem_of_mem_intercalate hc with hc | ⟨part, hpart, hc⟩
  · exact hsep c hc
  · obtain ⟨text, htext, rfl⟩ := List.mem_map.mp hpart
    exact h text htext c hc

lemma spelled_toString (z : ℤ) : Spelled (toString z) := by
  intro c hc
  rcases mem_toString_int hc with hc | rfl
  · simp [IsNameChar, Char.isAlphanum, hc]
  · decide

lemma spelled_label (d : Direction) : Spelled d.label := by
  cases d <;> decide

lemma mem_of_lookup {α β : Type} [BEq α] [LawfulBEq α] {l : List (α × β)} {a : α} {b : β}
    (h : l.lookup a = some b) : (a, b) ∈ l := by
  induction l with
  | nil => cases h
  | cons x l ih =>
    rw [List.lookup_cons] at h
    split at h
    · next hx =>
      cases h
      rw [eq_of_beq hx]
      exact List.mem_cons_self
    · exact List.mem_cons_of_mem _ (ih h)

lemma Made.spelled (h : Made r nb name label p) (hr : ∀ t, r.Knows t → Spelled t.name) :
    Spelled name := by
  have hnames : ∀ {ts : List Symmetry}, (∀ t ∈ ts, r.Knows t ∧ t.neighborhood = nb) →
      Spelled (sortedNames ts) := by
    intro ts hts
    refine Spelled.intercalate (by decide) fun s hs => ?_
    rw [(List.mergeSort_perm _ _).mem_iff, List.mem_eraseDups] at hs
    obtain ⟨t, ht, rfl⟩ := List.mem_map.mp hs
    exact hr t (hts t ht).1
  cases h with
  | none => decide
  | rotate h => exact Spelled.append (by decide) (spelled_toString _)
  | reflect h =>
    obtain ⟨⟨d, rfl⟩, ⟨d', rfl⟩⟩ := isLabel_of_reflectAcross h
    exact (((Spelled.append (by decide) (spelled_label d)).append (by decide)).append
      (spelled_label d')).append (by decide)
  | permute hsorted hlt =>
    unfold permuteName
    split
    · decide
    · refine (Spelled.append (by decide) (Spelled.intercalate (by decide) fun s hs => ?_)).append
        (by decide)
      obtain ⟨i, -, hi⟩ := List.mem_filterMap.mp hs
      obtain ⟨d, -, rfl⟩ := Option.map_eq_some_iff.mp hi
      exact spelled_label d
  | compose hne h => exact (Spelled.append (by decide) (hnames h)).append (by decide)
  | combine hne h => exact (Spelled.append (by decide) (hnames h)).append (by decide)
  | named hrec hb hk hnb =>
    have hall : ∀ c ∈ nb.classes, Spelled c.1 := by cases nb <;> decide
    exact Spelled.append (by decide) (hall _ (mem_of_lookup hrec))

/-! ### Sound registries -/

/-- Types of one neighborhood, and the classes from which one is chosen for them. -/
structure Choice (r : Registry) (nb : Neighborhood) (types : List Symmetry) (start : Symmetry)
    (candidates : List Symmetry) : Prop where
  ne_nil : types ≠ []
  knows : ∀ t ∈ types, r.Knows t ∧ t.neighborhood = nb
  nodup : (types.map (·.key)).Nodup
  candidates_eq : Replays (classes nb) r candidates
  start_eq : Replays (none nb) r start
  start_trivial : start.presentation = .generated []
  groups : ∀ t ∈ start :: candidates,
    r.Knows t ∧ t.neighborhood = nb ∧ t.presentation.Closed

/-- The class was chosen for the types that the key lists. -/
def Chosen (r : Registry) (key : String) (m : Symmetry) : Prop :=
  ∃ nb types start candidates, Choice r nb types start candidates ∧ key = choiceKey types ∧
    m = largestWithin (shared types) start candidates

/-- Every type makes sense and stands under its key, which tells how it was made. -/
structure Sound (r : Registry) : Prop where
  key : ∀ (key : String) t, r.types[key]? = some t → t.key = key
  valid : ∀ t, r.Knows t → t.Valid
  spelled : ∀ t, r.Knows t → Spelled t.name
  made : ∀ t, r.Knows t → ∃ name, t.key = keyOf t.neighborhood name ∧
    Made r t.neighborhood name t.name t.presentation
  chosen : ∀ (key : String) m, r.chosen[key]? = some m → Chosen r key m

lemma Choice.mono {types : List Symmetry} {start : Symmetry} {candidates : List Symmetry}
    (h : Choice r nb types start candidates) (hr : r.Extends r') :
    Choice r' nb types start candidates where
  ne_nil := h.ne_nil
  knows t ht := ⟨(h.knows t ht).1.mono hr, (h.knows t ht).2⟩
  nodup := h.nodup
  candidates_eq := h.candidates_eq.mono hr
  start_eq := h.start_eq.mono hr
  start_trivial := h.start_trivial
  groups t ht := ⟨(h.groups t ht).1.mono hr, (h.groups t ht).2⟩

lemma Chosen.mono {key : String} {m : Symmetry} (h : Chosen r key m) (hr : r.Extends r') :
    Chosen r' key m := by
  obtain ⟨nb, types, start, candidates, hc, hkey, hm⟩ := h
  exact ⟨nb, types, start, candidates, hc.mono hr, hkey, hm⟩

lemma sound_empty : Sound {} where
  key _ _ h := by simp at h
  valid t h := by simp [Knows] at h
  spelled t h := by simp [Knows] at h
  made t h := by simp [Knows] at h
  chosen _ _ h := by simp at h

/-- A key is written like a name, with a slash after the neighborhood. -/
lemma Sound.notMem_key (hr : r.Sound) (ht : r.Knows t) {c : Char} (hc : IsNameChar c = false)
    (hslash : c ≠ '/') : c ∉ t.key.toList := by
  obtain ⟨name, hkey, hm⟩ := hr.made t ht
  have hnb : Spelled t.neighborhood.name := by cases t.neighborhood <;> decide
  rw [hkey, keyOf]
  simp [hnb.notMem hc, (hm.spelled hr.spelled).notMem hc, hslash]

lemma Sound.knownTo (hr : r.Sound) (ht : r.Knows t) : t.KnownTo (r.types[·]?) :=
  ⟨ht, hr.notMem_key ht (by decide) (by decide)⟩

lemma keyOf_inj {nb nb' : Neighborhood} {name name' : String}
    (h : keyOf nb name = keyOf nb' name') : nb = nb' ∧ name = name' := by
  have hslash : ∀ nb : Neighborhood, '/' ∉ nb.name.toList := by
    intro nb
    cases nb <;> decide
  have htext := congrArg String.toList h
  simp only [keyOf, String.toList_append, List.append_assoc] at htext
  obtain ⟨hnb, hname⟩ := append_sep_inj (hslash nb) (hslash nb') htext
  have hnames := String.toList_inj.mp hnb
  refine ⟨?_, String.toList_inj.mp hname⟩
  revert hnames
  cases nb <;> cases nb' <;> decide

def withType (r : Registry) (t : Symmetry) : Registry :=
  { r with types := r.types.insert t.key t }

lemma getElem?_withType (key : String) :
    (r.withType t).types[key]? = if t.key = key then some t else r.types[key]? := by
  simp [withType, Std.HashMap.getElem?_insert]

lemma extends_withType (h : r.types[t.key]? = Option.none) : r.Extends (r.withType t) := by
  refine ⟨fun key u hu => ?_, fun _ _ h => h⟩
  rw [getElem?_withType, if_neg, hu]
  rintro rfl
  rw [h] at hu
  cases hu

lemma knows_withType {u : Symmetry} (h : (r.withType t).Knows u) : u = t ∨ r.Knows u := by
  unfold Knows at h
  rw [getElem?_withType] at h
  split at h
  · exact .inl (Option.some.inj h).symm
  · exact .inr h

lemma mem_labelOf {name : String} {c : Char} (h : c ∈ (labelOf name).toList) : c ∈ name.toList := by
  unfold labelOf at h
  split at h
  · rw [String.toList_ofList] at h
    exact List.mem_of_mem_drop h
  · exact h

lemma Sound.withType (h : r.Sound) (hnew : r.types[t.key]? = Option.none) {name : String}
    (hkey : t.key = keyOf t.neighborhood name) (hv : t.Valid)
    (hm : Made r t.neighborhood name t.name t.presentation) : (r.withType t).Sound := by
  have hext := extends_withType hnew
  refine ⟨fun key u hu => ?_, fun u hu => ?_, fun u hu => ?_, fun u hu => ?_, fun key m hc => ?_⟩
  · rw [getElem?_withType] at hu
    split at hu
    · next he =>
      cases hu
      exact he
    · exact h.key key u hu
  · rcases knows_withType hu with rfl | hu
    · exact hv
    · exact h.valid u hu
  · rcases knows_withType hu with rfl | hu
    · intro c hc
      rw [hm.label_eq] at hc
      exact hm.spelled h.spelled c (mem_labelOf hc)
    · exact h.spelled u hu
  · rcases knows_withType hu with rfl | hu
    · exact ⟨name, hkey, hm.mono hext⟩
    · obtain ⟨name', hkey', hm'⟩ := h.made u hu
      exact ⟨name', hkey', hm'.mono hext⟩
  · exact (h.chosen key m hc).mono hext

/-! ### What computations keep -/

/-- The computation leaves a sound registry that has all the given one has. If it comes to a result,
this is as stated, and it would come to it again. -/
structure Keeps (r : Registry) (act : RegistryM α) (post : Registry → α → Prop) : Prop where
  sound : (runFrom act r).2.Sound
  grows : r.Extends (runFrom act r).2
  post : ∀ a, (runFrom act r).1 = .ok a → post (runFrom act r).2 a
  replays : ∀ a, (runFrom act r).1 = .ok a → Replays act (runFrom act r).2 a

namespace Keeps

variable {post : Registry → α → Prop} {post' : Registry → β → Prop}

lemma of_run {act : RegistryM α} {x : Outcome α} (hrun : runFrom act r = (x, r₁)) (hs : r₁.Sound)
    (hg : r.Extends r₁) (hok : ∀ a, x = .ok a → post r₁ a ∧ Replays act r₁ a) :
    Keeps r act post := by
  refine ⟨?_, ?_, ?_, ?_⟩ <;> rw [hrun]
  · exact hs
  · exact hg
  · exact fun a ha => (hok a ha).1
  · exact fun a ha => (hok a ha).2

lemma unchanged {act : RegistryM α} {x : Outcome α} (hr : r.Sound)
    (hrun : ∀ r, runFrom act r = (x, r)) (h : ∀ a, x = .ok a → post r a) : Keeps r act post :=
  of_run (hrun r) hr (.refl r) fun a ha => ⟨h a ha, fun r' _ => ha ▸ hrun r'⟩

lemma pure (hr : r.Sound) {a : α} (h : post r a) : Keeps r (pure a) post :=
  unchanged (x := .ok a) hr (fun _ => rfl) (by rintro _ ⟨⟩; exact h)

lemma refuse (hr : r.Sound) (span : Span) (cause : Cause) :
    Keeps r (RuleTable.refuse span cause : RegistryM α) post :=
  unchanged hr (fun _ => rfl) fun _ h => by cases h

lemma failing (hr : r.Sound) (x : Except Failure α) :
    Keeps r (liftM x : RegistryM α) fun _ a => x = .ok a :=
  unchanged hr (runFrom_failing x) fun _ ha => failing_eq_ok.mp ha

lemma bind {act : RegistryM α} {f : α → RegistryM β} (h : Keeps r act post)
    (hf : ∀ a r', r'.Sound → r.Extends r' → post r' a → Keeps r' (f a) post') :
    Keeps r (act >>= f) post' := by
  obtain ⟨hsound, hgrows, hpost, hreplays⟩ := h
  have hbind := runFrom_bind act f r
  rcases hrun : runFrom act r with ⟨e | a, r₁⟩ <;> rw [hrun] at hbind hsound hgrows hpost hreplays
  · exact of_run hbind hsound hgrows (by rintro _ ⟨⟩)
  · have hk := hf a r₁ hsound hgrows (hpost a rfl)
    exact of_run hbind hk.sound (hgrows.trans hk.grows) fun b hb =>
      ⟨hk.post b hb, ((hreplays a rfl).mono hk.grows).bind (hk.replays b hb)⟩

lemma imp {act : RegistryM α} {post' : Registry → α → Prop} (h : Keeps r act post)
    (hp : ∀ r' a, r.Extends r' → r'.Sound → post r' a → post' r' a) : Keeps r act post' :=
  ⟨h.sound, h.grows, fun a ha => hp _ a h.grows h.sound (h.post a ha), h.replays⟩

lemma andReplays {act : RegistryM α} (h : Keeps r act post) :
    Keeps r act fun r' a => post r' a ∧ Replays act r' a :=
  ⟨h.sound, h.grows, fun a ha => ⟨h.post a ha, h.replays a ha⟩, h.replays⟩

lemma locating {act : RegistryM α} (h : Keeps r act post) (kind : Kind) (span : Span) :
    Keeps r (RuleTable.locating kind span act) post := by
  obtain ⟨hsound, hgrows, hpost, hreplays⟩ := h
  have hloc := runFrom_locating kind span act r
  rcases hrun : runFrom act r with ⟨(f | _) | a, r₁⟩ <;>
    rw [hrun] at hloc hsound hgrows hpost hreplays
  · exact of_run hloc hsound hgrows (by rintro _ ⟨⟩)
  · exact of_run hloc hsound hgrows (by rintro _ ⟨⟩)
  · refine of_run hloc hsound hgrows ?_
    rintro _ ⟨⟩
    exact ⟨hpost a rfl, fun r' hr => runFrom_locating_ok.mpr (hreplays a rfl r' hr)⟩

end Keeps

lemma runFrom_memo (nb : Neighborhood) (name : String) (build : RegistryM Symmetry) (r : Registry) :
    runFrom (memo nb name build) r = match r.types[keyOf nb name]? with
      | some t => (.ok t, r)
      | Option.none => match runFrom build r with
        | (.ok b, r') =>
          (.ok { b with key := keyOf nb name }, r'.withType { b with key := keyOf nb name })
        | (.error e, r') => (.error e, r') := by
  unfold memo
  rw [runFrom_bind, runFrom_get]
  unfold keyOf
  cases h : r.types[nb.name ++ "/" ++ name]? with
  | some t => simp only [h, runFrom_pure]
  | none =>
    simp only [h, runFrom_bind]
    rcases runFrom build r with ⟨_ | b, r'⟩ <;> rfl

lemma replays_memo {build : RegistryM Symmetry} (h : r.types[keyOf nb name]? = some t) :
    Replays (memo nb name build) r t := by
  intro r' hr
  rw [runFrom_memo, hr.types _ _ h]

/-- The type that the registry has under a name of the neighborhood. -/
structure Stands (r : Registry) (nb : Neighborhood) (name : String) (t : Symmetry) : Prop where
  knows : r.Knows t
  key : t.key = keyOf nb name
  neighborhood : t.neighborhood = nb

lemma Sound.stands (h : r.Sound) (ht : r.types[keyOf nb name]? = some t) : Stands r nb name t := by
  have hkey := h.key _ _ ht
  have hknows : r.Knows t := by rwa [Knows, hkey]
  obtain ⟨name', hkey', -⟩ := h.made t hknows
  exact ⟨hknows, hkey, (keyOf_inj (hkey'.symm.trans hkey)).1⟩

lemma Stands.made (h : Stands r nb name t) (hr : r.Sound) :
    Made r nb name t.name t.presentation := by
  obtain ⟨name', hkey, hm⟩ := hr.made t h.knows
  obtain ⟨hnb, hname⟩ := keyOf_inj (hkey.symm.trans h.key)
  rwa [hname, hnb] at hm

/-- **Memory.** What is built is stored, and what is stored is not built again. -/
lemma keeps_memo {build : RegistryM Symmetry} (hr : r.Sound)
    (hfresh : r.types[keyOf nb name]? = Option.none →
      (runFrom build r).2.types[keyOf nb name]? = Option.none)
    (hbuild : Keeps r build fun r' b =>
      b.neighborhood = nb ∧ b.Valid ∧ Made r' nb name b.name b.presentation) :
    Keeps r (memo nb name build) fun r' t => Stands r' nb name t := by
  have hmemo := runFrom_memo nb name build r
  cases hfound : r.types[keyOf nb name]? with
  | some t =>
    rw [hfound] at hmemo
    refine .of_run hmemo hr (.refl r) ?_
    rintro _ ⟨⟩
    exact ⟨hr.stands hfound, replays_memo hfound⟩
  | none =>
    obtain ⟨hsound, hgrows, hpost, -⟩ := hbuild
    have hnew := hfresh hfound
    rcases hrun : runFrom build r with ⟨e | b, r₁⟩ <;> rw [hrun] at hsound hgrows hpost hnew <;>
      simp only [hfound, hrun] at hmemo
    · exact .of_run hmemo hsound hgrows (by rintro _ ⟨⟩)
    · obtain ⟨rfl, hv, hm⟩ := hpost b rfl
      have hsound' := hsound.withType (t := { b with key := keyOf b.neighborhood name })
        hnew rfl hv hm
      refine .of_run hmemo hsound' (hgrows.trans (extends_withType hnew)) ?_
      rintro _ ⟨⟩
      have hfound' : (r₁.withType { b with key := keyOf b.neighborhood name }).types[
          keyOf b.neighborhood name]? = some { b with key := keyOf b.neighborhood name } := by
        rw [getElem?_withType, if_pos rfl]
      exact ⟨hsound'.stands hfound', replays_memo hfound'⟩

/-- The result is a type of the neighborhood, and a group if so stated. -/
def Yields (nb : Neighborhood) (closed : Prop) (r : Registry) (t : Symmetry) : Prop :=
  r.Knows t ∧ t.neighborhood = nb ∧ (closed → t.presentation.Closed)

lemma Yields.mono {closed : Prop} (h : Yields nb closed r t) (hr : r.Extends r') :
    Yields nb closed r' t := ⟨h.1.mono hr, h.2⟩

lemma Keeps.yields {closed : Prop} {act : RegistryM Symmetry}
    (h : Keeps r act fun r' t => Stands r' nb name t)
    (hc : closed → name.toList.take 4 ≠ "comb".toList) : Keeps r act (Yields nb closed) :=
  h.imp fun _ _ _ hs ht => ⟨ht.knows, ht.neighborhood, fun hcl => (ht.made hs).closed (hc hcl)⟩

lemma stores_none (hr : r.Sound) (nb : Neighborhood) :
    Keeps r (none nb) fun r' t => Stands r' nb "none" t := by
  refine keeps_memo hr ?_ ?_
  · exact id
  · exact .pure hr ⟨rfl, List.forall_mem_nil _, .none⟩

lemma stores_rotate (hr : r.Sound) (nb : Neighborhood) (ways : ℤ) :
    Keeps r (rotate nb ways) fun r' t => Stands r' nb s!"rotate{ways}" t := by
  refine keeps_memo hr ?_ ?_
  · rw [runFrom_bind, runFrom_failing]
    cases nb.rotationsBy ways <;> exact id
  · refine .bind (.failing hr _) fun rotations r' hr' _ h => ?_
    exact .pure hr' ⟨rfl, Neighborhood.isPerm_of_rotationsBy h, .rotate h⟩

lemma stores_reflect (hr : r.Sound) (nb : Neighborhood) (a b : String) :
    Keeps r (reflect nb a b) fun r' t => Stands r' nb s!"reflect({a},{b})" t := by
  refine keeps_memo hr ?_ ?_
  · rw [runFrom_bind, runFrom_failing]
    cases nb.reflectAcross a b <;> exact id
  · refine .bind (.failing hr _) fun p r' hr' _ h => ?_
    refine .pure hr' ⟨rfl, fun q hq => ?_, .reflect h⟩
    rw [List.mem_singleton.mp hq]
    exact Neighborhood.isPerm_of_reflectAcross h

lemma stores_permute (hr : r.Sound) (nb : Neighborhood) (labels : List String) :
    Keeps r (permute nb labels) fun r' t => ∃ positions, nb.positions labels = .ok positions ∧
      Stands r' nb (permuteName nb positions) t := by
  refine .bind (.failing hr _) fun positions r' hr' _ h => ?_
  obtain ⟨hsorted, hlt⟩ := Neighborhood.positions_spec h
  refine (keeps_memo hr' ?_ ?_).imp fun _ _ _ _ ht => ⟨positions, h, ht⟩
  · exact id
  · refine .pure hr' ⟨rfl, ?_, .permute hsorted hlt⟩
    change Groups.Valid _ _
    split
    · have hnodup : positions.Nodup := hsorted.imp ne_of_lt
      exact ⟨by simpa using hnodup, by simpa using hlt⟩
    · exact ⟨by simp, by simp⟩

lemma keeps_none (hr : r.Sound) (nb : Neighborhood) :
    Keeps r (none nb) fun r' t => Yields nb True r' t ∧ t.presentation = .generated [] := by
  refine (stores_none hr nb).imp fun r' t _ hs ht => ?_
  have hp := (ht.made hs).trivial
  exact ⟨⟨ht.knows, ht.neighborhood, fun _ => hp ▸ True.intro⟩, hp⟩

lemma keeps_rotate (hr : r.Sound) (nb : Neighborhood) (ways : ℤ) :
    Keeps r (rotate nb ways) (Yields nb True) :=
  (stores_rotate hr nb ways).yields fun _ => by simp

lemma keeps_reflect (hr : r.Sound) (nb : Neighborhood) (a b : String) :
    Keeps r (reflect nb a b) (Yields nb True) :=
  (stores_reflect hr nb a b).yields fun _ => by simp

lemma keeps_permute (hr : r.Sound) (nb : Neighborhood) (labels : List String) :
    Keeps r (permute nb labels) (Yields nb True) := by
  refine (stores_permute hr nb labels).imp fun r' t _ hs ⟨positions, _, ht⟩ => ?_
  refine ⟨ht.knows, ht.neighborhood, fun _ => (ht.made hs).closed ?_⟩
  unfold permuteName
  split <;> simp

lemma commonNeighborhood_ok {ts : List Symmetry} (h : commonNeighborhood ts = .ok nb) :
    ts ≠ [] ∧ ∀ t ∈ ts, t.neighborhood = nb := by
  cases ts with
  | nil => cases h
  | cons t ts =>
    rw [commonNeighborhood] at h
    split at h
    · cases h
    · next hf =>
      cases h
      rw [List.find?_eq_none] at hf
      exact ⟨List.cons_ne_nil _ _, by simpa using hf⟩

/-- A type alone is itself; several are composed under their names. -/
lemma stores_compose (hr : r.Sound) {ts : List Symmetry}
    (h : ∀ t ∈ ts, r.Knows t ∧ t.neighborhood = nb) :
    Keeps r (compose ts) fun r' t =>
      ts = [t] ∨ Stands r' nb ("compose(" ++ sortedNames ts ++ ")") t := by
  refine .bind (.failing hr _) fun nb' r' hr' hext hnb => ?_
  obtain ⟨hne, hall⟩ := commonNeighborhood_ok hnb
  obtain ⟨t, ht⟩ := List.exists_mem_of_ne_nil ts hne
  obtain rfl : nb = nb' := (h t ht).2.symm.trans (hall t ht)
  split
  · exact .pure hr' (.inl rfl)
  · have hknown : ∀ t ∈ ts, r'.Knows t ∧ t.neighborhood = nb :=
      fun t ht => ⟨(h t ht).1.mono hext, hall t ht⟩
    refine (keeps_memo hr' ?_ ?_).imp fun _ _ _ _ => .inr
    · exact id
    · exact .pure hr' ⟨rfl, valid_composition fun t ht => ⟨hr'.valid t (hknown t ht).1, hall t ht⟩,
        .compose hne hknown⟩

lemma stores_combine (hr : r.Sound) {ts : List Symmetry}
    (h : ∀ t ∈ ts, r.Knows t ∧ t.neighborhood = nb) :
    Keeps r (combine ts) fun r' t =>
      ts = [t] ∨ Stands r' nb ("combine(" ++ sortedNames ts ++ ")") t := by
  refine .bind (.failing hr _) fun nb' r' hr' hext hnb => ?_
  obtain ⟨hne, hall⟩ := commonNeighborhood_ok hnb
  obtain ⟨t, ht⟩ := List.exists_mem_of_ne_nil ts hne
  obtain rfl : nb = nb' := (h t ht).2.symm.trans (hall t ht)
  split
  · exact .pure hr' (.inl rfl)
  · have hknown : ∀ t ∈ ts, r'.Knows t ∧ t.neighborhood = nb :=
      fun t ht => ⟨(h t ht).1.mono hext, hall t ht⟩
    refine (keeps_memo hr' ?_ ?_).imp fun _ _ _ _ => .inr
    · exact id
    · refine .pure hr' ⟨rfl, fun p hp => ?_, .combine hne hknown⟩
      obtain ⟨t, ht, hp⟩ := List.mem_flatMap.mp hp
      have := Symmetry.isPerm_of_mem (hr'.valid t (hknown t ht).1) hp
      rwa [hall t ht] at this

lemma keeps_compose (hr : r.Sound) {ts : List Symmetry} {closed : Prop}
    (h : ∀ t ∈ ts, Yields nb closed r t) : Keeps r (compose ts) (Yields nb closed) := by
  refine (stores_compose hr fun t ht => ⟨(h t ht).1, (h t ht).2.1⟩).imp fun r' t hext hs ht => ?_
  rcases ht with rfl | ht
  · exact (h t (List.mem_singleton_self t)).mono hext
  · exact ⟨ht.knows, ht.neighborhood, fun _ => (ht.made hs).closed (by simp)⟩

lemma keeps_combine (hr : r.Sound) {ts : List Symmetry} {closed : Prop}
    (h : ∀ t ∈ ts, Yields nb closed r t) : Keeps r (combine ts) (Yields nb False) := by
  refine (stores_combine hr fun t ht => ⟨(h t ht).1, (h t ht).2.1⟩).imp fun r' t hext hs ht => ?_
  rcases ht with rfl | ht
  · obtain ⟨hk, hn, -⟩ := (h t (List.mem_singleton_self t)).mono hext
    exact ⟨hk, hn, False.elim⟩
  · exact ⟨ht.knows, ht.neighborhood, False.elim⟩

/-! ### Classes -/

section Steps

variable {R : Registry → Registry → Prop} [Std.Refl R] [IsTrans Registry R]

lemma memo_steps {build : RegistryM Symmetry}
    (hstore : ∀ r t, t.key = keyOf nb name → R r (r.withType t)) (hbuild : Steps R build) :
    Steps R (memo nb name build) := by
  intro r
  rw [runFrom_memo]
  split
  · exact refl_of R r
  · split
    · next b r' hrun => exact trans_of R (hbuild.run hrun) (hstore r' _ rfl)
    · next e r' hrun => exact hbuild.run hrun

/-- What holds whenever a type is stored that is not a class holds of making a class. -/
lemma prepare_steps (hstore : ∀ r nb name t, name.toList.take 2 ≠ ['c', 'l'] →
    t.key = keyOf nb name → R r (r.withType t)) (nb : Neighborhood) (recipe : Recipe) :
    Steps R (prepare nb recipe) := by
  have hrotate : ∀ ways, Steps R (rotate nb ways) := fun ways =>
    memo_steps (fun r t => hstore r nb _ t (by simp)) ((Steps.failing _).bind fun _ => .pure _)
  have hreflect : ∀ a b, Steps R (reflect nb a b) := fun a b =>
    memo_steps (fun r t => hstore r nb _ t (by simp)) ((Steps.failing _).bind fun _ => .pure _)
  have hcompose : ∀ ts, Steps R (compose ts) := by
    intro ts
    refine (Steps.failing _).bind fun nb => ?_
    split
    · exact .pure _
    · exact memo_steps (fun r t => hstore r nb _ t (by simp)) (.pure _)
  cases recipe with
  | none => exact memo_steps (fun r t => hstore r nb _ t (by decide)) (.pure _)
  | rotate ways => exact hrotate ways
  | reflect a b => exact hreflect _ _
  | rotateReflect ways a b =>
    exact (hrotate ways).bind fun _ => (hreflect _ _).bind fun _ => hcompose _
  | permute =>
    refine (Steps.failing _).bind fun positions =>
      memo_steps (fun r t => hstore r nb _ t ?_) (.pure _)
    unfold permuteName
    split <;> simp

end Steps

def SameClasses (r r' : Registry) : Prop :=
  ∀ nb name, r'.types[keyOf nb ("class:" ++ name)]? = r.types[keyOf nb ("class:" ++ name)]?

instance : Std.Refl SameClasses := ⟨fun _ _ _ => rfl⟩

instance : IsTrans Registry SameClasses :=
  ⟨fun _ _ _ h h' nb name => (h' nb name).trans (h nb name)⟩

lemma prepare_sameClasses (nb : Neighborhood) (recipe : Recipe) :
    Steps SameClasses (prepare nb recipe) := by
  refine prepare_steps (fun r nb name t hname hkey nb' name' => ?_) nb recipe
  rw [getElem?_withType, if_neg]
  intro h
  rw [(keyOf_inj (hkey.symm.trans h)).2] at hname
  simp at hname

def SameChoices (r r' : Registry) : Prop := r'.chosen = r.chosen

instance : Std.Refl SameChoices := ⟨fun _ => rfl⟩

instance : IsTrans Registry SameChoices := ⟨fun _ _ _ h h' => h'.trans h⟩

lemma named_sameChoices (nb : Neighborhood) (name : String) :
    Steps SameChoices (named nb name) := by
  unfold named
  extract_lets name
  split
  · exact .refuse _ _
  · exact memo_steps (fun _ _ _ => rfl)
      ((prepare_steps (fun _ _ _ _ _ _ => rfl) nb _).bind fun _ => .pure _)

lemma largestShared_sameChoices (nb : Neighborhood) (types : List Symmetry) :
    Steps SameChoices (largestShared nb types) := by
  refine (Steps.mapM fun _ _ => named_sameChoices nb _).bind fun _ => ?_
  exact (memo_steps (fun _ _ _ => rfl) (.pure _)).bind fun _ => .pure _

lemma keeps_prepare (hr : r.Sound) (nb : Neighborhood) (recipe : Recipe) :
    Keeps r (prepare nb recipe) (Yields nb True) := by
  cases recipe with
  | none => exact (keeps_none hr nb).imp fun _ _ _ _ h => h.1
  | rotate ways => exact keeps_rotate hr nb ways
  | reflect a b => exact keeps_reflect hr nb _ _
  | rotateReflect ways a b =>
    refine (keeps_rotate hr nb ways).bind fun turns r₁ hr₁ _ hturns => ?_
    refine (keeps_reflect hr₁ nb _ _).bind fun flip r₂ hr₂ hext hflip => ?_
    refine keeps_compose hr₂ fun t ht => ?_
    rcases List.mem_pair.mp ht with rfl | rfl
    · exact hturns.mono hext
    · exact hflip
  | permute => exact keeps_permute hr nb []

lemma valid_groupAround (h : t.Valid) : t.groupAround.Valid t.neighborhood.size := by
  unfold Symmetry.groupAround
  split
  · next groups hg => exact Symmetry.valid_groups h hg
  · exact Symmetry.isPerm_generators h

lemma stores_named (hr : r.Sound) (nb : Neighborhood) (name : String) :
    Keeps r (named nb name) fun r' t =>
      Stands r' nb ("class:" ++ Text.lower (Text.trim name)) t := by
  unfold named
  extract_lets name
  split
  · exact .refuse hr _ _
  · next recipe hrec =>
    refine keeps_memo hr ?_ ?_
    · intro hnew
      have hsteps := (prepare_sameClasses nb recipe).bind (R := SameClasses) fun base =>
        Steps.pure ({
          name := name, neighborhood := nb, presentation := base.groupAround } : Symmetry)
      exact (hsteps r nb name).trans hnew
    · refine (keeps_prepare hr nb recipe).andReplays.bind fun base r' hr' _ h => ?_
      obtain ⟨⟨hk, rfl, -⟩, hrep⟩ := h
      exact .pure hr' ⟨rfl, valid_groupAround (hr'.valid base hk), .named hrec hrep hk rfl⟩

lemma keeps_named (hr : r.Sound) (nb : Neighborhood) (name : String) :
    Keeps r (named nb name) (Yields nb True) :=
  (stores_named hr nb name).yields fun _ => by simp

lemma keeps_mapM {post : Registry → β → Prop} {f : α → RegistryM β} {l : List α} (hr : r.Sound)
    (hmono : ∀ {r r' b}, post r b → r.Extends r' → post r' b)
    (hf : ∀ a ∈ l, ∀ r : Registry, r.Sound → Keeps r (f a) post) :
    Keeps r (l.mapM f) fun r' bs => ∀ b ∈ bs, post r' b := by
  induction l generalizing r with
  | nil => exact .pure hr (List.forall_mem_nil _)
  | cons a l ih =>
    rw [List.mapM_cons]
    refine (hf a List.mem_cons_self r hr).bind fun b r₁ hr₁ _ hb => ?_
    refine (ih hr₁ fun a ha => hf a (List.mem_cons_of_mem _ ha)).bind fun bs r₂ hr₂ hext hbs => ?_
    exact .pure hr₂ (List.forall_mem_cons.mpr ⟨hmono hb hext, hbs⟩)

lemma keeps_classes (hr : r.Sound) (nb : Neighborhood) :
    Keeps r (classes nb) fun r' ts => ∀ t ∈ ts, Yields nb True r' t :=
  keeps_mapM hr Yields.mono fun _ _ _ hr => keeps_named hr nb _

end Registry

end RuleTable
