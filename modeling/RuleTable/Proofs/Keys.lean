import RuleTable.Proofs.Expansion
import RuleTable.Proofs.Representatives
import RuleTable.Proofs.Spans

/-!
What keys tell apart.

A state is written in decimal and a variable with a dollar sign, its name, a sign and its origin.
The name may hold anything, but the origin does not hold the sign, so the last sign of a key ends
the name. Numbers with commas between them can be read off as well. So it makes no difference
whether something is looked up by its key or by itself.

Where keys are put together to a longer text this has to be seen anew. The rows of one layout have
their variables in the same places, and what an orbit is stored under begins with the key of a type,
which has no bar. But the text by which reduction remembers a row cannot be taken apart if names
have the marks that stand between its parts, and then a row can get lost.
-/

namespace RuleTable

open Relabeling

/-! ### Values -/

/-- The values count as one: they are the same state, or one occurrence of variables with one
name. -/
def Value.Coincides : Value → Value → Prop
  | .free v o, .free v' o' => v.name = v'.name ∧ o = o'
  | .state t _ _, .state t' _ _ => t = t'
  | _, _ => False

/-- **Keys of values** are equal for values that count as one. -/
lemma Value.key_eq_iff {u u' : Value} : u.key = u'.key ↔ u.Coincides u' := by
  cases u' with
  | free v o =>
    constructor
    · intro h
      obtain ⟨w, rfl, hname⟩ := Value.exists_free_of_key h
      exact ⟨hname, rfl⟩
    · intro h
      cases u with
      | free w o' =>
        obtain ⟨hname, rfl⟩ := h
        simp [Value.key, hname]
      | state t d o' => exact h.elim
  | state t d o =>
    cases u with
    | free w o' =>
      refine ⟨fun h => ?_, False.elim⟩
      obtain ⟨_, hv, -⟩ := Value.exists_free_of_key h.symm
      cases hv
    | state t' d' o' => exact ⟨toString_int_inj, congrArg toString⟩

lemma map_key_eq_iff {l l' : List Value} :
    l.map Value.key = l'.map Value.key ↔ List.Forall₂ Value.Coincides l l' := by
  rw [← List.forall₂_eq_eq_eq, List.forall₂_map_left_iff, List.forall₂_map_right_iff]
  simp only [Value.key_eq_iff]

/-- The ranks of a napkin's values are equal for values that count as one. -/
lemma getElem?_intern_eq_iff {napkin : List Value} {i j : ℕ} {u u' : Value}
    (hi : napkin[i]? = some u) (hj : napkin[j]? = some u') :
    (intern napkin Value.key).1[i]? = (intern napkin Value.key).1[j]? ↔ u.Coincides u' := by
  have hu : u.key ∈ sortedKeys (napkin.map Value.key) :=
    mem_sortedKeys.mpr (List.mem_map_of_mem (List.mem_of_getElem? hi))
  rw [intern_fst, List.getElem?_map, List.getElem?_map, hi, hj, Option.map_some, Option.map_some,
    Option.some.injEq, List.idxOf_inj hu, Value.key_eq_iff]

/-! ### Rows of one layout -/

lemma Value.Same.coincides {u u' : Value} (h : u.Same u') : u.Coincides u' := by
  cases u <;> cases u' <;> simp_all [Value.Same, Value.Coincides]

lemma Row.Alike.key_eq_iff {row row' : Row} (h : row.Alike row') :
    row.key = row'.key ↔ List.Forall₂ Value.Coincides row row' := by
  constructor
  · exact fun he => (h.same he).imp fun _ _ => Value.Same.coincides
  · intro hc
    rw [Row.key, Row.key, map_key_eq_iff.mpr hc]

lemma Row.pairwise_fold {seen : Std.HashSet String} {out : Array Row} (h : Row.Kept seen out)
    (hout : out.toList.Pairwise fun row row' => row.key ≠ row'.key) (rows : List Row) :
    (rows.foldl (fun (p : Std.HashSet String × Array Row) row =>
      if p.1.contains row.key then p else (p.1.insert row.key, p.2.push row))
      (seen, out)).2.toList.Pairwise fun row row' => row.key ≠ row'.key := by
  induction rows generalizing seen out with
  | nil => exact hout
  | cons r rows ih =>
    simp only [List.foldl_cons]
    split
    · exact ih h hout
    · next hseen =>
      refine ih (h.push r) ?_
      rw [Array.toList_push, List.pairwise_append]
      refine ⟨hout, List.pairwise_singleton _ _, fun row hrow row' hrow' he => hseen ?_⟩
      rw [List.mem_singleton.mp hrow'] at he
      exact (h _).mpr ⟨row, Array.mem_toList_iff.mp hrow, he⟩

/-- Of the rows that are kept no two have one text. -/
lemma Row.pairwise_distinct (rows : List Row) :
    (Row.distinct rows).Pairwise fun row row' => row.key ≠ row'.key :=
  Row.pairwise_fold Row.kept_empty .nil rows

/-- Of the rows of a layout that count as one exactly one is kept. -/
lemma Cell.expand_keeps {cells : List Cell} {span : Span} {s s' : Scope} {out : List Row}
    (h : runFrom (Cell.expand cells span) s = (.ok out, s')) :
    ∃ rows, runFrom (Cell.branch span ((cells.filter (!·.isLiteral)).length + 1) cells) s =
        (.ok rows, s') ∧ (∀ row ∈ out, row ∈ rows) ∧
      (∀ row ∈ rows, ∃ row' ∈ out, List.Forall₂ Value.Coincides row' row) ∧
      out.Pairwise fun row row' => ¬ List.Forall₂ Value.Coincides row row' := by
  obtain ⟨rows, s₁, hrows, h⟩ := runFrom_bind_ok.mp h
  cases h
  have halike := Cell.branch_pairwise hrows
  refine ⟨rows, hrows, fun row => Row.mem_of_mem_distinct, fun row hrow => ?_, ?_⟩
  · obtain ⟨row', hrow', hkey⟩ := Row.exists_mem_distinct hrow
    refine ⟨row', hrow', ?_⟩
    by_cases he : row' = row
    · exact map_key_eq_iff.mp (by rw [he])
    · exact (halike.forall (Row.mem_of_mem_distinct hrow') hrow he).key_eq_iff.mp hkey
  · refine (Row.pairwise_distinct rows).imp fun hne hc => hne ?_
    rw [Row.key, Row.key, map_key_eq_iff.mpr hc]

/-! ### Elements noted by their texts -/

/-- Elements in the order they came in, and the texts of all of them. -/
structure Noted (α : Type) where
  texts : Std.HashSet String := ∅
  items : Array α := #[]

namespace Noted

variable {α : Type} {key : α → String} {s : Noted α}

def insert (key : α → String) (s : Noted α) (a : α) : Noted α :=
  if s.texts.contains (key a) then s
  else { texts := s.texts.insert (key a), items := s.items.push a }

variable [BEq α] [Hashable α] {d : Distinct α}

/-- The elements are the same, and the texts are theirs. -/
structure Tracks (key : α → String) (s : Noted α) (d : Distinct α) : Prop where
  sound : d.Sound
  items : s.items = d.items
  texts : ∀ a, key a ∈ s.texts ↔ a ∈ d.toList

lemma tracks_empty : Tracks key {} (Distinct.empty : Distinct α) where
  sound := Distinct.sound_empty
  items := rfl
  texts := by simp [Distinct.empty, Distinct.toList]

variable [LawfulBEq α]

lemma Tracks.insert (hkey : Function.Injective key) (h : Tracks key s d) (a : α) :
    Tracks key (s.insert key a) (d.insert a) := by
  have hiff : s.texts.contains (key a) = d.seen.contains a :=
    Bool.eq_iff_iff.mpr ((h.texts a).trans (h.sound.seen a).symm)
  refine ⟨h.sound.insert a, ?_, fun b => ?_⟩
  · unfold Noted.insert Distinct.insert
    rw [hiff]
    split
    · exact h.items
    · exact congrArg (·.push a) h.items
  · rw [Distinct.mem_insert h.sound, ← h.texts b]
    unfold Noted.insert
    split
    · next hseen => exact ⟨.inl, fun hb => hb.elim id fun hb => hb ▸ hseen⟩
    · rw [Std.HashSet.mem_insert, beq_iff_eq, hkey.eq_iff, or_comm, eq_comm]

lemma Tracks.foldl (hkey : Function.Injective key) (h : Tracks key s d) (l : List α) :
    Tracks key (l.foldl (Noted.insert key) s) (l.foldl Distinct.insert d) := by
  induction l generalizing s d with
  | nil => exact h
  | cons a l ih => exact ih (h.insert hkey a)

end Noted

def Relabeling.notedFrom (gens : List Relabeling) : ℕ → ℕ → Noted Relabeling → Noted Relabeling
  | 0, _, found => found
  | rounds + 1, i, found =>
    match found.items[i]? with
    | none => found
    | some p =>
      notedFrom gens rounds (i + 1)
        (gens.foldl (fun s g => s.insert Relabeling.key (p.andThen g)) found)

lemma Relabeling.key_injective : Function.Injective Relabeling.key := fun _ _ => numerals_inj

/-- Searching by text comes to the products that searching comes to. -/
lemma Relabeling.tracks_notedFrom (gens : List Relabeling) (rounds i : ℕ) {s : Noted Relabeling}
    {d : Distinct Relabeling} (h : s.Tracks Relabeling.key d) :
    (notedFrom gens rounds i s).Tracks Relabeling.key (closureFrom gens rounds i d) := by
  induction rounds generalizing i s d with
  | zero => exact h
  | succ rounds ih =>
    rw [notedFrom, closureFrom, h.items]
    cases d.items[i]? with
    | none => exact h
    | some p =>
      refine ih (i + 1) ?_
      have hfold := h.foldl Relabeling.key_injective (gens.map p.andThen)
      rwa [List.foldl_map, List.foldl_map] at hfold

/-! ### What reduction remembers -/

namespace Rule

variable {rule : Rule} {target : Symmetry} {rows : List Row} {item item' : Item}

/-- For names without marks, two rows are remembered under one text exactly if their ends count as
one and the target makes of one napkin what counts as the other. -/
lemma Item.key_eq_iff (hv : target.Valid) (hc : target.presentation.Closed)
    (hlen : item.napkin.length = target.neighborhood.size)
    (hlen' : item'.napkin.length = target.neighborhood.size)
    (hk : ∀ v o, .free v o ∈ item.row → Unmarked v.name)
    (hk' : ∀ v o, .free v o ∈ item'.row → Unmarked v.name) :
    item.key target = item'.key target ↔ item.initial.Coincides item'.initial ∧
      item.result.Coincides item'.result ∧
      ∃ p ∈ target.relabelings, List.Forall₂ Value.Coincides
        (p.apply item.napkin) item'.napkin := by
  simp only [← Value.key_eq_iff, ← map_key_eq_iff, ← apply_map, ← and_assoc]
  constructor
  · refine Item.key_eq hv hc hlen hlen' (fun u hu => ?_) fun u hu => ?_
    · exact unmarked_key fun v o he => hk v o (he ▸ hu)
    · exact unmarked_key fun v o he => hk' v o (he ▸ hu)
  · rintro ⟨hends, hreach⟩
    exact Item.key_congr hv hc hlen hlen' hends hreach

/-- The item is one of the rows, rearranged by the rule's symmetry as far as keys tell. -/
def Arises (rule : Rule) (rows : List Row) (item : Item) : Prop :=
  ∃ item₀ : Item, item₀.row ∈ rows ∧ item.initial = item₀.initial ∧ item.result = item₀.result ∧
    rule.symmetry.Reaches item₀.napkin item.napkin

/-- Of the rearrangements of the rows, only such are remembered under one text as agree up to the
target. -/
def TellsApart (rule : Rule) (target : Symmetry) (rows : List Row) : Prop :=
  ∀ item item', rule.Arises rows item → rule.Arises rows item' →
    item.key target = item'.key target →
    item.SameEnds item' ∧ target.Reaches item.napkin item'.napkin

/-- Napkins that a group makes of one napkin it makes of each other. -/
lemma reaches_trans (hv : target.Valid) (hc : target.presentation.Closed) {x y z : List Value}
    (hx : x.length = target.neighborhood.size) (hy : y.length = target.neighborhood.size)
    (hxy : target.Reaches x y) (hxz : target.Reaches x z) : target.Reaches y z := by
  have hgroup := Symmetry.isGroup hv hc
  obtain ⟨p, hp, hpx⟩ := hxy
  obtain ⟨q, hq, hqx⟩ := hxz
  obtain ⟨r, hr, hundo⟩ := hgroup.undo hp
  refine ⟨r.andThen q, hgroup.mul r hr q hq, ?_⟩
  rw [(hgroup.perm r hr).apply_andThen (hgroup.perm q hq) (by rw [List.length_map, hy]), ← hpx,
    hundo _ (by rw [List.length_map, hx]), hqx]

lemma length_of_mem_rows (hlen : ∀ row ∈ rows, row.length = rule.neighborhood.size + 2)
    (hitem : item.row ∈ rows) : item.napkin.length = rule.neighborhood.size := by
  simpa [Item.row] using hlen _ hitem

section Remembering

variable (h : rule.Fits target) (hlen : ∀ row ∈ rows, row.length = rule.neighborhood.size + 2)

include h hlen

lemma Arises.napkin_length (ha : rule.Arises rows item) :
    item.napkin.length = target.neighborhood.size := by
  obtain ⟨item₀, hrow, -, -, p, hp, hkeys⟩ := ha
  have hperm := Symmetry.isPerm_of_mem h.declared hp
  rw [h.declared_neighborhood] at hperm
  have hsize := congrArg List.length hkeys
  rw [hperm.length_apply (by rw [List.length_map, length_of_mem_rows hlen hrow])] at hsize
  rw [h.written_neighborhood]
  simpa using hsize.symm

lemma Arises.of_mem (hitem : item.row ∈ rows) : rule.Arises rows item := by
  refine ⟨item, hitem, rfl, rfl, _, Symmetry.identity_mem h.declared, apply_identity ?_⟩
  rw [List.length_map, length_of_mem_rows hlen hitem, h.declared_neighborhood]

lemma arises_of_mem_reduce {kept : List Item}
    (hout : Comes (rule.reduce target rows) (kept.map Item.row)) (hitem : item ∈ kept) :
    rule.Arises rows item := by
  obtain ⟨item₀, i, hrow, he, hre⟩ := reduce_sound h hlen hout _ (List.mem_map_of_mem hitem)
  obtain rfl := Item.row_inj he
  obtain ⟨p, hp, hkeys⟩ := hre.napkin
  exact ⟨item₀, hrow, hre.initial, hre.result, p, hp, hkeys.symm⟩

/-- If what is kept stands for the rows, texts tell their rearrangements apart: a row is kept for
each of two, and under one text there is only one. -/
lemma Represents.tellsApart (hc : target.presentation.Closed) {kept : List Item}
    (hrep : rule.Represents target rows kept)
    (hout : Comes (rule.reduce target rows) (kept.map Item.row))
    (hapart : (kept.map Item.row).Pairwise (Apart target)) : rule.TellsApart target rows := by
  have hkept : ∀ {i : Item}, rule.Arises rows i →
      ∃ a ∈ kept, a.SameEnds i ∧ target.Reaches a.napkin i.napkin ∧
        a.key target = i.key target := by
    intro i hi
    obtain ⟨i₀, hrow, hinitial, hresult, hreach⟩ := hi
    obtain ⟨a, ha, hends, hmade⟩ := hrep.complete i₀ hrow _ hreach
    have hsame : a.SameEnds i := by rwa [Item.SameEnds, hinitial, hresult]
    refine ⟨a, ha, hsame, hmade, Item.key_congr h.written hc ?_ ?_ hsame hmade⟩
    · exact (arises_of_mem_reduce h hlen hout ha).napkin_length h hlen
    · exact Arises.napkin_length h hlen ⟨i₀, hrow, hinitial, hresult, hreach⟩
  intro item item' hitem hitem' hkey
  obtain ⟨a, ha, hends, hreach, hka⟩ := hkept hitem
  obtain ⟨b, hb, hends', hreach', hkb⟩ := hkept hitem'
  have : Std.Symm (Apart target) := ⟨fun _ _ hrows i i' hi hi' he => hrows i' i hi' hi he.symm⟩
  obtain rfl : a = b := by
    by_contra hab
    exact hapart.forall (List.mem_map_of_mem ha) (List.mem_map_of_mem hb) (mt Item.row_inj hab) a b
      rfl rfl (hka.trans (hkey.trans hkb.symm))
  refine ⟨⟨hends.1.symm.trans hends'.1, hends.2.symm.trans hends'.2⟩, ?_⟩
  exact reaches_trans h.written hc ((arises_of_mem_reduce h hlen hout ha).napkin_length h hlen)
    (hitem.napkin_length h hlen) hreach hreach'

/-- If the types have the same relabelings the rows stay, and stand for themselves. -/
lemma represents_of_equivalent (hequiv : rule.symmetry.equivalent target = true) {kept : List Item}
    (hrows : kept.map Item.row = rows) : rule.Represents target rows kept := by
  refine ⟨fun item hitem => ?_, fun item hitem napkin hreach => ?_, fun hne => ?_⟩
  · have hrow : item.row ∈ rows := hrows ▸ List.mem_map_of_mem hitem
    exact Arises.of_mem h hlen hrow
  · obtain ⟨p, hp, hkeys⟩ := hreach
    rw [← hrows] at hitem
    obtain ⟨i, hi, he⟩ := List.mem_map.mp hitem
    obtain rfl := Item.row_inj he
    have hsame := ((Symmetry.equivalent_iff h.declared h.written).mp hequiv).2
    exact ⟨i, hi, ⟨rfl, rfl⟩, p, (hsame p).mp hp, hkeys⟩
  · rw [hequiv] at hne
    cases hne

/-- **When nothing is lost.** What is kept stands for the rows exactly if texts tell their
rearrangements apart, or rule and target have the same relabelings. -/
lemma represents_iff (hc : target.presentation.Closed)
    (hsame : rule.symmetry.key = target.key → rule.symmetry = target) {kept : List Item}
    (hout : Comes (rule.reduce target rows) (kept.map Item.row)) :
    rule.Represents target rows kept ↔
      rule.symmetry.equivalent target = true ∨ rule.TellsApart target rows := by
  obtain ⟨out, hcomes, hspec⟩ := reduce_comes h hlen
  obtain rfl := hout.unique hcomes
  by_cases hequiv : rule.symmetry.equivalent target = true
  · rw [if_pos (by simp [hequiv])] at hspec
    exact ⟨fun _ => .inl hequiv, fun _ => represents_of_equivalent h hlen hequiv hspec⟩
  have hkey : rule.symmetry.key ≠ target.key := by
    intro hkey
    refine hequiv ?_
    rw [hsame hkey]
    exact (Symmetry.equivalent_iff h.written h.written).mpr ⟨rfl, fun _ => Iff.rfl⟩
  rw [if_neg (by simp [hkey, hequiv])] at hspec
  obtain ⟨done, hitems, -, hfound, hapart⟩ := hspec
  refine ⟨fun hrep => .inr (hrep.tellsApart h hlen hc hout hapart), fun htells => ?_⟩
  replace htells := htells.resolve_left hequiv
  have harises : ∀ {i : Item}, i ∈ done → rule.Arises rows i := by
    intro i hi
    obtain ⟨i₀, hrow, himage⟩ := (hitems i).mp hi
    obtain ⟨p, hp, hkeys⟩ := himage.map_key
    exact ⟨i₀, hrow, himage.rearranges.initial, himage.rearranges.result, p, hp, hkeys.symm⟩
  refine ⟨fun item hitem => arises_of_mem_reduce h hlen hout hitem, ?_, fun _ => ?_⟩
  · rintro item hitem napkin ⟨p, hp, hnapkin⟩
    have himage : Image rule item ⟨item.initial, p.apply (normalForm item.napkin Value.key),
      item.result⟩ := ⟨p, hp, rfl⟩
    have hdone := (hitems _).mpr ⟨item, hitem, himage⟩
    obtain ⟨item', hdone', hrow, hkey⟩ := hfound _ hdone
    obtain ⟨hends, q, hq, hkeys⟩ := htells _ _ (harises hdone') (harises hdone) hkey
    obtain ⟨i, hi, he⟩ := List.mem_map.mp hrow
    obtain rfl := Item.row_inj he
    refine ⟨i, hi, hends, q, hq, ?_⟩
    rw [hkeys, ← apply_map, map_key_normalForm, hnapkin]
  · exact pairwise_of_apart h.written hc
      (fun item hitem => (arises_of_mem_reduce h hlen hout hitem).napkin_length h hlen) hapart

end Remembering

lemma canonOf_of_identity (hv : target.Valid) {napkin : List Value}
    (hlen : napkin.length = target.neighborhood.size)
    (hids : ∀ p ∈ target.relabelings, p = identity target.neighborhood.size) :
    canonOf target napkin = Symmetry.keyText (napkin.map Value.key) := by
  obtain ⟨texts, hrun, hne, htexts⟩ := Symmetry.canonicalKey_ok hv hlen Value.key
  obtain ⟨p, hp, hleast⟩ := (htexts _).mp (Symmetry.least_spec hne).1
  rw [hids p hp, apply_identity (by rw [List.length_map, hlen])] at hleast
  rw [canonOf, hrun, hleast]

/-! The rows that tell what becomes of the cells north and south of one, if nothing else is known of
what these see. -/

def binary (name : String) : Variable := { name := name, states := [0, 1] }

def unseen : Variable := binary "any"

/-- A variable whose name reads like the keys of three slots. -/
def intricate : Variable := binary "any@1\x1f$any@2\x1f$any"

def northern (v : Variable) : Item :=
  ⟨.state 0 none 0, [.free unseen 1, .free unseen 2, .free v 3, .free unseen 4], .state 1 none 5⟩

def southern (v : Variable) : Item :=
  ⟨.state 0 none 0, [.free v 1, .free unseen 2, .free unseen 3, .free unseen 4], .state 1 none 5⟩

lemma unmarked_of_mem {v w : Variable} {o : ℤ} (hv : Unmarked v.name)
    (h : .free w o ∈ (northern v).row ∨ .free w o ∈ (southern v).row) : Unmarked w.name := by
  have hw : w = unseen ∨ w = v := by
    simp only [northern, southern, Item.row, List.cons_append, List.nil_append, List.mem_cons,
      Value.free.injEq, reduceCtorEq, List.not_mem_nil, or_false, false_or] at h
    tauto
  rcases hw with rfl | rfl
  · constructor <;> decide
  · exact hv

section Unmoved

variable (hv : target.Valid) (hnb : target.neighborhood = .vonNeumann)
  (hpres : target.presentation = .generated [])

include hnb hpres

lemma eq_identity_of_unmoved {p : Relabeling} (hp : p ∈ target.relabelings) : p = identity 4 := by
  rw [Symmetry.relabelings_eq, hpres, hnb] at hp
  cases (mem_closure_iff (List.forall_mem_nil _)).mp hp with
  | one => rfl
  | snoc _ hg => cases hg

lemma not_coincide_of_unmoved {v : Variable} (hname : v.name ≠ "any") :
    ¬ ∃ p ∈ target.relabelings,
      List.Forall₂ Value.Coincides (p.apply (northern v).napkin) (southern v).napkin := by
  rintro ⟨p, hp, hall⟩
  rw [eq_identity_of_unmoved hnb hpres hp, apply_identity (n := 4) rfl] at hall
  cases hall with
  | cons hfirst _ => exact hname hfirst.1.symm

include hv

/-- The marks in the name make one text of both rows. -/
lemma key_northern_intricate :
    (northern intricate).key target = (southern intricate).key target := by
  have hids : ∀ p ∈ target.relabelings, p = identity target.neighborhood.size := by
    intro p hp
    rw [hnb, eq_identity_of_unmoved hnb hpres hp]
    rfl
  have hnorth : (northern intricate).napkin.length = target.neighborhood.size := by rw [hnb]; rfl
  have hsouth : (southern intricate).napkin.length = target.neighborhood.size := by rw [hnb]; rfl
  rw [Item.key, Item.key, canonOf_of_identity hv hnorth hids, canonOf_of_identity hv hsouth hids]
  decide

lemma not_tellsApart_intricate (h : rule.Fits target)
    (hlen : ∀ row ∈ rows, row.length = rule.neighborhood.size + 2)
    (hnorth : (northern intricate).row ∈ rows) (hsouth : (southern intricate).row ∈ rows) :
    ¬ rule.TellsApart target rows := by
  intro htells
  obtain ⟨-, p, hp, hkeys⟩ := htells _ _ (.of_mem h hlen hnorth) (.of_mem h hlen hsouth)
    (key_northern_intricate hv hnb hpres)
  rw [apply_map, map_key_eq_iff] at hkeys
  exact not_coincide_of_unmoved hnb hpres (by decide) ⟨p, hp, hkeys⟩

end Unmoved

end Rule

/-! ### Lookups -/

lemma Symmetry.contains_iff_key {t : Symmetry} (ht : t.Valid) (p : Relabeling) :
    t.contains p = true ↔ p.key ∈ t.relabelings.map Relabeling.key := by
  rw [Symmetry.contains_iff ht, List.mem_map_of_injective Relabeling.key_injective]

/-- What an orbit is asked for can be told from the text it is stored under. -/
lemma Registry.Reachable.text_eq_iff {r : Registry} (hr : r.Reachable) {key key' : OrbitKey}
    (hk : ∃ t, r.Knows t ∧ key.type = t.key) (hk' : ∃ t, r.Knows t ∧ key'.type = t.key) :
    key.text = key'.text ↔ key = key' := by
  obtain ⟨t, ht, he⟩ := hk
  obtain ⟨t', ht', he'⟩ := hk'
  refine ⟨OrbitKey.text_inj ?_ ?_, congrArg OrbitKey.text⟩
  · exact he ▸ (hr.sound.knownTo ht).2
  · exact he' ▸ (hr.sound.knownTo ht').2

lemma StateList.key_injective : Function.Injective StateList.key :=
  fun _ _ => intercalate_toString_inj

/-- Asked again, a scope gives the same variable exactly for lists with the same key. -/
lemma Scope.anonymous_again {states states' : StateList} {s s' : Scope} {v : Variable}
    (h : runFrom (Scope.anonymous states) s = (.ok v, s')) :
    runFrom (Scope.anonymous states') s' = (.ok v, s') ↔ states.key = states'.key := by
  have hholds := Scope.anonymous_ok h
  constructor
  · intro h'
    have hv := Array.find?_some hholds
    have hv' := Array.find?_some (Scope.anonymous_ok h')
    simp only [Bool.and_eq_true, beq_iff_eq] at hv hv'
    rw [← hv.2, ← hv'.2]
  · intro he
    rw [← StateList.key_injective he, Scope.runFrom_anonymous, show s'.vars.find? _ = _ from hholds]

/-- **Keys.** Values have equal keys if they count as one, and lists of numbers only if they are
equal. So what is noted or looked up by keys is what it would be without them: distinct rows, the
search for a group, members of a type, stored orbits, variables without a name, ranks in a napkin
and distinct rows of a layout. Reduction comes to a result that stands for its rows exactly if the
texts by which it remembers them tell them apart. They do if names have no marks. -/
theorem keys_identify {rule : Rule} {target : Symmetry} {r : Registry} (hr : r.Reachable)
    (hdeclared : r.Knows rule.symmetry) (hwritten : r.Knows target)
    (hclosed : target.presentation.Closed)
    (hnb : rule.symmetry.neighborhood = rule.neighborhood)
    (hnb' : target.neighborhood = rule.neighborhood) {rows : List Row}
    (hlen : ∀ row ∈ rows, row.length = rule.neighborhood.size + 2) {cache : Option OrbitCache}
    (hcache : CacheFits (r.types[·]?) cache) :
    (∀ u u' : Value, u.key = u'.key ↔ u.Coincides u') ∧
    (Function.Injective Text.commas ∧ Function.Injective Text.numerals ∧
      Function.Injective Relabeling.key ∧ Function.Injective StateList.key) ∧
    (∀ ids : List (List ℕ), (ids.foldl (Noted.insert Text.numerals) {}).items =
      (Distinct.ofList ids).items) ∧
    (∀ n gens, (notedFrom gens (count n) 0
      (Noted.insert Relabeling.key {} (identity n))).items = (closure n gens).items) ∧
    (∀ t, r.Knows t → ∀ p : Relabeling,
      (t.contains p = true ↔ p.key ∈ t.relabelings.map Relabeling.key)) ∧
    (∀ key key' : OrbitKey, (∃ t, r.Knows t ∧ key.type = t.key) →
      (∃ t, r.Knows t ∧ key'.type = t.key) → (key.text = key'.text ↔ key = key')) ∧
    (∀ (states states' : StateList) (s s' : Scope) (v : Variable),
      runFrom (Scope.anonymous states) s = (.ok v, s') →
      (runFrom (Scope.anonymous states') s' = (.ok v, s') ↔ states.key = states'.key)) ∧
    (∀ (napkin : List Value) (i j : ℕ) (u u' : Value), napkin[i]? = some u → napkin[j]? = some u' →
      ((intern napkin Value.key).1[i]? = (intern napkin Value.key).1[j]? ↔ u.Coincides u')) ∧
    (∀ (cells : List Cell) (span : Span) (s s' : Scope) (out : List Row),
      runFrom (Cell.expand cells span) s = (.ok out, s') →
      ∃ all, runFrom (Cell.branch span ((cells.filter (!·.isLiteral)).length + 1) cells) s =
          (.ok all, s') ∧ (∀ row ∈ out, row ∈ all) ∧
        (∀ row ∈ all, ∃ row' ∈ out, List.Forall₂ Value.Coincides row' row) ∧
        out.Pairwise fun row row' => ¬ List.Forall₂ Value.Coincides row row') ∧
    (∀ item item' : Rule.Item, item.napkin.length = rule.neighborhood.size →
      item'.napkin.length = rule.neighborhood.size →
      (∀ v o, .free v o ∈ item.row → Rule.Unmarked v.name) →
      (∀ v o, .free v o ∈ item'.row → Rule.Unmarked v.name) →
      (item.key target = item'.key target ↔ item.initial.Coincides item'.initial ∧
        item.result.Coincides item'.result ∧ ∃ p ∈ target.relabelings,
          List.Forall₂ Value.Coincides (p.apply item.napkin) item'.napkin)) ∧
    ∃ kept : List Rule.Item,
      (runFrom (rule.reduce target rows) cache).1 = .ok (kept.map Rule.Item.row) ∧
      (rule.Represents target rows kept ↔
        rule.symmetry.equivalent target = true ∨ rule.TellsApart target rows) := by
  have hprep : rule.Prepared target r := ⟨⟨hr.sound.valid _ hdeclared, hr.sound.valid _ hwritten,
    hnb, hnb'⟩, hclosed, hdeclared, hwritten, hr.sound⟩
  refine ⟨fun _ _ => Value.key_eq_iff, ⟨fun _ _ => intercalate_toString_inj,
    fun _ _ => numerals_inj, Relabeling.key_injective, StateList.key_injective⟩, fun ids => ?_,
    fun n gens => ?_, fun t ht p => Symmetry.contains_iff_key (hr.sound.valid t ht) p,
    fun _ _ => hr.text_eq_iff, fun _ _ _ _ _ => Scope.anonymous_again,
    fun _ _ _ _ _ => getElem?_intern_eq_iff, fun _ _ _ _ _ => Cell.expand_keeps,
    fun item item' hi hi' => ?_, ?_⟩
  · exact (Noted.tracks_empty.foldl (fun _ _ => numerals_inj) ids).items
  · exact (tracks_notedFrom gens _ 0
      (Noted.tracks_empty.insert Relabeling.key_injective (identity n))).items
  · exact Rule.Item.key_eq_iff hprep.fits.written hclosed (by rw [hi, hnb']) (by rw [hi', hnb'])
  · obtain ⟨out, hcomes, hrun⟩ := hprep.comes hlen hcache
    have hrows : ∀ row ∈ out, row.length = rule.neighborhood.size + 2 := by
      intro row hrow
      obtain ⟨i, i', hi, rfl, hre⟩ := Rule.reduce_sound hprep.fits hlen hcomes row hrow
      exact hre.length hprep.fits (hlen _ hi)
    obtain ⟨kept, rfl⟩ := Rule.exists_items hrows
    exact ⟨kept, hrun, Rule.represents_iff hprep.fits hlen hclosed hprep.same hcomes⟩

lemma exists_ok_of_isSome {σ α : Type} {act : ExceptT Stop (StateM σ) α} {s : σ}
    (h : (runFrom act s).1.toOption.isSome = true) : ∃ a s', runFrom act s = (.ok a, s') := by
  cases he : runFrom act s with
  | mk result s' =>
    rw [he] at h
    cases result with
    | ok a => exact ⟨a, s', rfl⟩
    | error e => cases h

/-- A registry that knows the reflection that changes north with east and south with west, and the
identity alone. -/
lemma Registry.exists_diagonal : ∃ (r : Registry) (t target : Symmetry),
    r.Reachable ∧ r.Knows t ∧ r.Knows target ∧ t.neighborhood = .vonNeumann ∧
      target.neighborhood = .vonNeumann ∧ t.presentation = .generated [[1, 0, 3, 2]] ∧
      target.presentation = .generated [] := by
  obtain ⟨t, r₁, ht⟩ : Registry.Succeeds {} (Registry.reflect .vonNeumann "NE" "SW") :=
    Registry.succeeds_reflect rfl
  have hkeeps := Registry.keeps_reflect Registry.sound_empty .vonNeumann "NE" "SW"
  have hsound := hkeeps.sound
  have hyields := hkeeps.post t (by rw [ht])
  rw [ht] at hsound hyields
  obtain ⟨target, r, htarget⟩ : Registry.Succeeds r₁ (Registry.none .vonNeumann) :=
    .memo ⟨_, _, rfl⟩
  have hkeeps' := Registry.keeps_none hsound .vonNeumann
  have hgrows := hkeeps'.grows
  have hyields' := hkeeps'.post target (by rw [htarget])
  rw [htarget] at hgrows hyields'
  have hreach : r.Reachable := by
    have h := (Registry.History.start (r := {})).ask (.reflect .vonNeumann "NE" "SW")
      (by simp [Registry.Request.types])
    have h' := h.ask (.none .vonNeumann) (by simp [Registry.Request.types])
    simp only [Registry.after, ht, htarget] at h'
    exact h'
  have hpres : t.presentation = .generated [[1, 0, 3, 2]] := by
    have h : (runFrom (Registry.reflect .vonNeumann "NE" "SW") {}).1.toOption.map
        (·.presentation) = some (.generated [[1, 0, 3, 2]]) := by cbv
    rw [ht] at h
    exact Option.some.inj h
  exact ⟨r, t, target, hreach, hyields.1.mono hgrows, hyields'.1.1,
    hyields.2.1, hyields'.1.2.1, hpres,
    hyields'.2⟩

/-- A rule under the reflection that changes north with east and south with west, written for a
table without symmetry. With the name that reads like keys one of the two rows gets lost. -/
theorem keys_identify_intricate : ∃ (rule : Rule) (target : Symmetry) (r : Registry),
    r.Reachable ∧ r.Knows rule.symmetry ∧ r.Knows target ∧ target.presentation = .generated [] ∧
    rule.symmetry.neighborhood = rule.neighborhood ∧ target.neighborhood = rule.neighborhood ∧
    (Value.free Rule.intricate 1).key ≠ (Value.free Rule.unseen 1).key ∧
    (OrbitKey.napkin target.key [1, 12]).text ≠ (OrbitKey.napkin target.key [11, 2]).text ∧
    (∃ (v : Variable) (s : Scope),
      runFrom (Scope.anonymous [-1, 0]) Rule.ternaryScope = (.ok v, s) ∧
      runFrom (Scope.anonymous [-10]) s ≠ (.ok v, s)) ∧
    (runFrom (Cell.expand Rule.mixedRule.cells Rule.mixedRule.span) Rule.ternaryScope =
        (.ok [Rule.mixedRow 0 0 2 1 0, Rule.mixedRow 1 1 1 2 1, Rule.mixedRow 2 2 1 2 1],
          Rule.ternaryScope) ∧
      ¬ List.Forall₂ Value.Coincides (Rule.mixedRow 1 1 1 2 1) (Rule.mixedRow 2 2 1 2 1)) ∧
    (Rule.northern (Rule.binary "w")).key target ≠ (Rule.southern (Rule.binary "w")).key target ∧
    ∃ kept : List Rule.Item,
      (runFrom (rule.reduce target [(Rule.northern Rule.intricate).row,
        (Rule.southern Rule.intricate).row]) none).1 = .ok (kept.map Rule.Item.row) ∧
      ¬ rule.Represents target [(Rule.northern Rule.intricate).row,
        (Rule.southern Rule.intricate).row] kept := by
  obtain ⟨r, t, target, hreach, hknows, hknows', hnb, hnb', hpres, hpres'⟩ :=
    Registry.exists_diagonal
  have hclosed : target.presentation.Closed := by
    rw [hpres']
    trivial
  have hplain : Rule.Unmarked (Rule.binary "w").name := by constructor <;> decide
  have hrows : runFrom (Cell.expand Rule.mixedRule.cells Rule.mixedRule.span) Rule.ternaryScope =
      (.ok [Rule.mixedRow 0 0 2 1 0, Rule.mixedRow 1 1 1 2 1, Rule.mixedRow 2 2 1 2 1],
        Rule.ternaryScope) := by cbv
  have hlen : ∀ row ∈ [(Rule.northern Rule.intricate).row, (Rule.southern Rule.intricate).row],
      row.length = Neighborhood.vonNeumann.size + 2 := by decide
  have hfits : Rule.Fits ⟨.vonNeumann, [], t, [], .nowhere⟩ target :=
    ⟨hreach.sound.valid _ hknows, hreach.sound.valid _ hknows', hnb, hnb'⟩
  obtain ⟨hvalue, -, -, -, -, hmemo, hanonymous, -, hexpand, hreduce, kept, hrun, hiff⟩ :=
    @keys_identify ⟨.vonNeumann, [], t, [], .nowhere⟩ target
      r hreach hknows hknows' hclosed hnb hnb' _
      hlen none (by rintro _ ⟨⟩)
  refine ⟨⟨.vonNeumann, [], t, [], .nowhere⟩, target, r, hreach, hknows, hknows', hpres', hnb, hnb',
    mt (hvalue _ _).mp ?_, ?_, ?_, ⟨hrows, ?_⟩, ?_, kept, hrun, mt hiff.mp ?_⟩
  · rintro ⟨hname, -⟩
    revert hname
    decide
  · exact mt (hmemo _ _ ⟨target, hknows', rfl⟩ ⟨target, hknows', rfl⟩).mp (by simp)
  · obtain ⟨v, s, hv⟩ : ∃ v s,
        runFrom (Scope.anonymous [-1, 0]) Rule.ternaryScope = (.ok v, s) :=
      exists_ok_of_isSome (by cbv)
    exact ⟨v, s, hv, mt (hanonymous _ _ _ _ _ hv).mp (by decide)⟩
  · obtain ⟨-, -, -, -, hpair⟩ := hexpand _ _ _ _ _ hrows
    simp only [List.pairwise_cons, List.mem_cons, forall_eq_or_imp] at hpair
    exact hpair.2.1.1
  · rw [Ne, hreduce _ _ rfl rfl (fun _ _ hv => Rule.unmarked_of_mem hplain (.inl hv))
      fun _ _ hv => Rule.unmarked_of_mem hplain (.inr hv)]
    exact fun h => Rule.not_coincide_of_unmoved hnb' hpres' (by decide) h.2.2
  · rintro (hequiv | htells)
    · have hsame := ((Symmetry.equivalent_iff hfits.declared hfits.written).mp hequiv).2
      have hmem : [1, 0, 3, 2] ∈ t.relabelings :=
        Symmetry.mem_relabelings_of_generator hfits.declared (by simp [Symmetry.generators, hpres])
      exact absurd (Rule.eq_identity_of_unmoved hnb' hpres' ((hsame _).mp hmem)) (by decide)
    · exact Rule.not_tellsApart_intricate hfits.written
        hnb' hpres' hfits hlen (by simp) (by simp) htells

end RuleTable
