import RuleTable.Proofs.Orbits
import RuleTable.Transition.Reduce

/-!
What reduction keeps.

Every row that is kept is, up to the text of its values, a rearrangement of a row by the declared
symmetry; and of every such rearrangement a row is kept from which the target makes it again. The
first says that nothing is added before the target comes in, the second that nothing is lost.
-/

namespace RuleTable

open Relabeling

/-! ### Computations without a cache -/

/-- Without a cache the computation comes to this result. -/
def Comes {α : Type} (act : CacheM α) (a : α) : Prop := runFrom act none = (.ok a, none)

lemma Comes.bind {α β : Type} {act : CacheM α} {f : α → CacheM β} {a : α} {b : β}
    (h : Comes act a) (h' : Comes (f a) b) : Comes (act >>= f) b :=
  runFrom_bind_ok.mpr ⟨a, none, h, h'⟩

lemma Comes.unique {α : Type} {act : CacheM α} {a a' : α} (h : Comes act a) (h' : Comes act a') :
    a = a' := by
  rw [Comes, h] at h'
  cases h'
  rfl

/-- A fold comes to something if every step does; what a step preserves, the fold preserves. -/
lemma Comes.foldlM {α β : Type} {f : β → α → CacheM β} (Inv : List α → β → Prop) {l : List α}
    (hstep : ∀ done b, ∀ a ∈ l, Inv done b → ∃ b', Comes (f b a) b' ∧ Inv (done ++ [a]) b')
    {b : β} (h : Inv [] b) : ∃ b', Comes (l.foldlM f b) b' ∧ Inv l b' := by
  have hfrom : ∀ (rest done : List α) (b : β), (∀ a ∈ rest, a ∈ l) → Inv done b →
      ∃ b', Comes (rest.foldlM f b) b' ∧ Inv (done ++ rest) b' := by
    intro rest
    induction rest with
    | nil => exact fun done b _ h => ⟨b, rfl, by simpa using h⟩
    | cons a rest ih =>
      intro done b hmem h
      obtain ⟨b₁, hb₁, h₁⟩ := hstep done b a (hmem a List.mem_cons_self) h
      obtain ⟨b₂, hb₂, h₂⟩ := ih _ b₁ (fun a ha => hmem a (List.mem_cons_of_mem _ ha)) h₁
      rw [List.foldlM_cons]
      exact ⟨b₂, hb₁.bind hb₂, by simpa using h₂⟩
  exact hfrom l [] b (fun _ ha => ha) h

namespace Rule

variable {target : Symmetry} {n : ℕ}

structure Item where
  initial : Value
  napkin : List Value
  result : Value

def Item.row (item : Item) : Row := item.initial :: item.napkin ++ [item.result]

lemma Item.row_inj {item item' : Item} (h : item.row = item'.row) : item = item' := by
  obtain ⟨a, x, b⟩ := item
  obtain ⟨a', x', b'⟩ := item'
  obtain ⟨rfl, h⟩ := List.cons.inj h
  obtain ⟨rfl, h⟩ := List.append_inj' h rfl
  obtain ⟨rfl, -⟩ := List.cons.inj h
  rfl

lemma exists_item {row : Row} (h : row.length = n + 2) :
    ∃ item : Item, row = item.row ∧ item.napkin.length = n := by
  obtain ⟨a, rest, rfl⟩ := List.exists_cons_of_ne_nil
    (List.ne_nil_of_length_pos (by omega : 0 < row.length))
  have hrest : rest ≠ [] := List.ne_nil_of_length_pos (by simp at h; omega)
  refine ⟨⟨a, rest.dropLast, rest.getLast hrest⟩, ?_, ?_⟩
  · rw [Item.row, List.cons_append, List.dropLast_append_getLast]
  · simp at h
    simp [h]

lemma Item.head_row (item : Item) : item.row[0]? = some item.initial := rfl

lemma Item.last_row (item : Item) (h : item.napkin.length = n) :
    item.row[n + 1]? = some item.result := by
  simp [row, ← h]

lemma Item.middle_row (item : Item) (h : item.napkin.length = n) :
    (item.row.drop 1).take n = item.napkin := by
  simp [row, ← h]

/-- The least text of the napkin's orbit under the target. -/
def canonOf (target : Symmetry) (napkin : List Value) : String :=
  match (runFrom (target.canonicalKey napkin Value.key) none).1 with
  | .ok k => k
  | .error _ => ""

lemma comes_canonOf (hv : target.Valid) {napkin : List Value}
    (hlen : napkin.length = target.neighborhood.size) :
    Comes (target.canonicalKey napkin Value.key) (canonOf target napkin) := by
  obtain ⟨texts, hrun, -, -⟩ := Symmetry.canonicalKey_ok hv hlen Value.key
  rw [Comes, canonOf, hrun]

def Item.key (target : Symmetry) (item : Item) : String :=
  item.initial.key ++ "|" ++ canonOf target item.napkin ++ "|" ++ item.result.key

def Apart (target : Symmetry) (row row' : Row) : Prop :=
  ∀ item item' : Item, item.row = row → item'.row = row' → item.key target ≠ item'.key target

/-- What is kept after some items have come: only rows of these, and for each text of theirs one
row. -/
structure Keeps (target : Symmetry) (done : List Item) (k : Kept) : Prop where
  only : ∀ row ∈ k.rows, ∃ item ∈ done, row = item.row
  seen : ∀ item ∈ done, item.key target ∈ k.seen
  rows : ∀ key ∈ k.seen, ∃ item ∈ done, item.row ∈ k.rows ∧ item.key target = key
  apart : k.rows.toList.Pairwise (Apart target)

lemma comes_add (hv : target.Valid) (k : Kept) (item : Item)
    (hlen : item.napkin.length = target.neighborhood.size) :
    Comes (k.add target item.initial item.result item.napkin)
      (if k.seen.contains (item.key target) then k
      else { seen := k.seen.insert (item.key target), rows := k.rows.push item.row }) := by
  refine (comes_canonOf hv hlen).bind ?_
  refine (runFrom_ite (k.seen.contains (item.key target) = true) _ _ _).trans ?_
  split <;> rfl

lemma Keeps.add {done : List Item} {k : Kept} (h : Keeps target done k) (hv : target.Valid)
    (item : Item) (hlen : item.napkin.length = target.neighborhood.size) :
    ∃ k', Comes (k.add target item.initial item.result item.napkin) k' ∧
      Keeps target (done ++ [item]) k' := by
  refine ⟨_, comes_add hv k item hlen, ?_⟩
  have hnew : item ∈ done ++ [item] := List.mem_append_right _ (List.mem_singleton_self _)
  split
  · next hseen =>
    refine ⟨fun row hrow => ?_, fun i hi => ?_, fun key hkey => ?_, h.apart⟩
    · obtain ⟨i, hi, he⟩ := h.only row hrow
      exact ⟨i, List.mem_append_left _ hi, he⟩
    · rcases List.mem_append.mp hi with hi | hi
      · exact h.seen i hi
      · rw [List.mem_singleton.mp hi]
        exact hseen
    · obtain ⟨i, hi, he⟩ := h.rows key hkey
      exact ⟨i, List.mem_append_left _ hi, he⟩
  · next hseen =>
    refine ⟨fun row hrow => ?_, fun i hi => ?_, fun key hkey => ?_, ?_⟩
    · rcases Array.mem_push.mp hrow with hrow | rfl
      · obtain ⟨i, hi, he⟩ := h.only row hrow
        exact ⟨i, List.mem_append_left _ hi, he⟩
      · exact ⟨item, hnew, rfl⟩
    · rw [Std.HashSet.mem_insert]
      rcases List.mem_append.mp hi with hi | hi
      · exact .inr (h.seen i hi)
      · rw [List.mem_singleton.mp hi]
        exact .inl (beq_self_eq_true _)
    · rcases Std.HashSet.mem_insert.mp hkey with hkey | hkey
      · exact ⟨item, hnew, Array.mem_push_self, eq_of_beq hkey⟩
      · obtain ⟨i, hi, hrow, he⟩ := h.rows key hkey
        exact ⟨i, List.mem_append_left _ hi, Array.mem_push.mpr (.inl hrow), he⟩
    · rw [Array.toList_push, List.pairwise_append]
      refine ⟨h.apart, List.pairwise_singleton _ _, ?_⟩
      intro row hrow row' hrow' i i' hi hi' hkey
      obtain ⟨j, hj, he⟩ := h.only row (Array.mem_toList_iff.mp hrow)
      obtain rfl := Item.row_inj (hi.trans he)
      obtain rfl := Item.row_inj (hi'.trans (List.mem_singleton.mp hrow'))
      exact hseen (hkey ▸ h.seen i hj)

/-- Rule and target speak of one neighborhood, and of relabelings of it. -/
structure Fits (rule : Rule) (target : Symmetry) : Prop where
  declared : rule.symmetry.Valid
  written : target.Valid
  declared_neighborhood : rule.symmetry.neighborhood = rule.neighborhood
  written_neighborhood : target.neighborhood = rule.neighborhood

variable {rule : Rule} {rows : List Row}

/-- The second item is a rearrangement of the first. -/
def Image (rule : Rule) (item item' : Item) : Prop :=
  ∃ p ∈ rule.symmetry.relabelings,
    item' = ⟨item.initial, p.apply (normalForm item.napkin Value.key), item.result⟩

lemma Image.length (h : rule.Fits target) {item item' : Item} (hi : Image rule item item')
    (hlen : item.napkin.length = rule.neighborhood.size) :
    item'.napkin.length = rule.neighborhood.size := by
  obtain ⟨p, hp, rfl⟩ := hi
  have hperm := Symmetry.isPerm_of_mem h.declared hp
  rw [h.declared_neighborhood] at hperm
  exact hperm.length_apply ((length_normalForm _ _).trans hlen)

/-- The items that come up for some rows. -/
def Items (rule : Rule) (rows : List Row) (done : List Item) : Prop :=
  ∀ item', item' ∈ done ↔ ∃ item : Item, item.row ∈ rows ∧ Image rule item item'

/-- The body of the loop over rows. -/
lemma keeps_row (h : rule.Fits target) {doneRows : List Row} {row : Row}
    (hlen : row.length = rule.neighborhood.size + 2) {k : Kept}
    (hk : ∃ done, Items rule doneRows done ∧ Keeps target done k) :
    ∃ k', Comes (do
        let some initial := row[0]? | throw .crash
        let some result := row[rule.neighborhood.size + 1]? | throw .crash
        let orbit ← rule.symmetry.expand ((row.drop 1).take rule.neighborhood.size) Value.key
        orbit.foldlM (fun (k : Kept) napkin => k.add target initial result napkin) k) k' ∧
      ∃ done, Items rule (doneRows ++ [row]) done ∧ Keeps target done k' := by
  obtain ⟨item, rfl, hnap⟩ := exists_item hlen
  obtain ⟨done, hitems, hkeeps⟩ := hk
  have hnapS : item.napkin.length = rule.symmetry.neighborhood.size := by
    rw [hnap, h.declared_neighborhood]
  obtain ⟨orbit, hrun, horbit⟩ := Symmetry.expand_ok h.declared hnapS Value.key
  have hadd : ∀ (xs : List (List Value)) (k : Kept), ∀ x ∈ orbit,
      Keeps target (done ++ xs.map fun x => ⟨item.initial, x, item.result⟩) k →
      ∃ k', Comes (k.add target item.initial item.result x) k' ∧
        Keeps target (done ++ (xs ++ [x]).map fun x => ⟨item.initial, x, item.result⟩) k' := by
    intro xs k x hx hk
    obtain ⟨p, hp, rfl⟩ := (horbit x).mp hx
    have himage : Image rule item ⟨item.initial, p.apply (normalForm item.napkin Value.key),
      item.result⟩ := ⟨p, hp, rfl⟩
    have := hk.add h.written _ ((himage.length h hnap).trans (by rw [h.written_neighborhood]))
    simpa using this
  obtain ⟨k', hk', hkeeps'⟩ := Comes.foldlM
    (fun xs k => Keeps target (done ++ xs.map fun x => ⟨item.initial, x, item.result⟩) k) hadd
    (by simpa using hkeeps)
  refine ⟨k', ?_, _, ?_, hkeeps'⟩
  · simp only [item.head_row, item.last_row hnap, item.middle_row hnap]
    exact Comes.bind hrun hk'
  · intro item'
    simp only [List.mem_append, hitems item', List.mem_map, horbit, List.mem_singleton]
    constructor
    · rintro (⟨i, hi, him⟩ | ⟨x, ⟨p, hp, rfl⟩, rfl⟩)
      · exact ⟨i, .inl hi, him⟩
      · exact ⟨item, .inr rfl, p, hp, rfl⟩
    · rintro ⟨i, hi | hi, him⟩
      · exact .inl ⟨i, hi, him⟩
      · obtain rfl := Item.row_inj hi
        obtain ⟨p, hp, rfl⟩ := him
        exact .inr ⟨_, ⟨p, hp, rfl⟩, rfl⟩

/-- **Reduction.** If the target has the relabelings of the rule's symmetry the rows stay; otherwise
what is kept are rearrangements of them, and for each rearrangement exactly one with its text. -/
lemma reduce_comes (h : rule.Fits target)
    (hlen : ∀ row ∈ rows, row.length = rule.neighborhood.size + 2) :
    ∃ out, Comes (rule.reduce target rows) out ∧
      if rule.symmetry.key == target.key || rule.symmetry.equivalent target then out = rows
      else ∃ done, Items rule rows done ∧ (∀ row ∈ out, ∃ item ∈ done, row = item.row) ∧
        (∀ item ∈ done, ∃ item' ∈ done, item'.row ∈ out ∧ item'.key target = item.key target) ∧
        out.Pairwise (Apart target) := by
  unfold reduce
  split
  · exact ⟨rows, rfl, rfl⟩
  · have hstart : ∃ done, Items rule [] done ∧ Keeps target done {} :=
      ⟨[], fun _ => by simp, by simp, by simp, by simp, .nil⟩
    obtain ⟨k, hk, done, hitems, hkeeps⟩ := Comes.foldlM
      (fun doneRows (k : Kept) => ∃ done, Items rule doneRows done ∧ Keeps target done k)
      (fun doneRows k row hrow hk => keeps_row h (hlen row hrow) hk) hstart
    refine ⟨k.rows.toList, Comes.bind hk rfl, done, hitems, ?_, ?_, hkeeps.apart⟩
    · intro row hrow
      exact hkeeps.only row (by simpa using hrow)
    · intro item hitem
      obtain ⟨i, hi, hrow, he⟩ := hkeeps.rows _ (hkeeps.seen item hitem)
      exact ⟨i, hi, by simpa using hrow, he⟩

/-! ### With a cache -/

section Caches

variable {known : String → Option Symmetry}

lemma transparent_add (hv : target.Valid) (hk : target.KnownTo known) (k : Kept)
    (initial result : Value) (napkin : List Value) :
    Transparent known (k.add target initial result napkin) := by
  refine (Symmetry.transparent_canonicalKey hv hk napkin Value.key).bind fun canonical _ => ?_
  dsimp only
  split <;> exact .pure _

/-- **Reduction and caches.** A fitting cache changes nothing about what is kept. -/
lemma transparent_reduce (h : rule.Fits target) (hS : rule.symmetry.KnownTo known)
    (hT : target.KnownTo known) (hlen : ∀ row ∈ rows, row.length = rule.neighborhood.size + 2) :
    Transparent known (rule.reduce target rows) := by
  unfold reduce
  split
  · exact .pure _
  refine (Transparent.foldlM (fun k row hrow => ?_) _).bind fun _ _ => .pure _
  obtain ⟨item, rfl, hnap⟩ := exists_item (hlen row hrow)
  simp only [item.head_row, item.last_row hnap, item.middle_row hnap]
  refine (Symmetry.transparent_expand h.declared hS item.napkin Value.key).bind fun orbit _ => ?_
  exact Transparent.foldlM (fun k napkin _ => transparent_add h.written hT k _ _ napkin) k

end Caches

/-! ### Nothing is added and nothing is lost -/

def Item.SameEnds (item item' : Item) : Prop :=
  item.initial.key = item'.initial.key ∧ item.result.key = item'.result.key

lemma Image.map_key {item item' : Item} (h : Image rule item item') :
    ∃ p ∈ rule.symmetry.relabelings,
      item'.napkin.map Value.key = p.apply (item.napkin.map Value.key) := by
  obtain ⟨p, hp, rfl⟩ := h
  exact ⟨p, hp, by rw [← apply_map, map_key_normalForm]⟩

lemma Image.mem {item item' : Item} (h : Image rule item item') :
    ∀ v ∈ item'.row, v ∈ item.row := by
  obtain ⟨p, -, rfl⟩ := h
  intro v hv
  simp only [Item.row, List.cons_append, List.mem_cons, List.mem_append] at hv ⊢
  refine hv.imp_right (.imp_left fun hv => mem_of_mem_normalForm (Symmetry.mem_of_mem_apply hv))

/-- The second item is one of the first, rearranged by the rule's symmetry as far as keys tell. -/
structure Rearranges (rule : Rule) (item item' : Item) : Prop where
  initial : item'.initial = item.initial
  result : item'.result = item.result
  mem : ∀ v ∈ item'.row, v ∈ item.row
  napkin : ∃ p ∈ rule.symmetry.relabelings,
    item'.napkin.map Value.key = p.apply (item.napkin.map Value.key)

lemma Image.rearranges {item item' : Item} (h : Image rule item item') :
    Rearranges rule item item' := by
  refine ⟨?_, ?_, h.mem, h.map_key⟩ <;>
  · obtain ⟨p, -, rfl⟩ := h
    rfl

lemma Rearranges.length (h : rule.Fits target) {item item' : Item}
    (hre : Rearranges rule item item')
    (hlen : item.row.length = rule.neighborhood.size + 2) :
    item'.row.length = rule.neighborhood.size + 2 := by
  obtain ⟨p, hp, hkeys⟩ := hre.napkin
  have hperm := Symmetry.isPerm_of_mem h.declared hp
  rw [h.declared_neighborhood] at hperm
  have hsize : item.napkin.length = rule.neighborhood.size := by simpa [Item.row] using hlen
  have hsize' := congrArg List.length hkeys
  rw [List.length_map, hperm.length_apply (by rw [List.length_map, hsize])] at hsize'
  simp [Item.row, hsize']

/-- **Nothing is added.** What is kept are rearrangements of the rows. -/
lemma reduce_sound (h : rule.Fits target) {out : List Row}
    (hlen : ∀ row ∈ rows, row.length = rule.neighborhood.size + 2)
    (hout : Comes (rule.reduce target rows) out) :
    ∀ row ∈ out, ∃ item item' : Item,
      item.row ∈ rows ∧ row = item'.row ∧ Rearranges rule item item' := by
  intro row hrow
  obtain ⟨out', hout', hspec⟩ := reduce_comes h hlen
  obtain rfl := hout.unique hout'
  split at hspec
  · subst hspec
    obtain ⟨item, rfl, hnap⟩ := exists_item (hlen row hrow)
    have hone := Symmetry.identity_mem h.declared
    refine ⟨item, item, hrow, rfl, rfl, rfl, fun _ h => h, _, hone, ?_⟩
    rw [h.declared_neighborhood, apply_identity (by rw [List.length_map, hnap])]
  · obtain ⟨done, hitems, honly, -⟩ := hspec
    obtain ⟨item', hmem, rfl⟩ := honly row hrow
    obtain ⟨item, hitem, himage⟩ := (hitems item').mp hmem
    exact ⟨item, item', hitem, rfl, himage.rearranges⟩

/-- The text has none of the marks that stand between the parts of a longer one. -/
def Unmarked (text : String) : Prop := '\x1f' ∉ text.toList ∧ '|' ∉ text.toList

lemma bar_notMem_canonOf (hv : target.Valid) {napkin : List Value}
    (hlen : napkin.length = target.neighborhood.size) (hk : ∀ v ∈ napkin, Unmarked v.key) :
    '|' ∉ (canonOf target napkin).toList := by
  obtain ⟨texts, hrun, hne, htexts⟩ := Symmetry.canonicalKey_ok hv hlen Value.key
  have hcanon : canonOf target napkin = Symmetry.least texts := by rw [canonOf, hrun]
  obtain ⟨p, -, hp⟩ := (htexts _).mp (Symmetry.least_spec hne).1
  rw [hcanon, ← hp, Symmetry.keyText, String.toList_intercalate]
  intro hmem
  rcases mem_of_mem_intercalate hmem with hc | ⟨part, hpart, hc⟩
  · revert hc
    decide
  · obtain ⟨k, hkmem, rfl⟩ := List.mem_map.mp hpart
    obtain ⟨v, hv, rfl⟩ := List.mem_map.mp (Symmetry.mem_of_mem_apply hkmem)
    exact (hk v hv).2 hc

/-- Items remembered under one text agree outside the napkin, and the target takes the napkin of
one to the napkin of the other. -/
lemma Item.key_eq (hv : target.Valid) (hc : target.presentation.Closed) {item item' : Item}
    (hlen : item.napkin.length = target.neighborhood.size)
    (hlen' : item'.napkin.length = target.neighborhood.size)
    (hk : ∀ v ∈ item.row, Unmarked v.key) (hk' : ∀ v ∈ item'.row, Unmarked v.key)
    (h : item.key target = item'.key target) :
    item.SameEnds item' ∧ ∃ q ∈ target.relabelings,
      q.apply (item.napkin.map Value.key) = item'.napkin.map Value.key := by
  have hmem : ∀ {i : Item}, ∀ v ∈ i.napkin, v ∈ i.row := fun v hv => by simp [Item.row, hv]
  have hinit : ∀ {i : Item}, i.initial ∈ i.row := by simp [Item.row]
  have htext := congrArg String.toList h
  simp only [Item.key, String.toList_append, List.append_assoc] at htext
  obtain ⟨h₁, htext⟩ := append_sep_inj (hk _ hinit).2 (hk' _ hinit).2 htext
  obtain ⟨h₂, h₃⟩ := append_sep_inj (bar_notMem_canonOf hv hlen fun v hv => hk v (hmem v hv))
    (bar_notMem_canonOf hv hlen' fun v hv => hk' v (hmem v hv)) htext
  refine ⟨⟨String.toList_inj.mp h₁, String.toList_inj.mp h₃⟩, ?_⟩
  exact (Symmetry.canonicalKey_eq_iff hv (Symmetry.isGroup hv hc) hlen hlen'
    (fun v hv => (hk v (hmem v hv)).1) (fun v hv => (hk' v (hmem v hv)).1) (comes_canonOf hv hlen)
    (comes_canonOf hv hlen')).mp (String.toList_inj.mp h₂)

/-- **Nothing is lost.** From what is kept the target makes every rearrangement of the rows. -/
lemma reduce_complete (h : rule.Fits target) (hc : target.presentation.Closed)
    (hsame : rule.symmetry.key = target.key → rule.symmetry = target) {out : List Row}
    (hlen : ∀ row ∈ rows, row.length = rule.neighborhood.size + 2)
    (hk : ∀ row ∈ rows, ∀ v ∈ row, Unmarked v.key)
    (hout : Comes (rule.reduce target rows) out) {item : Item} (hitem : item.row ∈ rows)
    {p : Relabeling} (hp : p ∈ rule.symmetry.relabelings) :
    ∃ item' : Item, item'.row ∈ out ∧ item'.SameEnds item ∧ ∃ q ∈ target.relabelings,
      q.apply (item'.napkin.map Value.key) = p.apply (item.napkin.map Value.key) := by
  obtain ⟨out', hout', hspec⟩ := reduce_comes h hlen
  obtain rfl := hout.unique hout'
  split at hspec
  · next hshort =>
    subst hspec
    refine ⟨item, hitem, ⟨rfl, rfl⟩, p, ?_, rfl⟩
    rcases Bool.or_eq_true_iff.mp hshort with hkey | hequiv
    · rwa [← hsame (eq_of_beq hkey)]
    · exact (((Symmetry.equivalent_iff h.declared h.written).mp hequiv).2 p).mp hp
  · obtain ⟨done, hitems, -, hrows, -⟩ := hspec
    have hnap : ∀ {i : Item}, i.row ∈ rows → i.napkin.length = rule.neighborhood.size := by
      intro i hi
      simpa [Item.row] using hlen i.row hi
    have hfits : ∀ {i : Item}, i ∈ done → i.napkin.length = target.neighborhood.size ∧
        ∀ v ∈ i.row, Unmarked v.key := by
      intro i hi
      obtain ⟨i₀, hi₀, himage⟩ := (hitems i).mp hi
      exact ⟨(himage.length h (hnap hi₀)).trans (by rw [h.written_neighborhood]),
        fun v hv => hk _ hi₀ v (himage.mem v hv)⟩
    have himage : Image rule item ⟨item.initial, p.apply (normalForm item.napkin Value.key),
      item.result⟩ := ⟨p, hp, rfl⟩
    have hdone := (hitems _).mpr ⟨item, hitem, himage⟩
    obtain ⟨item', hdone', hrow, hkey⟩ := hrows _ hdone
    obtain ⟨hends, q, hq, hnapkin⟩ := Item.key_eq h.written hc (hfits hdone').1 (hfits hdone).1
      (hfits hdone').2 (hfits hdone).2 hkey
    refine ⟨item', hrow, hends, q, hq, ?_⟩
    rw [hnapkin, ← apply_map, map_key_normalForm]

end Rule

end RuleTable
