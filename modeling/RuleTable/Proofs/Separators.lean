import Mathlib

/-!
Texts that are put together with separators can be taken apart again, as long as the separator does
not occur in the parts. Numbers are written with digits and a sign, so no separator occurs in them.
Where a separator does occur in a part, it must stand within parentheses that the part closes.
-/

namespace RuleTable

/-- What stands before the first separator, and what stands after it. -/
lemma append_sep_inj {α : Type} {sep : α} {x x' l l' : List α} (hx : sep ∉ x) (hx' : sep ∉ x')
    (h : x ++ sep :: l = x' ++ sep :: l') : x = x' ∧ l = l' := by
  induction x generalizing x' with
  | nil =>
    cases x' with
    | nil => simpa using h
    | cons b x' => exact absurd (List.mem_cons.mpr (.inl (List.cons.inj h).1)) hx'
  | cons a x ih =>
    cases x' with
    | nil => exact absurd (List.mem_cons.mpr (.inl (List.cons.inj h).1.symm)) hx
    | cons b x' =>
      simp only [List.mem_cons, not_or, List.cons_append, List.cons.injEq] at hx hx' h
      obtain ⟨rfl, hl⟩ := ih hx.2 hx'.2 h.2
      exact ⟨by rw [h.1], hl⟩

/-- What stands before the last separator, and what stands after it. -/
lemma append_sep_inj_right {α : Type} {sep : α} {x x' l l' : List α} (hl : sep ∉ l) (hl' : sep ∉ l')
    (h : x ++ sep :: l = x' ++ sep :: l') : x = x' ∧ l = l' := by
  have hrev : l.reverse ++ sep :: x.reverse = l'.reverse ++ sep :: x'.reverse := by
    simpa using congrArg List.reverse h
  obtain ⟨h₁, h₂⟩ := append_sep_inj (by simpa using hl) (by simpa using hl') hrev
  exact ⟨List.reverse_injective h₂, List.reverse_injective h₁⟩

lemma mem_of_mem_intercalate {α : Type} {sep : List α} {parts : List (List α)} {c : α}
    (h : c ∈ sep.intercalate parts) : c ∈ sep ∨ ∃ part ∈ parts, c ∈ part := by
  induction parts with
  | nil => simp [List.intercalate] at h
  | cons part parts ih =>
    cases parts with
    | nil => exact .inr ⟨part, List.mem_singleton_self _, by simpa [List.intercalate] using h⟩
    | cons part' parts =>
      rw [List.intercalate_cons_cons, List.mem_append, List.mem_append] at h
      rcases h with (h | h) | h
      · exact .inr ⟨part, List.mem_cons_self, h⟩
      · exact .inl h
      · exact (ih h).imp_right fun ⟨p, hp, hc⟩ => ⟨p, List.mem_cons_of_mem _ hp, hc⟩

@[simp] lemma toString_string (s : String) : toString s = s := rfl

lemma mem_toString_int {z : Int} {c : Char} (h : c ∈ (toString z).toList) :
    c.isDigit = true ∨ c = '-' := by
  have hnat : ∀ {n : ℕ}, c ∈ n.repr.toList → c.isDigit = true := by
    intro n hc
    rw [Nat.toList_repr] at hc
    exact Nat.isDigit_of_mem_toDigits (by omega) (by omega) hc
  rw [Int.toString_eq_repr, Int.repr_eq_if] at h
  split at h
  · exact .inl (hnat h)
  · rw [String.toList_append, List.mem_append] at h
    rcases h with h | h
    · exact .inr (by simpa using h)
    · exact .inl (hnat h)

lemma comma_notMem_toString (z : Int) : ',' ∉ (toString z).toList := by
  intro h
  rcases mem_toString_int h with h | h <;> revert h <;> decide

lemma toString_int_inj {z w : Int} (h : toString z = toString w) : z = w := by
  rwa [Int.toString_eq_repr, Int.toString_eq_repr, Int.repr_inj] at h

/-- Parts without the separator can be read off the text they make. -/
lemma intercalate_inj {sep : String} {c : Char} (hsep : sep.toList = [c])
    {parts parts' : List String}
    (hne : parts ≠ []) (hne' : parts' ≠ []) (h : ∀ s ∈ parts, c ∉ s.toList)
    (h' : ∀ s ∈ parts', c ∉ s.toList) (he : sep.intercalate parts = sep.intercalate parts') :
    parts = parts' := by
  have hsplit : ∀ {parts : List String}, parts ≠ [] → (∀ s ∈ parts, c ∉ s.toList) →
      (sep.intercalate parts).toList.splitOn c = parts.map String.toList := by
    intro parts hne hk
    rw [String.toList_intercalate, hsep]
    refine List.splitOn_intercalate _ ?_ (by simpa using hne)
    simpa using hk
  have hmap : parts.map String.toList = parts'.map String.toList := by
    rw [← hsplit hne h, ← hsplit hne' h', he]
  exact List.map_injective_iff.mpr (fun _ _ => String.toList_inj.mp) hmap

/-- A text without a part is not one with a part that is not empty. -/
lemma intercalate_ne_empty {sep : String} {parts : List String} (hne : parts ≠ [])
    (h : ∀ s ∈ parts, s ≠ "") : sep.intercalate parts ≠ "" := by
  intro he
  have htext := congrArg String.toList he
  rw [String.toList_intercalate] at htext
  rcases parts with _ | ⟨s, _ | ⟨s', parts⟩⟩
  · exact hne rfl
  · exact h s List.mem_cons_self (String.toList_inj.mp (by simpa using htext))
  · rw [List.map_cons, List.map_cons, List.intercalate_cons_cons] at htext
    simp only [String.toList_empty, List.append_eq_nil_iff] at htext
    exact h s List.mem_cons_self (String.toList_inj.mp htext.1.1)

lemma toString_int_ne_empty (z : ℤ) : toString z ≠ "" := by
  rw [Int.toString_eq_repr, Int.repr_eq_if]
  split
  · exact Nat.repr_ne_empty
  · simp

/-- Numbers can be read off the text in which commas stand between them. -/
lemma intercalate_toString_inj {xs ys : List ℤ}
    (h : ",".intercalate (xs.map toString) = ",".intercalate (ys.map toString)) : xs = ys := by
  have hne : ∀ {l : List ℤ}, l ≠ [] → ",".intercalate (l.map toString) ≠ "" := by
    intro l hl
    refine intercalate_ne_empty (by simpa using hl) fun t ht => ?_
    obtain ⟨z, -, rfl⟩ := List.mem_map.mp ht
    exact toString_int_ne_empty z
  have hcomma : ∀ l : List ℤ, ∀ t ∈ l.map toString, ',' ∉ t.toList := by
    intro l t ht
    obtain ⟨z, -, rfl⟩ := List.mem_map.mp ht
    exact comma_notMem_toString z
  by_cases h₁ : xs = [] <;> by_cases h₂ : ys = []
  · rw [h₁, h₂]
  · exact absurd (by rw [← h, h₁]; rfl) (hne h₂)
  · exact absurd (by rw [h, h₂]; rfl) (hne h₁)
  · refine List.map_injective_iff.mpr (fun _ _ => toString_int_inj) ?_
    exact intercalate_inj rfl (by simpa using h₁) (by simpa using h₂) (hcomma _) (hcomma _) h

/-- Parts that each end in a mark can be told from one another and from what follows without one. -/
lemma flatMap_end_inj {α : Type} {mark : α} {parts parts' : List (List α)} {l l' : List α}
    (hparts : ∀ part ∈ parts, mark ∉ part) (hparts' : ∀ part ∈ parts', mark ∉ part) (hl : mark ∉ l)
    (hl' : mark ∉ l') (h : parts.flatMap (· ++ [mark]) ++ l = parts'.flatMap (· ++ [mark]) ++ l') :
    parts = parts' ∧ l = l' := by
  induction parts generalizing parts' with
  | nil =>
    cases parts' with
    | nil => exact ⟨rfl, h⟩
    | cons part' parts' =>
      refine absurd ?_ hl
      rw [show l = _ from h]
      simp
  | cons part parts ih =>
    cases parts' with
    | nil =>
      refine absurd ?_ hl'
      rw [show l' = _ from h.symm]
      simp
    | cons part' parts' =>
      rw [List.forall_mem_cons] at hparts hparts'
      simp only [List.flatMap_cons, List.append_assoc, List.singleton_append] at h
      obtain ⟨rfl, hrest⟩ := append_sep_inj hparts.1 hparts'.1 h
      obtain ⟨rfl, rfl⟩ := ih hparts.2 hparts'.2 hrest
      exact ⟨rfl, rfl⟩

/-! ### Parts with parentheses -/

/-- The number of open parentheses after a character, if `d` were open before it. There is none if
one is closed that was not open, or if a comma stands outside all of them. -/
def deepen (d : ℕ) (c : Char) : Option ℕ :=
  if c = '(' then some (d + 1)
  else if c = ')' then if d = 0 then none else some (d - 1)
  else if c = ',' then if d = 0 then none else some d
  else some d

def nesting (d : ℕ) (cs : List Char) : Option ℕ := cs.foldlM deepen d

/-- The text closes the parentheses it opens, and its commas stand within them. -/
def Nested (text : String) : Prop := nesting 0 text.toList = some 0

instance (text : String) : Decidable (Nested text) :=
  inferInstanceAs (Decidable (nesting 0 text.toList = some 0))

@[simp] lemma nesting_nil (d : ℕ) : nesting d [] = some d := rfl

@[simp] lemma nesting_cons (d : ℕ) (c : Char) (cs : List Char) :
    nesting d (c :: cs) = (deepen d c).bind fun e => nesting e cs := List.foldlM_cons

lemma nesting_append (d : ℕ) (cs cs' : List Char) :
    nesting d (cs ++ cs') = (nesting d cs).bind fun e => nesting e cs' := List.foldlM_append

lemma nesting_add {d e : ℕ} {cs : List Char} (h : nesting d cs = some e) (k : ℕ) :
    nesting (d + k) cs = some (e + k) := by
  induction cs generalizing d with
  | nil => simpa using h
  | cons c cs ih =>
    rw [nesting_cons] at h ⊢
    obtain ⟨d', hd, h⟩ := Option.bind_eq_some_iff.mp h
    have hstep : deepen (d + k) c = some (d' + k) := by
      unfold deepen at hd ⊢
      grind
    rw [hstep]
    exact ih h

lemma nesting_of_plain {cs : List Char} (h : ∀ c ∈ cs, c ≠ '(' ∧ c ≠ ')' ∧ c ≠ ',') (d : ℕ) :
    nesting d cs = some d := by
  induction cs with
  | nil => rfl
  | cons c cs ih =>
    have hc : deepen d c = some d := by simp [deepen, h c List.mem_cons_self]
    rw [nesting_cons, hc]
    exact ih fun c hc => h c (List.mem_cons_of_mem _ hc)

/-- Within parentheses, parts may be put together with commas. -/
lemma nesting_intercalate {parts : List String} (h : ∀ s ∈ parts, Nested s) :
    nesting 1 (",".intercalate parts).toList = some 1 := by
  rw [String.toList_intercalate]
  induction parts with
  | nil => rfl
  | cons s parts ih =>
    have hs : nesting 1 s.toList = some 1 := nesting_add (h s List.mem_cons_self) 1
    cases parts with
    | nil => simpa [List.intercalate] using hs
    | cons s' parts =>
      have hrest := ih fun s hs => h s (List.mem_cons_of_mem _ hs)
      rw [List.map_cons, List.map_cons, List.intercalate_cons_cons,
        nesting_append, nesting_append, hs]
      exact hrest

lemma nested_of_parts {head : String} {parts : List String} (hhead : nesting 0 head.toList = some 1)
    (h : ∀ s ∈ parts, Nested s) : Nested (head ++ ",".intercalate parts ++ ")") := by
  rw [Nested, String.toList_append, String.toList_append, nesting_append, nesting_append, hhead,
    Option.bind_some, nesting_intercalate h]
  rfl

/-- After a part no comma can follow within the part. -/
lemma nesting_append_comma {x : List Char} (hx : nesting 0 x = some 0) (z : List Char) :
    nesting 0 (x ++ ',' :: z) = none := by
  rw [nesting_append, hx]
  rfl

/-- A part ends at the first comma outside parentheses. -/
lemma nested_append_inj {x x' l l' : List Char} (hx : nesting 0 x = some 0)
    (hx' : nesting 0 x' = some 0) (h : x ++ ',' :: l = x' ++ ',' :: l') : x = x' ∧ l = l' := by
  rcases List.append_eq_append_iff.mp h with ⟨z, rfl, hz⟩ | ⟨z, rfl, hz⟩ <;> cases z with
  | nil => simp_all
  | cons c z =>
    obtain ⟨rfl, -⟩ := List.cons.inj hz
    simp_all [nesting_append_comma]

/-- Parts that close their parentheses can be read off the text they make. -/
lemma nested_intercalate_inj {parts parts' : List String} (hne : parts ≠ []) (hne' : parts' ≠ [])
    (h : ∀ s ∈ parts, Nested s) (h' : ∀ s ∈ parts', Nested s)
    (he : ",".intercalate parts = ",".intercalate parts') : parts = parts' := by
  have hcomma : ",".toList = [','] := rfl
  have htext := congrArg String.toList he
  rw [String.toList_intercalate, String.toList_intercalate, hcomma] at htext
  clear he
  induction parts generalizing parts' with
  | nil => exact absurd rfl hne
  | cons s parts ih =>
    cases parts' with
    | nil => exact absurd rfl hne'
    | cons s' parts' =>
      have hs : nesting 0 s.toList = some 0 := h s List.mem_cons_self
      have hs' : nesting 0 s'.toList = some 0 := h' s' List.mem_cons_self
      rcases parts with _ | ⟨t, parts⟩ <;> rcases parts' with _ | ⟨t', parts'⟩ <;>
        simp only [List.map_cons, List.map_nil, List.intercalate_cons_cons,
          List.intercalate_singleton, List.append_assoc, List.singleton_append] at htext
      · rw [String.toList_inj.mp htext]
      · rw [htext, nesting_append_comma hs'] at hs
        cases hs
      · rw [← htext, nesting_append_comma hs] at hs'
        cases hs'
      · obtain ⟨hfirst, hrest⟩ := nested_append_inj hs hs' htext
        rw [String.toList_inj.mp hfirst, ih (List.cons_ne_nil _ _) (List.cons_ne_nil _ _)
          (fun s hs => h s (List.mem_cons_of_mem _ hs))
          (fun s hs => h' s (List.mem_cons_of_mem _ hs)) hrest]

end RuleTable
