import RuleTable.Proofs.Names
import RuleTable.Proofs.Occurrences
import RuleTable.Section.Emit

/-!
What the lines of a table stand for.

A line is read field by field. A number stands for itself, and a field that the table declares
stands for any state of its declaration, the same one wherever the field occurs in the line. Writing
a row gives every occurrence of a variable a suffix: one origin has one suffix, and different
origins of one variable have different ones. So the fields of a line keep apart what the row keeps
apart, and the line stands for the tuples that the row stands for.
-/

namespace RuleTable

/-! ### Reading a table -/

def Line.fields (line : Line) : List String := (line.text.toList.splitOn ',').map String.ofList

namespace CompiledSection

/-- A variable of this name and with these states is declared. -/
def Declares (s : CompiledSection) (field : String) (states : StateList) : Prop :=
  s!"var {field} = {states.text}" ∈ s.vars

/-- The field takes the state: it is the number of the state, or a variable to which `env` gives
this one of its states. -/
def Reads (s : CompiledSection) (env : String → ℤ) (field : String) (x : ℤ) : Prop :=
  field = toString x ∨ ∃ states, s.Declares field states ∧ x ∈ states ∧ x = env field

/-- The line stands for the tuple. -/
def LineMatches (s : CompiledSection) (line : Line) (tuple : List ℤ) : Prop :=
  ∃ env : String → ℤ, List.Forall₂ (s.Reads env) line.fields tuple

end CompiledSection

/-! ### Suffixes -/

namespace Suffixes

variable {s : Suffixes} {names : ℤ → String} {o o' : ℤ} {k : ℕ} {row : Row}

def find? (s : Suffixes) (origin : ℤ) : Option ℕ := s.byOrigin.lookup origin

def count (s : Suffixes) (name : String) : ℕ := (s.used.lookup name).getD 0

def after (s : Suffixes) : Row → Suffixes
  | [] => s
  | .state _ _ _ :: rest => s.after rest
  | .free v origin :: rest => (s.assign v origin).2.after rest

lemma assign_of_some {v : Variable} (h : s.find? o = some k) : s.assign v o = (k, s) := by
  unfold find? at h
  unfold assign
  rw [h]

lemma assign_of_none {v : Variable} (h : s.find? o = none) : (s.assign v o).1 = s.count v.name ∧
    (∀ o', (s.assign v o).2.find? o' = if o' = o then some (s.count v.name) else s.find? o') ∧
    ∀ name, (s.assign v o).2.count name =
      if name = v.name then s.count name + 1 else s.count name := by
  have hassign : s.assign v o = (s.count v.name,
      ⟨(o, s.count v.name) :: s.byOrigin, (v.name, s.count v.name + 1) :: s.used⟩) := by
    unfold find? at h
    unfold assign
    rw [h]
    rfl
  rw [hassign]
  refine ⟨rfl, fun o' => ?_, fun name => ?_⟩
  · rw [find?, List.lookup_cons]
    by_cases ho : o' = o
    · simp [ho]
    · simp [beq_eq_false_iff_ne.mpr ho, if_neg ho, find?]
  · rw [count, List.lookup_cons]
    by_cases hn : name = v.name
    · simp [hn]
    · simp [beq_eq_false_iff_ne.mpr hn, if_neg hn, count]

/-- The origins of one variable have different suffixes, which are counted. -/
structure Sound (names : ℤ → String) (s : Suffixes) : Prop where
  below : ∀ o k, s.find? o = some k → k < s.count (names o)
  apart : ∀ o o' k, s.find? o = some k → s.find? o' = some k → names o = names o' → o = o'

lemma sound_empty : Sound names {} := ⟨by rintro _ _ ⟨⟩, by rintro _ _ _ ⟨⟩⟩

lemma Sound.assign (h : s.Sound names) {v : Variable} (hv : names o = v.name) :
    (s.assign v o).2.Sound names := by
  cases hf : s.find? o with
  | some k => rwa [assign_of_some hf]
  | none =>
    obtain ⟨-, hfind, hcount⟩ := assign_of_none (v := v) hf
    -- a suffix that was there is below the count, and the new one is the count
    have hnew : ∀ o' k, s.find? o' = some k → names o' = v.name → k ≠ s.count v.name :=
      fun o' k hk hn => (hn ▸ h.below o' k hk).ne
    refine ⟨fun o₁ k hk => ?_, fun o₁ o₂ k h₁ h₂ hn => ?_⟩
    · rw [hfind] at hk
      rw [hcount]
      split at hk
      · next he =>
        cases hk
        rw [he, if_pos hv, hv]
        omega
      · have := h.below o₁ k hk
        split <;> omega
    · rw [hfind] at h₁ h₂
      split at h₁ <;> split at h₂
      · next he he' => exact he.trans he'.symm
      · next he _ =>
        cases h₁
        exact absurd rfl (hnew o₂ _ h₂ (by rw [← hn, he, hv]))
      · next _ he =>
        cases h₂
        exact absurd rfl (hnew o₁ _ h₁ (by rw [hn, he, hv]))
      · exact h.apart o₁ o₂ k h₁ h₂ hn

lemma find?_assign (h : s.find? o' = some k) (v : Variable) (o : ℤ) :
    (s.assign v o).2.find? o' = some k := by
  cases hf : s.find? o with
  | some j => rwa [assign_of_some hf]
  | none =>
    rw [(assign_of_none hf).2.1, if_neg, h]
    rintro rfl
    rw [hf] at h
    cases h

lemma find?_after (h : s.find? o = some k) (row : Row) : (s.after row).find? o = some k := by
  induction row generalizing s with
  | nil => exact h
  | cons u row ih =>
    cases u with
    | state t d o' => exact ih h
    | free v o' => exact ih (find?_assign h v o')

lemma find?_assign_self (s : Suffixes) (v : Variable) (o : ℤ) :
    (s.assign v o).2.find? o = some (s.assign v o).1 := by
  cases hf : s.find? o with
  | some j => rw [assign_of_some hf, hf]
  | none => rw [(assign_of_none hf).2.1, if_pos rfl, (assign_of_none hf).1]

lemma isSome_find?_after (s : Suffixes) {v : Variable} (h : .free v o ∈ row) :
    ((s.after row).find? o).isSome := by
  induction row generalizing s with
  | nil => cases h
  | cons u row ih =>
    rcases List.mem_cons.mp h with rfl | hrest
    · rw [after, find?_after (s.find?_assign_self v o)]
      rfl
    · cases u with
      | state t d o' => exact ih s hrest
      | free w o' => exact ih _ hrest

lemma Sound.after (h : s.Sound names) (hrow : ∀ v o, .free v o ∈ row → names o = v.name) :
    (s.after row).Sound names := by
  induction row generalizing s with
  | nil => exact h
  | cons u row ih =>
    have hrest : ∀ v o, .free v o ∈ row → names o = v.name :=
      fun v o hmem => hrow v o (List.mem_cons_of_mem _ hmem)
    cases u with
    | state t d o => exact ih h hrest
    | free v o => exact ih (h.assign (hrow v o List.mem_cons_self)) hrest

lemma count_le_assign (s : Suffixes) (v : Variable) (o : ℤ) (name : String) :
    s.count name ≤ (s.assign v o).2.count name := by
  cases hf : s.find? o with
  | some j => rw [assign_of_some hf]
  | none =>
    rw [(assign_of_none hf).2.2]
    split <;> omega

lemma count_le_after (s : Suffixes) (row : Row) (name : String) :
    s.count name ≤ (s.after row).count name := by
  induction row generalizing s with
  | nil => exact le_rfl
  | cons u row ih =>
    cases u with
    | state t d o => exact ih s
    | free v o => exact (count_le_assign s v o name).trans (ih _)

end Suffixes

/-! ### Writing a row -/

def Value.field (suffix : ℤ → ℕ) : Value → String
  | .state s _ _ => toString s
  | .free v origin => s!"{v.name}.{suffix origin}"

namespace Row

variable {row : Row} {s : Suffixes} {copies : Copies}

def suffix (row : Row) (origin : ℤ) : ℕ := ((({} : Suffixes).after row).find? origin).getD 0

def need (row : Row) (name : String) : ℕ := (({} : Suffixes).after row).count name

def text (row : Row) : String := ",".intercalate (row.map (Value.field row.suffix))

lemma fields_state (row : Row) (t : ℤ) (d : Option Draw) (o : ℤ) (s : Suffixes) (copies : Copies) :
    Row.fields (.state t d o :: row) s copies =
      (toString t :: (row.fields s copies).1, (row.fields s copies).2) := rfl

def raise (copies : Copies) (name : String) (k : ℕ) : Copies :=
  copies.insert name (max (copies.getD name 0) (k + 1))

lemma fields_free (row : Row) (v : Variable) (o : ℤ) (s : Suffixes) (copies : Copies) :
    Row.fields (.free v o :: row) s copies =
      (s!"{v.name}.{(s.assign v o).1}" ::
          (row.fields (s.assign v o).2 (raise copies v.name (s.assign v o).1)).1,
        (row.fields (s.assign v o).2 (raise copies v.name (s.assign v o).1)).2) := rfl

lemma getD_raise (copies : Copies) (name : String) (k : ℕ) (other : String) :
    (raise copies name k).getD other 0 =
      if other = name then max (copies.getD other 0) (k + 1) else copies.getD other 0 := by
  rw [raise, Std.HashMap.getD_insert]
  by_cases h : other = name
  · simp [h]
  · simp [h, Ne.symm h]

lemma fields_eq (row : Row) (s : Suffixes) (copies : Copies) : (row.fields s copies).1 =
    row.map (Value.field fun o => ((s.after row).find? o).getD 0) := by
  induction row generalizing s copies with
  | nil => rfl
  | cons u row ih =>
    cases u with
    | state t d o =>
      rw [fields_state, ih]
      rfl
    | free v o =>
      rw [fields_free, List.map_cons, ih]
      have hself := Suffixes.find?_after (s.find?_assign_self v o) row
      rw [Suffixes.after, Value.field, hself]
      rfl

lemma render_fst (row : Row) (copies : Copies) : (row.render copies).1 = row.text := by
  rw [show (row.render copies).1 = ",".intercalate (row.fields {} copies).1 from rfl, fields_eq]
  rfl

lemma getD_le_fields (row : Row) (s : Suffixes) (copies : Copies) (name : String) :
    copies.getD name 0 ≤ (row.fields s copies).2.getD name 0 := by
  induction row generalizing s copies with
  | nil => exact le_rfl
  | cons u row ih =>
    cases u with
    | state t d o => exact ih s copies
    | free v o =>
      have hrest := ih (s.assign v o).2 (raise copies v.name (s.assign v o).1)
      rw [getD_raise] at hrest
      rw [fields_free]
      dsimp only
      split at hrest <;> omega

/-- Writing a row raises the number of copies to what the row needs. -/
lemma max_fields_snd {names : ℤ → String} (hs : s.Sound names)
    (hrow : ∀ v o, .free v o ∈ row → names o = v.name) (copies : Copies) (name : String) :
    max ((row.fields s copies).2.getD name 0) (s.count name) =
      max (copies.getD name 0) ((s.after row).count name) := by
  induction row generalizing s copies with
  | nil => rfl
  | cons u row ih =>
    have hrest : ∀ v o, .free v o ∈ row → names o = v.name :=
      fun v o hmem => hrow v o (List.mem_cons_of_mem _ hmem)
    cases u with
    | state t d o => exact ih hs hrest copies
    | free v o =>
      have hv := hrow v o List.mem_cons_self
      have hrec := ih (hs.assign hv) hrest (raise copies v.name (s.assign v o).1)
      have hle := Suffixes.count_le_after (s.assign v o).2 row name
      have hge := getD_le_fields row (s.assign v o).2 (raise copies v.name (s.assign v o).1) name
      rw [fields_free, Suffixes.after]
      rw [getD_raise] at hrec hge
      by_cases he : name = v.name
      · -- the suffix given out is below the count, which it has raised unless it was there before
        have hbelow : (s.assign v o).1 < (s.assign v o).2.count name := by
          rw [he, ← hv]
          exact (hs.assign hv).below o _ (s.find?_assign_self v o)
        rw [if_pos he] at hrec hge
        cases hf : s.find? o with
        | some k =>
          rw [Suffixes.assign_of_some hf] at hrec hle hbelow ⊢
          dsimp only at hrec hle hbelow ⊢
          omega
        | none =>
          obtain ⟨hfst, -, hcount⟩ := Suffixes.assign_of_none (v := v) hf
          rw [hcount, if_pos he] at hrec hle hbelow
          rw [hfst, ← he] at hrec hge ⊢
          dsimp only
          omega
      · rw [if_neg he] at hrec
        have hsame : (s.assign v o).2.count name = s.count name := by
          cases hf : s.find? o with
          | some k => rw [Suffixes.assign_of_some hf]
          | none => rw [(Suffixes.assign_of_none hf).2.2, if_neg he]
        rwa [hsame] at hrec

lemma Proper.exists_names (h : row.Proper) :
    ∃ names : ℤ → String, ∀ v o, .free v o ∈ row → names o = v.name := by
  classical
  refine ⟨fun o => if h : ∃ v, .free v o ∈ row then h.choose.name else "", fun v o hv => ?_⟩
  have hex : ∃ v, Value.free v o ∈ row := ⟨v, hv⟩
  simp only [dif_pos hex]
  rw [h.same _ v o hex.choose_spec hv]

lemma Proper.render_snd (h : row.Proper) (copies : Copies) (name : String) :
    (row.render copies).2.getD name 0 = max (copies.getD name 0) (row.need name) := by
  obtain ⟨names, hnames⟩ := h.exists_names
  have hempty : Suffixes.Sound names {} := Suffixes.sound_empty
  have hmax := max_fields_snd hempty hnames copies name
  rwa [show Suffixes.count {} name = 0 from rfl, Nat.max_zero] at hmax

/-- Every suffix of a variable in the line is counted, and those of different origins differ. -/
lemma Proper.suffix (h : row.Proper) {v w : Variable} {o o' : ℤ} (hv : .free v o ∈ row)
    (hw : .free w o' ∈ row) (hn : v.name = w.name) :
    row.suffix o < row.need v.name ∧ (row.suffix o = row.suffix o' → o = o') := by
  obtain ⟨names, hnames⟩ := h.exists_names
  have hempty : Suffixes.Sound names {} := Suffixes.sound_empty
  have hs := hempty.after hnames
  obtain ⟨k, hk⟩ := Option.isSome_iff_exists.mp (Suffixes.isSome_find?_after {} hv)
  obtain ⟨k', hk'⟩ := Option.isSome_iff_exists.mp (Suffixes.isSome_find?_after {} hw)
  rw [Row.suffix, Row.suffix, hk, hk']
  refine ⟨hnames v o hv ▸ hs.below o k hk, fun he => ?_⟩
  obtain rfl : k = k' := he
  exact hs.apart o o' k hk hk' (by rw [hnames v o hv, hnames w o' hw, hn])

end Row

/-! ### What is written can be read -/

lemma forall₂_congr_of_mem {α β : Type} {P Q : α → β → Prop} {l : List α} {l' : List β}
    (h : ∀ a ∈ l, ∀ b, P a b ↔ Q a b) : List.Forall₂ P l l' ↔ List.Forall₂ Q l l' := by
  induction l generalizing l' with
  | nil => simp
  | cons a l ih =>
    cases l' with
    | nil => simp
    | cons b l' =>
      rw [List.forall₂_cons, List.forall₂_cons, h a List.mem_cons_self,
        ih fun a ha => h a (List.mem_cons_of_mem _ ha)]

section Reading

variable {s : CompiledSection} {scope : Scope} {ok : String → Prop} {full : Prop} {row : Row}
variable {tuple : List ℤ}

lemma notMem_toString_nat {c : Char} (hc : c.isDigit = false) (k : ℕ) :
    c ∉ (toString k).toList := by
  intro h
  rw [Nat.toString_eq_repr, Nat.toList_repr] at h
  rw [Nat.isDigit_of_mem_toDigits (by omega) (by omega) h] at hc
  cases hc

/-- The name and the suffix can be told from a field: the suffix is what follows the last dot. -/
lemma field_inj {name other : String} {k m : ℕ} (he : s!"{name}.{k}" = s!"{other}.{m}") :
    name = other ∧ k = m := by
  have htext := congrArg String.toList he
  simp only [toString_string, String.toList_append, List.append_assoc] at htext
  have hdot : ('.' : Char).isDigit = false := by decide
  obtain ⟨h₁, h₂⟩ := append_sep_inj_right (notMem_toString_nat hdot k)
    (notMem_toString_nat hdot m) htext
  exact ⟨String.toList_inj.mp h₁, Nat.repr_inj.mp (String.toList_inj.mp h₂)⟩

/-- No number is a field with a suffix. -/
lemma field_ne_numeral (name : String) (k : ℕ) (z : ℤ) : s!"{name}.{k}" ≠ toString z := by
  intro h
  have hdot : '.' ∈ (toString z).toList := by
    rw [← h]
    simp
  rcases mem_toString_int hdot with h | h <;> revert h <;> decide

lemma toList_text (states : StateList) :
    states.text.toList =
      '\x7b' :: ([','].intercalate (states.map fun z => (toString z).toList) ++ ['\x7d']) := by
  rw [StateList.text, Text.braced, Text.commas]
  simp [String.toList_intercalate, Function.comp_def]

lemma blank_notMem_text (states : StateList) : ' ' ∉ states.text.toList := by
  rw [toList_text]
  intro h
  simp only [List.mem_cons, List.mem_append, List.not_mem_nil, or_false] at h
  rcases h with h | h | h
  · revert h; decide
  · rcases mem_of_mem_intercalate h with h | ⟨part, hpart, h⟩
    · revert h; decide
    · obtain ⟨z, -, rfl⟩ := List.mem_map.mp hpart
      rcases mem_toString_int h with h | h <;> revert h <;> decide
  · revert h; decide

lemma text_inj {states states' : StateList} (h : states.text = states'.text) :
    states = states' := by
  have htext := congrArg String.toList h
  simp only [StateList.text, Text.braced, String.toList_append, List.append_assoc] at htext
  exact intercalate_toString_inj
    (String.toList_inj.mp (List.append_cancel_right (List.append_cancel_left htext)))

/-- What is declared can be told from the declaration. -/
lemma declaration_inj {field other : String} {states values : StateList}
    (h : s!"var {field} = {states.text}" = s!"var {other} = {values.text}") :
    field = other ∧ states = values := by
  have htext := congrArg String.toList h
  simp only [toString_string, String.toList_append, List.append_assoc] at htext
  have hfront := List.append_cancel_left htext
  have hshape : ∀ (field : String) (l : List Char),
      field.toList ++ (" = ".toList ++ l) = (field.toList ++ [' ', '=']) ++ ' ' :: l := by simp
  rw [hshape, hshape] at hfront
  obtain ⟨h₁, h₂⟩ := append_sep_inj_right (blank_notMem_text _) (blank_notMem_text _) hfront
  exact ⟨String.toList_inj.mp (List.append_cancel_right h₁), text_inj (String.toList_inj.mp h₂)⟩

/-- Which copy of which variable is declared can be told from the declaration. -/
lemma copy_inj {name other : String} {k m : ℕ} {states values : StateList}
    (h : s!"var {name}.{k} = {states.text}" = s!"var {other}.{m} = {values.text}") :
    (name = other ∧ k = m) ∧ states = values := by
  have hparts : ∀ (name : String) (k : ℕ) (states : StateList),
      s!"var {name}.{k} = {states.text}" = "var " ++ s!"{name}.{k}" ++ " = " ++ states.text := by
    intro name k states
    simp only [toString_string, String.append_assoc]
  rw [hparts, hparts] at h
  obtain ⟨hfield, hstates⟩ := declaration_inj h
  exact ⟨field_inj hfield, hstates⟩

/-- The declarations are those of the variables of the scope, of each so many copies. -/
def CompiledSection.DeclaresCopies (s : CompiledSection) (scope : Scope) (copies : String → ℕ) :
    Prop :=
  ∀ field states, s.Declares field states ↔
    ∃ v ∈ scope.vars, ∃ k < copies v.name, field = s!"{v.name}.{k}" ∧ states = v.states

variable {copies : String → ℕ} {line : Line}

lemma comma_notMem_field (hcomma : ∀ v ∈ scope.vars, ',' ∉ v.name.toList)
    (hin : row.Within full scope) {u : Value} (hu : u ∈ row) (suffix : ℤ → ℕ) :
    ',' ∉ (u.field suffix).toList := by
  cases u with
  | state t d o => exact comma_notMem_toString t
  | free v o =>
    have hname := hcomma v (hin.variable hu).mem
    have hsuffix := notMem_toString_nat (show (',' : Char).isDigit = false by decide) (suffix o)
    simp only [Value.field, toString_string, String.toList_append, List.mem_append, not_or]
    exact ⟨⟨hname, by decide⟩, hsuffix⟩

lemma fields_of_text (hcomma : ∀ v ∈ scope.vars, ',' ∉ v.name.toList)
    (hin : row.Within full scope) (hne : row ≠ []) (htext : line.text = row.text) :
    line.fields = row.map (Value.field row.suffix) := by
  rw [Line.fields, htext, Row.text, String.toList_intercalate]
  rw [show ",".toList = [','] from rfl, List.splitOn_intercalate, List.map_map]
  · simp [Function.comp_def]
  · intro part hpart
    simp only [List.map_map, List.mem_map] at hpart
    obtain ⟨u, hu, rfl⟩ := hpart
    exact comma_notMem_field hcomma hin hu _
  · simpa using hne

/-- A field takes the states that its value takes. -/
lemma reads_field_iff (hscope : scope.WellNamed ok) (hdecl : s.DeclaresCopies scope copies)
    (hrow : row.Proper) (hin : row.Within full scope)
    (hcopies : ∀ name, row.need name ≤ copies name)
    {names : ℤ → String} (hnames : ∀ v o, .free v o ∈ row → names o = v.name) {u : Value}
    (hu : u ∈ row) {env : String → ℤ} {x : ℤ} : s.Reads env (u.field row.suffix) x ↔
      u.Takes (fun o => env s!"{names o}.{row.suffix o}") x := by
  cases u with
  | state t d o =>
    constructor
    · rintro (h | ⟨states, h, -, -⟩)
      · exact (toString_int_inj h).symm
      · obtain ⟨v, -, k, -, hfield, -⟩ := (hdecl _ _).mp h
        exact absurd hfield.symm (field_ne_numeral _ _ _)
    · rintro rfl
      exact .inl rfl
  | free v o =>
    rw [Value.Takes, hnames v o hu]
    constructor
    · rintro (h | ⟨states, h, hx, he⟩)
      · exact absurd h (field_ne_numeral _ _ _)
      · obtain ⟨w, hw, k, -, hfield, rfl⟩ := (hdecl _ _).mp h
        obtain rfl := hscope.apart v (hin.variable hu).mem w hw (field_inj hfield).1
        exact ⟨he, hx⟩
    · rintro ⟨he, hx⟩
      have hlt := (hrow.suffix hu hu rfl).1.trans_le (hcopies v.name)
      exact .inr ⟨v.states, (hdecl _ _).mpr ⟨v, (hin.variable hu).mem, _, hlt, rfl, rfl⟩, hx, he⟩

/-- **A line stands for what its row stands for.** -/
lemma lineMatches_iff (hscope : scope.WellNamed ok)
    (hcomma : ∀ v ∈ scope.vars, ',' ∉ v.name.toList) (hdecl : s.DeclaresCopies scope copies)
    (hrow : row.Proper) (hin : row.Within full scope) (hne : row ≠ [])
    (hcopies : ∀ name, row.need name ≤ copies name) (htext : line.text = row.text) :
    s.LineMatches line tuple ↔ row.Matches tuple := by
  obtain ⟨names, hnames⟩ := hrow.exists_names
  have hreads : ∀ env, List.Forall₂ (s.Reads env) line.fields tuple ↔
      List.Forall₂ (Value.Takes fun o => env s!"{names o}.{row.suffix o}") row tuple := by
    intro env
    rw [fields_of_text hcomma hin hne htext, List.forall₂_map_left_iff]
    exact forall₂_congr_of_mem fun u hu x => reads_field_iff hscope hdecl hrow hin hcopies hnames hu
  constructor
  · rintro ⟨env, h⟩
    exact ⟨_, (hreads env).mp h⟩
  · rintro ⟨pick, h⟩
    -- states picked for origins are states picked for fields: no two origins share a field
    let fieldOf : { o : ℤ // ∃ v, Value.free v o ∈ row } → String :=
      fun o => s!"{names o}.{row.suffix o}"
    have hinj : Function.Injective fieldOf := by
      rintro ⟨o, v, hv⟩ ⟨o', w, hw⟩ he
      simp only [fieldOf, hnames v o hv, hnames w o' hw] at he
      obtain ⟨hn, hk⟩ := field_inj he
      exact Subtype.ext ((hrow.suffix hv hw hn).2 hk)
    refine ⟨Function.extend fieldOf (fun o => pick o) 0, (hreads _).mpr ?_⟩
    refine (forall₂_congr_of_mem fun u hu x => ?_).mp h
    cases u with
    | state t d o => exact Iff.rfl
    | free v o =>
      have := hinj.extend_apply (fun o => pick o) 0 ⟨o, v, hu⟩
      rw [Value.Takes, Value.Takes, this]

end Reading

/-! ### The listing -/

namespace Listing

variable {l : Listing} {rows : List Row} {row : Row}

/-- The lines are those of the rows, and of each variable there are as many copies as a row
needs. -/
structure Lists (l : Listing) (rows : List Row) : Prop where
  texts : ∀ text, (∃ line ∈ l.lines, line.text = text) ↔ ∃ row ∈ rows, row.text = text
  places : ∀ text, text ∈ l.places ↔ ∃ line ∈ l.lines, line.text = text
  copies : ∀ name n, l.copies.getD name 0 ≤ n ↔ ∀ row ∈ rows, row.need name ≤ n

lemma lists_empty : Lists {} [] := ⟨by simp, by simp, by simp⟩

lemma map_text_modify (lines : Array Line) (i : ℕ) {f : Line → Line}
    (hf : ∀ line, (f line).text = line.text) :
    (lines.modify i f).map (·.text) = lines.map (·.text) := by
  refine Array.ext (by simp) fun j hj hj' => ?_
  simp only [Array.getElem_map, Array.getElem_modify]
  split
  · exact hf _
  · rfl

lemma exists_text_modify (lines : Array Line) (i : ℕ) {f : Line → Line}
    (hf : ∀ line, (f line).text = line.text) (text : String) :
    (∃ line ∈ lines.modify i f, line.text = text) ↔ ∃ line ∈ lines, line.text = text := by
  rw [← Array.mem_map, map_text_modify lines i hf, Array.mem_map]

def noting (span : Span) (line : Line) : Line :=
  if line.spans.contains span then line else { line with spans := line.spans ++ [span] }

lemma text_noting (span : Span) (line : Line) : (noting span line).text = line.text := by
  unfold noting
  split <;> rfl

lemma add_eq (l : Listing) (span : Span) (row : Row) :
    l.add span row = match l.places[row.text]? with
      | some i => { l with
          lines := l.lines.modify i (noting span)
          copies := (row.render l.copies).2
          duplicates := l.duplicates + 1 }
      | none => { l with
          lines := l.lines.push ⟨row.text, [span]⟩
          places := l.places.insert row.text l.lines.size
          copies := (row.render l.copies).2 } := by
  rw [← row.render_fst l.copies]
  rfl

lemma Lists.add (h : l.Lists rows) (span : Span) (hrow : row.Proper) :
    (l.add span row).Lists (rows ++ [row]) := by
  have hcopies : ∀ name n, (row.render l.copies).2.getD name 0 ≤ n ↔
      ∀ r ∈ rows ++ [row], r.need name ≤ n := by
    intro name n
    rw [hrow.render_snd, max_le_iff, h.copies]
    simp [or_imp, forall_and]
  have htexts : ∀ text, (∃ r ∈ rows ++ [row], r.text = text) ↔
      (∃ line ∈ l.lines, line.text = text) ∨ row.text = text := by
    intro text
    rw [h.texts]
    simp [or_and_right, exists_or]
  rw [add_eq]
  cases hplace : l.places[row.text]? with
  | some i =>
    have hthere := (h.places row.text).mp
      (Std.HashMap.mem_iff_isSome_getElem?.mpr (by rw [hplace]; rfl))
    refine ⟨fun text => ?_, fun text => ?_, hcopies⟩
    · rw [exists_text_modify _ _ (text_noting span), htexts]
      refine ⟨.inl, ?_⟩
      rintro (hline | rfl)
      · exact hline
      · exact hthere
    · rw [exists_text_modify _ _ (text_noting span)]
      exact h.places text
  | none =>
    have hpush : ∀ text, (∃ line ∈ l.lines.push ⟨row.text, [span]⟩, line.text = text) ↔
        (∃ line ∈ l.lines, line.text = text) ∨ row.text = text := by
      intro text
      simp only [Array.mem_push, or_and_right, exists_or, exists_eq_left]
    refine ⟨fun text => ?_, fun text => ?_, hcopies⟩
    · rw [hpush, htexts]
    · rw [hpush, Std.HashMap.mem_insert, h.places, beq_iff_eq]
      exact or_comm

lemma Lists.foldl (h : l.Lists rows) (span : Span) {more : List Row}
    (hmore : ∀ row ∈ more, row.Proper) :
    (more.foldl (·.add span) l).Lists (rows ++ more) := by
  induction more generalizing l rows with
  | nil => simpa using h
  | cons row more ih =>
    have := ih (h.add span (hmore row List.mem_cons_self))
      fun row hrow => hmore row (List.mem_cons_of_mem _ hrow)
    simpa using this

lemma mem_declarations (l : Listing) (scope : Scope) (text : String) :
    text ∈ l.declarations scope ↔ ∃ v ∈ scope.vars, ∃ k < l.copies.getD v.name 0,
      text = s!"var {v.name}.{k} = {v.states.text}" := by
  have hparts : ∀ all : List (Bool × String),
      text ∈ (all.filter (!·.1)).map (·.2) ++ (all.filter (·.1)).map (·.2) ↔
      ∃ b, (b, text) ∈ all := by
    intro all
    simp [Bool.exists_bool]
  rw [declarations, hparts]
  constructor
  · rintro ⟨b, h⟩
    obtain ⟨v, hv, h⟩ := List.mem_flatMap.mp h
    obtain ⟨k, hk, h⟩ := List.mem_map.mp h
    exact ⟨v, Array.mem_toList_iff.mp hv, k, List.mem_range.mp hk, (congrArg Prod.snd h).symm⟩
  · rintro ⟨v, hv, k, hk, rfl⟩
    exact ⟨v.anonymous, List.mem_flatMap.mpr ⟨v, Array.mem_toList_iff.mpr hv,
      List.mem_map_of_mem (List.mem_range.mpr hk)⟩⟩

lemma declaresCopies {s : CompiledSection} {scope : Scope} (h : s.vars = l.declarations scope) :
    s.DeclaresCopies scope (l.copies.getD · 0) := by
  intro field states
  rw [CompiledSection.Declares, h, mem_declarations]
  constructor
  · rintro ⟨v, hv, k, hk, he⟩
    exact ⟨v, hv, k, hk, declaration_inj he⟩
  · rintro ⟨v, hv, k, hk, rfl, rfl⟩
    exact ⟨v, hv, k, hk, rfl⟩

end Listing

end RuleTable
