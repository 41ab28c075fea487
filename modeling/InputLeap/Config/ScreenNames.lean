import InputLeap.Text.Scan

/-!
# Names of screens

`Config::isValidScreenName` checks a name part by part.

## Main definitions

* `Config.isValidScreenName` : the loop over the parts.
* `Config.Label`, `Config.ValidName` : the grammar that its comment gives.

## Main results

* `Config.isValidScreenName_iff` : the loop accepts the names of the grammar.
-/

namespace InputLeap

namespace Config

/-- A letter, a digit or an underscore. -/
def isNameEnd (c : Char) : Bool := c.isAlphanum || c == '_'

/-- The loop over the parts, from the start of one on. -/
def validParts (name : Text) : Bool :=
  match name with
  -- A dot at the end is accepted.
  | [] => true
  | c :: s =>
    let part := (c :: s).takeWhile (· != '.')
    if part.length < 1 then false
    else if !part.head?.any isNameEnd || !part.getLast?.any isNameEnd then false
    else if part.any fun c => !c.isAlphanum && c != '_' && c != '-' then false
    else
      match _hrest : (c :: s).dropWhile (· != '.') with
      | [] => true
      | _ :: rest => validParts rest
termination_by name.length
decreasing_by
  have hle := (List.dropWhile_suffix (l := c :: s) (· != '.')).length_le
  rw [_hrest, List.length_cons] at hle
  exact hle

/-- Whether a name is one for a screen. -/
def isValidScreenName (name : Text) : Bool := !name.isEmpty && validParts name

/-- A part of a name: it starts and ends with a letter, a digit or an underscore, and has dashes in
between only. -/
structure Label (part : Text) : Prop where
  first : ∃ c ∈ part.head?, isNameEnd c = true
  last : ∃ c ∈ part.getLast?, isNameEnd c = true
  inner : ∀ c ∈ part, isNameEnd c = true ∨ c = '-'

/-- Parts between dots, and a dot behind them if there is one. -/
def ValidName (name : Text) : Prop :=
  ∃ parts : List Text, parts ≠ [] ∧ (∀ part ∈ parts, Label part) ∧
    (name = List.intercalate ['.'] parts ∨ name = List.intercalate ['.'] parts ++ ['.'])

/-! ### Parts -/

variable {part rest name : Text} {parts : List Text}

theorem Label.dot_not_mem (h : Label part) : '.' ∉ part := by
  intro hdot
  rcases h.inner '.' hdot with hend | hdash
  · exact absurd hend (by decide)
  · exact absurd hdash (by decide)

theorem Label.ne_nil (h : Label part) : part ≠ [] := by
  rintro rfl
  obtain ⟨c, hc, -⟩ := h.first
  cases hc

/-- What the loop tests of a part. -/
theorem label_iff : Label part ↔ ¬part.length < 1 ∧
    ¬(!part.head?.any isNameEnd || !part.getLast?.any isNameEnd) = true ∧
      ¬(part.any fun c => !c.isAlphanum && c != '_' && c != '-') = true := by
  have hany (o : Option Char) : o.any isNameEnd = true ↔ ∃ c ∈ o, isNameEnd c = true := by
    cases o <;> simp
  have hinner : (∀ c ∈ part, isNameEnd c = true ∨ c = '-') ↔
      ¬(part.any fun c => !c.isAlphanum && c != '_' && c != '-') = true := by
    simp [isNameEnd, or_iff_not_imp_left]
  rw [← hinner, Bool.or_eq_true, Bool.not_eq_true', Bool.not_eq_true', not_or, Bool.not_eq_false,
    Bool.not_eq_false, hany, hany]
  constructor
  · intro h
    exact ⟨fun hlt => h.ne_nil (List.length_eq_zero_iff.1 (Nat.lt_one_iff.1 hlt)),
      ⟨h.first, h.last⟩, h.inner⟩
  · rintro ⟨-, ⟨hfirst, hlast⟩, hinner⟩
    exact ⟨hfirst, hlast, hinner⟩

/-- What is up to the first dot, and what is behind it. -/
theorem takeWhile_dot (h : '.' ∉ part) (rest : Text) :
    (part ++ '.' :: rest).takeWhile (· != '.') = part ∧
      (part ++ '.' :: rest).dropWhile (· != '.') = '.' :: rest := by
  have hpart : ∀ c ∈ part, (c != '.') = true := by
    intro c hc
    exact bne_iff_ne.2 fun heq => h (heq ▸ hc)
  have hend : ∀ c ∈ ('.' :: rest).head?, (c != '.') = false := by
    rintro c hc
    obtain rfl := Option.some.inj hc
    rfl
  exact ⟨Text.takeWhile_run hpart hend, Text.dropWhile_run hpart hend⟩

theorem takeWhile_no_dot (h : '.' ∉ name) :
    name.takeWhile (· != '.') = name ∧ name.dropWhile (· != '.') = [] := by
  have hname : ∀ c ∈ name, (c != '.') = true := by
    intro c hc
    exact bne_iff_ne.2 fun heq => h (heq ▸ hc)
  exact ⟨List.takeWhile_eq_self_iff.2 hname, List.dropWhile_eq_nil_iff.2 hname⟩

theorem validParts_of_no_dot (hne : name ≠ []) (h : '.' ∉ name) :
    validParts name = true ↔ Label name := by
  obtain ⟨c, s, rfl⟩ := List.exists_cons_of_ne_nil hne
  obtain ⟨htake, hdrop⟩ := takeWhile_no_dot h
  rw [validParts, htake, label_iff]
  split_ifs with hempty hends hinner
  · exact iff_of_false not_false fun hand => hand.1 hempty
  · exact iff_of_false not_false fun hand => hand.2.1 hends
  · exact iff_of_false not_false fun hand => hand.2.2 hinner
  · refine iff_of_true ?_ ⟨hempty, hends, hinner⟩
    split
    · rfl
    · rename_i hcons
      rw [hdrop] at hcons
      cases hcons

theorem validParts_dot (h : '.' ∉ part) :
    validParts (part ++ '.' :: rest) = true ↔ Label part ∧ validParts rest = true := by
  obtain ⟨c, s, hcons⟩ : ∃ c s, part ++ '.' :: rest = c :: s :=
    List.exists_cons_of_ne_nil (by simp)
  obtain ⟨htake, hdrop⟩ := takeWhile_dot h rest
  rw [hcons] at htake hdrop ⊢
  rw [validParts, htake, label_iff]
  split_ifs with hempty hends hinner
  · exact iff_of_false not_false fun hand => hand.1.1 hempty
  · exact iff_of_false not_false fun hand => hand.1.2.1 hends
  · exact iff_of_false not_false fun hand => hand.1.2.2 hinner
  · rw [and_iff_right ⟨hempty, hends, hinner⟩]
    split
    · rename_i hnil
      rw [hdrop] at hnil
      cases hnil
    · rename_i hrest
      rw [hdrop] at hrest
      cases hrest
      rfl

/-! ### Names -/

theorem dot_inj {s t : Text} {part' : Text} (h : '.' ∉ part) (h' : '.' ∉ part')
    (heq : part ++ '.' :: s = part' ++ '.' :: t) : part = part' ∧ s = t := by
  obtain ⟨htake, hdrop⟩ := takeWhile_dot h s
  obtain ⟨htake', hdrop'⟩ := takeWhile_dot h' t
  rw [heq, htake'] at htake
  rw [heq, hdrop'] at hdrop
  exact ⟨htake.symm, (List.cons.inj hdrop).2.symm⟩

/-- A name without a dot has one part. -/
theorem validName_of_no_dot (h : '.' ∉ name) : ValidName name ↔ Label name := by
  constructor
  · rintro ⟨parts, hne, hparts, hname⟩
    rcases hname with rfl | rfl
    · match parts, hne with
      | [p], _ => simpa using hparts
      | p :: q :: ps, _ =>
        rw [List.intercalate_cons_cons] at h
        exact absurd (by simp) h
    · exact absurd (by simp) h
  · intro hlabel
    exact ⟨[name], List.cons_ne_nil _ _, by simpa using hlabel, .inl (by simp)⟩

/-- A name is a part, and behind a dot there is nothing or a name. -/
theorem validName_dot (h : '.' ∉ part) :
    ValidName (part ++ '.' :: rest) ↔ Label part ∧ (rest = [] ∨ ValidName rest) := by
  constructor
  · rintro ⟨parts, hne, hparts, hname⟩
    obtain ⟨p, ps, rfl⟩ := List.exists_cons_of_ne_nil hne
    obtain ⟨hp, hps⟩ := List.forall_mem_cons.1 hparts
    cases ps with
    | nil =>
      rw [List.intercalate_singleton] at hname
      rcases hname with hname | hname
      · exact absurd (hname ▸ by simp) hp.dot_not_mem
      · obtain ⟨rfl, rfl⟩ := dot_inj h hp.dot_not_mem hname
        exact ⟨hp, .inl rfl⟩
    | cons q ps =>
      rw [List.intercalate_cons_cons, List.append_assoc, List.append_assoc,
        List.singleton_append, List.cons_append] at hname
      rcases hname with hname | hname
      · obtain ⟨rfl, rfl⟩ := dot_inj h hp.dot_not_mem hname
        exact ⟨hp, .inr ⟨q :: ps, List.cons_ne_nil _ _, hps, .inl rfl⟩⟩
      · obtain ⟨rfl, rfl⟩ := dot_inj h hp.dot_not_mem hname
        exact ⟨hp, .inr ⟨q :: ps, List.cons_ne_nil _ _, hps, .inr rfl⟩⟩
  · rintro ⟨hpart, rfl | ⟨parts, hne, hparts, hrest⟩⟩
    · exact ⟨[part], List.cons_ne_nil _ _, by simpa using hpart, .inr (by simp)⟩
    · obtain ⟨q, ps, rfl⟩ := List.exists_cons_of_ne_nil hne
      refine ⟨part :: q :: ps, List.cons_ne_nil _ _, List.forall_mem_cons.2 ⟨hpart, hparts⟩, ?_⟩
      rw [List.intercalate_cons_cons]
      rcases hrest with rfl | rfl
      · exact .inl (by simp)
      · exact .inr (by simp)

theorem validParts_iff (hne : name ≠ []) : validParts name = true ↔ ValidName name := by
  induction hn : name.length using Nat.strong_induction_on generalizing name with
  | _ n ih =>
    subst hn
    by_cases hdot : '.' ∈ name
    · obtain ⟨part, rest, rfl, hpart⟩ := List.eq_append_cons_of_mem hdot
      rw [validParts_dot hpart, validName_dot hpart]
      refine and_congr_right fun _ => ?_
      by_cases hrest : rest = []
      · subst hrest
        exact iff_of_true (by rw [validParts]) (.inl rfl)
      · rw [or_iff_right hrest]
        exact ih _ (by simp; omega) hrest rfl
    · rw [validParts_of_no_dot hne hdot, validName_of_no_dot hdot]

/-- **The names that are accepted** are those of the grammar. -/
theorem isValidScreenName_iff (name : Text) : isValidScreenName name = true ↔ ValidName name := by
  rw [isValidScreenName, Bool.and_eq_true, Bool.not_eq_true', List.isEmpty_eq_false_iff]
  constructor
  · rintro ⟨hne, hparts⟩
    exact (validParts_iff hne).1 hparts
  · intro hname
    have hne : name ≠ [] := by
      rintro rfl
      exact (validName_of_no_dot List.not_mem_nil).1 hname |>.ne_nil rfl
    exact ⟨hne, (validParts_iff hne).2 hname⟩

end Config

end InputLeap
