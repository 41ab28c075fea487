import InputLeap.Config.RuleReader
import InputLeap.Config.ScreenNames
import InputLeap.Server.KeyRelay
import InputLeap.Text.Surrounded
import Mathlib.Data.Finset.Sort
import Mathlib.Data.String.Basic

/-!
# The screens of a key event

A set of screen names travels with a key event as one string: the names with colons around them,
or an asterisk if it is among them.

## Main definitions

* `KeyInfo.join`, `KeyInfo.split` : the string of a set, and the set of a string.
* `KeyInfo.Destination` : a name for a screen, or the asterisk.

## Main results

* `KeyInfo.contains_join_iff` : a name is found in the string if and only if it or the asterisk is
  in the set.
* `KeyInfo.split_join` : the string of a set without the asterisk gives the set again.
* `KeyInfo.join_faithful` : both of them.
-/

namespace InputLeap

namespace InputFilter.KeyInfo

/-- The string of the destinations. -/
def join (destinations : Finset String) : String :=
  joinNames (destinations.sort (· ≤ ·)) ""

/-- The loop over the names of the string.  It is not defined what happens if there is no colon
behind a name. -/
def splitNames (dst : Finset String) (i : Text) : Option (Finset String) :=
  match i with
  | [] => some dst
  | c :: s =>
    match _hj : (c :: s).dropWhile (· != ':') with
    | [] => none
    | _ :: rest => splitNames (insert (String.ofList ((c :: s).takeWhile (· != ':'))) dst) rest
termination_by i.length
decreasing_by
  have hle := (List.dropWhile_suffix (l := c :: s) (· != ':')).length_le
  rw [_hj, List.length_cons] at hle
  exact hle

/-- The destinations of the string. -/
def split : Option Text → Option (Finset String)
  | none | some [] => some ∅
  | some (c :: s) => if c = '*' then some {"*"} else splitNames ∅ s

/-- A name that `Config` accepts for a screen, or the asterisk. -/
def Destination (name : String) : Prop :=
  name = "*" ∨ Config.isValidScreenName name.toList = true

/-- The name has no colon and no null character in it. -/
structure Plain (name : String) : Prop where
  colon : ':' ∉ name.toList
  nul : '\x00' ∉ name.toList

/-! ### Names -/

variable {name screens : String} {names : List String} {S dst : Finset String}

/-- The characters of a name for a screen. -/
theorem mem_of_validName {name : Text} (h : Config.ValidName name) {c : Char} (hc : c ∈ name) :
    Config.isNameEnd c = true ∨ c = '-' ∨ c = '.' := by
  obtain ⟨parts, -, hparts, hname⟩ := h
  have hinner : ∀ c ∈ List.intercalate ['.'] parts,
      Config.isNameEnd c = true ∨ c = '-' ∨ c = '.' := by
    clear hname hc
    induction parts with
    | nil => exact fun c hc => absurd hc List.not_mem_nil
    | cons part parts ih =>
      obtain ⟨hpart, hparts⟩ := List.forall_mem_cons.1 hparts
      have hfirst : ∀ c ∈ part, Config.isNameEnd c = true ∨ c = '-' ∨ c = '.' :=
        fun c hc => (hpart.inner c hc).imp_right .inl
      cases parts with
      | nil => simpa using hfirst
      | cons q qs =>
        rw [List.intercalate_cons_cons]
        intro c hc
        rcases List.mem_append.1 hc with hc | hc
        · rcases List.mem_append.1 hc with hc | hc
          · exact hfirst c hc
          · exact .inr (.inr (List.mem_singleton.1 hc))
        · exact ih hparts c hc
  rcases hname with rfl | rfl
  · exact hinner c hc
  · rcases List.mem_append.1 hc with hc | hc
    · exact hinner c hc
    · exact .inr (.inr (List.mem_singleton.1 hc))

theorem plain_of_isValidScreenName (h : Config.isValidScreenName name.toList = true) :
    Plain name := by
  have hvalid := (Config.isValidScreenName_iff _).1 h
  constructor
  · intro hmem
    exact absurd (mem_of_validName hvalid hmem) (by decide)
  · intro hmem
    exact absurd (mem_of_validName hvalid hmem) (by decide)

theorem Destination.plain (h : Destination name) : Plain name := by
  rcases h with rfl | h
  · exact ⟨by decide, by decide⟩
  · exact plain_of_isValidScreenName h

/-! ### The string of a set -/

theorem joinNames_of_mem (h : "*" ∈ names) (screens : String) :
    joinNames names screens = "*" := by
  induction names generalizing screens with
  | nil => exact absurd h List.not_mem_nil
  | cons i rest ih =>
    rw [joinNames]
    by_cases hi : i = "*"
    · rw [if_pos hi]
    · rw [if_neg hi]
      exact ih ((List.mem_cons.1 h).resolve_left (Ne.symm hi)) _

theorem joinNames_of_ne (h : "*" ∉ names) (hne : screens ≠ "") :
    (joinNames names screens).toList =
      screens.toList ++ Text.marked ':' (names.map String.toList) := by
  induction names generalizing screens with
  | nil => rw [joinNames, List.map_nil, Text.marked_nil, List.append_nil]
  | cons i rest ih =>
    rw [List.mem_cons, not_or] at h
    have hcolon : screens ++ i ++ ":" ≠ "" := by
      intro heq
      simpa using congrArg String.toList heq
    rw [joinNames, if_neg (Ne.symm h.1), if_neg hne, ih h.2 hcolon]
    simp

theorem joinNames_toList (h : "*" ∉ names) :
    (joinNames names "").toList = Text.surrounded ':' (names.map String.toList) := by
  cases names with
  | nil => rfl
  | cons i rest =>
    rw [List.mem_cons, not_or] at h
    have hcolon : ":" ++ i ++ ":" ≠ "" := by
      intro heq
      simpa using congrArg String.toList heq
    rw [joinNames, if_neg (Ne.symm h.1), if_pos rfl, joinNames_of_ne h.2 hcolon]
    simp [Text.surrounded]

theorem join_of_mem (h : "*" ∈ S) : join S = "*" :=
  joinNames_of_mem ((Finset.mem_sort _).2 h) _

theorem join_toList (h : "*" ∉ S) :
    (join S).toList = Text.surrounded ':' ((S.sort (· ≤ ·)).map String.toList) :=
  joinNames_toList fun hmem => h ((Finset.mem_sort _).1 hmem)

/-- The options of a configuration write a set of screens the same way. -/
theorem join_toFinset (screens : Std.TreeSet String) :
    join screens.toList.toFinset = ConfigReadContext.join screens := by
  have hnodup : screens.toList.Nodup :=
    screens.distinct_toList.imp fun hne heq => hne (compare_eq_iff_eq.2 heq)
  have hsorted : screens.toList.Pairwise (· ≤ ·) :=
    screens.ordered_toList.imp fun hlt => (compare_lt_iff_lt.1 hlt).le
  rw [join, (List.toFinset_sort (· ≤ ·) hnodup).2 hsorted]
  rfl

theorem cStr_eq_toList (h : '\x00' ∉ screens.toList) : cStr screens = screens.toList := by
  refine List.takeWhile_eq_self_iff.2 fun c hc => bne_iff_ne.2 fun hval => h ?_
  rwa [← show c = '\x00' from Char.ext hval]

theorem cStr_join (hS : ∀ x ∈ S, Destination x) (h : "*" ∉ S) :
    cStr (join S) = Text.surrounded ':' ((S.sort (· ≤ ·)).map String.toList) := by
  rw [← join_toList h]
  refine cStr_eq_toList fun hnul => ?_
  rw [join_toList h] at hnul
  obtain ⟨w, hw, hmem⟩ := Text.exists_mem_of_mem_surrounded (by decide) hnul
  obtain ⟨x, hx, rfl⟩ := List.mem_map.1 hw
  exact (hS x ((Finset.mem_sort _).1 hx)).plain.nul hmem

/-! ### Looking a name up -/

theorem cStr_match (h : Plain name) :
    cStr (":" ++ name ++ ":") = ':' :: (name.toList ++ [':']) := by
  have htoList : (":" ++ name ++ ":").toList = ':' :: (name.toList ++ [':']) := by simp
  rw [← htoList]
  refine cStr_eq_toList fun hnul => ?_
  rw [htoList] at hnul
  simp only [List.mem_cons, List.mem_append, List.not_mem_nil, or_false] at hnul
  rcases hnul with hc | hc | hc
  · cases hc
  · exact h.nul hc
  · cases hc

theorem contains_iff {s : Text} (h : Plain name) : contains (some s) name = true ↔
    s.head? = some '*' ∨ ':' :: (name.toList ++ [':']) <:+: s := by
  cases s with
  | nil => simp [contains]
  | cons c s =>
    rw [contains, Bool.or_eq_true, beq_iff_eq, decide_eq_true_iff, cStr_match h, List.head?_cons,
      Option.some.injEq]

/-- **The names that are found** in the string of a set: those in the set, and every name if the
asterisk is in it. -/
theorem contains_join_iff (hS : ∀ x ∈ S, Destination x) (hname : Plain name) :
    contains (some (cStr (join S))) name = true ↔ name ∈ S ∨ "*" ∈ S := by
  by_cases h : "*" ∈ S
  · rw [join_of_mem h]
    exact iff_of_true rfl (.inr h)
  · have hws : ∀ w ∈ (S.sort (· ≤ ·)).map String.toList, ':' ∉ w := by
      intro w hw
      obtain ⟨x, hx, rfl⟩ := List.mem_map.1 hw
      exact (hS x ((Finset.mem_sort _).1 hx)).plain.colon
    have hmem : name.toList ∈ (S.sort (· ≤ ·)).map String.toList ↔ name ∈ S := by
      rw [List.mem_map_of_injective fun _ _ heq => String.toList_injective heq, Finset.mem_sort]
    rw [contains_iff hname, cStr_join hS h, or_iff_left h, ← hmem,
      ← Text.infix_surrounded_iff hname.colon hws]
    refine or_iff_right fun hhead => ?_
    obtain hnil | hcons := Text.head?_surrounded ':' ((S.sort (· ≤ ·)).map String.toList)
    · rw [hnil] at hhead
      cases hhead
    · rw [hcons] at hhead
      cases hhead

/-! ### Reading a string -/

theorem splitNames_append {w t : Text} (h : ':' ∉ w) (dst : Finset String) :
    splitNames dst (w ++ ':' :: t) = splitNames (insert (String.ofList w) dst) t := by
  have hw : ∀ c ∈ w, (c != ':') = true := by
    intro c hc
    exact bne_iff_ne.2 fun heq => h (heq ▸ hc)
  have hend : ∀ c ∈ (':' :: t).head?, (c != ':') = false := by
    rintro c hc
    obtain rfl := Option.some.inj hc
    rfl
  obtain ⟨c, s, hcons⟩ : ∃ c s, w ++ ':' :: t = c :: s := List.exists_cons_of_ne_nil (by simp)
  have htake := Text.takeWhile_run hw hend
  have hdrop := Text.dropWhile_run hw hend
  rw [hcons] at htake hdrop ⊢
  rw [splitNames, htake]
  split
  · rename_i hnil
    rw [hdrop] at hnil
    cases hnil
  · rename_i hrest
    rw [hdrop] at hrest
    cases hrest
    rfl

theorem splitNames_marked (h : ∀ x ∈ names, ':' ∉ x.toList) (dst : Finset String) :
    splitNames dst (Text.marked ':' (names.map String.toList)) = some (dst ∪ names.toFinset) := by
  induction names generalizing dst with
  | nil =>
    rw [List.map_nil, Text.marked_nil, splitNames, List.toFinset_nil, Finset.union_empty]
  | cons x names ih =>
    obtain ⟨hx, hnames⟩ := List.forall_mem_cons.1 h
    rw [List.map_cons, Text.marked_cons, splitNames_append hx, ih hnames, String.ofList_toList,
      List.toFinset_cons, Finset.insert_union, Finset.union_insert]

theorem split_surrounded (h : ∀ x ∈ names, ':' ∉ x.toList) :
    split (some (Text.surrounded ':' (names.map String.toList))) = some names.toFinset := by
  cases names with
  | nil => rfl
  | cons x names =>
    rw [List.map_cons, Text.surrounded, split, if_neg (by decide), ← List.map_cons,
      splitNames_marked h, Finset.empty_union]

/-- **Reading the string of a set** gives the set. -/
theorem split_join (hS : ∀ x ∈ S, Destination x) (h : "*" ∉ S) :
    split (some (cStr (join S))) = some S := by
  have hcolon : ∀ x ∈ S.sort (· ≤ ·), ':' ∉ x.toList :=
    fun x hx => (hS x ((Finset.mem_sort _).1 hx)).plain.colon
  rw [cStr_join hS h, split_surrounded hcolon, Finset.sort_toFinset]

/-- **The string stands for the set**: the names that are found in it are those in the set, or all
of them if the asterisk is in it, and a set without the asterisk is what is read from it. -/
theorem join_faithful (hS : ∀ x ∈ S, Destination x) :
    (∀ name, Plain name →
      (contains (some (cStr (join S))) name = true ↔ name ∈ S ∨ "*" ∈ S)) ∧
    ("*" ∉ S → split (some (cStr (join S))) = some S) :=
  ⟨fun _ hname => contains_join_iff hS hname, split_join hS⟩

/-- Two screens, the name of one of which starts with the name of the other. -/
theorem join_faithful_pad :
    (∀ x ∈ ({"pad", "pad-2"} : Finset String), Destination x) ∧ Plain "ad" ∧
      contains (some (cStr (join {"pad", "pad-2"}))) "ad" = false ∧
      split (some (cStr (join {"pad", "pad-2"}))) = some {"pad", "pad-2"} := by
  have hS : ∀ x ∈ ({"pad", "pad-2"} : Finset String), Destination x := by
    intro x hx
    rw [Finset.mem_insert, Finset.mem_singleton] at hx
    rcases hx with rfl | rfl
    · exact .inr ((Config.isValidScreenName_iff _).2 ((Config.validName_of_no_dot (by decide)).2
        (Config.label_iff.2 (by decide))))
    · exact .inr ((Config.isValidScreenName_iff _).2 ((Config.validName_of_no_dot (by decide)).2
        (Config.label_iff.2 (by decide))))
  have hname : Plain "ad" := ⟨by decide, by decide⟩
  refine ⟨hS, hname, ?_, (join_faithful hS).2 (by decide)⟩
  rw [Bool.eq_false_iff, Ne, (join_faithful hS).1 "ad" hname]
  decide

end InputFilter.KeyInfo

end InputLeap
