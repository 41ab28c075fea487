import InputLeap.Text.Find
import Mathlib.Algebra.Order.Group.Int

/-!
# Command strings

The daemon takes a command apart into its arguments, and puts the arguments together again without
the one it has dealt with itself.  An argument that contains a space is between double quotes in
the command.

The loops take a number of turns; there is no result when it was not enough, or when an exception
is thrown or an iterator leaves its list.

## Main definitions

* `ArgParser.splitCommandString` : the arguments in a command.
* `ArgParser.assembleCommand` : the command with some arguments.
* `ArgParser.kept`, `ArgParser.Followed` : what is left of the arguments without the ignored ones,
  and that these come with all of their parameters.

## Main results

* `ArgParser.isSome_splitTurns` : splitting ends.
* `ArgParser.splitTurns_assembled` : the arguments that were put together come apart again.
* `ArgParser.assembleTurns_iff` : what is put together, and when.
* `ArgParser.splitCommandString_assembleCommand` : all of it.
-/

namespace InputLeap

namespace ArgParser

/-! ### Splitting -/

/-- The first two double quotes from `startPos` on, or two zeros. -/
def searchDoubleQuotes (command : Text) (startPos : ℕ) : ℕ × ℕ :=
  match command.find '"' startPos with
  | none => (0, 0)
  | some left =>
    match command.find '"' (left + 1) with
    | none => (0, 0)
    | some right => (left, right)

/-- The argument without the double quotes around it. -/
def removeDoubleQuotes (arg : Text) : Text :=
  if arg.head? = some '"' ∧ arg.getLast? = some '"' then (arg.drop 1).take (arg.length - 2)
  else arg

/-- The loop of `splitCommandString` at a space, with the double quotes found last. -/
def splitTurns (command : Text) : ℕ → List Text → ℕ → ℕ × ℕ → Option ℕ → Option (List Text)
  | 0, _, _, _, _ => none
  | _ + 1, argv, startPos, _, none =>
    (command.substr? startPos command.length).map fun subString =>
      argv ++ [removeDoubleQuotes subString]
  | k + 1, argv, startPos, quotes, some space =>
    -- the space is between two double quotes
    if quotes.1 < space ∧ space < quotes.2 then
      splitTurns command k argv startPos quotes (command.find ' ' (quotes.2 + 1))
    else
      let quotes :=
        if quotes.2 < space then searchDoubleQuotes command (quotes.2 + 1) else quotes
      match command.substr? startPos (space - startPos) with
      | none => none
      | some subString =>
        splitTurns command k (argv ++ [removeDoubleQuotes subString]) (space + 1) quotes
          (command.find ' ' (space + 1))

/-- The arguments of the command, behind those in `argv`. -/
def splitCommandString (k : ℕ) (command : Text) (argv : List Text) : Option (List Text) :=
  if command.isEmpty then some argv
  else splitTurns command k argv 0 (searchDoubleQuotes command 0) (command.find ' ' 0)

/-! ### Assembling -/

/-- The argument as it stands in a command. -/
def quoted (arg : Text) : Text := if ' ' ∈ arg then '"' :: (arg ++ ['"']) else arg

/-- The loop of `assembleCommand` at the position `it`; the arguments are quoted in the list. -/
def assembleTurns (ignoreArg : Text) (parametersRequired : ℤ) :
    ℕ → List Text → ℕ → Text → Option (Text × List Text)
  | 0, _, _, _ => none
  | k + 1, argsArray, it, result =>
    match argsArray[it]? with
    | none => some (result, argsArray)
    | some arg =>
      if arg = ignoreArg then
        -- past the parameters, and the increment of the loop
        if 0 ≤ it + parametersRequired ∧ it + parametersRequired < argsArray.length then
          assembleTurns ignoreArg parametersRequired k argsArray
            ((it + parametersRequired).toNat + 1) result
        else none
      else
        assembleTurns ignoreArg parametersRequired k (argsArray.set it (quoted arg)) (it + 1)
          (result ++ quoted arg ++ [' '])

/-- The command with the arguments, and the arguments as they are left in the list. -/
def assembleCommand (k : ℕ) (argsArray : List Text) (ignoreArg : Text)
    (parametersRequired : ℤ) : Option (Text × List Text) :=
  (assembleTurns ignoreArg parametersRequired k argsArray 0 []).map fun r =>
    if r.1.isEmpty then r else (r.1.take (r.1.length - 1), r.2)

/-! ### What is left without the ignored arguments -/

/-- The arguments that are left when each `ignoreArg` goes with its parameters; the first `skip`
arguments are parameters of one before. -/
def kept (ignoreArg : Text) (parametersRequired : ℤ) : ℕ → List Text → List Text
  | _, [] => []
  | skip + 1, _ :: args => kept ignoreArg parametersRequired skip args
  | 0, arg :: args =>
    if arg = ignoreArg then kept ignoreArg parametersRequired parametersRequired.toNat args
    else arg :: kept ignoreArg parametersRequired 0 args

/-- Each `ignoreArg` that is no parameter of one before has all of its parameters. -/
def Followed (ignoreArg : Text) (parametersRequired : ℤ) : ℕ → List Text → Prop
  | _, [] => True
  | skip + 1, _ :: args => Followed ignoreArg parametersRequired skip args
  | 0, arg :: args =>
    if arg = ignoreArg then
      0 ≤ parametersRequired ∧ parametersRequired ≤ args.length ∧
        Followed ignoreArg parametersRequired parametersRequired.toNat args
    else Followed ignoreArg parametersRequired 0 args

instance decidableFollowed (ignoreArg : Text) (p : ℤ) :
    (skip : ℕ) → (args : List Text) → Decidable (Followed ignoreArg p skip args)
  | _, [] => .isTrue trivial
  | skip + 1, _ :: args => decidableFollowed ignoreArg p skip args
  | 0, arg :: args =>
    have := decidableFollowed ignoreArg p p.toNat args
    have := decidableFollowed ignoreArg p 0 args
    inferInstanceAs (Decidable (if arg = ignoreArg then
      0 ≤ p ∧ p ≤ args.length ∧ Followed ignoreArg p p.toNat args
      else Followed ignoreArg p 0 args))

/-- The list of arguments as `assembleCommand` leaves it. -/
def marked (ignoreArg : Text) (parametersRequired : ℤ) : ℕ → List Text → List Text
  | _, [] => []
  | skip + 1, arg :: args => arg :: marked ignoreArg parametersRequired skip args
  | 0, arg :: args =>
    if arg = ignoreArg then
      arg :: marked ignoreArg parametersRequired parametersRequired.toNat args
    else quoted arg :: marked ignoreArg parametersRequired 0 args

/-- Arguments with a space between them. -/
def joined (args : List Text) : Text := List.intercalate [' '] (args.map quoted)

/-- Arguments with a space behind each. -/
def spaced (args : List Text) : Text := args.flatMap fun arg => quoted arg ++ [' ']

variable {ignoreArg : Text} {p : ℤ} {args argv : List Text} {command : Text}

theorem kept_of_not_mem (h : ignoreArg ∉ args) : kept ignoreArg p 0 args = args := by
  induction args with
  | nil => rfl
  | cons a args ih =>
    rw [kept, if_neg (List.ne_of_not_mem_cons h).symm, ih (List.not_mem_of_not_mem_cons h)]

theorem followed_of_not_mem (h : ignoreArg ∉ args) : Followed ignoreArg p 0 args := by
  induction args with
  | nil => trivial
  | cons a args ih =>
    rw [Followed, if_neg (List.ne_of_not_mem_cons h).symm]
    exact ih (List.not_mem_of_not_mem_cons h)

theorem joined_cons_cons (a b : Text) (args : List Text) :
    joined (a :: b :: args) = quoted a ++ ' ' :: joined (b :: args) := by
  rw [joined, List.map_cons, List.map_cons, List.intercalate_cons_cons, ← List.map_cons,
    List.append_assoc]
  rfl

theorem spaced_eq_joined (a : Text) (args : List Text) :
    spaced (a :: args) = joined (a :: args) ++ [' '] := by
  induction args generalizing a with
  | nil =>
    rw [joined, List.map_singleton, List.intercalate_singleton, spaced, List.flatMap_cons]
    exact List.append_nil _
  | cons b args ih =>
    rw [joined_cons_cons, List.append_assoc, List.cons_append, ← ih, spaced, List.flatMap_cons,
      List.append_assoc]
    rfl

/-! ### The loop of `assembleCommand` -/

section Assemble

variable {k it : ℕ} {result r : Text} {final : List Text}

theorem assembleTurns_ignored (h : args[it]? = some ignoreArg) :
    assembleTurns ignoreArg p (k + 1) args it result =
      if 0 ≤ it + p ∧ it + p < args.length then
        assembleTurns ignoreArg p k args ((it + p).toNat + 1) result
      else none := by
  rw [assembleTurns, h]
  exact if_pos rfl

theorem assembleTurns_other {arg : Text} (h : args[it]? = some arg) (hne : arg ≠ ignoreArg) :
    assembleTurns ignoreArg p (k + 1) args it result =
      assembleTurns ignoreArg p k (args.set it (quoted arg)) (it + 1)
        (result ++ quoted arg ++ [' ']) := by
  rw [assembleTurns, h]
  exact if_neg hne

/-- With a negative number of parameters the loop comes back to the ignored argument: it is never
behind it. -/
theorem assembleTurns_of_neg (hp : p < 0) {m : ℕ} (hm : args[m]? = some ignoreArg)
    (hit : it ≤ m) : assembleTurns ignoreArg p k args it result = none := by
  induction k generalizing it args result with
  | zero => rfl
  | succ k ih =>
    have hlt : m < args.length := (List.getElem?_eq_some_iff.1 hm).1
    cases hget : args[it]? with
    | none => exact absurd (List.getElem?_eq_none_iff.1 hget) (by omega)
    | some arg =>
      by_cases harg : arg = ignoreArg
      · subst harg
        rw [assembleTurns_ignored hget]
        split_ifs with hinside
        · exact ih hm (by omega)
        · rfl
      · rw [assembleTurns_other hget harg]
        have hne : it ≠ m := by
          rintro rfl
          exact harg (Option.some.inj (hget.symm.trans hm))
        refine ih ?_ (by omega)
        rw [List.getElem?_set_ne hne, hm]

/-- A run that ends has a first turn. -/
theorem exists_assembleTurns_succ :
    (∃ k, assembleTurns ignoreArg p k args it result = some (r, final)) ↔
      ∃ k, assembleTurns ignoreArg p (k + 1) args it result = some (r, final) := by
  constructor
  · rintro ⟨_ | k, h⟩
    · cases h
    · exact ⟨k, h⟩
  · rintro ⟨k, h⟩
    exact ⟨k + 1, h⟩

theorem exists_assembleTurns_end (h : args[it]? = none) :
    (∃ k, assembleTurns ignoreArg p k args it result = some (r, final)) ↔
      r = result ∧ final = args := by
  have hturn : ∀ k, assembleTurns ignoreArg p (k + 1) args it result = some (result, args) :=
    fun k => by rw [assembleTurns, h]
  rw [exists_assembleTurns_succ]
  constructor
  · rintro ⟨k, hk⟩
    rw [hturn] at hk
    cases hk
    exact ⟨rfl, rfl⟩
  · rintro ⟨rfl, rfl⟩
    exact ⟨0, hturn 0⟩

/-- The ignored argument is passed over with its parameters, which are all there. -/
theorem exists_assembleTurns_ignored (h : args[it]? = some ignoreArg) :
    (∃ k, assembleTurns ignoreArg p k args it result = some (r, final)) ↔
      (0 ≤ p ∧ it + p < args.length) ∧
        ∃ k, assembleTurns ignoreArg p k args (it + p.toNat + 1) result = some (r, final) := by
  rw [exists_assembleTurns_succ]
  constructor
  · rintro ⟨k, hk⟩
    have hp : 0 ≤ p := by
      by_contra hneg
      rw [assembleTurns_of_neg (by omega) h le_rfl] at hk
      cases hk
    rw [assembleTurns_ignored h] at hk
    split_ifs at hk with hinside
    have hnext : (it + p).toNat = it + p.toNat := by omega
    exact ⟨⟨hp, hinside.2⟩, k, hnext ▸ hk⟩
  · rintro ⟨⟨hp, hlt⟩, k, hk⟩
    have hnext : (it + p).toNat = it + p.toNat := by omega
    exact ⟨k, by rw [assembleTurns_ignored h, if_pos ⟨by omega, hlt⟩, hnext, hk]⟩

theorem exists_assembleTurns_other {arg : Text} (h : args[it]? = some arg)
    (hne : arg ≠ ignoreArg) :
    (∃ k, assembleTurns ignoreArg p k args it result = some (r, final)) ↔
      ∃ k, assembleTurns ignoreArg p k (args.set it (quoted arg)) (it + 1)
        (result ++ quoted arg ++ [' ']) = some (r, final) := by
  rw [exists_assembleTurns_succ]
  exact exists_congr fun k => by rw [assembleTurns_other h hne]

/-- What the loop puts together from a position on, with `skip` arguments before it that are
passed over. -/
theorem assembleTurns_iff (rest front : List Text) (skip : ℕ) (hskip : skip ≤ rest.length)
    (result : Text) :
    (∃ k, assembleTurns ignoreArg p k (front ++ rest) (front.length + skip) result =
        some (r, final)) ↔
      Followed ignoreArg p skip rest ∧ r = result ++ spaced (kept ignoreArg p skip rest) ∧
        final = front ++ marked ignoreArg p skip rest := by
  induction rest generalizing front skip result with
  | nil =>
    obtain rfl : skip = 0 := Nat.le_zero.1 hskip
    have hend : (front ++ [])[front.length + 0]? = none := by
      rw [List.append_nil]
      exact List.getElem?_eq_none le_rfl
    rw [exists_assembleTurns_end hend]
    exact ⟨fun ⟨hr, hfinal⟩ => ⟨trivial, hr.trans (List.append_nil _).symm, hfinal⟩,
      fun ⟨_, hr, hfinal⟩ => ⟨hr.trans (List.append_nil _), hfinal⟩⟩
  | cons a rest ih =>
    have hfront : ∀ b, front ++ b :: rest = (front ++ [b]) ++ rest := fun b => by
      rw [List.append_assoc, List.singleton_append]
    have hlength : ∀ b, (front ++ [b]).length = front.length + 1 := fun b => by
      rw [List.length_append, List.length_singleton]
    cases skip with
    | succ skip =>
      have h := ih (front ++ [a]) skip (Nat.le_of_succ_le_succ hskip) result
      rw [hlength, Nat.add_assoc, Nat.add_comm 1, ← hfront, List.append_assoc] at h
      exact h
    | zero =>
      have hget : (front ++ a :: rest)[front.length + 0]? = some a := by
        rw [Nat.add_zero, List.getElem?_append_right le_rfl, Nat.sub_self]
        rfl
      by_cases ha : a = ignoreArg
      · subst ha
        rw [exists_assembleTurns_ignored hget, Followed, kept, marked, if_pos rfl, if_pos rfl,
          if_pos rfl, Nat.add_zero, List.length_append, List.length_cons]
        by_cases hn : p ≤ rest.length
        · have hnext : front.length + p.toNat + 1 = (front ++ [a]).length + p.toNat := by
            rw [hlength]
            omega
          have h := ih (front ++ [a]) p.toNat (by omega) result
          rw [hfront, hnext, h, List.append_assoc, List.singleton_append]
          have hinside : (front.length : ℤ) + p < (front.length + (rest.length + 1) : ℕ) := by omega
          exact ⟨fun ⟨⟨hp, _⟩, hf, hr⟩ => ⟨⟨hp, hn, hf⟩, hr⟩,
            fun ⟨⟨hp, _, hf⟩, hr⟩ => ⟨⟨hp, hinside⟩, hf, hr⟩⟩
        · constructor
          · rintro ⟨⟨-, hout⟩, -⟩
            omega
          · rintro ⟨⟨-, hle, -⟩, -⟩
            exact absurd hle hn
      · have hset : (front ++ a :: rest).set (front.length + 0) (quoted a) =
            (front ++ [quoted a]) ++ rest := by
          rw [Nat.add_zero, List.set_append_right _ _ le_rfl, Nat.sub_self, List.set_cons_zero,
            hfront]
        have hnext : front.length + 0 + 1 = (front ++ [quoted a]).length + 0 := by
          rw [hlength]
        have hspaced : spaced (a :: kept ignoreArg p 0 rest) =
            (quoted a ++ [' ']) ++ spaced (kept ignoreArg p 0 rest) := List.flatMap_cons
        rw [exists_assembleTurns_other hget ha, hset, hnext,
          ih (front ++ [quoted a]) 0 (Nat.zero_le _), Followed, kept, marked, if_neg ha,
          if_neg ha, if_neg ha, hspaced, ← List.append_assoc, ← List.append_assoc,
          List.append_assoc front, List.singleton_append]

end Assemble

/-! ### The loop of `splitCommandString` -/

section Split

variable {k startPos space : ℕ} {quotes : ℕ × ℕ} {a b t : Text}

/-- A space between double quotes is passed over, with the rest of what is between them. -/
theorem splitTurns_inside (h : quotes.1 < space ∧ space < quotes.2) :
    splitTurns command (k + 1) argv startPos quotes (some space) =
      splitTurns command k argv startPos quotes (command.find ' ' (quotes.2 + 1)) :=
  if_pos h

/-- Any other space ends an argument. -/
theorem splitTurns_delimiter (h : ¬(quotes.1 < space ∧ space < quotes.2))
    (ha : command.substr? startPos (space - startPos) = some a) :
    splitTurns command (k + 1) argv startPos quotes (some space) =
      splitTurns command k (argv ++ [removeDoubleQuotes a]) (space + 1)
        (if quotes.2 < space then searchDoubleQuotes command (quotes.2 + 1) else quotes)
        (command.find ' ' (space + 1)) := by
  rw [splitTurns, if_neg h, ha]

/-- The next space is behind the last one. -/
theorem isSome_splitTurns (hk : 0 < k) (hstart : startPos ≤ command.length) {o : Option ℕ}
    (hspace : ∀ space ∈ o, startPos ≤ space ∧ space < command.length ∧
      command.length < k + space) :
    (splitTurns command k argv startPos quotes o).isSome := by
  induction k generalizing argv startPos quotes o with
  | zero => exact absurd hk (lt_irrefl 0)
  | succ k ih =>
    cases o with
    | none =>
      rw [splitTurns, Text.substr?, if_pos hstart]
      rfl
    | some space =>
      obtain ⟨-, hlt, hturns⟩ := hspace space rfl
      by_cases hinside : quotes.1 < space ∧ space < quotes.2
      · rw [splitTurns_inside hinside]
        refine ih (by omega) hstart fun next hnext => ?_
        have hle := Text.le_of_find_eq_some hnext
        have hspace' := (hspace space rfl).1
        exact ⟨by omega, Text.lt_length_of_find_eq_some hnext, by omega⟩
      · rw [splitTurns_delimiter hinside (if_pos hstart)]
        refine ih (by omega) hlt fun next hnext => ?_
        have hle := Text.le_of_find_eq_some hnext
        exact ⟨hle, Text.lt_length_of_find_eq_some hnext, by omega⟩

/-- Splitting ends for every command. -/
theorem isSome_splitCommandString (command : Text) (argv : List Text) :
    (splitCommandString (command.length + 1) command argv).isSome := by
  rw [splitCommandString]
  split_ifs
  · rfl
  · refine isSome_splitTurns (Nat.succ_pos _) (Nat.zero_le _) fun space hspace => ?_
    have hlt := Text.lt_length_of_find_eq_some hspace
    exact ⟨Nat.zero_le _, hlt, by omega⟩

/-! ### Double quotes -/

theorem searchDoubleQuotes_of_drop (h : command.drop startPos = a ++ '"' :: (b ++ '"' :: t))
    (ha : '"' ∉ a) (hb : '"' ∉ b) :
    searchDoubleQuotes command startPos =
      (startPos + a.length, startPos + a.length + 1 + b.length) := by
  have hbehind : command.drop (startPos + a.length + 1) = b ++ '"' :: t := by
    rw [← List.drop_drop, ← List.drop_drop, h, List.drop_left]
    rfl
  simp only [searchDoubleQuotes, Text.find_of_drop h ha, Text.find_of_drop hbehind hb]

/-- The search passes over what has no double quotes. -/
theorem searchDoubleQuotes_skip (h : command.drop startPos = a ++ t) (ha : '"' ∉ a) :
    searchDoubleQuotes command startPos = searchDoubleQuotes command (startPos + a.length) := by
  rw [searchDoubleQuotes, searchDoubleQuotes, Text.find_skip h ha]

/-- A search finds nothing where there are no double quotes. -/
theorem searchDoubleQuotes_le (h : '"' ∉ command.drop startPos) (pos : ℕ) :
    (searchDoubleQuotes command pos).2 ≤ startPos := by
  rw [searchDoubleQuotes]
  split
  · exact Nat.zero_le _
  · split
    · exact Nat.zero_le _
    · rename_i right hright
      obtain ⟨a, t, hdrop, -, rfl⟩ := Text.exists_of_find_eq_some hright
      by_contra hnot
      obtain ⟨d, hd⟩ := Nat.exists_eq_add_of_le (not_le.1 hnot).le
      have hquote : command.drop (startPos + d) = '"' :: t := by
        rw [← hd, ← List.drop_drop, hdrop, List.drop_left]
      rw [← List.drop_drop] at hquote
      exact h (List.mem_of_mem_drop (hquote ▸ List.mem_cons_self))

/-- The double quotes found last are those that matter from `startPos` on: the next ones, or some
before it when there are no more. -/
def Tracked (command : Text) (startPos : ℕ) (quotes : ℕ × ℕ) : Prop :=
  ('"' ∈ command.drop startPos → quotes = searchDoubleQuotes command startPos) ∧
    ('"' ∉ command.drop startPos → quotes.2 ≤ startPos)

theorem tracked_searchDoubleQuotes (command : Text) (startPos : ℕ) :
    Tracked command startPos (searchDoubleQuotes command startPos) :=
  ⟨fun _ => rfl, fun h => searchDoubleQuotes_le h startPos⟩

/-- The next double quotes of assembled arguments are a pair. -/
theorem exists_pair_of_mem_joined (hargs : ∀ a ∈ args, '"' ∉ a) (h : '"' ∈ joined args) :
    ∃ a b t, joined args = a ++ '"' :: (b ++ '"' :: t) ∧ '"' ∉ a ∧ '"' ∉ b := by
  induction args with
  | nil => cases h
  | cons c args ih =>
    have hc : '"' ∉ c := hargs c List.mem_cons_self
    obtain ⟨t, ht, hrest⟩ : ∃ t, joined (c :: args) = quoted c ++ t ∧
        ('"' ∈ t → ∃ a b s, t = a ++ '"' :: (b ++ '"' :: s) ∧ '"' ∉ a ∧ '"' ∉ b) := by
      cases args with
      | nil =>
        refine ⟨[], ?_, fun h => by cases h⟩
        rw [joined, List.map_singleton, List.intercalate_singleton, List.append_nil]
      | cons d args =>
        refine ⟨' ' :: joined (d :: args), joined_cons_cons c d args, fun h => ?_⟩
        have hmem : '"' ∈ joined (d :: args) := (List.mem_cons.1 h).resolve_left (by decide)
        obtain ⟨a, b, s, hpair, ha, hb⟩ :=
          ih (fun b hb => hargs b (List.mem_cons_of_mem _ hb)) hmem
        refine ⟨' ' :: a, b, s, by rw [hpair, List.cons_append], fun h => ?_, hb⟩
        exact ha ((List.mem_cons.1 h).resolve_left (by decide))
    by_cases hspace : ' ' ∈ c
    · refine ⟨[], c, t, ?_, List.not_mem_nil, hc⟩
      rw [ht, quoted, if_pos hspace, List.cons_append, List.append_assoc]
      rfl
    · have hbare : quoted c = c := if_neg hspace
      rw [ht, hbare, List.mem_append] at h
      obtain ⟨a, b, s, hpair, ha, hb⟩ := hrest (h.resolve_left hc)
      refine ⟨c ++ a, b, s, by rw [ht, hbare, hpair, List.append_assoc], fun h => ?_, hb⟩
      exact (List.mem_append.1 h).elim hc ha

/-- An argument without double quotes leaves behind it what is to be known about them. -/
theorem tracked_bare (htracked : Tracked command startPos quotes)
    (hdrop : command.drop startPos = a ++ ' ' :: joined args) (ha : '"' ∉ a)
    (hargs : ∀ b ∈ args, '"' ∉ b) (hspace : space = startPos + a.length) :
    ¬(quotes.1 < space ∧ space < quotes.2) ∧
      Tracked command (space + 1)
        (if quotes.2 < space then searchDoubleQuotes command (quotes.2 + 1) else quotes) := by
  have hspaced : '"' ∉ a ++ [' '] := by
    rw [List.mem_append, List.mem_singleton]
    rintro (h | h)
    · exact ha h
    · exact absurd h (by decide)
  have hdrop' : command.drop startPos = (a ++ [' ']) ++ joined args := by
    rw [hdrop, List.append_assoc, List.singleton_append]
  have hlength : startPos + (a ++ [' ']).length = space + 1 := by
    rw [List.length_append, List.length_singleton, hspace, Nat.add_assoc]
  have hbehind : command.drop (space + 1) = joined args := by
    rw [← hlength, ← List.drop_drop, hdrop', List.drop_left]
  by_cases hquote : '"' ∈ joined args
  · obtain ⟨c, d, t, hpair, hc, hd⟩ := exists_pair_of_mem_joined hargs hquote
    have hsearch := searchDoubleQuotes_of_drop (hbehind.trans hpair) hc hd
    have hquotes : quotes = searchDoubleQuotes command (space + 1) := by
      rw [htracked.1 (hdrop' ▸ List.mem_append_right _ hquote),
        searchDoubleQuotes_skip hdrop' hspaced, hlength]
    have hfirst : space < quotes.1 := by
      rw [hquotes, hsearch]
      omega
    have hsecond : ¬quotes.2 < space := by
      rw [hquotes, hsearch]
      omega
    rw [if_neg hsecond, hquotes]
    exact ⟨fun h => by rw [← hquotes] at h; omega, tracked_searchDoubleQuotes _ _⟩
  · have hnone : '"' ∉ command.drop startPos := by
      rw [hdrop', List.mem_append]
      exact fun h => h.elim hspaced hquote
    have hle := htracked.2 hnone
    refine ⟨fun h => by omega, fun h => absurd (hbehind ▸ h) hquote, fun h => ?_⟩
    split_ifs
    · exact searchDoubleQuotes_le h _
    · omega

/-- The double quotes around an argument are taken off again. -/
theorem removeDoubleQuotes_quoted (ha : '"' ∉ a) : removeDoubleQuotes (quoted a) = a := by
  rw [quoted]
  split_ifs with hspace
  · have hends : ('"' :: (a ++ ['"'])).head? = some '"' ∧
        ('"' :: (a ++ ['"'])).getLast? = some '"' := by
      refine ⟨rfl, ?_⟩
      rw [← List.cons_append, List.getLast?_concat]
    have hlength : ('"' :: (a ++ ['"'])).length - 2 = a.length := by
      rw [List.length_cons, List.length_append]
      rfl
    rw [removeDoubleQuotes, if_pos hends, hlength]
    exact List.take_left
  · exact if_neg fun h => ha (List.mem_of_mem_head? h.1)

/-- In front of a quoted argument its double quotes are the ones found last, and the spaces in
it are passed over. -/
theorem splitTurns_opening (argv : List Text) (htracked : Tracked command startPos quotes)
    (hdrop : command.drop startPos = '"' :: (a ++ '"' :: t)) (ha : '"' ∉ a) (hspace : ' ' ∈ a) :
    quotes = (startPos, startPos + 1 + a.length) ∧
      splitTurns command (k + 1) argv startPos quotes (command.find ' ' startPos) =
        splitTurns command k argv startPos quotes
          (command.find ' ' (startPos + 1 + a.length + 1)) := by
  have hquotes : quotes = (startPos, startPos + 1 + a.length) := by
    have hmem : '"' ∈ command.drop startPos := hdrop ▸ List.mem_cons_self
    rw [htracked.1 hmem]
    exact searchDoubleQuotes_of_drop (a := []) hdrop List.not_mem_nil ha
  obtain ⟨b, c, rfl, hb⟩ := List.eq_append_cons_of_mem hspace
  have hfirst : command.drop startPos = ('"' :: b) ++ ' ' :: (c ++ '"' :: t) := by
    rw [hdrop, List.append_assoc]
    rfl
  have hb' : ' ' ∉ '"' :: b := fun h => hb ((List.mem_cons.1 h).resolve_left (by decide))
  refine ⟨hquotes, ?_⟩
  rw [Text.find_of_drop hfirst hb', splitTurns_inside, hquotes]
  rw [hquotes, List.length_cons, List.length_append, List.length_cons]
  exact ⟨by omega, by omega⟩

/-- From one argument to the next. -/
theorem exists_splitTurns_next (argv : List Text) (hstart : startPos ≤ command.length)
    (htracked : Tracked command startPos quotes)
    (hdrop : command.drop startPos = quoted a ++ ' ' :: joined args) (ha : '"' ∉ a)
    (hargs : ∀ b ∈ args, '"' ∉ b) (hspace : space = startPos + (quoted a).length) :
    ∃ quotes', Tracked command (space + 1) quotes' ∧ ∀ k, ∃ k',
      splitTurns command k' argv startPos quotes (command.find ' ' startPos) =
        splitTurns command k (argv ++ [a]) (space + 1) quotes'
          (command.find ' ' (space + 1)) := by
  have hsub : command.substr? startPos (space - startPos) = some (quoted a) := by
    rw [hspace, Nat.add_sub_cancel_left]
    exact Text.substr?_of_drop hdrop hstart
  by_cases hquoted : ' ' ∈ a
  · have hq : quoted a = '"' :: (a ++ ['"']) := if_pos hquoted
    have hopen : command.drop startPos = '"' :: (a ++ '"' :: ' ' :: joined args) := by
      rw [hdrop, hq, List.cons_append, List.append_assoc]
      rfl
    have hend : startPos + 1 + a.length + 1 = space := by
      rw [hspace, hq, List.length_cons, List.length_append, List.length_singleton]
      omega
    have hbehind : command.drop space = [' '] ++ joined args := by
      rw [hspace, ← List.drop_drop, hdrop, List.drop_left]
      rfl
    have hfind : command.find ' ' space = some space := Text.find_of_drop hbehind List.not_mem_nil
    have hskip : searchDoubleQuotes command space = searchDoubleQuotes command (space + 1) :=
      searchDoubleQuotes_skip hbehind (by decide)
    refine ⟨searchDoubleQuotes command (space + 1), tracked_searchDoubleQuotes _ _,
      fun k => ⟨k + 2, ?_⟩⟩
    obtain ⟨hquotes, hturn⟩ :=
      splitTurns_opening (k := k + 1) argv htracked hopen ha hquoted
    have hnot : ¬(quotes.1 < space ∧ space < quotes.2) := by
      rw [hquotes]
      exact fun h => by omega
    have hlt : quotes.2 < space := by
      rw [hquotes]
      exact by omega
    have hnext : quotes.2 + 1 = space := by
      rw [hquotes]
      exact hend
    rw [hturn, hend, hfind, splitTurns_delimiter hnot hsub, if_pos hlt, hnext, hskip,
      removeDoubleQuotes_quoted ha]
  · have hq : quoted a = a := if_neg hquoted
    have hremove : removeDoubleQuotes a = a := by
      have := removeDoubleQuotes_quoted ha
      rwa [hq] at this
    rw [hq] at hdrop hspace hsub
    obtain ⟨hnot, hnext⟩ := tracked_bare htracked hdrop ha hargs hspace
    refine ⟨_, hnext, fun k => ⟨k + 1, ?_⟩⟩
    rw [Text.find_of_drop hdrop hquoted, ← hspace, splitTurns_delimiter hnot hsub, hremove]

/-- The last argument. -/
theorem exists_splitTurns_last (hstart : startPos ≤ command.length)
    (htracked : Tracked command startPos quotes) (hdrop : command.drop startPos = quoted a)
    (ha : '"' ∉ a) :
    ∃ k, splitTurns command k argv startPos quotes (command.find ' ' startPos) =
      some (argv ++ [a]) := by
  have hall : command.substr? startPos command.length = some (quoted a) := by
    rw [Text.substr?, if_pos hstart, hdrop, List.take_of_length_le]
    rw [← hdrop, List.length_drop]
    exact Nat.sub_le _ _
  have hlast : splitTurns command 1 argv startPos quotes none = some (argv ++ [a]) := by
    rw [splitTurns, hall, Option.map_some, removeDoubleQuotes_quoted ha]
  by_cases hquoted : ' ' ∈ a
  · have hopen : command.drop startPos = '"' :: (a ++ '"' :: []) := by
      rw [hdrop]
      exact if_pos hquoted
    have hnone : command.find ' ' (startPos + 1 + a.length + 1) = none := by
      rw [Text.find_eq_none_iff, Nat.add_assoc startPos, Nat.add_assoc startPos, ← List.drop_drop,
        hopen, List.drop_of_length_le]
      · exact List.not_mem_nil
      · rw [List.length_cons, List.length_append, List.length_singleton]
        omega
    refine ⟨2, ?_⟩
    rw [(splitTurns_opening argv htracked hopen ha hquoted).2, hnone, hlast]
  · have hq : quoted a = a := if_neg hquoted
    have hnone : command.find ' ' startPos = none := by
      rw [Text.find_eq_none_iff, hdrop, hq]
      exact hquoted
    exact ⟨1, hnone ▸ hlast⟩

/-- Assembled arguments come apart again, from any of them on. -/
theorem exists_splitTurns_joined (argv : List Text) (hargs : ∀ a ∈ args, '"' ∉ a)
    (hne : args ≠ []) (hstart : startPos ≤ command.length)
    (htracked : Tracked command startPos quotes)
    (hdrop : command.drop startPos = joined args) :
    ∃ k, splitTurns command k argv startPos quotes (command.find ' ' startPos) =
      some (argv ++ args) := by
  induction args generalizing argv startPos quotes with
  | nil => exact absurd rfl hne
  | cons a args ih =>
    have ha : '"' ∉ a := hargs a List.mem_cons_self
    have hargs' : ∀ b ∈ args, '"' ∉ b := fun b hb => hargs b (List.mem_cons_of_mem a hb)
    cases args with
    | nil =>
      rw [joined, List.map_singleton, List.intercalate_singleton] at hdrop
      exact exists_splitTurns_last hstart htracked hdrop ha
    | cons b args =>
      rw [joined_cons_cons] at hdrop
      obtain ⟨quotes', htracked', hturns⟩ :=
        exists_splitTurns_next argv hstart htracked hdrop ha hargs' rfl
      have hbehind : command.drop (startPos + (quoted a).length + 1) = joined (b :: args) := by
        rw [← List.drop_drop, ← List.drop_drop, hdrop, List.drop_left]
        rfl
      have hinside : startPos + (quoted a).length + 1 ≤ command.length := by
        have hlength := congrArg List.length hdrop
        rw [List.length_drop, List.length_append, List.length_cons] at hlength
        omega
      obtain ⟨k, hk⟩ := ih (argv ++ [a]) hargs' (List.cons_ne_nil _ _) hinside htracked'
        hbehind
      obtain ⟨k', hk'⟩ := hturns k
      exact ⟨k', by rw [hk', hk, List.append_assoc]; rfl⟩

end Split

/-! ### Commands -/

/-- The command that is put together. -/
theorem assembleCommand_iff {text : Text} {final : List Text} :
    (∃ k, assembleCommand k args ignoreArg p = some (text, final)) ↔
      Followed ignoreArg p 0 args ∧ text = joined (kept ignoreArg p 0 args) ∧
        final = marked ignoreArg p 0 args := by
  have hturns : ∀ r final, (∃ k, assembleTurns ignoreArg p k args 0 [] = some (r, final)) ↔
      Followed ignoreArg p 0 args ∧ r = spaced (kept ignoreArg p 0 args) ∧
        final = marked ignoreArg p 0 args :=
    fun r final => assembleTurns_iff args [] 0 (Nat.zero_le _) []
  have hcut : (if (spaced (kept ignoreArg p 0 args)).isEmpty then spaced (kept ignoreArg p 0 args)
      else (spaced (kept ignoreArg p 0 args)).take
        ((spaced (kept ignoreArg p 0 args)).length - 1)) = joined (kept ignoreArg p 0 args) := by
    cases kept ignoreArg p 0 args with
    | nil => rfl
    | cons a rest =>
      have hne : ¬(spaced (a :: rest)).isEmpty = true := by
        rw [spaced_eq_joined, List.isEmpty_iff]
        exact List.append_ne_nil_of_right_ne_nil _ (List.cons_ne_nil _ _)
      rw [if_neg hne, spaced_eq_joined, List.length_append]
      exact List.take_left
  constructor
  · rintro ⟨k, h⟩
    obtain ⟨⟨r, list⟩, hk, hr⟩ := Option.map_eq_some_iff.1 h
    obtain ⟨hfollowed, rfl, rfl⟩ := (hturns r list).1 ⟨k, hk⟩
    refine ⟨hfollowed, ?_⟩
    rw [← hcut]
    split_ifs at hr ⊢ with hempty
    · cases hr
      exact ⟨rfl, rfl⟩
    · cases hr
      exact ⟨rfl, rfl⟩
  · rintro ⟨hfollowed, rfl, rfl⟩
    obtain ⟨k, hk⟩ := (hturns _ _).2 ⟨hfollowed, rfl, rfl⟩
    refine ⟨k, ?_⟩
    rw [assembleCommand, hk, Option.map_some, ← hcut]
    split_ifs
    · rfl
    · rfl

/-- Arguments put together come apart again, a command comes apart in any case, and the ignored
arguments go with their parameters just when these are there. -/
theorem splitCommandString_assembleCommand (args argv : List Text) (ignoreArg command : Text)
    (parametersRequired : ℤ) :
    ((∀ a ∈ args, a ≠ [] ∧ '"' ∉ a) → ignoreArg ∉ args → ∃ k k' text final,
      assembleCommand k args ignoreArg parametersRequired = some (text, final) ∧
        splitCommandString k' text [] = some args) ∧
    (∃ k argv', splitCommandString k command argv = some argv') ∧
    ((∃ k final, assembleCommand k args ignoreArg parametersRequired =
        some (joined (kept ignoreArg parametersRequired 0 args), final)) ↔
      Followed ignoreArg parametersRequired 0 args) := by
  refine ⟨fun hargs hignore => ?_,
    ⟨_, Option.isSome_iff_exists.1 (isSome_splitCommandString command argv)⟩, ?_⟩
  · obtain ⟨k, hk⟩ := assembleCommand_iff.2
      ⟨followed_of_not_mem (p := parametersRequired) hignore, rfl, rfl⟩
    rw [kept_of_not_mem hignore] at hk
    suffices hsplit : ∃ k', splitCommandString k' (joined args) [] = some args by
      obtain ⟨k', hk'⟩ := hsplit
      exact ⟨k, k', _, _, hk, hk'⟩
    cases args with
    | nil => exact ⟨0, rfl⟩
    | cons a rest =>
      obtain ⟨c, s, hc⟩ : ∃ c s, joined (a :: rest) = c :: s := by
        refine List.exists_cons_of_ne_nil fun h => ?_
        have hspaced := spaced_eq_joined a rest
        rw [h, spaced, List.flatMap_cons, List.nil_append, List.append_assoc] at hspaced
        have hquoted : quoted a = [] := by
          have hlength := congrArg List.length hspaced
          rw [List.length_append, List.length_append, List.length_singleton] at hlength
          exact List.eq_nil_of_length_eq_zero (by omega)
        rw [quoted] at hquoted
        split_ifs at hquoted
        exact (hargs a List.mem_cons_self).1 hquoted
      obtain ⟨k', hk'⟩ := exists_splitTurns_joined []
        (fun b hb => (hargs b hb).2) (List.cons_ne_nil a rest) (Nat.zero_le _)
        (tracked_searchDoubleQuotes (joined (a :: rest)) 0) rfl
      refine ⟨k', ?_⟩
      rw [splitCommandString, if_neg, hk', List.nil_append]
      rw [hc, List.isEmpty_cons]
      exact Bool.false_ne_true
  · constructor
    · rintro ⟨k, final, h⟩
      exact (assembleCommand_iff.1 ⟨k, h⟩).1
    · intro hfollowed
      obtain ⟨k, hk⟩ := assembleCommand_iff.2 ⟨hfollowed, rfl, rfl⟩
      exact ⟨k, _, hk⟩

/-- A command with a blank in one of its arguments. -/
theorem splitCommandString_assembleCommand_blank : ∃ k k' text final,
    assembleCommand k ["leapdesk-server".toList, "-c".toList, "my leap.conf".toList]
        "--log".toList 1 = some (text, final) ∧
      splitCommandString k' text [] =
        some ["leapdesk-server".toList, "-c".toList, "my leap.conf".toList] :=
  (splitCommandString_assembleCommand _ [] "--log".toList [] 1).1 (by decide) (by decide)

/-- The name of a log file is missing: the iterator leaves the list, however long the loop runs. -/
theorem assembleCommand_missing_parameter :
    ¬∃ k r, assembleCommand k
      ["leapdesk-server".toList, "--log".toList, "a".toList, "--log".toList] "--log".toList 1 =
        some r := by
  rintro ⟨k, ⟨text, final⟩, h⟩
  exact absurd (assembleCommand_iff.1 ⟨k, h⟩).1 (by decide)

end ArgParser

end InputLeap
