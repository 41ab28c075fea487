import InputLeap.Text.Scan

/-!
# Quoting the arguments of a command line

The tool that sends files is started with one command line, and takes it apart again by the rules
of `CommandLineToArgvW`.  These rules are the automaton `argvFrom`, which knows nothing of how the
command line was made.

## Main definitions

* `Taildrop.quoteArgument` : an argument as it stands in the command line.
* `Taildrop.argv` : the arguments of a command line.
* `Taildrop.commandLine` : the command line that sends a file.

## Main results

* `Taildrop.argvFrom_quoteFrom` : a quoted argument is read back, whatever its backslashes.
* `Taildrop.argv_join_quoteArgument` : the quoted arguments, joined by spaces, come apart again.
* `Taildrop.argv_commandLine` : the tool gets the program, its options, the path and the address.
-/

namespace InputLeap

/-- A text of wide characters. -/
abbrev WText := List UInt16

namespace Taildrop

/-- A literal of wide characters. -/
def wide (s : String) : WText := s.toList.map fun c => UInt16.ofNat c.toNat

/-- The space between arguments. -/
def space : UInt16 := 0x20
/-- The tab. -/
def tab : UInt16 := 0x09
/-- The line feed. -/
def newline : UInt16 := 0x0a
/-- The vertical tab. -/
def verticalTab : UInt16 := 0x0b
/-- The double quote. -/
def quoteMark : UInt16 := 0x22
/-- The backslash. -/
def backslash : UInt16 := 0x5c

/-! ### Quoting -/

/-- The characters that an argument without quotes has none of. -/
def needsQuotes (c : UInt16) : Bool :=
  c == space || c == tab || c == newline || c == verticalTab || c == quoteMark

/-- The loop of `quoteArgument` over what is left of the argument, with the backslashes counted
since the last other character. -/
def quoteFrom (backslashes : ℕ) : WText → WText
  | [] => List.replicate (backslashes * 2) backslash
  | c :: rest =>
    if c = backslash then quoteFrom (backslashes + 1) rest
    else if c = quoteMark then
      List.replicate (backslashes * 2 + 1) backslash ++ c :: quoteFrom 0 rest
    else List.replicate backslashes backslash ++ c :: quoteFrom 0 rest

/-- The argument as it stands in a command line. -/
def quoteArgument (argument : WText) : WText :=
  if !argument.isEmpty && !argument.any needsQuotes then argument
  else quoteMark :: (quoteFrom 0 argument ++ [quoteMark])

/-- Arguments with a space between them. -/
def join (arguments : List WText) : WText := List.intercalate [space] arguments

/-- The command line that sends the file at `path` to the machine `name` at `address`; `widen`
is the conversion of the platform to wide characters. -/
def commandLine (widen : Text → WText) (program path : WText) (name address : Text) : WText :=
  quoteArgument program ++ wide " file cp --update-interval=0 " ++
    quoteArgument (wide "--name=" ++ widen name) ++ wide " " ++ quoteArgument path ++
    wide " " ++ quoteArgument (widen (address ++ [':']))

/-! ### The rules of the platform -/

/-- What has been read of a command line. -/
structure Reading where
  /-- The argument that was begun. -/
  arg : Option WText := none
  /-- The next character is inside quotes. -/
  quoted : Bool := false
  /-- Backslashes that were read last. -/
  backslashes : ℕ := 0

namespace Reading

/-- The argument begun, with `s` behind it. -/
def text (r : Reading) (s : WText) : WText := r.arg.getD [] ++ s

/-- The argument at its end, where the backslashes read last are literal. -/
def finish (r : Reading) : List WText :=
  if r.backslashes = 0 then r.arg.toList else [r.text (List.replicate r.backslashes backslash)]

end Reading

/-- The arguments in the rest of a command line: backslashes are literal unless a quote follows
them, where each pair makes one backslash, and one left over makes the quote literal. -/
def argvFrom (r : Reading) : WText → List WText
  | [] => r.finish
  | c :: rest =>
    if c = backslash then argvFrom { r with backslashes := r.backslashes + 1 } rest
    else if c = quoteMark then
      let arg := r.text (List.replicate (r.backslashes / 2) backslash)
      if r.backslashes % 2 = 0 then argvFrom ⟨some arg, !r.quoted, 0⟩ rest
      else argvFrom ⟨some (arg ++ [quoteMark]), r.quoted, 0⟩ rest
    else if (c = space ∨ c = tab) ∧ r.quoted = false then r.finish ++ argvFrom {} rest
    else argvFrom ⟨some (r.text (List.replicate r.backslashes backslash ++ [c])), r.quoted, 0⟩ rest

/-- The arguments of a command line. -/
def argv (line : WText) : List WText := argvFrom {} line

/-! ### Reading what was quoted -/

variable {a s rest : WText} {q : Bool} {n : ℕ}

/-- The command line goes on with a space or ends. -/
def AtEnd (rest : WText) : Prop := ∀ c ∈ rest.head?, c = space

theorem argvFrom_replicate (o : Option WText) (q : Bool) (n k : ℕ) (rest : WText) :
    argvFrom ⟨o, q, n⟩ (List.replicate k backslash ++ rest) = argvFrom ⟨o, q, n + k⟩ rest := by
  induction k generalizing n with
  | zero => rfl
  | succ k ih =>
    rw [List.replicate_succ, List.cons_append, argvFrom, if_pos rfl, ih, Nat.add_right_comm]
    rfl

/-- A quote behind an even number of backslashes delimits. -/
theorem argvFrom_delimiter (o : Option WText) (q : Bool) (n : ℕ) (rest : WText) :
    argvFrom ⟨o, q, n * 2⟩ (quoteMark :: rest) =
      argvFrom ⟨some (o.getD [] ++ List.replicate n backslash), !q, 0⟩ rest := by
  have hne : quoteMark ≠ backslash := by decide
  rw [argvFrom, if_neg hne, if_pos rfl, if_pos (Nat.mul_mod_left n 2),
    Nat.mul_div_left n Nat.two_pos, Reading.text]

/-- A quote behind an odd number of backslashes is literal. -/
theorem argvFrom_literal (o : Option WText) (q : Bool) (n : ℕ) (rest : WText) :
    argvFrom ⟨o, q, n * 2 + 1⟩ (quoteMark :: rest) =
      argvFrom ⟨some (o.getD [] ++ List.replicate n backslash ++ [quoteMark]), q, 0⟩ rest := by
  have hne : quoteMark ≠ backslash := by decide
  have hodd : (n * 2 + 1) % 2 ≠ 0 := by omega
  have hhalf : (n * 2 + 1) / 2 = n := by omega
  rw [argvFrom, if_neg hne, if_pos rfl, if_neg hodd, hhalf, Reading.text]

/-- Inside quotes any other character is literal, and so are the backslashes before it. -/
theorem argvFrom_inside {c : UInt16} (hb : c ≠ backslash) (hq : c ≠ quoteMark)
    (o : Option WText) (n : ℕ) (rest : WText) :
    argvFrom ⟨o, true, n⟩ (c :: rest) =
      argvFrom ⟨some (o.getD [] ++ (List.replicate n backslash ++ [c])), true, 0⟩ rest := by
  rw [argvFrom, if_neg hb, if_neg hq, if_neg fun h => Bool.noConfusion h.2, Reading.text]

/-- A quoted argument is read back up to its closing quote.  The induction is on the argument,
with any number of backslashes counted before it. -/
theorem argvFrom_quoteFrom (a : WText) (n : ℕ) (s rest : WText) :
    argvFrom ⟨some a, true, 0⟩ (quoteFrom n s ++ quoteMark :: rest) =
      argvFrom ⟨some (a ++ (List.replicate n backslash ++ s)), false, 0⟩ rest := by
  induction s generalizing a n with
  | nil =>
    rw [quoteFrom, argvFrom_replicate, Nat.zero_add, argvFrom_delimiter, List.append_nil]
    rfl
  | cons c s ih =>
    rw [quoteFrom]
    split_ifs with hb hq
    · subst hb
      have hrun : List.replicate (n + 1) backslash ++ s
          = List.replicate n backslash ++ backslash :: s := by
        rw [List.replicate_succ', List.append_assoc, List.singleton_append]
      rw [ih, hrun]
    · subst hq
      rw [List.append_assoc, argvFrom_replicate, Nat.zero_add, List.cons_append,
        argvFrom_literal, ih, List.replicate_zero, List.nil_append, Option.getD_some]
      simp only [List.append_assoc, List.singleton_append]
    · rw [List.append_assoc, argvFrom_replicate, Nat.zero_add, List.cons_append,
        argvFrom_inside hb hq, ih, List.replicate_zero, List.nil_append, Option.getD_some]
      simp only [List.append_assoc, List.singleton_append]

/-- At the end of an argument outside quotes, it is complete and the next one is read. -/
theorem argvFrom_atEnd (h : AtEnd rest) (o : Option WText) (n : ℕ) :
    argvFrom ⟨o, false, n⟩ rest =
      Reading.finish ⟨o, false, n⟩ ++ argvFrom {} rest.tail := by
  cases rest with
  | nil => exact (List.append_nil _).symm
  | cons c rest =>
    have hc : c = space := h c rfl
    subst hc
    have hb : space ≠ backslash := by decide
    have hq : space ≠ quoteMark := by decide
    rw [argvFrom, if_neg hb, if_neg hq, if_pos ⟨Or.inl rfl, rfl⟩, List.tail_cons]

theorem finish_eq (hs : s ≠ []) (o : Option WText) (n : ℕ)
    (h : Reading.text ⟨o, false, 0⟩ (List.replicate n backslash) = s) :
    Reading.finish ⟨o, false, n⟩ = [s] := by
  rw [Reading.finish]
  split_ifs with hn
  · cases o with
    | none => exact absurd (h.symm.trans (by simp only [show n = 0 from hn]; rfl)) hs
    | some a =>
      rw [show n = 0 from hn, List.replicate_zero] at h
      rw [← h]
      exact congrArg (fun t => [t]) (List.append_nil a).symm
  · rw [← h]
    rfl

/-- An argument without quotes is read back; `t` is the part of it that has been read. -/
theorem argvFrom_bare (hrest : AtEnd rest) (s t : WText) (hne : t ++ s ≠ [])
    (hs : ∀ c ∈ s, needsQuotes c = false) (o : Option WText) (n : ℕ)
    (ht : Reading.text ⟨o, false, 0⟩ (List.replicate n backslash) = t) :
    argvFrom ⟨o, false, n⟩ (s ++ rest) = (t ++ s) :: argvFrom {} rest.tail := by
  induction s generalizing t o n with
  | nil =>
    rw [List.append_nil] at hne
    rw [List.nil_append, argvFrom_atEnd hrest, finish_eq hne o n ht, List.append_nil]
    rfl
  | cons c s ih =>
    have hc := hs c List.mem_cons_self
    have hs' : ∀ d ∈ s, needsQuotes d = false := fun d hd => hs d (List.mem_cons_of_mem c hd)
    simp only [needsQuotes, Bool.or_eq_false_iff, beq_eq_false_iff_ne] at hc
    obtain ⟨⟨⟨⟨hspace, htab⟩, -⟩, -⟩, hquote⟩ := hc
    have happ : t ++ c :: s = t ++ [c] ++ s := by
      rw [List.append_assoc, List.singleton_append]
    rw [happ] at hne ⊢
    rw [List.cons_append, argvFrom]
    split_ifs with hb hdelim
    · refine ih (t ++ [c]) hne hs' o (n + 1) ?_
      rw [← ht, hb, Reading.text, List.replicate_succ', ← List.append_assoc]
      rfl
    · rcases hdelim.1 with h | h
      · exact absurd h hspace
      · exact absurd h htab
    · refine ih (t ++ [c]) hne hs' _ 0 ?_
      rw [← ht]
      simp only [Reading.text, Option.getD_some, List.replicate_zero, List.append_nil,
        List.append_assoc]

/-- One argument of the command line is read back. -/
theorem argvFrom_quoteArgument (h : AtEnd rest) (argument : WText) :
    argvFrom {} (quoteArgument argument ++ rest) = argument :: argvFrom {} rest.tail := by
  rw [quoteArgument]
  split_ifs with hbare
  · rw [Bool.and_eq_true, Bool.not_eq_true', Bool.not_eq_true', List.isEmpty_eq_false_iff,
      List.any_eq_false] at hbare
    obtain ⟨hne, hall⟩ := hbare
    exact argvFrom_bare h argument [] hne (fun c hc => eq_false_of_ne_true (hall c hc)) none 0 rfl
  · rw [List.cons_append, List.append_assoc, List.singleton_append]
    have hopen : argvFrom {} (quoteMark :: (quoteFrom 0 argument ++ quoteMark :: rest)) =
        argvFrom ⟨some [], true, 0⟩ (quoteFrom 0 argument ++ quoteMark :: rest) :=
      argvFrom_delimiter none false 0 _
    rw [hopen, argvFrom_quoteFrom, argvFrom_atEnd h]
    rfl

/-- The joined arguments are read back, and then what follows them. -/
theorem argvFrom_join (arguments : List WText) (hne : arguments ≠ []) (h : AtEnd rest) :
    argvFrom {} (join (arguments.map quoteArgument) ++ rest) =
      arguments ++ argvFrom {} rest.tail := by
  induction arguments with
  | nil => exact absurd rfl hne
  | cons a arguments ih =>
    cases arguments with
    | nil =>
      rw [List.map_singleton, join, List.intercalate_singleton]
      exact argvFrom_quoteArgument h a
    | cons b arguments =>
      have hspace : AtEnd (space :: (join ((b :: arguments).map quoteArgument) ++ rest)) := by
        rintro c ⟨⟩
        rfl
      have hjoin : join ((a :: b :: arguments).map quoteArgument) ++ rest =
          quoteArgument a ++ space :: (join ((b :: arguments).map quoteArgument) ++ rest) := by
        rw [List.map_cons, join, List.map_cons, List.intercalate_cons_cons, ← List.map_cons,
          List.append_assoc, List.append_assoc, List.singleton_append]
        rfl
      rw [hjoin, argvFrom_quoteArgument hspace, List.tail_cons, ih (List.cons_ne_nil _ _)]
      rfl

/-- The quoted arguments, joined by spaces, come apart again. -/
theorem argv_join_quoteArgument (arguments : List WText) :
    argv (join (arguments.map quoteArgument)) = arguments := by
  cases arguments with
  | nil => rfl
  | cons a arguments =>
    have hend : AtEnd [] := by rintro c ⟨⟩
    have h := argvFrom_join (a :: arguments) (List.cons_ne_nil _ _) hend
    rw [List.append_nil, List.tail_nil] at h
    exact h.trans (List.append_nil _)

example : join ([wide "a b", wide "c\\", wide "d\"\\", []].map quoteArgument) =
    wide "\"a b\" c\\ \"d\\\"\\\\\" \"\"" := by decide

/-- The tool gets the program, its options, the path and the address as they are. -/
theorem argv_commandLine (widen : Text → WText) (program path : WText) (name address : Text) :
    argv (commandLine widen program path name address) =
      [program, wide "file", wide "cp", wide "--update-interval=0",
        wide "--name=" ++ widen name, path, widen (address ++ [':'])] := by
  have hjoin : commandLine widen program path name address =
      join ([program, wide "file", wide "cp", wide "--update-interval=0",
        wide "--name=" ++ widen name, path, widen (address ++ [':'])].map quoteArgument) := by
    have hfile : quoteArgument (wide "file") = wide "file" := by decide
    have hcp : quoteArgument (wide "cp") = wide "cp" := by decide
    have hinterval :
        quoteArgument (wide "--update-interval=0") = wide "--update-interval=0" := by decide
    have hwide : wide " file cp --update-interval=0 " =
        space :: (wide "file" ++ space :: (wide "cp" ++ space ::
          (wide "--update-interval=0" ++ [space]))) := by decide
    have hspace : wide " " = [space] := by decide
    simp only [commandLine, List.map_cons, List.map_nil, hfile, hcp, hinterval, hwide, hspace,
      join, List.intercalate, List.intersperse, List.flatten_cons, List.flatten_nil,
      List.append_assoc, List.cons_append, List.nil_append, List.append_nil]
  have hend : AtEnd [] := by rintro c ⟨⟩
  have h := argvFrom_join [program, wide "file", wide "cp", wide "--update-interval=0",
    wide "--name=" ++ widen name, path, widen (address ++ [':'])] (List.cons_ne_nil _ _) hend
  rw [List.append_nil, List.tail_nil] at h
  rw [hjoin]
  exact h.trans (List.append_nil _)

end Taildrop

end InputLeap
