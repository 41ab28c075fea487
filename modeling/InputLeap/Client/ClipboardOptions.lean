import InputLeap.Client.Grabs

/-!
# The clipboard options of a client

The server sends options as numbers, each followed by its value.  The client looks for its two
options at every number until it has read the first sharing option, and a reset leaves both of its
members as they are.

## Main definitions

* `ClipboardOptions.fold` : what a list of options asks for.
* `Client.Aligned` : no value is taken for an option.
* `Client.Obeys` : what is read before the first sharing option, over what was there, is what the
  whole list asks for.
* `Client.optionsLts` : lists of options, each behind a reset.

## Main results

* `Client.clipboardOptions_of_reachable` : in runs of such lists the client has what the last one
  asks for, and any other list of which no value is taken for an option leaves it with something
  else.
-/

namespace InputLeap

/-- The two options of a client that concern clipboards, with their defaults. -/
structure ClipboardOptions where
  enableClipboard : Bool := true
  maximumClipboardSize : ℕ := 2 ^ 31 - 1
  deriving DecidableEq

namespace ClipboardOptions

variable (o : ClipboardOptions)

/-- Sets an option to its value. -/
def set (option : ℕ × ℕ) : ClipboardOptions :=
  if option.1 = OptionID.clipboardSharing.code then { o with enableClipboard := option.2 != 0 }
  else if option.1 = OptionID.clipboardSharingSize.code then
    { o with maximumClipboardSize := option.2 }
  else o

/-- A limit of zero disables sharing. -/
def close : ClipboardOptions :=
  if o.maximumClipboardSize = 0 then { o with enableClipboard := false } else o

/-- The options in order, from the defaults. -/
def fold (options : List (ℕ × ℕ)) : ClipboardOptions := (options.foldl set {}).close

theorem close_eq_iff {o o' : ClipboardOptions} : o.close = o'.close ↔
    o.maximumClipboardSize = o'.maximumClipboardSize ∧
      (o'.maximumClipboardSize = 0 ∨ o.enableClipboard = o'.enableClipboard) := by
  obtain ⟨enabled, limit⟩ := o
  obtain ⟨enabled', limit'⟩ := o'
  simp only [close]
  split_ifs with h h' h'
  · simp [h, h']
  · simp [h, Ne.symm h']
  · simp [h, h']
  · simp [h', and_comm]

end ClipboardOptions

namespace Client

/-- The client's reset leaves what it holds and resets the screen. -/
def resetOptions (c : Client) : Client := c

/-- The numbers in which options are sent. -/
def flatten (options : List (ℕ × ℕ)) : List ℕ := options.flatMap fun option => [option.1, option.2]

/-- The clipboard options that the client holds. -/
def clipboardOptions (c : Client) : ClipboardOptions := ⟨c.enableClipboard, c.maximumClipboardSize⟩

/-- Up to the first sharing option no value is a number that the client looks for. -/
def Aligned : List (ℕ × ℕ) → Prop
  | [] => True
  | (id, value) :: options =>
    id = OptionID.clipboardSharing.code ∨
      (id = OptionID.clipboardSharingSize.code ∨
        value ≠ OptionID.clipboardSharing.code ∧ value ≠ OptionID.clipboardSharingSize.code) ∧
      Aligned options

instance decidableAligned : ∀ options, Decidable (Aligned options)
  | [] => .isTrue trivial
  | (_, _) :: options =>
    have : Decidable (Aligned options) := decidableAligned options
    inferInstanceAs (Decidable (_ ∨ _ ∧ _))

/-- The values of the sharing options. -/
def sharing (options : List (ℕ × ℕ)) : List Bool :=
  (options.filter fun option => option.1 = OptionID.clipboardSharing.code).map (·.2 != 0)

/-- The values of the size options. -/
def sizes (options : List (ℕ × ℕ)) : List ℕ :=
  (options.filter fun option => option.1 = OptionID.clipboardSharingSize.code).map Prod.snd

/-- The options before the first sharing option. -/
def beforeSharing (options : List (ℕ × ℕ)) : List (ℕ × ℕ) :=
  options.takeWhile fun option => option.1 ≠ OptionID.clipboardSharing.code

/-- The last size option stands before the first sharing option, or another with its value does, and
the first and the last sharing option agree.  Where there is none, the client has the default.
Sharing does not matter if the size is zero. -/
def Obeys (c : Client) (options : List (ℕ × ℕ)) : Prop :=
  (sizes (beforeSharing options)).getLast?.getD c.maximumClipboardSize =
      (sizes options).getLast?.getD (2 ^ 31 - 1) ∧
    ((sizes options).getLast? = some 0 ∨
      (sharing options).head?.getD c.enableClipboard = (sharing options).getLast?.getD true)

instance (c : Client) (options : List (ℕ × ℕ)) : Decidable (c.Obeys options) :=
  inferInstanceAs (Decidable (_ ∧ _))

/-- Lists of options, each behind a reset.  The state is the client and the last list. -/
def optionsLts : LTS (Client × List (ℕ × ℕ)) (List (ℕ × ℕ)) where
  init s := s = ({}, [])
  step s options := some (s.1.resetOptions.setOptions (flatten options), options)

/-! ### What is read -/

theorem code_ne : OptionID.clipboardSharingSize.code ≠ OptionID.clipboardSharing.code := by decide

theorem getLast?_cons_getD {α : Type*} (x y : α) (l : List α) :
    (x :: l).getLast?.getD y = l.getLast?.getD x := by
  cases l with
  | nil => rfl
  | cons z l => simp [List.getLast?_cons]

/-- A number that the client does not look for is passed over. -/
theorem readOptions_cons_of_ne {id : ℕ} (h : id ≠ OptionID.clipboardSharing.code)
    (h' : id ≠ OptionID.clipboardSharingSize.code) (options : List ℕ) (c : Client) :
    readOptions (id :: options) c = readOptions options c := by
  rw [readOptions.eq_def]
  dsimp only
  rw [if_neg h, if_neg h']

/-- What the loop reads: all up to the first sharing option. -/
theorem readOptions_flatten {options : List (ℕ × ℕ)} (h : Aligned options) (c : Client) :
    (readOptions (flatten options) c).clipboardOptions =
      ⟨(sharing options).head?.getD c.enableClipboard,
        (sizes (beforeSharing options)).getLast?.getD c.maximumClipboardSize⟩ := by
  induction options generalizing c with
  | nil => rfl
  | cons option options ih =>
    obtain ⟨id, value⟩ := option
    change (readOptions (id :: value :: flatten options) c).clipboardOptions = _
    by_cases hsharing : id = OptionID.clipboardSharing.code
    · subst hsharing
      simp [readOptions, clipboardOptions, sharing, beforeSharing, sizes]
    obtain ⟨hvalue, hrest⟩ := h.resolve_left hsharing
    have hsharing' : sharing ((id, value) :: options) = sharing options := by
      simp [sharing, hsharing]
    have hbefore : beforeSharing ((id, value) :: options) =
        (id, value) :: beforeSharing options := by
      simp [beforeSharing, hsharing]
    rw [hsharing', hbefore]
    by_cases hsize : id = OptionID.clipboardSharingSize.code
    · subst hsize
      have hsizes : sizes ((OptionID.clipboardSharingSize.code, value) :: beforeSharing options) =
          value :: sizes (beforeSharing options) := by
        simp [sizes]
      have hread : readOptions (OptionID.clipboardSharingSize.code :: value :: flatten options) c =
          readOptions (flatten options) { c with maximumClipboardSize := value } := by
        simp only [readOptions, if_neg hsharing, if_true]
      rw [hread, ih hrest, hsizes, getLast?_cons_getD]
    · -- neither number is one that the client looks for
      obtain ⟨hvalue, hvalue'⟩ := hvalue.resolve_left hsize
      have hsizes : sizes ((id, value) :: beforeSharing options) =
          sizes (beforeSharing options) := by
        simp [sizes, hsize]
      rw [readOptions_cons_of_ne hsharing hsize, readOptions_cons_of_ne hvalue hvalue', ih hrest,
        hsizes]

/-- What the list asks for. -/
theorem foldl_set (options : List (ℕ × ℕ)) (o : ClipboardOptions) :
    options.foldl ClipboardOptions.set o =
      ⟨(sharing options).getLast?.getD o.enableClipboard,
        (sizes options).getLast?.getD o.maximumClipboardSize⟩ := by
  induction options generalizing o with
  | nil => rfl
  | cons option options ih =>
    obtain ⟨id, value⟩ := option
    rw [List.foldl_cons, ih, ClipboardOptions.set]
    by_cases hsharing : id = OptionID.clipboardSharing.code
    · subst hsharing
      simp [sharing, sizes, code_ne.symm, getLast?_cons_getD]
    · by_cases hsize : id = OptionID.clipboardSharingSize.code
      · subst hsize
        simp [sharing, sizes, code_ne, getLast?_cons_getD]
      · simp [sharing, sizes, hsharing, hsize]

theorem clipboardOptions_setOptions (c : Client) (options : List ℕ) :
    (c.setOptions options).clipboardOptions = (readOptions options c).clipboardOptions.close := by
  rw [setOptions]
  generalize readOptions options c = c
  unfold ClipboardOptions.close clipboardOptions
  dsimp only
  by_cases hlimit : c.maximumClipboardSize = 0
  · rw [if_pos hlimit]
    cases hon : c.enableClipboard with
    | true => rw [if_pos ⟨rfl, hlimit⟩]
    | false => rw [if_neg fun h => Bool.false_ne_true h.1, hon]
  · rw [if_neg hlimit, if_neg fun h => hlimit h.2]

/-- Whatever the client held before, a list is obeyed if and only if it meets the condition. -/
theorem clipboardOptions_eq_iff (c : Client) {options : List (ℕ × ℕ)} (h : Aligned options) :
    (c.resetOptions.setOptions (flatten options)).clipboardOptions = .fold options ↔
      c.Obeys options := by
  rw [resetOptions, clipboardOptions_setOptions, readOptions_flatten h, ClipboardOptions.fold,
    foldl_set, ClipboardOptions.close_eq_iff, Obeys]
  refine and_congr_right fun _ => or_congr_left ?_
  cases (sizes options).getLast? with
  | none => simp
  | some value => simp

/-- In runs of lists of which no value is taken for an option, and of which what stands up to the
first sharing option is all that they ask for, the client has what the last list asks for.  After
any other list of which no value is taken for an option, whatever the client held before, it does
not. -/
theorem clipboardOptions_of_reachable {s : Client × List (ℕ × ℕ)}
    (hs : optionsLts.ReachableVia (fun s options => Aligned options ∧ s.1.Obeys options) s) :
    s.1.clipboardOptions = .fold s.2 ∧
      ∀ (c : Client) (options : List (ℕ × ℕ)), Aligned options →
        ((c.resetOptions.setOptions (flatten options)).clipboardOptions = .fold options ↔
          c.Obeys options) := by
  refine ⟨?_, fun c options h => clipboardOptions_eq_iff c h⟩
  refine hs.invariant (I := fun s => s.1.clipboardOptions = .fold s.2) ?_ ?_
  · rintro _ rfl
    decide
  · intro s options s' _ hG hst
    obtain rfl := Option.some.inj hst
    exact (clipboardOptions_eq_iff s.1 hG.1).2 hG.2

/-- A list that sets both options behind another one. -/
def sizeAndSharing : List (ℕ × ℕ) :=
  [(OptionID.heartbeat.code, 5000), (OptionID.clipboardSharingSize.code, 2048),
    (OptionID.clipboardSharing.code, 1)]

/-- The client has what such a list asks for. -/
theorem clipboardOptions_sizeAndSharing :
    ((({} : Client).resetOptions.setOptions (flatten sizeAndSharing)).clipboardOptions) =
      ⟨true, 2048⟩ := by
  have hs : optionsLts.ReachableVia (fun s options => Aligned options ∧ s.1.Obeys options)
      (({} : Client).resetOptions.setOptions (flatten sizeAndSharing), sizeAndSharing) :=
    .step (s := (({} : Client), [])) (.init rfl) (by decide +kernel) rfl
  exact (clipboardOptions_of_reachable hs).1

/-- A list without options does not undo what the one before it set. -/
theorem not_clipboardOptions_of_reachable :
    ¬∀ s, optionsLts.Reachable s → s.1.clipboardOptions = .fold s.2 := by
  intro h
  have hlast := h _ (@LTS.Reachable.of_exec _ _ optionsLts ({}, []) _
    [[(OptionID.clipboardSharing.code, 0)], []] rfl rfl)
  exact absurd hlast (by decide +kernel)

end Client

end InputLeap
