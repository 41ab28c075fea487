import InputLeap.LTS.Basic
import InputLeap.Num.Binary

/-!
# Dragging the stretch of a link

The settings window draws every link over the stretch of the edge that it covers.  While the
left button is held on a handle of the selected link, that end of the stretch follows the cursor,
and the link that leads back is changed with it.  The dragged end is kept one percent from the
other end, and nothing else bounds it: when the other end is less than one percent from its
border, the dragged end leaves the edge.

Where the handles are drawn is left out: an event says which handle was pressed and how far
along the edge the cursor is.

## Main definitions

* `ScreenLink` : one entry of the links section, with percentages in double precision.
* `ScreenLayoutView` : the links, the selected one and the drag in progress.
* `ScreenLayoutView.dragging` : the system of the drags on one link.
* `ScreenLink.Valid` : the stretch is a part of the edge that is not empty.
* `ScreenLink.Roomy` : both ends are a percent or more from the opposite border.

## Main results

* `Roomy.stretched` : a drag keeps a roomy stretch valid and roomy.
* `not_valid_stretched` : one of the handles makes a stretch that is not roomy invalid.
* `Coupled.step`, `WayBack.step` : the way back covers the same stretch after every event.
* `dragging_valid_iff` : the stretch is valid in every state reached exactly when it is roomy.
-/

namespace InputLeap

/-- A `double`. -/
abbrev Double := BinaryFormat.double.Number

/-- The `double` that an arithmetic result is rounded to. -/
abbrev toDouble (x : ℚ) : Double := BinaryFormat.double.toNumber x

/-- A side of a screen. -/
inductive ScreenLink.Side
  | left
  | right
  | up
  | down
  deriving DecidableEq

/-- Leaving `source` through part of its `side` enters `target` through part of the opposite
side.  The ranges are percentages of the edge length. -/
structure ScreenLink where
  source : String
  side : ScreenLink.Side
  sourceStart : Double
  sourceEnd : Double
  target : String
  targetStart : Double
  targetEnd : Double
  deriving DecidableEq

namespace ScreenLink

def opposite : Side → Side
  | .left => .right
  | .right => .left
  | .up => .down
  | .down => .up

/-- The link that leads back from target to source over the same stretch of edge. -/
def reversed (link : ScreenLink) : ScreenLink where
  source := link.target
  side := opposite link.side
  sourceStart := link.targetStart
  sourceEnd := link.targetEnd
  target := link.source
  targetStart := link.sourceStart
  targetEnd := link.sourceEnd

end ScreenLink

/-- The handles at the ends of the selected stretch. -/
inductive Handle
  | atStart
  | atEnd

/-- The links, the index of the selected one, and the drag in progress. -/
structure ScreenLayoutView where
  links : List ScreenLink
  selectedLink : ℕ
  dragHandle : Option Handle
  /-- The way back of the dragged link, if there is one. -/
  dragReverse : Option ℕ

/-- What a drag consists of. -/
inductive DragEvent
  /-- The left button is pressed on a handle. -/
  | press (handle : Handle)
  /-- The cursor moves to `along` percent of the edge, with Shift held or not. -/
  | move (shift : Bool) (along : Double)
  | release

namespace ScreenLayoutView

/-- The position of the cursor along the edge, as a percentage. -/
def percentAlong (along : Double) : Double := max (min along (toDouble 100)) (toDouble 0)

/-- `std::round`: the nearest integer, away from zero when two are equally near. -/
def stdRound (x : Double) : Double :=
  if 0 ≤ (x : ℚ) then toDouble ⌊(x : ℚ) + 1 / 2⌋ else toDouble (-⌊-(x : ℚ) + 1 / 2⌋)

/-- The edge ends snap. -/
def snapToEnds (percent : Double) : Double :=
  if (percent : ℚ) < 1 then toDouble 0
  else if 99 < (percent : ℚ) then toDouble 100 else percent

/-- Whole percents unless Shift is held, hundredths with Shift. -/
def snapped (shift : Bool) (along : Double) : Double :=
  snapToEnds <|
    if shift = false then stdRound (percentAlong along)
    else toDouble (stdRound (toDouble (percentAlong along * 100)) / 100)

def kMinimum : ℚ := 1

/-- The link after its end at `handle` was dragged to `percent`. -/
def stretched (handle : Handle) (percent : Double) (link : ScreenLink) : ScreenLink :=
  match handle with
  | .atStart => { link with sourceStart := min percent (toDouble (link.sourceEnd - kMinimum)) }
  | .atEnd => { link with sourceEnd := max percent (toDouble (link.sourceStart + kMinimum)) }

/-- The first other link that leads back over the same stretch. -/
def reverseOf (links : List ScreenLink) (index : ℕ) : Option ℕ :=
  (List.range links.length).find? fun i =>
    i ≠ index ∧ links[i]? = links[index]?.map ScreenLink.reversed

/-- The dragged link and its way back change. -/
def dragTo (v : ScreenLayoutView) (handle : Handle) (percent : Double) :
    Option ScreenLayoutView := do
  let before ← v.links[v.selectedLink]?
  let link := stretched handle percent before
  let links := v.links.set v.selectedLink link
  if link ≠ before then
    match v.dragReverse with
    | some j =>
      let back ← links[j]?
      some { v with
        links := links.set j
          { back with targetStart := link.sourceStart, targetEnd := link.sourceEnd } }
    | none => some { v with links := links }
  else
    some { v with links := links }

def step (v : ScreenLayoutView) : DragEvent → Option ScreenLayoutView
  | .press handle =>
    if v.selectedLink < v.links.length then
      some { v with
        dragHandle := some handle, dragReverse := reverseOf v.links v.selectedLink }
    else none
  | .move shift along =>
    match v.dragHandle with
    | none => some v
    | some handle => v.dragTo handle (snapped shift along)
  | .release =>
    match v.dragHandle with
    | none => some v
    | some _ => some { v with dragHandle := none, dragReverse := none }

/-- The drags on the link at `index`. -/
def dragging (links : List ScreenLink) (index : ℕ) : LTS ScreenLayoutView DragEvent where
  init v := v = ⟨links, index, none, none⟩
  step := step

end ScreenLayoutView

/-! ### The dragged stretch -/

theorem coe_toDouble_intCast {n : ℤ} (hn : |n| < 2 ^ 53) : (toDouble (n : ℚ) : ℚ) = n :=
  BinaryFormat.double_round_intCast hn

@[simp] theorem coe_toDouble_zero : (toDouble 0 : ℚ) = 0 := BinaryFormat.round_zero

@[simp] theorem coe_toDouble_hundred : (toDouble 100 : ℚ) = 100 := by
  have h := coe_toDouble_intCast (n := 100) (by norm_num)
  exact_mod_cast h

namespace ScreenLink

/-- The stretch is a part of the edge that is not empty. -/
def Valid (link : ScreenLink) : Prop :=
  0 ≤ (link.sourceStart : ℚ) ∧ (link.sourceStart : ℚ) < link.sourceEnd ∧
    (link.sourceEnd : ℚ) ≤ 100

/-- Both ends are a percent or more from the opposite border. -/
def Roomy (link : ScreenLink) : Prop :=
  1 ≤ (link.sourceEnd : ℚ) ∧ (link.sourceStart : ℚ) ≤ 99

end ScreenLink

namespace ScreenLayoutView

open ScreenLink

theorem snapToEnds_nonneg (percent : Double) : 0 ≤ (snapToEnds percent : ℚ) := by
  unfold snapToEnds
  split_ifs with h0 h1
  · exact coe_toDouble_zero.ge
  · rw [coe_toDouble_hundred]
    norm_num
  · linarith

theorem snapToEnds_le (percent : Double) : (snapToEnds percent : ℚ) ≤ 100 := by
  unfold snapToEnds
  split_ifs with h0 h1
  · rw [coe_toDouble_zero]
    norm_num
  · exact coe_toDouble_hundred.le
  · linarith

variable {link : ScreenLink} {percent : Double} {handle : Handle}

/-- A drag keeps a roomy stretch valid and roomy. -/
theorem Roomy.stretched (hroom : link.Roomy) (hvalid : link.Valid) (h0 : 0 ≤ (percent : ℚ))
    (h100 : (percent : ℚ) ≤ 100) :
    (stretched handle percent link).Valid ∧ (stretched handle percent link).Roomy := by
  obtain ⟨hend, hstart⟩ := hroom
  obtain ⟨hs, hlt, he⟩ := hvalid
  cases handle with
  | atStart =>
    simp only [ScreenLayoutView.stretched, ScreenLink.Valid, ScreenLink.Roomy,
      BinaryFormat.coe_min, BinaryFormat.coe_toNumber, kMinimum]
    have hceil : |⌈(link.sourceEnd : ℚ)⌉ - 1| < 2 ^ BinaryFormat.double.prec := by
      have h1 : 1 ≤ ⌈(link.sourceEnd : ℚ)⌉ := Int.one_le_ceil_iff.mpr (by linarith)
      have h2 : ⌈(link.sourceEnd : ℚ)⌉ ≤ 100 := Int.ceil_le.mpr (by exact_mod_cast he)
      rw [abs_of_nonneg (by omega)]
      simp only [BinaryFormat.double]
      omega
    have hback := BinaryFormat.round_sub_one_lt (f := .double) (by decide) hceil
    have h99 := BinaryFormat.round_mono (f := .double)
      (show (link.sourceEnd : ℚ) - 1 ≤ ((99 : ℤ) : ℚ) by push_cast; linarith)
    rw [BinaryFormat.double_round_intCast (by norm_num)] at h99
    refine ⟨⟨le_min h0 (BinaryFormat.round_nonneg (by linarith)), ?_, he⟩, hend, ?_⟩
    · exact (min_le_right _ _).trans_lt hback
    · exact (min_le_right _ _).trans (by exact_mod_cast h99)
  | atEnd =>
    simp only [ScreenLayoutView.stretched, ScreenLink.Valid, ScreenLink.Roomy,
      BinaryFormat.coe_max, BinaryFormat.coe_toNumber, kMinimum]
    have hfloor : |⌊(link.sourceStart : ℚ)⌋ + 1| < 2 ^ BinaryFormat.double.prec := by
      have h1 : 0 ≤ ⌊(link.sourceStart : ℚ)⌋ := Int.floor_nonneg.mpr hs
      have h2 : ⌊(link.sourceStart : ℚ)⌋ ≤ 99 := by
        exact_mod_cast (Int.floor_le (link.sourceStart : ℚ)).trans hstart
      rw [abs_of_nonneg (by omega)]
      simp only [BinaryFormat.double]
      omega
    have hahead := BinaryFormat.lt_round_add_one (f := .double) (by decide) hfloor
    have h1 := BinaryFormat.round_mono (f := .double)
      (show ((1 : ℤ) : ℚ) ≤ (link.sourceStart : ℚ) + 1 by push_cast; linarith)
    have h100' := BinaryFormat.round_mono (f := .double)
      (show (link.sourceStart : ℚ) + 1 ≤ ((100 : ℤ) : ℚ) by push_cast; linarith)
    rw [BinaryFormat.double_round_intCast (by norm_num)] at h1 h100'
    refine ⟨⟨hs, hahead.trans_le (le_max_right _ _), ?_⟩, ?_, hstart⟩
    · exact max_le h100 (by exact_mod_cast h100')
    · exact le_trans (by exact_mod_cast h1) (le_max_right _ _)

/-- One of the handles takes a stretch that is not roomy off the edge, wherever the cursor is. -/
theorem not_valid_stretched (hvalid : link.Valid) (hroom : ¬ link.Roomy) :
    ∃ handle, ∀ percent, ¬ (stretched handle percent link).Valid := by
  obtain ⟨hs, hlt, he⟩ := hvalid
  obtain hend | hend := lt_or_ge (link.sourceEnd : ℚ) 1
  · refine ⟨.atStart, fun percent h => ?_⟩
    have hneg := BinaryFormat.round_sub_one_neg (f := .double) (by decide) link.sourceEnd.2
      (hs.trans_lt hlt) hend
    obtain ⟨h0, -, -⟩ := h
    simp only [ScreenLayoutView.stretched, BinaryFormat.coe_min, BinaryFormat.coe_toNumber,
      kMinimum] at h0
    exact absurd ((le_min_iff.mp h0).2) (not_le.mpr hneg)
  · have hstart : 99 < (link.sourceStart : ℚ) := by
      by_contra hle
      exact hroom ⟨hend, not_lt.mp hle⟩
    refine ⟨.atEnd, fun percent h => ?_⟩
    -- the sum is a number below 128, so it is not rounded
    have hnum := link.sourceStart.2.add_one (f := .double) (k := 6) (by decide) (by decide)
      (by norm_num; linarith) (by norm_num; linarith)
    obtain ⟨-, -, h100⟩ := h
    simp only [ScreenLayoutView.stretched, BinaryFormat.coe_max, BinaryFormat.coe_toNumber,
      kMinimum, BinaryFormat.round_of_isNumber hnum] at h100
    have := (max_le_iff.mp h100).2
    linarith

/-! ### The way back -/

/-- The source of the stretch is all that a drag changes, on the way back the target. -/
theorem reversed_stretched :
    { link.reversed with
      targetStart := (stretched handle percent link).sourceStart
      targetEnd := (stretched handle percent link).sourceEnd } =
      (stretched handle percent link).reversed := by
  cases handle <;> rfl

/-- Another link leads back over the same stretch. -/
def WayBack (v : ScreenLayoutView) : Prop :=
  ∃ j, j ≠ v.selectedLink ∧ v.links[j]? = v.links[v.selectedLink]?.map reversed

/-- The way back of a drag is another link, over the same stretch as the dragged one. -/
def Coupled (v : ScreenLayoutView) : Prop :=
  ∀ j, v.dragReverse = some j →
    j ≠ v.selectedLink ∧ v.links[j]? = v.links[v.selectedLink]?.map reversed

/-- What a drag to the stretch of `link` leaves. -/
structure Dragged (v v' : ScreenLayoutView) (link : ScreenLink) : Prop where
  selectedLink : v'.selectedLink = v.selectedLink
  dragHandle : v'.dragHandle = v.dragHandle
  dragReverse : v'.dragReverse = v.dragReverse
  selected : v'.links[v.selectedLink]? = some link
  reverse : ∀ j, v.dragReverse = some j → v'.links[j]? = some link.reversed

variable {v v' : ScreenLayoutView} {e : DragEvent}

theorem dragTo_dragged (handle : Handle) (percent : Double) (hc : v.Coupled)
    (hl : v.links[v.selectedLink]? = some link) :
    ∃ v', v.dragTo handle percent = some v' ∧ Dragged v v' (stretched handle percent link) := by
  have hlt : v.selectedLink < v.links.length := (List.getElem?_eq_some_iff.mp hl).1
  by_cases hne : stretched handle percent link = link
  · have heq : v.dragTo handle percent =
        some { v with links := v.links.set v.selectedLink link } := by
      simp [dragTo, hl, hne]
    refine ⟨_, heq, rfl, rfl, rfl, ?_, fun j hj => ?_⟩
    · rw [hne, List.getElem?_set_self hlt]
    · obtain ⟨hj0, hj1⟩ := hc j hj
      rw [hne, List.getElem?_set_ne hj0.symm, hj1, hl, Option.map_some]
  cases hr : v.dragReverse with
  | none =>
    have heq : v.dragTo handle percent = some { v with
        links := v.links.set v.selectedLink (stretched handle percent link) } := by
      simp [dragTo, hl, hr]
    refine ⟨_, heq, rfl, rfl, rfl, ?_, fun j hj => nomatch hr.symm.trans hj⟩
    rw [List.getElem?_set_self hlt]
  | some i =>
    obtain ⟨hi0, hi1⟩ := hc i hr
    rw [hl, Option.map_some] at hi1
    have hi : (v.links.set v.selectedLink (stretched handle percent link))[i]? =
        some link.reversed := by
      rw [List.getElem?_set_ne hi0.symm, hi1]
    have heq : v.dragTo handle percent = some { v with
        links := (v.links.set v.selectedLink (stretched handle percent link)).set i
          (stretched handle percent link).reversed } := by
      simp only [dragTo, hl, Option.bind_eq_bind, Option.bind_some, ne_eq, hne,
        not_false_eq_true, if_true, hr, hi, reversed_stretched]
    refine ⟨_, heq, rfl, rfl, rfl, ?_, fun j hj => ?_⟩
    · rw [List.getElem?_set_ne hi0, List.getElem?_set_self hlt]
    · obtain rfl : i = j := Option.some.inj (hr.symm.trans hj)
      rw [List.getElem?_set_self (List.getElem?_eq_some_iff.mp hi).1]

/-- What an event does: press a handle, nothing, drag, or release. -/
theorem step_cases (h : v.step e = some v') (hc : v.Coupled) :
    (∃ handle, v' = { v with
      dragHandle := some handle, dragReverse := reverseOf v.links v.selectedLink }) ∨
    v' = v ∨
    (∃ handle shift along link, v.dragHandle = some handle ∧
      v.links[v.selectedLink]? = some link ∧
      Dragged v v' (stretched handle (snapped shift along) link)) ∨
    v' = { v with dragHandle := none, dragReverse := none } := by
  cases e with
  | press handle =>
    unfold step at h
    split_ifs at h with hlt
    exact .inl ⟨handle, (Option.some.inj h).symm⟩
  | move shift along =>
    cases hh : v.dragHandle with
    | none =>
      simp only [step, hh, Option.some.injEq] at h
      exact .inr (.inl h.symm)
    | some handle =>
      simp only [step, hh] at h
      cases hl : v.links[v.selectedLink]? with
      | none => simp [dragTo, hl] at h
      | some link =>
        obtain ⟨w, hw, hd⟩ := dragTo_dragged handle (snapped shift along) hc hl
        rw [hw, Option.some.injEq] at h
        exact .inr (.inr (.inl ⟨handle, shift, along, link, rfl, rfl, h ▸ hd⟩))
  | release =>
    cases hh : v.dragHandle with
    | none =>
      simp only [step, hh, Option.some.injEq] at h
      exact .inr (.inl h.symm)
    | some handle =>
      simp only [step, hh, Option.some.injEq] at h
      exact .inr (.inr (.inr h.symm))

theorem reverseOf_eq_some {links : List ScreenLink} {index j : ℕ}
    (h : reverseOf links index = some j) :
    j ≠ index ∧ links[j]? = links[index]?.map reversed := by
  simpa using List.find?_some h

theorem WayBack.reverseOf_ne_none (hw : v.WayBack) (hlt : v.selectedLink < v.links.length) :
    reverseOf v.links v.selectedLink ≠ none := by
  obtain ⟨j, hj, heq⟩ := hw
  intro hnone
  have hjlt : j < v.links.length := by
    rw [List.getElem?_eq_getElem hlt, Option.map_some] at heq
    exact (List.getElem?_eq_some_iff.mp heq).1
  have := List.find?_eq_none.mp hnone j (List.mem_range.mpr hjlt)
  simp [hj, heq] at this

/-- After every event the way back of the drag covers the same stretch as the dragged link. -/
theorem Coupled.step (hc : v.Coupled) (h : v.step e = some v') :
    v'.Coupled ∧ v'.selectedLink = v.selectedLink := by
  obtain ⟨handle, rfl⟩ | rfl | ⟨handle, shift, along, link, -, hl, hd⟩ | rfl := step_cases h hc
  · exact ⟨fun j hj => reverseOf_eq_some hj, rfl⟩
  · exact ⟨hc, rfl⟩
  · refine ⟨fun j hj => ?_, hd.selectedLink⟩
    rw [hd.dragReverse] at hj
    rw [hd.selectedLink, hd.selected, hd.reverse j hj, Option.map_some]
    exact ⟨(hc j hj).1, rfl⟩
  · exact ⟨fun j hj => (nomatch hj), rfl⟩

/-- The stretch is valid and roomy. -/
def Kept (v : ScreenLayoutView) : Prop :=
  ∃ link, v.links[v.selectedLink]? = some link ∧ link.Valid ∧ link.Roomy

theorem Kept.step (hk : v.Kept) (hc : v.Coupled) (h : v.step e = some v') : v'.Kept := by
  obtain ⟨handle, rfl⟩ | rfl | ⟨handle, shift, along, link, -, hl, hd⟩ | rfl := step_cases h hc
  · exact hk
  · exact hk
  · obtain ⟨link', hl', hvalid, hroom⟩ := hk
    obtain rfl : link = link' := Option.some.inj (hl.symm.trans hl')
    refine ⟨_, by rw [hd.selectedLink]; exact hd.selected, ?_⟩
    exact Roomy.stretched hroom hvalid (snapToEnds_nonneg _) (snapToEnds_le _)
  · exact hk

/-- A link that had a way back has one, and a drag knows it. -/
structure Led (v : ScreenLayoutView) : Prop where
  wayBack : v.WayBack
  lt : v.selectedLink < v.links.length
  known : v.dragHandle ≠ none → v.dragReverse ≠ none

theorem Led.step (hled : v.Led) (hc : v.Coupled) (h : v.step e = some v') : v'.Led := by
  obtain ⟨hw, hlt, hknown⟩ := hled
  obtain ⟨handle, rfl⟩ | rfl | ⟨handle, shift, along, link, hh, hl, hd⟩ | rfl := step_cases h hc
  · exact ⟨hw, hlt, fun _ => hw.reverseOf_ne_none hlt⟩
  · exact ⟨hw, hlt, hknown⟩
  · -- the way back that the drag knows follows the dragged link
    obtain ⟨j, hj⟩ := Option.ne_none_iff_exists'.mp (hknown (by simp [hh]))
    refine ⟨⟨j, ?_, ?_⟩, ?_, fun _ => ?_⟩
    · rw [hd.selectedLink]
      exact (hc j hj).1
    · rw [hd.selectedLink, hd.selected, hd.reverse j hj, Option.map_some]
    · rw [hd.selectedLink]
      exact (List.getElem?_eq_some_iff.mp hd.selected).1
    · rw [hd.dragReverse, hj]
      exact Option.some_ne_none j
  · exact ⟨hw, hlt, fun hne => absurd rfl hne⟩

/-! ### Runs -/

variable {links : List ScreenLink} {index : ℕ}

theorem coupled_of_reachable (h : (dragging links index).Reachable v) :
    v.Coupled ∧ v.selectedLink = index := by
  refine h.invariant (I := fun v => v.Coupled ∧ v.selectedLink = index) (fun s hs => ?_)
    fun s e s' hI _ hst => ?_
  · obtain rfl : s = _ := hs
    exact ⟨fun j hj => (nomatch hj), rfl⟩
  · obtain ⟨hc, hsel⟩ := hI
    obtain ⟨hc', hsel'⟩ := hc.step hst
    exact ⟨hc', hsel'.trans hsel⟩

/-- The link keeps covering the same stretch as its way back, if it has one. -/
theorem wayBack_of_reachable (h : (dragging links index).Reachable v)
    (hlt : index < links.length) (hw : WayBack ⟨links, index, none, none⟩) : v.WayBack := by
  have hI : v.Coupled ∧ v.Led := by
    refine h.invariant (I := fun v => v.Coupled ∧ v.Led) (fun s hs => ?_)
      fun s e s' hI _ hst => ?_
    · obtain rfl : s = _ := hs
      exact ⟨fun j hj => (nomatch hj), hw, hlt, fun hne => absurd rfl hne⟩
    · exact ⟨(hI.1.step hst).1, hI.2.step hI.1 hst⟩
  exact hI.2.wayBack

/-- A roomy stretch stays valid. -/
theorem kept_of_reachable (h : (dragging links index).Reachable v)
    (hl : links[index]? = some link) (hvalid : link.Valid) (hroom : link.Roomy) : v.Kept := by
  have hI : v.Coupled ∧ v.Kept := by
    refine h.invariant (I := fun v => v.Coupled ∧ v.Kept) (fun s hs => ?_)
      fun s e s' hI _ hst => ?_
    · obtain rfl : s = _ := hs
      exact ⟨fun j hj => (nomatch hj), link, hl, hvalid, hroom⟩
    · exact ⟨(hI.1.step hst).1, hI.2.step hI.1 hst⟩
  exact hI.2

/-- Pressing a handle and moving to the start of the edge is a run. -/
theorem reachable_stretched (hl : links[index]? = some link) (handle : Handle) :
    ∃ v, (dragging links index).Reachable v ∧
      v.links[index]? = some (stretched handle (snapped false (toDouble 0)) link) := by
  have hlt : index < links.length := (List.getElem?_eq_some_iff.mp hl).1
  have hpress : (dragging links index).step ⟨links, index, none, none⟩ (.press handle) =
      some ⟨links, index, some handle, reverseOf links index⟩ := if_pos hlt
  have h0 : (dragging links index).Reachable ⟨links, index, none, none⟩ := .init rfl
  have h1 := LTS.ReachableVia.step h0 trivial hpress
  obtain ⟨hc, -⟩ := coupled_of_reachable h1
  obtain ⟨v, hv, hd⟩ := dragTo_dragged handle (snapped false (toDouble 0)) hc hl
  have h2 : (dragging links index).Reachable v :=
    LTS.ReachableVia.step (l := .move false (toDouble 0)) h1 trivial hv
  exact ⟨v, h2, hd.selected⟩

/-- A valid stretch stays valid through every run of drags, and its way back covers the same
stretch, exactly when both ends of it are a percent or more from the opposite border. -/
theorem dragging_valid_iff (links : List ScreenLink) (index : ℕ) (link : ScreenLink)
    (hl : links[index]? = some link) (hvalid : link.Valid) :
    (∀ v, (dragging links index).Reachable v →
      (∃ link', v.links[index]? = some link' ∧ link'.Valid) ∧
        (WayBack ⟨links, index, none, none⟩ → v.WayBack)) ↔ link.Roomy := by
  constructor
  · intro h
    by_contra hroom
    obtain ⟨handle, hbad⟩ := not_valid_stretched hvalid hroom
    obtain ⟨v, hv, hsel⟩ := reachable_stretched hl handle
    obtain ⟨⟨link', hl', hvalid'⟩, -⟩ := h v hv
    obtain rfl : _ = link' := Option.some.inj (hsel.symm.trans hl')
    exact hbad _ hvalid'
  · intro hroom v hv
    obtain ⟨-, hsel⟩ := coupled_of_reachable hv
    obtain ⟨link', hl', hvalid', -⟩ := kept_of_reachable hv hl hvalid hroom
    refine ⟨⟨link', hsel ▸ hl', hvalid'⟩, wayBack_of_reachable hv ?_⟩
    exact (List.getElem?_eq_some_iff.mp hl).1

/-- A link over the first half percent of an edge. -/
def halfPercent : ScreenLink where
  source := "left"
  side := .right
  sourceStart := toDouble 0
  sourceEnd := toDouble (1 / 2)
  target := "right"
  targetStart := toDouble 0
  targetEnd := toDouble 100

theorem coe_toDouble_half : (toDouble (1 / 2) : ℚ) = 1 / 2 := by
  refine BinaryFormat.round_of_isNumber ⟨1, -1, ?_, ?_, ?_⟩
  · norm_num [BinaryFormat.double]
  · norm_num [BinaryFormat.double]
  · norm_num

theorem halfPercent_valid : halfPercent.Valid := by
  simp only [ScreenLink.Valid, halfPercent, coe_toDouble_zero, coe_toDouble_half]
  norm_num

/-- A link over the whole of an edge. -/
def wholeEdge : ScreenLink := { halfPercent with sourceEnd := toDouble 100 }

theorem wholeEdge_roomy : wholeEdge.Valid ∧ wholeEdge.Roomy := by
  simp only [ScreenLink.Valid, ScreenLink.Roomy, wholeEdge, halfPercent, coe_toDouble_zero,
    coe_toDouble_hundred]
  norm_num

theorem dragging_wholeEdge :
    wholeEdge.Roomy ∧ ∀ v, (dragging [wholeEdge, wholeEdge.reversed] 0).Reachable v →
      (∃ link', v.links[0]? = some link' ∧ link'.Valid) ∧
        (WayBack ⟨[wholeEdge, wholeEdge.reversed], 0, none, none⟩ → v.WayBack) :=
  ⟨wholeEdge_roomy.2,
    (dragging_valid_iff [wholeEdge, wholeEdge.reversed] 0 wholeEdge rfl wholeEdge_roomy.1).mpr
      wholeEdge_roomy.2⟩

/-- Dragging the start of a stretch of half a percent takes it to minus half a percent. -/
theorem halfPercent_dragged :
    halfPercent.Valid ∧
      ∃ v link, (dragging [halfPercent, halfPercent.reversed] 0).Reachable v ∧
        v.links[0]? = some link ∧ (link.sourceStart : ℚ) = -(1 / 2) ∧ ¬ link.Valid := by
  refine ⟨halfPercent_valid, ?_⟩
  have hl : [halfPercent, halfPercent.reversed][0]? = some halfPercent := rfl
  obtain ⟨v, hv, hsel⟩ := reachable_stretched hl .atStart
  have hstart : ((stretched .atStart (snapped false (toDouble 0)) halfPercent).sourceStart : ℚ) =
      -(1 / 2) := by
    have hround : BinaryFormat.double.round ((toDouble (1 / 2) : ℚ) - kMinimum) = -(1 / 2) := by
      rw [coe_toDouble_half, kMinimum, show (1 / 2 : ℚ) - 1 = -(1 / 2) by norm_num,
        BinaryFormat.round_neg, ← BinaryFormat.coe_toNumber, coe_toDouble_half]
    simp only [stretched, halfPercent, BinaryFormat.coe_min, BinaryFormat.coe_toNumber] at hround ⊢
    rw [hround]
    exact min_eq_right ((by norm_num : (-(1 / 2) : ℚ) ≤ 0).trans (snapToEnds_nonneg _))
  refine ⟨v, _, hv, hsel, hstart, fun hvalid => ?_⟩
  have h0 := hvalid.1
  rw [hstart] at h0
  norm_num at h0

end ScreenLayoutView

end InputLeap
