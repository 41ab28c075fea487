import InputLeap.Config.Edit
import InputLeap.Maps.Nearest

/-!
# The links of a screen

A link starts from a stretch of an edge.  The stretches of one edge are kept apart, so the links are
looked up by looking at the neighbours of a place in the order of the links alone.

## Main definitions

* `CellEdge.ofInterval?` : the stretch of an edge that a link is made from.
* `Cell.Edit`, `Cell.lts` : the calls that change the links of a screen, in any order.
* `Cell.Disjoint` : the stretches are not empty and have no point in common.

## Main results

* `Cell.links_of_reachable` : the stretches stay apart, and what is looked up is what is stored.
-/

namespace InputLeap

theorem Direction.toNat_inj {d d' : Direction} : d.toNat = d'.toNat ↔ d = d' := by
  cases d <;> cases d' <;> decide

namespace CellEdge

/-- Some position lies in both. -/
def SharesPoint (a b : CellEdge) : Prop := ∃ p, a.isInside p = true ∧ b.isInside p = true

/-- What the constructor asserts of an interval. -/
def ValidInterval (interval : ℚ × ℚ) : Prop :=
  0 ≤ interval.1 ∧ interval.2 ≤ 1 ∧ interval.1 < interval.2

instance (interval : ℚ × ℚ) : Decidable (ValidInterval interval) :=
  inferInstanceAs (Decidable (_ ∧ _))

/-- The constructor from an interval; `none` if an assertion fails. -/
def ofInterval? (name : String) (side : Direction) (interval : ℚ × ℚ) : Option CellEdge :=
  if ValidInterval interval then some ⟨name, side, interval⟩ else none

variable {a b e : CellEdge} {name : String} {side : Direction} {interval : ℚ × ℚ} {p : ℚ}

theorem lt_of_ofInterval? (h : ofInterval? name side interval = some e) :
    e.side = side ∧ e.interval.1 < e.interval.2 := by
  unfold ofInterval? at h
  split_ifs at h with hint
  obtain rfl := Option.some.inj h
  exact ⟨rfl, hint.2.2⟩

theorem isInside_iff : e.isInside p = true ↔ e.interval.1 ≤ p ∧ p < e.interval.2 := by
  simp only [isInside, Bool.and_eq_true, decide_eq_true_eq]

/-- Stretches have a point in common if and only if each begins before the other ends. -/
theorem sharesPoint_iff (ha : a.interval.1 < a.interval.2) (hb : b.interval.1 < b.interval.2) :
    a.SharesPoint b ↔ a.interval.1 < b.interval.2 ∧ b.interval.1 < a.interval.2 := by
  simp only [SharesPoint, isInside_iff]
  constructor
  · rintro ⟨p, ⟨hap, hpa⟩, hbp, hpb⟩
    exact ⟨hap.trans_lt hpb, hbp.trans_lt hpa⟩
  · rintro ⟨hab, hba⟩
    rcases le_total a.interval.1 b.interval.1 with hle | hle
    · exact ⟨b.interval.1, ⟨hle, hba⟩, le_rfl, hb⟩
    · exact ⟨a.interval.1, ⟨le_rfl, ha⟩, hle, hab⟩

theorem overlaps_iff (ha : a.interval.1 < a.interval.2) (hb : b.interval.1 < b.interval.2) :
    a.overlaps b = true ↔ a.side = b.side ∧ a.SharesPoint b := by
  rw [sharesPoint_iff ha hb]
  simp only [overlaps, Bool.and_eq_true, beq_iff_eq, Bool.or_eq_true, decide_eq_true_eq]
  refine and_congr_right fun _ => ?_
  constructor
  · -- one of the ends of one stretch lies in the other
    rintro (((⟨h, h'⟩ | ⟨h, h'⟩) | ⟨h, h'⟩) | ⟨h, h'⟩)
    · exact ⟨h', h.trans_lt ha⟩
    · exact ⟨ha.trans_le h', h⟩
    · exact ⟨h.trans_lt hb, h'⟩
    · exact ⟨h, hb.trans_le h'⟩
  · rintro ⟨hab, hba⟩
    rcases le_total b.interval.1 a.interval.1 with hle | hle
    · exact .inl (.inl (.inl ⟨hle, hab⟩))
    · exact .inl (.inr ⟨hle, hba⟩)

/-! ### The order of the links -/

theorem compare_lt_iff {q r : ℚ} : compare q r = .lt ↔ q < r := compare_lt_iff_lt

/-- On one side a link comes before another if it starts before. -/
theorem cmp_eq_compare (h : a.side = b.side) :
    cmp a b = compare a.interval.1 b.interval.1 := by
  simp only [cmp, compareLex, compareOn, h, Std.ReflOrd.compare_self, Ordering.then]

theorem compare_toNat_ne_gt_iff {d d' : Direction} :
    compare d.toNat d'.toNat ≠ .gt ↔ d.toNat ≤ d'.toNat := by
  rw [ne_eq, Nat.compare_eq_gt, not_lt]

/-- Between two links of one side there is none of another side. -/
theorem side_eq_of_between (ha : cmp a e ≠ .gt) (hb : cmp e b ≠ .gt) (h : a.side = b.side) :
    e.side = a.side := by
  have hle : ∀ {x y : CellEdge}, cmp x y ≠ .gt → x.side.toNat ≤ y.side.toNat := by
    intro x y hxy
    refine compare_toNat_ne_gt_iff.1 fun hgt => hxy ?_
    simp only [cmp, compareLex, compareOn, hgt, Ordering.then]
  have hae : a.side.toNat ≤ e.side.toNat := hle ha
  have heb : e.side.toNat ≤ a.side.toNat := h ▸ hle hb
  exact Direction.toNat_inj.1 (le_antisymm heb hae)

end CellEdge

namespace Cell

variable {c c' : Cell} {e src src' dst dst' : CellEdge}

/-- The stretches that links start from are not empty, and on one edge they have no point in
common. -/
structure Disjoint (c : Cell) : Prop where
  proper : ∀ {src dst}, MapEntry c.neighbors src dst → src.interval.1 < src.interval.2
  apart : ∀ {src dst src' dst'}, MapEntry c.neighbors src dst → MapEntry c.neighbors src' dst' →
    src.side = src'.side → src.SharesPoint src' → src = src'

/-! ### Looking at the neighbours -/

/-- The last link that does not start behind a place is the one whose stretch reaches beyond it. -/
theorem Disjoint.eq_of_last (h : c.Disjoint) (hsrc : MapEntry c.neighbors src dst)
    (hlast : MapEntry c.neighbors src' dst') (hle : (CellEdge.cmp src' e).isLE = true)
    (hbefore : src = src' ∨ CellEdge.cmp src src' = .lt) (hside : src.side = e.side)
    (hend : e.interval.1 < src.interval.2) : src = src' := by
  rcases hbefore with heq | hlt
  · exact heq
  have hle' : CellEdge.cmp src' e ≠ .gt := Ordering.isLE_iff_ne_gt.1 hle
  have hside' : src'.side = src.side :=
    CellEdge.side_eq_of_between (by rw [hlt]; decide) hle' hside
  rw [CellEdge.cmp_eq_compare hside'.symm, CellEdge.compare_lt_iff] at hlt
  rw [CellEdge.cmp_eq_compare (hside'.trans hside)] at hle'
  have hstart : src'.interval.1 ≤ e.interval.1 := compare_le_iff_le.1 hle'
  refine h.apart hsrc hlast hside'.symm ?_
  rw [CellEdge.sharesPoint_iff (h.proper hsrc) (h.proper hlast)]
  exact ⟨hlt.trans (h.proper hlast), hstart.trans_lt hend⟩

/-- **What `overlaps` finds.** -/
theorem Disjoint.overlaps_iff (h : c.Disjoint) (he : e.interval.1 < e.interval.2) :
    c.overlaps e = true ↔
      ∃ src dst, MapEntry c.neighbors src dst ∧ src.side = e.side ∧ src.SharesPoint e := by
  unfold overlaps
  rw [Bool.or_eq_true]
  constructor
  · rintro (hfound | hfound)
    · split at hfound
      · rename_i src dst hentry
        obtain ⟨hsrc, -, -⟩ := MapEntry.getEntryGT?_eq_some_iff.1 hentry
        exact ⟨src, dst, hsrc, (CellEdge.overlaps_iff (h.proper hsrc) he).1 hfound⟩
      · cases hfound
    · split at hfound
      · rename_i src dst hentry
        obtain ⟨hsrc, -, -⟩ := MapEntry.getEntryLE?_eq_some_iff.1 hentry
        exact ⟨src, dst, hsrc, (CellEdge.overlaps_iff (h.proper hsrc) he).1 hfound⟩
      · cases hfound
  · rintro ⟨src, dst, hsrc, hside, hshares⟩
    obtain ⟨hstart, hend⟩ := (CellEdge.sharesPoint_iff (h.proper hsrc) he).1 hshares
    rcases lt_or_ge e.interval.1 src.interval.1 with hlt | hge
    · -- the first link behind the start of `e` starts in `e` as well
      left
      have hgt : CellEdge.cmp src e = .gt := by
        rw [CellEdge.cmp_eq_compare hside]
        exact compare_gt_iff_gt.2 hlt
      split
      · rename_i first dst' hentry
        obtain ⟨hfirst, hgt', hleast⟩ := MapEntry.getEntryGT?_eq_some_iff.1 hentry
        have hfirst' : CellEdge.cmp first e = .gt := Ordering.isGT_iff_eq_gt.1 hgt'
        have hbefore : CellEdge.cmp first src ≠ .gt := by
          rcases hleast src dst hsrc (by rw [hgt]; rfl) with rfl | hlt
          · rw [(Std.ReflCmp.compare_self : CellEdge.cmp src src = .eq)]
            decide
          · rw [hlt]
            decide
        have hafter : CellEdge.cmp e first ≠ .gt := by
          rw [Std.OrientedCmp.lt_of_gt hfirst']
          decide
        have hside' : first.side = e.side :=
          CellEdge.side_eq_of_between hafter hbefore hside.symm
        rw [CellEdge.cmp_eq_compare hside'] at hfirst'
        rw [CellEdge.cmp_eq_compare (hside'.trans hside.symm)] at hbefore
        have hle : first.interval.1 ≤ src.interval.1 := compare_le_iff_le.1 hbefore
        have hlt' : e.interval.1 < first.interval.1 := compare_gt_iff_gt.1 hfirst'
        refine (CellEdge.overlaps_iff (h.proper hfirst) he).2 ⟨hside', ?_⟩
        rw [CellEdge.sharesPoint_iff (h.proper hfirst) he]
        exact ⟨hle.trans_lt hstart, hlt'.trans (h.proper hfirst)⟩
      · rename_i hnone
        exact absurd (by rw [hgt]; rfl) (MapEntry.getEntryGT?_eq_none_iff.1 hnone src dst hsrc)
    · -- the last link that starts at or before the start of `e` is this one
      right
      have hle : (CellEdge.cmp src e).isLE = true := by
        rw [CellEdge.cmp_eq_compare hside, Ordering.isLE_iff_ne_gt]
        exact compare_le_iff_le.2 hge
      split
      · rename_i last dst' hentry
        obtain ⟨hlast, hle', hgreatest⟩ := MapEntry.getEntryLE?_eq_some_iff.1 hentry
        obtain rfl := h.eq_of_last hsrc hlast hle' (hgreatest src dst hsrc hle) hside hend
        exact (CellEdge.overlaps_iff (h.proper hsrc) he).2 ⟨hside, hshares⟩
      · rename_i hnone
        exact absurd hle (MapEntry.getEntryLE?_eq_none_iff.1 hnone src dst hsrc)

/-- **What `getLink` finds.** -/
theorem Disjoint.getLink_eq_some_iff (h : c.Disjoint) {side : Direction} {p : ℚ} :
    c.getLink side p = some (src, dst) ↔
      MapEntry c.neighbors src dst ∧ src.side = side ∧ src.isInside p = true := by
  unfold getLink
  constructor
  · intro hlink
    split at hlink
    · rename_i last dst' hentry
      obtain ⟨hlast, -, -⟩ := MapEntry.getEntryLE?_eq_some_iff.1 hentry
      split_ifs at hlink with hin
      obtain ⟨rfl, rfl⟩ := Prod.mk.inj (Option.some.inj hlink)
      exact ⟨hlast, hin⟩
    · cases hlink
  · rintro ⟨hsrc, hside, hin⟩
    obtain ⟨hstart, hend⟩ := CellEdge.isInside_iff.1 hin
    have hle : (CellEdge.cmp src (.atPosition side p)).isLE = true := by
      rw [CellEdge.cmp_eq_compare (by exact hside), Ordering.isLE_iff_ne_gt]
      exact compare_le_iff_le.2 hstart
    split
    · rename_i last dst' hentry
      obtain ⟨hlast, hle', hgreatest⟩ := MapEntry.getEntryLE?_eq_some_iff.1 hentry
      obtain rfl := h.eq_of_last hsrc hlast hle' (hgreatest src dst hsrc hle) hside hend
      rw [if_pos ⟨hside, hin⟩, hsrc.unique_value hlast]
    · rename_i hnone
      exact absurd hle (MapEntry.getEntryLE?_eq_none_iff.1 hnone src dst hsrc)

/-! ### Every run -/

/-- The calls that change links.  An edge that a link is to start from is made from a side and an
interval. -/
inductive Edit
  | add (srcSide : Direction) (src : ℚ × ℚ) (dst : CellEdge)
  | removeSide (side : Direction)
  | removeAt (side : Direction) (position : ℚ)
  | removeName (isName : String → Bool)
  | rename (isName : String → Bool) (newName : String)

/-- The calls in any order, from a screen without links.  One with an interval for which an
assertion fails does not return, and an edge that cannot be added changes nothing. -/
def lts : LTS Cell Edit where
  init c := c.neighbors = ∅
  step c
    | .add srcSide src dst =>
      (CellEdge.ofInterval? "" srcSide src).map fun e => (c.add e dst).getD c
    | .removeSide side => some (c.removeSide side)
    | .removeAt side position => some (c.removeAt side position)
    | .removeName isName => some (c.removeName isName)
    | .rename isName newName => some (c.rename isName newName)

theorem hasEdge_iff : c.hasEdge e = true ↔
    ∃ src dst, MapEntry c.neighbors src dst ∧ CellEdge.cmp e src = .eq ∧
      src.side = e.side ∧ src.interval = e.interval := by
  unfold hasEdge
  constructor
  · intro hedge
    split at hedge
    · rename_i src hkey
      obtain ⟨dst, hsrc⟩ := MapEntry.getKey?_eq_some_self_iff.1 (MapEntry.getKey?_getKey? hkey)
      rw [Bool.and_eq_true, beq_iff_eq, beq_iff_eq] at hedge
      exact ⟨src, dst, hsrc, Std.OrientedCmp.eq_symm (MapEntry.cmp_getKey? hkey), hedge⟩
    · cases hedge
  · rintro ⟨src, dst, hsrc, hcmp, hside, hinterval⟩
    rw [Std.TreeMap.getKey?_congr hcmp, hsrc.1]
    simp only [hside, hinterval, beq_self_eq_true, Bool.and_self]

theorem Disjoint.add (h : c.Disjoint) (he : e.interval.1 < e.interval.2)
    (hadd : c.add e dst = some c') : c'.Disjoint := by
  unfold Cell.add at hadd
  split_ifs at hadd with hreject
  obtain rfl := Option.some.inj hadd
  -- nothing that stays shares a point with the new edge
  have hnew : ∀ {src dst}, CellEdge.cmp e src ≠ .eq → MapEntry c.neighbors src dst →
      src.side = e.side → ¬src.SharesPoint e := by
    intro src dst hne hsrc hside hshares
    by_cases hedge : c.hasEdge e = true
    · obtain ⟨same, dst', hsame, hcmp, hside', hinterval⟩ := hasEdge_iff.1 hedge
      have hshares' : src.SharesPoint same := by
        obtain ⟨p, hp, hp'⟩ := hshares
        refine ⟨p, hp, ?_⟩
        rw [CellEdge.isInside_iff, hinterval]
        exact CellEdge.isInside_iff.1 hp'
      obtain rfl := h.apart hsrc hsame (hside.trans hside'.symm) hshares'
      exact hne hcmp
    · have hoverlaps : c.overlaps e = true :=
        (h.overlaps_iff he).2 ⟨src, dst, hsrc, hside, hshares⟩
      rw [Bool.eq_false_iff.2 hedge, hoverlaps] at hreject
      exact hreject rfl
  have hentry : ∀ {src dst'}, MapEntry ((c.neighbors.erase e).insert e dst) src dst' →
      src = e ∨ CellEdge.cmp e src ≠ .eq ∧ MapEntry c.neighbors src dst' := by
    intro src dst' hsrc
    rcases MapEntry.mapEntry_insert.1 hsrc with ⟨heq, -⟩ | ⟨-, hold⟩
    · exact .inl heq
    · exact .inr (MapEntry.mapEntry_erase.1 hold)
  refine ⟨fun hsrc => ?_, fun hsrc hsrc' hside hshares => ?_⟩
  · rcases hentry hsrc with rfl | ⟨-, hold⟩
    · exact he
    · exact h.proper hold
  · rcases hentry hsrc with rfl | ⟨hne, hold⟩ <;> rcases hentry hsrc' with rfl | ⟨hne', hold'⟩
    · rfl
    · obtain ⟨p, hp, hp'⟩ := hshares
      exact absurd ⟨p, hp', hp⟩ (hnew hne' hold' hside.symm)
    · exact absurd hshares (hnew hne hold hside)
    · exact h.apart hold hold' hside hshares

/-- Links that go or lead elsewhere leave the others apart. -/
theorem Disjoint.of_sources (h : c.Disjoint)
    (hsources : ∀ {src dst}, MapEntry c'.neighbors src dst →
      ∃ dst', MapEntry c.neighbors src dst') : c'.Disjoint := by
  refine ⟨fun hsrc => ?_, fun hsrc hsrc' hside hshares => ?_⟩
  · obtain ⟨_, hold⟩ := hsources hsrc
    exact h.proper hold
  · obtain ⟨_, hold⟩ := hsources hsrc
    obtain ⟨_, hold'⟩ := hsources hsrc'
    exact h.apart hold hold' hside hshares

theorem Disjoint.step {l : Edit} (h : c.Disjoint) (hst : lts.step c l = some c') :
    c'.Disjoint := by
  cases l with
  | add srcSide src dst =>
    obtain ⟨e, he, rfl⟩ := Option.map_eq_some_iff.1 hst
    cases hadd : c.add e dst with
    | none => exact h
    | some c' => exact h.add (CellEdge.lt_of_ofInterval? he).2 hadd
  | removeSide side =>
    obtain rfl := Option.some.inj hst
    exact h.of_sources fun hsrc => ⟨_, (MapEntry.mapEntry_filter.1 hsrc).1⟩
  | removeAt side position =>
    obtain rfl := Option.some.inj hst
    refine h.of_sources fun {src dst} hsrc => ?_
    unfold removeAt at hsrc
    split at hsrc
    · exact ⟨dst, (MapEntry.mapEntry_erase.1 hsrc).2⟩
    · exact ⟨dst, hsrc⟩
  | removeName isName =>
    obtain rfl := Option.some.inj hst
    exact h.of_sources fun hsrc => ⟨_, (MapEntry.mapEntry_filter.1 hsrc).1⟩
  | rename isName newName =>
    obtain rfl := Option.some.inj hst
    refine h.of_sources fun hsrc => ?_
    obtain ⟨dst', hold, -⟩ := MapEntry.mapEntry_map.1 hsrc
    exact ⟨dst', hold⟩

theorem disjoint_of_reachable (hc : lts.Reachable c) : c.Disjoint := by
  refine hc.invariant ?_ fun _ _ _ h _ hst => h.step hst
  intro c hempty
  refine ⟨fun hsrc => ?_, fun hsrc => ?_⟩ <;>
  · rw [hempty] at hsrc
    exact absurd hsrc MapEntry.not_mapEntry_empty

/-- In every run the stretches of one edge stay apart, an edge overlaps the links exactly if one of
them starts from a stretch that has a point in common with it, and the link at a position is the
only one whose stretch contains the position. -/
theorem links_of_reachable (hc : lts.Reachable c) (side : Direction) :
    (∀ src dst src' dst', MapEntry c.neighbors src dst → MapEntry c.neighbors src' dst' →
      src.side = side → src'.side = side → src ≠ src' → ¬src.SharesPoint src') ∧
    (∀ name interval e, CellEdge.ofInterval? name side interval = some e →
      (c.overlaps e = true ↔
        ∃ src dst, MapEntry c.neighbors src dst ∧ src.side = side ∧ src.SharesPoint e)) ∧
    ∀ p, (∀ src dst, c.getLink side p = some (src, dst) ↔
        MapEntry c.neighbors src dst ∧ src.side = side ∧ src.isInside p = true) ∧
      (c.getLink side p = none ↔
        ∀ src dst, MapEntry c.neighbors src dst → src.side = side → src.isInside p = false) := by
  have h : c.Disjoint := disjoint_of_reachable hc
  refine ⟨fun src dst src' dst' hsrc hsrc' hside hside' hne hshares => ?_,
    fun name interval e he => ?_, fun p => ⟨fun src dst => h.getLink_eq_some_iff, ?_⟩⟩
  · exact hne (h.apart hsrc hsrc' (hside.trans hside'.symm) hshares)
  · obtain ⟨hside, hproper⟩ := CellEdge.lt_of_ofInterval? he
    rw [h.overlaps_iff hproper, hside]
  · rw [Option.eq_none_iff_forall_ne_some]
    constructor
    · intro hnone src dst hsrc hside
      rw [Bool.eq_false_iff]
      exact fun hin => hnone (src, dst) (h.getLink_eq_some_iff.2 ⟨hsrc, hside, hin⟩)
    · rintro hout ⟨src, dst⟩ hlink
      obtain ⟨hsrc, hside, hin⟩ := h.getLink_eq_some_iff.1 hlink
      rw [hout src dst hsrc hside] at hin
      cases hin

/-- Two links from the halves of an edge. -/
def halves : Cell :=
  let upper := (({} : Cell).add ⟨"", .right, (0, 1 / 2)⟩ ⟨"upper", .right, (0, 1)⟩).getD {}
  (upper.add ⟨"", .right, (1 / 2, 1)⟩ ⟨"lower", .right, (0, 1)⟩).getD upper

theorem reachable_halves : lts.Reachable halves := by
  have hadd : ∀ {c interval} dst, lts.Reachable c → CellEdge.ValidInterval interval →
      lts.Reachable ((c.add ⟨"", .right, interval⟩ dst).getD c) := by
    intro c interval dst hc hint
    refine .step (l := .add .right interval dst) hc trivial ?_
    exact Option.map_eq_some_iff.2 ⟨_, if_pos hint, rfl⟩
  have hempty : lts.Reachable ({} : Cell) := .init rfl
  exact hadd _ (hadd _ hempty (by decide +kernel)) (by decide +kernel)

/-- A link starts at three quarters of the edge. -/
theorem link_halves : ∃ src dst, MapEntry halves.neighbors src dst ∧ src.side = .right ∧
    src.isInside (3 / 4) = true := by
  have hlink : halves.getLink .right (3 / 4) =
      some (⟨"", .right, (1 / 2, 1)⟩, ⟨"lower", .right, (0, 1)⟩) := by decide +kernel
  obtain ⟨-, -, hlinks⟩ := links_of_reachable reachable_halves .right
  exact ⟨_, _, ((hlinks (3 / 4)).1 _ _).1 hlink⟩

end Cell

end InputLeap
