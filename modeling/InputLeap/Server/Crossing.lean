import InputLeap.Maps.Nearest
import InputLeap.Server.Switch
import Mathlib.Algebra.Order.Floor.Ring
import Mathlib.Data.Rat.Floor

/-!
# Where the cursor lands

A position that `mapToNeighbor` finds lies on the screen that it finds, if the cursor does not go
beyond the last screen on the side and the primary screen is larger than its jump zone.

## Main definitions

* `ScreenInfo.Contains` : the position is on the screen, as `switchScreen` asserts.
* `Config.WellLinked` : the links lead to intervals of an edge.
* `Direction.Beyond` : the position is past the side of a screen.
* `Server.arrives` : the cursor does not go beyond the last screen on the side.

## Main results

* `contains_of_mapToNeighbor` : the position found is on the screen found.
* `beyond_of_exitSide`, `beyond_of_touchedEdges` : motions look for neighbours past a side.
-/

namespace InputLeap

namespace ScreenInfo

/-- The position is on the screen. -/
def Contains (i : ScreenInfo) (x y : ℤ) : Prop :=
  i.x ≤ x ∧ i.y ≤ y ∧ x < i.x + i.w ∧ y < i.y + i.h

instance (i : ScreenInfo) (x y : ℤ) : Decidable (i.Contains x y) :=
  inferInstanceAs (Decidable (_ ∧ _))

theorem Contains.size_pos {i : ScreenInfo} {x y : ℤ} (h : i.Contains x y) : 0 < i.w ∧ 0 < i.h := by
  obtain ⟨hx, hy, hx', hy'⟩ := h
  omega

end ScreenInfo

/-! ### Fractions of an edge -/

/-- Part of an edge, as fractions of its length. -/
def IsInterval (r : ℚ × ℚ) : Prop := 0 ≤ r.1 ∧ r.1 < r.2 ∧ r.2 ≤ 1

instance (r : ℚ × ℚ) : Decidable (IsInterval r) := inferInstanceAs (Decidable (_ ∧ _))

/-- Links lead to intervals, as `parseInterval` makes sure. -/
def Config.WellLinked (cfg : Config) : Prop :=
  ∀ e ∈ cfg.map.toList, ∀ l ∈ e.2.neighbors.toList, IsInterval l.2.interval

instance (cfg : Config) : Decidable cfg.WellLinked :=
  inferInstanceAs (Decidable (∀ _ ∈ _, ∀ _ ∈ _, _))

namespace CellEdge

theorem transform_mem {e : CellEdge} {x : ℚ} (h : e.isInside x = true) :
    0 ≤ e.transform x ∧ e.transform x < 1 := by
  simp only [isInside, Bool.and_eq_true, decide_eq_true_eq] at h
  have hlength : 0 < e.interval.2 - e.interval.1 := sub_pos.2 (h.1.trans_lt h.2)
  unfold transform
  refine ⟨div_nonneg (sub_nonneg.2 h.1) hlength.le, (div_lt_one hlength).2 ?_⟩
  exact sub_lt_sub_right h.2 _

theorem inverseTransform_mem {e : CellEdge} {x : ℚ} (h : IsInterval e.interval) (h₀ : 0 ≤ x)
    (h₁ : x < 1) : 0 ≤ e.inverseTransform x ∧ e.inverseTransform x < 1 := by
  obtain ⟨hstart, hlt, hend⟩ := h
  have hlength : 0 < e.interval.2 - e.interval.1 := sub_pos.2 hlt
  unfold inverseTransform
  refine ⟨add_nonneg (mul_nonneg h₀ hlength.le) hstart, ?_⟩
  calc x * (e.interval.2 - e.interval.1) + e.interval.1
      < 1 * (e.interval.2 - e.interval.1) + e.interval.1 :=
        add_lt_add_left (mul_lt_mul_of_pos_right h₁ hlength) _
    _ = e.interval.2 := by ring
    _ ≤ 1 := hend

end CellEdge

/-- The position on a neighbour is a fraction of its edge. -/
theorem Config.WellLinked.getNeighbor {cfg : Config} (h : cfg.WellLinked) {srcName name : String}
    {srcSide : Direction} {t t' : ℚ} (hn : cfg.getNeighbor srcName srcSide t = some (name, t')) :
    0 ≤ t' ∧ t' < 1 := by
  unfold Config.getNeighbor at hn
  split at hn
  · cases hn
  · rename_i cell hcell
    split at hn
    · cases hn
    · rename_i src dst hlink
      obtain ⟨-, rfl⟩ := Prod.mk.inj (Option.some.inj hn)
      unfold Cell.getLink at hlink
      split at hlink
      · rename_i src' dst' hentry
        split_ifs at hlink with hin
        obtain ⟨rfl, rfl⟩ := Prod.mk.inj (Option.some.inj hlink)
        obtain ⟨key, -, hmem⟩ :=
          Std.TreeMap.getElem?_eq_some_iff_exists_compare_eq_eq_and_mem_toList.1 hcell
        obtain ⟨hsrc, -, -⟩ := MapEntry.getEntryLE?_eq_some_iff.1 hentry
        have hdst := h _ hmem _ (MapEntry.mem_toList_iff.2 hsrc)
        obtain ⟨h₀, h₁⟩ := CellEdge.transform_mem hin.2
        exact CellEdge.inverseTransform_mem hdst h₀ h₁
      · cases hlink

/-- The pixel at a fraction of a side is on the side. -/
theorem truncate_mem {q : ℚ} {n : ℤ} (h₀ : 0 ≤ q) (h₁ : q < 1) (hn : 0 < n) :
    0 ≤ truncate (q * n) ∧ truncate (q * n) < n := by
  have hpos : (0 : ℚ) < n := Int.cast_pos.2 hn
  have hprod : 0 ≤ q * n := mul_nonneg h₀ hpos.le
  have hfloor : truncate (q * n) = ⌊q * n⌋ := by
    unfold truncate
    rw [Int.tdiv_eq_ediv_of_nonneg (Rat.num_nonneg.2 hprod), Rat.floor_def']
  rw [hfloor]
  refine ⟨Int.floor_nonneg.2 hprod, Int.floor_lt.2 ?_⟩
  calc q * n < 1 * n := mul_lt_mul_of_pos_right h₁ hpos
    _ = n := one_mul _

/-! ### The two axes of a side -/

namespace Direction

/-- The position is past the side of the screen. -/
def Beyond (d : Direction) (i : ScreenInfo) (p : ℤ × ℤ) : Prop :=
  if d.decreasing then d.crossing p < d.origin i else d.origin i + d.extent i ≤ d.crossing p

/-- The position is on the screen as far as the coordinate along the side goes. -/
def Along (d : Direction) (i : ScreenInfo) (p : ℤ × ℤ) : Prop :=
  if d.horizontal then i.y ≤ p.2 ∧ p.2 < i.y + i.h else i.x ≤ p.1 ∧ p.1 < i.x + i.w

variable {d : Direction} {i : ScreenInfo} {p : ℤ × ℤ} {v : ℤ}

theorem contains_iff (d : Direction) : i.Contains p.1 p.2 ↔
    d.Along i p ∧ d.origin i ≤ d.crossing p ∧ d.crossing p < d.origin i + d.extent i := by
  unfold ScreenInfo.Contains Along origin crossing extent
  split_ifs <;> grind

@[simp] theorem crossing_setCrossing : d.crossing (d.setCrossing p v) = v := by
  unfold crossing setCrossing
  split_ifs <;> rfl

@[simp] theorem along_setCrossing : d.Along i (d.setCrossing p v) ↔ d.Along i p := by
  unfold Along setCrossing
  split_ifs <;> rfl

theorem crossing_mapToPixel (f : ℚ) : d.crossing (mapToPixel i d f p) = d.crossing p := by
  unfold crossing mapToPixel
  split_ifs <;> rfl

theorem along_mapToPixel {f : ℚ} (h₀ : 0 ≤ f) (h₁ : f < 1) (hw : 0 < i.w) (hh : 0 < i.h) :
    d.Along i (mapToPixel i d f p) := by
  have hx := truncate_mem h₀ h₁ hw
  have hy := truncate_mem h₀ h₁ hh
  unfold Along mapToPixel
  split_ifs
  · omega
  · omega

end Direction

namespace Server

variable {s s' : Server} {env : Env} {c dst : ClientID} {dir : Direction}

/-! ### The search -/

/-- Every screen has a size. -/
def Sized (s : Server) : Prop := ∀ c, 0 < (s.info c).w ∧ 0 < (s.info c).h

theorem fraction_of_findNeighbor (h : s.config.WellLinked) {fuel : ℕ} {srcName : String}
    {t t' : ℚ} (hn : s.findNeighbor dir fuel srcName t = some (some (c, t'))) :
    0 ≤ t' ∧ t' < 1 := by
  induction fuel generalizing srcName t with
  | zero => cases hn
  | succ fuel ih =>
    simp only [findNeighbor] at hn
    split at hn
    · cases hn
    · rename_i dstName t₁ hnext
      by_cases hempty : dstName = ""
      · rw [if_pos hempty] at hn
        cases hn
      · rw [if_neg hempty] at hn
        split at hn
        · obtain ⟨-, rfl⟩ := Prod.mk.inj (Option.some.inj (Option.some.inj hn))
          exact h.getNeighbor hnext
        · exact ih hn

/-- The neighbour is entered along the whole of its side, and the crossing coordinate stays. -/
theorem along_of_getNeighbor (h : s.config.WellLinked) (hs : Sized s) {fuel : ℕ} {src : ClientID}
    {p q : ℤ × ℤ} (hn : s.getNeighbor fuel src dir p = some (some (c, q))) :
    dir.Along (s.info c) q ∧ dir.crossing q = dir.crossing p := by
  obtain ⟨r, hr, hrc⟩ := Option.map_eq_some_iff.1 hn
  obtain ⟨⟨c', t⟩, rfl, hct⟩ := Option.map_eq_some_iff.1 hrc
  obtain ⟨rfl, rfl⟩ := Prod.mk.inj hct
  obtain ⟨h₀, h₁⟩ := fraction_of_findNeighbor h hr
  exact ⟨Direction.along_mapToPixel h₀ h₁ (hs c').1 (hs c').2, Direction.crossing_mapToPixel t⟩

/-- The screen that the search ends at, with the position relative to its corner: on the screen
if the cursor does not go beyond it. -/
theorem within_of_searchNeighbor (h : s.config.WellLinked) (hs : Sized s) {fuel : ℕ}
    {last : ScreenInfo} {p q : ℤ × ℤ} (halong : dir.Along (s.info dst) p)
    (hbeyond : if dir.decreasing then dir.crossing p < 0 else dir.extent last ≤ dir.crossing p)
    (hn : s.searchNeighbor dir fuel last dst p = some (c, q))
    (hlands : dir.lands (s.info c) q = true) :
    dir.Along (s.info c) q ∧ 0 ≤ dir.crossing q ∧ dir.crossing q < dir.extent (s.info c) := by
  induction fuel generalizing last dst p with
  | zero => cases hn
  | succ fuel ih =>
    simp only [searchNeighbor] at hn
    have hcross : dir.crossing (dir.cross last (s.info dst) p) =
        if dir.decreasing then dir.crossing p + dir.extent (s.info dst)
        else dir.crossing p - dir.extent last := Direction.crossing_setCrossing
    have halong' : dir.Along (s.info dst) (dir.cross last (s.info dst) p) :=
      Direction.along_setCrossing.2 halong
    -- Whichever way the search ends, the position is on its first screen if it lands there.
    have hhere (hl : dir.lands (s.info dst) (dir.cross last (s.info dst) p) = true) :
        0 ≤ dir.crossing (dir.cross last (s.info dst) p) ∧
          dir.crossing (dir.cross last (s.info dst) p) < dir.extent (s.info dst) := by
      unfold Direction.lands at hl
      split_ifs at hbeyond hcross hl with hdec
      · have := of_decide_eq_true hl
        omega
      · have := of_decide_eq_true hl
        omega
    split_ifs at hn with hl
    · obtain ⟨rfl, rfl⟩ := Prod.mk.inj (Option.some.inj hn)
      exact ⟨halong', hhere hl⟩
    · split at hn
      · cases hn
      · obtain ⟨rfl, rfl⟩ := Prod.mk.inj (Option.some.inj hn)
        exact absurd hlands hl
      · rename_i dst' p' hnext
        obtain ⟨hnext', hsame⟩ := along_of_getNeighbor h hs hnext
        refine ih hnext' ?_ hn
        rw [hsame]
        unfold Direction.lands at hl
        split_ifs at hl ⊢ with hdec
        · exact not_le.1 fun hle => hl (decide_eq_true hle)
        · exact not_lt.1 fun hlt => hl (decide_eq_true hlt)

/-! ### The position found -/

/-- The cursor does not go beyond the last screen on the side, and the primary screen is larger
than its jump zone if the cursor comes to it. -/
def arrives (s : Server) (env : Env) (dir : Direction) (p : ℤ × ℤ) : Bool :=
  match s.getNeighbor env.fuel s.focus.active dir p with
  | some (some (dst, q)) =>
    let i := s.info s.focus.active
    (s.searchNeighbor dir env.fuel i dst
      (dir.setCrossing q (dir.crossing q - dir.origin i))).all fun (c, q) =>
        dir.lands (s.info c) q &&
          (c != primaryClient || env.jumpZoneSize < dir.extent (s.info c))
  | _ => true

/-- The jump zone is left towards the inside of the screen. -/
theorem contains_avoidJumpZone (hzone : 0 ≤ env.jumpZoneSize) {p : ℤ × ℤ}
    (hp : (s.info c).Contains p.1 p.2)
    (hlarge : c = primaryClient → env.jumpZoneSize < dir.extent (s.info c)) :
    (s.info c).Contains (s.avoidJumpZone env c dir p).1 (s.avoidJumpZone env c dir p).2 := by
  unfold avoidJumpZone
  by_cases hc : c = primaryClient
  · have hlarge := hlarge hc
    have hsize : getJumpZoneSize env c = env.jumpZoneSize := if_pos hc
    obtain ⟨halong, hfirst, hlast⟩ := (Direction.contains_iff dir).1 hp
    simp only [hc, ne_eq, not_true_eq_false, if_false] at hsize ⊢
    rw [hc] at hp hlarge halong hfirst hlast
    rw [hsize]
    split_ifs
    · refine (Direction.contains_iff dir).2 ⟨Direction.along_setCrossing.2 halong, ?_⟩
      rw [Direction.crossing_setCrossing]
      omega
    · refine (Direction.contains_iff dir).2 ⟨Direction.along_setCrossing.2 halong, ?_⟩
      rw [Direction.crossing_setCrossing]
      omega
    · exact hp
  · rw [if_pos hc]
    exact hp

/-- **The position found is on the screen found**, if the cursor arrives. -/
theorem contains_of_mapToNeighbor (h : s.config.WellLinked) (hs : Sized s)
    (hzone : 0 ≤ env.jumpZoneSize) {p q : ℤ × ℤ} (hbeyond : dir.Beyond (s.info s.focus.active) p)
    (harrives : s.arrives env dir p = true)
    (hn : s.mapToNeighbor env s.focus.active dir p = some (some (c, q))) :
    (s.info c).Contains q.1 q.2 := by
  unfold mapToNeighbor at hn
  unfold arrives at harrives
  split at hn
  · cases hn
  · cases hn
  · rename_i dst p₁ hnext
    obtain ⟨⟨c', q'⟩, hsearch, hc⟩ := Option.map_eq_some_iff.1 hn
    obtain ⟨rfl, rfl⟩ := Prod.mk.inj (Option.some.inj hc)
    simp only [hnext, hsearch, Option.all_some, Bool.and_eq_true, Bool.or_eq_true, bne_iff_ne,
      ne_eq, decide_eq_true_eq] at harrives
    obtain ⟨halong, hsame⟩ := along_of_getNeighbor h hs hnext
    obtain ⟨halong', hfirst, hlast⟩ := within_of_searchNeighbor h hs
      (Direction.along_setCrossing.2 halong) (by
        rw [Direction.crossing_setCrossing, hsame]
        unfold Direction.Beyond at hbeyond
        split_ifs at hbeyond ⊢ <;> omega) hsearch harrives.1
    refine contains_avoidJumpZone hzone ?_ fun hprimary =>
      harrives.2.resolve_left (not_not.2 hprimary)
    refine (Direction.contains_iff dir).2 ⟨Direction.along_setCrossing.2 halong', ?_⟩
    rw [Direction.crossing_setCrossing]
    omega

/-! ### States with the same screens -/

/-- The same screens are connected, with the same shapes and links. -/
structure SameScreens (s s' : Server) : Prop where
  config : s'.config = s.config
  registry : s'.registry = s.registry
  info : s'.info = s.info

namespace SameScreens

theorem trans {s'' : Server} (h : SameScreens s s') (h' : SameScreens s' s'') :
    SameScreens s s'' :=
  ⟨h'.config.trans h.config, h'.registry.trans h.registry, h'.info.trans h.info⟩

theorem getName (h : SameScreens s s') (c : ClientID) : s'.getName c = s.getName c := by
  simp only [Server.getName, h.config, h.registry]

theorem findNeighbor (h : SameScreens s s') (fuel : ℕ) (srcName : String) (t : ℚ) :
    s'.findNeighbor dir fuel srcName t = s.findNeighbor dir fuel srcName t := by
  induction fuel generalizing srcName t with
  | zero => rfl
  | succ fuel ih => simp only [Server.findNeighbor, h.config, h.registry, ih]

theorem getNeighbor (h : SameScreens s s') (fuel : ℕ) (src : ClientID) (p : ℤ × ℤ) :
    s'.getNeighbor fuel src dir p = s.getNeighbor fuel src dir p := by
  simp only [Server.getNeighbor, h.info, h.getName, h.findNeighbor]

theorem searchNeighbor (h : SameScreens s s') (fuel : ℕ) (last : ScreenInfo) (dst : ClientID)
    (p : ℤ × ℤ) :
    s'.searchNeighbor dir fuel last dst p = s.searchNeighbor dir fuel last dst p := by
  induction fuel generalizing last dst p with
  | zero => rfl
  | succ fuel ih =>
    simp only [Server.searchNeighbor, h.info, h.getNeighbor]
    split_ifs
    · rfl
    · split
      · rfl
      · rfl
      · exact ih _ _ _

/-- The cursor arrives from one if it does from the other. -/
theorem arrives (h : SameScreens s s') (hactive : s'.focus.active = s.focus.active) (env : Env)
    (p : ℤ × ℤ) : s'.arrives env dir p = s.arrives env dir p := by
  simp only [Server.arrives, h.info, h.getNeighbor, h.searchNeighbor, hactive]

end SameScreens

/-! ### Where motions look -/

theorem beyond_of_exitSide {i : ScreenInfo} {x y : ℤ} (h : exitSide i x y = some dir) :
    dir.Beyond i (x, y) := by
  unfold exitSide at h
  split_ifs at h <;> obtain rfl := Option.some.inj h <;>
    simp only [Direction.Beyond, Direction.decreasing, Direction.crossing, Direction.origin,
      Direction.extent, Direction.horizontal, if_true, Bool.false_eq_true, if_false] <;> omega

theorem beyond_of_touchedEdges {i : ScreenInfo} {zone x y : ℤ} {p : ℤ × ℤ}
    (h : (dir, p) ∈ touchedEdges i zone x y) : dir.Beyond i p := by
  have hside {e : Direction × ℤ × ℤ} (he : (dir, p) = e) (hb : e.1.Beyond i e.2) :
      dir.Beyond i p := by
    subst he
    exact hb
  unfold touchedEdges at h
  rw [List.mem_append] at h
  obtain h | h := h <;> split_ifs at h <;> first
    | exact absurd h List.not_mem_nil
    | refine hside (List.mem_singleton.1 h) ?_
      simp only [Direction.Beyond, Direction.decreasing, Direction.crossing, Direction.origin,
        Direction.extent, Direction.horizontal, if_true, Bool.false_eq_true, if_false]
      omega

end Server

end InputLeap
