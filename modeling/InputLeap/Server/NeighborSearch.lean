import InputLeap.LTS.Search
import InputLeap.Maps.Nearest
import InputLeap.Num.Binary
import InputLeap.Server.Basic
import Mathlib.Data.Set.Finite.Lattice
import Mathlib.Data.Set.Finite.List

/-!
# The search for a neighbour that is connected

Screens that are not connected are skipped: the search goes on from the neighbour of the
neighbour, at the position there.  It does not notice when it comes back to a screen.

Positions on an edge are floats.  The functions here take the rounding that each operation is
followed by; without rounding they are the exact ones.  Since there are finitely many floats on
an edge, a search that does not end comes back to a screen and a position it has met.

## Main definitions

* `Server.findNeighborIn`, `Server.getNeighborIn` : the search with rounded positions.
* `Server.look` : what the search makes of a screen and a position on its edge.
* `Server.Skips` : the search goes on from one screen and position to another.
* `Server.Roundabout` : the links lead to a screen and a position, and from there back to it.

## Main results

* `getNeighbor_returns_iff` : the search returns exactly if it does not get into a roundabout.
* `not_getNeighbor_returns` : it can.
-/

namespace InputLeap

variable (round : ℚ → ℚ)

/-! ### Rounded positions -/

namespace CellEdge

/-- From a position on the edge to the fraction of the interval, with rounding. -/
def transformIn (e : CellEdge) (x : ℚ) : ℚ :=
  round (round (x - e.interval.1) / round (e.interval.2 - e.interval.1))

/-- From a fraction of the interval to a position on the edge, with rounding. -/
def inverseTransformIn (e : CellEdge) (x : ℚ) : ℚ :=
  round (round (x * round (e.interval.2 - e.interval.1)) + e.interval.1)

end CellEdge

/-- The neighbour of a screen and the position on it, with rounding. -/
def Config.getNeighborIn (cfg : Config) (srcName : String) (srcSide : Direction) (position : ℚ) :
    Option (String × ℚ) :=
  match cfg.map[cfg.getCanonicalName srcName]? with
  | none => none
  | some cell =>
    match cell.getLink srcSide position with
    | none => none
    | some (src, dst) =>
      some (cfg.getCanonicalName dst.name,
        dst.inverseTransformIn round (src.transformIn round position))

theorem Config.getNeighborIn_id (cfg : Config) (srcName : String) (srcSide : Direction)
    (position : ℚ) :
    cfg.getNeighborIn id srcName srcSide position = cfg.getNeighbor srcName srcSide position :=
  rfl

/-- The position along the side as a fraction of its length, with rounding. -/
def mapToFractionIn (i : ScreenInfo) (dir : Direction) (p : ℤ × ℤ) : ℚ :=
  if dir.horizontal then round (round (round (p.2 - i.y : ℤ) + 1 / 2) / round i.h)
  else round (round (round (p.1 - i.x : ℤ) + 1 / 2) / round i.w)

/-- The pixel at a fraction of the length of the side, with rounding. -/
def mapToPixelIn (i : ScreenInfo) (dir : Direction) (f : ℚ) (p : ℤ × ℤ) : ℤ × ℤ :=
  if dir.horizontal then (p.1, truncate (round (f * round i.h)) + i.y)
  else (truncate (round (f * round i.w)) + i.x, p.2)

theorem mapToFractionIn_id (i : ScreenInfo) (dir : Direction) (p : ℤ × ℤ) :
    mapToFractionIn id i dir p = mapToFraction i dir p := by
  simp only [mapToFractionIn, mapToFraction, id_eq, Int.cast_sub]

theorem mapToPixelIn_id (i : ScreenInfo) (dir : Direction) (f : ℚ) (p : ℤ × ℤ) :
    mapToPixelIn id i dir f p = mapToPixel i dir f p := rfl

namespace Server

variable (s : Server) (dir : Direction)

/-- The closest connected neighbour of a screen and the position on its edge, with rounding. -/
def findNeighborIn : ℕ → String → ℚ → Option (Option (ClientID × ℚ))
  | 0, _, _ => none
  | fuel + 1, srcName, t =>
    match s.config.getNeighborIn round srcName dir t with
    | none => some none
    | some (dstName, t') =>
      if dstName = "" then some none
      else
        match s.registry.clients[dstName]? with
        | some c => some (some (c, t'))
        | none => findNeighborIn fuel dstName t'

/-- The closest connected neighbour and the pixel on its edge, with rounding. -/
def getNeighborIn (fuel : ℕ) (src : ClientID) (p : ℤ × ℤ) : Option (Option (ClientID × ℤ × ℤ)) :=
  (s.findNeighborIn round dir fuel (s.getName src)
    (mapToFractionIn round (s.info src) dir p)).map fun r =>
      r.map fun (c, t) => (c, mapToPixelIn round (s.info c) dir t p)

/-- One round of the loop: the next screen and the position on its edge, or the result. -/
def look (spot : String × ℚ) : (String × ℚ) ⊕ Option (ClientID × ℚ) :=
  match s.config.getNeighborIn round spot.1 dir spot.2 with
  | none => .inr none
  | some (dstName, t) =>
    if dstName = "" then .inr none
    else
      match s.registry.clients[dstName]? with
      | some c => .inr (some (c, t))
      | none => .inl (dstName, t)

/-- The link from a position on the edge of a screen leads to a screen that is not connected, and
to this position on its edge. -/
def Skips (spot next : String × ℚ) : Prop :=
  s.config.getNeighborIn round spot.1 dir spot.2 = some next ∧ next.1 ≠ "" ∧
    s.registry.clients[next.1]? = none

/-- From a position on the edge of a screen, links to screens that are not connected lead to some
screen and position, and from there back to the same screen and position. -/
def Roundabout (spot : String × ℚ) : Prop :=
  ∃ spot', Relation.ReflTransGen (s.Skips round dir) spot spot' ∧
    Relation.TransGen (s.Skips round dir) spot' spot'

variable {round s dir} {spot next : String × ℚ} {srcName : String} {t : ℚ}

theorem findNeighborIn_eq_run (round : ℚ → ℚ) (s : Server) (dir : Direction) (fuel : ℕ)
    (spot : String × ℚ) :
    s.findNeighborIn round dir fuel spot.1 spot.2 = Search.run (s.look round dir) fuel spot := by
  induction fuel generalizing spot with
  | zero => rfl
  | succ fuel ih =>
    simp only [findNeighborIn, Search.run, look]
    cases s.config.getNeighborIn round spot.1 dir spot.2 with
    | none => rfl
    | some next =>
      by_cases hname : next.1 = ""
      · simp only [hname, if_true]
      · simp only [hname, if_false]
        cases s.registry.clients[next.1]? with
        | some c => rfl
        | none => exact ih next

/-- Without rounding the search is the exact one. -/
theorem findNeighborIn_id (s : Server) (dir : Direction) (fuel : ℕ) (srcName : String) (t : ℚ) :
    s.findNeighborIn id dir fuel srcName t = s.findNeighbor dir fuel srcName t := by
  induction fuel generalizing srcName t with
  | zero => rfl
  | succ fuel ih =>
    rw [findNeighborIn, findNeighbor, Config.getNeighborIn_id]
    cases s.config.getNeighbor srcName dir t with
    | none => rfl
    | some next =>
      by_cases hname : next.1 = ""
      · simp only [hname, if_true]
      · simp only [hname, if_false]
        cases s.registry.clients[next.1]? with
        | some c => rfl
        | none => exact ih next.1 next.2

theorem getNeighborIn_id (s : Server) (dir : Direction) (fuel : ℕ) (src : ClientID)
    (p : ℤ × ℤ) : s.getNeighborIn id dir fuel src p = s.getNeighbor fuel src dir p := by
  simp only [getNeighborIn, getNeighbor, findNeighborIn_id, mapToFractionIn_id, mapToPixelIn_id]

theorem mem_of_findNeighborIn {fuel : ℕ} {t' : ℚ} {c : ClientID}
    (h : s.findNeighborIn round dir fuel srcName t = some (some (c, t'))) :
    s.registry.Registered c := by
  induction fuel generalizing srcName t with
  | zero => cases h
  | succ fuel ih =>
    simp only [findNeighborIn] at h
    split at h
    · simp at h
    · rename_i dstName t₁ _
      by_cases hempty : dstName = ""
      · simp [hempty] at h
      · rw [if_neg hempty] at h
        split at h
        · rename_i c' hc'
          simp only [Option.some.injEq, Prod.mk.injEq] at h
          exact ⟨dstName, by rw [hc', h.1]⟩
        · exact ih h

/-- The screen that is found is connected. -/
theorem mem_of_getNeighborIn {fuel : ℕ} {src c : ClientID} {p q : ℤ × ℤ}
    (h : s.getNeighborIn round dir fuel src p = some (some (c, q))) : s.registry.Registered c := by
  obtain ⟨r, hr, hrc⟩ := Option.map_eq_some_iff.1 h
  obtain ⟨⟨c', t⟩, rfl, hct⟩ := Option.map_eq_some_iff.1 hrc
  obtain ⟨rfl, -⟩ := Prod.mk.inj hct
  exact mem_of_findNeighborIn hr

/-- The search goes on from a screen that is not connected. -/
theorem goesOn_iff : Search.GoesOn (s.look round dir) spot next ↔ s.Skips round dir spot next := by
  unfold Search.GoesOn Skips look
  cases s.config.getNeighborIn round spot.1 dir spot.2 with
  | none => simp
  | some dst =>
    by_cases hname : dst.1 = ""
    · simp only [hname, if_true, reduceCtorEq, Option.some.injEq, false_iff]
      rintro ⟨rfl, hne, -⟩
      exact hne hname
    · simp only [hname, if_false]
      cases hc : s.registry.clients[dst.1]? with
      | some c =>
        simp only [reduceCtorEq, Option.some.injEq, false_iff]
        rintro ⟨rfl, -, hnone⟩
        rw [hc] at hnone
        cases hnone
      | none =>
        simp only [Sum.inl.injEq, Prod.mk.eta, Option.some.injEq]
        constructor
        · rintro rfl
          exact ⟨rfl, hname, hc⟩
        · rintro ⟨rfl, -, -⟩
          rfl

/-! ### The positions a search can meet -/

/-- A position inside the interval is a fraction between zero and one, also after rounding. -/
theorem transformIn_mem {f : BinaryFormat} {e : CellEdge} {x : ℚ} (h : e.isInside x = true) :
    f.IsNumber (e.transformIn f.round x) ∧ 0 ≤ e.transformIn f.round x ∧
      e.transformIn f.round x ≤ f.round 1 := by
  simp only [CellEdge.isInside, Bool.and_eq_true, decide_eq_true_eq] at h
  -- Rounding is monotone and keeps zero, so that it keeps the position inside the interval.
  have hstart : 0 ≤ f.round (x - e.interval.1) :=
    BinaryFormat.round_nonneg (sub_nonneg.2 h.1)
  have hle : f.round (x - e.interval.1) ≤ f.round (e.interval.2 - e.interval.1) :=
    BinaryFormat.round_mono (sub_le_sub_right h.2.le _)
  have hlength := hstart.trans hle
  refine ⟨BinaryFormat.isNumber_round _, ?_, ?_⟩
  · exact BinaryFormat.round_nonneg (div_nonneg hstart hlength)
  · exact BinaryFormat.round_mono (div_le_one_of_le₀ hle hlength)

/-- The screens and positions that the links of a configuration lead to. -/
def landings (f : BinaryFormat) (cfg : Config) : Set (String × ℚ) :=
  ⋃ cell ∈ cfg.map.toList, ⋃ link ∈ cell.2.neighbors.toList,
    (fun u => (cfg.getCanonicalName link.2.name, link.2.inverseTransformIn f.round u)) ''
      {u | f.IsNumber u ∧ 0 ≤ u ∧ u ≤ f.round 1}

/-- Links lead to finitely many positions. -/
theorem finite_landings (f : BinaryFormat) (cfg : Config) : (landings f cfg).Finite := by
  refine Set.Finite.biUnion cfg.map.toList.finite_toSet fun cell _ => ?_
  refine Set.Finite.biUnion cell.2.neighbors.toList.finite_toSet fun link _ => ?_
  exact (f.finite_isNumber 0 (f.round 1)).image _

theorem mem_landings {f : BinaryFormat} {cfg : Config}
    (h : cfg.getNeighborIn f.round srcName dir t = some next) : next ∈ landings f cfg := by
  unfold Config.getNeighborIn at h
  split at h
  · cases h
  · rename_i cell hcell
    split at h
    · cases h
    · rename_i src dst hlink
      cases h
      unfold Cell.getLink at hlink
      split at hlink
      · rename_i src' dst' hentry
        split_ifs at hlink with hin
        obtain ⟨rfl, rfl⟩ := Prod.mk.inj (Option.some.inj hlink)
        obtain ⟨key, -, hmem⟩ :=
          Std.TreeMap.getElem?_eq_some_iff_exists_compare_eq_eq_and_mem_toList.1 hcell
        obtain ⟨hsrc, -, -⟩ := MapEntry.getEntryLE?_eq_some_iff.1 hentry
        refine Set.mem_biUnion hmem ?_
        refine Set.mem_biUnion (MapEntry.mem_toList_iff.2 hsrc) ?_
        exact ⟨_, transformIn_mem hin.2, rfl⟩
      · cases hlink

/-- The search ends exactly if it does not get into a roundabout. -/
theorem exists_findNeighborIn_iff (f : BinaryFormat) :
    (∃ fuel r, s.findNeighborIn f.round dir fuel srcName t = some r) ↔
      ¬s.Roundabout f.round dir (srcName, t) := by
  have hrun (fuel : ℕ) : s.findNeighborIn f.round dir fuel srcName t =
      Search.run (s.look f.round dir) fuel (srcName, t) :=
    findNeighborIn_eq_run f.round s dir fuel (srcName, t)
  have hgoes : Search.GoesOn (s.look f.round dir) = s.Skips f.round dir := by
    funext spot next
    exact propext goesOn_iff
  simp only [hrun]
  -- A search goes on only to one of the finitely many positions that links lead to.
  rw [Search.exists_run_iff_not_cycle (finite_landings f s.config)
    fun spot next h => mem_landings (goesOn_iff.1 h).1, hgoes]
  rfl

/-- **The search for a neighbour returns** a connected screen or none, exactly if the links from
the position do not lead into a roundabout of screens that are not connected. -/
theorem getNeighbor_returns_iff (s : Server) (src : ClientID) (dir : Direction) (p : ℤ × ℤ) :
    (∃ fuel r, s.getNeighborIn BinaryFormat.float.round dir fuel src p = some r ∧
      ∀ c q, r = some (c, q) → s.registry.Registered c) ↔
      ¬s.Roundabout BinaryFormat.float.round dir
        (s.getName src, mapToFractionIn BinaryFormat.float.round (s.info src) dir p) := by
  rw [← exists_findNeighborIn_iff]
  constructor
  · rintro ⟨fuel, r, hr, -⟩
    obtain ⟨r', hr', -⟩ := Option.map_eq_some_iff.1 hr
    exact ⟨fuel, r', hr'⟩
  · rintro ⟨fuel, r, hr⟩
    have hget : s.getNeighborIn BinaryFormat.float.round dir fuel src p =
        some (r.map fun n =>
          (n.1, mapToPixelIn BinaryFormat.float.round (s.info n.1) dir n.2 p)) := by
      rw [getNeighborIn, hr]
      rfl
    exact ⟨fuel, _, hget, fun c q hc => mem_of_getNeighborIn (hget.trans (congrArg some hc))⟩

/-- To the right of `p` is `b`, and to the right of `b` is `b` itself. -/
def circling : Config :=
  (((({} : Config).addScreen "p").bind (·.addScreen "b")).bind
    (·.connect "p" .right (0, 1) "b" (0, 1))).bind
    (·.connect "b" .right (0, 1) "b" (0, 1)) |>.getD {}

/-- While `b` is not connected, the search on the right of `p` does not return. -/
theorem not_getNeighbor_returns :
    ¬∀ (s : Server) (src : ClientID) (dir : Direction) (p : ℤ × ℤ), lts.Reachable s →
      src ∈ s.registry.clientSet → ∃ fuel r,
        s.getNeighborIn BinaryFormat.float.round dir fuel src p = some r ∧
          ∀ c q, r = some (c, q) → s.registry.Registered c := by
  intro h
  have hrun : (run {} circling ⟨"p", true⟩ ⟨0, 0, 100, 128, 50, 50⟩ false []).map (fun s =>
      decide (primaryClient ∈ s.registry.clientSet ∧ s.registry.clients["b"]? = none ∧
        s.config.getNeighborIn BinaryFormat.float.round (s.getName primaryClient) .right
          (mapToFractionIn BinaryFormat.float.round (s.info primaryClient) .right (100, 50)) =
            some ("b", 101 / 256) ∧
        s.config.getNeighborIn BinaryFormat.float.round "b" .right (101 / 256) =
          some ("b", 101 / 256))) = some true := by
    decide +kernel
  obtain ⟨s, hs, hlinks⟩ := Option.map_eq_some_iff.1 hrun
  obtain ⟨hprimary, habsent, hfirst, hnext⟩ := of_decide_eq_true hlinks
  have hname : "b" ≠ "" := by decide
  obtain ⟨fuel, r, hr, -⟩ := h s primaryClient .right (100, 50) (reachable_of_run hs) hprimary
  obtain ⟨r', hr', -⟩ := Option.map_eq_some_iff.1 hr
  refine (exists_findNeighborIn_iff BinaryFormat.float).1 ⟨fuel, r', hr'⟩ ?_
  exact ⟨("b", 101 / 256), .single ⟨hfirst, hname, habsent⟩, .single ⟨hnext, hname, habsent⟩⟩

end Server

end InputLeap
