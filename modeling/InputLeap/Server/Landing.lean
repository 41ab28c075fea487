import InputLeap.Server.Crossing
import InputLeap.Server.NeighborSearch

/-!
# Positions past the last screen

The screens on one side of a screen stand in a row.  A position past that side falls on one of
them or lies past them all; then `mapToNeighbor` gives the last screen with a position that is not
on it.  On the primary screen the position is moved out of the jump zone, which may be larger than
the screen.

## Main definitions

* `Server.Hop` : the neighbour of a screen from a position along its side.
* `Server.Row` : the screens on the side of a screen, with where each one begins.
* `Direction.overshoot` : how far a position lies past the side.
* `Server.FallsOn` : the position falls on a screen of the row that has room for it.

## Main results

* `searchNeighbor_spec` : the search ends at the screen that the position falls on, or at the last.
* `contains_mapToNeighbor_iff` : the position found is on the screen found exactly if it falls on
  a screen.
-/

namespace InputLeap

namespace Direction

variable (d : Direction)

/-- The coordinate along the side. -/
def coord (p : ℤ × ℤ) : ℤ := if d.horizontal then p.2 else p.1

/-- A position with this coordinate along the side. -/
def place (v : ℤ) : ℤ × ℤ := if d.horizontal then (0, v) else (v, 0)

/-- How far the position lies past the side of the screen; 0 is next to it. -/
def overshoot (i : ScreenInfo) (p : ℤ × ℤ) : ℤ :=
  if d.decreasing then d.origin i - 1 - d.crossing p
  else d.crossing p - (d.origin i + d.extent i)

variable {d} {i : ScreenInfo} {p : ℤ × ℤ} {v : ℤ}

@[simp] theorem coord_place : d.coord (d.place v) = v := by
  unfold coord place
  split_ifs <;> rfl

@[simp] theorem coord_setCrossing : d.coord (d.setCrossing p v) = d.coord p := by
  unfold coord setCrossing
  split_ifs <;> rfl

theorem along_place_coord : d.Along i (d.place (d.coord p)) ↔ d.Along i p := by
  unfold Along place coord
  split_ifs <;> rfl

theorem mapToFraction_place_coord : mapToFraction i d (d.place (d.coord p)) =
    mapToFraction i d p := by
  unfold mapToFraction place coord
  split_ifs <;> rfl

theorem coord_mapToPixel (f : ℚ) (p q : ℤ × ℤ) :
    d.coord (mapToPixel i d f p) = d.coord (mapToPixel i d f q) := by
  unfold coord mapToPixel
  split_ifs <;> rfl

theorem extent_pos (h : 0 < i.w ∧ 0 < i.h) : 0 < d.extent i := by
  unfold extent
  split_ifs
  · exact h.1
  · exact h.2

end Direction

namespace Server

variable (s : Server) (dir : Direction)

/-- On the side of the screen `c`, from the coordinate `v` along it, is the connected screen `c'`;
the cursor comes to it at `v'`. -/
def Hop (c : ClientID) (v : ℤ) (c' : ClientID) (v' : ℤ) : Prop :=
  ∃ fuel p', s.getNeighbor fuel c dir (dir.place v) = some (some (c', p')) ∧ dir.coord p' = v'

/-- The screens on the side of `src`, from the coordinate `v`: the one after `k` others is `c`.  It
is entered at `w`, and the others together have the size `n`. -/
inductive Row (src : ClientID) (v : ℤ) : ℕ → ℤ → ClientID → ℤ → Prop
  | first {c : ClientID} {w : ℤ} (h : s.Hop dir src v c w) : Row src v 0 0 c w
  | next {k : ℕ} {n w w' : ℤ} {c c' : ClientID} (hr : Row src v k n c w)
      (h : s.Hop dir c w c' w') : Row src v (k + 1) (n + dir.extent (s.info c)) c' w'

/-- The side where the screen is entered has a neighbour there. -/
def neighborBack (c : ClientID) (w : ℤ) : Bool :=
  (s.config.getNeighbor (s.getName c) dir.opposite
    (mapToFraction (s.info c) dir (dir.place w))).any fun (name, _) => name != ""

/-- The position, which is past the side of `src`, falls on a screen of the row.  If that is the
primary screen, with a neighbour back, it is larger than its jump zone. -/
def FallsOn (env : Env) (src : ClientID) (p : ℤ × ℤ) : Prop :=
  ∃ k n c w, s.Row dir src (dir.coord p) k n c w ∧ n ≤ dir.overshoot (s.info src) p ∧
    dir.overshoot (s.info src) p < n + dir.extent (s.info c) ∧
    (c = primaryClient → s.neighborBack dir c w = true →
      env.jumpZoneSize < dir.extent (s.info c))

variable {s dir} {env : Env} {src c c' dst : ClientID} {v w w' n n' : ℤ} {k k' : ℕ}
  {p q : ℤ × ℤ}

/-! ### One hop -/

theorem findNeighbor_unique {fuel fuel' : ℕ} {srcName : String} {t : ℚ}
    {r r' : Option (ClientID × ℚ)} (h : s.findNeighbor dir fuel srcName t = some r)
    (h' : s.findNeighbor dir fuel' srcName t = some r') : r = r' := by
  have hrun := findNeighborIn_eq_run id s dir fuel (srcName, t)
  have hrun' := findNeighborIn_eq_run id s dir fuel' (srcName, t)
  rw [findNeighborIn_id] at hrun hrun'
  exact Search.run_unique (hrun.symm.trans h) (hrun'.symm.trans h')

/-- The crossing coordinate does not matter for the neighbour. -/
theorem getNeighbor_of_hop (h : s.Hop dir c (dir.coord p) c' w) {fuel : ℕ}
    {r : Option (ClientID × ℤ × ℤ)} (hn : s.getNeighbor fuel c dir p = some r) :
    ∃ q, r = some (c', q) ∧ dir.coord q = w := by
  obtain ⟨fuel', p', hn', rfl⟩ := h
  obtain ⟨r', hr', hc'⟩ := Option.map_eq_some_iff.1 hn'
  obtain ⟨⟨c'', t⟩, rfl, hct⟩ := Option.map_eq_some_iff.1 hc'
  obtain ⟨rfl, rfl⟩ := Prod.mk.inj hct
  rw [Direction.mapToFraction_place_coord] at hr'
  obtain ⟨r'', hr'', rfl⟩ := Option.map_eq_some_iff.1 hn
  obtain rfl := findNeighbor_unique hr' hr''
  exact ⟨_, rfl, Direction.coord_mapToPixel t _ _⟩

theorem hop_of_getNeighbor {fuel : ℕ} (hn : s.getNeighbor fuel c dir p = some (some (c', q))) :
    s.Hop dir c (dir.coord p) c' (dir.coord q) ∧ dir.crossing q = dir.crossing p := by
  obtain ⟨r, hr, hrc⟩ := Option.map_eq_some_iff.1 hn
  obtain ⟨⟨c'', t⟩, rfl, hct⟩ := Option.map_eq_some_iff.1 hrc
  obtain ⟨rfl, rfl⟩ := Prod.mk.inj hct
  refine ⟨⟨fuel, _, ?_, Direction.coord_mapToPixel t (dir.place (dir.coord p)) p⟩,
    Direction.crossing_mapToPixel t⟩
  rw [getNeighbor, Direction.mapToFraction_place_coord, hr]
  rfl

theorem Hop.unique (h : s.Hop dir c v c' w) {d : ClientID} (h' : s.Hop dir c v d w') :
    c' = d ∧ w = w' := by
  obtain ⟨fuel, p', hn, rfl⟩ := h'
  have hv : dir.coord (dir.place v) = v := Direction.coord_place
  rw [← hv] at h
  obtain ⟨q, hq, rfl⟩ := getNeighbor_of_hop h hn
  obtain ⟨rfl, rfl⟩ := Prod.mk.inj (Option.some.inj hq)
  exact ⟨rfl, rfl⟩

/-- The screen is connected, and it is entered along the whole of its side. -/
theorem Hop.along (h : s.Hop dir c v c' w) (hl : s.config.WellLinked)
    (hs : ∀ c, s.registry.Registered c → 0 < (s.info c).w ∧ 0 < (s.info c).h) :
    s.registry.Registered c' ∧ dir.Along (s.info c') (dir.place w) := by
  obtain ⟨fuel, p', hn, rfl⟩ := h
  have hreg := mem_of_getNeighbor hn
  obtain ⟨r, hr, hrc⟩ := Option.map_eq_some_iff.1 hn
  obtain ⟨⟨c'', t⟩, rfl, hct⟩ := Option.map_eq_some_iff.1 hrc
  obtain ⟨rfl, rfl⟩ := Prod.mk.inj hct
  obtain ⟨h₀, h₁⟩ := fraction_of_findNeighbor hl hr
  obtain ⟨hw, hh⟩ := hs c'' hreg
  exact ⟨hreg, Direction.along_place_coord.2 (Direction.along_mapToPixel h₀ h₁ hw hh)⟩

/-! ### The row -/

/-- The screen after `k` others is one screen, and begins at one place. -/
theorem Row.unique (h : s.Row dir src v k n c w) (h' : s.Row dir src v k n' c' w') :
    n = n' ∧ c = c' ∧ w = w' := by
  induction h generalizing n' c' w' with
  | first h =>
    cases h' with
    | first h' =>
      obtain ⟨rfl, rfl⟩ := h.unique h'
      exact ⟨rfl, rfl, rfl⟩
  | next _ h ih =>
    cases h' with
    | next hr' h' =>
      obtain ⟨rfl, rfl, rfl⟩ := ih hr'
      obtain ⟨rfl, rfl⟩ := h.unique h'
      exact ⟨rfl, rfl, rfl⟩

/-- A screen further on comes after the end of this one, which has a neighbour. -/
theorem Row.after (hs : ∀ c, s.registry.Registered c → 0 < (s.info c).w ∧ 0 < (s.info c).h)
    (hl : s.config.WellLinked) (h : s.Row dir src v k n c w)
    (h' : s.Row dir src v k' n' c' w') (hlt : k < k') :
    n + dir.extent (s.info c) ≤ n' ∧ ∃ d u, s.Hop dir c w d u := by
  induction h' with
  | first _ => cases hlt
  | next hr' h' ih =>
    rcases Nat.lt_succ_iff_lt_or_eq.1 hlt with hlt | rfl
    · obtain ⟨hle, hhop⟩ := ih hlt
      refine ⟨?_, hhop⟩
      have hpos : 0 < dir.extent (s.info _) := Direction.extent_pos (hs _ (by
        cases hr' with
        | first h => exact (h.along hl hs).1
        | next _ h => exact (h.along hl hs).1))
      exact hle.trans (le_add_of_nonneg_right hpos.le)
    · obtain ⟨rfl, rfl, rfl⟩ := h.unique hr'
      exact ⟨le_rfl, _, _, h'⟩

theorem Row.along (h : s.Row dir src v k n c w) (hl : s.config.WellLinked)
    (hs : ∀ c, s.registry.Registered c → 0 < (s.info c).w ∧ 0 < (s.info c).h) :
    s.registry.Registered c ∧ dir.Along (s.info c) (dir.place w) := by
  cases h with
  | first h => exact h.along hl hs
  | next _ h => exact h.along hl hs

/-! ### The search -/

/-- **The search** ends at the screen of the row that a position `o` past the side falls on, or at
the last screen. -/
theorem searchNeighbor_spec {fuel : ℕ} {last : ScreenInfo} {o : ℤ}
    (hrow : s.Row dir src v k n dst (dir.coord p)) (hstart : n ≤ o)
    (hp : dir.crossing p = if dir.decreasing then n - 1 - o else o - n + dir.extent last)
    (h : s.searchNeighbor dir fuel last dst p = some (c, q)) :
    ∃ k' n', s.Row dir src v k' n' c (dir.coord q) ∧ n' ≤ o ∧
      dir.crossing q = (if dir.decreasing then n' + dir.extent (s.info c) - 1 - o else o - n') ∧
      (o < n' + dir.extent (s.info c) ∨ ∀ d u, ¬s.Hop dir c (dir.coord q) d u) := by
  induction fuel generalizing last dst p k n with
  | zero => cases h
  | succ fuel ih =>
    simp only [searchNeighbor] at h
    set p₁ := dir.cross last (s.info dst) p with hp₁
    have hcoord : dir.coord p₁ = dir.coord p := Direction.coord_setCrossing
    have hcross : dir.crossing p₁ =
        if dir.decreasing then n + dir.extent (s.info dst) - 1 - o else o - n := by
      have hset : dir.crossing p₁ = if dir.decreasing then dir.crossing p + dir.extent (s.info dst)
          else dir.crossing p - dir.extent last := Direction.crossing_setCrossing
      rw [hset]
      split_ifs at hp ⊢ <;> omega
    have hlands : dir.lands (s.info dst) p₁ = true ↔ o < n + dir.extent (s.info dst) := by
      unfold Direction.lands
      split_ifs at hcross ⊢ <;> rw [decide_eq_true_eq] <;> omega
    rw [← hcoord] at hrow
    split_ifs at h with hl
    · obtain ⟨rfl, rfl⟩ := Prod.mk.inj (Option.some.inj h)
      exact ⟨k, n, hrow, hstart, hcross, .inl (hlands.1 hl)⟩
    · split at h
      · cases h
      · rename_i hnone
        obtain ⟨rfl, rfl⟩ := Prod.mk.inj (Option.some.inj h)
        refine ⟨k, n, hrow, hstart, hcross, .inr fun d u hhop => ?_⟩
        obtain ⟨_, hsome, -⟩ := getNeighbor_of_hop hhop hnone
        cases hsome
      · rename_i dst' p' hnext
        obtain ⟨hhop, hsame⟩ := hop_of_getNeighbor hnext
        refine ih (hrow.next hhop) (not_lt.1 fun hlt => hl (hlands.2 hlt)) ?_ h
        rw [hsame, hcross]
        split_ifs <;> omega

/-! ### The position found -/

theorem coord_avoidJumpZone : dir.coord (s.avoidJumpZone env c dir p) = dir.coord p := by
  unfold avoidJumpZone
  dsimp only
  split_ifs <;> first | rfl | exact Direction.coord_setCrossing

/-- What leaving the jump zone makes of the crossing coordinate. -/
theorem crossing_avoidJumpZone : dir.crossing (s.avoidJumpZone env c dir p) =
    if c = primaryClient ∧ s.neighborBack dir c (dir.coord p) = true then
      if dir.decreasing then
        min (dir.crossing p) (dir.origin (s.info c) + dir.extent (s.info c) - 1 - env.jumpZoneSize)
      else max (dir.crossing p) (dir.origin (s.info c) + env.jumpZoneSize)
    else dir.crossing p := by
  have hback : s.neighborBack dir c (dir.coord p) = ((s.config.getNeighbor (s.getName c)
      dir.opposite (mapToFraction (s.info c) dir p)).any fun (name, _) => name != "") := by
    rw [neighborBack, Direction.mapToFraction_place_coord]
  unfold avoidJumpZone
  by_cases hc : c = primaryClient
  · have hsize : getJumpZoneSize env c = env.jumpZoneSize := if_pos hc
    simp only [hc, ne_eq, not_true_eq_false, if_false, true_and] at hsize hback ⊢
    rw [hback, hsize]
    cases (s.config.getNeighbor (s.getName primaryClient) dir.opposite
      (mapToFraction (s.info primaryClient) dir p)).any fun (name, _) => name != "" with
    | false => simp
    | true =>
      cases hdec : dir.decreasing
      · simp only [Bool.true_and, Bool.false_eq_true, Bool.false_and, if_false, Bool.not_false,
          decide_eq_true_eq, if_true]
        split_ifs with hlt
        · rw [Direction.crossing_setCrossing]
          omega
        · omega
      · simp only [Bool.true_and, Bool.not_true, Bool.false_and, Bool.false_eq_true, if_false,
          decide_eq_true_eq, if_true]
        split_ifs with hlt
        · rw [Direction.crossing_setCrossing]
          omega
        · omega
  · rw [if_pos hc, if_neg fun h => hc h.1]

/-- A position that is not past the far side stays on the screen exactly if it is there and the
screen is larger than the jump zone that it is moved out of. -/
theorem contains_avoidJumpZone_iff (halong : dir.Along (s.info c) (dir.place (dir.coord p)))
    (hside : if dir.decreasing then dir.crossing p < dir.origin (s.info c) + dir.extent (s.info c)
      else dir.origin (s.info c) ≤ dir.crossing p) :
    (s.info c).Contains (s.avoidJumpZone env c dir p).1 (s.avoidJumpZone env c dir p).2 ↔
      (dir.origin (s.info c) ≤ dir.crossing p ∧
        dir.crossing p < dir.origin (s.info c) + dir.extent (s.info c)) ∧
      (c = primaryClient → s.neighborBack dir c (dir.coord p) = true →
        env.jumpZoneSize < dir.extent (s.info c)) := by
  rw [Direction.contains_iff dir, ← Direction.along_place_coord, coord_avoidJumpZone,
    crossing_avoidJumpZone, and_iff_right halong]
  by_cases hback : c = primaryClient ∧ s.neighborBack dir c (dir.coord p) = true
  · have hroom : (c = primaryClient → s.neighborBack dir c (dir.coord p) = true →
        env.jumpZoneSize < dir.extent (s.info c)) ↔
        env.jumpZoneSize < dir.extent (s.info c) :=
      ⟨fun h => h hback.1 hback.2, fun h _ _ => h⟩
    rw [if_pos hback, hroom]
    split_ifs at hside ⊢ <;> omega
  · rw [if_neg hback, and_iff_left fun hc hb => absurd ⟨hc, hb⟩ hback]

/-- **The position found is on the screen found** exactly if it falls on a screen, which has room
for it. -/
theorem contains_mapToNeighbor_iff (hl : s.config.WellLinked)
    (hs : ∀ c, s.registry.Registered c → 0 < (s.info c).w ∧ 0 < (s.info c).h)
    (hbeyond : dir.Beyond (s.info src) p)
    (hn : s.mapToNeighbor env src dir p = some (some (c, q))) :
    (s.info c).Contains q.1 q.2 ↔ s.FallsOn dir env src p := by
  set o := dir.overshoot (s.info src) p with ho
  have hpast : 0 ≤ o := by
    unfold Direction.Beyond at hbeyond
    rw [ho]
    unfold Direction.overshoot
    split_ifs at hbeyond ⊢ <;> omega
  unfold mapToNeighbor at hn
  split at hn
  · cases hn
  · cases hn
  · rename_i dst p₁ hnext
    obtain ⟨⟨c', q'⟩, hsearch, hc⟩ := Option.map_eq_some_iff.1 hn
    obtain ⟨rfl, rfl⟩ := Prod.mk.inj (Option.some.inj hc)
    obtain ⟨hhop, hsame⟩ := hop_of_getNeighbor hnext
    have hcoord : dir.coord (dir.setCrossing p₁ (dir.crossing p₁ - dir.origin (s.info src))) =
        dir.coord p₁ := Direction.coord_setCrossing
    have hfirst : s.Hop dir src (dir.coord p) dst (dir.coord (dir.setCrossing p₁
        (dir.crossing p₁ - dir.origin (s.info src)))) := by
      rw [hcoord]
      exact hhop
    obtain ⟨k, n, hrow, hstart, hcross, hend⟩ := searchNeighbor_spec (.first hfirst) hpast (by
        rw [Direction.crossing_setCrossing, hsame, ho]
        unfold Direction.overshoot
        split_ifs <;> omega) hsearch
    obtain ⟨-, halong⟩ := hrow.along hl hs
    set q₁ := dir.setCrossing q' (dir.crossing q' + dir.origin (s.info c')) with hq₁
    have hq₁coord : dir.coord q₁ = dir.coord q' := Direction.coord_setCrossing
    have hq₁cross : dir.crossing q₁ = dir.crossing q' + dir.origin (s.info c') :=
      Direction.crossing_setCrossing
    have hinside : (s.info c').Contains (s.avoidJumpZone env c' dir q₁).1
        (s.avoidJumpZone env c' dir q₁).2 ↔ o < n + dir.extent (s.info c') ∧
          (c' = primaryClient → s.neighborBack dir c' (dir.coord q') = true →
            env.jumpZoneSize < dir.extent (s.info c')) := by
      rw [← hq₁coord] at halong ⊢
      have hside : if dir.decreasing then
          dir.crossing q₁ < dir.origin (s.info c') + dir.extent (s.info c')
          else dir.origin (s.info c') ≤ dir.crossing q₁ := by
        rw [hq₁cross, hcross]
        split_ifs <;> omega
      rw [contains_avoidJumpZone_iff halong hside, hq₁cross, hcross]
      refine and_congr_left fun _ => ?_
      split_ifs <;> omega
    rw [hinside]
    constructor
    · rintro ⟨hlt, hroom⟩
      exact ⟨k, n, c', dir.coord q', hrow, hstart, hlt, hroom⟩
    · rintro ⟨k', n', d, u, hrow', hstart', hlt', hroom'⟩
      -- It is the screen where the search ended: the row does not go on there, or not so early.
      have hk : k = k' := by
        rcases Nat.lt_trichotomy k k' with hlt | heq | hlt
        · obtain ⟨hle, hmore⟩ := hrow.after hs hl hrow' hlt
          rcases hend with hend | hend
          · omega
          · obtain ⟨d', u', hhop'⟩ := hmore
            exact absurd hhop' (hend d' u')
        · exact heq
        · obtain ⟨hle, -⟩ := hrow'.after hs hl hrow hlt
          omega
      subst hk
      obtain ⟨rfl, rfl, rfl⟩ := hrow.unique hrow'
      exact ⟨hlt', hroom'⟩

/-- `b` is to the right of `p`. -/
def sideBySide : Config :=
  ((({} : Config).addScreen "p").bind (·.addScreen "b")).bind
    (·.connect "p" .right (0, 1) "b" (0, 1)) |>.getD {}

/-- The client `b`, as large as `p`, connects. -/
def neighborConnects : List (Env × Event) :=
  [({}, .clientConnected ⟨"b", true⟩ ⟨0, 0, 100, 100, 50, 50⟩), ({}, .adoptClient 1)]

/-- The registered screens are those that are listed. -/
theorem forall_registered {P : ClientID → Prop}
    (h : ∀ e ∈ s.registry.clients.toList, P e.2) : ∀ c, s.registry.Registered c → P c := by
  rintro c ⟨name, hname⟩
  exact h (name, c) (Std.TreeMap.mem_toList_iff_getElem?_eq_some.2 hname)

/-- The position 50 past the edge of `p` is on `b`. -/
theorem contains_mapToNeighbor_iff_neighborConnects :
    ∃ s : Server, ∃ c q, s.mapToNeighbor { fuel := 2 } primaryClient .right (150, 50) =
      some (some (c, q)) ∧ ((s.info c).Contains q.1 q.2 ↔
        s.FallsOn .right { fuel := 2 } primaryClient (150, 50)) := by
  have hrun : (run {} sideBySide ⟨"p", true⟩ ⟨0, 0, 100, 100, 50, 50⟩ false neighborConnects).map
      (fun s => decide (s.config.WellLinked ∧
        (∀ e ∈ s.registry.clients.toList, 0 < (s.info e.2).w ∧ 0 < (s.info e.2).h) ∧
        (s.info primaryClient).x + (s.info primaryClient).w ≤ 150 ∧
        s.mapToNeighbor { fuel := 2 } primaryClient .right (150, 50) = some (some (1, 50, 50)))) =
      some true := by decide +kernel
  obtain ⟨s, -, hs⟩ := Option.map_eq_some_iff.1 hrun
  obtain ⟨hl, hsized, hbeyond, hn⟩ := of_decide_eq_true hs
  exact ⟨s, 1, (50, 50), hn, contains_mapToNeighbor_iff hl (forall_registered hsized) hbeyond hn⟩

/-- The position 150 past the edge of `p` is past `b` as well. -/
theorem not_contains_mapToNeighbor :
    ¬∀ (s : Server) (env : Env) (dir : Direction) (src c : ClientID) (p q : ℤ × ℤ),
      lts.Reachable s → s.config.WellLinked →
      (∀ c, s.registry.Registered c → 0 < (s.info c).w ∧ 0 < (s.info c).h) →
      dir.Beyond (s.info src) p → dir.Along (s.info src) p →
      s.mapToNeighbor env src dir p = some (some (c, q)) → (s.info c).Contains q.1 q.2 := by
  intro h
  have hrun : (run {} sideBySide ⟨"p", true⟩ ⟨0, 0, 100, 100, 50, 50⟩ false neighborConnects).map
      (fun s => decide (s.config.WellLinked ∧
        (∀ e ∈ s.registry.clients.toList, 0 < (s.info e.2).w ∧ 0 < (s.info e.2).h) ∧
        (s.info primaryClient).x + (s.info primaryClient).w ≤ 250 ∧
        ((s.info primaryClient).y ≤ 50 ∧
          50 < (s.info primaryClient).y + (s.info primaryClient).h) ∧
        s.mapToNeighbor { fuel := 2 } primaryClient .right (250, 50) = some (some (1, 150, 50)) ∧
        ¬(s.info 1).Contains 150 50)) = some true := by decide +kernel
  obtain ⟨s, hs, hfacts⟩ := Option.map_eq_some_iff.1 hrun
  obtain ⟨hl, hsized, hbeyond, halong, hn, hnot⟩ := of_decide_eq_true hfacts
  exact hnot (h s { fuel := 2 } .right primaryClient 1 (250, 50) (150, 50) (reachable_of_run hs)
    hl (forall_registered hsized) hbeyond halong hn)

end Server

end InputLeap
