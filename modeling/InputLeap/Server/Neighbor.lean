import InputLeap.Server.State

/-!
# The neighbours of a screen

Where the cursor goes when it leaves a screen: the search for the closest connected neighbour in
a direction, the position on it, and the corners of a screen.  The searches loop in the source;
here they take at most a given number of steps, and `none` is a search that took more.

## Main results

* `mem_of_mapToNeighbor` : the screen found is a registered one.
-/

namespace InputLeap

namespace Direction

/-- Leaving on this side moves the cursor along a row. -/
def horizontal : Direction → Bool
  | left | right => true
  | top | bottom => false

/-- Leaving on this side moves the cursor towards smaller coordinates. -/
def decreasing : Direction → Bool
  | left | top => true
  | right | bottom => false

/-- The side opposite to this one. -/
def opposite : Direction → Direction
  | left => right
  | right => left
  | top => bottom
  | bottom => top

/-- The coordinate that crosses the side. -/
def crossing (d : Direction) (p : ℤ × ℤ) : ℤ := if d.horizontal then p.1 else p.2

/-- Changes the coordinate that crosses the side. -/
def setCrossing (d : Direction) (p : ℤ × ℤ) (v : ℤ) : ℤ × ℤ :=
  if d.horizontal then (v, p.2) else (p.1, v)

/-- The least coordinate of a screen across the side. -/
def origin (d : Direction) (i : ScreenInfo) : ℤ := if d.horizontal then i.x else i.y

/-- The size of a screen across the side. -/
def extent (d : Direction) (i : ScreenInfo) : ℤ := if d.horizontal then i.w else i.h

/-- The position relative to the corner of the screen `i` that follows the screen `last`. -/
def cross (d : Direction) (last i : ScreenInfo) (p : ℤ × ℤ) : ℤ × ℤ :=
  d.setCrossing p
    (if d.decreasing then d.crossing p + d.extent i else d.crossing p - d.extent last)

/-- The cursor does not go beyond the screen it comes to. -/
def lands (d : Direction) (i : ScreenInfo) (p : ℤ × ℤ) : Bool :=
  if d.decreasing then 0 ≤ d.crossing p else d.crossing p < d.extent i

end Direction

/-- Conversion of a real number to an integer (`static_cast`). -/
def truncate (q : ℚ) : ℤ := q.num.tdiv q.den

/-- The position along the side as a fraction of its length. -/
def mapToFraction (i : ScreenInfo) (dir : Direction) (p : ℤ × ℤ) : ℚ :=
  if dir.horizontal then (p.2 - i.y + 1 / 2) / i.h else (p.1 - i.x + 1 / 2) / i.w

/-- The pixel at a fraction of the length of the side. -/
def mapToPixel (i : ScreenInfo) (dir : Direction) (f : ℚ) (p : ℤ × ℤ) : ℤ × ℤ :=
  if dir.horizontal then (p.1, truncate (f * i.h) + i.y) else (truncate (f * i.w) + i.x, p.2)

/-- The mask of the corner of the screen that a position on its border is in. -/
def getCorner (i : ScreenInfo) (x y size : ℤ) : ℕ :=
  let xSide : ℤ := if x ≤ i.x then -1 else if x ≥ i.x + i.w - 1 then 1 else 0
  let ySide : ℤ := if y ≤ i.y then -1 else if y ≥ i.y + i.h - 1 then 1 else 0
  if xSide ≠ 0 ∧ y < i.y + size then
    if xSide < 0 then topLeftMask else topRightMask
  else if xSide ≠ 0 ∧ y ≥ i.y + i.h - size then
    if xSide < 0 then bottomLeftMask else bottomRightMask
  else if ySide ≠ 0 ∧ x < i.x + size then
    if ySide < 0 then topLeftMask else bottomLeftMask
  else if ySide ≠ 0 ∧ x ≥ i.x + i.w - size then
    if ySide < 0 then topRightMask else bottomRightMask
  else noCornerMask

namespace Server

variable (s : Server)

/-- The shape of a screen (`getShape`). -/
def info (c : ClientID) : ScreenInfo := (s.proxies c).info

/-- The width of the zone at the edges of the primary screen that provokes a switch. -/
def getJumpZoneSize (env : Env) (c : ClientID) : ℤ :=
  if c = primaryClient then env.jumpZoneSize else 0

/-- The screen has a neighbour on the side. -/
def hasAnyNeighbor (c : ClientID) (dir : Direction) : Bool :=
  s.config.hasNeighbor (s.getName c) dir

/-- The sides of the primary screen that provoke a switch. -/
def getActivePrimarySides : ℕ :=
  if s.lockedToScreen then 0
  else
    ([.left, .right, .top, .bottom] : List Direction).foldl
      (fun sides d => if s.hasAnyNeighbor primaryClient d then sides ||| d.mask else sides) 0

/-- The closest connected neighbour of a screen and the position on its edge, skipping screens
that are not connected. -/
def findNeighbor (dir : Direction) : ℕ → String → ℚ → Option (Option (ClientID × ℚ))
  | 0, _, _ => none
  | fuel + 1, srcName, t =>
    match s.config.getNeighbor srcName dir t with
    | none => some none
    | some (dstName, t') =>
      if dstName = "" then some none
      else
        match s.registry.clients[dstName]? with
        | some c => some (some (c, t'))
        | none => findNeighbor dir fuel dstName t'

/-- The closest connected neighbour and the pixel on its edge. -/
def getNeighbor (fuel : ℕ) (src : ClientID) (dir : Direction) (p : ℤ × ℤ) :
    Option (Option (ClientID × ℤ × ℤ)) :=
  (s.findNeighbor dir fuel (s.getName src) (mapToFraction (s.info src) dir p)).map fun r =>
    r.map fun (c, t) => (c, mapToPixel (s.info c) dir t p)

/-- The rest of the search for the screen that the position falls on, from the candidate `dst`;
`last` is the screen before it.  Positions are relative to the corner of a screen. -/
def searchNeighbor (dir : Direction) :
    ℕ → ScreenInfo → ClientID → ℤ × ℤ → Option (ClientID × ℤ × ℤ)
  | 0, _, _, _ => none
  | fuel + 1, last, dst, p =>
    let i := s.info dst
    let p := dir.cross last i p
    if dir.lands i p then some (dst, p)
    else
      match s.getNeighbor fuel dst dir p with
      | none => none
      | some none => some (dst, p)
      | some (some (dst', p')) => searchNeighbor dir fuel i dst' p'

/-- Moves a position on the primary screen out of the jump zone of the side it is entered at, if
that side has a neighbour. -/
def avoidJumpZone (env : Env) (dst : ClientID) (dir : Direction) (p : ℤ × ℤ) : ℤ × ℤ :=
  if dst ≠ primaryClient then p
  else
    let i := s.info dst
    let z := getJumpZoneSize env dst
    let neighbor := (s.config.getNeighbor (s.getName dst) dir.opposite (mapToFraction i dir p)).any
      fun (name, _) => name != ""
    let v := dir.crossing p
    let first := dir.origin i + z
    let last := dir.origin i + dir.extent i - 1 - z
    if neighbor && dir.decreasing && v > last then dir.setCrossing p last
    else if neighbor && !dir.decreasing && v < first then dir.setCrossing p first
    else p

/-- The screen that the cursor enters when it leaves `src` on the side, and the position there.
Screens that the position lies beyond are skipped. -/
def mapToNeighbor (env : Env) (src : ClientID) (srcSide : Direction) (p : ℤ × ℤ) :
    Option (Option (ClientID × ℤ × ℤ)) :=
  match s.getNeighbor env.fuel src srcSide p with
  | none => none
  | some none => some none
  | some (some (dst, p)) =>
    let i := s.info src
    let p := srcSide.setCrossing p (srcSide.crossing p - srcSide.origin i)
    (s.searchNeighbor srcSide env.fuel i dst p).map fun (dst, p) =>
      let p := srcSide.setCrossing p (srcSide.crossing p + srcSide.origin (s.info dst))
      some (dst, s.avoidJumpZone env dst srcSide p)

variable {s}

theorem mem_of_findNeighbor {dir : Direction} {fuel : ℕ} {srcName : String} {t t' : ℚ}
    {c : ClientID} (h : s.findNeighbor dir fuel srcName t = some (some (c, t'))) :
    s.registry.Registered c := by
  induction fuel generalizing srcName t with
  | zero => simp [findNeighbor] at h
  | succ fuel ih =>
    simp only [findNeighbor] at h
    split at h
    · simp at h
    · rename_i dstName t₁ _
      by_cases hempty : dstName = ""
      · simp [hempty] at h
      · rw [if_neg hempty] at h
        split at h
        · rename_i c' hc'
          simp only [Option.some.injEq, Prod.mk.injEq] at h
          exact ⟨dstName, by rw [hc', h.1]⟩
        · exact ih h

theorem mem_of_getNeighbor {dir : Direction} {fuel : ℕ} {src c : ClientID} {p q : ℤ × ℤ}
    (h : s.getNeighbor fuel src dir p = some (some (c, q))) :
    s.registry.Registered c := by
  obtain ⟨r, hr, hrc⟩ := Option.map_eq_some_iff.1 h
  obtain ⟨⟨c', t⟩, rfl, hct⟩ := Option.map_eq_some_iff.1 hrc
  obtain ⟨rfl, -⟩ := Prod.mk.inj hct
  exact mem_of_findNeighbor hr

theorem mem_of_searchNeighbor {dir : Direction} {fuel : ℕ} {last : ScreenInfo}
    {dst c : ClientID} {p q : ℤ × ℤ} (hdst : s.registry.Registered dst)
    (h : s.searchNeighbor dir fuel last dst p = some (c, q)) :
    s.registry.Registered c := by
  induction fuel generalizing last dst p with
  | zero => simp [searchNeighbor] at h
  | succ fuel ih =>
    simp only [searchNeighbor] at h
    split at h
    · simp only [Option.some.injEq, Prod.mk.injEq] at h
      rwa [← h.1]
    · split at h
      · simp at h
      · simp only [Option.some.injEq, Prod.mk.injEq] at h
        rwa [← h.1]
      · rename_i hn
        exact ih (mem_of_getNeighbor hn) h

/-- **The screen found is registered.** -/
theorem mem_of_mapToNeighbor {env : Env} {src c : ClientID} {dir : Direction} {p q : ℤ × ℤ}
    (h : s.mapToNeighbor env src dir p = some (some (c, q))) :
    s.registry.Registered c := by
  unfold mapToNeighbor at h
  split at h
  · simp at h
  · simp at h
  · rename_i dst p' hn
    obtain ⟨⟨c', q'⟩, hs, hc⟩ := Option.map_eq_some_iff.1 h
    simp only [Option.some.injEq, Prod.mk.injEq] at hc
    rw [← hc.1]
    exact mem_of_searchNeighbor (mem_of_getNeighbor hn) hs

end Server

end InputLeap
