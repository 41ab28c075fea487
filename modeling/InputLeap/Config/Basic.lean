import InputLeap.Config.InputFilter
import Mathlib.Data.Finset.Basic
import Mathlib.Algebra.Order.Field.Rat

/-!
# The server's configuration

The part of `Config` that the server decides from: screens and their aliases, the links between
edges of screens, options and input filter rules.  Names compare without regard to case.

Positions along an edge are fractions of its length; they are rational numbers here.

## Main definitions

* `CaselessCmp.cmp` : the order of names.
* `CellEdge`, `Cell` : the stretch of an edge that a link starts from or leads to, and the links
  and options of a screen.
* `Config` : screens, names, options and rules, with the queries the server makes
  (`getCanonicalName`, `getNeighbor`, `getOptions`, ...) and the manipulators that build one.
-/

namespace InputLeap

namespace CaselessCmp

/-- The characters that are compared. -/
def key (s : String) : List Char := s.toList.map Char.toLower

/-- The order of names in `CellMap` and `NameMap`. -/
def cmp (a b : String) : Ordering := compareOn key a b

instance : Std.TransCmp cmp := inferInstanceAs (Std.TransCmp (compareOn key))

/-- Names that differ in case only are equal. -/
def equal (a b : String) : Bool := key a == key b

theorem cmp_eq_iff {a b : String} : cmp a b = .eq ↔ key a = key b :=
  Std.LawfulEqOrd.compare_eq_iff_eq (α := List Char)

end CaselessCmp

/-- Part of an edge of a screen.  The name is that of the screen a link leads to; it is empty
for the edge a link starts from. -/
structure CellEdge where
  name : String
  side : Direction
  interval : ℚ × ℚ
  deriving DecidableEq, Repr

namespace CellEdge

/-- A point of an edge, to look up the link there. -/
def atPosition (side : Direction) (position : ℚ) : CellEdge := ⟨"", side, (position, position)⟩

/-- The order of the links of a cell: by side, then by the start of the interval. -/
def cmp (a b : CellEdge) : Ordering :=
  compareLex (compareOn fun e => e.side.toNat) (compareOn fun e => e.interval.1) a b

instance : Std.TransCmp cmp :=
  inferInstanceAs (Std.TransCmp (compareLex (compareOn fun e : CellEdge => e.side.toNat)
    (compareOn fun e => e.interval.1)))

/-- The edges have a point in common. -/
def overlaps (a b : CellEdge) : Bool :=
  let x := a.interval
  let y := b.interval
  a.side == b.side &&
    ((y.1 ≤ x.1 && x.1 < y.2) || (y.1 < x.2 && x.2 ≤ y.2) ||
      (x.1 ≤ y.1 && y.1 < x.2) || (x.1 < y.2 && y.2 ≤ x.2))

/-- The position lies in the half-open interval. -/
def isInside (e : CellEdge) (x : ℚ) : Bool := e.interval.1 ≤ x && x < e.interval.2

/-- From a position on the edge to the fraction of the interval. -/
def transform (e : CellEdge) (x : ℚ) : ℚ := (x - e.interval.1) / (e.interval.2 - e.interval.1)

/-- From a fraction of the interval to a position on the edge. -/
def inverseTransform (e : CellEdge) (x : ℚ) : ℚ :=
  x * (e.interval.2 - e.interval.1) + e.interval.1

end CellEdge

/-- The links from the edges of a screen, by source edge. -/
abbrev EdgeLinks := Std.TreeMap CellEdge CellEdge CellEdge.cmp

/-- Options and their values, in the order of the option numbers. -/
abbrev ScreenOptions :=
  Std.TreeMap OptionID ℤ (compareOn OptionID.code)

/-- A screen in the configuration. -/
structure Cell where
  /-- The links from its edges. -/
  neighbors : EdgeLinks := ∅
  /-- Its options. -/
  options : ScreenOptions := ∅

namespace Cell

/-- A link from exactly this edge exists. -/
def hasEdge (c : Cell) (edge : CellEdge) : Bool :=
  match c.neighbors.getKey? edge with
  | some e => e.side == edge.side && e.interval == edge.interval
  | none => false

/-- Some link starts from an edge that overlaps `edge`: the first link after it or the last one
not after it. -/
def overlaps (c : Cell) (edge : CellEdge) : Bool :=
  (match c.neighbors.getEntryGT? edge with
    | some (e, _) => e.overlaps edge
    | none => false) ||
  (match c.neighbors.getEntryLE? edge with
    | some (e, _) => e.overlaps edge
    | none => false)

/-- Adds a link, replacing one from exactly the same edge; `none` if the edge overlaps others. -/
def add (c : Cell) (src dst : CellEdge) : Option Cell :=
  if !c.hasEdge src && c.overlaps src then none
  else some { c with neighbors := (c.neighbors.erase src).insert src dst }

/-- The link at a position of an edge: the last one that starts at or before the position, if
the position is inside it. -/
def getLink (c : Cell) (side : Direction) (position : ℚ) : Option (CellEdge × CellEdge) :=
  match c.neighbors.getEntryLE? (.atPosition side position) with
  | some (src, dst) => if src.side = side ∧ src.isInside position then some (src, dst) else none
  | none => none

end Cell

/-- The configuration. -/
structure Config where
  /-- The screens, by canonical name (`m_map`). -/
  map : Std.TreeMap String Cell CaselessCmp.cmp := ∅
  /-- The canonical name of every name and alias (`m_nameToCanonicalName`). -/
  nameToCanonicalName : Std.TreeMap String String CaselessCmp.cmp := ∅
  /-- The options of the `options` section. -/
  globalOptions : ScreenOptions := ∅
  /-- The rules of the `options` section. -/
  inputFilterRules : List InputFilter.Rule := []
  /-- Some rule has a `LockCursorToScreenAction`. -/
  hasLockToScreenAction : Bool := false

namespace Config

/-- The name is that of a screen or an alias. -/
def isScreen (cfg : Config) (name : String) : Bool := cfg.nameToCanonicalName.contains name

/-- The canonical name of a screen, empty if there is none. -/
def getCanonicalName (cfg : Config) (name : String) : String :=
  (cfg.nameToCanonicalName[name]?).getD ""

/-- The name is that of a screen and not an alias. -/
def isCanonicalName (cfg : Config) (name : String) : Bool :=
  name != "" && CaselessCmp.equal (cfg.getCanonicalName name) name

/-- The neighbour of a screen at a position of an edge and the position on the neighbour.  The
neighbour's name is empty if the link leads to no screen. -/
def getNeighbor (cfg : Config) (srcName : String) (srcSide : Direction) (position : ℚ) :
    Option (String × ℚ) :=
  match cfg.map[cfg.getCanonicalName srcName]? with
  | none => none
  | some cell =>
    match cell.getLink srcSide position with
    | none => none
    | some (src, dst) =>
      some (cfg.getCanonicalName dst.name, dst.inverseTransform (src.transform position))

/-- The screen has a neighbour somewhere on the edge. -/
def hasNeighbor (cfg : Config) (srcName : String) (srcSide : Direction) : Bool :=
  match cfg.map[cfg.getCanonicalName srcName]? with
  | none => false
  | some cell => cell.overlaps ⟨"", srcSide, (0, 1)⟩

/-- The options of a screen, by canonical name; the global options for the empty name. -/
def getOptions (cfg : Config) (name : String) : Option ScreenOptions :=
  if name = "" then some cfg.globalOptions else (cfg.map[name]?).map Cell.options

/-- Adds a screen; `none` if the name is taken. -/
def addScreen (cfg : Config) (name : String) : Option Config :=
  if cfg.nameToCanonicalName.contains name then none
  else some { cfg with
    map := cfg.map.insertIfNew name {}
    nameToCanonicalName := cfg.nameToCanonicalName.insertIfNew name name }

/-- Adds an alias of a screen; `none` if the alias is taken or the screen is unknown. -/
def addAlias (cfg : Config) (canonical «alias» : String) : Option Config :=
  if cfg.nameToCanonicalName.contains «alias» then none
  else if cfg.map.contains canonical then
    some { cfg with
      nameToCanonicalName := cfg.nameToCanonicalName.insertIfNew «alias» canonical }
  else none

/-- Changes the cell of a screen that is found under a name.  The screen's own name stays as it is
spelled. -/
def setCell (cfg : Config) (name : String) (cell : Cell) : Config :=
  { cfg with map := cfg.map.insert ((cfg.map.getKey? name).getD name) cell }

/-- Links part of an edge of one screen to the opposite edge of another. -/
def connect (cfg : Config) (srcName : String) (srcSide : Direction) (src : ℚ × ℚ)
    (dstName : String) (dst : ℚ × ℚ) : Option Config :=
  match cfg.map[cfg.getCanonicalName srcName]? with
  | none => none
  | some cell =>
    (cell.add ⟨"", srcSide, src⟩ ⟨dstName, srcSide, dst⟩).map fun cell' =>
      cfg.setCell (cfg.getCanonicalName srcName) cell'

/-- Sets a global option. -/
def addGlobalOption (cfg : Config) (option : OptionID) (value : ℤ) : Config :=
  { cfg with globalOptions := cfg.globalOptions.insert option value }

end Config

end InputLeap
