import InputLeap.Config.Basic
import InputLeap.LTS.Basic
import InputLeap.Maps.Entries

/-!
# Editing the configuration

The manipulators of screens, aliases and links, and what they keep: every name leads to a screen
as it is spelled, every screen is found under its own name, and every link leads to a screen.

## Main definitions

* `Config.renameScreen`, `Config.removeScreen`, `Config.removeAlias`, ... : the manipulators that
  the reader does not use.
* `Config.Edit`, `Config.lts` : the calls of the manipulators, in any order.
* `Config.WellFormed` : the maps and the links agree.
* `Config.Sound` : the calls on which this depends.

## Main results

* `Config.wellFormed_of_reachableVia` : sound calls keep it, and the first one that is not sound
  ends it.
-/

namespace InputLeap

namespace Cell

variable (c : Cell)

/-- Removes the links from a side. -/
def removeSide (side : Direction) : Cell :=
  { c with neighbors := c.neighbors.filter fun src _ => src.side != side }

/-- Removes the first link from a side at a position. -/
def removeAt (side : Direction) (position : ℚ) : Cell :=
  match c.neighbors.toList.find? fun link => link.1.side == side && link.1.isInside position with
  | some (src, _) => { c with neighbors := c.neighbors.erase src }
  | none => c

/-- Removes the links that lead to a name. -/
def removeName (isName : String → Bool) : Cell :=
  { c with neighbors := c.neighbors.filter fun _ dst => !isName dst.name }

/-- Renames where links lead. -/
def rename (isName : String → Bool) (newName : String) : Cell :=
  { c with neighbors := c.neighbors.map fun _ dst =>
      if isName dst.name then { dst with name := newName } else dst }

end Cell

namespace Config

variable (cfg : Config)

/-- `Name::operator==` for a name whose canonical name was `canonical`. -/
def isName (canonical name : String) : Bool :=
  CaselessCmp.equal (cfg.getCanonicalName name) canonical

/-- Puts the cell of a screen under a new name. -/
def replaceScreen (oldCanonical newName : String) (cell : Cell) : Config :=
  { cfg with
    map := (cfg.map.erase oldCanonical).insertIfNew newName cell
    nameToCanonicalName :=
      (cfg.nameToCanonicalName.erase oldCanonical).insertIfNew newName newName }

/-- Renames where the links to a name lead. -/
def renameLinks (oldName newName : String) : Config :=
  let oldNameObj := cfg.getCanonicalName oldName
  { cfg with map := cfg.map.map fun _ cell => cell.rename (cfg.isName oldNameObj) newName }

/-- Renames what aliases stand for. -/
def renameAliases (oldCanonical newName : String) : Config :=
  { cfg with nameToCanonicalName := cfg.nameToCanonicalName.map fun _ canonical =>
      if CaselessCmp.equal canonical oldCanonical then newName else canonical }

/-- Renames a screen; `none` if there is none or the new name is taken. -/
def renameScreen (oldName newName : String) : Option Config :=
  let oldCanonical := cfg.getCanonicalName oldName
  match cfg.map[oldCanonical]? with
  | none => none
  | some tmpCell =>
    -- equal names replace the old one to maintain case
    if !CaselessCmp.equal oldName newName && cfg.nameToCanonicalName.contains newName then none
    else
      let cfg := (cfg.replaceScreen oldCanonical newName tmpCell).renameLinks oldName newName
      some (if CaselessCmp.equal oldName oldCanonical then cfg.renameAliases oldCanonical newName
        else cfg)

/-- Removes a screen, its aliases and the links to it. -/
def removeScreen (name : String) : Config :=
  let canonical := cfg.getCanonicalName name
  if cfg.map.contains canonical then
    { cfg with
      map := (cfg.map.erase canonical).map fun _ cell => cell.removeName (cfg.isName canonical)
      nameToCanonicalName := cfg.nameToCanonicalName.filter fun _ c => c != canonical }
  else cfg

def removeAllScreens : Config := { cfg with map := ∅, nameToCanonicalName := ∅ }

/-- Removes an alias; `none` if it is unknown or the name of a screen. -/
def removeAlias («alias» : String) : Option Config :=
  if cfg.map.contains «alias» then none
  else if cfg.nameToCanonicalName.contains «alias» then
    some { cfg with nameToCanonicalName := cfg.nameToCanonicalName.erase «alias» }
  else none

/-- Removes the aliases of a screen; `none` if it is unknown. -/
def removeAliases (canonical : String) : Option Config :=
  if cfg.map.contains canonical then
    some { cfg with nameToCanonicalName :=
      cfg.nameToCanonicalName.filter fun name c => !(c == canonical && name != canonical) }
  else none

/-- Leaves each screen its own name only. -/
def removeAllAliases : Config :=
  { cfg with nameToCanonicalName := cfg.map.map fun name _ => name }

/-- Removes the links from a side of a screen; `none` if it is unknown. -/
def disconnect (srcName : String) (srcSide : Direction) : Option Config :=
  (cfg.map[srcName]?).map fun cell => cfg.setCell srcName (cell.removeSide srcSide)

/-- Removes the link from a position of a side; `none` if the screen is unknown. -/
def disconnectAt (srcName : String) (srcSide : Direction) (position : ℚ) : Option Config :=
  (cfg.map[srcName]?).map fun cell => cfg.setCell srcName (cell.removeAt srcSide position)

/-- The calls that change screens, names and links. -/
inductive Edit
  | addScreen (name : String)
  | renameScreen (oldName newName : String)
  | removeScreen (name : String)
  | removeAllScreens
  | addAlias (canonical «alias» : String)
  | removeAlias («alias» : String)
  | removeAliases (canonical : String)
  | removeAllAliases
  | connect (srcName : String) (srcSide : Direction) (src : ℚ × ℚ) (dstName : String)
      (dst : ℚ × ℚ)
  | disconnect (srcName : String) (srcSide : Direction)
  | disconnectAt (srcName : String) (srcSide : Direction) (position : ℚ)

/-- The configuration after a call.  One that fails changes nothing. -/
def edit : Edit → Config
  | .addScreen name => (cfg.addScreen name).getD cfg
  | .renameScreen oldName newName => (cfg.renameScreen oldName newName).getD cfg
  | .removeScreen name => cfg.removeScreen name
  | .removeAllScreens => cfg.removeAllScreens
  | .addAlias canonical «alias» => (cfg.addAlias canonical «alias»).getD cfg
  | .removeAlias «alias» => (cfg.removeAlias «alias»).getD cfg
  | .removeAliases canonical => (cfg.removeAliases canonical).getD cfg
  | .removeAllAliases => cfg.removeAllAliases
  | .connect srcName srcSide src dstName dst =>
    (cfg.connect srcName srcSide src dstName dst).getD cfg
  | .disconnect srcName srcSide => (cfg.disconnect srcName srcSide).getD cfg
  | .disconnectAt srcName srcSide position => (cfg.disconnectAt srcName srcSide position).getD cfg

/-- The calls in any order, from a configuration that was constructed. -/
def lts : LTS Config Edit where
  init cfg := cfg = {}
  step cfg e := some (cfg.edit e)

/-! ### What is to be kept -/

/-- The name is that of a screen, as the screen spells it. -/
def IsKey (name : String) : Prop := cfg.map.getKey? name = some name

/-- The maps of screens and names and the links agree. -/
structure WellFormed : Prop where
  /-- A name leads to a screen as it is spelled. -/
  names : ∀ (name c : String), cfg.nameToCanonicalName[name]? = some c → cfg.IsKey c
  /-- A screen is found under its own name. -/
  keys : ∀ name, cfg.IsKey name → cfg.nameToCanonicalName[name]? = some name
  /-- A link leads to a screen. -/
  links : ∀ (name : String) (cell : Cell), cfg.map[name]? = some cell →
    ∀ src dst, (src, dst) ∈ cell.neighbors.toList →
      ∃ c, cfg.nameToCanonicalName[dst.name]? = some c ∧ cfg.IsKey c

/-- Some link leads to the name, as it is spelled. -/
def LinksTo (name : String) : Prop :=
  ∃ key cell src dst, MapEntry cfg.map key cell ∧ MapEntry cell.neighbors src dst ∧
    dst.name = name

/-- The code depends on this.  A screen is renamed under its own name (an unknown name stands for
the screen with the empty name), an alias is added to a screen as that is spelled, no name that
goes is one that a link leads to, and a link is made to a known name. -/
def Sound : Edit → Prop
  | .renameScreen oldName newName =>
    cfg.getCanonicalName oldName ∈ cfg.map →
      (CaselessCmp.equal oldName newName = true ∨ newName ∉ cfg.nameToCanonicalName) →
        CaselessCmp.equal oldName (cfg.getCanonicalName oldName) = true ∨
          oldName ∉ cfg.nameToCanonicalName ∧
            (∀ name, MapEntry cfg.nameToCanonicalName name "" → name = "") ∧
            (CaselessCmp.equal oldName newName = true → ¬cfg.LinksTo "")
  | .addAlias canonical «alias» =>
    «alias» ∉ cfg.nameToCanonicalName → canonical ∈ cfg.map → cfg.IsKey canonical
  | .removeAlias «alias» =>
    «alias» ∉ cfg.map → ∀ name, cfg.LinksTo name → CaselessCmp.cmp name «alias» ≠ .eq
  | .removeAliases canonical =>
    canonical ∈ cfg.map → ∀ name, cfg.LinksTo name →
      cfg.nameToCanonicalName[name]? = some canonical → CaselessCmp.cmp name canonical = .eq
  | .removeAllAliases => ∀ name, cfg.LinksTo name → name ∈ cfg.map
  | .connect srcName srcSide src dstName _ =>
    ∀ cell, cfg.map[cfg.getCanonicalName srcName]? = some cell →
      cell.hasEdge ⟨"", srcSide, src⟩ = true ∨ cell.overlaps ⟨"", srcSide, src⟩ = false →
        dstName ∈ cfg.nameToCanonicalName
  | _ => True

/-! ### The same in terms of entries -/

/-- What sound calls keep: the maps and the links agree, and a screen's own name is stored as it is
spelled. -/
structure Inv (cfg : Config) : Prop where
  names : ∀ {name c : String}, MapEntry cfg.nameToCanonicalName name c →
    ∃ cell, MapEntry cfg.map c cell
  own : ∀ {key : String} {cell : Cell}, MapEntry cfg.map key cell →
    MapEntry cfg.nameToCanonicalName key key
  links : ∀ {name : String}, cfg.LinksTo name → name ∈ cfg.nameToCanonicalName

variable {cfg} {cfg' : Config}

theorem isKey_iff {name : String} : cfg.IsKey name ↔ ∃ cell, MapEntry cfg.map name cell :=
  MapEntry.getKey?_eq_some_self_iff

theorem equal_iff {a b : String} : CaselessCmp.equal a b = true ↔ CaselessCmp.cmp a b = .eq := by
  rw [CaselessCmp.cmp_eq_iff]
  exact beq_iff_eq

theorem cmp_empty {name : String} (h : CaselessCmp.cmp name "" = .eq) : name = "" := by
  have hkey : name.toList.map Char.toLower = [] := CaselessCmp.cmp_eq_iff.1 h
  exact String.toList_eq_nil_iff.1 (List.map_eq_nil_iff.1 hkey)

theorem Inv.wellFormed (h : cfg.Inv) : cfg.WellFormed := by
  refine ⟨fun name c hc => ?_, fun name hkey => ?_, fun name cell hcell src dst hlink => ?_⟩
  · obtain ⟨n, -, hentry⟩ := MapEntry.getElem?_eq_some_iff.1 hc
    exact isKey_iff.2 (h.names hentry)
  · obtain ⟨cell, hentry⟩ := isKey_iff.1 hkey
    exact (h.own hentry).2
  · obtain ⟨key, -, hkey⟩ := MapEntry.getElem?_eq_some_iff.1 hcell
    have hlink := Std.TreeMap.mem_toList_iff_getKey?_eq_some_and_getElem?_eq_some.1 hlink
    obtain ⟨n, c, hn, hentry⟩ :=
      MapEntry.mem_iff.1 (h.links ⟨key, cell, src, dst, hkey, hlink, rfl⟩)
    exact ⟨c, MapEntry.getElem?_eq_some_iff.2 ⟨n, hn, hentry⟩, isKey_iff.2 (h.names hentry)⟩

/-- A link of a well-formed configuration leads to a known name. -/
theorem WellFormed.mem_of_linksTo (h : cfg.WellFormed) (name : String) (hlink : cfg.LinksTo name) :
    name ∈ cfg.nameToCanonicalName := by
  obtain ⟨key, cell, src, dst, hkey, hdst, rfl⟩ := hlink
  have hcell := MapEntry.getElem?_eq_some_iff.2 ⟨key, Std.ReflCmp.compare_self, hkey⟩
  have hmem := Std.TreeMap.mem_toList_iff_getKey?_eq_some_and_getElem?_eq_some.2 hdst
  obtain ⟨c, hc, -⟩ := h.links key cell hcell src dst hmem
  exact Std.TreeMap.mem_iff_isSome_getElem?.2 (Option.isSome_of_eq_some hc)

/-- The screen that a name stands for is stored under its canonical name; only the empty name can be
canonical for names that are unknown. -/
theorem Inv.exists_canonical (h : cfg.Inv) {name : String}
    (hmem : cfg.getCanonicalName name ∈ cfg.map) :
    ∃ cell, MapEntry cfg.map (cfg.getCanonicalName name) cell := by
  unfold getCanonicalName at hmem ⊢
  cases hname : cfg.nameToCanonicalName[name]? with
  | some c =>
    obtain ⟨n, -, hentry⟩ := MapEntry.getElem?_eq_some_iff.1 hname
    exact h.names hentry
  | none =>
    simp only [hname, Option.getD_none] at hmem ⊢
    obtain ⟨key, cell, hcmp, hentry⟩ := MapEntry.mem_iff.1 hmem
    obtain rfl := cmp_empty (Std.OrientedCmp.eq_symm hcmp)
    exact ⟨cell, hentry⟩

/-- The call leads to `cfg'`, which is in order if the call is sound, and is not well formed
otherwise. -/
def Decides (cfg : Config) (e : Edit) (cfg' : Config) : Prop :=
  (cfg.Sound e → cfg'.Inv) ∧ (¬cfg.Sound e → ¬cfg'.WellFormed)

/-- A call that is sound in any case. -/
theorem decides_of_inv {e : Edit} (hsound : cfg.Sound e) (h : cfg'.Inv) : cfg.Decides e cfg' :=
  ⟨fun _ => h, fun hnot => absurd hsound hnot⟩

/-! ### Screens -/

theorem Inv.addScreen (h : cfg.Inv) (name : String) : (cfg.edit (.addScreen name)).Inv := by
  change ((cfg.addScreen name).getD cfg).Inv
  unfold Config.addScreen
  split_ifs with htaken
  · exact h
  have hname : name ∉ cfg.nameToCanonicalName :=
    fun hmem => htaken (Std.TreeMap.mem_iff_contains.1 hmem)
  have hmap : name ∉ cfg.map := by
    intro hmem
    obtain ⟨key, cell, hcmp, hentry⟩ := MapEntry.mem_iff.1 hmem
    exact hname (MapEntry.mem_iff.2 ⟨key, key, hcmp, h.own hentry⟩)
  refine ⟨fun {n c} hentry => ?_, fun {key cell} hentry => ?_, fun {n} hlink => ?_⟩
  · rcases (MapEntry.mapEntry_insertIfNew hname).1 hentry with ⟨rfl, rfl⟩ | hold
    · exact ⟨{}, (MapEntry.mapEntry_insertIfNew hmap).2 (.inl ⟨rfl, rfl⟩)⟩
    · obtain ⟨cell, hcell⟩ := h.names hold
      exact ⟨cell, hcell.insertIfNew⟩
  · rcases (MapEntry.mapEntry_insertIfNew hmap).1 hentry with ⟨rfl, rfl⟩ | hold
    · exact (MapEntry.mapEntry_insertIfNew hname).2 (.inl ⟨rfl, rfl⟩)
    · exact (h.own hold).insertIfNew
  · obtain ⟨key, cell, src, dst, hkey, hdst, rfl⟩ := hlink
    rcases (MapEntry.mapEntry_insertIfNew hmap).1 hkey with ⟨rfl, rfl⟩ | hold
    · exact absurd hdst MapEntry.not_mapEntry_empty
    · exact Std.TreeMap.mem_insertIfNew.2
        (.inr (h.links ⟨key, cell, src, dst, hold, hdst, rfl⟩))

theorem Inv.removeScreen (h : cfg.Inv) (name : String) : (cfg.edit (.removeScreen name)).Inv := by
  change (cfg.removeScreen name).Inv
  unfold Config.removeScreen
  dsimp only
  split_ifs with hmem
  swap
  · exact h
  obtain ⟨cell₀, hcanonical⟩ := h.exists_canonical (Std.TreeMap.mem_iff_contains.2 hmem)
  have hkeys : ∀ {key : String} {cell : Cell}, MapEntry cfg.map key cell →
      (CaselessCmp.cmp (cfg.getCanonicalName name) key ≠ .eq ↔
        key ≠ cfg.getCanonicalName name) := by
    intro key cell hentry
    refine ⟨fun hne heq => hne (heq ▸ Std.ReflCmp.compare_self), fun hne hcmp => hne ?_⟩
    exact (MapEntry.eq_of_cmp hcanonical hentry hcmp).symm
  refine ⟨fun {n c} hentry => ?_, fun {key cell} hentry => ?_, fun {n} hlink => ?_⟩
  · obtain ⟨hold, hne⟩ := MapEntry.mapEntry_filter.1 hentry
    obtain ⟨cell, hcell⟩ := h.names hold
    have hne : c ≠ cfg.getCanonicalName name := by simpa using hne
    exact ⟨_, MapEntry.mapEntry_map.2
      ⟨cell, MapEntry.mapEntry_erase.2 ⟨(hkeys hcell).2 hne, hcell⟩, rfl⟩⟩
  · obtain ⟨cell', hold, -⟩ := MapEntry.mapEntry_map.1 hentry
    obtain ⟨hne, hold⟩ := MapEntry.mapEntry_erase.1 hold
    exact MapEntry.mapEntry_filter.2 ⟨h.own hold, by simpa using (hkeys hold).1 hne⟩
  · obtain ⟨key, cell, src, dst, hkey, hdst, rfl⟩ := hlink
    obtain ⟨cell', hold, rfl⟩ := MapEntry.mapEntry_map.1 hkey
    obtain ⟨hdst, hother⟩ := MapEntry.mapEntry_filter.1 hdst
    have hlinked := h.links ⟨key, cell', src, dst, (MapEntry.mapEntry_erase.1 hold).2, hdst, rfl⟩
    obtain ⟨n, c, hn, hentry⟩ := MapEntry.mem_iff.1 hlinked
    -- the name stands for another screen
    have hc : cfg.getCanonicalName dst.name = c := by
      rw [getCanonicalName, MapEntry.getElem?_eq_some_iff.2 ⟨n, hn, hentry⟩]
      rfl
    refine MapEntry.mem_iff.2 ⟨n, c, hn, MapEntry.mapEntry_filter.2 ⟨hentry, ?_⟩⟩
    have hne : c ≠ cfg.getCanonicalName name := by
      rintro rfl
      simp only [isName, hc, Bool.not_eq_true', ← Bool.not_eq_true, equal_iff] at hother
      exact hother Std.ReflCmp.compare_self
    simpa using hne

theorem inv_removeAllScreens (cfg : Config) : (cfg.edit .removeAllScreens).Inv := by
  refine ⟨fun hentry => ?_, fun hentry => ?_, fun ⟨_, _, _, _, hkey, _⟩ => ?_⟩
  · exact absurd hentry MapEntry.not_mapEntry_empty
  · exact absurd hentry MapEntry.not_mapEntry_empty
  · exact absurd hkey MapEntry.not_mapEntry_empty

/-! ### Aliases -/

theorem decides_addAlias (h : cfg.Inv) (canonical «alias» : String) :
    cfg.Decides (.addAlias canonical «alias») (cfg.edit (.addAlias canonical «alias»)) := by
  change cfg.Decides _ ((cfg.addAlias canonical «alias»).getD cfg)
  unfold Config.addAlias
  split_ifs with htaken hknown
  · exact decides_of_inv (fun hfree => absurd (Std.TreeMap.mem_iff_contains.2 htaken) hfree) h
  · have hfree : «alias» ∉ cfg.nameToCanonicalName :=
      fun hmem => htaken (Std.TreeMap.mem_iff_contains.1 hmem)
    have hknown : canonical ∈ cfg.map := Std.TreeMap.mem_iff_contains.2 hknown
    refine ⟨fun hsound => ?_, fun hnot hwf => hnot fun _ _ => ?_⟩
    · refine ⟨fun {n c} hentry => ?_, fun hentry => (h.own hentry).insertIfNew, fun hlink => ?_⟩
      · rcases (MapEntry.mapEntry_insertIfNew hfree).1 hentry with ⟨rfl, rfl⟩ | hold
        · exact isKey_iff.1 (hsound hfree hknown)
        · exact h.names hold
      · exact Std.TreeMap.mem_insertIfNew.2 (.inr (h.links hlink))
    · refine hwf.names «alias» canonical ?_
      exact MapEntry.getElem?_eq_some_iff.2 ⟨«alias», Std.ReflCmp.compare_self,
        (MapEntry.mapEntry_insertIfNew hfree).2 (.inl ⟨rfl, rfl⟩)⟩
  · exact decides_of_inv (fun _ hmem => absurd (Std.TreeMap.mem_iff_contains.1 hmem) hknown) h

/-- Links that lead to names that stay. -/
theorem inv_of_names (h : cfg.Inv) {names : Std.TreeMap String String CaselessCmp.cmp}
    (hnames : ∀ {name c : String}, MapEntry names name c → ∃ cell, MapEntry cfg.map c cell)
    (hown : ∀ {key : String}, MapEntry cfg.nameToCanonicalName key key → (key ∈ cfg.map) →
      MapEntry names key key)
    (hlinks : ∀ {name : String}, cfg.LinksTo name → name ∈ names) :
    Inv { cfg with nameToCanonicalName := names } :=
  ⟨hnames, fun hentry => hown (h.own hentry) hentry.mem, hlinks⟩

theorem decides_removeAlias (h : cfg.Inv) («alias» : String) :
    cfg.Decides (.removeAlias «alias») (cfg.edit (.removeAlias «alias»)) := by
  change cfg.Decides _ ((cfg.removeAlias «alias»).getD cfg)
  unfold Config.removeAlias
  split_ifs with hscreen hknown
  · exact decides_of_inv (fun hno => absurd (Std.TreeMap.mem_iff_contains.2 hscreen) hno) h
  · have hscreen : «alias» ∉ cfg.map := fun hmem => hscreen (Std.TreeMap.mem_iff_contains.1 hmem)
    refine ⟨fun hsound => inv_of_names h ?_ ?_ ?_, fun hnot hwf => hnot fun _ name hlink hcmp => ?_⟩
    · exact fun hentry => h.names (MapEntry.mapEntry_erase.1 hentry).2
    · intro key hentry hkey
      refine MapEntry.mapEntry_erase.2 ⟨fun hcmp => hscreen ?_, hentry⟩
      exact (Std.TreeMap.mem_congr hcmp).2 hkey
    · intro name hlink
      refine Std.TreeMap.mem_erase.2 ⟨fun hcmp => ?_, h.links hlink⟩
      exact hsound hscreen name hlink (Std.OrientedCmp.eq_symm hcmp)
    · -- the link leads to the name that is gone
      have hmem := hwf.mem_of_linksTo name hlink
      exact (Std.TreeMap.mem_erase.1 hmem).1 (Std.OrientedCmp.eq_symm hcmp)
  · refine decides_of_inv (fun _ name hlink hcmp => hknown ?_) h
    exact Std.TreeMap.mem_iff_contains.1 ((Std.TreeMap.mem_congr hcmp).1 (h.links hlink))

theorem decides_removeAliases (h : cfg.Inv) (canonical : String) :
    cfg.Decides (.removeAliases canonical) (cfg.edit (.removeAliases canonical)) := by
  change cfg.Decides _ ((cfg.removeAliases canonical).getD cfg)
  unfold Config.removeAliases
  split_ifs with hknown
  swap
  · exact decides_of_inv (fun hmem => absurd (Std.TreeMap.mem_iff_contains.1 hmem) hknown) h
  have hknown : canonical ∈ cfg.map := Std.TreeMap.mem_iff_contains.2 hknown
  refine ⟨fun hsound => inv_of_names h ?_ ?_ ?_, fun hnot hwf => hnot fun _ name hlink hname => ?_⟩
  · exact fun hentry => h.names (MapEntry.mapEntry_filter.1 hentry).1
  · intro key hentry _
    refine MapEntry.mapEntry_filter.2 ⟨hentry, ?_⟩
    by_cases hkey : key = canonical <;> simp [hkey]
  · intro name hlink
    obtain ⟨n, c, hn, hentry⟩ := MapEntry.mem_iff.1 (h.links hlink)
    refine MapEntry.mem_iff.2 ⟨n, c, hn, MapEntry.mapEntry_filter.2 ⟨hentry, ?_⟩⟩
    by_cases hc : c = canonical
    · -- the name is that of the screen itself, as it is spelled
      subst hc
      have hname := MapEntry.getElem?_eq_some_iff.2 ⟨n, hn, hentry⟩
      have hcmp := hsound hknown name hlink hname
      obtain ⟨cell, hcell⟩ := h.names hentry
      have hnc : n = c := MapEntry.eq_of_cmp hentry (h.own hcell)
        (Std.TransCmp.eq_trans (Std.OrientedCmp.eq_symm hn) hcmp)
      simp [hnc]
    · simp [hc]
  · by_contra hcmp
    have hmem := hwf.mem_of_linksTo name hlink
    obtain ⟨n, c, hn, hentry⟩ := MapEntry.mem_iff.1 hmem
    obtain ⟨hentry, hkept⟩ := MapEntry.mapEntry_filter.1 hentry
    have hc : c = canonical := by
      have hfound := MapEntry.getElem?_eq_some_iff.2 ⟨n, hn, hentry⟩
      exact Option.some.inj (hfound.symm.trans hname)
    have hnc : n = canonical := by simpa [hc] using hkept
    exact hcmp (hnc ▸ hn)

theorem decides_removeAllAliases (h : cfg.Inv) :
    cfg.Decides .removeAllAliases (cfg.edit .removeAllAliases) := by
  change cfg.Decides _ cfg.removeAllAliases
  unfold Config.removeAllAliases
  refine ⟨fun hsound => inv_of_names h ?_ ?_ ?_, fun hnot hwf => hnot fun name hlink => ?_⟩
  · intro name c hentry
    obtain ⟨cell, hcell, rfl⟩ := MapEntry.mapEntry_map.1 hentry
    exact ⟨cell, hcell⟩
  · intro key hentry _
    obtain ⟨cell, hcell⟩ := h.names hentry
    exact MapEntry.mapEntry_map.2 ⟨cell, hcell, rfl⟩
  · exact fun hlink => Std.TreeMap.mem_map.2 (hsound _ hlink)
  · exact Std.TreeMap.mem_map.1 (hwf.mem_of_linksTo name hlink)

/-! ### Links -/

/-- The screens after the cell of one of them changed. -/
theorem mapEntry_setCell {name : String} {cell : Cell} (cell' : Cell)
    (hfound : cfg.map[name]? = some cell) :
    ∃ key, MapEntry cfg.map key cell ∧ ∀ {k : String} {c : Cell},
      MapEntry (cfg.setCell name cell').map k c ↔
        k = key ∧ c = cell' ∨ CaselessCmp.cmp key k ≠ .eq ∧ MapEntry cfg.map k c := by
  obtain ⟨key, hcmp, hentry⟩ := MapEntry.getElem?_eq_some_iff.1 hfound
  have hkey : (cfg.map.getKey? name).getD name = key := by
    rw [Std.TreeMap.getKey?_congr hcmp, hentry.1]
    rfl
  refine ⟨key, hentry, fun {k c} => ?_⟩
  unfold setCell
  rw [hkey]
  exact MapEntry.mapEntry_insert

theorem inv_setCell (h : cfg.Inv) {name : String} {cell cell' : Cell}
    (hfound : cfg.map[name]? = some cell)
    (hlinks : ∀ {src dst}, MapEntry cell'.neighbors src dst → dst.name ∈ cfg.nameToCanonicalName) :
    (cfg.setCell name cell').Inv := by
  obtain ⟨key, hkey, hentries⟩ := mapEntry_setCell cell' hfound
  refine ⟨fun {n c} hentry => ?_, fun {k c} hentry => ?_, fun {n} hlink => ?_⟩
  · obtain ⟨old, hold⟩ := h.names hentry
    by_cases hcmp : CaselessCmp.cmp key c = .eq
    · obtain rfl := MapEntry.eq_of_cmp hkey hold hcmp
      exact ⟨cell', hentries.2 (.inl ⟨rfl, rfl⟩)⟩
    · exact ⟨old, hentries.2 (.inr ⟨hcmp, hold⟩)⟩
  · rcases hentries.1 hentry with ⟨rfl, -⟩ | ⟨-, hold⟩
    · exact h.own hkey
    · exact h.own hold
  · obtain ⟨k, c, src, dst, hentry, hdst, rfl⟩ := hlink
    rcases hentries.1 hentry with ⟨-, rfl⟩ | ⟨-, hold⟩
    · exact hlinks hdst
    · exact h.links ⟨k, c, src, dst, hold, hdst, rfl⟩

/-- Removing links. -/
theorem inv_removeLinks (h : cfg.Inv) (name : String) (f : Cell → Cell)
    (hf : ∀ {cell src dst}, MapEntry (f cell).neighbors src dst → MapEntry cell.neighbors src dst) :
    (((cfg.map[name]?).map fun cell => cfg.setCell name (f cell)).getD cfg).Inv := by
  cases hfound : cfg.map[name]? with
  | none => exact h
  | some cell =>
    refine inv_setCell h hfound fun hdst => ?_
    obtain ⟨key, -, hkey⟩ := MapEntry.getElem?_eq_some_iff.1 hfound
    exact h.links ⟨key, cell, _, _, hkey, hf hdst, rfl⟩

theorem Inv.disconnect (h : cfg.Inv) (srcName : String) (srcSide : Direction) :
    (cfg.edit (.disconnect srcName srcSide)).Inv :=
  inv_removeLinks h srcName (·.removeSide srcSide) fun hdst => (MapEntry.mapEntry_filter.1 hdst).1

theorem Inv.disconnectAt (h : cfg.Inv) (srcName : String) (srcSide : Direction) (position : ℚ) :
    (cfg.edit (.disconnectAt srcName srcSide position)).Inv := by
  refine inv_removeLinks h srcName (·.removeAt srcSide position) fun {cell src dst} hdst => ?_
  unfold Cell.removeAt at hdst
  split at hdst
  · exact (MapEntry.mapEntry_erase.1 hdst).2
  · exact hdst

theorem decides_connect (h : cfg.Inv) (srcName : String) (srcSide : Direction) (src : ℚ × ℚ)
    (dstName : String) (dst : ℚ × ℚ) :
    cfg.Decides (.connect srcName srcSide src dstName dst)
      (cfg.edit (.connect srcName srcSide src dstName dst)) := by
  change cfg.Decides _ ((cfg.connect srcName srcSide src dstName dst).getD cfg)
  unfold Config.connect
  cases hfound : cfg.map[cfg.getCanonicalName srcName]? with
  | none =>
    refine decides_of_inv (fun cell hcell => ?_) h
    rw [hfound] at hcell
    cases hcell
  | some cell =>
    by_cases hblocked :
        (!cell.hasEdge ⟨"", srcSide, src⟩ && cell.overlaps ⟨"", srcSide, src⟩) = true
    · refine decides_of_inv (fun cell' hcell' hfree => ?_) (by simpa [Cell.add, hblocked] using h)
      obtain rfl := Option.some.inj (hfound.symm.trans hcell')
      rcases hfree with hfree | hfree <;> simp [hfree] at hblocked
    have hadd : cell.add ⟨"", srcSide, src⟩ ⟨dstName, srcSide, dst⟩ = some { cell with
        neighbors := (cell.neighbors.erase ⟨"", srcSide, src⟩).insert ⟨"", srcSide, src⟩
          ⟨dstName, srcSide, dst⟩ } := by
      rw [Cell.add, if_neg hblocked]
    have hfree : cell.hasEdge ⟨"", srcSide, src⟩ = true ∨
        cell.overlaps ⟨"", srcSide, src⟩ = false := by
      cases hedge : cell.hasEdge ⟨"", srcSide, src⟩ with
      | true => exact .inl rfl
      | false => exact .inr (by simpa [hedge] using hblocked)
    simp only [hadd, Option.map_some, Option.getD_some]
    refine ⟨fun hsound => inv_setCell h hfound fun hdst => ?_, fun hnot hwf => hnot fun _ _ _ => ?_⟩
    · rcases MapEntry.mapEntry_insert.1 hdst with ⟨-, rfl⟩ | ⟨-, hold⟩
      · exact hsound cell hfound hfree
      · obtain ⟨key, -, hkey⟩ := MapEntry.getElem?_eq_some_iff.1 hfound
        exact h.links ⟨key, cell, _, _, hkey, (MapEntry.mapEntry_erase.1 hold).2, rfl⟩
    · obtain ⟨key, -, hentries⟩ := mapEntry_setCell _ hfound
      exact hwf.mem_of_linksTo dstName ⟨key, _, _, _, hentries.2 (.inl ⟨rfl, rfl⟩),
        MapEntry.mapEntry_insert.2 (.inl ⟨rfl, rfl⟩), rfl⟩

/-! ### Renaming -/

section Rename

variable {oldName newName oldCanonical : String} {cell : Cell}

theorem mapEntry_replaceScreen (hnew : newName ∉ cfg.map.erase oldCanonical) {k : String}
    {c : Cell} :
    MapEntry (cfg.replaceScreen oldCanonical newName cell).map k c ↔
      k = newName ∧ c = cell ∨
        CaselessCmp.cmp oldCanonical k ≠ .eq ∧ MapEntry cfg.map k c := by
  unfold replaceScreen
  rw [MapEntry.mapEntry_insertIfNew hnew, MapEntry.mapEntry_erase]

theorem mapEntry_names_replaceScreen (cell : Cell)
    (hnew : newName ∉ cfg.nameToCanonicalName.erase oldCanonical) {n c : String} :
    MapEntry (cfg.replaceScreen oldCanonical newName cell).nameToCanonicalName n c ↔
      n = newName ∧ c = newName ∨
        CaselessCmp.cmp oldCanonical n ≠ .eq ∧ MapEntry cfg.nameToCanonicalName n c := by
  unfold replaceScreen
  rw [MapEntry.mapEntry_insertIfNew hnew, MapEntry.mapEntry_erase]

theorem mapEntry_renameLinks {k : String} {c : Cell} :
    MapEntry (cfg.renameLinks oldName newName).map k c ↔ ∃ c₀, MapEntry cfg.map k c₀ ∧
      c = c₀.rename (cfg.isName (cfg.getCanonicalName oldName)) newName := MapEntry.mapEntry_map

/-- Where the links lead after the renaming. -/
theorem linksTo_renameLinks {name : String} :
    (cfg.renameLinks oldName newName).LinksTo name ↔ ∃ d, cfg.LinksTo d ∧
      name = if cfg.isName (cfg.getCanonicalName oldName) d then newName else d := by
  constructor
  · rintro ⟨key, c, src, dst, hkey, hdst, rfl⟩
    obtain ⟨c₀, hkey₀, rfl⟩ := mapEntry_renameLinks.1 hkey
    obtain ⟨dst₀, hdst₀, rfl⟩ := MapEntry.mapEntry_map.1 hdst
    refine ⟨dst₀.name, ⟨key, c₀, src, dst₀, hkey₀, hdst₀, rfl⟩, ?_⟩
    split_ifs <;> rfl
  · rintro ⟨d, ⟨key, c, src, dst, hkey, hdst, rfl⟩, rfl⟩
    refine ⟨key, _, src, _, mapEntry_renameLinks.2 ⟨c, hkey, rfl⟩,
      MapEntry.mapEntry_map.2 ⟨dst, hdst, rfl⟩, ?_⟩
    split_ifs <;> rfl

/-- The links are those of the screen under its new name and of the other screens. -/
theorem linksTo_replaceScreen (hcell : MapEntry cfg.map oldCanonical cell)
    (hnew : newName ∉ cfg.map.erase oldCanonical) {name : String} :
    (cfg.replaceScreen oldCanonical newName cell).LinksTo name ↔ cfg.LinksTo name := by
  constructor
  · rintro ⟨key, c, src, dst, hkey, hdst, rfl⟩
    rcases (mapEntry_replaceScreen hnew).1 hkey with ⟨-, rfl⟩ | ⟨-, hold⟩
    · exact ⟨oldCanonical, _, src, dst, hcell, hdst, rfl⟩
    · exact ⟨key, c, src, dst, hold, hdst, rfl⟩
  · rintro ⟨key, c, src, dst, hkey, hdst, rfl⟩
    by_cases hcmp : CaselessCmp.cmp oldCanonical key = .eq
    · obtain rfl := MapEntry.eq_of_cmp hcell hkey hcmp
      obtain rfl := hcell.unique_value hkey
      exact ⟨newName, _, src, dst, (mapEntry_replaceScreen hnew).2 (.inl ⟨rfl, rfl⟩), hdst, rfl⟩
    · exact ⟨key, c, src, dst, (mapEntry_replaceScreen hnew).2 (.inr ⟨hcmp, hkey⟩), hdst, rfl⟩

/-- The new name is free once the old one is gone, or the rename is refused. -/
theorem Inv.notMem_erase (h : cfg.Inv) {oldName newName : String}
    (hfree : CaselessCmp.equal oldName newName = true ∨ newName ∉ cfg.nameToCanonicalName) :
    newName ∉ cfg.map.erase (cfg.getCanonicalName oldName) := by
  intro hmem
  obtain ⟨hne, hmem⟩ := Std.TreeMap.mem_erase.1 hmem
  obtain ⟨key, c, hcmp, hkey⟩ := MapEntry.mem_iff.1 hmem
  rcases hfree with heq | hfree
  · -- the new name is another spelling of the screen's own name
    have hold : cfg.getCanonicalName oldName = key := by
      rw [getCanonicalName, MapEntry.getElem?_eq_some_iff.2
        ⟨key, Std.TransCmp.eq_trans (equal_iff.1 heq) hcmp, h.own hkey⟩]
      rfl
    exact hne (hold ▸ Std.OrientedCmp.eq_symm hcmp)
  · exact hfree (MapEntry.mem_iff.2 ⟨key, key, hcmp, h.own hkey⟩)

/-- A screen is renamed under its own name. -/
theorem inv_rename_of_own (h : cfg.Inv)
    (hcell : MapEntry cfg.map (cfg.getCanonicalName oldName) cell)
    (hfree : CaselessCmp.equal oldName newName = true ∨ newName ∉ cfg.nameToCanonicalName)
    (hown : CaselessCmp.equal oldName (cfg.getCanonicalName oldName) = true) :
    (((cfg.replaceScreen (cfg.getCanonicalName oldName) newName cell).renameLinks oldName
      newName).renameAliases (cfg.getCanonicalName oldName) newName).Inv := by
  have hmap := h.notMem_erase hfree
  generalize cfg.getCanonicalName oldName = oldCanonical at hcell hown hmap ⊢
  have hnames : newName ∉ cfg.nameToCanonicalName.erase oldCanonical := by
    intro hmem
    obtain ⟨hne, hmem⟩ := Std.TreeMap.mem_erase.1 hmem
    rcases hfree with heq | hfree
    · exact hne (Std.TransCmp.eq_trans (Std.OrientedCmp.eq_symm (equal_iff.1 hown))
        (equal_iff.1 heq))
    · exact hfree hmem
  refine ⟨fun {n c} hentry => ?_, fun {k c} hentry => ?_, fun {n} hlink => ?_⟩
  · -- an alias of the screen stands for its new name
    obtain ⟨c₀, hentry₀, rfl⟩ := MapEntry.mapEntry_map.1 hentry
    have hnew : ∃ cell', MapEntry ((cfg.replaceScreen oldCanonical newName cell).renameLinks oldName
        newName).map newName cell' :=
      ⟨_, mapEntry_renameLinks.2 ⟨cell, (mapEntry_replaceScreen hmap).2 (.inl ⟨rfl, rfl⟩), rfl⟩⟩
    split_ifs with hc
    · exact hnew
    · rcases (mapEntry_names_replaceScreen cell hnames).1 hentry₀ with ⟨-, rfl⟩ | ⟨-, hold⟩
      · exact hnew
      · obtain ⟨c', hc'⟩ := h.names hold
        refine ⟨_, mapEntry_renameLinks.2 ⟨c', (mapEntry_replaceScreen hmap).2 (.inr ⟨?_, hc'⟩),
          rfl⟩⟩
        exact fun hcmp => hc (equal_iff.2 (Std.OrientedCmp.eq_symm hcmp))
  · obtain ⟨c₀, hentry₀, rfl⟩ := mapEntry_renameLinks.1 hentry
    rcases (mapEntry_replaceScreen hmap).1 hentry₀ with ⟨rfl, -⟩ | ⟨hne, hold⟩
    · refine MapEntry.mapEntry_map.2
        ⟨_, (mapEntry_names_replaceScreen cell hnames).2 (.inl ⟨rfl, rfl⟩), ?_⟩
      split_ifs <;> rfl
    · refine MapEntry.mapEntry_map.2
        ⟨k, (mapEntry_names_replaceScreen cell hnames).2 (.inr ⟨hne, h.own hold⟩), ?_⟩
      rw [if_neg fun heq => hne (Std.OrientedCmp.eq_symm (equal_iff.1 heq))]
  · obtain ⟨d, hlink₀, rfl⟩ := linksTo_renameLinks.1 hlink
    have hd := h.links ((linksTo_replaceScreen hcell hmap).1 hlink₀)
    refine Std.TreeMap.mem_map.2 ?_
    split_ifs with hname
    · exact MapEntry.mem ((mapEntry_names_replaceScreen cell hnames).2 (.inl ⟨rfl, rfl⟩))
    · obtain ⟨n, c, hn, hentry⟩ := MapEntry.mem_iff.1 hd
      refine MapEntry.mem_iff.2
        ⟨n, c, hn, (mapEntry_names_replaceScreen cell hnames).2
          (.inr ⟨fun hcmp => hname ?_, hentry⟩)⟩
      -- the link led to the screen by its own name
      have hold : CaselessCmp.cmp d oldName = .eq := Std.TransCmp.eq_trans hn
        (Std.TransCmp.eq_trans (Std.OrientedCmp.eq_symm hcmp)
          (Std.OrientedCmp.eq_symm (equal_iff.1 hown)))
      unfold isName getCanonicalName
      rw [Std.TreeMap.getElem?_congr hold]
      exact equal_iff.2 Std.ReflCmp.compare_self

/-- Renaming a screen under an alias leaves the alias behind. -/
theorem not_wellFormed_of_alias (h : cfg.Inv)
    (hfree : CaselessCmp.equal oldName newName = true ∨ newName ∉ cfg.nameToCanonicalName)
    (hname : oldName ∈ cfg.nameToCanonicalName)
    (halias : CaselessCmp.equal oldName (cfg.getCanonicalName oldName) ≠ true) :
    ¬((cfg.replaceScreen (cfg.getCanonicalName oldName) newName cell).renameLinks oldName
      newName).WellFormed := by
  intro hwf
  have hmap := h.notMem_erase hfree
  obtain ⟨n, c, hn, hentry⟩ := MapEntry.mem_iff.1 hname
  have hc : cfg.getCanonicalName oldName = c := by
    rw [getCanonicalName, MapEntry.getElem?_eq_some_iff.2 ⟨n, hn, hentry⟩]
    rfl
  rw [hc] at hwf hmap halias
  have hne : CaselessCmp.cmp c n ≠ .eq := fun hcmp =>
    halias (equal_iff.2 (Std.TransCmp.eq_trans hn (Std.OrientedCmp.eq_symm hcmp)))
  have hkept : MapEntry ((cfg.replaceScreen c newName cell).renameLinks oldName
      newName).nameToCanonicalName n c :=
    MapEntry.insertIfNew (MapEntry.mapEntry_erase.2 ⟨hne, hentry⟩)
  obtain ⟨cell', hkey⟩ := isKey_iff.1 (hwf.names n c hkept.2)
  obtain ⟨c₀, hkey, -⟩ := mapEntry_renameLinks.1 hkey
  rcases (mapEntry_replaceScreen hmap).1 hkey with ⟨rfl, -⟩ | ⟨hself, -⟩
  · -- the new name would be the old one
    rcases hfree with heq | hfree
    · exact halias heq
    · obtain ⟨cell'', hown⟩ := h.names hentry
      exact hfree (h.own hown).mem
  · exact hself Std.ReflCmp.compare_self

/-- An unknown name stands for the screen with the empty name. -/
theorem decides_rename_unknown (h : cfg.Inv) (hcell : MapEntry cfg.map "" cell)
    (hname : oldName ∉ cfg.nameToCanonicalName)
    (hfree : CaselessCmp.equal oldName newName = true ∨ newName ∉ cfg.nameToCanonicalName) :
    let cfg' := (cfg.replaceScreen "" newName cell).renameLinks oldName newName
    let sound := (∀ name, MapEntry cfg.nameToCanonicalName name "" → name = "") ∧
      (CaselessCmp.equal oldName newName = true → ¬cfg.LinksTo "")
    (sound → cfg'.Inv) ∧ (¬sound → ¬cfg'.WellFormed) := by
  intro cfg' sound
  have hnew : newName ∉ cfg.nameToCanonicalName := by
    intro hmem
    rcases hfree with heq | hfree
    · exact hname ((Std.TreeMap.mem_congr (equal_iff.1 heq)).2 hmem)
    · exact hfree hmem
  have hempty : "" ∈ cfg.nameToCanonicalName := (h.own hcell).mem
  have hmap : newName ∉ cfg.map.erase "" := by
    intro hmem
    obtain ⟨key, c, hcmp, hkey⟩ := MapEntry.mem_iff.1 (Std.TreeMap.mem_erase.1 hmem).2
    exact hnew (MapEntry.mem_iff.2 ⟨key, key, hcmp, h.own hkey⟩)
  have hnames : newName ∉ cfg.nameToCanonicalName.erase "" := fun hmem =>
    hnew (Std.TreeMap.mem_erase.1 hmem).2
  have hne : CaselessCmp.cmp "" newName ≠ .eq := fun hcmp =>
    hnew ((Std.TreeMap.mem_congr hcmp).1 hempty)
  have hgone : "" ∉ (cfg.replaceScreen "" newName cell).nameToCanonicalName := by
    intro hmem
    obtain ⟨n, c, hcmp, hentry⟩ := MapEntry.mem_iff.1 hmem
    rcases (mapEntry_names_replaceScreen cell hnames).1 hentry with ⟨rfl, -⟩ | ⟨hother, -⟩
    · exact hne hcmp
    · exact hother hcmp
  have hnone : (cfg.replaceScreen "" newName cell).getCanonicalName "" = "" := by
    rw [getCanonicalName, Std.TreeMap.getElem?_eq_none hgone]
    rfl
  constructor
  · rintro ⟨haliases, hlinks⟩
    refine ⟨fun {n c} hentry => ?_, fun {k c} hentry => ?_, fun {n} hlink => ?_⟩
    · rcases (mapEntry_names_replaceScreen cell hnames).1 hentry with ⟨-, rfl⟩ | ⟨hother, hold⟩
      · exact ⟨_, mapEntry_renameLinks.2 ⟨cell, (mapEntry_replaceScreen hmap).2 (.inl ⟨rfl, rfl⟩),
          rfl⟩⟩
      · obtain ⟨c', hc'⟩ := h.names hold
        refine ⟨_, mapEntry_renameLinks.2 ⟨c', (mapEntry_replaceScreen hmap).2 (.inr ⟨?_, hc'⟩),
          rfl⟩⟩
        intro hcmp
        obtain rfl := cmp_empty (Std.OrientedCmp.eq_symm hcmp)
        exact hother (haliases n hold ▸ Std.ReflCmp.compare_self)
    · obtain ⟨c₀, hentry₀, rfl⟩ := mapEntry_renameLinks.1 hentry
      rcases (mapEntry_replaceScreen hmap).1 hentry₀ with ⟨rfl, -⟩ | ⟨hother, hold⟩
      · exact (mapEntry_names_replaceScreen cell hnames).2 (.inl ⟨rfl, rfl⟩)
      · exact (mapEntry_names_replaceScreen cell hnames).2 (.inr ⟨hother, h.own hold⟩)
    · obtain ⟨d, hlink₀, rfl⟩ := linksTo_renameLinks.1 hlink
      have hlink₀ := (linksTo_replaceScreen hcell hmap).1 hlink₀
      split_ifs with hrenamed
      · exact ((mapEntry_names_replaceScreen cell hnames).2 (.inl ⟨rfl, rfl⟩)).mem
      · obtain ⟨n, c, hn, hentry⟩ := MapEntry.mem_iff.1 (h.links hlink₀)
        refine MapEntry.mem_iff.2
          ⟨n, c, hn, (mapEntry_names_replaceScreen cell hnames).2 (.inr ⟨fun hcmp => ?_, hentry⟩)⟩
        -- the link led to the empty name, and it was renamed unless the names are equal
        obtain rfl := cmp_empty (Std.TransCmp.eq_trans hn (Std.OrientedCmp.eq_symm hcmp))
        by_cases heq : CaselessCmp.equal oldName newName = true
        · exact hlinks heq hlink₀
        · have hunknown : oldName ∉ (cfg.replaceScreen "" newName cell).nameToCanonicalName := by
            intro hmem
            obtain ⟨n', c', hcmp', hentry'⟩ := MapEntry.mem_iff.1 hmem
            rcases (mapEntry_names_replaceScreen cell hnames).1 hentry' with ⟨rfl, -⟩ | ⟨-, hold⟩
            · exact heq (equal_iff.2 hcmp')
            · exact hname (MapEntry.mem_iff.2 ⟨n', c', hcmp', hold⟩)
          have hold : (cfg.replaceScreen "" newName cell).getCanonicalName oldName = "" := by
            rw [getCanonicalName, Std.TreeMap.getElem?_eq_none hunknown]
            rfl
          rw [isName, hnone, hold] at hrenamed
          exact hrenamed (equal_iff.2 Std.ReflCmp.compare_self)
  · intro hnot hwf
    refine hnot ⟨fun name hentry => ?_, fun heq hlink => ?_⟩
    · by_contra hother
      have hkept := (mapEntry_names_replaceScreen cell hnames).2 (.inr
        ⟨fun hcmp => hother (cmp_empty (Std.OrientedCmp.eq_symm hcmp)), hentry⟩)
      obtain ⟨c', hkey⟩ := isKey_iff.1 (hwf.names name "" hkept.2)
      obtain ⟨c₀, hkey, -⟩ := mapEntry_renameLinks.1 hkey
      rcases (mapEntry_replaceScreen hmap).1 hkey with ⟨hsame, -⟩ | ⟨hself, -⟩
      · exact hne (hsame ▸ Std.ReflCmp.compare_self)
      · exact hself Std.ReflCmp.compare_self
    · -- the link is not renamed
      have hold : (cfg.replaceScreen "" newName cell).getCanonicalName oldName = newName := by
        have hentry := (mapEntry_names_replaceScreen cell hnames).2 (.inl ⟨rfl, rfl⟩)
        rw [getCanonicalName, MapEntry.getElem?_eq_some_iff.2 ⟨newName, equal_iff.1 heq, hentry⟩]
        rfl
      have hstays : cfg'.LinksTo "" := by
        refine linksTo_renameLinks.2 ⟨"", (linksTo_replaceScreen hcell hmap).2 hlink, ?_⟩
        rw [isName, hnone, hold, if_neg fun hempty => hne (equal_iff.1 hempty)]
      exact hgone (hwf.mem_of_linksTo "" hstays)

theorem decides_renameScreen (h : cfg.Inv) (oldName newName : String) :
    cfg.Decides (.renameScreen oldName newName) (cfg.edit (.renameScreen oldName newName)) := by
  change cfg.Decides _ ((cfg.renameScreen oldName newName).getD cfg)
  simp only [Config.renameScreen]
  split
  · rename_i hnone
    refine decides_of_inv (fun hmem => ?_) h
    rw [Std.TreeMap.mem_iff_isSome_getElem?, hnone] at hmem
    cases hmem
  rename_i cell hsome
  have hmem : cfg.getCanonicalName oldName ∈ cfg.map :=
    Std.TreeMap.mem_iff_isSome_getElem?.2 (Option.isSome_of_eq_some hsome)
  have hcell : MapEntry cfg.map (cfg.getCanonicalName oldName) cell := by
    obtain ⟨cell', hentry⟩ := h.exists_canonical hmem
    obtain rfl := Option.some.inj (hsome.symm.trans hentry.2)
    exact hentry
  split_ifs with htaken hown
  · refine decides_of_inv (fun _ hfree => ?_) h
    have htaken : CaselessCmp.equal oldName newName = false ∧
        newName ∈ cfg.nameToCanonicalName := by
      simpa [← Std.TreeMap.mem_iff_contains] using htaken
    rcases hfree with hfree | hfree
    · rw [htaken.1] at hfree
      cases hfree
    · exact absurd htaken.2 hfree
  all_goals
    have hfree : CaselessCmp.equal oldName newName = true ∨ newName ∉ cfg.nameToCanonicalName := by
      by_contra hno
      obtain ⟨hne, hin⟩ := not_or.1 hno
      exact htaken (by simpa [← Std.TreeMap.mem_iff_contains] using
        ⟨Bool.eq_false_iff.2 hne, not_not.1 hin⟩)
  · exact decides_of_inv (fun _ _ => .inl hown) (inv_rename_of_own h hcell hfree hown)
  · by_cases hname : oldName ∈ cfg.nameToCanonicalName
    · refine ⟨fun hsound => ?_, fun _ => not_wellFormed_of_alias h hfree hname hown⟩
      rcases hsound hmem hfree with hown' | ⟨hunknown, -⟩
      · exact absurd hown' hown
      · exact absurd hname hunknown
    · have hempty : cfg.getCanonicalName oldName = "" := by
        rw [getCanonicalName, Std.TreeMap.getElem?_eq_none hname]
        rfl
      rw [hempty] at hcell hown ⊢
      obtain ⟨hright, hwrong⟩ := decides_rename_unknown h hcell hname hfree
      refine ⟨fun hsound => ?_, fun hnot => hwrong fun hgood => hnot fun _ _ => .inr ⟨hname, hgood⟩⟩
      rcases hsound hmem hfree with hown' | ⟨-, hgood⟩
      · exact absurd (hempty ▸ hown') hown
      · exact hright hgood

end Rename

/-! ### Every run -/

theorem Inv.decides (h : cfg.Inv) (e : Edit) : cfg.Decides e (cfg.edit e) := by
  cases e with
  | addScreen name => exact decides_of_inv trivial (h.addScreen name)
  | renameScreen oldName newName => exact decides_renameScreen h oldName newName
  | removeScreen name => exact decides_of_inv trivial (h.removeScreen name)
  | removeAllScreens => exact decides_of_inv trivial (inv_removeAllScreens cfg)
  | addAlias canonical «alias» => exact decides_addAlias h canonical «alias»
  | removeAlias «alias» => exact decides_removeAlias h «alias»
  | removeAliases canonical => exact decides_removeAliases h canonical
  | removeAllAliases => exact decides_removeAllAliases h
  | connect srcName srcSide src dstName dst =>
    exact decides_connect h srcName srcSide src dstName dst
  | disconnect srcName srcSide => exact decides_of_inv trivial (h.disconnect srcName srcSide)
  | disconnectAt srcName srcSide position =>
    exact decides_of_inv trivial (h.disconnectAt srcName srcSide position)

theorem inv_empty : Inv {} := by
  refine ⟨fun hentry => ?_, fun hentry => ?_, fun ⟨_, _, _, _, hkey, _⟩ => ?_⟩
  · exact absurd hentry MapEntry.not_mapEntry_empty
  · exact absurd hentry MapEntry.not_mapEntry_empty
  · exact absurd hkey MapEntry.not_mapEntry_empty

theorem inv_of_reachableVia (hcfg : lts.ReachableVia Sound cfg) : cfg.Inv := by
  refine hcfg.invariant ?_ fun cfg e cfg' h hsound hst => ?_
  · rintro _ rfl
    exact inv_empty
  · obtain rfl := Option.some.inj hst
    exact (h.decides e).1 hsound

/-- Throughout sound calls the maps and the links agree, and the first call that is not sound ends
this. -/
theorem wellFormed_of_reachableVia (hcfg : lts.ReachableVia Sound cfg) :
    cfg.WellFormed ∧ ∀ e, (cfg.edit e).WellFormed ↔ cfg.Sound e := by
  have h : cfg.Inv := inv_of_reachableVia hcfg
  refine ⟨h.wellFormed, fun e => ⟨fun hwf => ?_, fun hsound => ((h.decides e).1 hsound).wellFormed⟩⟩
  by_contra hnot
  exact (h.decides e).2 hnot hwf

/-- Two screens, one with an alias. -/
def aliased : Config :=
  ((edit {} (.addScreen "left")).edit (.addScreen "right")).edit (.addAlias "left" "lefty")

theorem reachableVia_aliased : lts.ReachableVia Sound aliased := by
  have hkey : ((edit {} (.addScreen "left")).edit (.addScreen "right")).IsKey "left" := by
    unfold IsKey
    decide +kernel
  exact .step (l := .addAlias "left" "lefty")
    (.step (l := .addScreen "right") (.step (l := .addScreen "left") (.init rfl) trivial rfl)
      trivial rfl) (fun _ _ => hkey) rfl

/-- Renaming a screen under its own name is sound. -/
theorem wellFormed_aliased :
    aliased.WellFormed ∧ (aliased.edit (.renameScreen "RIGHT" "Right")).WellFormed := by
  obtain ⟨hwf, hedit⟩ := wellFormed_of_reachableVia reachableVia_aliased
  refine ⟨hwf, (hedit _).2 fun _ _ => .inl ?_⟩
  decide +kernel

/-- Renaming a screen under its alias is not: the alias keeps the old name. -/
theorem not_wellFormed_of_reachable : ¬∀ cfg : Config, lts.Reachable cfg → cfg.WellFormed := by
  intro h
  have hreach : lts.Reachable (aliased.edit (.renameScreen "lefty" "middle")) :=
    .step (l := .renameScreen "lefty" "middle") reachableVia_aliased.reachable trivial rfl
  have hname : (aliased.edit (.renameScreen "lefty" "middle")).nameToCanonicalName[
      ("lefty" : String)]? = some "left" := by decide +kernel
  have hkey : (aliased.edit (.renameScreen "lefty" "middle")).map.getKey? "left" = none := by
    decide +kernel
  have hbad := (h _ hreach).names _ _ hname
  rw [IsKey, hkey] at hbad
  cases hbad

end Config

end InputLeap
