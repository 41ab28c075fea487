import InputLeap.Config.Edit

/-!
# Renaming a screen

After a renaming every name should lead to the screen it led to before, under its new name if it is
the renamed one, and so should every link.

## Main definitions

* `Config.renamed` : the name of a screen after the renaming.
* `Config.Renames` : two configurations are the same but for the name of a screen.

## Main results

* `Config.renames_iff` : a screen is renamed if it is called by its own name, and no link leads to
  another screen that has the empty name.
-/

namespace InputLeap

namespace Config

variable {cfg cfg' : Config} {oldName newName oldCanonical : String}

/-- The canonical name of a screen after the renaming. -/
def renamed (oldCanonical newName canonical : String) : String :=
  if canonical = oldCanonical then newName else canonical

/-- The links of a screen start from and lead to the same stretches of the same screens. -/
structure SameLinks (cfg cfg' : Config) (oldCanonical newName : String) (cell cell' : Cell) :
    Prop where
  links : ∀ src dst, MapEntry cell.neighbors src dst →
    ∃ dst', MapEntry cell'.neighbors src dst' ∧ dst'.side = dst.side ∧
      dst'.interval = dst.interval ∧
      cfg'.nameToCanonicalName[dst'.name]? =
        (cfg.nameToCanonicalName[dst.name]?).map (renamed oldCanonical newName)
  /-- There are no other links. -/
  others : ∀ src dst', MapEntry cell'.neighbors src dst' → ∃ dst, MapEntry cell.neighbors src dst

/-- The configurations are the same but for the name of a screen. -/
structure Renames (cfg cfg' : Config) (oldCanonical newName : String) : Prop where
  /-- A name other than that of the screen leads to the screen it led to. -/
  names : ∀ name c, CaselessCmp.equal name oldCanonical = false →
    cfg.nameToCanonicalName[name]? = some c →
      cfg'.nameToCanonicalName[name]? = some (renamed oldCanonical newName c)
  own : cfg'.nameToCanonicalName[newName]? = some newName
  /-- No other name is known. -/
  known : ∀ name, name ∈ cfg'.nameToCanonicalName → CaselessCmp.equal name newName = true ∨
    CaselessCmp.equal name oldCanonical = false ∧ name ∈ cfg.nameToCanonicalName
  screens : ∀ key cell, MapEntry cfg.map key cell →
    ∃ cell', MapEntry cfg'.map (renamed oldCanonical newName key) cell' ∧
      cell'.options = cell.options ∧ SameLinks cfg cfg' oldCanonical newName cell cell'
  /-- There are no other screens. -/
  others : ∀ key' cell', MapEntry cfg'.map key' cell' →
    ∃ key cell, MapEntry cfg.map key cell ∧ key' = renamed oldCanonical newName key
  globalOptions : cfg'.globalOptions = cfg.globalOptions
  inputFilterRules : cfg'.inputFilterRules = cfg.inputFilterRules
  hasLockToScreenAction : cfg'.hasLockToScreenAction = cfg.hasLockToScreenAction

/-! ### Looking names up -/

theorem getElem?_renameAliases (cfg : Config) (oldCanonical newName name : String) :
    (cfg.renameAliases oldCanonical newName).nameToCanonicalName[name]? =
      (cfg.nameToCanonicalName[name]?).map fun canonical =>
        if CaselessCmp.equal canonical oldCanonical then newName else canonical :=
  MapEntry.getElem?_map

/-- Names that count as equal and stand for screens as those are spelled are the same. -/
theorem WellFormed.eq_of_cmp (h : cfg.WellFormed) {name name' c c' : String}
    (hc : cfg.nameToCanonicalName[name]? = some c)
    (hc' : cfg.nameToCanonicalName[name']? = some c') (hcmp : CaselessCmp.cmp c c' = .eq) :
    c = c' := by
  obtain ⟨cell, hcell⟩ := isKey_iff.1 (h.names name c hc)
  obtain ⟨cell', hcell'⟩ := isKey_iff.1 (h.names name' c' hc')
  exact MapEntry.eq_of_cmp hcell hcell' hcmp

section Rename

variable {cell : Cell}

/-- What a renaming that succeeds does. -/
theorem of_renameScreen (hren : cfg.renameScreen oldName newName = some cfg') :
    ∃ cell, cfg.map[cfg.getCanonicalName oldName]? = some cell ∧
      (CaselessCmp.equal oldName newName = true ∨ newName ∉ cfg.nameToCanonicalName) ∧
      cfg' =
        let cfg₂ := (cfg.replaceScreen (cfg.getCanonicalName oldName) newName cell).renameLinks
          oldName newName
        if CaselessCmp.equal oldName (cfg.getCanonicalName oldName) then
          cfg₂.renameAliases (cfg.getCanonicalName oldName) newName
        else cfg₂ := by
  simp only [renameScreen] at hren
  split at hren
  · cases hren
  · rename_i cell hcell
    split_ifs at hren with htaken hown
    all_goals
      refine ⟨cell, hcell, ?_, ?_⟩
      · rw [Bool.and_eq_true, not_and_or, Bool.not_eq_true', Bool.not_eq_false,
          ← Std.TreeMap.mem_iff_contains] at htaken
        exact htaken
    · rw [if_pos hown]
      exact (Option.some.inj hren).symm
    · rw [if_neg hown]
      exact (Option.some.inj hren).symm

/-- The screen that is renamed. -/
theorem WellFormed.getCanonicalName_of_mem (h : cfg.WellFormed)
    (hold : oldName ∈ cfg.nameToCanonicalName) :
    cfg.nameToCanonicalName[oldName]? = some (cfg.getCanonicalName oldName) ∧
      cfg.IsKey (cfg.getCanonicalName oldName) := by
  obtain ⟨o, ho⟩ := Option.isSome_iff_exists.1 (Std.TreeMap.mem_iff_isSome_getElem?.1 hold)
  have hcanonical : cfg.getCanonicalName oldName = o := by
    rw [getCanonicalName, ho]
    rfl
  rw [hcanonical]
  exact ⟨ho, h.names oldName o ho⟩

/-- The new name is not that of another screen. -/
theorem WellFormed.notMem_erase_map (h : cfg.WellFormed)
    (ho : cfg.nameToCanonicalName[oldName]? = some oldCanonical)
    (hfree : CaselessCmp.equal oldName newName = true ∨ newName ∉ cfg.nameToCanonicalName) :
    newName ∉ cfg.map.erase oldCanonical := by
  intro hmem
  obtain ⟨hne, hmem⟩ := Std.TreeMap.mem_erase.1 hmem
  obtain ⟨key, c, hcmp, hkey⟩ := MapEntry.mem_iff.1 hmem
  have hname : cfg.nameToCanonicalName[newName]? = some key := by
    rw [Std.TreeMap.getElem?_congr hcmp]
    exact h.keys key (isKey_iff.2 ⟨c, hkey⟩)
  rcases hfree with heq | hfree
  · rw [Std.TreeMap.getElem?_congr (equal_iff.1 heq), hname] at ho
    obtain rfl := Option.some.inj ho
    exact hne (Std.OrientedCmp.eq_symm hcmp)
  · exact hfree (Std.TreeMap.mem_iff_isSome_getElem?.2 (Option.isSome_of_eq_some hname))

/-- The cells after the screen has its new name. -/
theorem mapEntry_renamed (hcell : MapEntry cfg.map oldCanonical cell)
    (hnew : newName ∉ cfg.map.erase oldCanonical) {key' : String} {cell' : Cell} :
    MapEntry ((cfg.replaceScreen oldCanonical newName cell).renameLinks oldName newName).map key'
        cell' ↔
      ∃ key c, MapEntry cfg.map key c ∧ key' = renamed oldCanonical newName key ∧
        let cfg₁ := cfg.replaceScreen oldCanonical newName cell
        cell' = c.rename (cfg₁.isName (cfg₁.getCanonicalName oldName)) newName := by
  rw [mapEntry_renameLinks]
  constructor
  · rintro ⟨c, hc, rfl⟩
    rcases (mapEntry_replaceScreen hnew).1 hc with ⟨rfl, rfl⟩ | ⟨hne, hold⟩
    · exact ⟨oldCanonical, _, hcell, (if_pos rfl).symm, rfl⟩
    · refine ⟨key', c, hold, (if_neg ?_).symm, rfl⟩
      rintro rfl
      exact hne Std.ReflCmp.compare_self
  · rintro ⟨key, c, hc, rfl, rfl⟩
    refine ⟨c, (mapEntry_replaceScreen hnew).2 ?_, rfl⟩
    unfold renamed
    split_ifs with hkey
    · subst hkey
      exact .inl ⟨rfl, hc.unique_value hcell⟩
    · exact .inr ⟨fun hcmp => hkey (MapEntry.eq_of_cmp hcell hc hcmp).symm, hc⟩

/-! ### Under the screen's own name -/

/-- The names before the aliases are changed. -/
theorem getElem?_replaceScreen (hown : CaselessCmp.cmp oldName oldCanonical = .eq)
    (hfree : CaselessCmp.equal oldName newName = true ∨ newName ∉ cfg.nameToCanonicalName)
    (name : String) :
    (cfg.replaceScreen oldCanonical newName cell).nameToCanonicalName[name]? =
      if CaselessCmp.cmp newName name = .eq then some newName
      else if CaselessCmp.cmp oldCanonical name = .eq then none
      else cfg.nameToCanonicalName[name]? := by
  have hnames : newName ∉ cfg.nameToCanonicalName.erase oldCanonical := by
    intro hmem
    obtain ⟨hne, hmem⟩ := Std.TreeMap.mem_erase.1 hmem
    rcases hfree with heq | hfree
    · exact hne (Std.TransCmp.eq_trans (Std.OrientedCmp.eq_symm hown) (equal_iff.1 heq))
    · exact hfree hmem
  unfold replaceScreen
  rw [Std.TreeMap.getElem?_insertIfNew, Std.TreeMap.getElem?_erase]
  simp only [hnames, not_false_eq_true, and_true]

/-- The names after a renaming. -/
theorem getElem?_renamed (hown : CaselessCmp.cmp oldName oldCanonical = .eq)
    (hfree : CaselessCmp.equal oldName newName = true ∨ newName ∉ cfg.nameToCanonicalName)
    (h : cfg.WellFormed) (ho : cfg.nameToCanonicalName[oldName]? = some oldCanonical)
    (name : String) :
    (((cfg.replaceScreen oldCanonical newName cell).renameLinks oldName newName).renameAliases
        oldCanonical newName).nameToCanonicalName[name]? =
      if CaselessCmp.cmp newName name = .eq then some newName
      else if CaselessCmp.cmp oldCanonical name = .eq then none
      else (cfg.nameToCanonicalName[name]?).map (renamed oldCanonical newName) := by
  rw [getElem?_renameAliases]
  change ((cfg.replaceScreen oldCanonical newName cell).nameToCanonicalName[name]?).map _ = _
  rw [getElem?_replaceScreen hown hfree]
  split_ifs
  · simp only [Option.map_some, ite_self]
  · rfl
  · refine Option.map_congr fun c hc => ?_
    unfold renamed
    have hsame : CaselessCmp.equal c oldCanonical = true ↔ c = oldCanonical := by
      refine ⟨fun heq => h.eq_of_cmp hc ho (equal_iff.1 heq), ?_⟩
      rintro rfl
      exact equal_iff.2 Std.ReflCmp.compare_self
    simp only [hsame]

/-- Where a link leads.  One that led to a screen with the empty name is renamed as if it led to the
screen that is gone. -/
theorem link_renamed (h : cfg.WellFormed)
    (ho : cfg.nameToCanonicalName[oldName]? = some oldCanonical)
    (hown : CaselessCmp.cmp oldName oldCanonical = .eq)
    (hfree : CaselessCmp.equal oldName newName = true ∨ newName ∉ cfg.nameToCanonicalName)
    {d c : String} (hd : cfg.nameToCanonicalName[d]? = some c) :
    let cfg₁ := cfg.replaceScreen oldCanonical newName cell
    ((cfg₁.renameLinks oldName newName).renameAliases oldCanonical newName).nameToCanonicalName[
          if cfg₁.isName (cfg₁.getCanonicalName oldName) d then newName else d]? =
        some (renamed oldCanonical newName c) ↔
      CaselessCmp.equal oldName newName = true ∨ c = oldCanonical ∨ c ≠ "" := by
  intro cfg₁
  have hlookup := fun name => @getElem?_replaceScreen _ _ _ _ cell hown hfree name
  have hrenamed := fun name => @getElem?_renamed _ _ _ _ cell hown hfree h ho name
  have hnew := hrenamed newName
  rw [if_pos Std.ReflCmp.compare_self] at hnew
  -- a link by the screen's own name led to it
  have hleads : CaselessCmp.cmp oldCanonical d = .eq → c = oldCanonical := by
    intro hcmp
    rw [← Std.TreeMap.getElem?_congr (Std.TransCmp.eq_trans hown hcmp), ho] at hd
    exact (Option.some.inj hd).symm
  have hself : renamed oldCanonical newName oldCanonical = newName := if_pos rfl
  have hstays : CaselessCmp.cmp newName d ≠ .eq → CaselessCmp.cmp oldCanonical d ≠ .eq →
      cfg₁.getCanonicalName d = c ∧ ((cfg₁.renameLinks oldName newName).renameAliases oldCanonical
        newName).nameToCanonicalName[d]? = some (renamed oldCanonical newName c) := by
    intro hne hne'
    rw [getCanonicalName, hlookup, hrenamed, if_neg hne, if_neg hne, if_neg hne', if_neg hne', hd]
    exact ⟨rfl, rfl⟩
  by_cases heq : CaselessCmp.equal oldName newName = true
  · have hcanonical : cfg₁.getCanonicalName oldName = newName := by
      rw [getCanonicalName, hlookup, if_pos (Std.OrientedCmp.eq_symm (equal_iff.1 heq))]
      rfl
    have hsame : CaselessCmp.cmp oldCanonical newName = .eq :=
      Std.TransCmp.eq_trans (Std.OrientedCmp.eq_symm hown) (equal_iff.1 heq)
    rw [hcanonical]
    refine iff_of_true ?_ (.inl heq)
    by_cases hd' : CaselessCmp.cmp newName d = .eq
    · have hmoved : cfg₁.isName newName d = true := by
        rw [isName, getCanonicalName, hlookup, if_pos hd']
        exact equal_iff.2 Std.ReflCmp.compare_self
      rw [if_pos hmoved, hnew, hleads (Std.TransCmp.eq_trans hsame hd'), hself]
    · obtain ⟨hc, hkept⟩ := hstays hd' fun hcmp =>
        hd' (Std.TransCmp.eq_trans (Std.OrientedCmp.eq_symm hsame) hcmp)
      rw [isName, hc]
      split_ifs with hmoved
      · have hcmp : CaselessCmp.cmp c oldCanonical = .eq :=
          Std.TransCmp.eq_trans (equal_iff.1 hmoved) (Std.OrientedCmp.eq_symm hsame)
        rw [hnew, h.eq_of_cmp hd ho hcmp, hself]
      · exact hkept
  · have hunknown : newName ∉ cfg.nameToCanonicalName := hfree.resolve_left heq
    have hd' : CaselessCmp.cmp newName d ≠ .eq := by
      intro hcmp
      refine hunknown (Std.TreeMap.mem_iff_isSome_getElem?.2 ?_)
      rw [Std.TreeMap.getElem?_congr hcmp, hd]
      rfl
    -- the old name is unknown by now
    have hcanonical : cfg₁.getCanonicalName oldName = "" := by
      rw [getCanonicalName, hlookup,
        if_neg fun hcmp => heq (equal_iff.2 (Std.OrientedCmp.eq_symm hcmp)),
        if_pos (Std.OrientedCmp.eq_symm hown)]
      rfl
    rw [hcanonical]
    by_cases hd'' : CaselessCmp.cmp oldCanonical d = .eq
    · have hmoved : cfg₁.isName "" d = true := by
        rw [isName, getCanonicalName, hlookup, if_neg hd', if_pos hd'']
        exact equal_iff.2 Std.ReflCmp.compare_self
      rw [if_pos hmoved, hnew, hleads hd'', hself]
      exact iff_of_true rfl (.inr (.inl rfl))
    · obtain ⟨hc, hkept⟩ := hstays hd' hd''
      rw [isName, hc]
      by_cases hempty : c = ""
      · rw [if_pos (equal_iff.2 (hempty ▸ Std.ReflCmp.compare_self)), hnew, Option.some.injEq]
        constructor
        · intro hren
          by_contra hnot
          obtain ⟨-, hother⟩ := not_or.1 hnot
          rw [renamed, if_neg fun hco => hother (.inl hco), hempty] at hren
          refine hunknown (Std.TreeMap.mem_iff_isSome_getElem?.2 ?_)
          rw [hren, h.keys "" (hempty ▸ h.names d c hd)]
          rfl
        · rintro (heq' | hco | hne)
          · exact absurd heq' heq
          · rw [hco, hself]
          · exact absurd hempty hne
      · rw [if_neg fun hmoved => hempty (cmp_empty (equal_iff.1 hmoved))]
        exact iff_of_true hkept (.inr (.inr hempty))

/-- The names under which the screens are known after a renaming. -/
theorem names_renamed (h : cfg.WellFormed)
    (ho : cfg.nameToCanonicalName[oldName]? = some oldCanonical)
    (hown : CaselessCmp.cmp oldName oldCanonical = .eq)
    (hfree : CaselessCmp.equal oldName newName = true ∨ newName ∉ cfg.nameToCanonicalName) :
    let cfg' := ((cfg.replaceScreen oldCanonical newName cell).renameLinks oldName
      newName).renameAliases oldCanonical newName
    (∀ name c, CaselessCmp.equal name oldCanonical = false →
      cfg.nameToCanonicalName[name]? = some c →
        cfg'.nameToCanonicalName[name]? = some (renamed oldCanonical newName c)) ∧
    cfg'.nameToCanonicalName[newName]? = some newName ∧
    ∀ name, name ∈ cfg'.nameToCanonicalName → CaselessCmp.equal name newName = true ∨
      CaselessCmp.equal name oldCanonical = false ∧ name ∈ cfg.nameToCanonicalName := by
  intro cfg'
  have hrenamed : ∀ name, cfg'.nameToCanonicalName[name]? = _ :=
    fun name => getElem?_renamed hown hfree h ho name
  refine ⟨fun name c hother hname => ?_, ?_, fun name hmem => ?_⟩
  · have hne : CaselessCmp.cmp oldCanonical name ≠ .eq := by
      intro hcmp
      rw [Bool.eq_false_iff] at hother
      exact hother (equal_iff.2 (Std.OrientedCmp.eq_symm hcmp))
    have hne' : CaselessCmp.cmp newName name ≠ .eq := by
      intro hcmp
      rcases hfree with heq | hfree
      · exact hne (Std.TransCmp.eq_trans (Std.OrientedCmp.eq_symm hown)
          (Std.TransCmp.eq_trans (equal_iff.1 heq) hcmp))
      · refine hfree (Std.TreeMap.mem_iff_isSome_getElem?.2 ?_)
        rw [Std.TreeMap.getElem?_congr hcmp, hname]
        rfl
    rw [hrenamed, if_neg hne', if_neg hne, hname]
    rfl
  · rw [hrenamed, if_pos Std.ReflCmp.compare_self]
  · rw [Std.TreeMap.mem_iff_isSome_getElem?, hrenamed] at hmem
    split_ifs at hmem with hnew hold
    · exact .inl (equal_iff.2 (Std.OrientedCmp.eq_symm hnew))
    · cases hmem
    · refine .inr ⟨?_, ?_⟩
      · rw [Bool.eq_false_iff]
        exact fun heq => hold (Std.OrientedCmp.eq_symm (equal_iff.1 heq))
      · rw [Option.isSome_map] at hmem
        exact Std.TreeMap.mem_iff_isSome_getElem?.2 hmem

/-- A renaming under the screen's own name goes wrong only for links to a screen with the empty
name. -/
theorem renames_iff_of_own (h : cfg.WellFormed)
    (ho : cfg.nameToCanonicalName[oldName]? = some oldCanonical)
    (hcell : MapEntry cfg.map oldCanonical cell)
    (hown : CaselessCmp.cmp oldName oldCanonical = .eq)
    (hfree : CaselessCmp.equal oldName newName = true ∨ newName ∉ cfg.nameToCanonicalName) :
    Renames cfg (((cfg.replaceScreen oldCanonical newName cell).renameLinks oldName
        newName).renameAliases oldCanonical newName) oldCanonical newName ↔
      CaselessCmp.equal oldName newName = true ∨ oldCanonical = "" ∨
        ∀ name, cfg.LinksTo name → cfg.nameToCanonicalName[name]? ≠ some "" := by
  have hmap := h.notMem_erase_map ho hfree
  have hcells := fun {key' cell'} => @mapEntry_renamed _ oldName _ _ _ hcell hmap key' cell'
  obtain ⟨hnames, hnew, hknown⟩ := @names_renamed _ _ _ _ cell h ho hown hfree
  have hlinks : ∀ {key c src dst}, MapEntry cfg.map key c → MapEntry c.neighbors src dst →
      ∃ canonical, cfg.nameToCanonicalName[dst.name]? = some canonical := by
    intro key c src dst hkey hdst
    have hmem := h.mem_of_linksTo dst.name ⟨key, c, src, dst, hkey, hdst, rfl⟩
    exact Option.isSome_iff_exists.1 (Std.TreeMap.mem_iff_isSome_getElem?.1 hmem)
  constructor
  · intro hren
    by_contra hnot
    obtain ⟨heq, hnot⟩ := not_or.1 hnot
    obtain ⟨hempty, hnot⟩ := not_or.1 hnot
    simp only [not_forall, not_not] at hnot
    obtain ⟨_, ⟨key, c, src, dst, hkey, hdst, rfl⟩, hd⟩ := hnot
    obtain ⟨cell', hcell', -, hsame⟩ := hren.screens key c hkey
    obtain rfl := hcell'.unique_value (hcells.2 ⟨key, c, hkey, rfl, rfl⟩)
    obtain ⟨dst', hdst', -, -, hlink⟩ := hsame.links src dst hdst
    obtain ⟨dst₀, hdst₀, rfl⟩ := MapEntry.mapEntry_map.1 hdst'
    obtain rfl := hdst.unique_value hdst₀
    rw [hd, apply_ite CellEdge.name] at hlink
    rcases (link_renamed h ho hown hfree hd).1 hlink with heq' | hco | hne
    · exact heq heq'
    · exact hempty hco.symm
    · exact hne rfl
  · intro hgood
    refine ⟨hnames, hnew, hknown, fun key c hkey => ?_, fun key' cell' hkey' => ?_, rfl, rfl, rfl⟩
    · refine ⟨_, hcells.2 ⟨key, c, hkey, rfl, rfl⟩, rfl, fun src dst hdst => ?_,
        fun src dst' hdst' => ?_⟩
      · refine ⟨_, MapEntry.mapEntry_map.2 ⟨dst, hdst, rfl⟩, ?_, ?_, ?_⟩
        · split_ifs <;> rfl
        · split_ifs <;> rfl
        · obtain ⟨canonical, hd⟩ := hlinks hkey hdst
          rw [hd, apply_ite CellEdge.name]
          refine (link_renamed h ho hown hfree hd).2 ?_
          rcases hgood with heq | rfl | hnone
          · exact .inl heq
          · exact .inr (em _)
          · refine .inr (.inr ?_)
            rintro rfl
            exact hnone dst.name ⟨key, c, src, dst, hkey, hdst, rfl⟩ hd
      · obtain ⟨dst, hdst, -⟩ := MapEntry.mapEntry_map.1 hdst'
        exact ⟨dst, hdst⟩
    · obtain ⟨key, c, hkey, rfl, -⟩ := hcells.1 hkey'
      exact ⟨key, c, hkey, rfl⟩

/-! ### Under an alias -/

/-- The alias stands for the old name of the screen. -/
theorem not_renames_of_alias
    (ho : cfg.nameToCanonicalName[oldName]? = some oldCanonical)
    (halias : CaselessCmp.cmp oldName oldCanonical ≠ .eq)
    (hown : cfg.nameToCanonicalName[oldCanonical]? = some oldCanonical)
    (hfree : CaselessCmp.equal oldName newName = true ∨ newName ∉ cfg.nameToCanonicalName) :
    ¬Renames cfg ((cfg.replaceScreen oldCanonical newName cell).renameLinks oldName newName)
      oldCanonical newName := by
  intro hren
  have hother : CaselessCmp.equal oldName oldCanonical = false :=
    Bool.eq_false_iff.2 fun heq => halias (equal_iff.1 heq)
  have hname := hren.names oldName oldCanonical hother ho
  have hkept : ((cfg.replaceScreen oldCanonical newName cell).renameLinks oldName
      newName).nameToCanonicalName[oldName]? = some oldCanonical := by
    change ((cfg.nameToCanonicalName.erase oldCanonical).insertIfNew newName newName)[oldName]? = _
    have hne : CaselessCmp.cmp oldCanonical oldName ≠ .eq :=
      fun hcmp => halias (Std.OrientedCmp.eq_symm hcmp)
    rw [Std.TreeMap.getElem?_insertIfNew, Std.TreeMap.getElem?_erase, if_neg hne, if_neg]
    · exact ho
    · rintro ⟨hcmp, hnew⟩
      refine hnew (Std.TreeMap.mem_iff_isSome_getElem?.2 ?_)
      rw [Std.TreeMap.getElem?_congr hcmp, Std.TreeMap.getElem?_erase, if_neg hne, ho]
      rfl
  rw [hkept, renamed, if_pos rfl] at hname
  obtain rfl := Option.some.inj hname
  rcases hfree with heq | hfree
  · exact halias (equal_iff.1 heq)
  · exact hfree (Std.TreeMap.mem_iff_isSome_getElem?.2 (Option.isSome_of_eq_some hown))

/-- Renaming a known screen changes its name, and nothing else, if and only if the screen is called
by its own name, and the new name is another spelling of it or no link leads to another screen that
has the empty name. -/
theorem renames_iff (h : cfg.WellFormed) (hold : oldName ∈ cfg.nameToCanonicalName)
    (hren : cfg.renameScreen oldName newName = some cfg') :
    Renames cfg cfg' (cfg.getCanonicalName oldName) newName ↔
      CaselessCmp.equal oldName (cfg.getCanonicalName oldName) = true ∧
        (CaselessCmp.equal oldName newName = true ∨ cfg.getCanonicalName oldName = "" ∨
          ∀ name, cfg.LinksTo name → cfg.nameToCanonicalName[name]? ≠ some "") := by
  obtain ⟨cell, hfound, hfree, rfl⟩ := of_renameScreen hren
  obtain ⟨ho, hkey⟩ := h.getCanonicalName_of_mem hold
  have hcell : MapEntry cfg.map (cfg.getCanonicalName oldName) cell := ⟨hkey, hfound⟩
  dsimp only
  split_ifs with hown
  · rw [renames_iff_of_own h ho hcell (equal_iff.1 hown) hfree]
    exact (and_iff_right hown).symm
  · refine iff_of_false ?_ fun hgood => hown hgood.1
    exact not_renames_of_alias ho (fun hcmp => hown (equal_iff.2 hcmp)) (h.keys _ hkey) hfree

/-- A screen is renamed under its own name in another case. -/
theorem renames_aliased : ∃ cfg', aliased.renameScreen "LEFT" "first" = some cfg' ∧
    Renames aliased cfg' (aliased.getCanonicalName "LEFT") "first" := by
  have hwf : aliased.WellFormed := (inv_of_reachableVia reachableVia_aliased).wellFormed
  have hsome : (aliased.renameScreen "LEFT" "first").isSome = true := by decide +kernel
  obtain ⟨cfg', hren⟩ := Option.isSome_iff_exists.1 hsome
  have hknown : "LEFT" ∈ aliased.nameToCanonicalName :=
    Std.TreeMap.mem_iff_contains.2 (by decide +kernel)
  refine ⟨cfg', hren, (renames_iff hwf hknown hren).2 ⟨by decide +kernel, .inr (.inr ?_)⟩⟩
  intro name _ hname
  have hempty : aliased.map.getKey? "" = none := by decide +kernel
  have hkey := hwf.names name "" hname
  rw [IsKey, hempty] at hkey
  cases hkey

/-- The alias of a screen that is renamed under its alias leads nowhere. -/
theorem not_renames_alias : ¬∀ (cfg cfg' : Config) (oldName newName : String), cfg.WellFormed →
    oldName ∈ cfg.nameToCanonicalName → cfg.renameScreen oldName newName = some cfg' →
      Renames cfg cfg' (cfg.getCanonicalName oldName) newName := by
  intro h
  have hwf : aliased.WellFormed := (inv_of_reachableVia reachableVia_aliased).wellFormed
  have hsome : (aliased.renameScreen "lefty" "middle").isSome = true := by decide +kernel
  obtain ⟨cfg', hren⟩ := Option.isSome_iff_exists.1 hsome
  have hfound : aliased.nameToCanonicalName[("lefty" : String)]? = some "left" := by
    decide +kernel
  have hknown : "lefty" ∈ aliased.nameToCanonicalName :=
    Std.TreeMap.mem_iff_contains.2 (by decide +kernel)
  have hname := (h aliased cfg' "lefty" "middle" hwf hknown hren).names "lefty" "left"
    (by decide +kernel) hfound
  have hkept : ((aliased.renameScreen "lefty" "middle").bind fun c =>
      c.nameToCanonicalName[("lefty" : String)]?) = some "left" := by decide +kernel
  have hnew : renamed (aliased.getCanonicalName "lefty") "middle" "left" = "middle" := by
    decide +kernel
  rw [hren, Option.bind_some, hname, hnew] at hkept
  exact absurd hkept (by decide)

end Rename

end Config

end InputLeap
