import Codewith.Config.Layers

/-!
# Network denies under merging

Hosts are compared in their normal form, and a table of domains may spell one host several ways.
When both layers list domains of a profile, each table is first reduced to one entry for each normal
form, the last one in the table's order, and the overlay's entries then replace those of the base.
-/

namespace Codewith.Config

open Lib
open NetworkProxy (normalizeHost)

/-! ### Paths into a value -/

namespace TomlValue

def field? : TomlValue → Text → Option TomlValue
  | .table entries, key => IndexMap.get? entries key
  | _, _ => none

def at? : TomlValue → List Text → Option TomlValue
  | value, [] => some value
  | value, key :: path => (value.field? key).bind fun child => child.at? path

/-- Wherever the value has something along the path, it is a table. -/
def TablesAlong : TomlValue → List Text → Prop
  | .table _, [] => True
  | .table entries, key :: path =>
      ∀ child, IndexMap.get? entries key = some child → child.TablesAlong path
  | _, _ => False

theorem TablesAlong.at? {path : List Text} :
    ∀ {value : TomlValue}, value.TablesAlong path → ∀ child, value.at? path = some child →
      ∃ table, child = .table table := by
  induction path with
  | nil =>
      intro value h child hchild
      obtain rfl := Option.some.inj hchild
      cases value <;> try contradiction
      exact ⟨_, rfl⟩
  | cons key path ih =>
      intro value h child hchild
      cases value <;> try contradiction
      obtain ⟨mid, hmid, hrest⟩ := Option.bind_eq_some_iff.mp hchild
      exact ih (h mid hmid) child hrest

end TomlValue

def networkDomainsPath (profile : Text) : List Text :=
  ["permissions".toList, profile, "network".toList, "domains".toList]

/-- The table `permissions.<profile>.network.domains`. -/
def networkDomains? (config : TomlValue) (profile : Text) : Option TomlTable :=
  match config.at? (networkDomainsPath profile) with
  | some (.table table) => some table
  | _ => none

def deny : TomlValue := .string "deny".toList

/-- Some key that normalises to the host has the value deny. -/
def Denies (config : TomlValue) (profile host : Text) : Prop :=
  ∃ table key, networkDomains? config profile = some table ∧ normalizeHost key = host ∧
    IndexMap.get? table key = some deny

/-! ### Merging tables -/

/-- The entries of the overlay, one after another. -/
def mergeTables (path : List Text) (base overlay : TomlTable) : TomlTable :=
  overlay.foldl
    (fun table entry =>
      mergeEntry (fun existing => mergeTomlValuesAtPath existing entry.2 (path ++ [entry.1]))
        (normalizedWithKeyAliases entry.2 (path ++ [entry.1])) table entry.1) base

theorem mergeTomlValuesAtPath_table (path : List Text) (base overlay : TomlTable) :
    mergeTomlValuesAtPath (.table base) (.table overlay) path =
      .table (mergeTables path (preparedTable path base) (preparedTable path overlay)) := by
  rw [mergeTomlValuesAtPath, mergeTables]
  congr 1
  exact List.foldl_attach (f := fun table (entry : Text × TomlValue) =>
    mergeEntry (fun existing => mergeTomlValuesAtPath existing entry.2 (path ++ [entry.1]))
      (normalizedWithKeyAliases entry.2 (path ++ [entry.1])) table entry.1)

theorem get?_mergeEntry {merged : TomlValue → TomlValue} {fresh : TomlValue} {table : TomlTable}
    {key key' : Text} :
    IndexMap.get? (mergeEntry merged fresh table key) key' =
      if key = key' then some ((IndexMap.get? table key).elim fresh merged)
      else IndexMap.get? table key' := by
  rw [mergeEntry]
  split
  · rename_i existing hexisting
    rw [IndexMap.get?_insert, hexisting]
    rfl
  · rename_i hnone
    rw [IndexMap.get?_insert, hnone]
    rfl

/-- What a merged table has under a key. -/
theorem get?_mergeTables {path : List Text} {base overlay : TomlTable}
    (hkeys : (overlay.map Prod.fst).Nodup) (key : Text) :
    IndexMap.get? (mergeTables path base overlay) key =
      match IndexMap.get? overlay key with
      | none => IndexMap.get? base key
      | some value => some ((IndexMap.get? base key).elim
          (normalizedWithKeyAliases value (path ++ [key]))
          fun existing => mergeTomlValuesAtPath existing value (path ++ [key])) := by
  induction overlay generalizing base with
  | nil => rfl
  | cons entry overlay ih =>
      rw [List.map_cons, List.nodup_cons] at hkeys
      have hrest := @ih (mergeEntry
        (fun existing => mergeTomlValuesAtPath existing entry.2 (path ++ [entry.1]))
        (normalizedWithKeyAliases entry.2 (path ++ [entry.1])) base entry.1) hkeys.2
      rw [mergeTables, List.foldl_cons]
      rw [mergeTables] at hrest
      rw [hrest, get?_mergeEntry, IndexMap.get?_cons]
      by_cases hkey : entry.1 = key
      · have hnone : IndexMap.get? overlay key = none := by
          rw [IndexMap.get?_eq_none_iff]
          rintro other hother rfl
          exact hkeys.1 (hkey ▸ List.mem_map_of_mem hother)
        rw [hnone, if_pos hkey, if_pos hkey, hkey]
      · rw [if_neg hkey, if_neg hkey]

theorem normalizeKeyAliases_eq {path : List Text} (h : path ≠ ["memories".toList])
    (table : TomlTable) : normalizeKeyAliases path table = table := by
  rw [normalizeKeyAliases, configKeyAliases, List.foldl_cons, applyKeyAlias, if_neg h]
  rfl

/-- A table that neither holds renamed keys nor domains is merged as it is. -/
theorem preparedTable_eq {path : List Text} (halias : path ≠ ["memories".toList])
    (hdomains : isPermissionNetworkDomainsPath path = false) (table : TomlTable) :
    preparedTable path table = table := by
  rw [preparedTable, normalizeKeyAliases_eq halias, hdomains]
  rfl

/-- Merging goes down a path on which the overlay has only tables. -/
theorem at?_merge {table : TomlTable} (path : List Text) :
    ∀ {before : List Text} {base overlay : TomlValue}, overlay.DistinctKeys →
      overlay.TablesAlong path → base.at? path = some (.table table) →
      (∀ front back, path = front ++ back → back ≠ [] →
        ∀ t, preparedTable (before ++ front) t = t) →
      (mergeTomlValuesAtPath base overlay before).at? path =
        some ((overlay.at? path).elim (.table table)
          fun value => mergeTomlValuesAtPath (.table table) value (before ++ path)) := by
  induction path with
  | nil =>
      intro before base overlay _ _ hbase _
      obtain rfl := Option.some.inj hbase
      simp [TomlValue.at?]
  | cons key path ih =>
      intro before base overlay hdistinct htables hbase hplain
      obtain ⟨child, hchild, hrest⟩ := Option.bind_eq_some_iff.mp hbase
      cases base <;> try contradiction
      rename_i baseTable
      cases overlay <;> try contradiction
      rename_i overlayTable
      have hover := TomlValue.distinctKeys_table_iff.mp hdistinct
      have hunchanged := hplain [] (key :: path) rfl (List.cons_ne_nil key path)
      rw [List.append_nil] at hunchanged
      rw [TomlValue.field?] at hchild
      rw [mergeTomlValuesAtPath_table, hunchanged, hunchanged]
      simp only [TomlValue.at?, TomlValue.field?, get?_mergeTables hover.keys]
      cases hvalue : IndexMap.get? overlayTable key with
      | none =>
          rw [hchild]
          simpa using hrest
      | some value =>
          rw [hchild]
          simp only [Option.elim_some, Option.bind_some]
          have hplain' : ∀ front back, path = front ++ back → back ≠ [] →
              ∀ t, preparedTable (before ++ [key] ++ front) t = t := by
            intro front back hpath hback
            have := hplain (key :: front) back (by rw [hpath, List.cons_append]) hback
            simpa using this
          have hmerged := ih (hover.values key value (IndexMap.mem_of_get? hvalue))
            (htables value hvalue) hrest hplain'
          rw [hmerged]
          simp

theorem preparedTable_above_domains {profile : Text} {front back : List Text}
    (h : networkDomainsPath profile = front ++ back) (hback : back ≠ []) (table : TomlTable) :
    preparedTable ([] ++ front) table = table := by
  rw [List.nil_append]
  have hlength : front.length < 4 := by
    have hpath : (networkDomainsPath profile).length = 4 := rfl
    have hpos := List.length_pos_iff.mpr hback
    rw [h, List.length_append] at hpath
    omega
  apply preparedTable_eq
  · rintro rfl
    have hfirst := congrArg List.head? h
    rw [networkDomainsPath, List.singleton_append, List.head?_cons, List.head?_cons] at hfirst
    exact absurd hfirst (by decide)
  · match front with
    | [] | [_] | [_, _] | [_, _, _] => rfl
    | _ :: _ :: _ :: _ :: _ =>
        simp only [List.length_cons] at hlength
        omega

theorem preparedTable_domains (profile : Text) (table : TomlTable) :
    preparedTable (networkDomainsPath profile) table = normalizeNetworkDomainKeys table := by
  have hpath : isPermissionNetworkDomainsPath (networkDomainsPath profile) = true := by
    simp [isPermissionNetworkDomainsPath, networkDomainsPath]
  have halias : networkDomainsPath profile ≠ ["memories".toList] := by simp [networkDomainsPath]
  rw [preparedTable, normalizeKeyAliases_eq halias, if_pos hpath]

/-- The domains of a merged profile: the overlay's, reduced to normal forms, over the base's. -/
theorem networkDomains?_merge {base overlay : TomlValue} {profile : Text} {table : TomlTable}
    (hdistinct : overlay.DistinctKeys) (htables : overlay.TablesAlong (networkDomainsPath profile))
    (hbase : networkDomains? base profile = some table) :
    networkDomains? (mergeTomlValues base overlay) profile =
      some ((networkDomains? overlay profile).elim table fun overlayTable =>
        mergeTables (networkDomainsPath profile) (normalizeNetworkDomainKeys table)
          (normalizeNetworkDomainKeys overlayTable)) := by
  have hat : base.at? (networkDomainsPath profile) = some (.table table) := by
    rw [networkDomains?] at hbase
    split at hbase
    · rename_i found hfound
      rw [hfound, Option.some.inj hbase]
    · cases hbase
  have hmerge := @at?_merge table (networkDomainsPath profile) [] base overlay hdistinct htables hat
    fun front back hpath hback => preparedTable_above_domains hpath hback
  rw [networkDomains?, networkDomains?, mergeTomlValues, hmerge]
  have hat' := htables.at?
  cases hover : overlay.at? (networkDomainsPath profile) with
  | none => rfl
  | some value =>
      obtain ⟨overlayTable, rfl⟩ := hat' value hover
      rw [Option.elim_some, List.nil_append, mergeTomlValuesAtPath_table, preparedTable_domains,
        preparedTable_domains]
      rfl

/-! ### The value of a host -/

/-- The value of the last key that normalises to `key`. -/
def lastSpelled (table : TomlTable) (key : Text) : Option TomlValue :=
  (table.reverse.find? fun entry => normalizeHost entry.1 = key).map Prod.snd

theorem get?_normalizeNetworkDomainKeys (table : TomlTable) (key : Text) :
    IndexMap.get? (normalizeNetworkDomainKeys table) key = lastSpelled table key := by
  rw [normalizeNetworkDomainKeys, IndexMap.get?_foldl_insert, IndexMap.get?_nil, Option.or_none]
  rfl

theorem nodup_keys_normalizeNetworkDomainKeys (table : TomlTable) :
    ((normalizeNetworkDomainKeys table).map Prod.fst).Nodup :=
  IndexMap.nodup_keys_foldl_insert List.nodup_nil

theorem normalizedWithKeyAliases_eq_string {value : TomlValue} {path : List Text} {text : Text} :
    normalizedWithKeyAliases value path = .string text ↔ value = .string text := by
  cases value <;> simp [normalizedWithKeyAliases]

theorem mergeTomlValuesAtPath_eq_string {base overlay : TomlValue} {path : List Text}
    {text : Text} :
    mergeTomlValuesAtPath base overlay path = .string text ↔ overlay = .string text := by
  cases overlay with
  | table entries =>
      cases base with
      | table baseEntries => simp [mergeTomlValuesAtPath]
      | _ => simp [mergeTomlValuesAtPath, normalizedWithKeyAliases]
  | _ => simp [mergeTomlValuesAtPath, normalizedWithKeyAliases]

/-- A merged table denies a key when the overlay does, or leaves alone a deny of the base. -/
theorem get?_mergeTables_eq_deny {path : List Text} {base overlay : TomlTable}
    (hkeys : (overlay.map Prod.fst).Nodup) (key : Text) :
    IndexMap.get? (mergeTables path base overlay) key = some deny ↔
      (IndexMap.get? overlay key).or (IndexMap.get? base key) = some deny := by
  rw [get?_mergeTables hkeys]
  cases IndexMap.get? overlay key with
  | none => rfl
  | some value =>
      cases IndexMap.get? base key with
      | none => simp [deny, normalizedWithKeyAliases_eq_string]
      | some existing => simp [deny, mergeTomlValuesAtPath_eq_string]

/-- Some key of the profile's domains normalises to the host. -/
def Mentions (config : TomlValue) (profile host : Text) : Prop :=
  ∃ table key value, networkDomains? config profile = some table ∧ (key, value) ∈ table ∧
    normalizeHost key = host

/-- The overlay lists no domains for the profile, or the host has a spelling in normal form whose
last key, in the overlay's table and else in the base's, is a deny. -/
def DenySpelledLast (base overlay : TomlValue) (profile host : Text) : Prop :=
  networkDomains? overlay profile = none ∨
    ∃ key, normalizeHost key = host ∧
      (lastSpelled ((networkDomains? overlay profile).getD []) key).or
        (lastSpelled ((networkDomains? base profile).getD []) key) = some deny

/-- When both layers list domains, a merged deny is one of the last spellings. -/
theorem denies_merge_tables_iff {base overlay : Layer} {profile host : Text}
    {table overlayTable : TomlTable} (htable : networkDomains? base.value profile = some table)
    (hoverlay : networkDomains? overlay.value profile = some overlayTable)
    (htables : overlay.value.TablesAlong (networkDomainsPath profile)) :
    Denies (base.merge overlay).value profile host ↔
      ∃ key, normalizeHost key = host ∧
        (lastSpelled overlayTable key).or (lastSpelled table key) = some deny := by
  have hlookup : ∀ key, IndexMap.get? (mergeTables (networkDomainsPath profile)
      (normalizeNetworkDomainKeys table) (normalizeNetworkDomainKeys overlayTable)) key =
        some deny ↔ (lastSpelled overlayTable key).or (lastSpelled table key) = some deny := by
    intro key
    rw [get?_mergeTables_eq_deny (nodup_keys_normalizeNetworkDomainKeys overlayTable),
      get?_normalizeNetworkDomainKeys, get?_normalizeNetworkDomainKeys]
  rw [Denies, Layer.merge, networkDomains?_merge overlay.distinct htables htable, hoverlay]
  simp only [Option.elim_some, Option.some.injEq]
  constructor
  · rintro ⟨_, key, rfl, hkey, hvalue⟩
    exact ⟨key, hkey, (hlookup key).mp hvalue⟩
  · rintro ⟨key, hkey, hvalue⟩
    exact ⟨_, key, rfl, hkey, (hlookup key).mpr hvalue⟩

theorem denies_merge_iff {base overlay : Layer} {profile host : Text}
    (hbase : Denies base.value profile host)
    (htables : overlay.value.TablesAlong (networkDomainsPath profile)) :
    Denies (base.merge overlay).value profile host ↔
      DenySpelledLast base.value overlay.value profile host := by
  obtain ⟨table, key, htable, hkey, hdeny⟩ := hbase
  rw [DenySpelledLast, htable]
  cases hoverlay : networkDomains? overlay.value profile with
  | none =>
      -- The base's table is left as it is.
      have hmerge := networkDomains?_merge overlay.distinct htables htable
      rw [hoverlay] at hmerge
      exact iff_of_true ⟨table, key, hmerge, hkey, hdeny⟩ (.inl rfl)
  | some overlayTable =>
      rw [denies_merge_tables_iff htable hoverlay htables]
      simp

/-! ### A layer with one profile -/

section OneProfile

variable (profile : Text) (table : TomlTable)

def domainsConfig : TomlValue :=
  .table [("permissions".toList, .table [(profile, .table [("network".toList,
    .table [("domains".toList, .table table)])])])]

theorem networkDomains?_domainsConfig :
    networkDomains? (domainsConfig profile table) profile = some table := by
  simp [networkDomains?, networkDomainsPath, domainsConfig, TomlValue.at?, TomlValue.field?,
    IndexMap.get?_cons]

theorem tablesAlong_domainsConfig :
    (domainsConfig profile table).TablesAlong (networkDomainsPath profile) := by
  simp [networkDomainsPath, domainsConfig, TomlValue.TablesAlong, IndexMap.get?_cons]

theorem DistinctTable.singleton (key : Text) {value : TomlValue} (h : value.DistinctKeys) :
    DistinctTable [(key, value)] :=
  DistinctTable.nil.insert key h

variable {table}

/-- The layer that says nothing but the profile's domains. -/
def domainsLayer (h : DistinctTable table) : Layer where
  value := domainsConfig profile table
  distinct := by
    rw [domainsConfig]
    repeat
      rw [TomlValue.distinctKeys_table_iff]
      apply DistinctTable.singleton
    exact TomlValue.distinctKeys_table_iff.mpr h

end OneProfile

/-- Two spellings of a host. -/
def spelledTwice (first last : Text) : TomlTable :=
  [("EXAMPLE.com".toList, .string first), ("example.com".toList, .string last)]

def otherHost : TomlTable := [("other.com".toList, .string "allow".toList)]

theorem distinct_spelledTwice (first last : Text) : DistinctTable (spelledTwice first last) where
  keys := by
    change ["EXAMPLE.com".toList, "example.com".toList].Nodup
    decide
  values := by
    intro key value hmem
    simp only [spelledTwice, List.mem_cons, Prod.mk.injEq, List.not_mem_nil, or_false] at hmem
    rcases hmem with ⟨_, rfl⟩ | ⟨_, rfl⟩
    · exact .string _
    · exact .string _

def spelledTwiceLayer (first last : Text) : Layer :=
  domainsLayer "dev".toList (distinct_spelledTwice first last)

def otherHostLayer : Layer :=
  domainsLayer "dev".toList (DistinctTable.singleton "other.com".toList (.string "allow".toList))

theorem tablesAlong_otherHost :
    otherHostLayer.value.TablesAlong (networkDomainsPath "dev".toList) :=
  tablesAlong_domainsConfig "dev".toList otherHost

theorem networkDomains?_spelledTwice (first last : Text) :
    networkDomains? (spelledTwiceLayer first last).value "dev".toList =
      some (spelledTwice first last) :=
  networkDomains?_domainsConfig _ _

theorem networkDomains?_otherHost :
    networkDomains? otherHostLayer.value "dev".toList = some otherHost :=
  networkDomains?_domainsConfig _ _

theorem denies_spelledTwice {first last : Text} (key : Text)
    (hkey : normalizeHost key = "example.com".toList)
    (hdeny : IndexMap.get? (spelledTwice first last) key = some deny) :
    Denies (spelledTwiceLayer first last).value "dev".toList "example.com".toList :=
  ⟨spelledTwice first last, key, networkDomains?_spelledTwice first last, hkey, hdeny⟩

/-- The last spelling of either host is allowed. -/
theorem lastSpelled_allowed (key : Text) : (lastSpelled otherHost key).or
    (lastSpelled (spelledTwice "deny".toList "allow".toList) key) ≠ some deny := by
  intro hlast
  have hother : lastSpelled otherHost key ≠ some deny := by
    intro hdeny
    obtain ⟨entry, hentry, hvalue⟩ := Option.map_eq_some_iff.mp hdeny
    have hmem := List.mem_reverse.mp (List.mem_of_find?_eq_some hentry)
    rw [List.mem_singleton.mp hmem] at hvalue
    exact absurd hvalue (by simp [deny])
  have hspelled : lastSpelled (spelledTwice "deny".toList "allow".toList) key ≠ some deny := by
    by_cases hkey : key = "example.com".toList
    · rw [hkey]
      exact fun hdeny => absurd (Option.some.inj hdeny) (by simp [deny])
    · intro hdeny
      obtain ⟨entry, hentry, _⟩ := Option.map_eq_some_iff.mp hdeny
      have hmem := List.mem_reverse.mp (List.mem_of_find?_eq_some hentry)
      have hnormal : normalizeHost entry.1 = key := by simpa using List.find?_some hentry
      have hall : (spelledTwice "deny".toList "allow".toList).all
          (fun entry => normalizeHost entry.1 = "example.com".toList) = true := by decide
      have hhost : normalizeHost entry.1 = "example.com".toList :=
        of_decide_eq_true (List.all_eq_true.mp hall entry hmem)
      exact hkey (hnormal.symm.trans hhost)
  rcases Option.or_eq_some_iff.mp hlast with hdeny | ⟨_, hdeny⟩
  · exact hother hdeny
  · exact hspelled hdeny

/-- Merging a layer that names another host loses the deny of a host that the base spells twice. -/
theorem merge_loses_deny :
    ¬∀ (base overlay : Layer) (profile host : Text), Denies base.value profile host →
      overlay.value.TablesAlong (networkDomainsPath profile) →
      ¬Mentions overlay.value profile host →
      Denies (base.merge overlay).value profile host := by
  intro hkept
  have hunrelated : ¬Mentions otherHostLayer.value "dev".toList "example.com".toList := by
    rintro ⟨table, key, value, htable, hmem, hkey⟩
    obtain rfl := Option.some.inj (networkDomains?_otherHost.symm.trans htable)
    obtain ⟨rfl, _⟩ := Prod.mk.inj (List.mem_singleton.mp hmem)
    exact absurd hkey (by decide)
  have hdenies := hkept (spelledTwiceLayer "deny".toList "allow".toList) otherHostLayer "dev".toList
    "example.com".toList (denies_spelledTwice "EXAMPLE.com".toList (by decide) rfl)
    tablesAlong_otherHost hunrelated
  obtain ⟨key, _, hlast⟩ := (denies_merge_tables_iff
    (networkDomains?_spelledTwice "deny".toList "allow".toList) networkDomains?_otherHost
    tablesAlong_otherHost).mp hdenies
  exact lastSpelled_allowed key hlast

/-- The deny is kept where it is the last spelling, and lost where it is the first. -/
theorem denies_merge_otherHost :
    Denies ((spelledTwiceLayer "allow".toList "deny".toList).merge otherHostLayer).value
        "dev".toList "example.com".toList ∧
      ¬Denies ((spelledTwiceLayer "deny".toList "allow".toList).merge otherHostLayer).value
        "dev".toList "example.com".toList := by
  have hlast := denies_spelledTwice "example.com".toList (by decide)
    (rfl : IndexMap.get? (spelledTwice "allow".toList "deny".toList) "example.com".toList =
      some deny)
  have hfirst := denies_spelledTwice "EXAMPLE.com".toList (by decide)
    (rfl : IndexMap.get? (spelledTwice "deny".toList "allow".toList) "EXAMPLE.com".toList =
      some deny)
  rw [denies_merge_iff hlast tablesAlong_otherHost, denies_merge_iff hfirst tablesAlong_otherHost,
    DenySpelledLast, DenySpelledLast, networkDomains?_spelledTwice, networkDomains?_spelledTwice,
    networkDomains?_otherHost, Option.getD_some, Option.getD_some, Option.getD_some]
  refine ⟨.inr ⟨"example.com".toList, by decide, rfl⟩, ?_⟩
  rintro (hnone | ⟨key, _, hdeny⟩)
  · cases hnone
  · exact lastSpelled_allowed key hdeny

end Codewith.Config
