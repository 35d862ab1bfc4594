import Codewith.Config.Merge

/-!
# Layers

The keys of a table are distinct, in a layer and in every table inside it.  Merging layers keeps
this, so that a merged configuration is a layer again.
-/

namespace Codewith.Config

open Lib

/-- The tables of the value have distinct keys. -/
inductive TomlValue.DistinctKeys : TomlValue → Prop
  | string (value : Text) : DistinctKeys (.string value)
  | integer (value : Int) : DistinctKeys (.integer value)
  | float (bits : UInt64) : DistinctKeys (.float bits)
  | boolean (value : Bool) : DistinctKeys (.boolean value)
  | datetime (value : Text) : DistinctKeys (.datetime value)
  | array (items : List TomlValue) (hitems : ∀ item ∈ items, DistinctKeys item) :
      DistinctKeys (.array items)
  | table (entries : List (Text × TomlValue)) (hkeys : (entries.map Prod.fst).Nodup)
      (hvalues : ∀ key value, (key, value) ∈ entries → DistinctKeys value) :
      DistinctKeys (.table entries)

/-- The keys of a table are distinct, and so are those of its values. -/
structure DistinctTable (table : TomlTable) : Prop where
  keys : (table.map Prod.fst).Nodup
  values : ∀ key value, (key, value) ∈ table → value.DistinctKeys

theorem TomlValue.distinctKeys_table_iff {table : TomlTable} :
    (TomlValue.table table).DistinctKeys ↔ DistinctTable table := by
  constructor
  · rintro (_ | _ | _ | _ | _ | _ | ⟨_, hkeys, hvalues⟩)
    exact ⟨hkeys, hvalues⟩
  · rintro ⟨hkeys, hvalues⟩
    exact .table table hkeys hvalues

namespace DistinctTable

variable {table : TomlTable}

theorem nil : DistinctTable [] where
  keys := List.nodup_nil
  values := by simp

theorem insert (h : DistinctTable table) (key : Text) {value : TomlValue}
    (hvalue : value.DistinctKeys) : DistinctTable (IndexMap.insert table key value) where
  keys := IndexMap.nodup_keys_insert h.keys
  values := by
    intro key' value' hmem
    rcases IndexMap.mem_insert hmem with hnew | hold
    · obtain ⟨_, rfl⟩ := Prod.mk.inj hnew
      exact hvalue
    · exact h.values key' value' hold

theorem remove (h : DistinctTable table) (key : Text) :
    DistinctTable (IndexMap.remove table key) where
  keys := IndexMap.nodup_keys_remove h.keys
  values := fun key' value' hmem => h.values key' value' (IndexMap.mem_remove hmem)

theorem applyKeyAlias (h : DistinctTable table) (path : List Text) (keyAlias : ConfigKeyAlias) :
    DistinctTable (applyKeyAlias path table keyAlias) := by
  rw [Config.applyKeyAlias]
  split
  · split
    · exact h
    · rename_i legacy hlegacy
      have hvalue := h.values _ legacy (IndexMap.mem_of_get? hlegacy)
      have hremoved := h.remove keyAlias.legacyKey
      dsimp only
      split
      · exact hremoved
      · exact hremoved.insert keyAlias.canonicalKey hvalue
  · exact h

theorem normalizeKeyAliases (h : DistinctTable table) (path : List Text) :
    DistinctTable (normalizeKeyAliases path table) := by
  rw [Config.normalizeKeyAliases]
  generalize configKeyAliases = aliases
  induction aliases generalizing table with
  | nil => exact h
  | cons keyAlias aliases ih => exact ih (h.applyKeyAlias path keyAlias)

/-- Entries inserted one after another keep the keys distinct. -/
theorem foldl_insert {xs : List (Text × TomlValue)} {key : Text × TomlValue → Text}
    {value : Text × TomlValue → TomlValue} (h : DistinctTable table)
    (hxs : ∀ x ∈ xs, (value x).DistinctKeys) :
    DistinctTable (xs.foldl (fun table x => IndexMap.insert table (key x) (value x)) table) := by
  induction xs generalizing table with
  | nil => exact h
  | cons x xs ih =>
      rw [List.foldl_cons]
      apply ih (h.insert (key x) (hxs x List.mem_cons_self))
      exact fun y hy => hxs y (List.mem_cons_of_mem x hy)

theorem normalizeNetworkDomainKeys (h : DistinctTable table) :
    DistinctTable (normalizeNetworkDomainKeys table) := by
  rw [Config.normalizeNetworkDomainKeys]
  apply foldl_insert nil
  rintro ⟨key, value⟩ hmem
  exact h.values key value hmem

theorem preparedTable (h : DistinctTable table) (path : List Text) :
    DistinctTable (preparedTable path table) := by
  rw [Config.preparedTable]
  split
  · exact (h.normalizeKeyAliases path).normalizeNetworkDomainKeys
  · exact h.normalizeKeyAliases path

theorem mergeEntry (h : DistinctTable table) {merged : TomlValue → TomlValue} {fresh : TomlValue}
    (key : Text) (hmerged : ∀ existing, existing.DistinctKeys → (merged existing).DistinctKeys)
    (hfresh : fresh.DistinctKeys) : DistinctTable (mergeEntry merged fresh table key) := by
  rw [Config.mergeEntry]
  split
  · rename_i existing hexisting
    apply h.insert key
    exact hmerged existing (h.values key existing (IndexMap.mem_of_get? hexisting))
  · exact h.insert key hfresh

end DistinctTable

theorem TomlValue.DistinctKeys.normalized {value : TomlValue} (h : value.DistinctKeys)
    (path : List Text) : (normalizedWithKeyAliases value path).DistinctKeys := by
  induction value, path using normalizedWithKeyAliases.induct with
  | case1 path entries ih =>
      have htable := distinctKeys_table_iff.mp h
      rw [normalizedWithKeyAliases, distinctKeys_table_iff]
      apply DistinctTable.normalizeKeyAliases
      apply DistinctTable.foldl_insert .nil
      rintro ⟨key, value⟩ hmem
      exact ih (key, value) hmem (htable.values key value hmem)
  | case2 path items ih =>
      have hitems : ∀ item ∈ items, item.DistinctKeys := by
        cases h
        assumption
      rw [normalizedWithKeyAliases]
      apply TomlValue.DistinctKeys.array
      intro item hmem
      obtain ⟨item, hitem, rfl⟩ := List.mem_map.mp hmem
      exact ih item hitem (hitems item hitem)
  | case3 path value hnotTable hnotArray =>
      rw [normalizedWithKeyAliases]
      · exact h
      · exact hnotTable
      · exact hnotArray

theorem TomlValue.DistinctKeys.merge {base overlay : TomlValue} (hbase : base.DistinctKeys)
    (hoverlay : overlay.DistinctKeys) (path : List Text) :
    (mergeTomlValuesAtPath base overlay path).DistinctKeys := by
  induction base, overlay, path using mergeTomlValuesAtPath.induct with
  | case1 path overlayTable baseTable ih =>
      have hover := (distinctKeys_table_iff.mp hoverlay).preparedTable path
      have hunder := (distinctKeys_table_iff.mp hbase).preparedTable path
      rw [mergeTomlValuesAtPath, distinctKeys_table_iff]
      generalize preparedTable path baseTable = table at hunder
      generalize (preparedTable path overlayTable).attach = entries at ih
      induction entries generalizing table with
      | nil => exact hunder
      | cons entry entries ihEntries =>
          have hvalue := hover.values entry.1.1 entry.1.2 entry.2
          rw [List.foldl_cons]
          apply ihEntries
          apply hunder.mergeEntry entry.1.1
          · exact fun existing hexisting => ih entry existing hexisting hvalue
          · exact hvalue.normalized _
  | case2 base path overlay hnot =>
      rw [mergeTomlValuesAtPath]
      · exact hoverlay.normalized path
      · exact hnot

/-- A configuration layer. -/
structure Layer where
  value : TomlValue
  distinct : value.DistinctKeys

/-- The layer `overlay` over the layer `base`. -/
def Layer.merge (base overlay : Layer) : Layer where
  value := mergeTomlValues base.value overlay.value
  distinct := base.distinct.merge overlay.distinct []

end Codewith.Config
