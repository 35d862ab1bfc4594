import Codewith.Lib.IndexMap
import Codewith.NetworkProxy.Policy

/-!
# Merging configuration layers

A layer is a table of values.  Merging a layer over another one goes down the tables that both have
and replaces everything else.  On the way legacy keys are renamed, and the hosts of a permission
profile's network domains are brought to their normal form when both layers list domains.
-/

namespace Codewith.Config

open Lib
open NetworkProxy (normalizeHost)

/-- A value of a layer.  Floating-point numbers and dates are only copied. -/
inductive TomlValue
  | string (value : Text)
  | integer (value : Int)
  | float (bits : UInt64)
  | boolean (value : Bool)
  | datetime (value : Text)
  | array (items : List TomlValue)
  | table (entries : List (Text × TomlValue))

abbrev TomlTable := List (Text × TomlValue)

/-! ### Key aliases -/

structure ConfigKeyAlias where
  tablePath : List Text
  legacyKey : Text
  canonicalKey : Text

def configKeyAliases : List ConfigKeyAlias :=
  [{ tablePath := ["memories".toList]
     legacyKey := "no_memories_if_mcp_or_web_search".toList
     canonicalKey := "disable_on_external_context".toList }]

def applyKeyAlias (path : List Text) (table : TomlTable) (keyAlias : ConfigKeyAlias) : TomlTable :=
  if path = keyAlias.tablePath then
    match IndexMap.get? table keyAlias.legacyKey with
    | none => table
    | some value =>
        let table := IndexMap.remove table keyAlias.legacyKey
        if (IndexMap.get? table keyAlias.canonicalKey).isSome then table
        else IndexMap.insert table keyAlias.canonicalKey value
  else table

def normalizeKeyAliases (path : List Text) (table : TomlTable) : TomlTable :=
  configKeyAliases.foldl (applyKeyAlias path) table

def normalizedWithKeyAliases (value : TomlValue) (path : List Text) : TomlValue :=
  match value with
  | .table entries =>
      .table (normalizeKeyAliases path
        (entries.foldl (fun normalized entry =>
          IndexMap.insert normalized entry.1
            (normalizedWithKeyAliases entry.2 (path ++ [entry.1]))) []))
  | .array items => .array (items.map fun item => normalizedWithKeyAliases item path)
  | value => value
termination_by sizeOf value
decreasing_by
  · have hentry : sizeOf entry < sizeOf entries := List.sizeOf_lt_of_mem ‹_›
    cases entry
    simp only [Prod.mk.sizeOf_spec, TomlValue.table.sizeOf_spec] at hentry ⊢
    omega
  · have hitem : sizeOf item < sizeOf items := List.sizeOf_lt_of_mem ‹_›
    simp only [TomlValue.array.sizeOf_spec]
    omega

/-! ### Network domains -/

def isPermissionNetworkDomainsPath : List Text → Bool
  | [permissions, _, network, domains] =>
      permissions = "permissions".toList ∧ network = "network".toList ∧ domains = "domains".toList
  | _ => false

def normalizeNetworkDomainKeys (table : TomlTable) : TomlTable :=
  table.foldl (fun table entry => IndexMap.insert table (normalizeHost entry.1) entry.2) []

/-- A table of either layer, as it is before the entries are merged. -/
def preparedTable (path : List Text) (table : TomlTable) : TomlTable :=
  let table := normalizeKeyAliases path table
  if isPermissionNetworkDomainsPath path then normalizeNetworkDomainKeys table else table

/-! ### Merging -/

/-- Preparing a table renames keys and drops entries, and leaves the values. -/
theorem exists_mem_of_mem_applyKeyAlias {path : List Text} {table : TomlTable}
    {keyAlias : ConfigKeyAlias} {key : Text} {value : TomlValue}
    (h : (key, value) ∈ applyKeyAlias path table keyAlias) : ∃ key', (key', value) ∈ table := by
  rw [applyKeyAlias] at h
  split at h
  · split at h
    · exact ⟨key, h⟩
    · rename_i legacy hlegacy
      dsimp only at h
      split at h
      · exact ⟨key, IndexMap.mem_remove h⟩
      · rcases IndexMap.mem_insert h with hnew | hold
        · rw [Prod.mk.injEq] at hnew
          exact ⟨_, hnew.2 ▸ IndexMap.mem_of_get? hlegacy⟩
        · exact ⟨key, IndexMap.mem_remove hold⟩
  · exact ⟨key, h⟩

theorem exists_mem_of_mem_normalizeKeyAliases {path : List Text} {table : TomlTable} {key : Text}
    {value : TomlValue} (h : (key, value) ∈ normalizeKeyAliases path table) :
    ∃ key', (key', value) ∈ table := by
  rw [normalizeKeyAliases] at h
  generalize configKeyAliases = aliases at h
  induction aliases generalizing table with
  | nil => exact ⟨key, h⟩
  | cons keyAlias aliases ih =>
      obtain ⟨key', hkey'⟩ := ih h
      exact exists_mem_of_mem_applyKeyAlias hkey'

theorem exists_mem_of_mem_preparedTable {path : List Text} {table : TomlTable} {key : Text}
    {value : TomlValue} (h : (key, value) ∈ preparedTable path table) :
    ∃ key', (key', value) ∈ table := by
  rw [preparedTable] at h
  split at h
  · rcases IndexMap.mem_foldl_insert h with ⟨⟨first, firstValue⟩, hfirst, hnew⟩ | hnil
    · obtain ⟨_, rfl⟩ := Prod.mk.inj hnew
      exact exists_mem_of_mem_normalizeKeyAliases hfirst
    · cases hnil
  · exact exists_mem_of_mem_normalizeKeyAliases h

theorem sizeOf_of_mem_preparedTable {path : List Text} {table : TomlTable}
    {entry : Text × TomlValue} (h : entry ∈ preparedTable path table) :
    sizeOf entry.2 < sizeOf table := by
  obtain ⟨key, hkey⟩ := exists_mem_of_mem_preparedTable h
  have hentry := List.sizeOf_lt_of_mem hkey
  simp only [Prod.mk.sizeOf_spec] at hentry
  omega

/-- One entry of the overlay: `merged` is the value over one that is there already, `fresh` the
value where there is none. -/
def mergeEntry (merged : TomlValue → TomlValue) (fresh : TomlValue) (table : TomlTable)
    (key : Text) : TomlTable :=
  match IndexMap.get? table key with
  | some existing => IndexMap.insert table key (merged existing)
  | none => IndexMap.insert table key fresh

def mergeTomlValuesAtPath (base overlay : TomlValue) (path : List Text) : TomlValue :=
  match overlay, base with
  | .table overlayTable, .table baseTable =>
      .table ((preparedTable path overlayTable).attach.foldl
        (fun table entry =>
          mergeEntry
            (fun existing => mergeTomlValuesAtPath existing entry.1.2 (path ++ [entry.1.1]))
            (normalizedWithKeyAliases entry.1.2 (path ++ [entry.1.1])) table entry.1.1)
        (preparedTable path baseTable))
  | overlay, _ => normalizedWithKeyAliases overlay path
termination_by sizeOf overlay
decreasing_by
  have hentry := sizeOf_of_mem_preparedTable entry.2
  simp only [TomlValue.table.sizeOf_spec]
  omega

def mergeTomlValues (base overlay : TomlValue) : TomlValue := mergeTomlValuesAtPath base overlay []

end Codewith.Config
