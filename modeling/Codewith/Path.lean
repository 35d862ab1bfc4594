import Codewith.Lib.Text

/-!
# Absolute paths

`AbsolutePathBuf` is a normalised absolute path: a list of components in which
no component is empty, `.`, `..` or contains a slash.  A path as a patch or a
policy spells it is plain text; `resolvePathAgainstBase` turns one into the
other, with `~` expanded to the home directory when there is one.
-/

namespace Codewith

open Lib

/-- A path as it is spelled. -/
abbrev PathBuf := Text

namespace PathBuf

def isAbsolute (p : PathBuf) : Bool := p.head? = some '/'

/-- An absolute argument replaces the base. -/
def join (base p : PathBuf) : PathBuf :=
  if isAbsolute p then p
  else if base = [] ∨ base.getLast? = some '/' then base ++ p
  else base ++ '/' :: p

def components (p : PathBuf) : List Text := (Text.split '/' p).filter (· ≠ [])

/-- Paths are compared by their components; a dot counts only at the start of a
relative path. -/
def comparedComponents (p : PathBuf) : List Text :=
  if isAbsolute p then (components p).filter (· ≠ ['.'])
  else (components p).take 1 ++ ((components p).drop 1).filter (· ≠ ['.'])

def sameComponents (p q : PathBuf) : Bool :=
  isAbsolute p = isAbsolute q && comparedComponents p = comparedComponents q

end PathBuf

/-- A component that names a directory entry. -/
def IsNormal (c : Text) : Prop := c ≠ [] ∧ c ≠ ['.'] ∧ c ≠ ['.', '.'] ∧ '/' ∉ c

instance (c : Text) : Decidable (IsNormal c) :=
  inferInstanceAs (Decidable (c ≠ [] ∧ c ≠ ['.'] ∧ c ≠ ['.', '.'] ∧ '/' ∉ c))

structure AbsolutePathBuf where
  parts : List Text
  normal : ∀ c ∈ parts, IsNormal c
deriving DecidableEq

namespace AbsolutePathBuf

@[ext] theorem ext {p q : AbsolutePathBuf} (h : p.parts = q.parts) : p = q := by
  cases p
  cases q
  simpa using h

def root : AbsolutePathBuf := ⟨[], by simp⟩

def parent (p : AbsolutePathBuf) : Option AbsolutePathBuf :=
  if p.parts = [] then none
  else some ⟨p.parts.dropLast, fun c hc => p.normal c (List.mem_of_mem_dropLast hc)⟩

def display (p : AbsolutePathBuf) : Text := '/' :: Text.joinWith '/' p.parts

/-- `~` and `~/rest` stand for the home directory, when it is known. -/
def maybeExpandHomeDirectory (home : Option PathBuf) (path : PathBuf) : PathBuf :=
  match home, Text.stripPrefix ['~'] path with
  | some home, some rest =>
      if rest = [] then home
      else match Text.stripPrefix ['/'] rest with
        | some rest => PathBuf.join home (rest.dropWhile (· = '/'))
        | none => path
  | _, _ => path

def normalizeStep (normalized : List Text) (component : Text) : List Text :=
  if component = ['.'] then normalized
  else if component = ['.', '.'] then normalized.dropLast
  else normalized ++ [component]

def normalizePath (components : List Text) : List Text :=
  components.foldl normalizeStep []

def pathWithBase (path : PathBuf) (base : AbsolutePathBuf) : List Text :=
  if PathBuf.isAbsolute path then PathBuf.components path
  else base.parts ++ PathBuf.components path

theorem normal_of_mem_foldl_normalizeStep {components normalized : List Text}
    (hc : ∀ c ∈ components, c ≠ [] ∧ '/' ∉ c) (hn : ∀ c ∈ normalized, IsNormal c) :
    ∀ c ∈ components.foldl normalizeStep normalized, IsNormal c := by
  induction components generalizing normalized with
  | nil => exact hn
  | cons c cs ih =>
      refine ih (fun d hd => hc d (List.mem_cons_of_mem c hd)) ?_
      obtain ⟨hne, hslash⟩ := hc c List.mem_cons_self
      intro d hd
      unfold normalizeStep at hd
      split at hd
      · exact hn d hd
      · split at hd
        · exact hn d (List.mem_of_mem_dropLast hd)
        · rcases List.mem_append.1 hd with hd | hd
          · exact hn d hd
          · rw [List.mem_singleton.1 hd]
            exact ⟨hne, by assumption, by assumption, hslash⟩

theorem mem_components {p : PathBuf} {c : Text} (h : c ∈ PathBuf.components p) :
    c ≠ [] ∧ '/' ∉ c := by
  rw [PathBuf.components, List.mem_filter] at h
  exact ⟨by simpa using h.2, Text.sep_not_mem_split h.1⟩

theorem mem_pathWithBase {path : PathBuf} {base : AbsolutePathBuf} {c : Text}
    (h : c ∈ pathWithBase path base) : c ≠ [] ∧ '/' ∉ c := by
  unfold pathWithBase at h
  split at h
  · exact mem_components h
  · rcases List.mem_append.1 h with h | h
    · exact ⟨(base.normal c h).1, (base.normal c h).2.2.2⟩
    · exact mem_components h

def absolutizeFrom (path : PathBuf) (base : AbsolutePathBuf) : AbsolutePathBuf :=
  ⟨normalizePath (pathWithBase path base),
    normal_of_mem_foldl_normalizeStep (fun _ hc => mem_pathWithBase hc) (by simp)⟩

def resolvePathAgainstBase (home : Option PathBuf) (path : PathBuf) (base : AbsolutePathBuf) :
    AbsolutePathBuf :=
  absolutizeFrom (maybeExpandHomeDirectory home path) base

def join (home : Option PathBuf) (p : AbsolutePathBuf) (path : PathBuf) : AbsolutePathBuf :=
  resolvePathAgainstBase home path p

theorem foldl_normalizeStep_of_normal {components : List Text}
    (h : ∀ c ∈ components, IsNormal c) (normalized : List Text) :
    components.foldl normalizeStep normalized = normalized ++ components := by
  induction components generalizing normalized with
  | nil => simp
  | cons c components ih =>
      obtain ⟨-, hdot, hdots, -⟩ := h c List.mem_cons_self
      have hstep : normalizeStep normalized c = normalized ++ [c] := by
        rw [normalizeStep, if_neg hdot, if_neg hdots]
      rw [List.foldl_cons, hstep, ih fun d hd => h d (List.mem_cons_of_mem c hd)]
      simp

/-- A plain name is joined as one more component. -/
theorem parts_join_of_components {path : PathBuf} {name : Text}
    (hhome : Text.stripPrefix ['~'] path = none) (hrelative : PathBuf.isAbsolute path = false)
    (hcomponents : PathBuf.components path = [name]) (hnormal : IsNormal name)
    (home : Option PathBuf) (p : AbsolutePathBuf) :
    (p.join home path).parts = p.parts ++ [name] := by
  have hexpand : maybeExpandHomeDirectory home path = path := by
    cases home with
    | none => rfl
    | some home => simp only [maybeExpandHomeDirectory, hhome]
  have hnormalParts : ∀ c ∈ p.parts ++ [name], IsNormal c := by
    intro c hc
    rcases List.mem_append.1 hc with hc | hc
    · exact p.normal c hc
    · rw [List.mem_singleton.1 hc]
      exact hnormal
  have hparts : pathWithBase path p = p.parts ++ [name] := by
    simp [pathWithBase, hrelative, hcomponents]
  simp only [join, resolvePathAgainstBase, absolutizeFrom, hexpand, hparts, normalizePath]
  rw [foldl_normalizeStep_of_normal hnormalParts, List.nil_append]

end AbsolutePathBuf

end Codewith
